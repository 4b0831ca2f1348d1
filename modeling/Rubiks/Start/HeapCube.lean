import Rubiks.Start.Heap
import Rubiks.Start.Runs
import Mathlib.Tactic.DeriveFintype

/-!
# The heap represents the cube

A cube owns 31 blocks: its own, one for each face and four neighbours for each
face. `CubeAt base L c` places the contents of the value `c` at the addresses `L`
on top of whatever else is allocated. Each function of `rubiks_start.c` keeps the
placement and computes what the function on values computes; the copy that
`rotate` makes is gone when it returns.
-/

namespace Rubiks.OnHeap

open Logic Prog

variable {A : Allocator Struct} {limit : Nat} {h : Heap Struct} {base mid blocks : Blocks Struct} {p q : Address}

/-! ## The laws of the accesses -/

section Access

variable {α : Type} {next : α → Heap Struct → Prop} {done : Unit → Heap Struct → Prop}

theorem adjacentFaceAt_eq {s : AdjacentFaceBlock} (found : h.blocks p = some (.adjacentFace s)) :
    adjacentFaceAt p h = .ok (s, h) := by
  show (Prog.read p h >>= fun r => _) = _
  rw [read_eq found]
  rfl

theorem faceAt_eq {s : FaceBlock} (found : h.blocks p = some (.face s)) : faceAt p h = .ok (s, h) := by
  show (Prog.read p h >>= fun r => _) = _
  rw [read_eq found]
  rfl

theorem cubeAt_eq {s : CubeBlock} (found : h.blocks p = some (.cube s)) : cubeAt p h = .ok (s, h) := by
  show (Prog.read p h >>= fun r => _) = _
  rw [read_eq found]
  rfl

theorem wp_write {b : Struct} (alive : h.blocks p ≠ none)
    (pre : done () (h.store p b)) : wp A limit (write p b) done h :=
  wp_of_eq (write_eq alive) pre

theorem wp_loadFaceNum {next : Int → Heap Struct → Prop} {s : AdjacentFaceBlock} {v : Int}
    (found : h.blocks p = some (.adjacentFace s)) (value : s.face = some v) (pre : next v h) :
    wp A limit (loadFaceNum p) next h :=
  wp_bind (wp_of_eq (adjacentFaceAt_eq found) (wp_defined value pre))

theorem wp_loadEdgeSquare {next : Int → Heap Struct → Prop} {s : AdjacentFaceBlock} {ind : Fin 3} {v : Int}
    (found : h.blocks p = some (.adjacentFace s)) (value : s.edgeSquares ind = some v) (pre : next v h) :
    wp A limit (loadEdgeSquare p ind) next h :=
  wp_bind (wp_of_eq (adjacentFaceAt_eq found) (wp_defined value pre))

theorem wp_storeFaceNum {s : AdjacentFaceBlock} {v : Int} (found : h.blocks p = some (.adjacentFace s))
    (pre : done () (h.store p (.adjacentFace { s with face := some v }))) :
    wp A limit (storeFaceNum p v) done h :=
  wp_bind (wp_of_eq (adjacentFaceAt_eq found) (wp_write (by simp [found]) pre))

theorem wp_storeEdgeSquare {s : AdjacentFaceBlock} {ind : Fin 3} {v : Int}
    (found : h.blocks p = some (.adjacentFace s))
    (pre : done () (h.store p (.adjacentFace { s with edgeSquares := Function.update s.edgeSquares ind (some v) }))) :
    wp A limit (storeEdgeSquare p ind v) done h :=
  wp_bind (wp_of_eq (adjacentFaceAt_eq found) (wp_write (by simp [found]) pre))

theorem wp_loadColor {next : Int → Heap Struct → Prop} {s : FaceBlock} {square : Fin 9} {k v : Int}
    (inRange : index 9 k = some square) (found : h.blocks p = some (.face s)) (value : s.colors square = some v)
    (pre : next v h) : wp A limit (loadColor p k) next h :=
  wp_bind (wp_defined inRange (wp_bind (wp_of_eq (faceAt_eq found) (wp_defined value pre))))

theorem wp_storeColor {s : FaceBlock} {square : Fin 9} {k v : Int} (inRange : index 9 k = some square)
    (found : h.blocks p = some (.face s))
    (pre : done () (h.store p (.face { s with colors := Function.update s.colors square (some v) }))) :
    wp A limit (storeColor p k v) done h :=
  wp_bind (wp_defined inRange (wp_bind (wp_of_eq (faceAt_eq found) (wp_write (by simp [found]) pre))))

theorem wp_loadAdjacentFace {next : Address → Heap Struct → Prop} {s : FaceBlock} {ind : Fin 4}
    (found : h.blocks p = some (.face s)) (value : s.adjacentFaces ind = some q) (pre : next q h) :
    wp A limit (loadAdjacentFace p ind) next h :=
  wp_bind (wp_of_eq (faceAt_eq found) (wp_defined value pre))

theorem wp_storeAdjacentFace {s : FaceBlock} {ind : Fin 4} (found : h.blocks p = some (.face s))
    (pre : done () (h.store p (.face { s with adjacentFaces := Function.update s.adjacentFaces ind (some q) }))) :
    wp A limit (storeAdjacentFace p ind q) done h :=
  wp_bind (wp_of_eq (faceAt_eq found) (wp_write (by simp [found]) pre))

theorem wp_loadFace {next : Address → Heap Struct → Prop} {s : CubeBlock} {face : FaceId} {k : Int}
    (inRange : index 6 k = some face) (found : h.blocks p = some (.cube s)) (value : s.faces face = some q)
    (pre : next q h) : wp A limit (loadFace p k) next h :=
  wp_bind (wp_defined inRange (wp_bind (wp_of_eq (cubeAt_eq found) (wp_defined value pre))))

theorem wp_storeFace {s : CubeBlock} {face : FaceId} (found : h.blocks p = some (.cube s))
    (pre : done () (h.store p (.cube { s with faces := Function.update s.faces face (some q) }))) :
    wp A limit (storeFace p face q) done h :=
  wp_bind (wp_of_eq (cubeAt_eq found) (wp_write (by simp [found]) pre))

end Access

/-! ## What a cube's blocks hold -/

/-- The block of a neighbour. -/
def neighbourBlock (a : AdjacentFace) : Struct :=
  .adjacentFace { face := some a.face, edgeSquares := fun ind => some (a.edgeSquares ind) }

/-- The block of a face whose neighbours are at `adjacentFaces`. -/
def colorsBlock (colors : Fin 9 → Int) (adjacentFaces : Fin 4 → Address) : Struct :=
  .face { colors := fun s => some (colors s), adjacentFaces := fun ind => some (adjacentFaces ind) }

/-- A block of a face: its own (`none`) or one of its neighbours'. -/
abbrev FacePart := Option (Fin 4)

/-- The contents of a face's five blocks. -/
def faceContents (l : FacePart → Address) (x : Face) : FacePart → Struct
  | none => colorsBlock x.colors fun ind => l (some ind)
  | some ind => neighbourBlock (x.adjacentFaces ind)

/-- A block of a cube. -/
inductive Part where
  | cube
  | face (f : FaceId)
  | adjacentFace (f : FaceId) (ind : Fin 4)
  deriving DecidableEq, Fintype

theorem card_part : Fintype.card Part = 31 := rfl

/-- The blocks of one face of a cube. -/
def Part.ofFace (f : FaceId) : FacePart → Part
  | none => .face f
  | some ind => .adjacentFace f ind

theorem Part.ofFace_injective (f : FaceId) : Function.Injective (Part.ofFace f) := by
  rintro (_ | i) (_ | j) same
  · rfl
  · cases same
  · cases same
  · cases same; rfl

/-- The contents of a cube's 31 blocks. -/
def contents (L : Part → Address) (c : Cube) : Part → Struct
  | .cube => .cube { faces := fun f => some (L (.face f)) }
  | .face f => colorsBlock (c.faces f).colors fun ind => L (.adjacentFace f ind)
  | .adjacentFace f ind => neighbourBlock ((c.faces f).adjacentFaces ind)

theorem contents_ofFace (L : Part → Address) (c : Cube) (f : FaceId) :
    contents L c ∘ Part.ofFace f = faceContents (L ∘ Part.ofFace f) (c.faces f) := by
  funext o
  cases o <;> rfl

/-- The cube `c` at the addresses `L`, on top of `base`. -/
abbrev CubeAt (base : Blocks Struct) (L : Part → Address) (c : Cube) (blocks : Blocks Struct) : Prop :=
  Placed base L (contents L c) Set.univ blocks

/-- A cube is 31 blocks. -/
theorem CubeAt.live_cube {L : Part → Address} {c : Cube} (cube : CubeAt base L c blocks) :
    live blocks = live base + 31 := by
  rw [Placed.live_eq cube, Set.encard_univ, ENat.card_eq_coe_fintype_card, card_part]
  rfl

/-- The face `x` at the addresses `l`, on top of `base`. -/
abbrev FaceAt (base : Blocks Struct) (l : FacePart → Address) (x : Face) (blocks : Blocks Struct) : Prop :=
  Placed base l (faceContents l x) Set.univ blocks

/-! ## Allocation -/

/-- Three stores fill the edge squares of a neighbour. -/
theorem fill_edgeSquares (s : AdjacentFaceBlock) (v : Fin 3 → Int) :
    (List.finRange 3).foldl (fun (s : AdjacentFaceBlock) ind =>
      { s with edgeSquares := Function.update s.edgeSquares ind (some (v ind)) }) s =
      { s with edgeSquares := fun ind => some (v ind) } :=
  foldl_set_cells AdjacentFaceBlock.edgeSquares (fun s x => { s with edgeSquares := x })
    (fun _ _ => rfl) (fun _ => rfl) (fun _ _ _ => rfl) List.mem_finRange (fun ind => some (v ind)) s

/-- Nine stores fill the colours of a face. -/
theorem fill_colors (s : FaceBlock) (v : Fin 9 → Int) :
    (List.finRange 9).foldl (fun (s : FaceBlock) ind =>
      { s with colors := Function.update s.colors ind (some (v ind)) }) s =
      { s with colors := fun ind => some (v ind) } :=
  foldl_set_cells FaceBlock.colors (fun s x => { s with colors := x })
    (fun _ _ => rfl) (fun _ => rfl) (fun _ _ _ => rfl) List.mem_finRange (fun ind => some (v ind)) s

theorem makeAdjacentFace_spec (a : AdjacentFace) (room : live h.blocks + 1 ≤ limit) :
    wp A limit (makeAdjacentFace A a.face a.edgeSquares)
      (fun p h' => h.blocks p = none ∧ h'.blocks = Function.update h.blocks p (some (neighbourBlock a))) h := by
  refine wp_bind (wp_malloc room fun p requests free => ?_)
  refine wp_bind (wp_storeFaceNum (Function.update_self ..) ?_)
  refine wp_bind (wp_mono (wp_forM_foldl
    (fun s ind => { s with edgeSquares := Function.update s.edgeSquares ind (some (a.edgeSquares ind)) })
    (fun (s : AdjacentFaceBlock) (h' : Heap Struct) =>
      h'.blocks = Function.update h.blocks p (some (.adjacentFace s)))
    (fun ind s h' held => ?_) (List.finRange 3) (Function.update_idem ..)) fun _ h' held => ?_)
  · refine wp_storeEdgeSquare (by rw [held, Function.update_self]) ?_
    rw [Heap.blocks_store, held, Function.update_idem]
  · rw [fill_edgeSquares] at held
    exact wp_pure ⟨free, held⟩

/-- The blocks of a face whose first neighbours are `made`. -/
def madeFace (l : FacePart → Address) (x : Face) (made : List (Fin 4)) : FacePart → Struct
  | none => .face {
      colors := fun s => some (x.colors s)
      adjacentFaces := fun ind => if ind ∈ made then some (l (some ind)) else none }
  | some ind => neighbourBlock (x.adjacentFaces ind)

/-- The parts of a face whose first neighbours are `made`. -/
def madeParts (made : List (Fin 4)) : Set FacePart := {o | ∀ ind, o = some ind → ind ∈ made}

theorem madeParts_nil : madeParts [] = Insert.insert none ∅ := by
  ext o
  cases o <;> simp [madeParts]

theorem madeParts_all : madeParts (List.finRange 4) = Set.univ :=
  Set.eq_univ_of_forall fun _ ind _ => List.mem_finRange ind

/-- A neighbour more. -/
theorem madeFace_store {l : FacePart → Address} {x : Face} {made : List (Fin 4)} {ind : Fin 4} (new : ind ∉ made)
    (h : Placed base l (madeFace l x made) (madeParts made) blocks) (free : blocks p = none) :
    Placed base (Function.update l (some ind) p) (madeFace (Function.update l (some ind) p) x (made ++ [ind]))
      (madeParts (made ++ [ind]))
      (Function.update (Function.update blocks p (some (neighbourBlock (x.adjacentFaces ind)))) (l none)
        (some (.face {
          colors := fun s => some (x.colors s)
          adjacentFaces := Function.update (fun k => if k ∈ made then some (l (some k)) else none) ind (some p) }))) := by
  have absent : some ind ∉ madeParts made := fun mem => new (mem ind rfl)
  have placed := (h.insert absent free (neighbourBlock (x.adjacentFaces ind))).update (k := none)
    (.inr fun k eq => by cases eq) (.face {
      colors := fun s => some (x.colors s)
      adjacentFaces := Function.update (fun k => if k ∈ made then some (l (some k)) else none) ind (some p) })
  have parts : Insert.insert (some ind) (madeParts made) = madeParts (made ++ [ind]) := by
    ext o
    cases o <;> simp [madeParts, or_comm]
  rw [parts] at placed
  refine placed.congr _ _ (fun _ _ => rfl) fun o mem => ?_
  cases o with
  | none =>
    rw [Function.update_self]
    simp only [madeFace, Struct.face.injEq, FaceBlock.mk.injEq, true_and]
    funext k
    by_cases same : k = ind
    · subst same; simp
    · simp [same]
  | some k =>
    by_cases same : k = ind
    · subst same; simp [madeFace]
    · simp [madeFace, same]

theorem makeFace_spec (f : FaceId) (room : live h.blocks + 5 ≤ limit) :
    wp A limit (makeFace A f)
      (fun p h' => ∃ l, l none = p ∧ FaceAt h.blocks l (Rubiks.makeFace f) h'.blocks) h := by
  have enough : live h.blocks + Fintype.card FacePart ≤ limit := by simpa using room
  have one : live h.blocks + 1 ≤ limit := le_trans (by gcongr; decide) room
  refine wp_bind (wp_malloc one fun p requests free => ?_)
  refine wp_bind (wp_mono (wp_forM_foldl
    (fun s ind => { s with colors := Function.update s.colors ind (some ((Rubiks.makeFace f).colors ind)) })
    (fun (s : FaceBlock) (h' : Heap Struct) => h'.blocks = Function.update h.blocks p (some (.face s)))
    (fun ind s h' held => ?_) (List.finRange 9) rfl) fun _ h' held => ?_)
  · refine wp_storeColor (index_fin ind) (by rw [held, Function.update_self]) ?_
    rw [Heap.blocks_store, held, Function.update_idem]
    rfl
  rw [fill_colors] at held
  refine wp_bind (wp_mono (wp_forM_done (List.nodup_finRange 4) (fun made h' => ∃ l, l none = p ∧
    Placed h.blocks l (madeFace l (Rubiks.makeFace f) made) (madeParts made) h'.blocks) ?_ ?_) ?_)
  · rintro made ind h' new ⟨l, own, placed⟩
    have absent : Disjoint (madeParts made) {some ind} := by
      rw [Set.disjoint_singleton_right]
      exact fun mem => new (mem ind rfl)
    have left := placed.room enough absent
    rw [Set.encard_singleton] at left
    refine wp_bind (wp_mono (makeAdjacentFace_spec ((Rubiks.makeFace f).adjacentFaces ind) left) ?_)
    rintro q h'' ⟨free, allocated⟩
    have face := placed.inside none (fun k eq => by cases eq)
    have differ : l none ≠ q := by
      intro same
      rw [same, free] at face
      cases face
    refine wp_storeAdjacentFace (by rw [allocated, ← own, Function.update_of_ne differ, face]; rfl)
      ⟨Function.update l (some ind) q, by simpa using own, ?_⟩
    rw [Heap.blocks_store, allocated, ← own]
    exact madeFace_store new placed free
  · have placed := (Placed.empty (fun _ => p) (madeFace (fun _ => p) (Rubiks.makeFace f) [])).insert (k := none) id
      free (madeFace (fun _ => p) (Rubiks.makeFace f) [] none)
    rw [Function.update_eq_self, Function.update_eq_self_iff.2 rfl, ← madeParts_nil] at placed
    refine ⟨fun _ => p, rfl, ?_⟩
    rw [held]
    simpa [madeFace] using placed
  · rintro _ h' ⟨l, own, placed⟩
    rw [madeParts_all] at placed
    refine wp_pure ⟨l, own, placed.congr _ _ (fun _ _ => rfl) fun o _ => ?_⟩
    cases o with
    | none => simp [faceContents, madeFace, colorsBlock]
    | some ind => rfl

/-- The addresses `L` with face `f` at `l`. -/
def replaceFace (L : Part → Address) (f : FaceId) (l : FacePart → Address) : Part → Address
  | .cube => L .cube
  | .face g => if g = f then l none else L (.face g)
  | .adjacentFace g ind => if g = f then l (some ind) else L (.adjacentFace g ind)

theorem replaceFace_ofFace (L : Part → Address) (f : FaceId) (l : FacePart → Address) (o : FacePart) :
    replaceFace L f l (Part.ofFace f o) = l o := by
  cases o <;> simp [replaceFace, Part.ofFace]

theorem replaceFace_of_not {L : Part → Address} {f : FaceId} {l : FacePart → Address} {o : Part}
    (other : o ∉ Set.range (Part.ofFace f)) : replaceFace L f l o = L o := by
  cases o with
  | cube => rfl
  | face g => exact if_neg fun same => other ⟨none, by rw [same]; rfl⟩
  | adjacentFace g ind => exact if_neg fun same => other ⟨some ind, by rw [same]; rfl⟩

/-- The contents `x` with face `f` replaced by `y` at `l` and the pointers of the
cube's own block by `faces`. -/
def replaceContents (x : Part → Struct) (f : FaceId) (l : FacePart → Address) (y : Face)
    (faces : FaceId → Option Address) : Part → Struct
  | .cube => .cube { faces := faces }
  | .face g => if g = f then faceContents l y none else x (.face g)
  | .adjacentFace g ind => if g = f then faceContents l y (some ind) else x (.adjacentFace g ind)

/-- A face placed on top of the other parts of a cube, once its address is stored. -/
theorem attachFace {L : Part → Address} {x : Part → Struct} {S : Set Part} {f : FaceId} {l : FacePart → Address}
    {y : Face} (own : Part.cube ∈ S) (new : ∀ o, Part.ofFace f o ∉ S) (below : Placed base L x S mid)
    (face : FaceAt mid l y blocks) (faces : FaceId → Option Address) :
    Placed base (replaceFace L f l) (replaceContents x f l y faces) (S ∪ Set.range (Part.ofFace f))
      (Function.update blocks (L .cube) (some (.cube { faces := faces }))) := by
  have other : ∀ o ∈ S, o ∉ Set.range (Part.ofFace f) := by
    rintro _ mem ⟨o, rfl⟩
    exact new o mem
  -- all contents but the cube's own block
  have joined := (below.congr (replaceFace L f l)
    (fun o => if o = .cube then x .cube else replaceContents x f l y faces o)
    (fun o mem => replaceFace_of_not (other o mem)) (fun o mem => ?_)).attach face (e := Part.ofFace f)
    (replaceFace_ofFace L f l) fun o => ?_
  · refine (joined.update (k := .cube) (.inl own) _).congr _ _ (fun _ _ => rfl) fun o _ => ?_
    by_cases cube : o = .cube
    · subst cube; rw [Function.update_self]; rfl
    · rw [Function.update_of_ne cube, if_neg cube]
  · cases o with
    | cube => rfl
    | face g =>
      have differ : g ≠ f := fun same => other _ mem ⟨none, by rw [← same]; rfl⟩
      simp [replaceContents, differ]
    | adjacentFace g ind =>
      have differ : g ≠ f := fun same => other _ mem ⟨some ind, by rw [← same]; rfl⟩
      simp [replaceContents, differ]
  · cases o <;> simp [replaceContents, Part.ofFace]

/-- The blocks of the solved cube whose first faces are `made`. -/
def madeCube (L : Part → Address) (made : List FaceId) : Part → Struct
  | .cube => .cube { faces := fun f => if made.contains f then some (L (.face f)) else none }
  | .face f => colorsBlock (Rubiks.makeFace f).colors fun ind => L (.adjacentFace f ind)
  | .adjacentFace f ind => neighbourBlock ((Rubiks.makeFace f).adjacentFaces ind)

/-- The parts of a cube whose first faces are `made`. -/
def madeCubeParts (made : List FaceId) : Set Part := {o | ∀ f x, o = Part.ofFace f x → f ∈ made}

theorem cube_mem_madeCubeParts (made : List FaceId) : Part.cube ∈ madeCubeParts made := by
  rintro f (_ | ind) eq <;> cases eq

theorem ofFace_mem_madeCubeParts {made : List FaceId} {f : FaceId} {x : FacePart} :
    Part.ofFace f x ∈ madeCubeParts made ↔ f ∈ made := by
  constructor
  · exact fun mem => mem f x rfl
  · intro mem g y eq
    cases x <;> cases y <;> cases eq <;> exact mem

theorem madeCubeParts_nil : madeCubeParts [] = Insert.insert Part.cube ∅ := by
  ext o
  cases o with
  | cube => simp [cube_mem_madeCubeParts]
  | face f => exact iff_of_false (fun mem => by simpa using mem f none rfl) (by simp)
  | adjacentFace f ind => exact iff_of_false (fun mem => by simpa using mem f (some ind) rfl) (by simp)

theorem madeCubeParts_concat (made : List FaceId) (f : FaceId) :
    madeCubeParts made ∪ Set.range (Part.ofFace f) = madeCubeParts (made ++ [f]) := by
  have each : ∀ g x, Part.ofFace g x ∈ madeCubeParts made ∪ Set.range (Part.ofFace f) ↔
      Part.ofFace g x ∈ madeCubeParts (made ++ [f]) := by
    intro g x
    have range : Part.ofFace g x ∈ Set.range (Part.ofFace f) ↔ g = f := by
      constructor
      · rintro ⟨y, eq⟩
        cases x <;> cases y <;> cases eq <;> rfl
      · rintro rfl; exact ⟨x, rfl⟩
    rw [Set.mem_union, range, ofFace_mem_madeCubeParts, ofFace_mem_madeCubeParts, List.mem_append,
      List.mem_singleton]
  ext o
  cases o with
  | cube => exact iff_of_true (.inl (cube_mem_madeCubeParts _)) (cube_mem_madeCubeParts _)
  | face g => exact each g none
  | adjacentFace g ind => exact each g (some ind)

theorem madeCubeParts_all : madeCubeParts (List.finRange 6) = Set.univ :=
  Set.eq_univ_of_forall fun _ f _ _ => List.mem_finRange f

/-- A face more. -/
theorem madeCube_store {L : Part → Address} {made : List FaceId} {f : FaceId} {l : FacePart → Address}
    (new : f ∉ made) (below : Placed base L (madeCube L made) (madeCubeParts made) mid)
    (face : FaceAt mid l (Rubiks.makeFace f) blocks) :
    Placed base (replaceFace L f l) (madeCube (replaceFace L f l) (made ++ [f])) (madeCubeParts (made ++ [f]))
      (Function.update blocks (L .cube) (some (.cube {
        faces := Function.update (fun g => if made.contains g then some (L (.face g)) else none) f (some (l none)) }))) := by
  have attached := attachFace (cube_mem_madeCubeParts made) (fun o mem => new (ofFace_mem_madeCubeParts.1 mem))
    below face (Function.update (fun g => if made.contains g then some (L (.face g)) else none) f (some (l none)))
  rw [madeCubeParts_concat] at attached
  refine attached.congr _ _ (fun _ _ => rfl) fun o mem => ?_
  cases o with
  | cube =>
    simp only [madeCube, replaceContents, Struct.cube.injEq, CubeBlock.mk.injEq]
    funext g
    by_cases same : g = f
    · subst same; simp [replaceFace]
    · simp [same, replaceFace]
  | face g =>
    by_cases same : g = f
    · subst same; simp [madeCube, replaceContents, replaceFace, faceContents]
    · simp [madeCube, replaceContents, replaceFace, same]
  | adjacentFace g ind =>
    by_cases same : g = f
    · subst same; simp [madeCube, replaceContents, faceContents]
    · simp [madeCube, replaceContents, same]

theorem makeCube_spec (room : live h.blocks + 31 ≤ limit) :
    wp A limit (makeCube A) (fun p h' => ∃ L, L .cube = p ∧ CubeAt h.blocks L Rubiks.makeCube h'.blocks) h := by
  have enough : live h.blocks + Fintype.card Part ≤ limit := by rw [card_part]; exact room
  have one : live h.blocks + 1 ≤ limit := le_trans (by gcongr; decide) room
  refine wp_bind (wp_malloc one fun p requests free => ?_)
  refine wp_bind (wp_mono (wp_forM_done (List.nodup_finRange 6) (fun made h' => ∃ L, L .cube = p ∧
    Placed h.blocks L (madeCube L made) (madeCubeParts made) h'.blocks) ?_ ?_) ?_)
  · rintro made f h' new ⟨L, own, placed⟩
    have absent : Disjoint (madeCubeParts made) (Set.range (Part.ofFace f)) := by
      rw [Set.disjoint_right]
      rintro o ⟨x, rfl⟩ mem
      exact new (ofFace_mem_madeCubeParts.1 mem)
    have left := placed.room enough absent
    rw [← Set.image_univ, (Part.ofFace_injective f).encard_image, Set.encard_univ,
      ENat.card_eq_coe_fintype_card] at left
    refine wp_bind (wp_mono (makeFace_spec f (by simpa using left)) ?_)
    rintro q h'' ⟨l, top, face⟩
    have cube := placed.inside .cube (cube_mem_madeCubeParts made)
    have alive : h''.blocks p = some (madeCube L made .cube) := by
      rw [← own, ← cube]
      exact face.base_live (by rw [cube]; simp)
    refine wp_storeFace alive ⟨replaceFace L f l, own, ?_⟩
    rw [Heap.blocks_store, ← own, ← top]
    exact madeCube_store new placed face
  · have placed := (Placed.empty (fun _ => p) (madeCube (fun _ => p) [])).insert (k := Part.cube) id
      free (madeCube (fun _ => p) [] .cube)
    rw [Function.update_eq_self, Function.update_eq_self_iff.2 rfl, ← madeCubeParts_nil] at placed
    exact ⟨fun _ => p, rfl, by simpa [madeCube] using placed⟩
  · rintro _ h' ⟨L, own, placed⟩
    rw [madeCubeParts_all] at placed
    refine wp_pure ⟨L, own, placed.congr _ _ (fun _ _ => rfl) fun o _ => ?_⟩
    cases o with
    | cube => simp [contents, madeCube]
    | face f => rfl
    | adjacentFace f ind => rfl

/-! ## Freeing -/

/-- `free_face` frees a face's five blocks and nothing else. -/
theorem freeFace_spec {l : FacePart → Address} {x : Face} (face : FaceAt base l x h.blocks) :
    wp A limit (freeFace (l none)) (fun _ h' => h'.blocks = base) h := by
  refine wp_bind (wp_mono (wp_forM_done (List.nodup_finRange 4) (fun freed h' =>
    Placed base l (faceContents l x) {o | ∀ ind, o = some ind → ind ∉ freed} h'.blocks) ?_ ?_) ?_)
  · intro freed ind h' kept placed
    have present : some ind ∈ {o : FacePart | ∀ ind, o = some ind → ind ∉ freed} := by
      rintro _ ⟨⟩
      exact kept
    refine wp_bind (wp_loadAdjacentFace (placed.inside none fun _ eq => by cases eq) rfl ?_)
    refine wp_free placed present fun h'' placed => ?_
    have parts : {o : FacePart | ∀ ind, o = some ind → ind ∉ freed} \ {some ind} =
        {o | ∀ k, o = some k → k ∉ freed ++ [ind]} := by
      ext o
      cases o <;> simp [and_comm]
    rwa [← parts]
  · have all : {o : FacePart | ∀ ind, o = some ind → ind ∉ []} = Set.univ :=
      Set.eq_univ_of_forall fun _ _ _ => List.not_mem_nil
    rw [all]
    exact face
  · intro _ h' placed
    have own : none ∈ {o : FacePart | ∀ ind, o = some ind → ind ∉ List.finRange 4} := by simp
    have nothing : {o : FacePart | ∀ ind, o = some ind → ind ∉ List.finRange 4} \ {none} = ∅ := by
      ext o
      cases o <;> simp
    refine wp_free placed own fun h'' rest => ?_
    rw [nothing] at rest
    exact rest.eq_base

/-- `free_cube` frees a cube's 31 blocks and nothing else. -/
theorem freeCube_spec {L : Part → Address} {c : Cube} (cube : CubeAt base L c h.blocks) :
    wp A limit (freeCube (L .cube)) (fun _ h' => h'.blocks = base) h := by
  refine wp_bind (wp_mono (wp_forM_done (List.nodup_finRange 6) (fun freed h' =>
    Placed base L (contents L c) {o | ∀ f x, o = Part.ofFace f x → f ∉ freed} h'.blocks) ?_ ?_) ?_)
  · intro freed f h' kept placed
    have apart : ∀ {g g' : FaceId} {x y : FacePart}, Part.ofFace g x = Part.ofFace g' y → g = g' := by
      rintro g g' (_ | i) (_ | j) same <;> cases same <;> rfl
    refine wp_bind (wp_loadFace (index_fin f) (placed.inside .cube ?_) rfl ?_)
    · rintro g (_ | ind) eq <;> cases eq
    obtain ⟨mid, below, face⟩ := placed.detach (Part.ofFace_injective f) fun x => by
      rintro g y same
      exact apart same ▸ kept
    rw [contents_ofFace] at face
    refine wp_mono (freeFace_spec (l := L ∘ Part.ofFace f) face) fun _ h'' freedFace => ?_
    have parts : {o | ∀ g x, o = Part.ofFace g x → g ∉ freed} \ Set.range (Part.ofFace f) =
        {o | ∀ g x, o = Part.ofFace g x → g ∉ freed ++ [f]} := by
      ext o
      simp only [Set.mem_sdiff, Set.mem_ofPred_eq, Set.mem_range, not_exists, List.mem_append, List.mem_singleton,
        not_or]
      constructor
      · rintro ⟨mem, other⟩ g x rfl
        exact ⟨mem g x rfl, fun same => other x (by rw [same])⟩
      · exact fun mem => ⟨fun g x eq => (mem g x eq).1, fun x same => (mem f x same.symm).2 rfl⟩
    rw [← parts, freedFace]
    exact below
  · have all : {o | ∀ f x, o = Part.ofFace f x → f ∉ []} = Set.univ :=
      Set.eq_univ_of_forall fun _ _ _ _ => List.not_mem_nil
    rw [all]
    exact cube
  · intro _ h' placed
    have own : Part.cube ∈ {o | ∀ f x, o = Part.ofFace f x → f ∉ List.finRange 6} := by
      rintro f (_ | ind) eq <;> cases eq
    have nothing : {o | ∀ f x, o = Part.ofFace f x → f ∉ List.finRange 6} \ {Part.cube} = ∅ := by
      refine Set.eq_empty_of_forall_notMem fun o mem => ?_
      cases o with
      | cube => exact mem.2 rfl
      | face f => exact mem.1 f none rfl (List.mem_finRange f)
      | adjacentFace f ind => exact mem.1 f (some ind) rfl (List.mem_finRange f)
    refine wp_free placed own fun h'' rest => ?_
    rw [nothing] at rest
    exact rest.eq_base

/-! ## Two cubes -/

/-- Two cubes that share no block. -/
def Both (base : Blocks Struct) (L : Part → Address) (c : Cube) (M : Part → Address) (d : Cube)
    (blocks : Blocks Struct) : Prop :=
  ∃ mid, CubeAt base L c mid ∧ CubeAt mid M d blocks

namespace Both

variable {L M : Part → Address} {c d : Cube}

theorem swap (both : Both base L c M d blocks) : Both base M d L c blocks := by
  obtain ⟨mid, below, above⟩ := both
  exact below.swap above

theorem second (both : Both base L c M d blocks) (o : Part) : blocks (M o) = some (contents M d o) := by
  obtain ⟨mid, -, above⟩ := both
  exact above.inside o trivial

theorem first (both : Both base L c M d blocks) (o : Part) : blocks (L o) = some (contents L c o) :=
  both.swap.second o

theorem apart (both : Both base L c M d blocks) (o o' : Part) : L o ≠ M o' := by
  obtain ⟨mid, below, above⟩ := both
  exact above.apart (by rw [below.inside o trivial]; simp) trivial

/-- A store into the second cube. -/
theorem update (both : Both base L c M d blocks) {d' : Cube} (o : Part) {b : Struct}
    (same : contents M d' = Function.update (contents M d) o b) :
    Both base L c M d' (Function.update blocks (M o) (some b)) := by
  obtain ⟨mid, below, above⟩ := both
  refine ⟨mid, below, ?_⟩
  have stored := above.update (k := o) trivial b
  rwa [← same] at stored

end Both

theorem contents_setColor (M : Part → Address) (d : Cube) (f : FaceId) (s : SquareId) (v : Int) :
    contents M (d.setColor (f, s) v) = Function.update (contents M d) (.face f) (.face {
      colors := Function.update (fun s => some ((d.faces f).colors s)) s (some v)
      adjacentFaces := fun ind => some (M (.adjacentFace f ind)) }) := by
  funext o
  cases o with
  | cube => rfl
  | face g =>
    by_cases same : g = f
    · subst same
      have colors : (fun i => some (Function.update (d.faces g).colors s v i)) =
          Function.update (fun s => some ((d.faces g).colors s)) s (some v) := by
        funext i
        by_cases here : i = s
        · subst here; simp
        · simp [here]
      simp [contents, colorsBlock, Cube.setColor, colors]
    · have other : Part.face g ≠ Part.face f := by simpa using same
      simp [contents, Cube.setColor, Function.update_of_ne, same, other]
  | adjacentFace g ind =>
    by_cases same : g = f
    · subst same; simp [contents, Cube.setColor]
    · simp [contents, Cube.setColor, same]

/-- The cube with neighbour `ind` of face `f` replaced. -/
def setNeighbour (d : Cube) (f : FaceId) (ind : Fin 4) (a : AdjacentFace) : Cube :=
  d.setFace f { d.faces f with adjacentFaces := Function.update (d.faces f).adjacentFaces ind a }

theorem contents_setNeighbour (M : Part → Address) (d : Cube) (f : FaceId) (ind : Fin 4) (a : AdjacentFace) :
    contents M (setNeighbour d f ind a) =
      Function.update (contents M d) (.adjacentFace f ind) (neighbourBlock a) := by
  funext o
  cases o with
  | cube => rfl
  | face g =>
    by_cases same : g = f
    · subst same; simp [contents, setNeighbour, Cube.setFace]
    · simp [contents, setNeighbour, Cube.setFace, same]
  | adjacentFace g k =>
    by_cases same : g = f
    · subst same
      by_cases here : k = ind
      · subst here; simp [contents, setNeighbour, Cube.setFace]
      · simp [contents, setNeighbour, Cube.setFace, here]
    · simp [contents, setNeighbour, Cube.setFace, same]

/-! ## Copies -/

section Copies

variable {L M : Part → Address} {c d : Cube}

/-- A store of a colour into the second cube. -/
theorem wp_storeColor_both {done : Unit → Heap Struct → Prop} (both : Both base L c M d h.blocks) {f : FaceId}
    {s : SquareId} {k v : Int} (inRange : index 9 k = some s)
    (pre : ∀ h', Both base L c M (d.setColor (f, s) v) h'.blocks → done () h') :
    wp A limit (storeColor (M (.face f)) k v) done h :=
  wp_storeColor inRange (both.second (.face f)) (pre _ (both.update _ (contents_setColor M d f s v)))

theorem copyAdjacentFace_spec {a : AdjacentFace} {s : AdjacentFaceBlock}
    (original : h.blocks p = some (neighbourBlock a)) (new : h.blocks q = some (.adjacentFace s)) (apart : p ≠ q) :
    wp A limit (copyAdjacentFace p q)
      (fun _ h' => h'.blocks = Function.update h.blocks q (some (neighbourBlock a))) h := by
  refine wp_bind (wp_loadFaceNum original rfl (wp_bind (wp_storeFaceNum new ?_)))
  refine wp_mono (wp_forM_foldl
    (fun s ind => { s with edgeSquares := Function.update s.edgeSquares ind (some (a.edgeSquares ind)) })
    (fun (s : AdjacentFaceBlock) (h' : Heap Struct) =>
      h'.blocks = Function.update h.blocks q (some (.adjacentFace s)))
    (fun ind s h' held => ?_) (List.finRange 3) rfl) fun _ h' held => ?_
  · have kept : h'.blocks p = some (neighbourBlock a) := by rw [held, Function.update_of_ne apart, original]
    refine wp_bind (wp_loadEdgeSquare kept rfl (wp_storeEdgeSquare (by rw [held, Function.update_self]) ?_))
    rw [Heap.blocks_store, held, Function.update_idem]
  · rw [fill_edgeSquares] at held
    exact held

/-- Copying the colours and then the neighbours of a face copies the face. -/
theorem copied_face (c d : Cube) (f : FaceId) :
    (List.finRange 4).foldl (fun d ind => setNeighbour d f ind ((c.faces f).adjacentFaces ind))
      ((List.finRange 9).foldl (fun d s => d.setColor (f, s) ((c.faces f).colors s)) d) = d.setFace f (c.faces f) := by
  have get_set : ∀ (d : Cube) (x : Face), (d.setFace f x).faces f = x := fun d x => by simp [Cube.setFace]
  have set_set : ∀ (d : Cube) (x y : Face), (d.setFace f x).setFace f y = d.setFace f y := fun d x y => by
    simp [Cube.setFace]
  have set_get : ∀ d : Cube, d.setFace f (d.faces f) = d := fun d => by simp [Cube.setFace]
  have colors : (List.finRange 9).foldl (fun d s => d.setColor (f, s) ((c.faces f).colors s)) d =
      d.setFace f { d.faces f with colors := (c.faces f).colors } :=
    foldl_set_cells (fun d : Cube => (d.faces f).colors) (fun d x => d.setFace f { d.faces f with colors := x })
      (by simp [get_set]) set_get (by simp [get_set, set_set]) List.mem_finRange (c.faces f).colors d
  have neighbours : ∀ d : Cube, (List.finRange 4).foldl
      (fun d ind => setNeighbour d f ind ((c.faces f).adjacentFaces ind)) d =
      d.setFace f { d.faces f with adjacentFaces := (c.faces f).adjacentFaces } :=
    foldl_set_cells (fun d : Cube => (d.faces f).adjacentFaces)
      (fun d x => d.setFace f { d.faces f with adjacentFaces := x })
      (by simp [get_set]) set_get (by simp [get_set, set_set]) List.mem_finRange (c.faces f).adjacentFaces
  rw [colors, neighbours, set_set, get_set]

/-- `copy_face` into the second cube. -/
theorem copyFace_spec (both : Both base L c M d h.blocks) (f : FaceId) :
    wp A limit (copyFace (L (.face f)) (M (.face f)))
      (fun _ h' => Both base L c M (d.setFace f (c.faces f)) h'.blocks) h := by
  rw [← copied_face c d f]
  refine wp_bind (wp_mono (wp_forM_foldl (fun d s => d.setColor (f, s) ((c.faces f).colors s))
    (fun d (h' : Heap Struct) => Both base L c M d h'.blocks) (fun s d h' both => ?_) (List.finRange 9) both)
    fun _ h' both => ?_)
  · exact wp_bind (wp_loadColor (index_fin s) (both.first (.face f)) rfl
      (wp_storeColor_both both (index_fin s) fun _ stored => stored))
  · refine wp_forM_foldl (fun d ind => setNeighbour d f ind ((c.faces f).adjacentFaces ind))
      (fun d (h' : Heap Struct) => Both base L c M d h'.blocks) (fun ind d h' both => ?_) (List.finRange 4) both
    refine wp_bind (wp_loadAdjacentFace (both.first (.face f)) rfl
      (wp_bind (wp_loadAdjacentFace (both.second (.face f)) rfl ?_)))
    refine wp_mono (copyAdjacentFace_spec (both.first (.adjacentFace f ind)) (both.second (.adjacentFace f ind))
      (both.apart _ _)) fun _ h'' copied => ?_
    rw [copied]
    exact both.update _ (contents_setNeighbour M d f ind _)

/-- `copy_cube` onto the second cube. -/
theorem copyCube_spec (both : Both base L c M d h.blocks) :
    wp A limit (copyCube (L .cube) (M .cube)) (fun _ h' => Both base L c M c h'.blocks) h := by
  have copied : (List.finRange 6).foldl (fun d f => d.setFace f (c.faces f)) d = c :=
    foldl_set_cells Cube.faces (fun _ x => ⟨x⟩) (fun _ _ => rfl) (fun _ => rfl) (fun _ _ _ => rfl)
      List.mem_finRange c.faces d
  rw [← copied]
  refine wp_mono (wp_forM_foldl (fun d f => d.setFace f (c.faces f))
    (fun d (h' : Heap Struct) => Both base L c M d h'.blocks) (fun f d h' both => ?_) (List.finRange 6) both)
    fun _ h' both => ?_
  · exact wp_bind (wp_loadFace (index_fin f) (both.first .cube) rfl
      (wp_bind (wp_loadFace (index_fin f) (both.second .cube) rfl (copyFace_spec both f))))
  · rw [copied] at both ⊢
    exact both

end Copies

end Rubiks.OnHeap
