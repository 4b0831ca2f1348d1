import Rubiks.Start.HeapTurns
import Rubiks.Server.Command

/-!
# `decode_user_input` on the heap

The server keeps one cube for its whole life. A turn or a shuffle writes into it; the
solve command frees each face and stores the address of a new one. Over any run of
lines the cube stays where it is, holds the value the lines give and is 31 blocks; the
first line that indexes a face out of range ends it.
-/

namespace Rubiks.OnHeap

open Logic Prog

/-- `decode_user_input`. -/
def decodeUserInput (A : Allocator Struct) (command : List Char8) (globalCubeState : Address) (draws : Draws) :
    Program Unit := do
  let c0 ← defined command[0]?
  let c1 ← defined command[1]?
  let faceNum := c0.toInt - 48
  let direction := c1.toInt - 48
  if direction = 2 then
    if (← isSolved globalCubeState) ≠ 0 then shuffle A globalCubeState minDepth maxDepth draws
    else
      (List.finRange 6).forM fun i => do
        freeFace (← loadFace globalCubeState (i : Nat))
        let face ← makeFace A i
        storeFace globalCubeState i face
  else rotate A globalCubeState faceNum direction

variable {A : Allocator Struct} {limit : Nat} {h : Heap Struct} {base : Blocks Struct} {L : Part → Address} {c : Cube}

/-- One face of the reset: the cube's pointer dangles until the new face is stored. -/
theorem resetFace_spec (cube : CubeAt base L c h.blocks) (room : live base + 62 ≤ limit) (f : FaceId) :
    wp A limit (do
      freeFace (← loadFace (L .cube) (f : Nat))
      let face ← makeFace A f
      storeFace (L .cube) f face)
      (fun _ h' => ∃ L', L' .cube = L .cube ∧ CubeAt base L' (c.setFace f (Rubiks.makeFace f)) h'.blocks) h := by
  refine wp_bind (wp_loadFace (index_fin f) (cube.inside .cube trivial) rfl ?_)
  obtain ⟨mid, below, face⟩ := cube.detach (Part.ofFace_injective f) fun _ => trivial
  rw [contents_ofFace] at face
  refine wp_bind (wp_mono (freeFace_spec (l := L ∘ Part.ofFace f) face) fun _ h1 freed => ?_)
  have enough : live h1.blocks + 5 ≤ limit := by
    have fits := CubeAt.room cube room
    rw [freed]
    refine le_trans (add_le_add ?_ (by decide)) fits
    rw [face.live_eq]
    exact le_self_add
  refine wp_bind (wp_mono (makeFace_spec f enough) ?_)
  rintro _ h2 ⟨l, rfl, made⟩
  rw [freed] at made
  have own : Part.cube ∈ Set.univ \ Set.range (Part.ofFace f) := by
    refine ⟨trivial, ?_⟩
    rintro ⟨_ | ind, eq⟩ <;> cases eq
  have alive : mid (L .cube) = some (contents L c .cube) := below.inside .cube own
  refine wp_storeFace (by rw [made.base_live (by rw [alive]; simp), alive]; rfl)
    ⟨replaceFace L f l, rfl, ?_⟩
  have attached := attachFace own (fun o mem => mem.2 ⟨o, rfl⟩) below made
    (Function.update (fun g => some (L (.face g))) f (some (l none)))
  rw [Set.sdiff_union_self, Set.univ_union] at attached
  refine attached.congr _ _ (fun _ _ => rfl) fun o _ => ?_
  cases o with
  | cube =>
    simp only [contents, replaceContents, Struct.cube.injEq, CubeBlock.mk.injEq]
    funext g
    by_cases same : g = f
    · subst same; simp [replaceFace]
    · simp [same, replaceFace]
  | face g =>
    by_cases same : g = f
    · subst same; simp [contents, replaceContents, replaceFace, faceContents, Cube.setFace]
    · simp [contents, replaceContents, replaceFace, Cube.setFace, same]
  | adjacentFace g ind =>
    by_cases same : g = f
    · subst same; simp [contents, replaceContents, faceContents, Cube.setFace]
    · simp [contents, replaceContents, Cube.setFace, same]

/-- `decode_user_input` on the heap. The cube's own block stays; its faces may be new. -/
theorem decodeUserInput_spec {command : List Char8} {draws : Draws} {c' : Cube}
    (run : Rubiks.decodeUserInput command c draws = some c') (cube : CubeAt base L c h.blocks)
    (room : live base + 62 ≤ limit) :
    wp A limit (decodeUserInput A command (L .cube) draws)
      (fun _ h' => ∃ L', L' .cube = L .cube ∧ CubeAt base L' c' h'.blocks) h := by
  obtain ⟨c0, first, run⟩ := Option.bind_eq_some_iff.1 run
  obtain ⟨c1, second, run⟩ := Option.bind_eq_some_iff.1 run
  refine wp_bind (wp_defined first (wp_bind (wp_defined second ?_)))
  by_cases code : c1.toInt - 48 = 2
  · simp only [if_pos code] at run ⊢
    refine wp_bind (wp_mono (isSolved_spec cube) ?_)
    rintro _ _ ⟨rfl, rfl⟩
    by_cases solved : Rubiks.isSolved c ≠ 0
    · rw [if_pos solved] at run ⊢
      exact wp_mono (shuffle_spec run cube room) fun _ h' cube => ⟨L, rfl, cube⟩
    · rw [if_neg solved] at run ⊢
      cases run
      refine wp_forM_foldl (fun c i => c.setFace i (Rubiks.makeFace i))
        (fun c (h' : Heap Struct) => ∃ L', L' .cube = L .cube ∧ CubeAt base L' c h'.blocks) ?_ (List.finRange 6)
        ⟨L, rfl, cube⟩
      rintro i c h ⟨L', own, cube⟩
      rw [← own]
      exact resetFace_spec cube room i
  · simp only [if_neg code] at run ⊢
    exact wp_mono (rotate_spec run cube room) fun _ h' cube => ⟨L, rfl, cube⟩

/-- `rotate` with a face number out of range follows a pointer it does not have. -/
theorem rotate_fails {faceNum direction : Int} (outside : index 6 faceNum = none)
    (cube : CubeAt base L c h.blocks) (room : live base + 62 ≤ limit) :
    Fails A limit (rotate A (L .cube) faceNum direction) h := by
  refine (makeCube_spec (CubeAt.room cube room)).fails_bind ?_
  rintro _ h1 ⟨M, rfl, copy⟩
  refine (copyCube_spec ⟨h.blocks, cube, copy⟩).fails_bind fun _ h2 _ => ?_
  have face : Fails A limit (loadFace (L .cube) faceNum) h2 := by
    refine .inl (bind_error ?_)
    rw [outside]
    rfl
  split
  · exact face.bind
  · exact face.bind

/-- The server's cube over a run of lines, each with the values its call of `shuffle`
draws. -/
def serve (A : Allocator Struct) (lines : List (List Char8 × Draws)) : Program Address := do
  let globalCubeState ← makeCube A
  lines.forM fun m => decodeUserInput A (lineBuffer m.1) globalCubeState m.2
  pure globalCubeState

/-- The line is decoded without an index out of range. -/
def Handled (line : List Char8) : Prop := secondByte line = digit 2 ∨ FaceByte (firstByte line)

instance (line : List Char8) : Decidable (Handled line) := inferInstanceAs (Decidable (_ ∨ _))

/-- Handled lines are decoded, into a reachable cube. -/
theorem handled_defined {lines : List (List Char8 × Draws)} (nonempty : ∀ m ∈ lines, m.1 ≠ [])
    (handled : ∀ m ∈ lines, Handled m.1) (reach : Reachable c) :
    ∃ c', decodeAll c (lines.map fun m => (lineBuffer m.1, m.2)) = some c' ∧ Reachable c' := by
  induction lines generalizing c with
  | nil => exact ⟨c, rfl, reach⟩
  | cons m lines ih =>
    obtain ⟨some_, nonempty⟩ := List.forall_mem_cons.1 nonempty
    obtain ⟨first, handled⟩ := List.forall_mem_cons.1 handled
    obtain ⟨d, decoded⟩ := (decodeUserInput_defined_iff reach some_ m.2).2 first
    obtain ⟨c', rest, reach'⟩ := ih nonempty handled (reach.line some_ decoded)
    exact ⟨c', Option.bind_eq_some_iff.2 ⟨d, decoded, rest⟩, reach'⟩

/-- Lines are decoded on the heap as on values. -/
theorem decodeAll_spec {lines : List (List Char8 × Draws)} {c' : Cube}
    (run : decodeAll c (lines.map fun m => (lineBuffer m.1, m.2)) = some c') (cube : CubeAt base L c h.blocks)
    (room : live base + 62 ≤ limit) :
    wp A limit (lines.forM fun m => decodeUserInput A (lineBuffer m.1) (L .cube) m.2)
      (fun _ h' => ∃ L', L' .cube = L .cube ∧ CubeAt base L' c' h'.blocks) h := by
  rw [decodeAll, List.foldlM_map] at run
  refine wp_forM _ (fun c (h' : Heap Struct) => ∃ L', L' .cube = L .cube ∧ CubeAt base L' c h'.blocks) ?_
    lines run ⟨L, rfl, cube⟩
  rintro m c d h decoded ⟨L', own, cube⟩
  rw [← own]
  refine wp_mono (decodeUserInput_spec decoded cube room) ?_
  rintro _ h' ⟨M, same, cube⟩
  exact ⟨M, same, cube⟩

/-- The first line that is not handled ends the run. -/
theorem unhandled_fails (room : live base + 62 ≤ limit) {lines : List (List Char8 × Draws)}
    (nonempty : ∀ m ∈ lines, m.1 ≠ []) (fails : ∃ m ∈ lines, ¬ Handled m.1) (reach : Reachable c)
    (cube : CubeAt base L c h.blocks) :
    Fails A limit (lines.forM fun m => decodeUserInput A (lineBuffer m.1) (L .cube) m.2) h := by
  induction lines generalizing c L h with
  | nil => obtain ⟨_, ⟨⟩, -⟩ := fails
  | cons m lines ih =>
    have some_ := nonempty m List.mem_cons_self
    by_cases handled : Handled m.1
    · obtain ⟨d, decoded⟩ := (decodeUserInput_defined_iff reach some_ m.2).2 handled
      have later : ∃ m' ∈ lines, ¬ Handled m'.1 := by
        obtain ⟨m', mem, fails⟩ := fails
        refine ⟨m', (List.mem_cons.1 mem).resolve_left fun same => fails (same ▸ handled), fails⟩
      refine (decodeUserInput_spec decoded cube room).fails_bind ?_
      rintro _ h' ⟨M, own, cube'⟩
      rw [← own]
      exact ih (fun m' mem => nonempty m' (List.mem_cons_of_mem _ mem)) later (reach.line some_ decoded) cube'
    · -- neither the solve command nor a face in range: the line goes to `rotate`
      simp only [Handled, not_or] at handled
      obtain ⟨b, rest, split⟩ := List.exists_cons_of_ne_nil some_
      have first : (lineBuffer m.1)[0]? = some (firstByte m.1) := by rw [split]; rfl
      have second : (lineBuffer m.1)[1]? = some (secondByte m.1) := by rw [split]; cases rest <;> rfl
      have outside : index 6 ((firstByte m.1).toInt - 48) = none := by
        have range := handled.2
        rw [FaceByte] at range
        exact index_eq_none_iff.2 (by omega)
      have line : Fails A limit (decodeUserInput A (lineBuffer m.1) (L .cube) m.2) h := by
        simp only [decodeUserInput, first, second]
        rw [Fails, bind_ok (defined_eq (firstByte m.1) h), bind_ok (defined_eq (secondByte m.1) h),
          if_neg fun code => handled.1 (toInt_eq_two_iff.1 code)]
        exact rotate_fails outside cube room
      exact line.bind

/-- **The server's memory over a run of lines.** While every line is handled, nothing
undefined happens but the store through a null pointer from `malloc`; whenever the
lines are all decoded, the cube has kept its address and its 31 blocks and holds the
value the lines give, a reachable one; and they are if `malloc` grants requests while
fewer than 62 blocks are live besides those of others. A line that is not handled is
undefined behaviour, whatever came before, unless `malloc` has refused a request. -/
theorem serve_memory (A : Allocator Struct) (base : Blocks Struct) (requests limit : Nat)
    (room : live base + 62 ≤ limit) (lines : List (List Char8 × Draws)) (nonempty : ∀ m ∈ lines, m.1 ≠ []) :
    ((∀ m ∈ lines, Handled m.1) →
      serve A lines ⟨base, requests⟩ ≠ .error .undefined ∧
      (∃ c, decodeAll Rubiks.makeCube (lines.map fun m => (lineBuffer m.1, m.2)) = some c ∧ Reachable c ∧
        ∀ p h', serve A lines ⟨base, requests⟩ = .ok (p, h') →
          ∃ L, L .cube = p ∧ CubeAt base L c h'.blocks ∧ live h'.blocks = live base + 31) ∧
      (¬ A.Refuses limit → ∃ p h', serve A lines ⟨base, requests⟩ = .ok (p, h'))) ∧
    ((∃ m ∈ lines, ¬ Handled m.1) →
      serve A lines ⟨base, requests⟩ = .error .undefined ∨
      serve A lines ⟨base, requests⟩ = .error .outOfMemory ∧ A.Refuses limit) := by
  have enough : live (⟨base, requests⟩ : Heap Struct).blocks + 31 ≤ limit := le_trans (by gcongr; decide) room
  have start := makeCube_spec (A := A) enough
  constructor
  · intro handled
    obtain ⟨c, run, reach⟩ := handled_defined nonempty handled reachable_makeCube
    have spec : wp A limit (serve A lines) (fun p h' => ∃ L, L .cube = p ∧ CubeAt base L c h'.blocks)
        ⟨base, requests⟩ := by
      refine wp_bind (wp_mono start ?_)
      rintro _ h1 ⟨L, rfl, cube⟩
      refine wp_bind (wp_mono (decodeAll_spec run cube room) ?_)
      rintro _ h2 ⟨M, own, cube⟩
      exact wp_pure ⟨M, own, cube⟩
    refine ⟨spec.defined, ⟨c, run, reach, fun p h' served => ?_⟩, fun grants => ?_⟩
    · obtain ⟨M, own, cube⟩ := spec.ok served
      exact ⟨M, own, cube, cube.live_cube⟩
    · obtain ⟨p, h', served, -⟩ := spec.run grants
      exact ⟨p, h', served⟩
  · intro fails
    refine start.fails_bind ?_
    rintro _ h1 ⟨L, rfl, cube⟩
    exact (unhandled_fails room nonempty fails reachable_makeCube cube).bind

/-- Two lines that are handled; with `9` after them the run is undefined. -/
theorem serve_memory_first_fit :
    (∃ p h', serve (firstFit Struct 62) [([digit 3], default), ([digit 5, digit 2], default)] ⟨fun _ => none, 0⟩ =
      .ok (p, h') ∧ live h'.blocks = 31) ∧
    serve (firstFit Struct 62) [([digit 3], default), ([digit 9], default)] ⟨fun _ => none, 0⟩ =
      .error .undefined := by
  constructor
  · obtain ⟨-, ⟨c, -, -, result⟩, returns⟩ := (serve_memory (firstFit Struct 62) (fun _ => none) 0 62 (by simp)
      [([digit 3], default), ([digit 5, digit 2], default)] (by simp)).1 (by decide)
    obtain ⟨p, h', served⟩ := returns (firstFit_grants Struct 62)
    obtain ⟨L, -, -, blocks⟩ := result p h' served
    exact ⟨p, h', served, by simpa using blocks⟩
  · exact ((serve_memory (firstFit Struct 62) (fun _ => none) 0 62 (by simp)
      [([digit 3], default), ([digit 9], default)] (by simp)).2
      ⟨([digit 9], default), by simp, by decide⟩).resolve_right fun refused => firstFit_grants Struct 62 refused.2

end Rubiks.OnHeap
