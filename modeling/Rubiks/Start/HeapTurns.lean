import Rubiks.Start.HeapCube

/-!
# Turns on the heap

`rotate` allocates a second cube, copies, writes into the copy while it reads the
original, copies back and frees. Whatever addresses `malloc` hands out, the cube it
was given ends up as the value `rotate` computes, at the same addresses, and every
other block is as it was (`rotate_spec`); so are `shuffle`, which turns, and
`is_solved`, which only reads.
-/

namespace Rubiks.OnHeap

open Logic Prog

variable {A : Allocator Struct} {limit : Nat} {h : Heap Struct} {base : Blocks Struct}
  {L M : Part → Address} {c d : Cube}

theorem transposeFace_spec (both : Both base L c M d h.blocks) (f : FaceId) (moves : List (SquareId × SquareId)) :
    wp A limit (transposeFace moves (L (.face f)) (M (.face f))) (fun _ h' => Both base L c M
      (d.setFace f (Rubiks.transposeFace moves (c.faces f) (d.faces f))) h'.blocks) h := by
  have moved : moves.foldl (fun d m => d.setColor (f, m.1) ((c.faces f).colors m.2)) d =
      d.setFace f (Rubiks.transposeFace moves (c.faces f) (d.faces f)) := by
    have stores := foldl_set_overwrite (fun d : Cube => (d.faces f).colors)
      (fun d x => d.setFace f { d.faces f with colors := x }) (by simp [Cube.setFace]) (by simp [Cube.setFace])
      (by simp [Cube.setFace]) (moves.map fun m => (m.1, (c.faces f).colors m.2)) d
    rw [List.foldl_map] at stores
    exact stores
  rw [← moved]
  refine wp_forM_foldl (fun d m => d.setColor (f, m.1) ((c.faces f).colors m.2))
    (fun d (h' : Heap Struct) => Both base L c M d h'.blocks) (fun m d h' both => ?_) moves both
  exact wp_bind (wp_loadColor (index_fin m.2) (both.first (.face f)) rfl
    (wp_storeColor_both both (index_fin m.1) fun _ stored => stored))

/-- One store of the neighbour loops, on the heap and on values. -/
theorem storeNeighbour_spec (both : Both base L c M d h.blocks) {f : FaceId} {ind ind' : Fin 4} {jind : Fin 3}
    {d' : Cube}
    (stored : (do
      let oldColor ← c.readColor ((c.faces f).adjacentFaces ind).face
        (((c.faces f).adjacentFaces ind).edgeSquares jind)
      d.writeColor ((c.faces f).adjacentFaces ind').face
        (((c.faces f).adjacentFaces ind').edgeSquares jind) oldColor) = some d') :
    wp A limit (do
      let oldColor ← loadColor (← loadFace (L .cube) (← loadFaceNum (L (.adjacentFace f ind))))
        (← loadEdgeSquare (L (.adjacentFace f ind)) jind)
      storeColor (← loadFace (M .cube) (← loadFaceNum (L (.adjacentFace f ind'))))
        (← loadEdgeSquare (L (.adjacentFace f ind')) jind) oldColor)
      (fun _ h' => Both base L c M d' h'.blocks) h := by
  obtain ⟨oldColor, read, written⟩ := Option.bind_eq_some_iff.1 stored
  obtain ⟨g, face, read⟩ := Option.bind_eq_some_iff.1 read
  obtain ⟨s, square, read⟩ := Option.bind_eq_some_iff.1 read
  obtain ⟨g', face', written⟩ := Option.bind_eq_some_iff.1 written
  obtain ⟨s', square', written⟩ := Option.bind_eq_some_iff.1 written
  cases read
  cases written
  have current := both.first (.adjacentFace f ind)
  have next := both.first (.adjacentFace f ind')
  refine wp_bind (wp_loadFaceNum current rfl (wp_bind (wp_loadFace face (both.first .cube) rfl ?_)))
  refine wp_bind (wp_loadEdgeSquare current rfl (wp_bind (wp_loadColor square (both.first (.face g)) rfl ?_)))
  refine wp_bind (wp_loadFaceNum next rfl (wp_bind (wp_loadFace face' (both.second .cube) rfl ?_)))
  exact wp_bind (wp_loadEdgeSquare next rfl (wp_storeColor_both both square' fun _ stored => stored))

theorem transposeOtherFaces_spec (both : Both base L c M d h.blocks) {next : Fin 4 → Fin 4} {faceNum : Int}
    {d' : Cube} (run : Rubiks.transposeOtherFaces next c d faceNum = some d') :
    wp A limit (transposeOtherFaces next (L .cube) (M .cube) faceNum)
      (fun _ h' => Both base L c M d' h'.blocks) h := by
  obtain ⟨f, face, loop⟩ := Option.bind_eq_some_iff.1 run
  refine wp_forM _ (fun d (h' : Heap Struct) => Both base L c M d h'.blocks) (fun ind d d' h' inner both => ?_)
    (List.finRange 4) loop both
  refine wp_bind (wp_loadFace face (both.first .cube) rfl (wp_bind (wp_loadAdjacentFace (both.first (.face f)) rfl ?_)))
  refine wp_bind (wp_loadFace face (both.first .cube) rfl (wp_bind (wp_loadAdjacentFace (both.first (.face f)) rfl ?_)))
  exact wp_forM _ (fun d (h' : Heap Struct) => Both base L c M d h'.blocks)
    (fun jind d d' h' stored both => storeNeighbour_spec both stored) (List.finRange 3) inner both

/-- A cube leaves room for another where its base has room for two. -/
theorem CubeAt.room (cube : CubeAt base L c h.blocks) (room : live base + 62 ≤ limit) :
    live h.blocks + 31 ≤ limit := by
  rw [cube.live_cube, add_assoc]
  exact room

/-- `rotate` on the heap computes the value `rotate` computes, on any cube for which it
is defined; the copy is gone. -/
theorem rotate_spec {faceNum direction : Int} {c' : Cube} (run : Rubiks.rotate c faceNum direction = some c')
    (cube : CubeAt base L c h.blocks) (room : live base + 62 ≤ limit) :
    wp A limit (rotate A (L .cube) faceNum direction) (fun _ h' => CubeAt base L c' h'.blocks) h := by
  obtain ⟨f, face, run⟩ := Option.bind_eq_some_iff.1 run
  refine wp_bind (wp_mono (makeCube_spec (CubeAt.room cube room)) ?_)
  rintro _ h1 ⟨M, rfl, copy⟩
  refine wp_bind (wp_mono (copyCube_spec ⟨h.blocks, cube, copy⟩) fun _ h2 both => ?_)
  -- both branches turn the copy, copy it back and free it
  have branch : ∀ (moves : List (SquareId × SquareId)) (next : Fin 4 → Fin 4),
      Rubiks.transposeOtherFaces next c (c.setFace f (Rubiks.transposeFace moves (c.faces f) (c.faces f))) faceNum =
        some c' →
      wp A limit (do
        transposeFace moves (← loadFace (L .cube) faceNum) (← loadFace (M .cube) faceNum)
        transposeOtherFaces next (L .cube) (M .cube) faceNum
        copyCube (M .cube) (L .cube)
        freeCube (M .cube))
        (fun _ h' => CubeAt base L c' h'.blocks) h2 := by
    intro moves next run
    refine wp_bind (wp_loadFace face (both.first .cube) rfl (wp_bind (wp_loadFace face (both.second .cube) rfl ?_)))
    refine wp_bind (wp_mono (transposeFace_spec both f moves) fun _ h3 both => ?_)
    refine wp_bind (wp_mono (transposeOtherFaces_spec both run) fun _ h4 both => ?_)
    refine wp_bind (wp_mono (copyCube_spec both.swap) fun _ h5 both => ?_)
    obtain ⟨mid, original, copy⟩ := both.swap
    refine wp_mono (freeCube_spec copy) fun _ h6 freed => ?_
    rwa [freed]
  by_cases clockwise : direction = 0
  · rw [if_pos clockwise] at run ⊢
    obtain ⟨turned, transposed, copied⟩ := Option.bind_eq_some_iff.1 run
    cases copied
    exact branch clockwiseMoves nextClockwise transposed
  · rw [if_neg clockwise] at run ⊢
    obtain ⟨turned, transposed, copied⟩ := Option.bind_eq_some_iff.1 run
    cases copied
    exact branch counterclockwiseMoves nextCounterclockwise transposed

/-- `shuffle` on the heap. -/
theorem shuffle_spec {minDepth maxDepth : Int} {draws : Draws} {c' : Cube}
    (run : Rubiks.shuffle c minDepth maxDepth draws = some c') (cube : CubeAt base L c h.blocks)
    (room : live base + 62 ≤ limit) :
    wp A limit (shuffle A (L .cube) minDepth maxDepth draws) (fun _ h' => CubeAt base L c' h'.blocks) h := by
  obtain ⟨depth, drawn, turns⟩ := Option.bind_eq_some_iff.1 run
  refine wp_bind (wp_defined drawn ?_)
  exact wp_forM _ (fun c (h' : Heap Struct) => CubeAt base L c h'.blocks)
    (fun i c c' h' turned cube => rotate_spec turned cube room) (List.range depth.toNat) turns cube

/-- `is_solved` reads the cube and changes nothing. -/
theorem isSolved_spec (cube : CubeAt base L c h.blocks) :
    wp A limit (isSolved (L .cube)) (fun r h' => r = Rubiks.isSolved c ∧ h' = h) h := by
  have square : ∀ ind jind, wp A limit (do
      let color ← loadColor (← loadFace (L .cube) ((ind : FaceId) : Nat)) ((jind : SquareId) : Nat)
      pure (color == ((ind : Nat) : Int)))
      (fun r h' => r = ((c.faces ind).colors jind == ((ind : Nat) : Int)) ∧ h' = h) h := by
    intro ind jind
    exact wp_bind (wp_loadFace (index_fin ind) (cube.inside .cube trivial) rfl
      (wp_bind (wp_loadColor (index_fin jind) (cube.inside (.face ind) trivial) rfl (wp_pure ⟨rfl, rfl⟩))))
  refine wp_bind (wp_mono (wp_allM (List.finRange 6) fun ind => wp_allM (List.finRange 9) (square ind)) ?_)
  rintro r h' ⟨rfl, rfl⟩
  exact wp_pure ⟨rfl, rfl⟩

/-- **`rotate` on the heap refines `rotate` on values.** On any cube, its tables
included, whose turn is defined, nothing undefined happens but the store through a
null pointer from `malloc`. Whenever the call returns, the cube's 31 blocks hold the
value turned, at the addresses they had, and no other block has appeared, gone or
changed; and it returns if `malloc` grants the copy. -/
theorem rotate_memory (A : Allocator Struct) {limit : Nat} {base : Blocks Struct} {L : Part → Address} {c c' : Cube}
    {h : Heap Struct} {faceNum direction : Int} (cube : CubeAt base L c h.blocks)
    (run : Rubiks.rotate c faceNum direction = some c') (room : live base + 62 ≤ limit) :
    rotate A (L .cube) faceNum direction h ≠ .error .undefined ∧
    (∀ h', rotate A (L .cube) faceNum direction h = .ok ((), h') →
      (∀ o, h'.blocks (L o) = some (contents L c' o)) ∧ ∀ a, (∀ o, a ≠ L o) → h'.blocks a = h.blocks a) ∧
    (¬ A.Refuses limit → ∃ h', rotate A (L .cube) faceNum direction h = .ok ((), h')) := by
  have spec := rotate_spec (A := A) run cube room
  refine ⟨spec.defined, fun h' turned => ?_, fun grants => ?_⟩
  · have cube' := spec.ok turned
    refine ⟨fun o => cube'.inside o trivial, fun a other => ?_⟩
    rw [cube'.outside a fun o _ => other o, cube.outside a fun o _ => other o]
  · obtain ⟨_, h', turned, -⟩ := spec.run grants
    exact ⟨h', turned⟩

/-- A turn of the solved cube, with the lowest free addresses. -/
theorem rotate_memory_solved : ∃ (L : Part → Address) (h h' : Heap Struct) (c' : Cube),
    rotate (firstFit Struct 62) (L .cube) (faceTop : Nat) 0 h = .ok ((), h') ∧
      Rubiks.rotate Rubiks.makeCube (faceTop : Nat) 0 = some c' ∧
      (∀ o, h.blocks (L o) = some (contents L Rubiks.makeCube o)) ∧
      ∀ o, h'.blocks (L o) = some (contents L c' o) := by
  have room : live (fun _ => none : Blocks Struct) + 62 ≤ ((62 : Nat) : ENat) := by simp
  have enough : live (⟨fun _ => none, 0⟩ : Heap Struct).blocks + 31 ≤ ((62 : Nat) : ENat) :=
    le_trans (by gcongr; decide) room
  have made := makeCube_spec (A := firstFit Struct 62) enough
  obtain ⟨_, h, -, L, rfl, cube⟩ := made.run (firstFit_grants Struct 62)
  have turns := rotate_eq Cube.standard_makeCube faceTop 0
  obtain ⟨-, result, returns⟩ := rotate_memory (firstFit Struct 62) cube turns room
  obtain ⟨h', turned⟩ := returns (firstFit_grants Struct 62)
  exact ⟨L, h, h', _, turned, turns, fun o => cube.inside o trivial, (result h' turned).1⟩

end Rubiks.OnHeap
