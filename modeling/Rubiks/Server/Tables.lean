import Rubiks.Server.Encoding

/-!
# The adjacency tables of every cube the program handles

`rotate` follows the tables of its cube without a check. No operation changes them:
turns and shuffles copy them into a scratch cube and back, resets build them anew,
`copy_cube` takes those of another such cube and `decode` writes colours only. So in
every call of `rotate` the neighbour loops stay in range and write twelve distinct
squares beside the turned face, each with the colour read for it, and the call
rearranges the 54 colours (`tables_kept`).
-/

namespace Rubiks

open Logic

/-- The cubes the program can make from `make_cube()`, displays of clients included. -/
inductive Handled : Cube → Prop where
  | makeCube : Handled makeCube
  | rotate {c d : Cube} {f : FaceId} {direction : Int} :
    Handled c → Rubiks.rotate c (f : Nat) direction = some d → Handled d
  | shuffle {c d : Cube} {minDepth maxDepth : Int} {draws : Draws} :
    Handled c → Rubiks.shuffle c minDepth maxDepth draws = some d → Handled d
  | resetFaces {c : Cube} : Handled c → Handled (Rubiks.resetFaces c)
  | copyCube {originalCube newCube : Cube} :
    Handled originalCube → Handled newCube → Handled (Rubiks.copyCube originalCube newCube)
  | decode {c d : Cube} {text : List Char8} :
    Handled c → 54 ≤ text.length → Rubiks.decode c text = some d → Handled d

/-- Every operation keeps the tables of `make_face`. -/
theorem Handled.standard {c : Cube} (h : Handled c) : c.Standard := by
  induction h with
  | makeCube => exact Cube.standard_makeCube
  | rotate _ run ih =>
    rw [rotate_eq ih] at run
    obtain rfl := Option.some.inj run
    exact ih.paint _
  | shuffle _ run ih =>
    obtain ⟨n, turned⟩ := shuffle_some run
    rw [runMoves_eq ih] at turned
    obtain rfl := Option.some.inj turned
    exact ih.paint _
  | resetFaces => rw [resetFaces_eq]; exact Cube.standard_makeCube
  | copyCube _ _ ih _ => exact ih
  | decode _ long run ih =>
    rw [decode_eq _ long] at run
    obtain rfl := Option.some.inj run
    exact ih.paint _

/-- The `jind`-th square along the `ind`-th edge of face `f`, as its table has it: the
face index and the square index the neighbour loops use. -/
def Cube.neighbour (c : Cube) (f : FaceId) (ind : Fin 4) (jind : Fin 3) : Int × Int :=
  (((c.faces f).adjacentFaces ind).face, ((c.faces f).adjacentFaces ind).edgeSquares jind)

/-- The face and square indices the neighbour loops write, in order. -/
def Cube.neighbourWrites (c : Cube) (next : Fin 4 → Fin 4) (f : FaceId) : List (Int × Int) :=
  (List.finRange 4).flatMap fun ind => (List.finRange 3).map fun jind => c.neighbour f (next ind) jind

/-- The 54 colours, face by face. -/
def Cube.colors (c : Cube) : List Int :=
  (List.finRange 6).flatMap fun f => (List.finRange 9).map fun s => (c.faces f).colors s

/-- The edge that an edge moves onto in the neighbour loop of a call of `rotate`. -/
def nextEdge (direction : Int) : Fin 4 → Fin 4 := if direction = 0 then nextClockwise else nextCounterclockwise

theorem nextEdge_cases (direction : Int) : nextEdge direction = nextEdge 0 ∨ nextEdge direction = nextEdge 1 := by
  by_cases zero : direction = 0
  · exact .inl (by rw [zero])
  · exact .inr (by rw [nextEdge, if_neg zero]; rfl)

theorem Cube.Standard.neighbour_eq {c : Cube} (h : c.Standard) : c.neighbour = makeCube.neighbour := by
  funext f ind jind
  have table : (c.faces f).adjacentFaces = (Rubiks.makeCube.faces f).adjacentFaces := congrFun h f
  rw [neighbour, neighbour, table]

theorem Cube.Standard.neighbourWrites_eq {c : Cube} (h : c.Standard) :
    c.neighbourWrites = makeCube.neighbourWrites := by
  funext next f
  rw [neighbourWrites, neighbourWrites, h.neighbour_eq]

/-- Every entry of `make_face`'s tables is a face and a square. -/
theorem neighbour_range : ∀ (f : FaceId) (ind : Fin 4) (jind : Fin 3),
    0 ≤ (makeCube.neighbour f ind jind).1 ∧ (makeCube.neighbour f ind jind).1 ≤ 5 ∧
      0 ≤ (makeCube.neighbour f ind jind).2 ∧ (makeCube.neighbour f ind jind).2 ≤ 8 := by
  decide +kernel

/-- Twelve distinct squares, none on the face or its opposite. -/
theorem neighbourWrites_distinct (f : FaceId) (direction : Int) :
    (makeCube.neighbourWrites (nextEdge direction) f).length = 12 ∧
      (makeCube.neighbourWrites (nextEdge direction) f).Nodup ∧
      ∀ w ∈ makeCube.neighbourWrites (nextEdge direction) f, w.1 ≠ (f : Nat) ∧ w.1 ≠ (f.rev : Nat) := by
  have each : ∀ (f : FaceId) (next : Fin 2), let writes := makeCube.neighbourWrites (nextEdge (next : Nat)) f
      writes.length = 12 ∧ writes.Nodup ∧ ∀ w ∈ writes, w.1 ≠ (f : Nat) ∧ w.1 ≠ (f.rev : Nat) := by
    decide +kernel
  rcases nextEdge_cases direction with same | same
  · rw [same]
    exact each f 0
  · rw [same]
    exact each f 1

/-- What a table's entry names is the colour of a square along the edge. -/
theorem Cube.Standard.readColor_neighbour {c : Cube} (h : c.Standard) (d : Cube) (f : FaceId) (ind : Fin 4)
    (jind : Fin 3) :
    d.readColor (c.neighbour f ind jind).1 (c.neighbour f ind jind).2 = some (d.coloring (edgeSquare f ind jind)) := by
  obtain ⟨face, square⟩ := edgeSquare_index f ind jind
  rw [h.neighbour_eq]
  change index 6 (Rubiks.makeCube.neighbour f ind jind).1 = _ at face
  change index 9 (Rubiks.makeCube.neighbour f ind jind).2 = _ at square
  rw [readColor, face, square]
  rfl

/-- The squares a neighbour loop writes are distinct. -/
theorem edgeMoves_distinct (f : FaceId) (direction : Int) :
    ((edgeMoves (nextEdge direction) f).map Prod.fst).Nodup := by
  have all := turnMoves_distinct f direction
  unfold turnMoves at all
  unfold nextEdge
  by_cases zero : direction = 0
  · rw [if_pos zero, List.map_append] at all
    rw [if_pos zero]
    exact (List.nodup_append.1 all).2.1
  · rw [if_neg zero, List.map_append] at all
    rw [if_neg zero]
    exact (List.nodup_append.1 all).2.1

/-- The neighbour loop on a standard cube is in range, stores at the place after each the
colour read there, and stores to no other square. -/
theorem transposeOtherFaces_writes {c : Cube} (h : c.Standard) (direction : Int) (f : FaceId) (newCube : Cube) :
    ∃ d, transposeOtherFaces (nextEdge direction) c newCube (f : Nat) = some d ∧
      (∀ ind jind, ∃ oldColor,
        c.readColor (c.neighbour f ind jind).1 (c.neighbour f ind jind).2 = some oldColor ∧
        d.readColor (c.neighbour f (nextEdge direction ind) jind).1 (c.neighbour f (nextEdge direction ind) jind).2 =
          some oldColor) ∧
      ∀ s : Square, (((s.1 : Nat) : Int), ((s.2 : Nat) : Int)) ∉ c.neighbourWrites (nextEdge direction) f →
        d.coloring s = newCube.coloring s := by
  refine ⟨_, Cube.transposeOtherFaces_eq h _ newCube f, fun ind jind => ?_, fun s outside => ?_⟩
  · refine ⟨_, h.readColor_neighbour c f ind jind, ?_⟩
    rw [h.readColor_neighbour, Cube.coloring_paint, copyCells]
    have keys : ((edgeMoves (nextEdge direction) f).map fun m => (m.1, c.coloring m.2)).map Prod.fst =
        (edgeMoves (nextEdge direction) f).map Prod.fst := by
      rw [List.map_map]
      rfl
    have moved : (edgeSquare f (nextEdge direction ind) jind, edgeSquare f ind jind) ∈
        edgeMoves (nextEdge direction) f :=
      List.mem_flatMap.2 ⟨ind, List.mem_finRange ind, List.mem_map.2 ⟨jind, List.mem_finRange jind, rfl⟩⟩
    have stored := List.mem_map_of_mem (f := fun m => (m.1, c.coloring m.2)) moved
    exact congrArg some (overwrite_of_mem (keys ▸ edgeMoves_distinct f direction) stored newCube.coloring)
  · rw [Cube.coloring_paint, copyCells, overwrite_of_not_mem]
    intro mem
    apply outside
    simp only [edgeMoves, List.map_map, List.map_flatMap, List.mem_flatMap, List.mem_map, List.mem_finRange, true_and,
      Function.comp] at mem
    obtain ⟨ind, jind, rfl⟩ := mem
    obtain ⟨face, square⟩ := edgeSquare_index f (nextEdge direction ind) jind
    rw [h.neighbourWrites_eq]
    refine List.mem_flatMap.2 ⟨ind, List.mem_finRange ind, List.mem_map.2 ⟨jind, List.mem_finRange jind, ?_⟩⟩
    exact Prod.ext (index_eq_some_iff.1 face) (index_eq_some_iff.1 square)

/-- Reading the colours through a permutation of the squares rearranges them. -/
theorem colors_perm (c : Cube) (g : Equiv.Perm Square) : (c.paint (c.coloring ∘ g)).colors.Perm c.colors := by
  let squares : List Square := (List.finRange 6).flatMap fun f => (List.finRange 9).map fun s => (f, s)
  have listed : ∀ d : Cube, d.colors = squares.map d.coloring := by
    intro d
    simp only [squares, Cube.colors, List.map_flatMap, List.map_map]
    rfl
  have nodup : squares.Nodup := by decide
  have all : ∀ s : Square, s ∈ squares := by decide
  have permuted : (squares.map g).Perm squares :=
    (List.perm_ext_iff_of_nodup (nodup.map g.injective) nodup).2 fun s =>
      iff_of_true (List.mem_map.2 ⟨g.symm s, all _, g.apply_symm_apply s⟩) (all s)
  rw [listed, listed, Cube.coloring_paint, ← List.map_map]
  exact permuted.map c.coloring

/-- **The adjacency tables never change**, so every later `rotate` is safe: the entries
it follows are in range, the twelve squares its neighbour loop writes are distinct and on
neither the turned face nor its opposite, each holds the colour read for it in the end,
and the colours after the call are those before it in another order. -/
theorem tables_kept {c : Cube} (h : Handled c) :
    (∀ f, (c.faces f).adjacentFaces = (makeFace f).adjacentFaces) ∧
    ∀ (f : FaceId) (direction : Int),
      (∀ ind jind, 0 ≤ (c.neighbour f ind jind).1 ∧ (c.neighbour f ind jind).1 ≤ 5 ∧
        0 ≤ (c.neighbour f ind jind).2 ∧ (c.neighbour f ind jind).2 ≤ 8) ∧
      (∀ newCube, ∃ d, transposeOtherFaces (nextEdge direction) c newCube (f : Nat) = some d ∧
        (∀ ind jind, ∃ oldColor,
          c.readColor (c.neighbour f ind jind).1 (c.neighbour f ind jind).2 = some oldColor ∧
          d.readColor (c.neighbour f (nextEdge direction ind) jind).1 (c.neighbour f (nextEdge direction ind) jind).2 =
            some oldColor) ∧
        ∀ s : Square, (((s.1 : Nat) : Int), ((s.2 : Nat) : Int)) ∉ c.neighbourWrites (nextEdge direction) f →
          d.coloring s = newCube.coloring s) ∧
      (c.neighbourWrites (nextEdge direction) f).length = 12 ∧ (c.neighbourWrites (nextEdge direction) f).Nodup ∧
      (∀ w ∈ c.neighbourWrites (nextEdge direction) f, w.1 ≠ (f : Nat) ∧ w.1 ≠ (f.rev : Nat)) ∧
      ∃ d, rotate c (f : Nat) direction = some d ∧ d.colors.Perm c.colors := by
  have standard := h.standard
  refine ⟨fun f => congrFun standard f, fun f direction => ?_⟩
  obtain ⟨length, distinct, beside⟩ := neighbourWrites_distinct f direction
  rw [← standard.neighbourWrites_eq] at length distinct beside
  refine ⟨?_, transposeOtherFaces_writes standard direction f, length, distinct, beside, _, rotate_eq standard f direction,
    colors_perm c _⟩
  rw [standard.neighbour_eq]
  exact neighbour_range f

/-- A client's display, painted with a byte string, after a turn. -/
theorem tables_kept_display : ∃ d, decode makeCube (List.replicate 60 newline) = some d ∧
    ∃ d', rotate d (faceTop : Nat) 1 = some d' ∧ d'.colors.Perm d.colors := by
  have long : 54 ≤ (List.replicate 60 newline).length := by decide
  have run := decode_eq makeCube long
  have display := Handled.makeCube.decode (by decide) run
  exact ⟨_, run, ((tables_kept display).2 faceTop 1).2.2.2.2.2⟩

end Rubiks
