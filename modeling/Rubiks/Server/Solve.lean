import Rubiks.Start.Cubies
import Rubiks.Client.SingleDevice

/-!
# What the space key does

`is_solved` compares each square with its face's number, not with its neighbours. No
operation moves a centre, so on a reachable cube this is the same as six one-coloured
faces, and only `make_cube`'s own cube passes (`isSolved_iff_oneColored`). The solve
branch is therefore never taken on a solved cube in another orientation.
-/

namespace Rubiks

/-- Every face shows a single colour. -/
def Cube.OneColored (c : Cube) : Prop := ∀ (f : FaceId) (i j : SquareId), c.coloring (f, i) = c.coloring (f, j)

theorem solved_oneColored {c : Cube} (h : c.coloring = solvedColoring) : c.OneColored := by
  intro f i j
  rw [h]
  rfl

/-- A centre of a reachable cube shows its face's number. -/
theorem Reachable.center {c : Cube} (h : Reachable c) (f : FaceId) : c.coloring (f, squareMM) = (f : Nat) := by
  obtain ⟨moves, rfl⟩ := h.exists_perm
  rw [Cube.coloring_paint, Function.comp, moves_center]
  rfl

theorem Reachable.solved_of_oneColored {c : Cube} (h : Reachable c) (faces : c.OneColored) :
    c.coloring = solvedColoring := by
  funext s
  obtain ⟨f, i⟩ := s
  rw [faces f i squareMM, h.center]
  rfl

/-- A reachable cube with the solved colours is `make_cube`'s, tables included. -/
theorem Reachable.eq_makeCube {c : Cube} (h : Reachable c) (solved : c.coloring = solvedColoring) : c = makeCube :=
  Cube.ext_of_tables solved h.standard

theorem Reachable.isSolved_iff_oneColored {c : Cube} (h : Reachable c) : isSolved c = 1 ↔ c.OneColored := by
  rw [isSolved_eq_one_iff]
  exact ⟨solved_oneColored, h.solved_of_oneColored⟩

theorem Reachable.isSolved_iff_eq {c : Cube} (h : Reachable c) : isSolved c = 1 ↔ c = makeCube := by
  rw [isSolved_eq_one_iff]
  refine ⟨h.eq_makeCube, ?_⟩
  rintro rfl
  rfl

theorem isSolved_ne_zero_iff {c : Cube} : isSolved c ≠ 0 ↔ isSolved c = 1 := by
  rw [ne_eq, isSolved_eq_zero_iff, not_not, isSolved_eq_one_iff]

/-- A space command at the server: the second byte is `'2'`. -/
theorem decodeUserInput_space (b : Char8) (rest : List Char8) (c : Cube) (draws : Draws) :
    decodeUserInput (b :: digit 2 :: rest) c draws =
      if isSolved c = 1 then shuffle c minDepth maxDepth draws else some makeCube := by
  have code : (digit 2).toInt - 48 = 2 := rfl
  simp only [decodeUserInput, List.getElem?_cons_zero, List.getElem?_cons_succ, Option.bind_eq_bind, Option.bind_some,
    code, if_true, isSolved_ne_zero_iff, resetFaces_eq]

/-- The space key of `rubiks_view`. -/
theorem viewKey_space (draws : Nat → Draws) (s : View) :
    viewKey draws s keySpace =
      if isSolved s.rubiksCube = 1 then
        (shuffle s.rubiksCube minDepth maxDepth (draws s.shuffles)).map fun cube =>
          { s with rubiksCube := cube, shuffles := s.shuffles + 1 }
      else some { s with rubiksCube := makeCube } := by
  rw [viewKey, if_neg (by decide), if_neg (by decide), if_neg (by decide), if_pos rfl]
  simp only [isSolved_ne_zero_iff]
  split
  · cases shuffle s.rubiksCube minDepth maxDepth (draws s.shuffles) <;> rfl
  · rfl

/-- **`is_solved` knows every solved cube the program can reach**: it returns 1 exactly
on six one-coloured faces, and exactly on `make_cube`'s cube. So a space command, at the
server or on a single device, solves a cube that has a face of two colours and shuffles
one that has none. -/
theorem space_key_solves {c : Cube} (h : Reachable c) :
    (isSolved c = 1 ↔ c.OneColored) ∧ (isSolved c = 1 ↔ c = makeCube) ∧
    (∀ (b : Char8) (rest : List Char8) (draws : Draws),
      ((∃ f i j, c.coloring (f, i) ≠ c.coloring (f, j)) →
        decodeUserInput (b :: digit 2 :: rest) c draws = some makeCube) ∧
      (c.OneColored → decodeUserInput (b :: digit 2 :: rest) c draws = shuffle c minDepth maxDepth draws)) ∧
    ∀ (draws : Nat → Draws) (face : Int) (n : Nat),
      ((∃ f i j, c.coloring (f, i) ≠ c.coloring (f, j)) →
        viewKey draws ⟨c, face, n⟩ keySpace = some ⟨makeCube, face, n⟩) ∧
      (c.OneColored → viewKey draws ⟨c, face, n⟩ keySpace =
        (shuffle c minDepth maxDepth (draws n)).map fun cube => ⟨cube, face, n + 1⟩) := by
  have iff := h.isSolved_iff_oneColored
  have mixed : (∃ f i j, c.coloring (f, i) ≠ c.coloring (f, j)) → isSolved c ≠ 1 := by
    rintro ⟨f, i, j, differ⟩ solved
    exact differ (iff.1 solved f i j)
  refine ⟨iff, h.isSolved_iff_eq, fun b rest draws => ⟨fun differ => ?_, fun faces => ?_⟩,
    fun draws face n => ⟨fun differ => ?_, fun faces => ?_⟩⟩
  · rw [decodeUserInput_space, if_neg (mixed differ)]
  · rw [decodeUserInput_space, if_pos (iff.2 faces)]
  · rw [viewKey_space, if_neg (mixed differ)]
  · rw [viewKey_space, if_pos (iff.2 faces)]

/-- The space command on the solved cube, and on it after one turn. -/
theorem space_key_solves_makeCube : decodeUserInput [digit 7, digit 2] makeCube default =
      shuffle makeCube minDepth maxDepth default ∧
    ∃ d, rotate makeCube 0 0 = some d ∧ decodeUserInput [digit 7, digit 2] d default = some makeCube := by
  have turned : rotate makeCube ((0 : FaceId) : Nat) 0 = _ := rotate_eq Cube.standard_makeCube 0 0
  refine ⟨((space_key_solves reachable_makeCube).2.2.1 _ _ _).2 (solved_oneColored rfl), _, turned,
    ((space_key_solves ⟨[.rotate 0 0], ?_⟩).2.2.1 _ _ _).1 ⟨1, 0, 1, ?_⟩⟩
  · exact turned
  · decide +kernel

end Rubiks
