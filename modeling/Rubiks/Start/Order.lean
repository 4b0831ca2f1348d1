import Rubiks.Start.Cubies

/-!
# Repeating a sequence of turns

Any sequence of turns, repeated 55440 times, restores every cube: 840 rounds bring
every corner home and 27720 every edge, three times the first undo the twists and
twice the second the flips.
-/

namespace Rubiks

open Logic Equiv

/-- Any sequence of turns has an order that divides 55440. -/
theorem moves_pow (moves : List Move) : (moves.map Move.perm).prod ^ 55440 = 1 := by
  obtain ⟨ρ, t, corners, -, -⟩ := moves_balanced quarterTurn_corners moves
  obtain ⟨σ, u, edges, -, -⟩ := moves_balanced quarterTurn_edges moves
  have eight : ∀ n < Fintype.card Corner + 1, 0 < n → n ∣ 840 * 22 := by decide
  have twelve : ∀ n < Fintype.card Edge + 1, 0 < n → n ∣ 27720 := by decide
  ext s : 1
  rw [Perm.one_apply]
  rcases square_cases s with center | ⟨p, a, rfl⟩ | ⟨p, a, rfl⟩
  · obtain ⟨f, i⟩ := s
    obtain rfl : i = squareMM := center
    exact Perm.pow_apply_eq_self_of_apply_eq_self (moves_center moves f) 55440
  · exact corners.fixes (m := 840 * 22) (k := 3) (pow_eq_one_of_dvd eight ρ) (by decide) p a
  · exact edges.fixes (m := 27720) (k := 2) (pow_eq_one_of_dvd twelve σ) (by decide) p a

theorem prod_replicate (moves : List Move) (n : Nat) :
    ((List.replicate n moves).flatten.map Move.perm).prod = (moves.map Move.perm).prod ^ n := by
  induction n with
  | zero => rfl
  | succ n ih =>
    rw [List.replicate_succ, List.flatten_cons, List.map_append, List.prod_append, ih, pow_succ']

/-- Calling the same turns `n` times is one run. -/
theorem iterate_runMoves (moves : List Move) (n : Nat) (c : Cube) :
    (fun o => Option.bind o fun c => runMoves c moves)^[n] (some c) =
      runMoves c (List.replicate n moves).flatten := by
  induction n with
  | zero => rfl
  | succ n ih =>
    rw [Function.iterate_succ_apply', ih, List.replicate_succ', List.flatten_concat, runMoves_append]

/-- **A sequence of turns repeated 55440 times does nothing**, on any colours; nor do
55440 shuffles with the same values drawn, as by calls in the same second. -/
theorem repeated_turns {c : Cube} (h : c.Standard) :
    (∀ moves : List Move, runMoves c (List.replicate 55440 moves).flatten = some c) ∧
    ∀ (range : DepthRange) (draws : Draws),
      (fun o => Option.bind o fun c => shuffle c range.min range.max draws)^[55440] (some c) = some c := by
  have restored : ∀ moves : List Move, runMoves c (List.replicate 55440 moves).flatten = some c := by
    intro moves
    rw [runMoves_eq h, prod_replicate, moves_pow]
    rfl
  refine ⟨restored, fun range draws => ?_⟩
  simp only [shuffle_eq]
  rw [iterate_runMoves]
  exact restored _

/-- The solved cube, its front and top turned again and again. -/
theorem repeated_turns_solved :
    runMoves makeCube (List.replicate 55440 [⟨faceFront, 0⟩, ⟨faceTop, 1⟩]).flatten = some makeCube :=
  (repeated_turns Cube.standard_makeCube).1 _

end Rubiks
