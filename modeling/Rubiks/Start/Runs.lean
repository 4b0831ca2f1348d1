import Rubiks.Start.Shuffle
import Mathlib.Algebra.BigOperators.Group.List.Basic
import Mathlib.GroupTheory.Perm.Support
import Mathlib.Tactic.FinCases

/-!
# Runs of cube operations

A run of turns reads the colours through one permutation, the product of the
turns' (`runMoves_eq`). A call of `shuffle` is a run of turns, and the reset
yields `make_cube`'s cube, so every cube the program can reach from
`make_cube()` is the solved cube after a list of turns (`reachable_iff`).
Turns form a group, hence any run is undone by turns.
-/

namespace Rubiks

/-- The arguments of one call of `rotate`. -/
structure Move where
  face : FaceId
  direction : Int

/-- Successive calls of `rotate`. -/
def runMoves (cube_ : Cube) (moves : List Move) : Option Cube :=
  moves.foldlM (fun c m => rotate c (m.face : Nat) m.direction) cube_

namespace Move

def perm (m : Move) : Equiv.Perm Square := turn m.face m.direction

/-- The same face in the other direction: `0` against any non-zero value. -/
def Reverses (m m' : Move) : Prop := m'.face = m.face ∧ (m'.direction = 0 ↔ m.direction ≠ 0)

theorem Reverses.perm_eq {m m' : Move} (h : m.Reverses m') : m'.perm = m.perm⁻¹ := by
  obtain ⟨face, direction⟩ := h
  unfold perm turn
  rw [face]
  by_cases zero : m.direction = 0 <;> simp_all

end Move

@[simp] theorem runMoves_nil (c : Cube) : runMoves c [] = some c := rfl

theorem runMoves_cons (c : Cube) (m : Move) (moves : List Move) :
    runMoves c (m :: moves) = (rotate c (m.face : Nat) m.direction).bind fun d => runMoves d moves := rfl

theorem runMoves_append (c : Cube) (moves moves' : List Move) :
    runMoves c (moves ++ moves') = (runMoves c moves).bind fun d => runMoves d moves' := by
  simp [runMoves, List.foldlM_append]

/-- **A run of turns is one permutation of the colours.** -/
theorem runMoves_eq {c : Cube} (h : c.Standard) (moves : List Move) :
    runMoves c moves = some (c.paint (c.coloring ∘ (moves.map Move.perm).prod)) := by
  induction moves generalizing c with
  | nil => rfl
  | cons m moves ih =>
    rw [runMoves_cons, rotate_eq h, Option.bind_some, ih (h.paint _), Cube.paint_paint,
      Cube.coloring_paint, List.map_cons, List.prod_cons, Equiv.Perm.coe_mul, Function.comp_assoc]
    rfl

/-- Runs with the same permutation end in the same cube. -/
theorem runMoves_congr {c : Cube} (h : c.Standard) {moves moves' : List Move}
    (same : (moves.map Move.perm).prod = (moves'.map Move.perm).prod) :
    runMoves c moves = runMoves c moves' := by
  rw [runMoves_eq h, runMoves_eq h, same]

/-- The turns a call of `shuffle` makes when its depth is `n`. -/
def Draws.moves (draws : Draws) (n : Nat) : List Move :=
  (List.range n).map fun i => ⟨Fin.ofNat 6 (draws.faceNum i).toNat, draws.direction i⟩

theorem Draws.foldlM_rotate (draws : Draws) (c : Cube) (n : Nat) :
    (List.range n).foldlM (fun c i => rotate c (draws.faceNum i) (draws.direction i)) c =
      runMoves c (draws.moves n) := by
  have face : ∀ i, (((Fin.ofNat 6 (draws.faceNum i).toNat : Fin 6) : Nat) : Int) = draws.faceNum i := by
    intro i
    have := draws.faceNum_range i
    simp; omega
  rw [runMoves, Draws.moves, List.foldlM_map]
  simp only [face]

/-- Whatever its arguments, a call of `shuffle` that is defined is a run of turns. -/
theorem shuffle_some {c d : Cube} {minDepth maxDepth : Int} {draws : Draws}
    (run : shuffle c minDepth maxDepth draws = some d) : ∃ n, runMoves c (draws.moves n) = some d := by
  obtain ⟨depth, -, turned⟩ := Option.bind_eq_some_iff.1 run
  exact ⟨depth.toNat, by rw [← draws.foldlM_rotate, turned]⟩

theorem shuffle_eq (c : Cube) (range : DepthRange) (draws : Draws) :
    shuffle c range.min range.max draws = runMoves c (draws.moves (range.depth draws)) := by
  rw [shuffle, shuffleDepth_eq, Option.bind_eq_bind, Option.bind_some, Int.toNat_natCast, draws.foldlM_rotate]

/-- The solve branch of `decode_user_input`: each face is freed and made again. -/
def resetFaces (c : Cube) : Cube := (List.finRange 6).foldl (fun c i => c.setFace i (makeFace i)) c

theorem resetFaces_eq (c : Cube) : resetFaces c = makeCube := by
  ext f
  all_goals fin_cases f <;> rfl

/-- The operations of the program on a cube it owns. -/
inductive Op where
  | rotate (face : FaceId) (direction : Int)
  | shuffle (range : DepthRange) (draws : Draws)
  /-- The reset of `decode_user_input`. -/
  | resetFaces
  /-- The reset of `rubiks_view`: `free_cube`, then `make_cube`. -/
  | remake

def Op.run (c : Cube) : Op → Option Cube
  | .rotate face direction => Rubiks.rotate c (face : Nat) direction
  | .shuffle range draws => Rubiks.shuffle c range.min range.max draws
  | .resetFaces => some (Rubiks.resetFaces c)
  | .remake => some makeCube

/-- Successive operations. -/
def runOps (c : Cube) (ops : List Op) : Option Cube := ops.foldlM Op.run c

/-- The cubes the program reaches from `make_cube()`. -/
def Reachable (c : Cube) : Prop := ∃ ops, runOps makeCube ops = some c

/-- One operation is a run of turns or starts over from the solved cube. -/
theorem Op.run_cases (c : Cube) (op : Op) :
    (∃ moves, op.run c = runMoves c moves) ∨ op.run c = some makeCube := by
  cases op with
  | rotate face direction => exact .inl ⟨[⟨face, direction⟩], by simp [Op.run, runMoves]⟩
  | shuffle range draws => exact .inl ⟨_, shuffle_eq c range draws⟩
  | resetFaces => exact .inr (congrArg some (resetFaces_eq c))
  | remake => exact .inr rfl

theorem runOps_concat (c : Cube) (ops : List Op) (op : Op) :
    runOps c (ops ++ [op]) = (runOps c ops).bind fun d => op.run d := by
  simp [runOps, List.foldlM_append]

/-- Every run of operations is defined and ends where some run of turns does. -/
theorem runOps_eq_runMoves (ops : List Op) : ∃ moves, runOps makeCube ops = runMoves makeCube moves := by
  induction ops using List.reverseRecOn with
  | nil => exact ⟨[], rfl⟩
  | append_singleton ops op ih =>
    obtain ⟨moves, run⟩ := ih
    rw [runOps_concat, run, runMoves_eq Cube.standard_makeCube, Option.bind_some]
    rcases Op.run_cases (makeCube.paint (makeCube.coloring ∘ (moves.map Move.perm).prod)) op with
      ⟨more, turned⟩ | reset
    · refine ⟨moves ++ more, ?_⟩
      rw [turned, runMoves_append, runMoves_eq Cube.standard_makeCube, Option.bind_some]
    · exact ⟨[], reset⟩

theorem reachable_iff {c : Cube} : Reachable c ↔ ∃ moves, runMoves makeCube moves = some c := by
  constructor
  · rintro ⟨ops, run⟩
    obtain ⟨moves, same⟩ := runOps_eq_runMoves ops
    exact ⟨moves, same ▸ run⟩
  · rintro ⟨moves, run⟩
    refine ⟨moves.map fun m => .rotate m.face m.direction, ?_⟩
    rw [← run, runOps, runMoves, List.foldlM_map]
    rfl

theorem runMoves_makeCube_eq (moves : List Move) :
    runMoves makeCube moves = some (makeCube.paint (solvedColoring ∘ (moves.map Move.perm).prod)) :=
  runMoves_eq Cube.standard_makeCube moves

theorem reachable_makeCube : Reachable makeCube := ⟨[], rfl⟩

/-- Every operation is defined on a reachable cube and leads to one. -/
theorem Reachable.op {c : Cube} (h : Reachable c) (op : Op) : ∃ d, op.run c = some d ∧ Reachable d := by
  obtain ⟨ops, run⟩ := h
  obtain ⟨moves, defined⟩ := runOps_eq_runMoves (ops ++ [op])
  rw [runMoves_makeCube_eq] at defined
  have last := runOps_concat makeCube ops op
  rw [run, Option.bind_some, defined] at last
  exact ⟨_, last.symm, ops ++ [op], defined⟩

/-- A reachable cube has the tables of `make_face` and permuted solved colours. -/
theorem Reachable.exists_perm {c : Cube} (h : Reachable c) :
    ∃ moves : List Move, c = makeCube.paint (solvedColoring ∘ (moves.map Move.perm).prod) := by
  obtain ⟨moves, run⟩ := reachable_iff.1 h
  rw [runMoves_makeCube_eq] at run
  exact ⟨moves, (Option.some.inj run).symm⟩

theorem Reachable.standard {c : Cube} (h : Reachable c) : c.Standard := by
  obtain ⟨moves, rfl⟩ := h.exists_perm
  exact Cube.standard_makeCube.paint _

/-- The colours of a reachable cube are face numbers. -/
theorem Reachable.coloring_range {c : Cube} (h : Reachable c) (s : Square) :
    0 ≤ c.coloring s ∧ c.coloring s ≤ 5 := by
  obtain ⟨moves, rfl⟩ := h.exists_perm
  simp only [Cube.coloring_paint, Function.comp, solvedColoring]
  have := ((moves.map Move.perm).prod s).1.isLt
  omega

/-! ## Undoing turns -/

/-- The reversed list with every direction flipped has the inverse permutation. -/
theorem prod_reverses {moves back : List Move} (h : List.Forall₂ Move.Reverses moves.reverse back) :
    (back.map Move.perm).prod = (moves.map Move.perm).prod⁻¹ := by
  have each : ∀ {ms ms' : List Move}, List.Forall₂ Move.Reverses ms ms' →
      ms'.map Move.perm = ms.map fun m => m.perm⁻¹ := by
    intro ms ms' h
    induction h with
    | nil => rfl
    | cons flip _ ih => rw [List.map_cons, List.map_cons, ih, flip.perm_eq]
  rw [each h, List.prod_inv_reverse, ← List.map_reverse, ← List.map_reverse, List.map_map]
  rfl

/-- Every run has a reversed, flipped one. -/
theorem exists_reverses (moves : List Move) : ∃ back, List.Forall₂ Move.Reverses moves.reverse back := by
  refine ⟨moves.reverse.map fun m => ⟨m.face, if m.direction = 0 then 1 else 0⟩, ?_⟩
  rw [List.forall₂_map_right_iff]
  exact List.forall₂_same.2 fun m _ => ⟨rfl, by by_cases zero : m.direction = 0 <;> simp [zero]⟩

/-- A run followed by the reversed, flipped run restores the cube. -/
theorem runMoves_reverses {c : Cube} (h : c.Standard) {moves back : List Move}
    (reverses : List.Forall₂ Move.Reverses moves.reverse back) :
    runMoves c (moves ++ back) = some c := by
  rw [runMoves_eq h, List.map_append, List.prod_append, prod_reverses reverses, mul_inv_cancel]
  rfl

theorem quarterTurn_pow_four (f : FaceId) : quarterTurn f ^ 4 = 1 := by
  have square : ∀ (f : FaceId) (s : Square),
      turnSource f 0 (turnSource f 0 (turnSource f 0 (turnSource f 0 s))) = s := by
    decide +kernel
  ext s : 1
  simp only [pow_succ, pow_zero, one_mul, Equiv.Perm.mul_apply, quarterTurn_apply, square,
    Equiv.Perm.one_apply]

theorem Move.perm_pow_four (m : Move) : m.perm ^ 4 = 1 := by
  unfold Move.perm turn
  split
  · exact quarterTurn_pow_four _
  · rw [inv_pow, quarterTurn_pow_four, inv_one]

/-- Three turns one way are one turn the other way. -/
theorem Move.perm_pow_three (m : Move) : m.perm ^ 3 = m.perm⁻¹ := by
  rw [eq_inv_iff_mul_eq_one, ← pow_succ]
  exact m.perm_pow_four

/-- Turns of opposite faces move no square in common, so they commute. -/
theorem turn_commute_opposite (f : FaceId) (direction direction' : Int) :
    Commute (turn f direction) (turn f.rev direction') := by
  have apart : ∀ (f : FaceId) (s : Square), turnSource f 0 s = s ∨ turnSource f.rev 0 s = s := by
    decide +kernel
  have quarter : Commute (quarterTurn f) (quarterTurn f.rev) :=
    Equiv.Perm.Disjoint.commute fun s => by simpa only [quarterTurn_apply] using apart f s
  unfold turn
  split <;> split
  · exact quarter
  · exact quarter.inv_right
  · exact quarter.inv_left
  · exact quarter.inv_inv

/-- **Every run of turns is undone exactly**, a turn has order four, and every
reachable cube is solved by turns alone. -/
theorem turns_undone :
    (∀ c : Cube, c.Standard → ∀ moves back : List Move, List.Forall₂ Move.Reverses moves.reverse back →
      ∃ d, runMoves c moves = some d ∧ runMoves d back = some c) ∧
    (∀ c : Cube, c.Standard → ∀ m : Move, runMoves c [m, m, m, m] = some c ∧
      ∀ m', m.Reverses m' → ∃ d, runMoves c [m, m, m] = some d ∧ runMoves c [m'] = some d) ∧
    (∀ c : Cube, Reachable c → ∃ moves d, runMoves c moves = some d ∧ isSolved d = 1) := by
  refine ⟨fun c h moves back reverses => ?_, fun c h m => ⟨?_, fun m' reverses => ?_⟩, fun c reach => ?_⟩
  · have run := runMoves_reverses h reverses
    rw [runMoves_append, runMoves_eq h, Option.bind_some] at run
    exact ⟨_, runMoves_eq h moves, run⟩
  · have order : ([m, m, m, m].map Move.perm).prod = 1 := by
      rw [← m.perm_pow_four]; simp [pow_succ, mul_assoc]
    rw [runMoves_eq h, order]
    rfl
  · have thrice : ([m, m, m].map Move.perm).prod = ([m'].map Move.perm).prod := by
      simp [reverses.perm_eq, ← m.perm_pow_three, pow_succ, mul_assoc]
    exact ⟨_, runMoves_eq h _, by rw [← runMoves_congr h thrice, runMoves_eq h]⟩
  · obtain ⟨moves, run⟩ := reachable_iff.1 reach
    obtain ⟨back, reverses⟩ := exists_reverses moves
    have undone := runMoves_reverses Cube.standard_makeCube reverses
    rw [runMoves_append, run, Option.bind_some] at undone
    exact ⟨back, makeCube, undone, isSolved_eq_one_iff.2 rfl⟩

/-- Turns of two faces on the solved cube, undone. -/
theorem turns_undone_front_right :
    (∃ d, runMoves makeCube [⟨0, 0⟩, ⟨1, 1⟩] = some d ∧ runMoves d [⟨1, 0⟩, ⟨0, -7⟩] = some makeCube) ∧
    (∃ d, runMoves makeCube [⟨4, 3⟩, ⟨4, 3⟩, ⟨4, 3⟩] = some d ∧ runMoves makeCube [⟨4, 0⟩] = some d) ∧
    (∃ moves d, runMoves makeCube moves = some d ∧ isSolved d = 1) :=
  ⟨turns_undone.1 makeCube rfl [⟨0, 0⟩, ⟨1, 1⟩] [⟨1, 0⟩, ⟨0, -7⟩]
      (.cons ⟨rfl, by decide⟩ (.cons ⟨rfl, by decide⟩ .nil)),
    (turns_undone.2.1 makeCube rfl ⟨4, 3⟩).2 ⟨4, 0⟩ ⟨rfl, by decide⟩,
    turns_undone.2.2 makeCube reachable_makeCube⟩

end Rubiks
