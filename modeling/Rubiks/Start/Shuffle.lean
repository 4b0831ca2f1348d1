import Rubiks.Start.Rotate
import Mathlib.Data.Int.Order.Basic

/-!
# `shuffle` and `is_solved`

`shuffle` seeds `rand_r` from the clock, draws a depth and then a face and a
direction for each turn. A call meets a `Draws`: the successive results of
`rand_r` and, since C leaves the order of the two arguments of `rotate` open,
which argument is evaluated first in each round. Signed overflow and a zero
modulus are undefined behaviour (`none`).
-/

namespace Rubiks

def intMin : Int := -2147483648
def intMax : Int := 2147483647

/-- The value of an `int` expression, undefined on overflow. -/
def intResult (x : Int) : Option Int := if intMin ≤ x ∧ x ≤ intMax then some x else none

/-- `a % b` on `int`s. -/
def intMod (a b : Int) : Option Int :=
  if b = 0 ∨ (a = intMin ∧ b = -1) then none else some (a.tmod b)

/-- What one call of `shuffle` draws. `rand_r` returns an `int` in `0..RAND_MAX`. -/
structure Draws where
  value : Nat → Int
  nonneg : ∀ n, 0 ≤ value n
  bounded : ∀ n, value n ≤ intMax
  /-- In round `i`, the argument `face_num` of `rotate` is evaluated first. -/
  faceFirst : Nat → Bool

instance : Inhabited Draws := ⟨⟨fun _ => 0, fun _ => le_refl 0, fun _ => by decide, fun _ => true⟩⟩

namespace Draws

/-- `rand_r(&seed) % N_FACES` of round `i`. -/
def faceNum (draws : Draws) (i : Nat) : Int :=
  (draws.value (if draws.faceFirst i then 2 * i + 1 else 2 * i + 2)).tmod 6

/-- `rand_r(&seed) % 2` of round `i`. -/
def direction (draws : Draws) (i : Nat) : Int :=
  (draws.value (if draws.faceFirst i then 2 * i + 2 else 2 * i + 1)).tmod 2

theorem faceNum_range (draws : Draws) (i : Nat) : 0 ≤ draws.faceNum i ∧ draws.faceNum i < 6 :=
  ⟨Int.tmod_nonneg _ (draws.nonneg _), Int.tmod_lt_of_pos _ (by decide)⟩

end Draws

/-- `rand_r(&seed) % (max_depth - min_depth + 1) + min_depth`. -/
def shuffleDepth (minDepth maxDepth : Int) (draws : Draws) : Option Int := do
  let span ← intResult (maxDepth - minDepth)
  let span ← intResult (span + 1)
  let drawn ← intMod (draws.value 0) span
  intResult (drawn + minDepth)

/-- `shuffle`. -/
def shuffle (cube_ : Cube) (minDepth maxDepth : Int) (draws : Draws) : Option Cube := do
  let depth ← shuffleDepth minDepth maxDepth draws
  (List.range depth.toNat).foldlM (fun c i => rotate c (draws.faceNum i) (draws.direction i)) cube_

/-- `MIN_DEPTH` and `MAX_DEPTH` of `shuffle_depths`. -/
def minDepth : Int := 20
def maxDepth : Int := 30

/-- `is_solved`: every square has its face's number. -/
def isSolved (cube_ : Cube) : Int :=
  if (List.finRange 6).all fun ind => (List.finRange 9).all fun jind =>
    (cube_.faces ind).colors jind == ((ind : Nat) : Int)
  then 1 else 0

theorem isSolved_eq_one_iff {c : Cube} : isSolved c = 1 ↔ c.coloring = solvedColoring := by
  have all : ((List.finRange 6).all fun ind => (List.finRange 9).all fun jind =>
      (c.faces ind).colors jind == ((ind : Nat) : Int)) = true ↔ c.coloring = solvedColoring := by
    simp only [List.all_eq_true, List.mem_finRange, forall_const, beq_iff_eq]
    exact ⟨fun h => funext fun s => h s.1 s.2, fun h f s => congrFun h (f, s)⟩
  rw [← all, isSolved]
  split <;> simp_all

theorem isSolved_eq_zero_iff {c : Cube} : isSolved c = 0 ↔ c.coloring ≠ solvedColoring := by
  rw [ne_eq, ← isSolved_eq_one_iff, isSolved]
  split <;> simp

/-- A range of depths `shuffle` may be called with. -/
structure DepthRange where
  min : Int
  max : Int
  nonneg : 0 ≤ min
  ordered : min ≤ max
  bounded : max < intMax

/-- The depth a call with this range draws. -/
def DepthRange.depth (range : DepthRange) (draws : Draws) : Nat :=
  (draws.value 0 % (range.max - range.min + 1) + range.min).toNat

/-- The range of the calls in the program. -/
def defaultRange : DepthRange := ⟨minDepth, maxDepth, by decide, by decide, by decide⟩

theorem DepthRange.depth_range (range : DepthRange) (draws : Draws) :
    range.min ≤ range.depth draws ∧ range.depth draws ≤ range.max := by
  obtain ⟨lo, hi, nonneg, ordered, -⟩ := range
  have low := Int.emod_nonneg (draws.value 0) (show hi - lo + 1 ≠ 0 by omega)
  have high := Int.emod_lt_of_pos (draws.value 0) (show 0 < hi - lo + 1 by omega)
  simp only [depth]
  omega

/-- Within a depth range nothing overflows and the modulus is not zero. -/
theorem shuffleDepth_eq (range : DepthRange) (draws : Draws) :
    shuffleDepth range.min range.max draws = some (range.depth draws : Int) := by
  have bounds := range.depth_range draws
  obtain ⟨lo, hi, nonneg, ordered, bounded⟩ := range
  have low := Int.emod_nonneg (draws.value 0) (show hi - lo + 1 ≠ 0 by omega)
  have modulus : (draws.value 0).tmod (hi - lo + 1) = draws.value 0 % (hi - lo + 1) :=
    Int.tmod_eq_emod_of_nonneg (draws.nonneg 0)
  simp only [DepthRange.depth] at bounds ⊢
  have inRange : ∀ x : Int, 0 ≤ x → x ≤ intMax → intResult x = some x := by
    intro x low high
    rw [intResult, if_pos ⟨by unfold intMin; omega, high⟩]
  have defined : intMod (draws.value 0) (hi - lo + 1) = some (draws.value 0 % (hi - lo + 1)) := by
    rw [intMod, if_neg (by omega), modulus]
  simp only [shuffleDepth, inRange (hi - lo) (by omega) (by omega), Option.bind_eq_bind, Option.bind_some,
    inRange (hi - lo + 1) (by omega) (by omega), defined]
  rw [inRange _ (by omega) (by omega)]
  congr 1
  omega

end Rubiks
