import Rubiks.Start.Runs
import Mathlib.Data.List.GetD

/-!
# Which calls of `rotate` a call of `shuffle` makes

The depth and the arguments of each call come from one stream of `rand_r` values
through moduli. Every stream gives a list of calls within the depth range, and every
such list comes from a stream, whichever argument of `rotate` is evaluated first
(`shuffle_calls`).
-/

namespace Rubiks

/-- The arguments of a call of `rotate` from `shuffle`: a face and `0` or `1`. -/
abbrev ShuffleCall := FaceId × Fin 2

def ShuffleCall.move (call : ShuffleCall) : Move := ⟨call.1, (call.2 : Nat)⟩

/-- The direction of a round is `0` or `1`. -/
theorem Draws.direction_range (draws : Draws) (i : Nat) : 0 ≤ draws.direction i ∧ draws.direction i < 2 :=
  ⟨Int.tmod_nonneg _ (draws.nonneg _), Int.tmod_lt_of_pos _ (by decide)⟩

theorem Draws.round_face_first {draws : Draws} {i : Nat} (order : draws.faceFirst i = true) :
    draws.faceNum i = (draws.value (2 * i + 1)).tmod 6 ∧ draws.direction i = (draws.value (2 * i + 2)).tmod 2 := by
  rw [faceNum, direction, if_pos order, if_pos order]
  exact ⟨rfl, rfl⟩

theorem Draws.round_direction_first {draws : Draws} {i : Nat} (order : draws.faceFirst i = false) :
    draws.faceNum i = (draws.value (2 * i + 2)).tmod 6 ∧ draws.direction i = (draws.value (2 * i + 1)).tmod 2 := by
  rw [faceNum, direction, if_neg (by simp [order]), if_neg (by simp [order])]
  exact ⟨rfl, rfl⟩

/-- The call of round `i`. -/
def Draws.call (draws : Draws) (i : Nat) : ShuffleCall :=
  (Fin.ofNat 6 (draws.faceNum i).toNat, Fin.ofNat 2 (draws.direction i).toNat)

theorem Draws.moves_eq (draws : Draws) (n : Nat) :
    draws.moves n = ((List.range n).map draws.call).map ShuffleCall.move := by
  rw [Draws.moves, List.map_map]
  refine List.map_congr_left fun i _ => ?_
  obtain ⟨low, high⟩ := draws.direction_range i
  simp only [Function.comp, Draws.call, ShuffleCall.move, Move.mk.injEq, true_and]
  simp only [Fin.ofNat_eq_cast, Fin.val_natCast]
  omega

/-! ## A stream for a list of calls -/

/-- The value drawn at position `n` for the given calls: the depth over `min` first, then
two values a round, in the order of that round. -/
def streamValue (min : Int) (calls : List ShuffleCall) (faceFirst : Nat → Bool) : Nat → Int
  | 0 => calls.length - min
  | n + 1 =>
    let call := calls.getD (n / 2) (0, 0)
    if faceFirst (n / 2) = decide (n % 2 = 0) then (call.1 : Nat) else (call.2 : Nat)

/-- The draws whose values are `streamValue`. -/
def drawsOf (range : DepthRange) (calls : List ShuffleCall) (low : range.min ≤ calls.length)
    (high : calls.length ≤ range.max) (faceFirst : Nat → Bool) : Draws where
  value := streamValue range.min calls faceFirst
  nonneg n := by
    cases n with
    | zero =>
      simp only [streamValue]
      omega
    | succ n =>
      simp only [streamValue]
      split <;> omega
  bounded n := by
    have bounded := range.bounded
    have nonneg := range.nonneg
    cases n with
    | zero =>
      simp only [streamValue]
      omega
    | succ n =>
      simp only [streamValue]
      unfold intMax
      split <;> omega
  faceFirst := faceFirst

variable {range : DepthRange} {calls : List ShuffleCall} {low : range.min ≤ calls.length}
  {high : calls.length ≤ range.max} {faceFirst : Nat → Bool}

theorem depth_drawsOf : range.depth (drawsOf range calls low high faceFirst) = calls.length := by
  have small : ((calls.length : Int) - range.min) % (range.max - range.min + 1) = calls.length - range.min :=
    Int.emod_eq_of_lt (by omega) (by omega)
  simp only [DepthRange.depth, drawsOf, streamValue, small]
  omega

/-- Round `i` draws the face and the direction of the `i`-th call. -/
theorem call_drawsOf (i : Nat) : (drawsOf range calls low high faceFirst).faceNum i = ((calls.getD i (0, 0)).1 : Nat) ∧
    (drawsOf range calls low high faceFirst).direction i = ((calls.getD i (0, 0)).2 : Nat) := by
  have first : streamValue range.min calls faceFirst (2 * i + 1) =
      if faceFirst i = true then (((calls.getD i (0, 0)).1 : Nat) : Int) else ((calls.getD i (0, 0)).2 : Nat) := by
    simp only [streamValue, show 2 * i / 2 = i by omega, Nat.mul_mod_right, decide_true]
  have second : streamValue range.min calls faceFirst (2 * i + 2) =
      if faceFirst i = false then (((calls.getD i (0, 0)).1 : Nat) : Int) else ((calls.getD i (0, 0)).2 : Nat) := by
    simp only [streamValue, show (2 * i + 1) / 2 = i by omega, show (2 * i + 1) % 2 = 1 by omega]
    rfl
  have face : (((calls.getD i (0, 0)).1 : Nat) : Int).tmod 6 = ((calls.getD i (0, 0)).1 : Nat) :=
    Int.tmod_eq_of_lt (by omega) (by omega)
  have direction : (((calls.getD i (0, 0)).2 : Nat) : Int).tmod 2 = ((calls.getD i (0, 0)).2 : Nat) :=
    Int.tmod_eq_of_lt (by omega) (by omega)
  cases order : faceFirst i with
  | true =>
    have order' : (drawsOf range calls low high faceFirst).faceFirst i = true := order
    obtain ⟨faceNum, turned⟩ := Draws.round_face_first order'
    rw [faceNum, turned]
    refine ⟨(congrArg (Int.tmod · 6) first).trans ?_, (congrArg (Int.tmod · 2) second).trans ?_⟩
    · rw [if_pos order, face]
    · rw [if_neg (by simp [order]), direction]
  | false =>
    have order' : (drawsOf range calls low high faceFirst).faceFirst i = false := order
    obtain ⟨faceNum, turned⟩ := Draws.round_direction_first order'
    rw [faceNum, turned]
    refine ⟨(congrArg (Int.tmod · 6) second).trans ?_, (congrArg (Int.tmod · 2) first).trans ?_⟩
    · rw [if_pos order, face]
    · rw [if_neg (by simp [order]), direction]

theorem moves_drawsOf :
    (drawsOf range calls low high faceFirst).moves calls.length = calls.map ShuffleCall.move := by
  apply List.ext_getElem
  · simp [Draws.moves]
  · intro i inRange inRange'
    have bound : i < calls.length := by simpa using inRange'
    have drawn : (drawsOf range calls low high faceFirst).faceNum i = _ ∧
      (drawsOf range calls low high faceFirst).direction i = _ := call_drawsOf i
    obtain ⟨face, direction⟩ := drawn
    rw [List.getD_eq_getElem _ _ bound] at face direction
    simp only [Draws.moves, List.getElem_map, List.getElem_range, face, direction, ShuffleCall.move, Int.toNat_natCast,
      Fin.ofNat_val_eq_self]

/-- **`shuffle` makes exactly the lists of calls in its depth range.** Every stream of
draws gives some list of calls whose length is in the range, without overflow or a zero
modulus; every such list is given by some stream, in either evaluation order. -/
theorem shuffle_calls (range : DepthRange) :
    (∀ (c : Cube), c.Standard → ∀ draws : Draws, ∃ calls : List ShuffleCall,
      range.min ≤ calls.length ∧ calls.length ≤ range.max ∧
      shuffleDepth range.min range.max draws = some (calls.length : Int) ∧
      draws.moves calls.length = calls.map ShuffleCall.move ∧
      ∃ d, shuffle c range.min range.max draws = some d ∧ runMoves c (calls.map ShuffleCall.move) = some d) ∧
    ∀ calls : List ShuffleCall, range.min ≤ calls.length → calls.length ≤ range.max → ∀ faceFirst : Nat → Bool,
      ∃ draws : Draws, draws.faceFirst = faceFirst ∧
        shuffleDepth range.min range.max draws = some (calls.length : Int) ∧
        draws.moves calls.length = calls.map ShuffleCall.move ∧
        ∀ c, shuffle c range.min range.max draws = runMoves c (calls.map ShuffleCall.move) := by
  refine ⟨fun c standard draws => ?_, fun calls low high faceFirst => ?_⟩
  · obtain ⟨low, high⟩ := range.depth_range draws
    refine ⟨(List.range (range.depth draws)).map draws.call, by simpa using low, by simpa using high, ?_, ?_, ?_⟩
    · rw [shuffleDepth_eq, List.length_map, List.length_range]
    · rw [List.length_map, List.length_range, draws.moves_eq]
    · rw [shuffle_eq, draws.moves_eq]
      exact ⟨_, runMoves_eq standard _, runMoves_eq standard _⟩
  · refine ⟨drawsOf range calls low high faceFirst, rfl, ?_, moves_drawsOf, fun c => ?_⟩
    · rw [shuffleDepth_eq, depth_drawsOf]
    · rw [shuffle_eq, depth_drawsOf, moves_drawsOf]

/-- A stream for three given turns in a range of two to four, whose arguments are
evaluated in either order by turns. -/
theorem shuffle_calls_three : ∃ draws : Draws, draws.faceFirst = (fun i => decide (i % 2 = 0)) ∧
    shuffleDepth 2 4 draws = some 3 ∧ draws.moves 3 = [⟨5, 1⟩, ⟨0, 0⟩, ⟨2, 1⟩] ∧
    shuffle makeCube 2 4 draws = runMoves makeCube [⟨5, 1⟩, ⟨0, 0⟩, ⟨2, 1⟩] := by
  obtain ⟨draws, order, depth, moves, run⟩ := (shuffle_calls ⟨2, 4, by decide, by decide, by decide⟩).2
    [(5, 1), (0, 0), (2, 1)] (by decide) (by decide) fun i => decide (i % 2 = 0)
  exact ⟨draws, order, depth, moves, run makeCube⟩

end Rubiks
