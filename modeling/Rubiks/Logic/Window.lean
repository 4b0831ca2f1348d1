import Mathlib.Logic.Function.Iterate

/-!
# Character windows

A window has a cursor, a current colour pair and a pair for each cell; pair `0` is
the background. `Lawful height width` says what a program may rely on while it stays
inside: a blank takes the current pair and moves the cursor on, a newline erases the
rest of the line to the background. What happens at the margins is left open, and so
is what `attron` does with a number that is no pair: an attribute has eight bits for it.
-/

namespace Rubiks.Logic

/-- The operations on a window and what can be observed of it. -/
structure Window (W : Type*) where
  /-- `attron(COLOR_PAIR(n))`. -/
  attron : W → Int → W
  move : W → Nat → Nat → W
  /-- `printw(" ")`. -/
  blank : W → W
  /-- `printw("\n")`. -/
  newline : W → W
  refresh : W → W
  cursor : W → Nat × Nat
  pair : W → Int
  cell : W → Nat → Nat → Int

namespace Window

variable {W : Type*}

structure Lawful (C : Window W) (height width : Nat) : Prop where
  attron_pair : ∀ w n, 0 < n → n < 256 → C.pair (C.attron w n) = n
  attron_cell : ∀ w n, C.cell (C.attron w n) = C.cell w
  move_cursor : ∀ w y x, y < height → x < width → C.cursor (C.move w y x) = (y, x)
  move_pair : ∀ w y x, C.pair (C.move w y x) = C.pair w
  move_cell : ∀ w y x, C.cell (C.move w y x) = C.cell w
  blank_cursor : ∀ w y x, C.cursor w = (y, x) → y < height → x + 1 < width → C.cursor (C.blank w) = (y, x + 1)
  blank_pair : ∀ w, C.pair (C.blank w) = C.pair w
  blank_cell : ∀ w y x, C.cursor w = (y, x) → y < height → x + 1 < width → ∀ y' x',
    C.cell (C.blank w) y' x' = if y' = y ∧ x' = x then C.pair w else C.cell w y' x'
  newline_pair : ∀ w, C.pair (C.newline w) = C.pair w
  newline_cell : ∀ w y x, C.cursor w = (y, x) → y + 1 < height → x < width → ∀ y' x',
    C.cell (C.newline w) y' x' = if y' = y ∧ x ≤ x' then 0 else C.cell w y' x'
  refresh_pair : ∀ w, C.pair (C.refresh w) = C.pair w
  refresh_cell : ∀ w, C.cell (C.refresh w) = C.cell w

variable {C : Window W} {height width : Nat}

/-- `n` blanks from a place with room for them. -/
theorem Lawful.blanks (h : C.Lawful height width) {w : W} {y x n : Nat} (cursor : C.cursor w = (y, x))
    (low : y < height) (room : x + n < width) :
    C.cursor (C.blank^[n] w) = (y, x + n) ∧ C.pair (C.blank^[n] w) = C.pair w ∧
      ∀ y' x', C.cell (C.blank^[n] w) y' x' = if y' = y ∧ x ≤ x' ∧ x' < x + n then C.pair w else C.cell w y' x' := by
  induction n with
  | zero =>
    refine ⟨cursor, rfl, fun y' x' => ?_⟩
    rw [if_neg (by omega)]
    rfl
  | succ n ih =>
    obtain ⟨cursor', pair, cell⟩ := ih (by omega)
    rw [Function.iterate_succ_apply']
    refine ⟨h.blank_cursor _ _ _ cursor' low room, by rw [h.blank_pair, pair], fun y' x' => ?_⟩
    rw [h.blank_cell _ _ _ cursor' low room, cell, pair]
    by_cases last : y' = y ∧ x' = x + n
    · rw [if_pos last, if_pos (by omega)]
    · rw [if_neg last]
      exact if_congr (by omega) rfl rfl

/-! ## A grid of cells -/

/-- A window of `height` lines and `width` columns that does not scroll. -/
structure Grid where
  cursor : Nat × Nat
  pair : Int
  cell : Nat → Nat → Int

/-- A cursor past the last column goes on in the next line, if there is one. -/
def wrap (height width : Nat) (cursor : Nat × Nat) : Nat × Nat :=
  if cursor.2 + 1 < width then (cursor.1, cursor.2 + 1)
  else if cursor.1 + 1 < height then (cursor.1 + 1, 0)
  else cursor

def grid (height width : Nat) : Window Grid where
  -- the low eight bits; pair `0` switches nothing
  attron w n := { w with pair := if n % 256 = 0 then w.pair else n % 256 }
  move w y x := if y < height ∧ x < width then { w with cursor := (y, x) } else w
  blank w := { w with
    cursor := wrap height width w.cursor
    cell := fun y x => if y = w.cursor.1 ∧ x = w.cursor.2 then w.pair else w.cell y x }
  newline w := { w with
    cursor := if w.cursor.1 + 1 < height then (w.cursor.1 + 1, 0) else w.cursor
    cell := fun y x => if y = w.cursor.1 ∧ w.cursor.2 ≤ x then 0 else w.cell y x }
  refresh w := w
  cursor := Grid.cursor
  pair := Grid.pair
  cell := Grid.cell

theorem grid_lawful (height width : Nat) : (grid height width).Lawful height width where
  attron_pair w n low high := by
    have bits : n % 256 = n := Int.emod_eq_of_lt (by omega) high
    simp only [grid, bits]
    exact if_neg (by omega)
  attron_cell _ _ := rfl
  move_cursor w y x low left := by simp [grid, low, left]
  move_pair w y x := by
    simp only [grid]
    split <;> rfl
  move_cell w y x := by
    simp only [grid]
    split <;> rfl
  blank_cursor w y x cursor _ room := by
    have at_ : w.cursor = (y, x) := cursor
    simp [grid, wrap, at_, room]
  blank_pair _ := rfl
  blank_cell w y x cursor _ _ y' x' := by
    have at_ : w.cursor = (y, x) := cursor
    simp only [grid, at_]
  newline_pair _ := rfl
  newline_cell w y x cursor _ _ y' x' := by
    have at_ : w.cursor = (y, x) := cursor
    simp only [grid, at_]
  refresh_pair _ := rfl
  refresh_cell _ := rfl

end Window

end Rubiks.Logic
