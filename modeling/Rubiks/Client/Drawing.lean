import Rubiks.Logic.Window
import Rubiks.Start.Cube
import Mathlib.Data.List.FinRange

/-!
# Drawing a face

`update_curses_with_cube_state` and the loop of `rubiks_view` draw a face the same
way: a square is 14 lines of 29 blanks in the square's colour pair. Each line ends in
a newline, which erases what stands to its right, the later squares of the row among
it; they are drawn after it. On a window of 45 lines and 90 columns the face is there
in the end, whatever was there before, if its colours have a pair.
-/

namespace Rubiks

open Logic

def cursorSpaces : Nat := 30
def cursorNewLines : Nat := cursorSpaces / 2

/-- A square of a face by its row and column. -/
abbrev Place := Fin 3 × Fin 3

/-- `row * N_SQUARES_PER_SIDE + col`. -/
def Place.square (p : Place) : SquareId := ⟨p.1.val * 3 + p.2.val, by omega⟩

/-- The places in the order of the two loops. -/
def places : List Place := (List.finRange 3).flatMap fun row => (List.finRange 3).map fun col => (row, col)

section Drawing

variable {W : Type} (C : Window W)

/-- One line of a square; `flush` is what the program does after it. -/
def drawLine (flush : W → W) (w : W) (y x : Nat) : W :=
  flush (C.newline (C.blank^[cursorSpaces - 1] (C.move w y x)))

def drawSquare (flush : W → W) (color : Int) (p : Place) (w : W) : W :=
  (List.range (cursorNewLines - 1)).foldl
    (fun w currentLine => drawLine C flush w (p.1.val * cursorNewLines + currentLine) (p.2.val * cursorSpaces))
    (C.attron w (color + 1))

def drawFace (flush : W → W) (colors : SquareId → Int) (w : W) : W :=
  places.foldl (fun w p => drawSquare C flush (colors p.square) p w) w

/-- `update_curses_with_cube_state`. -/
def updateCursesWithCubeState (cubeStateToDisplay : Cube) (cubeFaceId : Int) (w : W) : Option W := do
  let face ← index 6 cubeFaceId
  some (drawFace C C.refresh (cubeStateToDisplay.faces face).colors w)

/-- The drawing in the loop of `rubiks_view`, which leaves the refresh to `getch`. -/
def viewDraw (rubiksCube : Cube) (currentFace : Int) (w : W) : Option W := do
  let face ← index 6 currentFace
  some (drawFace C id (rubiksCube.faces face).colors w)

end Drawing

/-! ## What is on the window -/

/-- The cells after a line of a square in the pair `n`. -/
def lineCells (cells : Nat → Nat → Int) (y x : Nat) (n : Int) : Nat → Nat → Int := fun y' x' =>
  if y' = y ∧ x ≤ x' then if x' < x + 29 then n else 0 else cells y' x'

/-- The cells after the first `k` lines of a square. -/
def squareCells (cells : Nat → Nat → Int) (p : Place) (k : Nat) (n : Int) : Nat → Nat → Int := fun y x =>
  if p.1.val * 15 ≤ y ∧ y < p.1.val * 15 + k ∧ p.2.val * 30 ≤ x then if x < p.2.val * 30 + 29 then n else 0
  else cells y x

/-- The line `y` of the window belongs to a square. -/
def InPicture (y : Nat) : Prop := y < 45 ∧ y % 15 < 14

instance (y : Nat) : Decidable (InPicture y) := inferInstanceAs (Decidable (_ ∧ _))

/-- The colours have a pair of their own: `color + 1` is not `0` and fits its eight bits. -/
def Drawable (colors : SquareId → Int) : Prop := ∀ s, 0 ≤ colors s ∧ colors s < 255

/-- The place whose lines and columns hold the cell. -/
def placeAt (y x : Nat) : Place := (Fin.ofNat 3 (y / 15), Fin.ofNat 3 (x / 30))

/-- The picture of a face on a window that held `cells`. -/
def picture (colors : SquareId → Int) (cells : Nat → Nat → Int) : Nat → Nat → Int := fun y x =>
  if InPicture y then if x < 90 ∧ x % 30 < 29 then colors (placeAt y x).square + 1 else 0 else cells y x

section Lawful

variable {W : Type} {C : Window W} {height width : Nat} {flush : W → W}

/-- `flush` shows the window and does not change it. -/
structure Flushes (C : Window W) (flush : W → W) : Prop where
  pair : ∀ w, C.pair (flush w) = C.pair w
  cell : ∀ w, C.cell (flush w) = C.cell w

theorem Flushes.id (C : Window W) : Flushes C id := ⟨fun _ => rfl, fun _ => rfl⟩

theorem Flushes.refresh (h : C.Lawful height width) : Flushes C C.refresh := ⟨h.refresh_pair, h.refresh_cell⟩

theorem drawLine_spec (h : C.Lawful height width) (flushes : Flushes C flush) (w : W) {y x : Nat}
    (low : y + 1 < height) (room : x + 29 < width) :
    C.pair (drawLine C flush w y x) = C.pair w ∧
      C.cell (drawLine C flush w y x) = lineCells (C.cell w) y x (C.pair w) := by
  have body : drawLine C flush w y x = flush (C.newline (C.blank^[29] (C.move w y x))) := rfl
  rw [body]
  obtain ⟨cursor, pair, cell⟩ := h.blanks (n := 29) (h.move_cursor w y x (by omega) (by omega)) (by omega) room
  refine ⟨?_, ?_⟩
  · rw [flushes.pair, h.newline_pair]
    exact pair.trans (h.move_pair w y x)
  · funext y' x'
    rw [flushes.cell, h.newline_cell _ _ _ cursor low room, cell, h.move_pair, h.move_cell, lineCells]
    by_cases line : y' = y ∧ x ≤ x'
    · rw [if_pos line]
      by_cases right : x' < x + 29
      · rw [if_neg (by omega), if_pos (by omega), if_pos right]
      · rw [if_pos (by omega), if_neg right]
    · rw [if_neg (by omega), if_neg (by omega), if_neg line]

/-- A square is drawn in the pair that `attron` leaves. -/
theorem drawSquare_spec (h : C.Lawful height width) (flushes : Flushes C flush) (tall : 45 ≤ height)
    (wide : 90 ≤ width) (color : Int) (p : Place) (w : W) :
    C.cell (drawSquare C flush color p w) = squareCells (C.cell w) p 14 (C.pair (C.attron w (color + 1))) := by
  have lines : ∀ k, k ≤ 14 → ∀ v : W,
      v = (List.range k).foldl (fun w currentLine => drawLine C flush w (p.1.val * 15 + currentLine) (p.2.val * 30))
        (C.attron w (color + 1)) →
      C.pair v = C.pair (C.attron w (color + 1)) ∧
        C.cell v = squareCells (C.cell w) p k (C.pair (C.attron w (color + 1))) := by
    intro k
    induction k with
    | zero =>
      rintro - v rfl
      refine ⟨rfl, ?_⟩
      funext y x
      rw [squareCells, if_neg (by omega)]
      exact congrFun (congrFun (h.attron_cell w _) y) x
    | succ k ih =>
      rintro bound v rfl
      obtain ⟨pair, cell⟩ := ih (by omega) _ rfl
      rw [List.range_succ, List.foldl_append, List.foldl_cons, List.foldl_nil]
      obtain ⟨pair', cell'⟩ := drawLine_spec h flushes ((List.range k).foldl (fun w currentLine =>
        drawLine C flush w (p.1.val * 15 + currentLine) (p.2.val * 30)) (C.attron w (color + 1)))
        (y := p.1.val * 15 + k) (x := p.2.val * 30) (by omega) (by omega)
      refine ⟨pair'.trans pair, ?_⟩
      rw [cell', cell, pair]
      funext y x
      simp only [lineCells, squareCells]
      by_cases last : y = p.1.val * 15 + k
      · by_cases left : p.2.val * 30 ≤ x <;> simp [last, left]
      · rw [if_neg (by omega)]
        exact if_congr (by omega) rfl rfl
  exact (lines 14 le_rfl _ rfl).2

theorem foldl_drawSquare (h : C.Lawful height width) (flushes : Flushes C flush) (tall : 45 ≤ height)
    (wide : 90 ≤ width) {colors : SquareId → Int} (drawable : Drawable colors) (drawn : List Place) (w : W) :
    C.cell (drawn.foldl (fun w p => drawSquare C flush (colors p.square) p w) w) =
      drawn.foldl (fun cells p => squareCells cells p 14 (colors p.square + 1)) (C.cell w) := by
  induction drawn generalizing w with
  | nil => rfl
  | cons p drawn ih =>
    obtain ⟨low, high⟩ := drawable p.square
    have own : C.pair (C.attron w (colors p.square + 1)) = colors p.square + 1 :=
      h.attron_pair w _ (by omega) (by omega)
    rw [List.foldl_cons, List.foldl_cons, ih, drawSquare_spec h flushes tall wide, own]

end Lawful

/-- A cell of the picture lies in one row and, but for the gaps, in one square. -/
theorem placeAt_eq {y x : Nat} {row col : Fin 3} (lines : row.val * 15 ≤ y ∧ y < row.val * 15 + 15)
    (columns : col.val * 30 ≤ x ∧ x < col.val * 30 + 30) : placeAt y x = (row, col) := by
  refine Prod.ext (Fin.ext ?_) (Fin.ext ?_)
  · show y / 15 % 3 = row.val
    omega
  · show x / 30 % 3 = col.val
    omega

/-- The squares of a row, drawn from left to right. -/
theorem foldl_row (colors : SquareId → Int) (cells : Nat → Nat → Int) (row : Fin 3) :
    ((List.finRange 3).map fun col => (row, col)).foldl
        (fun cells p => squareCells cells p 14 (colors (Place.square p) + 1)) cells =
      fun y x => if row.val * 15 ≤ y ∧ y < row.val * 15 + 14 then
        if x < 90 ∧ x % 30 < 29 then colors (placeAt y x).square + 1 else 0 else cells y x := by
  funext y x
  have three : ((List.finRange 3).map fun col => (row, col)) = [(row, 0), (row, 1), (row, 2)] := rfl
  have columns : ((0 : Fin 3).val = 0 ∧ (1 : Fin 3).val = 1) ∧ (2 : Fin 3).val = 2 := ⟨⟨rfl, rfl⟩, rfl⟩
  simp only [three, List.foldl_cons, List.foldl_nil, squareCells, columns]
  by_cases lines : row.val * 15 ≤ y ∧ y < row.val * 15 + 14
  · rw [if_pos lines]
    have own : ∀ col : Fin 3, col.val * 30 ≤ x → x < col.val * 30 + 30 → placeAt y x = (row, col) := by
      intro col left right
      exact placeAt_eq ⟨lines.1, by omega⟩ ⟨left, right⟩
    -- the last square that starts left of the cell decides
    by_cases third : 60 ≤ x
    · rw [if_pos ⟨lines.1, lines.2, third⟩]
      by_cases inside : x < 89
      · rw [if_pos inside, if_pos (by omega), own 2 third (by omega)]
      · rw [if_neg inside, if_neg (by omega)]
    · rw [if_neg (by omega)]
      by_cases second : 30 ≤ x
      · rw [if_pos ⟨lines.1, lines.2, second⟩]
        by_cases inside : x < 59
        · rw [if_pos inside, if_pos (by omega), own 1 second (by omega)]
        · rw [if_neg inside, if_neg (by omega)]
      · rw [if_neg (by omega), if_pos ⟨lines.1, lines.2, by omega⟩]
        by_cases inside : x < 29
        · rw [if_pos (by omega), if_pos (by omega), own 0 (by omega) (by omega)]
        · rw [if_neg (by omega), if_neg (by omega)]
  · rw [if_neg (by omega), if_neg (by omega), if_neg (by omega), if_neg lines]

/-- The nine squares, drawn in order, are the picture. -/
theorem foldl_places (colors : SquareId → Int) (cells : Nat → Nat → Int) :
    places.foldl (fun cells p => squareCells cells p 14 (colors p.square + 1)) cells = picture colors cells := by
  rw [places, List.foldl_flatMap]
  simp only [foldl_row]
  funext y x
  have three : List.finRange 3 = [0, 1, 2] := rfl
  have rows : ((0 : Fin 3).val = 0 ∧ (1 : Fin 3).val = 1) ∧ (2 : Fin 3).val = 2 := ⟨⟨rfl, rfl⟩, rfl⟩
  simp only [three, List.foldl_cons, List.foldl_nil, picture, rows]
  by_cases lines : InPicture y
  · rw [if_pos lines]
    unfold InPicture at lines
    split
    · rfl
    · split
      · rfl
      · rw [if_pos (by omega)]
  · rw [if_neg lines]
    unfold InPicture at lines
    rw [if_neg (by omega), if_neg (by omega), if_neg (by omega)]

section Lawful

variable {W : Type} {C : Window W} {height width : Nat} {flush : W → W}

theorem drawFace_cells (h : C.Lawful height width) (flushes : Flushes C flush) (tall : 45 ≤ height)
    (wide : 90 ≤ width) {colors : SquareId → Int} (drawable : Drawable colors) (w : W) :
    C.cell (drawFace C flush colors w) = picture colors (C.cell w) := by
  rw [drawFace, foldl_drawSquare h flushes tall wide drawable, foldl_places]

/-- **Both programs draw the same picture.** Take a window of at least 45 lines and 90
columns, whatever it shows, and a face whose colours have a pair. Each square of the
face is 14 lines of 29 cells in the pair of its colour, the gaps right of the squares
are background, and the lines between the rows and below the face are left as they were. -/
theorem draw_picture (h : C.Lawful height width) (tall : 45 ≤ height) (wide : 90 ≤ width) (c : Cube) (w : W)
    {face : Int} {f : FaceId} (inRange : face = (f : Nat)) (drawable : Drawable (c.faces f).colors) :
    ∃ client view, updateCursesWithCubeState C c face w = some client ∧ viewDraw C c face w = some view ∧
      ∀ y x, C.cell client y x = C.cell view y x ∧ C.cell view y x =
        if y < 45 ∧ y % 15 < 14 then if x < 90 ∧ x % 30 < 29 then c.coloring (f, (placeAt y x).square) + 1 else 0
        else C.cell w y x := by
  subst inRange
  refine ⟨drawFace C C.refresh (c.faces f).colors w, drawFace C id (c.faces f).colors w, ?_, ?_, fun y x => ?_⟩
  · rw [updateCursesWithCubeState, index_fin]
    rfl
  · rw [viewDraw, index_fin]
    rfl
  · rw [drawFace_cells h (.refresh h) tall wide drawable, drawFace_cells h (.id C) tall wide drawable]
    exact ⟨rfl, rfl⟩

/-- The middle of the solved cube's top face, on a screen that just fits. -/
theorem draw_picture_solved : ∃ client,
    updateCursesWithCubeState (Window.grid 45 90) makeCube 2 ⟨(0, 0), 0, fun _ _ => 0⟩ = some client ∧
      (Window.grid 45 90).cell client 22 44 = 3 := by
  obtain ⟨client, view, drawn, -, cells⟩ := draw_picture (Window.grid_lawful 45 90) le_rfl le_rfl makeCube
    ⟨(0, 0), 0, fun _ _ => 0⟩ (show (2 : Int) = ((2 : FaceId) : Nat) from rfl)
    (show ∀ _, (0 : Int) ≤ 2 ∧ (2 : Int) < 255 from fun _ => by decide)
  refine ⟨client, drawn, ?_⟩
  rw [(cells 22 44).1, (cells 22 44).2]
  rfl

end Lawful

end Rubiks
