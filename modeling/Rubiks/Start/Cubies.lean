import Rubiks.Start.Space
import Rubiks.Logic.Pieces
import Mathlib.Data.List.Rotate

/-!
# Cubies over whole runs

Every quarter turn moves the squares of a corner or an edge as a whole
(`quarterTurn_corners`, `quarterTurn_edges`), so along any run the colours stay
those of an assembled cube and the corner twists, the edge flips and the two
parities obey the conservation laws of the physical puzzle.
-/

namespace Rubiks

open Logic Equiv

/-- The colours at a corner, clockwise from its TOP or BOTTOM square. -/
def cornerColors (x : Square → Int) (p : Corner) : List Int := List.ofFn fun a => x (cornerSquare p a)

/-- The colours at an edge, from its reference square. -/
def edgeColors (x : Square → Int) (p : Edge) : List Int := List.ofFn fun a => x (edgeSquareAt p a)

/-- The colouring is that of an assembled cube: the centres in place, every
corner piece and every edge piece of the solved cube at exactly one position. -/
structure Assembled (x : Square → Int) : Prop where
  centers : ∀ f : FaceId, x (f, squareMM) = (f : Nat)
  corners : ∃ piece : Perm Corner, ∀ p, cornerColors x p ~r cornerColors solvedColoring (piece p)
  edges : ∃ piece : Perm Edge, ∀ p, edgeColors x p ~r edgeColors solvedColoring (piece p)

/-! ## One quarter turn -/

/-- Where a clockwise quarter turn finds the piece that comes to each corner. -/
def cornerCycle : FaceId → Perm Corner :=
  ![fourCycle 0 1 5 4, fourCycle 1 3 7 5, fourCycle 4 5 7 6, fourCycle 0 2 3 1, fourCycle 0 4 6 2, fourCycle 2 6 7 3]

/-- How far clockwise that piece is turned on its way. -/
def cornerTurn : FaceId → Corner → Fin 3 :=
  ![![2, 1, 0, 0, 1, 2, 0, 0], ![0, 2, 0, 1, 0, 1, 0, 2], 0, 0, ![1, 0, 2, 0, 2, 0, 1, 0], ![0, 0, 1, 2, 0, 0, 2, 1]]

/-- Where a clockwise quarter turn finds the piece that comes to each edge. -/
def edgeCycle : FaceId → Perm Edge :=
  ![fourCycle 0 9 2 8, fourCycle 5 11 7 9, fourCycle 2 7 3 6, fourCycle 0 4 1 5, fourCycle 4 8 6 10, fourCycle 1 10 3 11]

/-- Whether that piece is flipped on its way. -/
def edgeTurn : FaceId → Edge → Fin 2 :=
  ![![1, 0, 1, 0, 0, 0, 0, 0, 1, 1, 0, 0], 0, 0, 0, 0, ![0, 1, 0, 1, 0, 0, 0, 0, 0, 0, 1, 1]]

theorem quarterTurn_corners (f : FaceId) : Balanced cornerSquare (quarterTurn f) 1 := by
  refine ⟨cornerCycle f, cornerTurn f, ?_, ?_, ?_⟩
  · have carried : ∀ (f : FaceId) (p : Corner) (a : Fin 3),
        turnSource f 0 (cornerSquare p a) = cornerSquare (cornerCycle f p) (a + cornerTurn f p) := by
      decide +kernel
    exact carried f
  · revert f; decide
  · rw [pow_one]
    fin_cases f <;> exact sign_fourCycle (by decide) (by decide) (by decide)

theorem quarterTurn_edges (f : FaceId) : Balanced edgeSquareAt (quarterTurn f) 1 := by
  refine ⟨edgeCycle f, edgeTurn f, ?_, ?_, ?_⟩
  · have carried : ∀ (f : FaceId) (p : Edge) (a : Fin 2),
        turnSource f 0 (edgeSquareAt p a) = edgeSquareAt (edgeCycle f p) (a + edgeTurn f p) := by
      decide +kernel
    exact carried f
  · revert f; decide
  · rw [pow_one]
    fin_cases f <;> exact sign_fourCycle (by decide) (by decide) (by decide)

/-- A turn of a face leaves all six centres in place. -/
theorem turn_center (f : FaceId) (direction : Int) (g : FaceId) :
    turn f direction (g, squareMM) = (g, squareMM) := by
  have center : ∀ f g : FaceId, turnSource f 0 (g, squareMM) = (g, squareMM) ∧
      turnSource f 1 (g, squareMM) = (g, squareMM) := by decide +kernel
  unfold turn
  split
  · exact (center f g).1
  · exact (center f g).2

/-! ## Runs of turns -/

/-- A balanced quarter turn makes every run of turns balanced, in its number of moves. -/
theorem moves_balanced {ι A : Type*} [AddCommGroup A] [Fintype ι] [DecidableEq ι] {cell : ι → A → Square}
    (quarter : ∀ f, Balanced cell (quarterTurn f) 1) (moves : List Move) :
    Balanced cell (moves.map Move.perm).prod moves.length := by
  have each : ∀ g ∈ moves.map Move.perm, Balanced cell g 1 := by
    intro g mem
    obtain ⟨m, -, rfl⟩ := List.mem_map.1 mem
    unfold Move.perm turn
    split
    · exact quarter m.face
    · exact (quarter m.face).inv
  simpa using Balanced.list_prod each

theorem moves_center (moves : List Move) (g : FaceId) :
    (moves.map Move.perm).prod (g, squareMM) = (g, squareMM) := by
  induction moves with
  | nil => rfl
  | cons m moves ih =>
    rw [List.map_cons, List.prod_cons, Perm.mul_apply, ih]
    exact turn_center m.face m.direction g

/-- The colours of the solved corner `q` turned by `t`. -/
def turnedCorner (q : Corner) (t : Fin 3) : List Int := List.ofFn fun a => solvedColoring (cornerSquare q (a + t))

/-- The colours of the solved edge `q` turned by `t`. -/
def turnedEdge (q : Edge) (t : Fin 2) : List Int := List.ofFn fun a => solvedColoring (edgeSquareAt q (a + t))

theorem turnedCorner_isRotated : ∀ q t, turnedCorner q t ~r cornerColors solvedColoring q := by decide +kernel

theorem turnedEdge_isRotated : ∀ q t, turnedEdge q t ~r edgeColors solvedColoring q := by decide +kernel

theorem cornerColors_carried {g : Perm Square} {ρ : Perm Corner} {t : Corner → Fin 3}
    (carries : Carries cornerSquare g ρ t) (p : Corner) :
    cornerColors (solvedColoring ∘ g) p = turnedCorner (ρ p) (t p) := by
  simp only [cornerColors, turnedCorner, Function.comp, carries p]

theorem edgeColors_carried {g : Perm Square} {ρ : Perm Edge} {t : Edge → Fin 2}
    (carries : Carries edgeSquareAt g ρ t) (p : Edge) :
    edgeColors (solvedColoring ∘ g) p = turnedEdge (ρ p) (t p) := by
  simp only [edgeColors, turnedEdge, Function.comp, carries p]

/-- Every run of turns of the solved cube leaves it assembled. -/
theorem assembled_moves (moves : List Move) :
    Assembled (solvedColoring ∘ (moves.map Move.perm).prod) := by
  obtain ⟨ρ, t, corners, -, -⟩ := moves_balanced quarterTurn_corners moves
  obtain ⟨σ, u, edges, -, -⟩ := moves_balanced quarterTurn_edges moves
  refine ⟨fun f => ?_, ⟨ρ, fun p => ?_⟩, ⟨σ, fun p => ?_⟩⟩
  · rw [Function.comp, moves_center]; rfl
  · rw [cornerColors_carried corners]; exact turnedCorner_isRotated _ _
  · rw [edgeColors_carried edges]; exact turnedEdge_isRotated _ _

/-- **Cubie integrity.** Every run of turns, shuffles and resets from
`make_cube()` is defined and leaves the cube assembled. -/
theorem cubies_assembled (ops : List Op) : ∃ c, runOps makeCube ops = some c ∧ Assembled c.coloring := by
  obtain ⟨moves, same⟩ := runOps_eq_runMoves ops
  exact ⟨_, same.trans (runMoves_makeCube_eq moves), assembled_moves moves⟩

/-! ## Conservation laws, read off the colours -/

/-- The solved corner whose colours show at a corner, up to rotation. -/
def cornerPiece (colors : List Int) : Option Corner :=
  (List.finRange 8).find? fun q => decide (colors ~r cornerColors solvedColoring q)

/-- The solved edge whose colours show at an edge, in either order. -/
def edgePiece (colors : List Int) : Option Edge :=
  (List.finRange 12).find? fun q => decide (colors ~r edgeColors solvedColoring q)

def topOrBottom (color : Int) : Bool := color == 2 || color == 3

def frontOrBack (color : Int) : Bool := color == 0 || color == 5

/-- Clockwise steps from the TOP or BOTTOM square to the sticker of colour 2 or 3. -/
def cornerTwist (colors : List Int) : Nat := colors.findIdx topOrBottom

/-- Steps from the reference square to the reference sticker: the one of colour
2 or 3 if there is one, else the one of colour 0 or 5. -/
def edgeFlip (colors : List Int) : Nat :=
  if colors.any topOrBottom then colors.findIdx topOrBottom else colors.findIdx frontOrBack

theorem turnedCorner_read : ∀ q t, cornerPiece (turnedCorner q t) = some q ∧
    cornerTwist (turnedCorner q t) = (-t).val := by decide +kernel

theorem turnedEdge_read : ∀ q t, edgePiece (turnedEdge q t) = some q ∧
    edgeFlip (turnedEdge q t) = (-t).val := by decide +kernel

/-- Twists read off pieces whose turns sum to zero add up to a multiple of `n`. -/
theorem sum_val_neg_mod {ι : Type*} [Fintype ι] [DecidableEq ι] {n : Nat} [NeZero n] {t : ι → Fin n}
    (total : ∑ p, t p = 0) : (∑ p, (-t p).val) % n = 0 := by
  rw [← val_sum_mod, Finset.sum_neg_distrib, total, neg_zero]
  rfl

/-- A run with the solved colours has an even number of turns. -/
theorem even_of_solved {moves : List Move}
    (solved : solvedColoring ∘ (moves.map Move.perm).prod = solvedColoring) : Even moves.length := by
  obtain ⟨ρ, t, carries, -, parity⟩ := moves_balanced quarterTurn_corners moves
  have fixed : ρ = 1 := by
    ext p : 1
    have read := (turnedCorner_read (ρ p) (t p)).1
    rw [← cornerColors_carried carries, solved] at read
    have home := (turnedCorner_read p 0).1
    rw [show turnedCorner p 0 = cornerColors solvedColoring p by simp [turnedCorner, cornerColors]] at home
    exact (Option.some.inj (home.symm.trans read)).symm
  rw [fixed, Perm.sign_one] at parity
  by_contra odd
  rw [Nat.not_even_iff_odd] at odd
  rw [odd.neg_one_pow] at parity
  exact absurd parity (by decide)

theorem isSolved_moves_of_odd {moves : List Move} (odd : Odd moves.length) :
    isSolved (makeCube.paint (solvedColoring ∘ (moves.map Move.perm).prod)) = 0 := by
  rw [isSolved_eq_zero_iff, Cube.coloring_paint]
  exact fun solved => Nat.not_even_iff_odd.2 odd (even_of_solved solved)

/-- No turn leaves a reachable cube as it was: undone up to that cube, it would solve
the solved cube in an odd number of turns. -/
theorem Reachable.rotate_ne {c : Cube} (h : Reachable c) (f : FaceId) (direction : Int) :
    rotate c (f : Nat) direction ≠ some c := by
  obtain ⟨moves, rfl⟩ := h.exists_perm
  intro same
  obtain ⟨back, reverses⟩ := exists_reverses moves
  rw [rotate_eq (Cube.standard_makeCube.paint _), Cube.paint_paint, Cube.coloring_paint] at same
  have colors : (solvedColoring ∘ (moves.map Move.perm).prod) ∘ turn f direction =
      solvedColoring ∘ (moves.map Move.perm).prod := congrArg Cube.coloring (Option.some.inj same)
  have around : ((moves ++ ⟨f, direction⟩ :: back).map Move.perm).prod =
      (moves.map Move.perm).prod * turn f direction * (moves.map Move.perm).prod⁻¹ := by
    rw [List.map_append, List.map_cons, List.prod_append, List.prod_cons, prod_reverses reverses, mul_assoc]
    rfl
  have solved : solvedColoring ∘ ((moves ++ ⟨f, direction⟩ :: back).map Move.perm).prod = solvedColoring := by
    rw [around, Perm.coe_mul, Perm.coe_mul, ← Function.comp_assoc, ← Function.comp_assoc, colors,
      Function.comp_assoc, ← Perm.coe_mul, mul_inv_cancel]
    rfl
  have length : (moves ++ ⟨f, direction⟩ :: back).length = 2 * moves.length + 1 := by
    have same := reverses.length_eq
    rw [List.length_reverse] at same
    rw [List.length_append, List.length_cons]
    omega
  have even := even_of_solved solved
  rw [length] at even
  exact Nat.not_even_iff_odd.2 ⟨_, rfl⟩ even

/-- **Conservation laws.** After any run of turns of the solved cube the colours
show a permutation of the corners and one of the edges, both with the parity of
the number of turns; the corner twists sum to 0 mod 3 and the edge flips to 0
mod 2. A run of odd length, and a shuffle of odd depth, is not solved. -/
theorem conservation_laws :
    (∀ moves : List Move, ∃ c, runMoves makeCube moves = some c ∧
      (∃ corner : Perm Corner, (∀ p, cornerPiece (cornerColors c.coloring p) = some (corner p)) ∧
        Perm.sign corner = (-1) ^ moves.length) ∧
      (∃ edge : Perm Edge, (∀ p, edgePiece (edgeColors c.coloring p) = some (edge p)) ∧
        Perm.sign edge = (-1) ^ moves.length) ∧
      (∑ p, cornerTwist (cornerColors c.coloring p)) % 3 = 0 ∧
      (∑ p, edgeFlip (edgeColors c.coloring p)) % 2 = 0 ∧
      (Odd moves.length → isSolved c = 0)) ∧
    (∀ (range : DepthRange) (draws : Draws), Odd (range.depth draws) →
      ∃ c, shuffle makeCube range.min range.max draws = some c ∧ isSolved c = 0) := by
  refine ⟨fun moves => ?_, fun range draws odd => ?_⟩
  · obtain ⟨ρ, t, corners, total, parity⟩ := moves_balanced quarterTurn_corners moves
    obtain ⟨σ, u, edges, total', parity'⟩ := moves_balanced quarterTurn_edges moves
    refine ⟨_, runMoves_makeCube_eq moves, ⟨ρ, fun p => ?_, parity⟩, ⟨σ, fun p => ?_, parity'⟩, ?_, ?_,
      isSolved_moves_of_odd⟩
    · rw [Cube.coloring_paint, cornerColors_carried corners, (turnedCorner_read _ _).1]
    · rw [Cube.coloring_paint, edgeColors_carried edges, (turnedEdge_read _ _).1]
    · simp only [Cube.coloring_paint, cornerColors_carried corners, turnedCorner_read]
      exact sum_val_neg_mod total
    · simp only [Cube.coloring_paint, edgeColors_carried edges, turnedEdge_read]
      exact sum_val_neg_mod total'
  · refine ⟨_, (shuffle_eq makeCube range draws).trans (runMoves_makeCube_eq _), isSolved_moves_of_odd ?_⟩
    simpa [Draws.moves] using odd

end Rubiks
