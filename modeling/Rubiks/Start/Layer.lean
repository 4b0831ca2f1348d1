import Rubiks.Start.Space
import Mathlib.Tactic.LinearCombination
import Mathlib.Tactic.Ring

/-!
# `rotate` turns one layer rigidly

`Vec.quarter n` is the quarter turn of space about the unit vector `n`, clockwise
seen from the side `n` points to when the direction is `0` and counterclockwise
otherwise. A call of `rotate` moves the colours of the squares in the layer of its
face as that turn moves the squares, and no others (`rotate_rigid`).
-/

namespace Rubiks

namespace Vec

def cross (u v : Vec) : Vec := ⟨u.y * v.z - u.z * v.y, u.z * v.x - u.x * v.z, u.x * v.y - u.y * v.x⟩

/-- The sense of a direction of `rotate`: clockwise is negative. -/
def turnSign (direction : Int) : Int := if direction = 0 then -1 else 1

/-- The quarter turn about `n`: what is along `n` stays, the rest turns by a right angle. -/
def quarter (n : Vec) (direction : Int) (v : Vec) : Vec :=
  (n.scale (n.dot v)).add ((n.cross v).scale (turnSign direction))

theorem turnSign_sq (direction : Int) : turnSign direction * turnSign direction = 1 := by
  unfold turnSign
  split <;> rfl

variable {n : Vec}

/-- Lengths and angles are kept. -/
theorem quarter_dot (unit : n.dot n = 1) (direction : Int) (u v : Vec) :
    (n.quarter direction u).dot (n.quarter direction v) = u.dot v := by
  have sign := turnSign_sq direction
  simp only [dot] at unit
  simp only [quarter, add, scale, cross, dot]
  generalize turnSign direction = k at sign ⊢
  linear_combination (((n.x * u.x + n.y * u.y + n.z * u.z) * (n.x * v.x + n.y * v.y + n.z * v.z)) +
    k * k * (u.x * v.x + u.y * v.y + u.z * v.z)) * unit + ((u.x * v.x + u.y * v.y + u.z * v.z) -
      (n.x * u.x + n.y * u.y + n.z * u.z) * (n.x * v.x + n.y * v.y + n.z * v.z)) * sign

/-- The part of `v` across `n` turns about `n` by a right angle, in the sense of the direction. -/
theorem quarter_det (unit : n.dot n = 1) (direction : Int) (v : Vec) :
    det n v (n.quarter direction v) = turnSign direction * (v.dot v - n.dot v * n.dot v) := by
  simp only [dot] at unit
  simp only [quarter, add, scale, cross, dot, det]
  linear_combination turnSign direction * (v.x * v.x + v.y * v.y + v.z * v.z) * unit

/-- The turn in the other direction takes it back. -/
theorem quarter_back (unit : n.dot n = 1) {direction back : Int} (flip : turnSign back = -turnSign direction)
    (v : Vec) : n.quarter back (n.quarter direction v) = v := by
  have sign := turnSign_sq direction
  simp only [dot] at unit
  simp only [quarter, flip, add, scale, cross, dot]
  generalize turnSign direction = k at sign ⊢
  ext <;> dsimp only
  · linear_combination ((n.x * v.x + n.y * v.y + n.z * v.z) * n.x + k * k * v.x) * unit +
      (v.x - n.x * (n.x * v.x + n.y * v.y + n.z * v.z)) * sign
  · linear_combination ((n.x * v.x + n.y * v.y + n.z * v.z) * n.y + k * k * v.y) * unit +
      (v.y - n.y * (n.x * v.x + n.y * v.y + n.z * v.z)) * sign
  · linear_combination ((n.x * v.x + n.y * v.y + n.z * v.z) * n.z + k * k * v.z) * unit +
      (v.z - n.z * (n.x * v.x + n.y * v.y + n.z * v.z)) * sign

end Vec

/-- The cubie of the square is in the layer of face `f`. -/
def InLayer (f : FaceId) (s : Square) : Prop := (normal f).dot (place s) = 1

instance (f : FaceId) (s : Square) : Decidable (InLayer f s) := inferInstanceAs (Decidable (_ = _))

/-- The quarter turn of face `f` carries square `s` onto square `t`: its cubie to
the place of `t`'s and the way it looks to the way `t` looks. -/
def CarriedOnto (f : FaceId) (direction : Int) (s t : Square) : Prop :=
  (normal f).quarter direction (place s) = place t ∧ (normal f).quarter direction (normal s.1) = normal t.1

instance (f : FaceId) (direction : Int) (s t : Square) : Decidable (CarriedOnto f direction s t) :=
  inferInstanceAs (Decidable (_ ∧ _))

theorem normal_unit (f : FaceId) : (normal f).dot (normal f) = 1 := by
  revert f
  decide

theorem normal_injective : ∀ f g : FaceId, normal f = normal g → f = g := by decide

/-- Only one square is carried onto a given one. -/
theorem CarriedOnto.unique {f : FaceId} {direction : Int} {s s' t : Square} (h : CarriedOnto f direction s t)
    (h' : CarriedOnto f direction s' t) : s = s' := by
  have flip : Vec.turnSign (if direction = 0 then 1 else 0) = -Vec.turnSign direction := by
    unfold Vec.turnSign
    by_cases zero : direction = 0 <;> simp [zero]
  have back := Vec.quarter_back (normal_unit f) flip
  have sameFace : s.1 = s'.1 := by
    apply normal_injective
    rw [← back (normal s.1), h.2, ← h'.2, back]
  have samePlace : place s = place s' := by rw [← back (place s), h.1, ← h'.1, back]
  rw [← squareAt_place s, ← squareAt_place s', sameFace, samePlace]

/-- Where a call of `rotate` reads the colour of a square: in the layer of its face,
from the square carried onto it, elsewhere from the square itself. -/
theorem turnSource_carried : ∀ (f : FaceId) (t : Square),
    (InLayer f t → CarriedOnto f 0 (turnSource f 0 t) t ∧ CarriedOnto f 1 (turnSource f 1 t) t) ∧
    (¬ InLayer f t → turnSource f 0 t = t ∧ turnSource f 1 t = t) := by
  decide +kernel

theorem turn_carried (f : FaceId) (direction : Int) (t : Square) :
    (InLayer f t → CarriedOnto f direction (turn f direction t) t) ∧
    (¬ InLayer f t → turn f direction t = t) := by
  obtain ⟨inside, outside⟩ := turnSource_carried f t
  rw [coe_turn]
  by_cases zero : direction = 0
  · rw [zero]
    exact ⟨fun layer => (inside layer).1, fun apart => (outside apart).1⟩
  · have sense : Vec.turnSign direction = Vec.turnSign 1 := by rw [Vec.turnSign, if_neg zero]; rfl
    rw [turnSource_counterclockwise zero]
    refine ⟨fun layer => ?_, fun apart => (outside apart).2⟩
    unfold CarriedOnto Vec.quarter
    rw [sense]
    exact (inside layer).2

/-- **`rotate` is the rigid quarter turn of one layer.** On a cube with `make_face`'s
tables, whatever its colours: every square in the layer of the face gets the colour
of the one square the quarter turn carries onto it, every other square and all
adjacency tables stay. -/
theorem rotate_rigid {c : Cube} (standard : c.Standard) (f : FaceId) (direction : Int) :
    ∃ d, rotate c (f : Nat) direction = some d ∧ d.tables = c.tables ∧
      (∀ t, InLayer f t → ∃ s, CarriedOnto f direction s t ∧ (∀ s', CarriedOnto f direction s' t → s' = s) ∧
        d.coloring t = c.coloring s) ∧
      ∀ t, ¬ InLayer f t → d.coloring t = c.coloring t := by
  refine ⟨_, rotate_eq standard f direction, rfl, fun t layer => ?_, fun t apart => ?_⟩
  · have carried := (turn_carried f direction t).1 layer
    exact ⟨turn f direction t, carried, fun s' other => other.unique carried, rfl⟩
  · rw [Cube.coloring_paint, Function.comp, (turn_carried f direction t).2 apart]

/-- The right face of the solved cube, counterclockwise: the back comes up to the top. -/
theorem rotate_rigid_right : ∃ d, rotate makeCube (faceRight : Nat) 7 = some d ∧ d.tables = makeCube.tables ∧
    CarriedOnto faceRight 7 (faceBack, squareML) (faceTop, squareLM) ∧ d.coloring (faceTop, squareLM) = (faceBack : Nat) ∧
    ∀ t, ¬ InLayer faceRight t → d.coloring t = makeCube.coloring t := by
  obtain ⟨d, run, tables, inside, apart⟩ := rotate_rigid (c := makeCube) rfl faceRight 7
  have carried : CarriedOnto faceRight 7 (faceBack, squareML) (faceTop, squareLM) := by decide
  obtain ⟨s, -, only, color⟩ := inside (faceTop, squareLM) (by decide)
  obtain rfl := only _ carried
  exact ⟨d, run, tables, carried, color, apart⟩

end Rubiks
