import Rubiks.Start.Runs

/-!
# The squares in space

The six screens of the README set up as a cube: face `f` is the plane with
outward normal `normal f`, its rows run along `rowDir f` and its columns along
`colDir f`. A square is the side of the cubie at `place` that looks along the
normal. Three squares meet at each of the 8 corner places and two at each of the
12 edge places; `cornerSquare` and `edgeSquareAt` list them, a corner's
clockwise seen from outside.
-/

namespace Rubiks

/-- A direction, or the centre of a cubie (coordinates in `-1..1`). -/
@[ext] structure Vec where
  x : Int
  y : Int
  z : Int
  deriving DecidableEq

namespace Vec

def add (u v : Vec) : Vec := ⟨u.x + v.x, u.y + v.y, u.z + v.z⟩

def scale (k : Int) (v : Vec) : Vec := ⟨k * v.x, k * v.y, k * v.z⟩

def dot (u v : Vec) : Int := u.x * v.x + u.y * v.y + u.z * v.z

/-- The determinant of three vectors: positive when they are right-handed. -/
def det (u v w : Vec) : Int :=
  u.x * (v.y * w.z - v.z * w.y) - u.y * (v.x * w.z - v.z * w.x) + u.z * (v.x * w.y - v.y * w.x)

end Vec

/-- The outward normal of a face: front `-y`, right `+x`, back `+y`, left `-x`. -/
def normal : FaceId → Vec :=
  ![⟨0, -1, 0⟩, ⟨1, 0, 0⟩, ⟨0, 0, 1⟩, ⟨0, 0, -1⟩, ⟨-1, 0, 0⟩, ⟨0, 1, 0⟩]

/-- The direction of growing row numbers. -/
def rowDir : FaceId → Vec :=
  ![⟨0, 0, -1⟩, ⟨0, 0, -1⟩, ⟨1, 0, 0⟩, ⟨-1, 0, 0⟩, ⟨0, 0, -1⟩, ⟨0, 0, -1⟩]

/-- The direction of growing column numbers. -/
def colDir : FaceId → Vec :=
  ![⟨1, 0, 0⟩, ⟨0, 1, 0⟩, ⟨0, 1, 0⟩, ⟨0, 1, 0⟩, ⟨0, -1, 0⟩, ⟨-1, 0, 0⟩]

/-- The centre of the cubie a square belongs to. -/
def place (s : Square) : Vec :=
  ((normal s.1).add ((rowDir s.1).scale ((s.2.val / 3 : Nat) - 1))).add
    ((colDir s.1).scale ((s.2.val % 3 : Nat) - 1))

/-- The square of face `f` at the cubie `v`. -/
def squareAt (f : FaceId) (v : Vec) : Square :=
  (f, Fin.ofNat 9 (3 * ((rowDir f).dot v + 1) + ((colDir f).dot v + 1)).toNat)

/-- The faces of a cubie off the centre of each axis. -/
def faceX (v : Vec) : FaceId := if v.x = 1 then faceRight else faceLeft
def faceY (v : Vec) : FaceId := if v.y = 1 then faceBack else faceFront
def faceZ (v : Vec) : FaceId := if v.z = 1 then faceTop else faceBottom

/-- The 8 corner places. -/
abbrev Corner := Fin 8

/-- The 12 edge places. -/
abbrev Edge := Fin 12

def cornerPlace : Corner → Vec :=
  ![⟨-1, -1, -1⟩, ⟨1, -1, -1⟩, ⟨-1, 1, -1⟩, ⟨1, 1, -1⟩, ⟨-1, -1, 1⟩, ⟨1, -1, 1⟩, ⟨-1, 1, 1⟩, ⟨1, 1, 1⟩]

def edgePlace : Edge → Vec :=
  ![⟨0, -1, -1⟩, ⟨0, 1, -1⟩, ⟨0, -1, 1⟩, ⟨0, 1, 1⟩, ⟨-1, 0, -1⟩, ⟨1, 0, -1⟩, ⟨-1, 0, 1⟩, ⟨1, 0, 1⟩,
    ⟨-1, -1, 0⟩, ⟨1, -1, 0⟩, ⟨-1, 1, 0⟩, ⟨1, 1, 0⟩]

/-- The squares at a corner, clockwise from its TOP or BOTTOM square. -/
def cornerSquare (p : Corner) : Fin 3 → Square :=
  let v := cornerPlace p
  if v.x * v.y * v.z = 1 then ![squareAt (faceZ v) v, squareAt (faceY v) v, squareAt (faceX v) v]
  else ![squareAt (faceZ v) v, squareAt (faceX v) v, squareAt (faceY v) v]

/-- The squares at an edge, the TOP or BOTTOM one first, else the FRONT or BACK one. -/
def edgeSquareAt (p : Edge) : Fin 2 → Square :=
  let v := edgePlace p
  if v.z = 0 then ![squareAt (faceY v) v, squareAt (faceX v) v]
  else if v.y = 0 then ![squareAt (faceZ v) v, squareAt (faceX v) v]
  else ![squareAt (faceZ v) v, squareAt (faceY v) v]

/-- `squareAt` is the square of the face at that place. -/
theorem squareAt_place : ∀ s : Square, squareAt s.1 (place s) = s := by decide +kernel

/-- The listed squares of a corner meet there, and their normals turn clockwise seen from outside. -/
theorem cornerSquare_meet : ∀ p : Corner, (∀ a, place (cornerSquare p a) = cornerPlace p) ∧
    Vec.det (normal (cornerSquare p 0).1) (normal (cornerSquare p 1).1) (normal (cornerSquare p 2).1) = -1 ∧
    ((cornerSquare p 0).1 = faceTop ∨ (cornerSquare p 0).1 = faceBottom) := by
  decide +kernel

/-- The listed squares of an edge are the two that meet there. -/
theorem edgeSquareAt_meet : ∀ p : Edge, (∀ a, place (edgeSquareAt p a) = edgePlace p) ∧
    (edgeSquareAt p 0).1 ≠ (edgeSquareAt p 1).1 ∧
    ((edgeSquareAt p 0).1 ∈ [faceTop, faceBottom] ∨
      (edgeSquareAt p 0).1 ∈ [faceFront, faceBack] ∧ (edgeSquareAt p 1).1 ∉ [faceTop, faceBottom]) := by
  decide +kernel

/-- Every square is a centre, or one of a corner or of an edge. -/
theorem square_cases : ∀ s : Square, s.2 = squareMM ∨ (∃ p a, s = cornerSquare p a) ∨ ∃ p a, s = edgeSquareAt p a := by
  decide +kernel

end Rubiks
