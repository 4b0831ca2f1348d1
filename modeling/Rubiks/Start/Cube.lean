import Mathlib.Data.Fintype.Pi
import Mathlib.Data.Fintype.Prod
import Mathlib.Data.Fin.VecNotation
import Mathlib.Logic.Function.Basic
import Mathlib.Algebra.GroupWithZero.Nat

/-!
# The cube of `rubiks_start.c`

`constants.h`'s structs as values: every pointer of a `cube` is owned by it and
never shared, so a deep copy is the value itself. C arrays are functions from
their index range; `index` is the array access of an `int`, undefined outside
that range. The colours of a cube (`coloring`) and its adjacency tables
(`tables`) determine it, and `paint` replaces the former.
-/

namespace Rubiks

/-- `face_ids`: a face number the tables and loops use. -/
abbrev FaceId := Fin 6

/-- `square_ids` without `SQUARE_UNDEFINED`: a square of a face. -/
abbrev SquareId := Fin 9

/-- One of the 54 squares: the face and the place on it. -/
abbrev Square := FaceId × SquareId

-- one constant for each array length, so that every module's literals elaborate alike
instance directions_neZero : NeZero 2 := ⟨by decide⟩
instance codes_neZero : NeZero 3 := ⟨by decide⟩
instance neighbours_neZero : NeZero 4 := ⟨by decide⟩
instance faces_neZero : NeZero 6 := ⟨by decide⟩
instance squares_neZero : NeZero 9 := ⟨by decide⟩

def faceFront : FaceId := 0
def faceRight : FaceId := 1
def faceTop : FaceId := 2
def faceBottom : FaceId := 3
def faceLeft : FaceId := 4
def faceBack : FaceId := 5

def squareUL : SquareId := 0
def squareUM : SquareId := 1
def squareUR : SquareId := 2
def squareML : SquareId := 3
def squareMM : SquareId := 4
def squareMR : SquareId := 5
def squareLL : SquareId := 6
def squareLM : SquareId := 7
def squareLR : SquareId := 8
def squareUndefined : Int := -1

/-- `adjacent_face`: a neighbour across an edge and its squares along the edge. -/
@[ext] structure AdjacentFace where
  face : Int
  edgeSquares : Fin 3 → Int
  deriving DecidableEq

/-- `face`: nine colours and the four neighbours, clockwise. -/
@[ext] structure Face where
  colors : Fin 9 → Int
  adjacentFaces : Fin 4 → AdjacentFace
  deriving DecidableEq

/-- `cube`. -/
@[ext] structure Cube where
  faces : FaceId → Face
  deriving DecidableEq

/-- Array access by an `int`: out of range is undefined behaviour. -/
def index (n : Nat) (i : Int) : Option (Fin n) :=
  if h : 0 ≤ i ∧ i.toNat < n then some ⟨i.toNat, h.2⟩ else none

@[simp] theorem index_fin {n : Nat} (k : Fin n) : index n ((k : Nat) : Int) = some k := by
  simp [index]

theorem index_eq_none_iff {n : Nat} {i : Int} : index n i = none ↔ ¬ (0 ≤ i ∧ i < n) := by
  unfold index
  split <;> simp <;> omega

theorem index_eq_some_iff {n : Nat} {i : Int} {k : Fin n} : index n i = some k ↔ i = (k : Nat) := by
  constructor
  · intro h
    unfold index at h
    split at h
    · cases h; simp only; omega
    · cases h
  · rintro rfl; exact index_fin k

def makeAdjacentFace (faceNum : Int) (squares : Fin 3 → Int) : AdjacentFace :=
  { face := faceNum, edgeSquares := fun ind => squares ind }

/-- The four `adjacent_faces` that `initialize_adjacent_faces` allocates. -/
def initializeAdjacentFaces (adjacentFaces : Fin 4 → FaceId)
    (adjacentFaceEdgeSquares : FaceId → Fin 3 → Int) : Fin 4 → AdjacentFace := fun ind =>
  makeAdjacentFace (adjacentFaces ind : Nat) (adjacentFaceEdgeSquares (adjacentFaces ind))

/-- A row of an `adjacent_face_edge_squares` table. -/
def edge (a b c : SquareId) : Fin 3 → Int := ![(a : Nat), (b : Nat), (c : Nat)]

/-- A row no edge of the face uses. -/
def undefinedEdge : Fin 3 → Int := ![squareUndefined, squareUndefined, squareUndefined]

/-- `make_face`. Every caller passes a loop counter in `0..5`, so the `default`
branch, which leaves the neighbours unset, has no counterpart. -/
def makeFace (faceNum : FaceId) : Face where
  colors := fun _ => (faceNum : Nat)
  adjacentFaces := match faceNum with
    | 0 => initializeAdjacentFaces ![faceTop, faceRight, faceBottom, faceLeft]
        ![undefinedEdge,
          edge squareUL squareML squareLL,
          edge squareUL squareML squareLL,
          edge squareUL squareML squareLL,
          edge squareLR squareMR squareUR,
          undefinedEdge]
    | 1 => initializeAdjacentFaces ![faceFront, faceTop, faceBack, faceBottom]
        ![edge squareLR squareMR squareUR,
          undefinedEdge,
          edge squareLL squareLM squareLR,
          edge squareUR squareUM squareUL,
          undefinedEdge,
          edge squareUL squareML squareLL]
    | 2 => initializeAdjacentFaces ![faceFront, faceLeft, faceBack, faceRight]
        ![edge squareUR squareUM squareUL,
          edge squareUR squareUM squareUL,
          undefinedEdge,
          undefinedEdge,
          edge squareUR squareUM squareUL,
          edge squareUR squareUM squareUL]
    | 3 => initializeAdjacentFaces ![faceFront, faceRight, faceBack, faceLeft]
        ![edge squareLL squareLM squareLR,
          edge squareLL squareLM squareLR,
          undefinedEdge,
          undefinedEdge,
          edge squareLL squareLM squareLR,
          edge squareLL squareLM squareLR]
    | 4 => initializeAdjacentFaces ![faceFront, faceBottom, faceBack, faceTop]
        ![edge squareUL squareML squareLL,
          undefinedEdge,
          edge squareUR squareUM squareUL,
          edge squareLL squareLM squareLR,
          undefinedEdge,
          edge squareLR squareMR squareUR]
    | 5 => initializeAdjacentFaces ![faceRight, faceTop, faceLeft, faceBottom]
        ![undefinedEdge,
          edge squareLR squareMR squareUR,
          edge squareLR squareMR squareUR,
          edge squareLR squareMR squareUR,
          edge squareUL squareML squareLL,
          undefinedEdge]

/-- `make_cube`: the solved cube. -/
def makeCube : Cube := { faces := fun faceNum => makeFace faceNum }

def copyAdjacentFace (originalFace newFace : AdjacentFace) : AdjacentFace :=
  { newFace with face := originalFace.face, edgeSquares := fun ind => originalFace.edgeSquares ind }

def copyFace (originalFace newFace : Face) : Face :=
  { newFace with
    colors := fun squareNum => originalFace.colors squareNum
    adjacentFaces := fun adjacentFaceNum =>
      copyAdjacentFace (originalFace.adjacentFaces adjacentFaceNum) (newFace.adjacentFaces adjacentFaceNum) }

/-- `copy_cube`: the new value of `new_cube`. -/
def copyCube (originalCube newCube : Cube) : Cube :=
  { newCube with faces := fun faceNum => copyFace (originalCube.faces faceNum) (newCube.faces faceNum) }

@[simp] theorem copyCube_eq (originalCube newCube : Cube) : copyCube originalCube newCube = originalCube := rfl

namespace Cube

/-- The colours of the 54 squares. -/
def coloring (c : Cube) : Square → Int := fun s => (c.faces s.1).colors s.2

/-- The adjacency tables of the six faces. -/
def tables (c : Cube) : FaceId → Fin 4 → AdjacentFace := fun f => (c.faces f).adjacentFaces

/-- The cube with colours `x` and `c`'s adjacency tables. -/
def paint (c : Cube) (x : Square → Int) : Cube :=
  { faces := fun f => { c.faces f with colors := fun s => x (f, s) } }

@[simp] theorem coloring_paint (c : Cube) (x : Square → Int) : (c.paint x).coloring = x := rfl

@[simp] theorem paint_paint (c : Cube) (x y : Square → Int) : (c.paint x).paint y = c.paint y := rfl

/-- Colours and tables determine a cube. -/
theorem ext_of_tables {c d : Cube} (colors : c.coloring = d.coloring) (tables : c.tables = d.tables) :
    c = d := by
  ext f i
  · exact congrFun colors (f, i)
  · exact congrArg (·.face) (congrFun (congrFun tables f) i)
  · rename_i j; exact congrArg (·.edgeSquares j) (congrFun (congrFun tables f) i)

/-- The cube carries the adjacency tables `make_face` builds. -/
def Standard (c : Cube) : Prop := c.tables = makeCube.tables

instance (c : Cube) : Decidable c.Standard := inferInstanceAs (Decidable (_ = _))

theorem standard_makeCube : makeCube.Standard := rfl

theorem Standard.paint {c : Cube} (h : c.Standard) (x : Square → Int) : (c.paint x).Standard := h

/-- `cube->faces[f]->colors[s] = v`. -/
def setColor (c : Cube) (s : Square) (v : Int) : Cube :=
  { faces := Function.update c.faces s.1
      { c.faces s.1 with colors := Function.update (c.faces s.1).colors s.2 v } }

theorem coloring_setColor (c : Cube) (s : Square) (v : Int) :
    (c.setColor s v).coloring = Function.update c.coloring s v := by
  obtain ⟨f, s⟩ := s
  funext ⟨g, i⟩
  by_cases hg : g = f
  · subst hg
    by_cases hi : i = s
    · subst hi; simp [setColor, coloring]
    · have other : (g, i) ≠ (g, s) := by simpa using hi
      simp [setColor, coloring, Function.update_of_ne, hi]
  · have other : (g, i) ≠ (f, s) := by simp [hg]
    simp [setColor, coloring, Function.update_of_ne, hg]

theorem tables_setColor (c : Cube) (s : Square) (v : Int) : (c.setColor s v).tables = c.tables := by
  funext g
  by_cases hg : g = s.1
  · subst hg; simp [setColor, tables]
  · simp [setColor, tables, Function.update_of_ne hg]

theorem setColor_eq (c : Cube) (s : Square) (v : Int) :
    c.setColor s v = c.paint (Function.update c.coloring s v) :=
  ext_of_tables (c.coloring_setColor s v) (c.tables_setColor s v)

end Cube

/-- The colours of the solved cube: each square has its face's number. -/
def solvedColoring : Square → Int := fun s => (s.1 : Nat)

end Rubiks
