import Rubiks.Start.Cube
import Rubiks.Logic.Overwrite
import Mathlib.Logic.Equiv.Defs
import Mathlib.Algebra.Group.End

/-!
# `rotate`

`rotate` copies the cube, writes 21 squares of the copy from the original (nine
on the turned face, three on each neighbour, addressed through the adjacency
tables) and copies the result back. On a cube with the tables of `make_face`
every index is in range and the call permutes the 54 colours: `rotate_eq` gives
the new colouring as the old one read through `turn`, a permutation computed
from the same index lists.
-/

namespace Rubiks

open Logic

/-- The nine assignments of `transpose_face_*`: the square written, the square read. -/
def transposeFace (moves : List (SquareId × SquareId)) (originalFace newFaceToPopulate : Face) : Face :=
  { newFaceToPopulate with colors := copyCells originalFace.colors newFaceToPopulate.colors moves }

def clockwiseMoves : List (SquareId × SquareId) :=
  [(squareUL, squareLL), (squareUM, squareML), (squareUR, squareUL),
   (squareML, squareLM), (squareMM, squareMM), (squareMR, squareUM),
   (squareLL, squareLR), (squareLM, squareMR), (squareLR, squareUR)]

def counterclockwiseMoves : List (SquareId × SquareId) :=
  [(squareUL, squareUR), (squareUM, squareMR), (squareUR, squareLR),
   (squareML, squareUM), (squareMM, squareMM), (squareMR, squareLM),
   (squareLL, squareUL), (squareLM, squareML), (squareLR, squareLL)]

def transposeFaceClockwise : Face → Face → Face := transposeFace clockwiseMoves

def transposeFaceCounterclockwise : Face → Face → Face := transposeFace counterclockwiseMoves

namespace Cube

/-- Read `cube->faces[f]->colors[s]`. -/
def readColor (c : Cube) (f s : Int) : Option Int := do
  let f ← index 6 f
  let s ← index 9 s
  some ((c.faces f).colors s)

/-- Write `cube->faces[f]->colors[s]`. -/
def writeColor (c : Cube) (f s v : Int) : Option Cube := do
  let f ← index 6 f
  let s ← index 9 s
  some (c.setColor (f, s) v)

/-- Replace the contents of `cube->faces[f]`. -/
def setFace (c : Cube) (f : FaceId) (face : Face) : Cube := { faces := Function.update c.faces f face }

end Cube

/-- `transpose_other_faces_*`, where `next` is the edge the loop's `ind`-th edge moves onto. -/
def transposeOtherFaces (next : Fin 4 → Fin 4) (cube_ newCubeToPopulate : Cube) (faceNum : Int) :
    Option Cube := do
  let f ← index 6 faceNum
  (List.finRange 4).foldlM (fun newCube ind => do
    let currentAdjacentFace := (cube_.faces f).adjacentFaces ind
    let nextAdjacentFace := (cube_.faces f).adjacentFaces (next ind)
    (List.finRange 3).foldlM (fun newCube jind => do
      let oldColor ← cube_.readColor currentAdjacentFace.face (currentAdjacentFace.edgeSquares jind)
      newCube.writeColor nextAdjacentFace.face (nextAdjacentFace.edgeSquares jind) oldColor)
      newCube) newCubeToPopulate

/-- `ind + 1`, or `0` after the last edge. -/
def nextClockwise (ind : Fin 4) : Fin 4 := if h : ind.val < 3 then ⟨ind + 1, by omega⟩ else 0

/-- `ind - 1`, or the last edge before the first. -/
def nextCounterclockwise (ind : Fin 4) : Fin 4 := if ind.val < 1 then 3 else ⟨ind - 1, by omega⟩

def transposeOtherFacesClockwise : Cube → Cube → Int → Option Cube := transposeOtherFaces nextClockwise

def transposeOtherFacesCounterclockwise : Cube → Cube → Int → Option Cube :=
  transposeOtherFaces nextCounterclockwise

/-- `rotate`: the new value of `*cube_`, or `none` when an index is out of range. -/
def rotate (cube_ : Cube) (faceNum direction : Int) : Option Cube := do
  let cubeCopy := copyCube cube_ makeCube
  let f ← index 6 faceNum
  let cubeCopy ←
    if direction = 0 then
      transposeOtherFacesClockwise cube_
        (cubeCopy.setFace f (transposeFaceClockwise (cube_.faces f) (cubeCopy.faces f))) faceNum
    else
      transposeOtherFacesCounterclockwise cube_
        (cubeCopy.setFace f (transposeFaceCounterclockwise (cube_.faces f) (cubeCopy.faces f))) faceNum
  some (copyCube cubeCopy cube_)

/-! ## The squares a turn touches -/

/-- The `jind`-th square along the `ind`-th edge of face `f`, from `make_face`'s table. -/
def edgeSquare (f : FaceId) (ind : Fin 4) (jind : Fin 3) : Square :=
  ((index 6 ((makeFace f).adjacentFaces ind).face).getD 0,
   (index 9 (((makeFace f).adjacentFaces ind).edgeSquares jind)).getD 0)

/-- Every entry of `make_face`'s tables that a turn uses is in range. -/
theorem edgeSquare_index (f : FaceId) (ind : Fin 4) (jind : Fin 3) :
    index 6 ((makeFace f).adjacentFaces ind).face = some (edgeSquare f ind jind).1 ∧
    index 9 (((makeFace f).adjacentFaces ind).edgeSquares jind) = some (edgeSquare f ind jind).2 := by
  revert f ind jind
  decide

/-- The square pairs (written, read) of one call of `transpose_other_faces_*`. -/
def edgeMoves (next : Fin 4 → Fin 4) (f : FaceId) : List (Square × Square) :=
  (List.finRange 4).flatMap fun ind => (List.finRange 3).map fun jind =>
    (edgeSquare f (next ind) jind, edgeSquare f ind jind)

/-- The square pairs of one call of `transpose_face_*` on face `f`. -/
def faceMoves (moves : List (SquareId × SquareId)) (f : FaceId) : List (Square × Square) :=
  moves.map fun m => ((f, m.1), (f, m.2))

/-- All square pairs of one call of `rotate`, in order. -/
def turnMoves (f : FaceId) (direction : Int) : List (Square × Square) :=
  if direction = 0 then faceMoves clockwiseMoves f ++ edgeMoves nextClockwise f
  else faceMoves counterclockwiseMoves f ++ edgeMoves nextCounterclockwise f

/-- No call of `rotate` writes a square twice. -/
theorem turnMoves_distinct (f : FaceId) (direction : Int) : ((turnMoves f direction).map Prod.fst).Nodup := by
  unfold turnMoves
  split
  · revert f; decide
  · revert f; decide

namespace Cube

theorem foldl_setColor (c : Cube) (writes : List (Square × Int)) :
    writes.foldl (fun c w => c.setColor w.1 w.2) c = c.paint (overwrite c.coloring writes) := by
  induction writes generalizing c with
  | nil => rfl
  | cons w writes ih => rw [List.foldl_cons, ih, setColor_eq]; rfl

theorem coloring_setFace (c : Cube) (f : FaceId) (face : Face) (g : FaceId) (s : SquareId) :
    (c.setFace f face).coloring (g, s) = if g = f then face.colors s else c.coloring (g, s) := by
  by_cases h : g = f
  · subst h; simp [setFace, coloring]
  · simp [setFace, coloring, h]

theorem tables_setFace (c : Cube) (f : FaceId) (face : Face)
    (same : face.adjacentFaces = (c.faces f).adjacentFaces) : (c.setFace f face).tables = c.tables := by
  funext g
  by_cases h : g = f
  · subst h; simp [setFace, tables, same]
  · simp [setFace, tables, Function.update_of_ne h]

/-- Transposing a face within a cube, as a copy of squares of the whole cube. -/
theorem setFace_transposeFace (c : Cube) (f : FaceId) (moves : List (SquareId × SquareId)) :
    c.setFace f (transposeFace moves (c.faces f) (c.faces f)) =
      c.paint (copyCells c.coloring c.coloring (faceMoves moves f)) := by
  refine ext_of_tables ?_ (tables_setFace c f _ rfl)
  have renamed : (faceMoves moves f).map (fun m => (m.1, c.coloring m.2)) =
      (moves.map fun m => (m.1, (c.faces f).colors m.2)).map fun w => ((f, w.1), w.2) := by
    simp [faceMoves, coloring]
  refine funext fun q => ?_
  obtain ⟨g, s⟩ := q
  rw [coloring_setFace, coloring_paint, copyCells, renamed]
  split
  · subst g
    exact (congrFun (overwrite_comp (e := Prod.mk f) (Prod.mk_right_injective f) c.coloring _) s).symm
  · rename_i other
    rw [overwrite_of_not_mem]
    simp only [List.map_map, List.mem_map, Function.comp, not_exists, not_and]
    exact fun w _ same => other (congrArg Prod.fst same).symm

/-- On a standard cube the neighbour loops are in range and copy the squares of `edgeMoves`. -/
theorem transposeOtherFaces_eq {c : Cube} (h : c.Standard) (next : Fin 4 → Fin 4) (newCube : Cube)
    (f : FaceId) :
    transposeOtherFaces next c newCube (f : Nat) =
      some (newCube.paint (copyCells c.coloring newCube.coloring (edgeMoves next f))) := by
  have table : (c.faces f).adjacentFaces = (makeFace f).adjacentFaces := congrFun h f
  have store : ∀ (new : Cube) (ind : Fin 4) (jind : Fin 3),
      (do
        let oldColor ← c.readColor ((makeFace f).adjacentFaces ind).face
          (((makeFace f).adjacentFaces ind).edgeSquares jind)
        new.writeColor ((makeFace f).adjacentFaces (next ind)).face
          (((makeFace f).adjacentFaces (next ind)).edgeSquares jind) oldColor) =
      pure (new.setColor (edgeSquare f (next ind) jind) (c.coloring (edgeSquare f ind jind))) := by
    intro new ind jind
    obtain ⟨face, square⟩ := edgeSquare_index f ind jind
    obtain ⟨face', square'⟩ := edgeSquare_index f (next ind) jind
    simp [readColor, writeColor, face, square, face', square', coloring]
  unfold transposeOtherFaces
  simp only [index_fin, Option.bind_eq_bind, Option.bind_some, table]
  simp only [Option.bind_eq_bind] at store
  simp only [store, List.foldlM_pure]
  rw [copyCells, ← foldl_setColor, edgeMoves, List.map_flatMap, List.foldl_flatMap]
  simp only [List.map_map, List.foldl_map, Function.comp]
  rfl

end Cube

/-- A call of `rotate` on a standard cube performs exactly the stores of `turnMoves`. -/
theorem rotate_eq_copyCells {c : Cube} (h : c.Standard) (f : FaceId) (direction : Int) :
    rotate c (f : Nat) direction =
      some (c.paint (copyCells c.coloring c.coloring (turnMoves f direction))) := by
  unfold rotate turnMoves transposeOtherFacesClockwise transposeOtherFacesCounterclockwise
    transposeFaceClockwise transposeFaceCounterclockwise
  split <;>
    simp [Cube.setFace_transposeFace, Cube.transposeOtherFaces_eq h, copyCells_append]

/-- `rotate` indexes a face out of range exactly when the face number is. -/
theorem rotate_eq_none_iff {c : Cube} (h : c.Standard) (faceNum direction : Int) :
    rotate c faceNum direction = none ↔ ¬ (0 ≤ faceNum ∧ faceNum < 6) := by
  constructor
  · intro undefined
    by_contra inRange
    have face : ((Fin.ofNat 6 faceNum.toNat : Fin 6) : Nat) = faceNum := by simp; omega
    rw [← face, rotate_eq_copyCells h] at undefined
    cases undefined
  · intro outside
    have undefined : index 6 faceNum = none := index_eq_none_iff.2 outside
    simp [rotate, undefined]

/-! ## The permutation of a turn -/

/-- The square whose colour square `s` shows after turning face `f`. -/
def turnSource (f : FaceId) (direction : Int) (s : Square) : Square := source (turnMoves f direction) s

theorem turnSource_clockwise {direction : Int} (h : direction = 0) (f : FaceId) :
    turnSource f direction = turnSource f 0 := by rw [h]

theorem turnSource_counterclockwise {direction : Int} (h : direction ≠ 0) (f : FaceId) :
    turnSource f direction = turnSource f 1 := by
  funext s; simp [turnSource, turnMoves, h]

/-- The two directions are exact inverses on all 54 squares. -/
theorem turnSource_inverse : ∀ (f : FaceId) (s : Square),
    turnSource f 1 (turnSource f 0 s) = s ∧ turnSource f 0 (turnSource f 1 s) = s := by
  decide +kernel

/-- The clockwise quarter turn of a face, as the permutation its colours are read through. -/
def quarterTurn (f : FaceId) : Equiv.Perm Square where
  toFun := turnSource f 0
  invFun := turnSource f 1
  left_inv s := (turnSource_inverse f s).1
  right_inv s := (turnSource_inverse f s).2

theorem quarterTurn_apply (f : FaceId) (s : Square) : quarterTurn f s = turnSource f 0 s := rfl

/-- The permutation of one call of `rotate`. -/
def turn (f : FaceId) (direction : Int) : Equiv.Perm Square :=
  if direction = 0 then quarterTurn f else (quarterTurn f)⁻¹

theorem coe_turn (f : FaceId) (direction : Int) : ⇑(turn f direction) = turnSource f direction := by
  unfold turn
  split
  · rename_i h; rw [turnSource_clockwise h]; rfl
  · rename_i h; rw [turnSource_counterclockwise h]; rfl

/-- **`rotate` permutes the colours.** A standard cube is turned by reading its
colours through `turn`; the adjacency tables are unchanged. -/
theorem rotate_eq {c : Cube} (h : c.Standard) (f : FaceId) (direction : Int) :
    rotate c (f : Nat) direction = some (c.paint (c.coloring ∘ turn f direction)) := by
  rw [rotate_eq_copyCells h, copyCells_self (turnMoves_distinct f direction), coe_turn]
  rfl

end Rubiks
