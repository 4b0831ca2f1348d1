import Rubiks.Start.Shuffle
import Rubiks.Logic.Memory

/-!
# `rubiks_start.c` on the heap

The functions of `rubiks_start.c` as they run: structs are blocks that hold
pointers, `malloc` returns uninitialised fields, and reading such a field,
following a dangling pointer or freeing one twice is undefined. A pointer that
`malloc` returns is used unchecked, so a null pointer ends the program.
-/

namespace Rubiks.OnHeap

open Logic Prog

/-- An `adjacent_face` in memory. -/
structure AdjacentFaceBlock where
  face : Option Int
  edgeSquares : Fin 3 → Option Int

/-- A `face` in memory. -/
structure FaceBlock where
  colors : Fin 9 → Option Int
  adjacentFaces : Fin 4 → Option Address

/-- A `cube` in memory. -/
structure CubeBlock where
  faces : FaceId → Option Address

/-- A `client_thread_args` in memory, less the socket. -/
structure ClientThreadArgsBlock where
  cubeFaceIdPtr : Option Address
  cubeStateToDisplay : Option Address
  updateViewSemaphore : Option Address

/-- An `echo_server` in memory, less the socket and the pipes. -/
structure EchoServerBlock where
  globalCubeState : Option Address
  globalCubeStateLock : Option Address
  broadcastMessageReady : Option Address

/-- A `server_thread_listen_to_pipe_args` in memory, less the client id. -/
structure ListenArgsBlock where
  server : Option Address

/-- What the programs allocate. -/
inductive Struct where
  | adjacentFace (s : AdjacentFaceBlock)
  | face (s : FaceBlock)
  | cube (s : CubeBlock)
  | int (value : Option Int)
  | sem (value : Option Nat)
  | mutex
  | clientThreadArgs (s : ClientThreadArgsBlock)
  | echoServer (s : EchoServerBlock)
  | listenArgs (s : ListenArgsBlock)

abbrev Program := Prog Struct

/-- The addresses a block holds. -/
def Struct.pointers : Struct → List Address
  | .adjacentFace _ | .int _ | .sem _ | .mutex => []
  | .face s => (List.finRange 4).filterMap s.adjacentFaces
  | .cube s => (List.finRange 6).filterMap s.faces
  | .clientThreadArgs s => [s.cubeFaceIdPtr, s.cubeStateToDisplay, s.updateViewSemaphore].reduceOption
  | .echoServer s => [s.globalCubeState, s.globalCubeStateLock, s.broadcastMessageReady].reduceOption
  | .listenArgs s => [s.server].reduceOption

/-! ## Access through a pointer -/

def adjacentFaceAt (p : Address) : Program AdjacentFaceBlock := do
  match ← read p with
  | .adjacentFace s => pure s
  | _ => defined none

def faceAt (p : Address) : Program FaceBlock := do
  match ← read p with
  | .face s => pure s
  | _ => defined none

def cubeAt (p : Address) : Program CubeBlock := do
  match ← read p with
  | .cube s => pure s
  | _ => defined none

/-- `p->face`. -/
def loadFaceNum (p : Address) : Program Int := do defined (← adjacentFaceAt p).face

/-- `p->edge_squares[ind]`. -/
def loadEdgeSquare (p : Address) (ind : Fin 3) : Program Int := do
  defined ((← adjacentFaceAt p).edgeSquares ind)

/-- `p->face = v`. -/
def storeFaceNum (p : Address) (v : Int) : Program Unit := do
  let s ← adjacentFaceAt p
  write p (.adjacentFace { s with face := some v })

/-- `p->edge_squares[ind] = v`. -/
def storeEdgeSquare (p : Address) (ind : Fin 3) (v : Int) : Program Unit := do
  let s ← adjacentFaceAt p
  write p (.adjacentFace { s with edgeSquares := Function.update s.edgeSquares ind (some v) })

/-- `p->colors[s]`. -/
def loadColor (p : Address) (s : Int) : Program Int := do
  let square ← defined (index 9 s)
  defined ((← faceAt p).colors square)

/-- `p->colors[s] = v`. -/
def storeColor (p : Address) (s v : Int) : Program Unit := do
  let square ← defined (index 9 s)
  let face ← faceAt p
  write p (.face { face with colors := Function.update face.colors square (some v) })

/-- `p->adjacent_faces[ind]`. -/
def loadAdjacentFace (p : Address) (ind : Fin 4) : Program Address := do
  defined ((← faceAt p).adjacentFaces ind)

/-- `p->adjacent_faces[ind] = q`. -/
def storeAdjacentFace (p : Address) (ind : Fin 4) (q : Address) : Program Unit := do
  let s ← faceAt p
  write p (.face { s with adjacentFaces := Function.update s.adjacentFaces ind (some q) })

/-- `p->faces[f]`. -/
def loadFace (p : Address) (f : Int) : Program Address := do
  let face ← defined (index 6 f)
  defined ((← cubeAt p).faces face)

/-- `p->faces[f] = q`. -/
def storeFace (p : Address) (f : FaceId) (q : Address) : Program Unit := do
  let s ← cubeAt p
  write p (.cube { s with faces := Function.update s.faces f (some q) })

/-! ## Allocation -/

section Allocation

variable (A : Allocator Struct)

def makeAdjacentFace (faceNum : Int) (squares : Fin 3 → Int) : Program Address := do
  let newAdjacentFace ← malloc A (.adjacentFace ⟨none, fun _ => none⟩)
  storeFaceNum newAdjacentFace faceNum
  (List.finRange 3).forM fun ind => storeEdgeSquare newAdjacentFace ind (squares ind)
  pure newAdjacentFace

/-- `initialize_adjacent_faces`; `neighbours ind` has the arguments of the `ind`-th
call of `make_adjacent_face`. -/
def initializeAdjacentFaces (newFace : Address) (neighbours : Fin 4 → AdjacentFace) : Program Unit :=
  (List.finRange 4).forM fun ind => do
    let adjacentFace ← makeAdjacentFace A (neighbours ind).face (neighbours ind).edgeSquares
    storeAdjacentFace newFace ind adjacentFace

def makeFace (faceNum : FaceId) : Program Address := do
  let newFace ← malloc A (.face ⟨fun _ => none, fun _ => none⟩)
  (List.finRange 9).forM fun ind => storeColor newFace (ind : Nat) (faceNum : Nat)
  initializeAdjacentFaces A newFace (Rubiks.makeFace faceNum).adjacentFaces
  pure newFace

def makeCube : Program Address := do
  let newCube ← malloc A (.cube ⟨fun _ => none⟩)
  (List.finRange 6).forM fun faceNum => do
    let face ← makeFace A faceNum
    storeFace newCube faceNum face
  pure newCube

end Allocation

def freeAdjacentFace (adjacentFace : Address) : Program Unit := free adjacentFace

def freeFace (face : Address) : Program Unit := do
  (List.finRange 4).forM fun ind => do freeAdjacentFace (← loadAdjacentFace face ind)
  free face

def freeCube (cube : Address) : Program Unit := do
  (List.finRange 6).forM fun faceNum => do freeFace (← loadFace cube (faceNum : Nat))
  free cube

/-! ## Copies and turns -/

def copyAdjacentFace (originalFace newFace : Address) : Program Unit := do
  storeFaceNum newFace (← loadFaceNum originalFace)
  (List.finRange 3).forM fun ind => do storeEdgeSquare newFace ind (← loadEdgeSquare originalFace ind)

def copyFace (originalFace newFace : Address) : Program Unit := do
  (List.finRange 9).forM fun squareNum => do
    storeColor newFace (squareNum : Nat) (← loadColor originalFace (squareNum : Nat))
  (List.finRange 4).forM fun adjacentFaceNum => do
    copyAdjacentFace (← loadAdjacentFace originalFace adjacentFaceNum) (← loadAdjacentFace newFace adjacentFaceNum)

def copyCube (originalCube newCube : Address) : Program Unit :=
  (List.finRange 6).forM fun faceNum => do
    copyFace (← loadFace originalCube (faceNum : Nat)) (← loadFace newCube (faceNum : Nat))

/-- The nine assignments of `transpose_face_*`: the square written, the square read. -/
def transposeFace (moves : List (SquareId × SquareId)) (originalFace newFaceToPopulate : Address) : Program Unit :=
  moves.forM fun m => do
    storeColor newFaceToPopulate (m.1 : Nat) (← loadColor originalFace (m.2 : Nat))

/-- `transpose_other_faces_*`, where `next` is the edge the loop's `ind`-th edge moves onto. -/
def transposeOtherFaces (next : Fin 4 → Fin 4) (cube_ newCubeToPopulate : Address) (faceNum : Int) : Program Unit :=
  (List.finRange 4).forM fun ind => do
    let currentAdjacentFace ← loadAdjacentFace (← loadFace cube_ faceNum) ind
    let nextAdjacentFace ← loadAdjacentFace (← loadFace cube_ faceNum) (next ind)
    (List.finRange 3).forM fun jind => do
      let oldColor ← loadColor (← loadFace cube_ (← loadFaceNum currentAdjacentFace))
        (← loadEdgeSquare currentAdjacentFace jind)
      storeColor (← loadFace newCubeToPopulate (← loadFaceNum nextAdjacentFace))
        (← loadEdgeSquare nextAdjacentFace jind) oldColor

def rotate (A : Allocator Struct) (cube_ : Address) (faceNum direction : Int) : Program Unit := do
  let cubeCopy ← makeCube A
  copyCube cube_ cubeCopy
  if direction = 0 then
    transposeFace clockwiseMoves (← loadFace cube_ faceNum) (← loadFace cubeCopy faceNum)
    transposeOtherFaces nextClockwise cube_ cubeCopy faceNum
  else
    transposeFace counterclockwiseMoves (← loadFace cube_ faceNum) (← loadFace cubeCopy faceNum)
    transposeOtherFaces nextCounterclockwise cube_ cubeCopy faceNum
  copyCube cubeCopy cube_
  freeCube cubeCopy

def shuffle (A : Allocator Struct) (cube_ : Address) (minDepth maxDepth : Int) (draws : Draws) : Program Unit := do
  let depth ← defined (shuffleDepth minDepth maxDepth draws)
  (List.range depth.toNat).forM fun i => rotate A cube_ (draws.faceNum i) (draws.direction i)

/-- `is_solved`, which returns at the first square that differs. -/
def isSolved (cube_ : Address) : Program Int := do
  let same ← (List.finRange 6).allM fun ind => (List.finRange 9).allM fun jind => do
    let color ← loadColor (← loadFace cube_ (ind : Nat)) (jind : Nat)
    pure (color == ((ind : Nat) : Int))
  pure (if same then 1 else 0)

end Rubiks.OnHeap
