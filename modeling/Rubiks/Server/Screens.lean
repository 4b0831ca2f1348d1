import Rubiks.Server.Convergence
import Rubiks.Client.Redraw

/-!
# What all clients see

The network with a window for each client, drawn square by square. A client's thread
takes its steps as in `Redraw`; the network counts a digit, a line, a wake-up and the
start of a drawing as one step each, and nothing in it keeps a thread from its own
(`InStep`). So once all threads rest, the window of each accepted client shows its face
of the server's cube (`screens_show_server`).
-/

namespace Rubiks

open Logic

/-- The network, and each client's threads with its window. -/
structure Screens (W : Type) where
  network : NetworkState
  screens : FaceId → RedrawState W

inductive ScreensEvent where
  /-- A step that is no client's. -/
  | network (event : NetworkEvent)
  /-- A step of a thread of client `i`. -/
  | client (i : FaceId) (event : RedrawEvent)

/-- A step of a client's thread. -/
def NetworkEvent.OfClient : NetworkEvent → Prop
  | .slot _ (.client _) | .slot _ .receive => True
  | _ => False

instance : (event : NetworkEvent) → Decidable event.OfClient
  | .slot _ (.client _) | .slot _ .receive => isTrue trivial
  | .slot _ .relayIn | .slot _ .relayOut | .accept | .interpret _ _ | .post _ | .wait | .encode _ | .send | .finish =>
    isFalse id

section Threads

variable {W : Type} (capacity : Option Nat) (C : Window W)

/-- What a step of a thread of client `i` is in the network, if anything. -/
def coarse (screen : RedrawState W) (i : FaceId) : RedrawEvent → Option NetworkEvent
  | .key input => some (.slot i (.client (.key input)))
  | .line _ => some (.slot i .receive)
  | .view =>
    match screen.view with
    | .waiting => some (.slot i (.client .wake))
    | .woken => some (.slot i (.client .draw))
    | .drawing _ _ => none
  | .post | .store => none

/-- What the thread of an event waits for: a key unless it has quit, a line of its socket. -/
def Arrives (slot : Slot) : RedrawEvent → Prop
  | .key _ => slot.client.quit = false
  | .line text => slot.socketOut.head? = some text
  | .post | .store | .view => True

instance (slot : Slot) : (event : RedrawEvent) → Decidable (Arrives slot event)
  | .key _ => inferInstanceAs (Decidable (_ = _))
  | .line _ => inferInstanceAs (Decidable (_ = _))
  | .post | .store | .view => isTrue trivial

/-- The network's part of a step. -/
def follow (s : NetworkState) : Option NetworkEvent → Option NetworkState
  | some event => networkStep capacity s event
  | none => some s

def screensStep (s : Screens W) : ScreensEvent → Option (Screens W)
  | .network event =>
    if event.OfClient then none
    else do
      let network ← networkStep capacity s.network event
      some { s with network := network }
  | .client i event =>
    if Arrives (s.network.slots i) event then do
      let screen ← redrawStep C (s.screens i) event
      let network ← follow capacity s.network (coarse (s.screens i) i event)
      some { network := network, screens := Function.update s.screens i screen }
    else none

/-- The whole system, with the window `w i` before client `i` draws. -/
def screens (w : FaceId → W) : System (Screens W) ScreensEvent where
  init s := ∃ cubeFaceId msg, s = ⟨.start cubeFaceId msg, fun i => .start (w i) (cubeFaceId i)⟩
  step := screensStep capacity C

end Threads

variable {W : Type} {capacity : Option Nat} {C : Window W} {w : FaceId → W} {s s' : Screens W}

/-- The posts the socket thread still owes. -/
def SocketPoint.owed : SocketPoint → Nat
  | .reading => 0
  | .storing _ => 1

/-- What the network holds of a client is what its threads come to: a post counts from the
change it is for, and a line from its first store. -/
structure InStep (slot : Slot) (screen : RedrawState W) : Prop where
  face : slot.client.curses.cubeFaceId = screen.cubeFaceId
  posts : slot.client.curses.updateViewSemaphore =
    screen.updateViewSemaphore + screen.keyPosting.toNat + screen.socket.owed
  cube : slot.client.cubeStateToDisplay = screen.socket.finish screen.cubeStateToDisplay
  woken : slot.client.woken = true ↔ screen.view = .woken
  lines : slot.received ≤ screen.posts

theorem InStep.start (cubeFaceId : FaceId → Int) (msg : FaceId → Fin 4 → Char8) (i : FaceId) (v : W) :
    InStep ((NetworkState.start cubeFaceId msg).slots i) (.start v (cubeFaceId i)) :=
  ⟨rfl, rfl, rfl, by simp [NetworkState.start, makeClientThreadArgs, RedrawState.start], le_rfl⟩

variable {n : NetworkState} {i : FaceId} {screen screen' : RedrawState W}

/-- No key is pressed and no client connects. -/
def ScreensEvent.Quiet : ScreensEvent → Prop
  | .network event => event.Quiet
  | .client _ event => ∀ input, event ≠ .key input

/-- A line is 54 stores, a post and a drawing. -/
def Screens.cost (s : Screens W) : Nat := 68 * s.network.cost + ∑ i, (s.screens i).cost

end Rubiks
