import Rubiks.Server.Broadcast
import Rubiks.Client.Display

/-!
# Server, pipes, sockets and clients

Slot `i` of the server has a pipe each way; once a client is accepted on it, two
relay threads copy lines between its socket and the pipes. Clients are accepted in
slot order, and every broadcast goes to all six pipes, accepted or not. A write to
a pipe blocks while the line does not fit; `none` is a pipe without a limit. A socket
takes every line.
-/

namespace Rubiks

open Logic

/-- The line as a command, when its first bytes are two such digits. -/
def Command.ofLine : List Char8 → Option Command
  | c0 :: c1 :: rest => do
    let face ← index 6 (c0.toInt - 48)
    let code ← index 3 (c1.toInt - 48)
    some ⟨face, code, rest⟩
  | _ => none

theorem Command.ofLine_line (m : Command) : Command.ofLine m.line = some m := by
  have code : ∀ n : Fin 3, (digit n).toInt - 48 = (n : Nat) := by decide
  simp only [Command.line, Command.ofLine, digit_toInt, code, index_fin, Option.bind_eq_bind, Option.bind_some]

/-- Only the line of a command is read as one. -/
theorem Command.ofLine_eq_some {line : List Char8} {m : Command} (h : Command.ofLine line = some m) :
    m.line = line := by
  have byte : ∀ (b : Char8) (n : Fin 6), b.toInt - 48 = (n : Nat) → digit n = b := by
    intro b n value
    have back := digit_toInt n
    exact BitVec.eq_of_toInt_eq (by omega)
  match line with
  | c0 :: c1 :: rest =>
    obtain ⟨face, first, h⟩ := Option.bind_eq_some_iff.1 h
    obtain ⟨code, second, h⟩ := Option.bind_eq_some_iff.1 h
    cases h
    have low := byte c0 face (index_eq_some_iff.1 first)
    have value : c1.toInt - 48 = (code.val : Int) := index_eq_some_iff.1 second
    have high := byte c1 ⟨code, by omega⟩ value
    rw [Command.line, low]
    exact congrArg (fun b => c0 :: b :: rest) high

/-- The line of a key's message. -/
theorem line_messageLine (face : FaceId) (code : Fin 3) :
    (⟨face, code, [newline, nul]⟩ : Command).line = lineBuffer (messageLine face code) := rfl

/-- The line a broadcast is sent as. -/
def Snapshot.text (m : Snapshot) : List Char8 := fputs (List.ofFn m.msg)

/-- The bytes waiting in a pipe. -/
def bytes (pipe : List (List Char8)) : Nat := (pipe.map List.length).sum

/-- The line can be written without blocking. -/
def Fits (capacity : Option Nat) (pipe : List (List Char8)) (line : List Char8) : Prop :=
  ∀ n ∈ capacity, bytes pipe + line.length ≤ n

instance (capacity : Option Nat) (pipe : List (List Char8)) (line : List Char8) :
    Decidable (Fits capacity pipe line) :=
  match capacity with
  | none => isTrue nofun
  | some n => decidable_of_iff (bytes pipe + line.length ≤ n) (by simp [Fits])

/-- A slot of the server with its client. `received` counts the lines the client
has decoded. -/
structure Slot where
  client : Client
  /-- Client to server: the socket, then `client_pipes[i][0]`. -/
  socketIn : List (List Char8)
  pipeIn : List (List Char8)
  /-- Server to client: `client_pipes[i][1]`, then the socket. -/
  pipeOut : List (List Char8)
  socketOut : List (List Char8)
  received : Nat

inductive SlotEvent where
  /-- A key, a wake-up or a drawing of the client. -/
  | client (event : ClientEvent)
  /-- `client_facing_thread_listen_to_socket` copies a line. -/
  | relayIn
  /-- `client_facing_thread_listen_to_pipe` copies a line. -/
  | relayOut
  /-- The client's socket thread decodes a line. -/
  | receive

def slotStep (capacity : Option Nat) (slot : Slot) : SlotEvent → Option Slot
  | .client (.line _) => none
  | .client event => do
    let client ← clientStep slot.client event
    let written := client.curses.socket.drop slot.client.curses.socket.length
    some { slot with client := client, socketIn := slot.socketIn ++ written }
  | .relayIn =>
    match slot.socketIn with
    | [] => none
    | line :: lines =>
      let copied := fputs (lineBuffer line)
      if Fits capacity slot.pipeIn copied then
        some { slot with socketIn := lines, pipeIn := slot.pipeIn ++ [copied] }
      else none
  | .relayOut =>
    match slot.pipeOut with
    | [] => none
    | line :: lines =>
      some { slot with pipeOut := lines, socketOut := slot.socketOut ++ [fputs (lineBuffer line)] }
  | .receive =>
    match slot.socketOut with
    | [] => none
    | line :: lines => do
      let client ← clientStep slot.client (.line line)
      some { slot with client := client, socketOut := lines, received := slot.received + 1 }

/-- The events of the two relay threads. -/
def SlotEvent.Relay : SlotEvent → Prop
  | .relayIn | .relayOut => True
  | _ => False

instance : (event : SlotEvent) → Decidable event.Relay
  | .relayIn | .relayOut => isTrue trivial
  | .client _ | .receive => isFalse id

/-- The server and its slots. -/
structure NetworkState where
  server : ServerState FaceId
  /-- `num_clients_connected`. -/
  attached : Nat
  slots : FaceId → Slot

/-- A client is accepted on the slot. -/
def NetworkState.Attached (s : NetworkState) (i : FaceId) : Prop := i.val < s.attached

instance (s : NetworkState) (i : FaceId) : Decidable (s.Attached i) := inferInstanceAs (Decidable (_ < _))

/-- `run_server` has started and no client is accepted; each client's face number
and message buffer hold anything. -/
def NetworkState.start (cubeFaceId : FaceId → Int) (msg : FaceId → Fin 4 → Char8) : NetworkState where
  server := .start
  attached := 0
  slots i :=
    { client := makeClientThreadArgs (cubeFaceId i) (msg i)
      socketIn := []
      pipeIn := []
      pipeOut := []
      socketOut := []
      received := 0 }

def NetworkState.setSlot (s : NetworkState) (i : FaceId) (slot : Slot) : NetworkState :=
  { s with slots := Function.update s.slots i slot }

@[simp] theorem setSlot_server (s : NetworkState) (i : FaceId) (slot : Slot) : (s.setSlot i slot).server = s.server :=
  rfl

@[simp] theorem setSlot_attached (s : NetworkState) (i : FaceId) (slot : Slot) :
    (s.setSlot i slot).attached = s.attached := rfl

@[simp] theorem setSlot_self (s : NetworkState) (i : FaceId) (slot : Slot) : (s.setSlot i slot).slots i = slot := by
  simp [NetworkState.setSlot]

theorem setSlot_of_ne (s : NetworkState) {i j : FaceId} (other : j ≠ i) (slot : Slot) :
    (s.setSlot i slot).slots j = s.slots j := by
  simp [NetworkState.setSlot, other]

inductive NetworkEvent where
  /-- `accept_client` on the next slot. -/
  | accept
  | slot (i : FaceId) (event : SlotEvent)
  /-- Listener `i` reads a line and applies it. -/
  | interpret (i : FaceId) (draws : Draws)
  | post (i : FaceId)
  | wait
  | encode (buffer : Fin 56 → Char8)
  /-- The broadcaster writes to its next pipe. -/
  | send
  | finish

/-- A step of the server that touches no pipe. -/
def NetworkState.serverMove (s : NetworkState) (event : ServerEvent FaceId) : Option NetworkState := do
  let server ← serverStep s.server event
  some { s with server := server }

def networkStep (capacity : Option Nat) (s : NetworkState) : NetworkEvent → Option NetworkState
  | .accept => if s.attached < 6 then some { s with attached := s.attached + 1 } else none
  | .slot i event =>
    if event.Relay ∧ ¬ s.Attached i then none
    else do
      let slot ← slotStep capacity (s.slots i) event
      some (s.setSlot i slot)
  | .interpret i draws =>
    match (s.slots i).pipeIn with
    | [] => none
    | line :: lines => do
      let command ← Command.ofLine (lineBuffer line)
      let s ← s.serverMove (.interpret ⟨i, command, draws⟩)
      some (s.setSlot i { s.slots i with pipeIn := lines })
  | .post i => s.serverMove (.post i)
  | .wait => s.serverMove .wait
  | .encode buffer => s.serverMove (.encode buffer)
  | .send =>
    match s.server.broadcaster with
    | .sending message (k :: _) =>
      if Fits capacity (s.slots k).pipeOut message.text then do
        let s ← s.serverMove .send
        some (s.setSlot k { s.slots k with pipeOut := (s.slots k).pipeOut ++ [message.text] })
      else none
    | _ => none
  | .finish => s.serverMove .finish

/-- The whole system in any order of its steps. -/
def network (capacity : Option Nat) : System NetworkState NetworkEvent where
  init s := ∃ cubeFaceId msg, s = .start cubeFaceId msg
  step := networkStep capacity

/-! ## What each step does -/

section Steps

variable {capacity : Option Nat} {slot slot' : Slot} {s s' : NetworkState}

theorem slotStep_client {event : ClientEvent} :
    slotStep capacity slot (.client event) = some slot' ↔ (∀ text, event ≠ .line text) ∧
      ∃ client, clientStep slot.client event = some client ∧ slot' = { slot with
        client := client
        socketIn := slot.socketIn ++ client.curses.socket.drop slot.client.curses.socket.length } := by
  cases event <;>
    simp [slotStep, Option.bind_eq_some_iff, eq_comm (a := slot')]

theorem slotStep_relayIn : slotStep capacity slot .relayIn = some slot' ↔
    ∃ line lines, slot.socketIn = line :: lines ∧ Fits capacity slot.pipeIn (fputs (lineBuffer line)) ∧
      slot' = { slot with socketIn := lines, pipeIn := slot.pipeIn ++ [fputs (lineBuffer line)] } := by
  simp only [slotStep]
  cases slot.socketIn <;> simp [eq_comm (a := slot')]

theorem slotStep_relayOut : slotStep capacity slot .relayOut = some slot' ↔
    ∃ line lines, slot.pipeOut = line :: lines ∧
      slot' = { slot with pipeOut := lines, socketOut := slot.socketOut ++ [fputs (lineBuffer line)] } := by
  simp only [slotStep]
  cases slot.pipeOut <;> simp [eq_comm (a := slot')]

theorem slotStep_receive : slotStep capacity slot .receive = some slot' ↔
    ∃ line lines client, slot.socketOut = line :: lines ∧ clientStep slot.client (.line line) = some client ∧
      slot' = { slot with client := client, socketOut := lines, received := slot.received + 1 } := by
  simp only [slotStep]
  cases slot.socketOut <;> simp [Option.bind_eq_some_iff, eq_comm (a := slot')]

theorem serverMove_eq_some {event : ServerEvent FaceId} : s.serverMove event = some s' ↔
    ∃ server, serverStep s.server event = some server ∧ s' = { s with server := server } := by
  simp only [NetworkState.serverMove, Option.bind_eq_bind, Option.bind_eq_some_iff, Option.some.injEq,
    eq_comm (a := s')]

theorem networkStep_slot {i : FaceId} {event : SlotEvent} : networkStep capacity s (.slot i event) = some s' ↔
    (event.Relay → s.Attached i) ∧
      ∃ slot, slotStep capacity (s.slots i) event = some slot ∧ s' = s.setSlot i slot := by
  simp only [networkStep, Option.ite_none_left_eq_some, Option.bind_eq_bind, Option.bind_eq_some_iff,
    Option.some.injEq, eq_comm (a := s'), not_and, not_not]

theorem networkStep_interpret {i : FaceId} {draws : Draws} : networkStep capacity s (.interpret i draws) = some s' ↔
    ∃ line lines command server, (s.slots i).pipeIn = line :: lines ∧ command.line = lineBuffer line ∧
      serverStep s.server (.interpret ⟨i, command, draws⟩) = some server ∧
      s' = { s with server := server }.setSlot i { s.slots i with pipeIn := lines } := by
  simp only [networkStep]
  cases unread : (s.slots i).pipeIn with
  | nil => simp
  | cons line lines =>
    constructor
    · intro step
      obtain ⟨command, read, step⟩ := Option.bind_eq_some_iff.1 step
      obtain ⟨moved, move, taken⟩ := Option.bind_eq_some_iff.1 step
      obtain ⟨server, applied, rfl⟩ := serverMove_eq_some.1 move
      cases taken
      exact ⟨line, lines, command, server, rfl, Command.ofLine_eq_some read, applied, rfl⟩
    · rintro ⟨_, _, command, server, ⟨⟩, same, applied, rfl⟩
      simp [← same, Command.ofLine_line, NetworkState.serverMove, applied]

theorem networkStep_send : networkStep capacity s .send = some s' ↔
    ∃ message k rest, s.server.broadcaster = .sending message (k :: rest) ∧
      Fits capacity (s.slots k).pipeOut message.text ∧
      ∃ server, serverStep s.server .send = some server ∧ s' = { s with server := server }.setSlot k
        { s.slots k with pipeOut := (s.slots k).pipeOut ++ [message.text] } := by
  simp only [networkStep]
  rcases s.server.broadcaster with _ | _ | ⟨message, _ | ⟨k, rest⟩⟩
  · simp
  · simp
  · simp
  · constructor
    · intro step
      rw [Option.ite_none_right_eq_some] at step
      obtain ⟨fits, step⟩ := step
      obtain ⟨moved, move, written⟩ := Option.bind_eq_some_iff.1 step
      obtain ⟨server, sent, rfl⟩ := serverMove_eq_some.1 move
      cases written
      exact ⟨message, k, rest, rfl, fits, server, sent, rfl⟩
    · rintro ⟨_, _, _, ⟨⟩, fits, server, sent, rfl⟩
      simp [NetworkState.serverMove, fits, sent]

/-- A network step is no step of the server or one. -/
theorem networkStep_server {event : NetworkEvent} (step : networkStep capacity s event = some s') :
    s'.server = s.server ∨ ∃ event, serverStep s.server event = some s'.server := by
  have move : ∀ {event}, s.serverMove event = some s' → ∃ event, serverStep s.server event = some s'.server := by
    intro event moved
    obtain ⟨server, taken, rfl⟩ := serverMove_eq_some.1 moved
    exact ⟨event, taken⟩
  cases event with
  | accept =>
    rw [networkStep, Option.ite_none_right_eq_some] at step
    obtain ⟨-, accepted⟩ := step
    cases accepted
    exact .inl rfl
  | slot i event =>
    obtain ⟨-, slot, -, rfl⟩ := networkStep_slot.1 step
    exact .inl rfl
  | interpret i draws =>
    obtain ⟨line, lines, command, server, -, -, applied, rfl⟩ := networkStep_interpret.1 step
    exact .inr ⟨_, applied⟩
  | send =>
    obtain ⟨message, k, rest, -, -, server, sent, rfl⟩ := networkStep_send.1 step
    exact .inr ⟨_, sent⟩
  | post | wait | encode | finish => exact .inr (move step)

/-- What a step does to the slots, the history and what each pipe was sent: nothing,
a step of one slot, the next line of a slot's pipe applied, or one broadcast written
to a slot's pipe. -/
theorem networkStep_cases {event : NetworkEvent} (step : networkStep capacity s event = some s') :
    (s'.slots = s.slots ∧ s'.server.history = s.server.history ∧ s'.server.sent = s.server.sent) ∨
    (∃ i event slot, slotStep capacity (s.slots i) event = some slot ∧ s' = s.setSlot i slot) ∨
    (∃ (e : Entry FaceId) (line : List Char8) (lines : List (List Char8)),
      (s.slots e.client).pipeIn = line :: lines ∧ e.command.line = lineBuffer line ∧
      s'.slots = Function.update s.slots e.client { s.slots e.client with pipeIn := lines } ∧
      s'.server.history = s.server.history ++ [e] ∧ s'.server.sent = s.server.sent) ∨
    (∃ message k, s'.slots = Function.update s.slots k
        { s.slots k with pipeOut := (s.slots k).pipeOut ++ [message.text] } ∧
      s'.server.history = s.server.history ∧
      s'.server.sent = Function.update s.server.sent k (s.server.sent k ++ [message])) := by
  have quiet : ∀ {event}, (∀ e, event ≠ .interpret e) → event ≠ .send → s.serverMove event = some s' →
      s'.slots = s.slots ∧ s'.server.history = s.server.history ∧ s'.server.sent = s.server.sent := by
    intro event noInterpret noSend move
    obtain ⟨server, moved, rfl⟩ := serverMove_eq_some.1 move
    exact ⟨rfl, serverStep_quiet moved noInterpret noSend⟩
  cases event with
  | accept =>
    rw [networkStep, Option.ite_none_right_eq_some] at step
    obtain ⟨-, accepted⟩ := step
    cases accepted
    exact .inl ⟨rfl, rfl, rfl⟩
  | slot i event =>
    obtain ⟨-, slot, moved, same⟩ := networkStep_slot.1 step
    exact .inr (.inl ⟨i, event, slot, moved, same⟩)
  | interpret i draws =>
    obtain ⟨line, lines, command, server, next, read, applied, rfl⟩ := networkStep_interpret.1 step
    obtain ⟨-, cube, -, rfl⟩ := serverStep_interpret.1 applied
    exact .inr (.inr (.inl ⟨⟨i, command, draws⟩, line, lines, next, read, rfl, rfl, rfl⟩))
  | send =>
    obtain ⟨message, k, rest, sending, -, server, sent, rfl⟩ := networkStep_send.1 step
    obtain ⟨m, k', rest', sending', rfl⟩ := serverStep_send.1 sent
    cases sending.symm.trans sending'
    exact .inr (.inr (.inr ⟨message, k, rfl, rfl, rfl⟩))
  | post i => exact .inl (quiet (by simp) (by simp) step)
  | wait => exact .inl (quiet (by simp) (by simp) step)
  | encode buffer => exact .inl (quiet (by simp) (by simp) step)
  | finish => exact .inl (quiet (by simp) (by simp) step)

/-- The server inside the network runs as it does alone. -/
theorem network_broadcasts (capacity : Option Nat) :
    System.Simulation (network capacity) (broadcasts FaceId) fun s a => s.server = a where
  init s start := by
    obtain ⟨cubeFaceId, msg, rfl⟩ := start
    exact ⟨.start, rfl, rfl⟩
  step s a event s' _ same step := by
    subst same
    rcases networkStep_server step with stay | ⟨event, moved⟩
    · exact .inl stay
    · exact .inr ⟨event, _, moved, rfl⟩

theorem network_broadcastInv (h : (network capacity).Reach s) : BroadcastInv s.server := by
  obtain ⟨a, reach, rfl⟩ := (network_broadcasts capacity).reach h
  exact broadcastInv reach

end Steps

end Rubiks
