import Rubiks.Server.Convergence
import Rubiks.Server.Solve

/-!
# What one client can do

A client that presses a key and then lets the other threads come to rest knows what
the server's cube has become, whatever their schedule: its line is the one command
applied. So from any reachable state of the network it can bring the cube to any
state that turns reach, and every client with it (`any_client_steers`).
-/

namespace Rubiks

open Logic

/-- What only the key thread changes. -/
def Client.keys (c : Client) : Bool × Int × List (List Char8) := (c.quit, c.curses.cubeFaceId, c.curses.socket)

theorem clientStep_keys {s s' : Client} {event : ClientEvent} (step : clientStep s event = some s')
    (noKey : ∀ input, event ≠ .key input) : s'.keys = s.keys := by
  cases event with
  | key input => exact absurd rfl (noKey input)
  | line text =>
    obtain ⟨cube, -, rfl⟩ := clientStep_line.1 step
    rfl
  | wake =>
    obtain ⟨-, rfl⟩ := clientStep_wake.1 step
    rfl
  | draw =>
    obtain ⟨-, rfl⟩ := clientStep_draw.1 step
    rfl

variable {capacity : Option Nat} {s s' : NetworkState} {i : FaceId}

theorem slotStep_keys {slot slot' : Slot} {event : SlotEvent} (step : slotStep capacity slot event = some slot')
    (noKey : ∀ input, event ≠ .client (.key input)) : slot'.client.keys = slot.client.keys := by
  cases event with
  | client event =>
    obtain ⟨-, client, moved, rfl⟩ := slotStep_client.1 step
    exact clientStep_keys moved fun input same => noKey input (same ▸ rfl)
  | relayIn =>
    obtain ⟨line, lines, -, -, rfl⟩ := slotStep_relayIn.1 step
    rfl
  | relayOut =>
    obtain ⟨line, lines, -, rfl⟩ := slotStep_relayOut.1 step
    rfl
  | receive =>
    obtain ⟨line, lines, client, -, decoded, rfl⟩ := slotStep_receive.1 step
    exact clientStep_keys decoded nofun

/-- What a quiet run leaves as it was, and that it only extends the history. -/
structure Untouched (s s' : NetworkState) : Prop where
  attached : s'.attached = s.attached
  keys : ∀ i, (s'.slots i).client.keys = (s.slots i).client.keys
  history : s.server.history <+: s'.server.history

theorem Untouched.rfl (s : NetworkState) : Untouched s s := ⟨Eq.refl _, fun _ => Eq.refl _, List.prefix_rfl⟩

theorem Untouched.trans (a b c : NetworkState) (h : Untouched a b) (h' : Untouched b c) : Untouched a c :=
  ⟨h'.attached.trans h.attached, fun i => (h'.keys i).trans (h.keys i), h.history.trans h'.history⟩

theorem Untouched.attached_iff (h : Untouched s s') (i : FaceId) : s'.Attached i ↔ s.Attached i := by
  rw [NetworkState.Attached, h.attached]
  rfl

theorem setSlot_keys {slot : Slot} (same : slot.client.keys = (s.slots i).client.keys) (j : FaceId) :
    ((s.setSlot i slot).slots j).client.keys = (s.slots j).client.keys := by
  by_cases own : j = i
  · rw [own, setSlot_self, same]
  · rw [setSlot_of_ne s own]

theorem NetworkInv.untouched (h : NetworkInv s) {event : NetworkEvent} (quiet : event.Quiet)
    (step : networkStep capacity s event = some s') : Untouched s s' := by
  have history := (h.later step).history
  cases event with
  | accept => exact absurd rfl quiet.2
  | slot i event =>
    obtain ⟨-, slot, moved, rfl⟩ := networkStep_slot.1 step
    refine ⟨rfl, setSlot_keys (slotStep_keys moved ?_), history⟩
    rintro input rfl
    exact quiet.1 trivial
  | interpret i draws =>
    obtain ⟨line, lines, command, server, -, -, -, rfl⟩ := networkStep_interpret.1 step
    exact ⟨rfl, setSlot_keys (s := { s with server := server }) rfl, history⟩
  | send =>
    obtain ⟨message, k, rest, -, -, server, -, rfl⟩ := networkStep_send.1 step
    exact ⟨rfl, setSlot_keys (s := { s with server := server }) rfl, history⟩
  | post | wait | encode | finish =>
    obtain ⟨server, -, rfl⟩ := serverMove_eq_some.1 step
    exact ⟨rfl, fun _ => rfl, history⟩

theorem untouched_run (h : (network capacity).Reach s) {events : List NetworkEvent}
    (quiet : ∀ event ∈ events, event.Quiet) (run : (network capacity).run s events = some s') : Untouched s s' :=
  h.run_rel_of Untouched.rfl Untouched.trans (fun _ _ _ reach quiet step => (networkInv reach).untouched quiet step)
    quiet run

/-- Nothing comes out of the pipe of a client that is not accepted yet. -/
theorem unattached_commands (h : (network capacity).Reach s) :
    ∀ i, ¬ s.Attached i → (s.slots i).pipeIn = [] ∧ commandsOf s.server.history i = [] := by
  induction h with
  | init start =>
    obtain ⟨cubeFaceId, msg, rfl⟩ := start
    exact fun _ _ => ⟨rfl, rfl⟩
  | @step s s' event _ stepped ih =>
    have step : networkStep capacity s event = some s' := stepped
    have move : ∀ {e}, (∀ entry, e ≠ .interpret entry) → e ≠ .send → s.serverMove e = some s' →
        ∀ i, ¬ s'.Attached i → (s'.slots i).pipeIn = [] ∧ commandsOf s'.server.history i = [] := by
      intro e noInterpret noSend moved
      obtain ⟨server, taken, rfl⟩ := serverMove_eq_some.1 moved
      rw [(serverStep_quiet taken noInterpret noSend).1]
      exact ih
    intro j outside
    cases event with
    | accept =>
      rw [networkStep, Option.ite_none_right_eq_some] at step
      obtain ⟨-, accepted⟩ := step
      cases accepted
      exact ih j fun attached => outside (Nat.lt_succ_of_lt attached)
    | slot i event =>
      obtain ⟨relay, slot, moved, rfl⟩ := networkStep_slot.1 step
      have before := ih j outside
      by_cases own : j = i
      · subst own
        rw [setSlot_self]
        refine ⟨?_, before.2⟩
        cases event with
        | client event =>
          obtain ⟨-, client, -, rfl⟩ := slotStep_client.1 moved
          exact before.1
        | relayIn => exact absurd (relay trivial) outside
        | relayOut => exact absurd (relay trivial) outside
        | receive =>
          obtain ⟨line, lines, client, -, -, rfl⟩ := slotStep_receive.1 moved
          exact before.1
      · rw [setSlot_of_ne s own]
        exact before
    | interpret i draws =>
      obtain ⟨line, lines, command, server, next, -, applied, rfl⟩ := networkStep_interpret.1 step
      obtain ⟨-, cube, -, rfl⟩ := serverStep_interpret.1 applied
      have before := ih j outside
      have other : j ≠ i := by
        rintro rfl
        rw [next] at before
        cases before.1
      rw [setSlot_of_ne _ other]
      refine ⟨before.1, ?_⟩
      show commandsOf (s.server.history ++ [_]) j = []
      rw [commandsOf_concat, before.2, if_neg (Ne.symm other), List.append_nil]
    | send =>
      obtain ⟨message, k, rest, -, -, server, sent, rfl⟩ := networkStep_send.1 step
      obtain ⟨m, k', rest', -, rfl⟩ := serverStep_send.1 sent
      have before := ih j outside
      refine ⟨?_, before.2⟩
      by_cases own : j = k
      · subst own
        rw [setSlot_self]
        exact before.1
      · rw [setSlot_of_ne _ own]
        exact before.1
    | post i => exact move (by simp) (by simp) step j outside
    | wait => exact move (by simp) (by simp) step j outside
    | encode buffer => exact move (by simp) (by simp) step j outside
    | finish => exact move (by simp) (by simp) step j outside

/-- A client without a connection has nothing to draw before its first digit. -/
def Slot.Unconnected (slot : Slot) : Prop :=
  slot.socketOut = [] ∧ (FaceInRange slot.client.curses.cubeFaceId ∨
    slot.client.curses.updateViewSemaphore = 0 ∧ slot.client.woken = false)

theorem slotStep_unconnected {slot slot' : Slot} {event : SlotEvent} (h : slot.Unconnected)
    (noRelay : ¬ event.Relay) (step : slotStep capacity slot event = some slot') : slot'.Unconnected := by
  obtain ⟨socketOut, idle⟩ := h
  cases event with
  | relayIn => exact absurd trivial noRelay
  | relayOut => exact absurd trivial noRelay
  | receive =>
    obtain ⟨line, lines, client, waiting, -, -⟩ := slotStep_receive.1 step
    rw [socketOut] at waiting
    cases waiting
  | client event =>
    obtain ⟨noLine, client, moved, rfl⟩ := slotStep_client.1 step
    refine ⟨socketOut, ?_⟩
    cases event with
    | line text => exact absurd rfl (noLine text)
    | key input =>
      obtain ⟨-, rfl⟩ := clientStep_key.1 moved
      have face := cursesKey_cubeFaceId slot.client.curses input
      have posts := cursesKey_posts slot.client.curses input
      by_cases digit : FaceKey input
      · rw [if_pos digit] at face
        unfold FaceKey at digit
        refine .inl ⟨?_, ?_⟩ <;> rw [face] <;> omega
      · rw [if_neg digit] at face posts
        rcases idle with inRange | ⟨none, asleep⟩
        · exact .inl (face ▸ inRange)
        · exact .inr ⟨posts.trans none, asleep⟩
    | wake =>
      obtain ⟨posted, rfl⟩ := clientStep_wake.1 moved
      exact .inl (idle.resolve_right fun none => posted (.inr none.1))
    | draw =>
      obtain ⟨woken, rfl⟩ := clientStep_draw.1 moved
      refine .inl (idle.resolve_right fun none => ?_)
      rw [none.2] at woken
      cases woken

theorem unattached_unconnected (h : (network capacity).Reach s) :
    ∀ i, ¬ s.Attached i → (s.slots i).Unconnected := by
  induction h with
  | init start =>
    obtain ⟨cubeFaceId, msg, rfl⟩ := start
    exact fun _ _ => ⟨rfl, .inr ⟨rfl, rfl⟩⟩
  | @step s s' event _ stepped ih =>
    have step : networkStep capacity s event = some s' := stepped
    -- a line that leaves or enters a pipe of the server is not in a socket to a client
    have other : ∀ {k : FaceId} {slot : Slot} (t : NetworkState), t.slots = s.slots → t.attached = s.attached →
        slot.client = (s.slots k).client → slot.socketOut = (s.slots k).socketOut →
        ∀ j, ¬ (t.setSlot k slot).Attached j → ((t.setSlot k slot).slots j).Unconnected := by
      intro k slot t slots attached client socketOut j outside
      have before := ih j fun on => outside (by rwa [NetworkState.Attached, setSlot_attached, attached])
      by_cases own : j = k
      · subst own
        rw [setSlot_self, Slot.Unconnected, client, socketOut]
        exact before
      · rw [setSlot_of_ne t own, slots]
        exact before
    cases event with
    | accept =>
      rw [networkStep, Option.ite_none_right_eq_some] at step
      obtain ⟨-, accepted⟩ := step
      cases accepted
      exact fun j outside => ih j fun attached => outside (Nat.lt_succ_of_lt attached)
    | slot i event =>
      obtain ⟨relay, slot, moved, rfl⟩ := networkStep_slot.1 step
      intro j outside
      by_cases own : j = i
      · subst own
        rw [setSlot_self]
        exact slotStep_unconnected (ih j outside) (fun relays => outside (relay relays)) moved
      · rw [setSlot_of_ne s own]
        exact ih j outside
    | interpret i draws =>
      obtain ⟨line, lines, command, server, -, -, -, rfl⟩ := networkStep_interpret.1 step
      exact other _ rfl rfl rfl rfl
    | send =>
      obtain ⟨message, k, rest, -, -, server, -, rfl⟩ := networkStep_send.1 step
      exact other _ rfl rfl rfl rfl
    | post | wait | encode | finish =>
      obtain ⟨server, -, rfl⟩ := serverMove_eq_some.1 step
      exact ih

/-- Where the faces of the attached clients are in range, so is every face to be drawn. -/
theorem stops_of_faces (h : (network capacity).Reach s) (stuck : (facedNetwork capacity).Stuck NetworkEvent.Quiet s)
    (faces : ∀ j, s.Attached j → FaceInRange (s.slots j).client.curses.cubeFaceId) :
    (network capacity).Stuck NetworkEvent.Quiet s := by
  refine stuck_of_faced stuck fun j woken => ?_
  by_cases attached : s.Attached j
  · exact faces j attached
  · refine (unattached_unconnected h j attached).2.resolve_right fun none => ?_
    rw [none.2] at woken
    cases woken

/-! ## A key at rest -/

theorem commandsOf_append (history history' : List (Entry FaceId)) (j : FaceId) :
    commandsOf (history ++ history') j = commandsOf history j ++ commandsOf history' j := by
  simp only [commandsOf, List.filter_append, List.map_append]

theorem mem_commandsOf {history : List (Entry FaceId)} {e : Entry FaceId} (mem : e ∈ history) :
    e.command ∈ commandsOf history e.client :=
  List.mem_map_of_mem (List.mem_filter.2 ⟨mem, decide_eq_true rfl⟩)

theorem commandsOf_eq_map {history : List (Entry FaceId)} {j : FaceId} (own : ∀ e ∈ history, e.client = j) :
    commandsOf history j = history.map Entry.command := by
  rw [commandsOf, List.filter_eq_self.2 fun e mem => decide_eq_true (own e mem)]

/-- The system is at rest, client `i` is accepted and has not quit, and every accepted
client has a face in range. -/
structure Ready (capacity : Option Nat) (i : FaceId) (s : NetworkState) : Prop where
  reach : (facedNetwork capacity).Reach s
  stuck : (facedNetwork capacity).Stuck NetworkEvent.Quiet s
  attached : s.Attached i
  playing : (s.slots i).client.quit = false
  faces : ∀ j, s.Attached j → FaceInRange (s.slots j).client.curses.cubeFaceId

theorem Ready.inv (h : Ready capacity i s) : NetworkInv s := networkInv (facedNetwork_reach h.reach)

theorem Ready.stops (h : Ready capacity i s) : (network capacity).Stuck NetworkEvent.Quiet s :=
  stops_of_faces (facedNetwork_reach h.reach) h.stuck h.faces

/-- A key leaves a face in range in range. -/
theorem cursesKey_inRange {c : CursesThread} (inRange : FaceInRange c.cubeFaceId) (input : Int) :
    FaceInRange (cursesKey c input).cubeFaceId := by
  rw [cursesKey_cubeFaceId]
  split
  · rename_i digit
    unfold FaceKey at digit
    exact ⟨by omega, by omega⟩
  · exact inRange

/-- A key of client `i`. -/
def NetworkEvent.KeyOf (i : FaceId) (event : NetworkEvent) : Prop := ∃ input, event = .slot i (.client (.key input))

/-- Where a quiet run ends, the client is ready if it was to begin with. -/
theorem Ready.of_quiet (h : (facedNetwork capacity).Reach s) (attached : s.Attached i)
    (playing : (s.slots i).client.quit = false)
    (faces : ∀ j, s.Attached j → FaceInRange (s.slots j).client.curses.cubeFaceId) {events : List NetworkEvent}
    (quiet : ∀ event ∈ events, event.Quiet) (run : (facedNetwork capacity).run s events = some s')
    (stuck : (facedNetwork capacity).Stuck NetworkEvent.Quiet s') : Ready capacity i s' := by
  have later := untouched_run (facedNetwork_reach h) quiet (facedNetwork_run run)
  refine ⟨h.run run, stuck, (later.attached_iff i).2 attached, ?_, fun j on => ?_⟩
  · exact (congrArg Prod.fst (later.keys i)).trans playing
  · have kept : (s'.slots j).client.curses.cubeFaceId = (s.slots j).client.curses.cubeFaceId :=
      congrArg (fun keys => keys.2.1) (later.keys j)
    rw [kept]
    exact faces j ((later.attached_iff j).1 on)

/-- Between two states at rest the lines client `i` wrote are the commands applied, if no
other client wrote one. -/
theorem Ready.applied (h : Ready capacity i s) (h' : Ready capacity i s') (enough : ∀ n ∈ capacity, 55 ≤ n)
    (attached : ∀ j, s'.Attached j ↔ s.Attached j) (history : s.server.history <+: s'.server.history)
    (others : ∀ j, j ≠ i → (s'.slots j).client.curses.socket = (s.slots j).client.curses.socket) :
    ∃ entries : List (Entry FaceId), s'.server.history = s.server.history ++ entries ∧
      (s.slots i).client.curses.socket.map lineBuffer ++ entries.map (fun e => e.command.line) =
        (s'.slots i).client.curses.socket.map lineBuffer := by
  have inv := h.inv
  have inv' := h'.inv
  have rest := inv.atRest enough h.stops
  have rest' := inv'.atRest enough h'.stops
  obtain ⟨entries, history⟩ := history
  refine ⟨entries, history.symm, ?_⟩
  have split : ∀ j, commandsOf s'.server.history j = commandsOf s.server.history j ++ commandsOf entries j := by
    intro j
    rw [← history, commandsOf_append]
  have none : ∀ j, j ≠ i → commandsOf entries j = [] := by
    intro j other
    by_cases accepted : s.Attached j
    · have all := inv'.applied_atRest rest' ((attached j).2 accepted)
      rw [split, List.map_append, inv.applied_atRest rest accepted, others j other] at all
      simpa using all
    · have all := (unattached_commands (facedNetwork_reach h'.reach) j fun on => accepted ((attached j).1 on)).2
      rw [split] at all
      exact (List.append_eq_nil_iff.1 all).2
  have mine : ∀ e ∈ entries, e.client = i := by
    intro e mem
    by_contra other
    exact List.ne_nil_of_mem (mem_commandsOf mem) (none e.client other)
  have all := inv'.applied_atRest rest' h'.attached
  rw [split, List.map_append, inv.applied_atRest rest h.attached, commandsOf_eq_map mine, List.map_map] at all
  exact all

/-- What comes after a key: whatever the schedule, at rest again the lines the key wrote are
the commands applied since. -/
theorem Ready.press (h : Ready capacity i s) (enough : ∀ n ∈ capacity, 55 ≤ n) {input : Int}
    (noQuit : ¬ (input = keyQ ∨ input = keyUpperQ)) :
    ∃ mid, (facedNetwork capacity).step s (.slot i (.client (.key input))) = some mid ∧
      ∀ events s', (∀ event ∈ events, event.Quiet) → (facedNetwork capacity).run mid events = some s' →
        (facedNetwork capacity).Stuck NetworkEvent.Quiet s' → Ready capacity i s' ∧
          (s'.slots i).client.curses.cubeFaceId = (cursesKey (s.slots i).client.curses input).cubeFaceId ∧
          ∃ entries : List (Entry FaceId), s'.server.history = s.server.history ++ entries ∧
            (s.slots i).client.curses.socket.map lineBuffer ++ entries.map (fun e => e.command.line) =
              (cursesKey (s.slots i).client.curses input).socket.map lineBuffer := by
  have pressed : clientStep (s.slots i).client (.key input) = some _ := clientStep_key.2 ⟨h.playing, rfl⟩
  have moved : slotStep capacity (s.slots i) (.client (.key input)) = some _ := slotStep_client.2 ⟨nofun, _, pressed, rfl⟩
  have step : (facedNetwork capacity).step s (.slot i (.client (.key input))) = some _ :=
    facedNetwork_step.2 ⟨id, networkStep_slot.2 ⟨False.elim, _, moved, rfl⟩⟩
  refine ⟨_, step, fun events s' quiet run stuck => ?_⟩
  have reach := h.reach.step step
  have later := untouched_run (facedNetwork_reach reach) quiet (facedNetwork_run run)
  have own := later.keys i
  rw [setSlot_self] at own
  have ready : Ready capacity i s' := by
    refine .of_quiet reach h.attached ?_ (fun j on => ?_) quiet run stuck
    · rw [setSlot_self]
      exact decide_eq_false noQuit
    · by_cases same : j = i
      · subst same
        rw [setSlot_self]
        exact cursesKey_inRange (h.faces j h.attached) input
      · rw [setSlot_of_ne s same]
        exact h.faces j on
  have others : ∀ j, j ≠ i → (s'.slots j).client.curses.socket = (s.slots j).client.curses.socket := by
    intro j other
    have keys := later.keys j
    rw [setSlot_of_ne s other] at keys
    exact congrArg (fun keys => keys.2.2) keys
  obtain ⟨entries, history, lines⟩ := h.applied ready enough later.attached_iff later.history others
  refine ⟨ready, congrArg (fun keys => keys.2.1) own, entries, history, lines.trans ?_⟩
  exact congrArg (fun keys => keys.2.2.map lineBuffer) own

/-! ## Turning the cube -/

/-- A command key writes its message. -/
theorem cursesKey_command {c : CursesThread} {input : Int} {code : Fin 3} (key : keyCode input = some code) {f : FaceId}
    (face : c.cubeFaceId = (f : Nat)) : (cursesKey c input).socket = c.socket ++ [messageLine f code] := by
  obtain ⟨msg, encoded, text⟩ := encodeUserInput_of_code key f c.msg
  have command : input = keyA ∨ input = keyD ∨ input = keySpace := by
    by_contra none
    simp only [not_or] at none
    rw [keyCode, if_neg none.1, if_neg none.2.1, if_neg none.2.2] at key
    cases key
  simp only [cursesKey, command, if_true, face, encoded, ne_eq, not_true_eq_false, if_false, text]

/-- A digit writes nothing. -/
theorem cursesKey_digit {c : CursesThread} {input : Int} (digit : FaceKey input) :
    (cursesKey c input).socket = c.socket := by
  have other : ¬ (input = keyA ∨ input = keyD ∨ input = keySpace) := by
    unfold FaceKey at digit
    unfold keyA keyD keySpace
    omega
  rw [cursesKey, if_neg other, if_pos digit]

theorem Ready.cubeAfter (h : Ready capacity i s) : cubeAfter s.server.history = some s.server.globalCubeState :=
  h.inv.1.cube

/-- What client `i` can force from `s`. -/
def CanForce (capacity : Option Nat) (i : FaceId) (Q : NetworkState → Prop) (s : NetworkState) : Prop :=
  (facedNetwork capacity).Forces (NetworkEvent.KeyOf i) NetworkEvent.Quiet Q s

/-- Pressing a digit selects the face and leaves the cube. -/
theorem Ready.select (h : Ready capacity i s) (enough : ∀ n ∈ capacity, 55 ≤ n) (f : FaceId) :
    CanForce capacity i (fun t => Ready capacity i t ∧ (t.slots i).client.curses.cubeFaceId = (f : Nat) ∧
      t.server.globalCubeState = s.server.globalCubeState) s := by
  have digit : FaceKey (48 + (f : Nat)) := ⟨by omega, by omega⟩
  have noQuit : ¬ (48 + ((f : Nat) : Int) = keyQ ∨ 48 + ((f : Nat) : Int) = keyUpperQ) := by
    unfold keyQ keyUpperQ
    omega
  obtain ⟨mid, step, after⟩ := h.press enough noQuit
  refine .move ⟨_, rfl⟩ step fun events s' quiet run stuck => .done ?_
  obtain ⟨ready, face, entries, history, written⟩ := after events s' quiet run stuck
  rw [cursesKey_digit digit, List.append_right_eq_self, List.map_eq_nil_iff] at written
  rw [written, List.append_nil] at history
  refine ⟨ready, ?_, ?_⟩
  · rw [face, cursesKey_cubeFaceId, if_pos digit]
    omega
  · have same := ready.cubeAfter
    rw [history, h.cubeAfter] at same
    exact (Option.some.inj same).symm

/-- Pressing a command key applies its command to the cube, and nothing else. -/
theorem Ready.command (h : Ready capacity i s) (enough : ∀ n ∈ capacity, 55 ≤ n) {f : FaceId}
    (face : (s.slots i).client.curses.cubeFaceId = (f : Nat)) {input : Int} {code : Fin 3}
    (key : keyCode input = some code) :
    CanForce capacity i (fun t => Ready capacity i t ∧ ∃ draws,
      decodeUserInput (Command.line ⟨f, code, [newline, nul]⟩) s.server.globalCubeState draws =
        some t.server.globalCubeState) s := by
  have noQuit : ¬ (input = keyQ ∨ input = keyUpperQ) := by
    rintro (rfl | rfl) <;> cases key
  obtain ⟨mid, step, after⟩ := h.press enough noQuit
  refine .move ⟨_, rfl⟩ step fun events s' quiet run stuck => .done ?_
  obtain ⟨ready, -, entries, history, written⟩ := after events s' quiet run stuck
  rw [cursesKey_command key face, List.map_append, List.append_cancel_left_eq] at written
  obtain ⟨e, rfl, line⟩ := List.map_eq_singleton_iff.1 written
  have applied := ready.cubeAfter
  rw [history, cubeAfter_concat, h.cubeAfter, Option.bind_some, line] at applied
  exact ⟨ready, e.draws, applied⟩

/-- One turn: the digit of its face, then `a` or `d`. -/
theorem Ready.turn (h : Ready capacity i s) (enough : ∀ n ∈ capacity, 55 ≤ n) (m : Move) {d : Cube}
    (turned : rotate s.server.globalCubeState (m.face : Nat) m.direction = some d) :
    CanForce capacity i (fun t => Ready capacity i t ∧ t.server.globalCubeState = d) s := by
  refine (h.select enough m.face).bind ?_
  rintro t ⟨ready, face, same⟩
  obtain ⟨input, code, key, direction⟩ : ∃ input code, keyCode input = some code ∧ code ≠ 2 ∧
      rotate s.server.globalCubeState (m.face : Nat) m.direction =
        rotate s.server.globalCubeState (m.face : Nat) ((code : Fin 3) : Nat) := by
    by_cases zero : m.direction = 0
    · exact ⟨keyD, 0, rfl, by decide, by rw [zero]; rfl⟩
    · exact ⟨keyA, 1, rfl, by decide, by simp [rotate, zero]⟩
  refine (ready.command enough face key).bind ?_
  rintro u ⟨ready', draws, applied⟩
  refine .done ⟨ready', ?_⟩
  rw [decodeUserInput_line, if_neg direction.1, same, ← direction.2, turned] at applied
  exact (Option.some.inj applied).symm

theorem Ready.turns (enough : ∀ n ∈ capacity, 55 ≤ n) {d : Cube} (moves : List Move) (h : Ready capacity i s)
    (turned : runMoves s.server.globalCubeState moves = some d) :
    CanForce capacity i (fun t => Ready capacity i t ∧ t.server.globalCubeState = d) s := by
  induction moves generalizing s with
  | nil => exact .done ⟨h, Option.some.inj turned⟩
  | cons m moves ih =>
    rw [runMoves_cons] at turned
    obtain ⟨c, first, rest⟩ := Option.bind_eq_some_iff.1 turned
    refine (h.turn enough m first).bind ?_
    rintro t ⟨ready, same⟩
    exact ih ready (same ▸ rest)

end Rubiks
