import Rubiks.Server.Network

/-!
# Clients agree with the server

For each slot: the lines a client wrote are the commands applied, then what waits
in the pipe and the socket; the broadcasts its pipe was sent are the lines the
client decoded, then what waits on the way back; and the client displays the cube
of the last one it decoded (`SlotInv`). Every step keeps this, whatever its order.
-/

namespace Rubiks

open Logic

/-- How many commands the client's display shows: the version of the last broadcast
it decoded. -/
def Slot.shown (slot : Slot) (sent : List Snapshot) : Nat :=
  match (sent.take slot.received).getLast? with
  | none => 0
  | some m => m.version

/-- Decoding the next broadcast shows its version. -/
theorem shown_received {sent : List Snapshot} {slot slot' : Slot} {m : Snapshot}
    (next : sent[slot.received]? = some m) (received : slot'.received = slot.received + 1) :
    slot'.shown sent = m.version := by
  rw [Slot.shown, received, List.take_add_one, next]
  simp

/-- Further broadcasts do not change what is shown. -/
theorem shown_append {sent : List Snapshot} {slot : Slot} (bound : slot.received ≤ sent.length) (m : Snapshot) :
    slot.shown (sent ++ [m]) = slot.shown sent := by
  rw [Slot.shown, Slot.shown, List.take_append_of_le_length bound]

/-- The text of a broadcast is the line of the cube it shows. -/
theorem Snapshot.Shows.text_eq {ι : Type} {m : Snapshot} {history : List (Entry ι)} (h : m.Shows history) :
    ∃ c, CubeAt history m.version c ∧ m.text = cubeLine c := by
  obtain ⟨c, version, msg⟩ := h
  refine ⟨c, version, ?_⟩
  rw [Snapshot.text, msg, ← encode_eq c m.msg, fputs_encode version.reachable.digitColors.framed]

/-- What holds of slot `i`, when `history` was applied and `sent` written to the
slot's pipe. -/
structure SlotInv (history : List (Entry FaceId)) (sent : List Snapshot) (i : FaceId) (slot : Slot) : Prop where
  wellFormed : ∀ l ∈ slot.client.curses.socket, ∃ (face : FaceId) (code : Fin 3), l = messageLine face code
  inbound : ∃ applied, applied ++ (slot.pipeIn ++ slot.socketIn) = slot.client.curses.socket ∧
    applied.map lineBuffer = (commandsOf history i).map Command.line
  received : slot.received ≤ sent.length
  outbound : (sent.drop slot.received).map Snapshot.text = slot.socketOut ++ slot.pipeOut
  display : ∃ c, CubeAt history (slot.shown sent) c ∧ slot.client.cubeStateToDisplay.coloring = c.coloring

namespace SlotInv

variable {history : List (Entry FaceId)} {sent : List Snapshot} {i : FaceId} {slot : Slot}

theorem start (i : FaceId) (cubeFaceId : Int) (msg : Fin 4 → Char8) :
    SlotInv [] [] i ⟨makeClientThreadArgs cubeFaceId msg, [], [], [], [], 0⟩ where
  wellFormed := by simp [makeClientThreadArgs]
  inbound := ⟨[], rfl, rfl⟩
  received := le_rfl
  outbound := rfl
  display := ⟨makeCube, ⟨le_rfl, rfl⟩, rfl⟩

/-- A line still on its way to the server has no NUL. -/
theorem fputs_inbound (h : SlotInv history sent i slot) {line : List Char8} (mem : line ∈ slot.pipeIn ++ slot.socketIn) :
    fputs (lineBuffer line) = line := by
  have whole : ∀ (face : FaceId) (code : Fin 3), nul ∉ messageLine face code := by decide
  obtain ⟨applied, all, -⟩ := h.inbound
  obtain ⟨face, code, rfl⟩ := h.wellFormed line (all ▸ List.mem_append_right _ mem)
  exact fputs_lineBuffer (whole face code)

/-- A line still on its way to the client is the line of a cube the server had. -/
theorem outbound_line (h : SlotInv history sent i slot) (shows : ∀ m ∈ sent, m.Shows history) {line : List Char8}
    (mem : line ∈ slot.socketOut ++ slot.pipeOut) : ∃ c, Reachable c ∧ line = cubeLine c := by
  rw [← h.outbound] at mem
  obtain ⟨m, left, rfl⟩ := List.mem_map.1 mem
  obtain ⟨c, version, text⟩ := (shows m (List.mem_of_mem_drop left)).text_eq
  exact ⟨c, version.reachable, text⟩

/-- The next line a client decodes is the next broadcast its pipe was sent. -/
theorem next_received (h : SlotInv history sent i slot) {line : List Char8} {lines : List (List Char8)}
    (next : slot.socketOut = line :: lines) : ∃ m, sent[slot.received]? = some m ∧ m.text = line ∧
      (sent.drop (slot.received + 1)).map Snapshot.text = lines ++ slot.pipeOut := by
  have outbound := h.outbound
  rw [next] at outbound
  cases left : sent.drop slot.received with
  | nil =>
    rw [left] at outbound
    cases outbound
  | cons m rest =>
    rw [left] at outbound
    obtain ⟨text, rest_eq⟩ := List.cons.inj outbound
    refine ⟨m, ?_, text, ?_⟩
    · rw [← List.head?_drop, left]
      rfl
    · rw [← List.tail_drop, left]
      exact rest_eq

/-- A step of the client or of a relay thread keeps the invariant. -/
theorem step (h : SlotInv history sent i slot) (shows : ∀ m ∈ sent, m.Shows history) {capacity : Option Nat}
    {event : SlotEvent} {slot' : Slot} (step : slotStep capacity slot event = some slot') :
    SlotInv history sent i slot' := by
  obtain ⟨applied, all, commands⟩ := h.inbound
  cases event with
  | client event =>
    obtain ⟨noLine, client, moved, rfl⟩ := slotStep_client.1 step
    obtain ⟨written, socket, messages⟩ := clientStep_socket moved
    refine { h with wellFormed := ?_, inbound := ⟨applied, ?_, commands⟩, display := ?_ }
    · intro l mem
      rw [socket] at mem
      rcases List.mem_append.1 mem with mem | mem
      · exact h.wellFormed l mem
      · exact messages l mem
    · rw [socket, List.drop_left, ← all]
      simp only [List.append_assoc]
    · rw [clientStep_display moved noLine]
      exact h.display
  | relayIn =>
    obtain ⟨line, lines, waiting, -, rfl⟩ := slotStep_relayIn.1 step
    have same := h.fputs_inbound (show line ∈ slot.pipeIn ++ slot.socketIn by simp [waiting])
    refine { h with inbound := ⟨applied, ?_, commands⟩ }
    rw [← all, same, waiting, List.append_assoc]
    rfl
  | relayOut =>
    obtain ⟨line, lines, waiting, rfl⟩ := slotStep_relayOut.1 step
    obtain ⟨c, reach, rfl⟩ := h.outbound_line shows (show line ∈ slot.socketOut ++ slot.pipeOut by simp [waiting])
    refine { h with outbound := ?_ }
    rw [h.outbound, waiting, fputs_lineBuffer (nul_notMem_cubeLine reach.digitColors.framed), List.append_assoc]
    rfl
  | receive =>
    obtain ⟨line, lines, client, waiting, decoded, rfl⟩ := slotStep_receive.1 step
    obtain ⟨m, next, rfl, rest⟩ := h.next_received waiting
    obtain ⟨c, version, text⟩ := (shows m (List.mem_of_getElem? next)).text_eq
    obtain ⟨cube, read, rfl⟩ := clientStep_line.1 decoded
    rw [text, decode_cubeLine version.reachable.digitColors.framed] at read
    cases read
    exact {
      wellFormed := h.wellFormed
      inbound := h.inbound
      received := (List.getElem?_eq_some_iff.1 next).1
      outbound := rest
      display := ⟨c, by rwa [shown_received next rfl], Cube.coloring_paint _ _⟩ }

/-- Listener `i` applies the next line of its pipe. -/
theorem interpret (h : SlotInv history sent i slot) {line : List Char8} {lines : List (List Char8)}
    (next : slot.pipeIn = line :: lines) {e : Entry FaceId} (client : e.client = i)
    (read : e.command.line = lineBuffer line) :
    SlotInv (history ++ [e]) sent i { slot with pipeIn := lines } := by
  obtain ⟨applied, all, commands⟩ := h.inbound
  obtain ⟨c, version, displayed⟩ := h.display
  refine { h with inbound := ⟨applied ++ [line], ?_, ?_⟩, display := ⟨c, version.append [e], displayed⟩ }
  · rw [← all, next, List.append_assoc]
    rfl
  · rw [commandsOf_concat, if_pos client, List.map_append, List.map_append, commands, List.map_singleton,
      List.map_singleton, read]

/-- Another listener applies a command. -/
theorem other (h : SlotInv history sent i slot) {e : Entry FaceId} (client : e.client ≠ i) :
    SlotInv (history ++ [e]) sent i slot := by
  obtain ⟨applied, all, commands⟩ := h.inbound
  obtain ⟨c, version, displayed⟩ := h.display
  refine { h with inbound := ⟨applied, all, ?_⟩, display := ⟨c, version.append [e], displayed⟩ }
  rw [commandsOf_concat, if_neg client, List.append_nil, commands]

/-- The broadcaster writes to the slot's pipe. -/
theorem send (h : SlotInv history sent i slot) (m : Snapshot) :
    SlotInv history (sent ++ [m]) i { slot with pipeOut := slot.pipeOut ++ [m.text] } where
  wellFormed := h.wellFormed
  inbound := h.inbound
  received := by
    have received := h.received
    rw [List.length_append]
    dsimp only
    omega
  outbound := by
    rw [List.drop_append_of_le_length h.received, List.map_append, h.outbound, List.append_assoc]
    rfl
  display := by
    have same : Slot.shown { slot with pipeOut := slot.pipeOut ++ [m.text] } (sent ++ [m]) = slot.shown sent :=
      shown_append h.received m
    rw [same]
    exact h.display

end SlotInv

/-! ## The whole network -/

def NetworkState.shown (s : NetworkState) (i : FaceId) : Nat := (s.slots i).shown (s.server.sent i)

/-- Every slot keeps its invariant. -/
def NetworkInv (s : NetworkState) : Prop :=
  BroadcastInv s.server ∧ ∀ i, SlotInv s.server.history (s.server.sent i) i (s.slots i)

variable {capacity : Option Nat} {s s' : NetworkState}

theorem BroadcastInv.shows_sent {ι : Type} {s : ServerState ι} (h : BroadcastInv s) (k : FaceId) :
    ∀ m ∈ s.sent k, m.Shows s.history :=
  fun m mem => h.shows m ((h.sent_prefix k).subset mem)

theorem networkInv_start (cubeFaceId : FaceId → Int) (msg : FaceId → Fin 4 → Char8) :
    NetworkInv (.start cubeFaceId msg) :=
  ⟨.start, fun i => .start i (cubeFaceId i) (msg i)⟩

/-- One step of the network keeps the slots' invariants. -/
theorem NetworkInv.slots_step (h : NetworkInv s) {event : NetworkEvent}
    (step : networkStep capacity s event = some s') :
    ∀ i, SlotInv s'.server.history (s'.server.sent i) i (s'.slots i) := by
  obtain ⟨inv, slots⟩ := h
  rcases networkStep_cases step with ⟨same, history, sent⟩ | ⟨i, event, slot, moved, rfl⟩ |
    ⟨e, line, lines, next, read, applied, history, sent⟩ | ⟨message, k, written, history, sent⟩
  · rw [same, history, sent]
    exact slots
  · exact (Function.forall_update_iff s.slots fun j slot =>
      SlotInv s.server.history (s.server.sent j) j slot).2 ⟨(slots i).step (inv.shows_sent i) moved, fun j _ => slots j⟩
  · rw [applied, history, sent]
    exact (Function.forall_update_iff s.slots fun j slot =>
      SlotInv (s.server.history ++ [e]) (s.server.sent j) j slot).2
      ⟨(slots e.client).interpret next rfl read, fun j other => (slots j).other (Ne.symm other)⟩
  · rw [written, history, sent]
    refine (Function.forall_update_iff s.slots fun j slot => SlotInv s.server.history
      (Function.update s.server.sent k (s.server.sent k ++ [message]) j) j slot).2 ⟨?_, fun j other => ?_⟩
    · rw [Function.update_self]
      exact (slots k).send message
    · rw [Function.update_of_ne other]
      exact slots j

theorem networkInv (h : (network capacity).Reach s) : NetworkInv s := by
  induction h with
  | init start =>
    obtain ⟨cubeFaceId, msg, rfl⟩ := start
    exact networkInv_start cubeFaceId msg
  | step reach step ih => exact ⟨network_broadcastInv (reach.step step), ih.slots_step step⟩

/-! ## Displays never go back -/

/-- A slot's step decodes the next line or decodes nothing. -/
theorem slotStep_received {slot slot' : Slot} {event : SlotEvent} (step : slotStep capacity slot event = some slot') :
    slot'.received = slot.received ∨
      (slot'.received = slot.received + 1 ∧ ∃ line lines, slot.socketOut = line :: lines) := by
  cases event with
  | client event =>
    obtain ⟨-, client, -, rfl⟩ := slotStep_client.1 step
    exact .inl rfl
  | relayIn =>
    obtain ⟨line, lines, -, -, rfl⟩ := slotStep_relayIn.1 step
    exact .inl rfl
  | relayOut =>
    obtain ⟨line, lines, -, rfl⟩ := slotStep_relayOut.1 step
    exact .inl rfl
  | receive =>
    obtain ⟨line, lines, client, waiting, -, rfl⟩ := slotStep_receive.1 step
    exact .inr ⟨rfl, line, lines, waiting⟩

/-- The next broadcast shows no fewer commands than the display. -/
theorem SlotInv.shown_le {history : List (Entry FaceId)} {sent : List Snapshot} {i : FaceId} {slot slot' : Slot}
    {event : SlotEvent} (h : SlotInv history sent i slot) (sorted : sent.Pairwise fun m m' => m.version ≤ m'.version)
    (step : slotStep capacity slot event = some slot') : slot.shown sent ≤ slot'.shown sent := by
  rcases slotStep_received step with same | ⟨one, line, lines, waiting⟩
  · rw [Slot.shown, Slot.shown, same]
  · obtain ⟨m, next, -, -⟩ := h.next_received waiting
    rw [shown_received next one, Slot.shown]
    cases last : (sent.take slot.received).getLast? with
    | none => exact Nat.zero_le _
    | some m' =>
      have late : m ∈ sent.drop slot.received := by
        apply List.mem_of_head?
        rw [List.head?_drop, next]
      rw [← List.take_append_drop slot.received sent] at sorted
      exact (List.pairwise_append.1 sorted).2.2 m' (List.mem_of_getLast? last) m late

/-- A later state: the order of commands was extended and no display went back. -/
structure Later (s s' : NetworkState) : Prop where
  history : s.server.history <+: s'.server.history
  shown : ∀ i, s.shown i ≤ s'.shown i

theorem Later.rfl (s : NetworkState) : Later s s := ⟨List.prefix_rfl, fun _ => le_rfl⟩

theorem Later.trans (a b c : NetworkState) (h : Later a b) (h' : Later b c) : Later a c :=
  ⟨h.history.trans h'.history, fun i => (h.shown i).trans (h'.shown i)⟩

theorem NetworkInv.later (h : NetworkInv s) {event : NetworkEvent} (step : networkStep capacity s event = some s') :
    Later s s' := by
  obtain ⟨inv, slots⟩ := h
  rcases networkStep_cases step with ⟨same, history, sent⟩ | ⟨i, event, slot, moved, rfl⟩ |
    ⟨e, line, lines, next, read, applied, history, sent⟩ | ⟨message, k, written, history, sent⟩
  · refine ⟨by rw [history], fun i => ?_⟩
    rw [NetworkState.shown, NetworkState.shown, same, sent]
  · have sorted := inv.sorted.sublist (inv.sent_prefix i).sublist
    exact ⟨List.prefix_rfl, (Function.forall_update_iff s.slots fun j slot =>
      (s.slots j).shown (s.server.sent j) ≤ slot.shown (s.server.sent j)).2
        ⟨(slots i).shown_le sorted moved, fun j _ => le_rfl⟩⟩
  · refine ⟨by rw [history]; exact List.prefix_append _ _, ?_⟩
    unfold NetworkState.shown
    rw [applied, sent]
    exact (Function.forall_update_iff s.slots fun j slot =>
      (s.slots j).shown (s.server.sent j) ≤ slot.shown (s.server.sent j)).2 ⟨le_rfl, fun j _ => le_rfl⟩
  · refine ⟨by rw [history], ?_⟩
    unfold NetworkState.shown
    rw [written, sent]
    refine (Function.forall_update_iff s.slots fun j slot => (s.slots j).shown (s.server.sent j) ≤
      slot.shown (Function.update s.server.sent k (s.server.sent k ++ [message]) j)).2 ⟨?_, fun j other => ?_⟩
    · rw [Function.update_self]
      exact (shown_append (slots k).received message).ge
    · rw [Function.update_of_ne other]

/-! ## No line is stuck -/

/-- Every line on its way ends in its only newline. -/
theorem NetworkInv.terminated (h : NetworkInv s) (i : FaceId) {line : List Char8}
    (mem : line ∈ (s.slots i).pipeIn ++ (s.slots i).socketIn ∨ line ∈ (s.slots i).socketOut ++ (s.slots i).pipeOut) :
    Terminated newline line := by
  obtain ⟨inv, slots⟩ := h
  rcases mem with inbound | outbound
  · obtain ⟨applied, all, -⟩ := (slots i).inbound
    obtain ⟨face, code, rfl⟩ := (slots i).wellFormed line (all ▸ List.mem_append_right _ inbound)
    exact messageLine_terminated face code
  · obtain ⟨c, reach, rfl⟩ := (slots i).outbound_line (inv.shows_sent i) outbound
    exact cubeLine_terminated reach.digitColors.framed

/-- `getline` reads the bytes in each channel as the lines that were written. -/
theorem NetworkInv.framed (h : NetworkInv s) (i : FaceId) :
    splitAfter newline ((s.slots i).pipeIn ++ (s.slots i).socketIn).flatten =
        (s.slots i).pipeIn ++ (s.slots i).socketIn ∧
      splitAfter newline ((s.slots i).socketOut ++ (s.slots i).pipeOut).flatten =
        (s.slots i).socketOut ++ (s.slots i).pipeOut :=
  ⟨splitAfter_flatten fun _ mem => h.terminated i (.inl mem), splitAfter_flatten fun _ mem => h.terminated i (.inr mem)⟩

/-- The first line waiting in a pipe is a command its listener can apply. -/
theorem NetworkInv.interpret_enabled (h : NetworkInv s) (capacity : Option Nat) {i : FaceId} {line : List Char8}
    {lines : List (List Char8)}
    (next : (s.slots i).pipeIn = line :: lines) (outside : i ∉ s.server.posting) (draws : Draws) :
    ∃ s', networkStep capacity s (.interpret i draws) = some s' := by
  obtain ⟨inv, slots⟩ := h
  obtain ⟨applied, all, -⟩ := (slots i).inbound
  obtain ⟨face, code, rfl⟩ := (slots i).wellFormed line (by rw [← all, next]; simp)
  obtain ⟨d, decoded, -⟩ := inv.cubeAt.reachable.command ⟨face, code, [newline, nul]⟩ draws
  exact ⟨_, networkStep_interpret.2 ⟨_, _, _, _, next, line_messageLine face code,
    serverStep_interpret.2 ⟨outside, d, decoded, rfl⟩, rfl⟩⟩

/-- The first line waiting in a client's socket is a cube it can decode. -/
theorem NetworkInv.receive_enabled (h : NetworkInv s) (capacity : Option Nat) {i : FaceId} {line : List Char8}
    {lines : List (List Char8)}
    (next : (s.slots i).socketOut = line :: lines) : ∃ s', networkStep capacity s (.slot i .receive) = some s' := by
  obtain ⟨inv, slots⟩ := h
  have mem : line ∈ (s.slots i).socketOut ++ (s.slots i).pipeOut := by simp [next]
  obtain ⟨c, reach, rfl⟩ := (slots i).outbound_line (inv.shows_sent i) mem
  have read := decode_cubeLine reach.digitColors.framed (s.slots i).client.cubeStateToDisplay
  exact ⟨_, networkStep_slot.2 ⟨False.elim, _, slotStep_receive.2 ⟨_, _, _, next,
    clientStep_line.2 ⟨_, read, rfl⟩, rfl⟩, rfl⟩⟩

/-! ## Replica agreement -/

/-- With the server at rest and nothing on its way to the client, the client shows
every command. -/
theorem NetworkInv.shown_settled (h : NetworkInv s) (posted : s.server.posting = ∅)
    (taken : s.server.broadcastMessageReady = 0) (waiting : s.server.broadcaster = .waiting) {i : FaceId}
    (piped : (s.slots i).pipeOut = []) (delivered : (s.slots i).socketOut = []) :
    s.shown i = s.server.history.length := by
  obtain ⟨inv, slots⟩ := h
  obtain ⟨length, last, sent⟩ := inv.settled posted taken waiting
  have outbound := (slots i).outbound
  rw [piped, delivered, List.append_nil, List.map_eq_nil_iff, List.drop_eq_nil_iff] at outbound
  rw [NetworkState.shown, Slot.shown, List.take_of_length_le outbound, sent i]
  cases final : s.server.produced.getLast? with
  | none =>
    rw [List.getLast?_eq_none_iff] at final
    rw [← length, final]
    rfl
  | some m => exact (last m final).1

/-- **Replica agreement.** With pipes of any capacity, in every reachable state: the
server's cube is the commands applied in one order, which with the lines still on
their way in holds each client's lines exactly once and in the order it wrote them;
every client displays the cube after some of that order; in any later state the
order is extended and no display went back; and once the server rests and nothing
is on its way to a client, it displays the server's cube. -/
theorem replica_agreement {capacity : Option Nat} {s : NetworkState} (h : (network capacity).Reach s) :
    cubeAfter s.server.history = some s.server.globalCubeState ∧
    (∀ i, (commandsOf s.server.history i).map Command.line ++
        ((s.slots i).pipeIn ++ (s.slots i).socketIn).map lineBuffer =
      (s.slots i).client.curses.socket.map lineBuffer) ∧
    (∀ i, ∃ c, CubeAt s.server.history (s.shown i) c ∧
      (s.slots i).client.cubeStateToDisplay.coloring = c.coloring) ∧
    (∀ events s', (network capacity).run s events = some s' →
      s.server.history <+: s'.server.history ∧ ∀ i, s.shown i ≤ s'.shown i) ∧
    (s.server.posting = ∅ → s.server.broadcastMessageReady = 0 → s.server.broadcaster = .waiting →
      ∀ i, (s.slots i).pipeOut = [] → (s.slots i).socketOut = [] →
        (s.slots i).client.cubeStateToDisplay.coloring = s.server.globalCubeState.coloring) := by
  have inv := networkInv h
  refine ⟨inv.1.cube, fun i => ?_, fun i => (inv.2 i).display, fun events s' run => ?_,
    fun posted taken waiting i piped delivered => ?_⟩
  · obtain ⟨applied, all, commands⟩ := (inv.2 i).inbound
    rw [← all, ← commands, ← List.map_append]
  · obtain ⟨history, shown⟩ := h.run_rel Later.rfl Later.trans (fun _ _ _ reach => (networkInv reach).later) run
    exact ⟨history, shown⟩
  · obtain ⟨c, version, displayed⟩ := (inv.2 i).display
    have all : (s.slots i).shown (s.server.sent i) = _ := inv.shown_settled posted taken waiting piped delivered
    rw [all] at version
    have same : some c = some s.server.globalCubeState := version.2.symm.trans inv.1.cubeAt.2
    rw [displayed, Option.some.inj same]

/-- Client 0 turned its face, the command was applied and broadcast, and client 0 has
decoded the broadcast; client 1, accepted later, has it still to read. -/
theorem replica_agreement_first_key :
    let events := [.accept, .slot 0 (.client (.key keyA)), .slot 0 .relayIn, .interpret 0 default, .post 0, .wait,
      .encode fun _ => nul] ++ List.replicate 6 .send ++
      [.finish, .slot 0 .relayOut, .slot 0 .receive, .accept, .slot 1 .relayOut]
    ∃ s, (network none).run (.start (fun _ => 0) fun _ _ => nul) events = some s ∧ s.attached = 2 ∧
      s.server.history.length = 1 ∧ cubeAfter s.server.history = some s.server.globalCubeState ∧
      (commandsOf s.server.history 0).map Command.line = [lineBuffer (messageLine 0 1)] ∧
      (s.slots 0).client.cubeStateToDisplay.coloring = s.server.globalCubeState.coloring ∧ s.shown 1 = 0 ∧
      (s.slots 1).socketOut ≠ [] ∧ (s.slots 1).client.cubeStateToDisplay.coloring = makeCube.coloring := by
  intro events
  obtain ⟨s, run, attached, one, written, arrived, posted, taken, waiting, piped, delivered, shown, unread⟩ : ∃ s,
      (network none).run (.start (fun _ => 0) fun _ _ => nul) events = some s ∧ s.attached = 2 ∧
      s.server.history.length = 1 ∧ (s.slots 0).client.curses.socket = [messageLine 0 1] ∧
      (s.slots 0).pipeIn ++ (s.slots 0).socketIn = [] ∧ s.server.posting = ∅ ∧ s.server.broadcastMessageReady = 0 ∧
      s.server.broadcaster = .waiting ∧ (s.slots 0).pipeOut = [] ∧ (s.slots 0).socketOut = [] ∧ s.shown 1 = 0 ∧
      (s.slots 1).socketOut ≠ [] :=
    ⟨_, rfl, rfl, rfl, rfl, rfl, rfl, rfl, rfl, rfl, rfl, rfl, List.cons_ne_nil _ _⟩
  have start : (network none).Reach (.start (fun _ => 0) fun _ _ => nul) := .init ⟨_, _, rfl⟩
  obtain ⟨cube, order, display, -, rest⟩ := replica_agreement (start.run run)
  have commands := order 0
  rw [arrived, written, List.map_nil, List.append_nil] at commands
  obtain ⟨c, ⟨-, version⟩, late⟩ := display 1
  rw [shown] at version
  cases version
  exact ⟨s, run, attached, one, cube, commands, rest posted taken waiting 0 piped delivered, shown, unread, late⟩

end Rubiks
