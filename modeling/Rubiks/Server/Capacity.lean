import Rubiks.Server.Replicas

/-!
# Absent clients and full pipes

A pipe of the default capacity holds 1191 broadcasts. Nobody reads the pipe of a
slot without a client, so after 1190 commands there is surely room for one more
line, after 1191 there may be none (`absent_slot_room_iff`), and the next broadcast
blocks until another client is accepted (`broadcaster_wedged`).
-/

namespace Rubiks

open Logic

/-- The capacity of a pipe. -/
def pipeCapacity : Nat := 65536

/-- The bytes of an encoded cube line: the buffer without its NUL. -/
def lineBytes : Nat := 55

/-- The slot has a reader, or its pipe takes one more line. -/
def HasRoom (s : NetworkState) (i : FaceId) : Prop :=
  s.Attached i ∨ bytes (s.slots i).pipeOut + lineBytes ≤ pipeCapacity

theorem bytes_eq {pipe : List (List Char8)} (lines : ∀ l ∈ pipe, l.length = lineBytes) :
    bytes pipe = pipe.length * lineBytes := by
  have each : ∀ n ∈ pipe.map List.length, n = lineBytes := by
    intro n mem
    obtain ⟨l, waiting, rfl⟩ := List.mem_map.1 mem
    exact lines l waiting
  rw [bytes, List.eq_replicate_of_mem each, List.sum_replicate_nat, List.length_map]

variable {s s' : NetworkState}

/-- Every line in a pipe to a client is a cube line. -/
theorem NetworkInv.bytes_pipeOut (h : NetworkInv s) (i : FaceId) :
    bytes (s.slots i).pipeOut = (s.slots i).pipeOut.length * lineBytes := by
  apply bytes_eq
  intro l mem
  obtain ⟨c, -, rfl⟩ := (h.2 i).outbound_line (h.1.shows_sent i) (List.mem_append_right _ mem)
  exact cubeLine_length c

/-- A pipe holds at most one line for each command. -/
theorem NetworkInv.length_pipeOut_le (h : NetworkInv s) (i : FaceId) :
    (s.slots i).pipeOut.length ≤ s.server.history.length := by
  obtain ⟨inv, slots⟩ := h
  have outbound := congrArg List.length (slots i).outbound
  have sent := (inv.sent_prefix i).length_le
  have count := inv.count
  simp only [List.length_map, List.length_drop, List.length_append] at outbound
  omega

/-- Up to 1190 commands leave room in every pipe. -/
theorem NetworkInv.hasRoom (h : NetworkInv s) (few : s.server.history.length ≤ 1190) (i : FaceId) : HasRoom s i := by
  have length := h.length_pipeOut_le i
  refine .inr ?_
  rw [h.bytes_pipeOut i, lineBytes, pipeCapacity]
  omega

/-! ## Filling the pipes of the absent clients -/

/-- The network with pipes of the default capacity. -/
abbrev pipes : System NetworkState NetworkEvent := network (some pipeCapacity)

/-- One client is accepted, `n` commands are applied and posted, nothing is
broadcast yet. -/
structure Posted (n : Nat) (s : NetworkState) : Prop where
  reach : pipes.Reach s
  attached : s.attached = 1
  posting : s.server.posting = ∅
  ready : s.server.broadcastMessageReady = n
  waiting : s.server.broadcaster = .waiting
  history : s.server.history.length = n
  face : (s.slots 0).client.curses.cubeFaceId = 0
  running : (s.slots 0).client.quit = false
  socketIn : (s.slots 0).socketIn = []
  pipeIn : (s.slots 0).pipeIn = []
  pipeOut : ∀ i, (s.slots i).pipeOut = []

theorem posted_zero : ∃ s, Posted 0 s := by
  have start : pipes.Reach (.start (fun _ => 0) fun _ _ => nul) := .init ⟨_, _, rfl⟩
  exact ⟨_, start.step (e := .accept) rfl, rfl, rfl, rfl, rfl, rfl, rfl, rfl, rfl, rfl, fun _ => rfl⟩

/-- A turn key of a client on a face in range enters the socket. -/
theorem slotStep_key {slot : Slot} (running : slot.client.quit = false) {f : FaceId}
    (face : slot.client.curses.cubeFaceId = (f : Nat)) :
    ∃ client, slotStep (some pipeCapacity) slot (.client (.key keyA)) =
        some { slot with client := client, socketIn := slot.socketIn ++ [messageLine f 1] } ∧
      client.curses.cubeFaceId = (f : Nat) ∧ client.quit = false := by
  have key : keyCode keyA = some 1 := rfl
  obtain ⟨msg, encoded, text⟩ := encodeUserInput_of_code key f slot.client.curses.msg
  have pressed : cursesKey slot.client.curses keyA =
      { slot.client.curses with msg := msg, socket := slot.client.curses.socket ++ [messageLine f 1] } := by
    simp only [cursesKey, true_or, if_true, face, encoded, ne_eq, not_true_eq_false, if_false, text]
  have moved : clientStep slot.client (.key keyA) = some { slot.client with
      curses := { slot.client.curses with msg := msg, socket := slot.client.curses.socket ++ [messageLine f 1] }
      quit := false } :=
    clientStep_key.2 ⟨running, by rw [pressed]; rfl⟩
  have written : slotStep (some pipeCapacity) slot (.client (.key keyA)) = _ :=
    slotStep_client.2 ⟨by simp, _, moved, rfl⟩
  rw [List.drop_left] at written
  exact ⟨_, written, face, rfl⟩

theorem reach_step {e : NetworkEvent} (h : pipes.Reach s) (step : networkStep (some pipeCapacity) s e = some s') :
    pipes.Reach s' :=
  h.step (e := e) step

theorem reach_slot {i : FaceId} {event : SlotEvent} {slot slot' : Slot} (h : pipes.Reach (s.setSlot i slot))
    (accepted : event.Relay → s.Attached i) (step : slotStep (some pipeCapacity) slot event = some slot') :
    pipes.Reach (s.setSlot i slot') := by
  have moved : networkStep (some pipeCapacity) (s.setSlot i slot) (.slot i event) = some (s.setSlot i slot') := by
    refine networkStep_slot.2 ⟨accepted, slot', by rwa [setSlot_self], ?_⟩
    simp [NetworkState.setSlot]
  exact reach_step h moved

/-- One more command. -/
theorem Posted.succ {n : Nat} (h : Posted n s) : ∃ s', Posted (n + 1) s' := by
  have first : s.Attached 0 := by
    rw [NetworkState.Attached, h.attached]
    decide
  obtain ⟨client, pressed, face, running⟩ := slotStep_key h.running (f := 0) h.face
  rw [h.socketIn, List.nil_append] at pressed
  have same : s.setSlot 0 (s.slots 0) = s := by simp [NetworkState.setSlot]
  have key := reach_slot (same ▸ h.reach) False.elim pressed
  have relayed := reach_slot key (fun _ => first) (slotStep_relayIn.2 ⟨_, _, rfl, by rw [h.pipeIn]; decide, rfl⟩)
  rw [h.pipeIn, List.nil_append] at relayed
  -- the listener applies the line, then posts
  obtain ⟨t, applied⟩ := (networkInv relayed).interpret_enabled (some pipeCapacity) (i := 0) (by rw [setSlot_self])
    (by simp [h.posting]) default
  have reach := reach_step relayed applied
  obtain ⟨line, lines, command, server, next, -, decoded, rfl⟩ := networkStep_interpret.1 applied
  obtain ⟨-, cube, -, rfl⟩ := serverStep_interpret.1 decoded
  rw [setSlot_self] at next
  cases next
  have posted := reach_step (e := .post 0) reach
    (serverMove_eq_some.2 ⟨_, serverStep_post.2 ⟨Finset.mem_insert_self _ _, rfl⟩, rfl⟩)
  exact ⟨_, {
    reach := posted
    attached := h.attached
    posting := by simp [h.posting]
    ready := by simp [h.ready]
    waiting := h.waiting
    history := by simp [h.history]
    face := by simpa using face
    running := by simpa using running
    socketIn := by simp
    pipeIn := by simp
    pipeOut := by
      intro i
      by_cases zero : i = 0
      · subst zero
        simp [h.pipeOut]
      · simp [setSlot_of_ne, zero, h.pipeOut] }⟩

theorem posted (n : Nat) : ∃ s, Posted n s := by
  induction n with
  | zero => exact posted_zero
  | succ n ih =>
    obtain ⟨s, h⟩ := ih
    exact h.succ

/-- The steps in between leave the commands, the posts and the clients alone. -/
structure Quiet (s s' : NetworkState) : Prop where
  attached : s'.attached = s.attached
  posting : s'.server.posting = s.server.posting
  ready : s'.server.broadcastMessageReady = s.server.broadcastMessageReady
  history : s'.server.history = s.server.history

/-- The broadcaster writes to all pipes where the line fits. -/
theorem sends {message : Snapshot} {rest : List FaceId} (distinct : rest.Nodup) {s : NetworkState}
    (reach : pipes.Reach s) (sending : s.server.broadcaster = .sending message rest)
    (fits : ∀ k ∈ rest, Fits (some pipeCapacity) (s.slots k).pipeOut message.text) :
    ∃ s', pipes.Reach s' ∧ s'.server.broadcaster = .sending message [] ∧ Quiet s s' ∧
      ∀ i, (s'.slots i).pipeOut = (s.slots i).pipeOut ++ if i ∈ rest then [message.text] else [] := by
  induction rest generalizing s with
  | nil => exact ⟨s, reach, sending, ⟨rfl, rfl, rfl, rfl⟩, by simp⟩
  | cons k rest ih =>
    obtain ⟨absent, distinct⟩ := List.nodup_cons.1 distinct
    have written := reach_step (e := .send) reach (networkStep_send.2 ⟨message, k, rest, sending,
      fits k List.mem_cons_self, _, serverStep_send.2 ⟨message, k, rest, sending, rfl⟩, rfl⟩)
    have others : ∀ j ∈ rest, j ≠ k := fun j mem same => absent (same ▸ mem)
    obtain ⟨s', reach', last, ⟨attached, posting, ready, history⟩, piped⟩ := ih distinct written rfl (by
      intro j mem
      rw [setSlot_of_ne _ (others j mem)]
      exact fits j (List.mem_cons_of_mem _ mem))
    refine ⟨s', reach', last, ⟨attached, posting, ready, history⟩, fun i => ?_⟩
    rw [piped i]
    by_cases same : i = k
    · subst same
      simp [absent]
    · simp [setSlot_of_ne, same]

/-- `n` commands are applied, `r` posts are left, and the pipes of the absent
clients hold `m` lines. -/
structure Flooded (n r m : Nat) (s : NetworkState) : Prop where
  reach : pipes.Reach s
  attached : s.attached = 1
  posting : s.server.posting = ∅
  ready : s.server.broadcastMessageReady = r
  waiting : s.server.broadcaster = .waiting
  history : s.server.history.length = n
  served : (s.slots 0).pipeOut = []
  absent : ∀ i, i ≠ 0 → (s.slots i).pipeOut.length = m

/-- The broadcaster takes a post and encodes the cube. -/
theorem wake_encode (reach : pipes.Reach s) (waiting : s.server.broadcaster = .waiting)
    (ready : s.server.broadcastMessageReady ≠ 0) : ∃ message s', pipes.Reach s' ∧
      s'.server.broadcaster = .sending message (List.finRange 6) ∧ message.text.length = lineBytes ∧
      s'.attached = s.attached ∧ s'.slots = s.slots ∧ s'.server.posting = s.server.posting ∧
      s'.server.broadcastMessageReady = s.server.broadcastMessageReady - 1 ∧
      s'.server.history = s.server.history := by
  have woken := reach_step (e := .wait) reach
    (serverMove_eq_some.2 ⟨_, serverStep_wait.2 ⟨waiting, ready, rfl⟩, rfl⟩)
  have encoded := reach_step (e := .encode fun _ => nul) woken
    (serverMove_eq_some.2 ⟨_, serverStep_encode.2 ⟨rfl, rfl⟩, rfl⟩)
  let message : Snapshot := ⟨encode s.server.globalCubeState fun _ => nul, s.server.history.length⟩
  have shows : message.Shows s.server.history :=
    (networkInv encoded).1.shows message (List.mem_append_right _ (List.mem_singleton_self _))
  obtain ⟨c, -, text⟩ := shows.text_eq
  exact ⟨message, _, encoded, rfl, by rw [text, cubeLine_length, lineBytes], rfl, rfl, rfl, rfl, rfl⟩

/-- One more broadcast, as long as the pipes take it. -/
theorem Flooded.succ {n r m : Nat} (h : Flooded n (r + 1) m s) (room : m ≤ 1190) : ∃ s', Flooded n r (m + 1) s' := by
  obtain ⟨message, t, reach, sending, text, attached, slots, posting, ready, history⟩ :=
    wake_encode h.reach h.waiting (by rw [h.ready]; omega)
  have fits : ∀ k ∈ List.finRange 6, Fits (some pipeCapacity) (t.slots k).pipeOut message.text := by
    intro k _ size size_eq
    cases size_eq
    rw [(networkInv reach).bytes_pipeOut, slots, text]
    by_cases zero : k = 0
    · subst zero
      rw [h.served]
      decide
    · rw [h.absent k zero, lineBytes, pipeCapacity]
      omega
  obtain ⟨u, reach, last, quiet, piped⟩ := sends (List.nodup_finRange 6) reach sending fits
  rw [slots] at piped
  have finished := reach_step (e := .finish) reach
    (serverMove_eq_some.2 ⟨_, serverStep_finish.2 ⟨⟨message, last⟩, rfl⟩, rfl⟩)
  have first : (u.slots 0).pipeOut = [message.text] := by simp [piped, h.served]
  have relayed := reach_step (e := .slot 0 .relayOut) finished (networkStep_slot.2
    ⟨fun _ => by simp [NetworkState.Attached, quiet.attached, attached, h.attached], _,
      slotStep_relayOut.2 ⟨_, _, first, rfl⟩, rfl⟩)
  refine ⟨_, relayed, ?_, ?_, ?_, rfl, ?_, by simp, ?_⟩
  · simp [quiet.attached, attached, h.attached]
  · simp [quiet.posting, posting, h.posting]
  · simp [quiet.ready, ready, h.ready]
  · simp [quiet.history, history, h.history]
  · intro i other
    simp [setSlot_of_ne, other, piped, h.absent]

/-- Up to 1191 broadcasts fit. -/
theorem flooded {n m : Nat} (enough : m ≤ n) (room : m ≤ 1191) : ∃ s, Flooded n (n - m) m s := by
  induction m with
  | zero =>
    obtain ⟨s, h⟩ := posted n
    exact ⟨s, h.reach, h.attached, h.posting, h.ready, h.waiting, h.history, h.pipeOut 0, fun i _ => by rw [h.pipeOut i]; rfl⟩
  | succ m ih =>
    obtain ⟨s, h⟩ := ih (by omega) (by omega)
    rw [show n - m = n - (m + 1) + 1 by omega] at h
    exact h.succ (by omega)

/-- The pipes of the absent clients are full. -/
theorem Flooded.not_hasRoom {n r : Nat} (h : Flooded n r 1191 s) {i : FaceId} (other : i ≠ 0) : ¬ HasRoom s i := by
  rintro (accepted | room)
  · rw [NetworkState.Attached, h.attached] at accepted
    exact other (Fin.ext (by omega))
  · rw [(networkInv h.reach).bytes_pipeOut, h.absent i other, lineBytes, pipeCapacity] at room
    omega

/-- **When an absent client cannot block the broadcaster.** With one to five clients
accepted: every reachable state with at most `N` commands applied leaves each slot
a reader or room for one more line, exactly when `N` is at most 1190. -/
theorem absent_slot_room_iff (N : Nat) :
    (∀ s, (network (some pipeCapacity)).Reach s → 1 ≤ s.attached → s.attached ≤ 5 → s.server.history.length ≤ N →
      ∀ i, HasRoom s i) ↔ N ≤ 1190 := by
  constructor
  · intro all
    by_contra many
    obtain ⟨s, h⟩ := flooded (n := 1191) le_rfl le_rfl
    have one := h.attached
    have few := h.history
    exact h.not_hasRoom (i := 5) (by decide) (all s h.reach (by omega) (by omega) (by omega) 5)
  · intro few s reach _ _ short
    exact (networkInv reach).hasRoom (short.trans few)

/-- One client and 1191 commands fill the pipe of slot 5. -/
theorem absent_slot_room_fails : ¬ ∀ s, (network (some pipeCapacity)).Reach s → 1 ≤ s.attached → s.attached ≤ 5 →
    ∀ i, HasRoom s i := by
  intro all
  obtain ⟨s, h⟩ := flooded (n := 1191) le_rfl le_rfl
  have one := h.attached
  exact h.not_hasRoom (i := 5) (by decide) (all s h.reach (by omega) (by omega) 5)

/-! ## The broadcaster stays blocked -/

/-- The broadcaster is to write to a pipe that has no reader and no room. -/
structure Blocked (message : Snapshot) (k : FaceId) (rest : List FaceId) (s : NetworkState) : Prop where
  sending : s.server.broadcaster = .sending message (k :: rest)
  absent : ¬ s.Attached k
  full : ¬ Fits (some pipeCapacity) (s.slots k).pipeOut message.text

/-- Only another client can free a blocked broadcaster. -/
theorem Blocked.step {message : Snapshot} {k : FaceId} {rest : List FaceId} (h : Blocked message k rest s)
    {event : NetworkEvent} (noAccept : event ≠ .accept) (step : networkStep (some pipeCapacity) s event = some s') :
    Blocked message k rest s' := by
  obtain ⟨sending, absent, full⟩ := h
  cases event with
  | accept => exact absurd rfl noAccept
  | slot i event =>
    obtain ⟨accepted, slot, moved, rfl⟩ := networkStep_slot.1 step
    refine ⟨sending, absent, ?_⟩
    by_cases same : k = i
    · subst same
      rw [setSlot_self]
      cases event with
      | client event =>
        obtain ⟨-, client, -, rfl⟩ := slotStep_client.1 moved
        exact full
      | relayIn | relayOut => exact absurd (accepted trivial) absent
      | receive =>
        obtain ⟨line, lines, client, -, -, rfl⟩ := slotStep_receive.1 moved
        exact full
    · rwa [setSlot_of_ne _ same]
  | interpret i draws =>
    obtain ⟨line, lines, command, server, next, -, applied, rfl⟩ := networkStep_interpret.1 step
    obtain ⟨-, cube, -, rfl⟩ := serverStep_interpret.1 applied
    refine ⟨sending, absent, ?_⟩
    by_cases same : k = i
    · subst same
      rw [setSlot_self]
      exact full
    · rwa [setSlot_of_ne _ same]
  | send =>
    obtain ⟨m, j, tail, sending', fits, -⟩ := networkStep_send.1 step
    cases sending.symm.trans sending'
    exact absurd fits full
  | post i =>
    obtain ⟨server, posted, rfl⟩ := serverMove_eq_some.1 step
    obtain ⟨-, rfl⟩ := serverStep_post.1 posted
    exact ⟨sending, absent, full⟩
  | wait =>
    obtain ⟨server, woken, rfl⟩ := serverMove_eq_some.1 step
    cases sending.symm.trans (serverStep_wait.1 woken).1
  | encode buffer =>
    obtain ⟨server, encoded, rfl⟩ := serverMove_eq_some.1 step
    cases sending.symm.trans (serverStep_encode.1 encoded).1
  | finish =>
    obtain ⟨server, finished, rfl⟩ := serverMove_eq_some.1 step
    obtain ⟨⟨m, sending'⟩, -⟩ := serverStep_finish.1 finished
    cases sending.symm.trans sending'

/-- In every run without another client the broadcaster stays blocked. -/
theorem Blocked.run {message : Snapshot} {k : FaceId} {rest : List FaceId} (h : Blocked message k rest s)
    {events : List NetworkEvent} (noAccept : NetworkEvent.accept ∉ events)
    (run : (network (some pipeCapacity)).run s events = some s') : Blocked message k rest s' := by
  induction events generalizing s with
  | nil =>
    cases run
    exact h
  | cons event events ih =>
    obtain ⟨mid, step, more⟩ := Option.bind_eq_some_iff.1 run
    rw [List.mem_cons, not_or] at noAccept
    obtain ⟨other, noAccept⟩ := noAccept
    exact ih (h.step (Ne.symm other) step) noAccept more

/-- **The broadcaster can be blocked for ever.** With one client accepted a state is
reachable in which it is to write to slot 1 and never does, unless another client
is accepted. -/
theorem broadcaster_wedged : ∃ s message rest, (network (some pipeCapacity)).Reach s ∧ s.attached = 1 ∧
    ∀ events s', NetworkEvent.accept ∉ events → (network (some pipeCapacity)).run s events = some s' →
      s'.server.broadcaster = .sending message (1 :: rest) := by
  obtain ⟨s, h⟩ := flooded (n := 1192) (m := 1191) (by decide) le_rfl
  obtain ⟨message, t, reach, sending, text, attached, slots, -⟩ := wake_encode h.reach h.waiting (by rw [h.ready]; decide)
  -- the line still fits into the pipe of the client there is
  have fits : Fits (some pipeCapacity) (t.slots 0).pipeOut message.text := by
    intro size size_eq
    cases size_eq
    rw [slots, h.served, text]
    decide
  have written := reach_step (e := .send) reach (networkStep_send.2 ⟨message, 0, [1, 2, 3, 4, 5], sending, fits, _,
    serverStep_send.2 ⟨message, 0, [1, 2, 3, 4, 5], sending, rfl⟩, rfl⟩)
  refine ⟨_, message, [2, 3, 4, 5], written, by simp [attached, h.attached], fun events s' noAccept run => ?_⟩
  refine (Blocked.run ⟨rfl, ?_, ?_⟩ noAccept run).sending
  · simp [NetworkState.Attached, attached, h.attached]
  · intro fits
    have room := fits pipeCapacity rfl
    rw [(networkInv written).bytes_pipeOut, text] at room
    simp [setSlot_of_ne, slots, h.absent, lineBytes, pipeCapacity] at room

end Rubiks
