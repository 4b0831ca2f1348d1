import Rubiks.Server.Replicas

/-!
# The clients converge

A key press makes bounded work: one line to the server, one broadcast to six pipes,
six drawings. Once no key is pressed, every schedule of the other threads ends
(`NetworkState.cost`), and where it ends the attached clients show the server's cube
and every line they wrote was applied, unless the broadcaster is blocked on the full
pipe of a slot that has no client. With six clients nothing can block it. A client that
is to draw a face out of range reads past its array; the runs are those in which none
has (`facedNetwork`).
-/

namespace Rubiks

open Logic

/-- `getch` returns in some client's key thread. -/
def NetworkEvent.IsKey : NetworkEvent → Prop
  | .slot _ (.client (.key _)) => True
  | _ => False

instance : (event : NetworkEvent) → Decidable event.IsKey
  | .slot _ (.client (.key _)) => isTrue trivial
  | .slot _ (.client (.line _)) | .slot _ (.client .wake) | .slot _ (.client .draw) | .slot _ .relayIn
  | .slot _ .relayOut | .slot _ .receive | .accept | .interpret _ _ | .post _ | .wait | .encode _ | .send
  | .finish => isFalse id

/-- The program goes on by itself: no key is pressed and no client connects. -/
def NetworkEvent.Quiet (event : NetworkEvent) : Prop := ¬ event.IsKey ∧ event ≠ .accept

/-! ## What a step costs -/

/-- Steps of the view thread until it waits with nothing posted. -/
def Client.cost (client : Client) : Nat := 2 * client.curses.updateViewSemaphore + client.woken.toNat

/-- Steps until the slot's channels are empty and their lines were answered. -/
def Slot.cost (slot : Slot) : Nat :=
  36 * slot.socketIn.length + 35 * slot.pipeIn.length + 4 * slot.pipeOut.length + 3 * slot.socketOut.length +
    slot.client.cost

/-- Steps until the broadcaster waits again and what it wrote was displayed. -/
def Broadcaster.cost : Broadcaster → Nat
  | .waiting => 0
  | .woken => 32
  | .sending _ rest => 5 * rest.length + 1

def ServerState.cost {ι : Type} (s : ServerState ι) : Nat :=
  34 * s.posting.card + 33 * s.broadcastMessageReady + s.broadcaster.cost

/-- Steps the whole system can still take without a key press. -/
def NetworkState.cost (s : NetworkState) : Nat := ∑ i, (s.slots i).cost + s.server.cost + (6 - s.attached)

/-- What an event adds. -/
def NetworkEvent.gain (event : NetworkEvent) : Nat := if event.IsKey then 37 else 0

variable {capacity : Option Nat} {s s' : NetworkState}

/-- A key posts once or sends one message. -/
theorem cursesKey_cost (c : CursesThread) (input : Int) :
    2 * (cursesKey c input).updateViewSemaphore + 36 * ((cursesKey c input).socket.drop c.socket.length).length ≤
      2 * c.updateViewSemaphore + 36 := by
  by_cases command : input = keyA ∨ input = keyD ∨ input = keySpace
  · rw [cursesKey, if_pos command]
    cases encodeUserInput input c.cubeFaceId c.msg with
    | mk status msg => by_cases failed : status ≠ 0 <;> simp [failed]
  · by_cases face : FaceKey input <;> simp [cursesKey, command, face]
    omega

/-- A step of a slot lowers its cost, but for what a key adds. -/
theorem slotStep_cost {slot slot' : Slot} {i : FaceId} {event : SlotEvent}
    (step : slotStep capacity slot event = some slot') :
    slot'.cost < slot.cost + (NetworkEvent.slot i event).gain := by
  cases event with
  | client event =>
    obtain ⟨noLine, client, moved, rfl⟩ := slotStep_client.1 step
    cases event with
    | key input =>
      obtain ⟨-, rfl⟩ := clientStep_key.1 moved
      have pressed := cursesKey_cost slot.client.curses input
      have gain : (NetworkEvent.slot i (.client (.key input))).gain = 37 := rfl
      simp only [Slot.cost, Client.cost, List.length_append]
      omega
    | line text => exact absurd rfl (noLine text)
    | wake =>
      obtain ⟨posted, rfl⟩ := clientStep_wake.1 moved
      simp only [not_or, Bool.not_eq_true] at posted
      simp only [Slot.cost, Client.cost, List.drop_length, List.append_nil, posted.1, Bool.toNat_true, Bool.toNat_false]
      omega
    | draw =>
      obtain ⟨woken, rfl⟩ := clientStep_draw.1 moved
      simp only [Slot.cost, Client.cost, List.drop_length, List.append_nil, woken, Bool.toNat_true, Bool.toNat_false]
      omega
  | relayIn =>
    obtain ⟨line, lines, waiting, -, rfl⟩ := slotStep_relayIn.1 step
    simp only [Slot.cost, waiting, List.length_cons, List.length_append, List.length_nil]
    omega
  | relayOut =>
    obtain ⟨line, lines, waiting, rfl⟩ := slotStep_relayOut.1 step
    simp only [Slot.cost, waiting, List.length_cons, List.length_append, List.length_nil]
    omega
  | receive =>
    obtain ⟨line, lines, client, waiting, decoded, rfl⟩ := slotStep_receive.1 step
    obtain ⟨cube, -, rfl⟩ := clientStep_line.1 decoded
    simp only [Slot.cost, Client.cost, waiting, List.length_cons]
    omega

/-- What a change to one slot does to the cost of all of them. -/
theorem setSlot_cost (s : NetworkState) {i : FaceId} {slot : Slot} {gained left : Nat}
    (own : slot.cost + left < (s.slots i).cost + gained) :
    ∑ j, ((s.setSlot i slot).slots j).cost + left < ∑ j, (s.slots j).cost + gained :=
  System.sum_lt i (fun j other => by rw [setSlot_of_ne s other]) (by rwa [setSlot_self])

/-- A step lowers the cost, but for what a key adds. -/
theorem networkStep_cost {event : NetworkEvent} (step : networkStep capacity s event = some s') :
    s'.cost < s.cost + event.gain := by
  cases event with
  | accept =>
    rw [networkStep, Option.ite_none_right_eq_some] at step
    obtain ⟨free, accepted⟩ := step
    cases accepted
    simp only [NetworkState.cost]
    omega
  | slot i event =>
    obtain ⟨-, slot, moved, rfl⟩ := networkStep_slot.1 step
    have own : slot.cost + 0 < (s.slots i).cost + (NetworkEvent.slot i event).gain := slotStep_cost moved
    have slots := setSlot_cost s own
    simp only [NetworkState.cost, setSlot_server, setSlot_attached]
    omega
  | interpret i draws =>
    obtain ⟨line, lines, command, server, next, -, applied, rfl⟩ := networkStep_interpret.1 step
    obtain ⟨outside, cube, -, rfl⟩ := serverStep_interpret.1 applied
    have card : (insert i s.server.posting).card = s.server.posting.card + 1 := Finset.card_insert_of_notMem outside
    have own : Slot.cost { s.slots i with pipeIn := lines } + 34 < (s.slots i).cost + 0 := by
      simp only [Slot.cost, next, List.length_cons]
      omega
    have slots := setSlot_cost s own
    simp only [NetworkState.cost, NetworkState.setSlot, ServerState.cost] at slots ⊢
    omega
  | post i =>
    obtain ⟨server, moved, rfl⟩ := serverMove_eq_some.1 step
    obtain ⟨mem, rfl⟩ := serverStep_post.1 moved
    have card := Finset.card_erase_add_one mem
    simp only [NetworkState.cost, ServerState.cost]
    omega
  | wait =>
    obtain ⟨server, moved, rfl⟩ := serverMove_eq_some.1 step
    obtain ⟨waiting, posted, rfl⟩ := serverStep_wait.1 moved
    simp only [NetworkState.cost, ServerState.cost, waiting, Broadcaster.cost]
    omega
  | encode buffer =>
    obtain ⟨server, moved, rfl⟩ := serverMove_eq_some.1 step
    obtain ⟨woken, rfl⟩ := serverStep_encode.1 moved
    simp only [NetworkState.cost, ServerState.cost, woken, Broadcaster.cost, List.length_finRange]
    omega
  | send =>
    obtain ⟨message, k, rest, sending, -, server, sent, rfl⟩ := networkStep_send.1 step
    obtain ⟨m, k', rest', sending', rfl⟩ := serverStep_send.1 sent
    cases sending.symm.trans sending'
    have own : Slot.cost { s.slots k with pipeOut := (s.slots k).pipeOut ++ [message.text] } + 0 <
        (s.slots k).cost + 5 := by
      simp only [Slot.cost, List.length_append, List.length_cons, List.length_nil]
      omega
    have slots := setSlot_cost s own
    simp only [NetworkState.cost, NetworkState.setSlot, ServerState.cost, sending, Broadcaster.cost,
      List.length_cons] at slots ⊢
    omega
  | finish =>
    obtain ⟨server, moved, rfl⟩ := serverMove_eq_some.1 step
    obtain ⟨⟨m, sending⟩, rfl⟩ := serverStep_finish.1 moved
    simp only [NetworkState.cost, ServerState.cost, sending, Broadcaster.cost, List.length_nil]
    omega

/-! ## Where no step is possible -/

/-- What is left when the program cannot go on by itself: the lines of a client that
is not accepted yet, and nothing else on the way in. -/
structure NetworkState.AtRest (s : NetworkState) : Prop where
  posted : s.server.posting = ∅
  pipeIn : ∀ i, (s.slots i).pipeIn = []
  socketIn : ∀ i, s.Attached i → (s.slots i).socketIn = []
  pipeOut : ∀ i, s.Attached i → (s.slots i).pipeOut = []
  socketOut : ∀ i, (s.slots i).socketOut = []
  drawn : ∀ i, (s.slots i).client.curses.updateViewSemaphore = 0 ∧ (s.slots i).client.woken = false

/-- The broadcaster is blocked on the full pipe of slot `k`. -/
def NetworkState.BlockedOn (s : NetworkState) (capacity : Option Nat) (k : FaceId) : Prop :=
  ∃ message rest, s.server.broadcaster = .sending message (k :: rest) ∧
    ¬ Fits capacity (s.slots k).pipeOut message.text

theorem not_quiet (stuck : (network capacity).Stuck NetworkEvent.Quiet s) {event : NetworkEvent}
    (step : networkStep capacity s event = some s') : ¬ event.Quiet :=
  stuck.never (e := event) step

theorem fits_nil {line : List Char8} (enough : ∀ n ∈ capacity, line.length ≤ n) : Fits capacity [] line := by
  intro n limit
  have room := enough n limit
  simpa [bytes] using room

/-- Nothing that a thread could do is left undone. -/
theorem NetworkInv.atRest (h : NetworkInv s) (enough : ∀ n ∈ capacity, 55 ≤ n)
    (stuck : (network capacity).Stuck NetworkEvent.Quiet s) : s.AtRest := by
  have posted : s.server.posting = ∅ := by
    apply Finset.eq_empty_of_forall_notMem
    intro i mem
    have step : networkStep capacity s (.post i) = some _ :=
      serverMove_eq_some.2 ⟨_, serverStep_post.2 ⟨mem, rfl⟩, rfl⟩
    exact not_quiet stuck step ⟨id, nofun⟩
  have pipeIn : ∀ i, (s.slots i).pipeIn = [] := by
    intro i
    cases waiting : (s.slots i).pipeIn with
    | nil => rfl
    | cons line lines =>
      obtain ⟨s', step⟩ := h.interpret_enabled capacity waiting (by simp [posted]) default
      exact absurd ⟨id, nofun⟩ (not_quiet stuck step)
  have client : ∀ i event client, (∀ text, event ≠ .line text) → (∀ input, event ≠ .key input) →
      clientStep (s.slots i).client event ≠ some client := by
    intro i event client noLine noKey step
    have moved : slotStep capacity (s.slots i) (.client event) = some _ :=
      slotStep_client.2 ⟨noLine, client, step, rfl⟩
    have quiet : (NetworkEvent.slot i (.client event)).Quiet := by
      cases event with
      | key input => exact absurd rfl (noKey input)
      | line text => exact absurd rfl (noLine text)
      | wake | draw => exact ⟨id, nofun⟩
    exact not_quiet stuck (networkStep_slot.2 ⟨False.elim, _, moved, rfl⟩) quiet
  have asleep : ∀ i, (s.slots i).client.woken = false := by
    intro i
    rw [← Bool.not_eq_true]
    intro woken
    exact client i .draw _ nofun nofun (clientStep_draw.2 ⟨woken, rfl⟩)
  refine ⟨posted, pipeIn, fun i attached => ?_, fun i attached => ?_, fun i => ?_, fun i => ⟨?_, asleep i⟩⟩
  · cases waiting : (s.slots i).socketIn with
    | nil => rfl
    | cons line lines =>
      have mem : line ∈ (s.slots i).pipeIn ++ (s.slots i).socketIn := by simp [waiting]
      obtain ⟨applied, all, -⟩ := (h.2 i).inbound
      obtain ⟨face, code, message⟩ := (h.2 i).wellFormed line (all ▸ List.mem_append_right _ mem)
      have fits : Fits capacity (s.slots i).pipeIn (fputs (lineBuffer line)) := by
        rw [(h.2 i).fputs_inbound mem, pipeIn i, message]
        exact fits_nil fun n limit => le_trans (by simp [messageLine]) (enough n limit)
      have step := slotStep_relayIn.2 ⟨line, lines, waiting, fits, rfl⟩
      exact absurd ⟨id, nofun⟩ (not_quiet stuck (networkStep_slot.2 ⟨fun _ => attached, _, step, rfl⟩))
  · cases waiting : (s.slots i).pipeOut with
    | nil => rfl
    | cons line lines =>
      have step : slotStep capacity (s.slots i) .relayOut = some _ := slotStep_relayOut.2 ⟨line, lines, waiting, rfl⟩
      exact absurd ⟨id, nofun⟩ (not_quiet stuck (networkStep_slot.2 ⟨fun _ => attached, _, step, rfl⟩))
  · cases waiting : (s.slots i).socketOut with
    | nil => rfl
    | cons line lines =>
      obtain ⟨s', step⟩ := h.receive_enabled capacity waiting
      exact absurd ⟨id, nofun⟩ (not_quiet stuck step)
  · by_contra posts
    have ready : ¬ ((s.slots i).client.woken ∨ (s.slots i).client.curses.updateViewSemaphore = 0) := by
      simp [asleep i, posts]
    exact client i .wake _ nofun nofun (clientStep_wake.2 ⟨ready, rfl⟩)

/-- The broadcaster waits with nothing posted, or is blocked on a slot without a client. -/
theorem NetworkInv.broadcaster_atRest (h : NetworkInv s) (enough : ∀ n ∈ capacity, 55 ≤ n)
    (stuck : (network capacity).Stuck NetworkEvent.Quiet s) :
    (s.server.broadcaster = .waiting ∧ s.server.broadcastMessageReady = 0) ∨
      ∃ k, ¬ s.Attached k ∧ s.BlockedOn capacity k := by
  have rest := h.atRest enough stuck
  cases point : s.server.broadcaster with
  | waiting =>
    refine .inl ⟨rfl, ?_⟩
    by_contra posts
    have step : networkStep capacity s .wait = some _ :=
      serverMove_eq_some.2 ⟨_, serverStep_wait.2 ⟨point, posts, rfl⟩, rfl⟩
    exact not_quiet stuck step ⟨id, nofun⟩
  | woken =>
    have step : networkStep capacity s (.encode fun _ => nul) = some _ :=
      serverMove_eq_some.2 ⟨_, serverStep_encode.2 ⟨point, rfl⟩, rfl⟩
    exact absurd ⟨id, nofun⟩ (not_quiet stuck step)
  | sending message pipes =>
    cases pipes with
    | nil =>
      have step : networkStep capacity s .finish = some _ :=
        serverMove_eq_some.2 ⟨_, serverStep_finish.2 ⟨⟨message, point⟩, rfl⟩, rfl⟩
      exact absurd ⟨id, nofun⟩ (not_quiet stuck step)
    | cons k pipes =>
      have full : ¬ Fits capacity (s.slots k).pipeOut message.text := by
        intro fits
        have sent := serverStep_send.2 ⟨message, k, pipes, point, rfl⟩
        exact not_quiet stuck (networkStep_send.2 ⟨message, k, pipes, point, fits, _, sent, rfl⟩) ⟨id, nofun⟩
      refine .inr ⟨k, fun attached => full ?_, message, pipes, point, full⟩
      -- the pipe of a client is empty by now, and one line always fits an empty pipe
      have mem : message ∈ s.server.produced := by
        rw [← h.1.sent k, point]
        simp [Broadcaster.unsent]
      obtain ⟨c, -, text⟩ := (h.1.shows message mem).text_eq
      rw [rest.pipeOut k attached, text]
      exact fits_nil fun n limit => (cubeLine_length c).trans_le (enough n limit)

/-- A client shows the server's cube where nothing is on its way and the broadcaster waits. -/
theorem NetworkInv.display_atRest (h : NetworkInv s) (rest : s.AtRest) (waiting : s.server.broadcaster = .waiting)
    (taken : s.server.broadcastMessageReady = 0) {i : FaceId} (attached : s.Attached i) :
    (s.slots i).client.cubeStateToDisplay.coloring = s.server.globalCubeState.coloring := by
  obtain ⟨c, version, displayed⟩ := (h.2 i).display
  have all : (s.slots i).shown (s.server.sent i) = s.server.history.length :=
    h.shown_settled rest.posted taken waiting (rest.pipeOut i attached) (rest.socketOut i)
  rw [all] at version
  have same : some c = some s.server.globalCubeState := version.2.symm.trans h.1.cubeAt.2
  rw [displayed, Option.some.inj same]

/-- With nothing on its way in, every line a client wrote was applied. -/
theorem NetworkInv.applied_atRest (h : NetworkInv s) (rest : s.AtRest) {i : FaceId} (attached : s.Attached i) :
    (commandsOf s.server.history i).map Command.line = (s.slots i).client.curses.socket.map lineBuffer := by
  obtain ⟨applied, all, commands⟩ := (h.2 i).inbound
  rw [rest.pipeIn i, rest.socketIn i attached, List.append_nil, List.append_nil] at all
  rw [← commands, all]

theorem sum_gain (events : List NetworkEvent) :
    (events.map NetworkEvent.gain).sum = 37 * events.countP (fun event => event.IsKey) := by
  induction events with
  | nil => rfl
  | cons event events ih =>
    by_cases key : event.IsKey
    · simp [NetworkEvent.gain, key, ih]
      omega
    · simp [NetworkEvent.gain, key, ih]

/-! ## Drawing a face out of range -/

/-- The step draws a face that the cube does not have. -/
def NetworkEvent.DrawsOutside (s : NetworkState) : NetworkEvent → Prop
  | .slot i (.client .draw) => ¬ FaceInRange (s.slots i).client.curses.cubeFaceId
  | _ => False

instance (s : NetworkState) : (event : NetworkEvent) → Decidable (event.DrawsOutside s)
  | .slot i (.client .draw) => inferInstanceAs (Decidable (¬ FaceInRange (s.slots i).client.curses.cubeFaceId))
  | .slot _ (.client (.key _)) | .slot _ (.client (.line _)) | .slot _ (.client .wake) | .slot _ .relayIn
  | .slot _ .relayOut | .slot _ .receive | .accept | .interpret _ _ | .post _ | .wait | .encode _ | .send
  | .finish => isFalse id

/-- The network, where drawing a face out of range is undefined. -/
def facedNetwork (capacity : Option Nat) : System NetworkState NetworkEvent where
  init := (network capacity).init
  step s event := if event.DrawsOutside s then none else networkStep capacity s event

theorem facedNetwork_step {event : NetworkEvent} : (facedNetwork capacity).step s event = some s' ↔
    ¬ event.DrawsOutside s ∧ networkStep capacity s event = some s' := Option.ite_none_left_eq_some

/-- Its runs are runs of the network. -/
theorem facedNetwork_run {events : List NetworkEvent} (run : (facedNetwork capacity).run s events = some s') :
    (network capacity).run s events = some s' :=
  System.run_of_step (fun _ _ _ step => (facedNetwork_step.1 step).2) run

theorem facedNetwork_reach (h : (facedNetwork capacity).Reach s) : (network capacity).Reach s := by
  induction h with
  | init start => exact .init start
  | step _ next ih => exact ih.step (facedNetwork_step.1 next).2

/-- Where it stops and no client is to draw a face out of range, the network stops. -/
theorem stuck_of_faced (stuck : (facedNetwork capacity).Stuck NetworkEvent.Quiet s)
    (faces : ∀ i, (s.slots i).client.woken = true → FaceInRange (s.slots i).client.curses.cubeFaceId) :
    (network capacity).Stuck NetworkEvent.Quiet s := by
  intro event quiet
  by_contra moves
  obtain ⟨s', step⟩ := Option.ne_none_iff_exists'.1 moves
  have moved : networkStep capacity s event = some s' := step
  refine stuck.never (facedNetwork_step.2 ⟨fun outside => ?_, moved⟩) quiet
  match event with
  | .slot i (.client .draw) =>
    obtain ⟨-, slot, taken, -⟩ := networkStep_slot.1 moved
    obtain ⟨-, client, drawn, -⟩ := slotStep_client.1 taken
    exact outside (faces i (clientStep_draw.1 drawn).1)

/-- Without keys and connections every schedule ends. -/
theorem facedNetwork_rests (h : (facedNetwork capacity).Reach s) : ∃ later s', (∀ event ∈ later, event.Quiet) ∧
    (facedNetwork capacity).run s later = some s' ∧ (facedNetwork capacity).Stuck NetworkEvent.Quiet s' := by
  have lowers : ∀ s e s', (facedNetwork capacity).Reach s → e.Quiet → (facedNetwork capacity).step s e = some s' →
      s'.cost < s.cost := by
    intro s e s' _ quiet step
    have less : s'.cost < s.cost + e.gain := networkStep_cost (facedNetwork_step.1 step).2
    rw [NetworkEvent.gain, if_neg quiet.1] at less
    exact less
  exact h.run_stuck NetworkEvent.Quiet lowers

/-- **The clients converge under every schedule.** With pipes that hold a broadcast, and
as long as no client draws a face out of range: a run with `n` key presses has at most
`37 n + 6` steps; without keys and connections every schedule ends. Where it ends and no
client is left to draw a face out of range, every line of an attached client was applied
and everything posted was drawn, and the attached clients show the server's cube, unless
the broadcaster is blocked on the full pipe of a slot without a client. -/
theorem network_converges {capacity : Option Nat} (enough : ∀ n ∈ capacity, 55 ≤ n) {cubeFaceId : FaceId → Int}
    {msg : FaceId → Fin 4 → Char8} {events : List NetworkEvent} {s : NetworkState}
    (run : (facedNetwork capacity).run (.start cubeFaceId msg) events = some s) :
    events.length ≤ 37 * events.countP (fun event => event.IsKey) + 6 ∧
    (∃ later s', (∀ event ∈ later, event.Quiet) ∧ (facedNetwork capacity).run s later = some s' ∧
      (facedNetwork capacity).Stuck NetworkEvent.Quiet s') ∧
    ((facedNetwork capacity).Stuck NetworkEvent.Quiet s →
      (∀ i, (s.slots i).client.woken = true → FaceInRange (s.slots i).client.curses.cubeFaceId) →
      (∀ i, s.Attached i → (commandsOf s.server.history i).map Command.line =
        (s.slots i).client.curses.socket.map lineBuffer) ∧
      (∀ i, (s.slots i).client.curses.updateViewSemaphore = 0 ∧ (s.slots i).client.woken = false) ∧
      ((∀ i, s.Attached i → (s.slots i).client.cubeStateToDisplay.coloring = s.server.globalCubeState.coloring) ∨
        ∃ k, ¬ s.Attached k ∧ s.BlockedOn capacity k)) := by
  have start : (facedNetwork capacity).Reach (.start cubeFaceId msg) := .init ⟨_, _, rfl⟩
  have lowers : ∀ s e s', (facedNetwork capacity).Reach s → True → (facedNetwork capacity).step s e = some s' →
      s'.cost + 1 ≤ s.cost + e.gain := fun s e s' _ _ step => networkStep_cost (facedNetwork_step.1 step).2
  have reach := start.run run
  refine ⟨?_, facedNetwork_rests reach, fun stuck faces => ?_⟩
  · have bound := start.run_length NetworkEvent.gain lowers (fun _ _ => trivial) run
    have whole : (NetworkState.start cubeFaceId msg).cost = 6 := by
      simp [NetworkState.cost, NetworkState.start, Slot.cost, Client.cost, makeClientThreadArgs, ServerState.cost,
        ServerState.start, Broadcaster.cost]
    rw [whole, sum_gain] at bound
    omega
  · have inv := networkInv (facedNetwork_reach reach)
    have stops := stuck_of_faced stuck faces
    have rest := inv.atRest enough stops
    refine ⟨fun i attached => inv.applied_atRest rest attached, rest.drawn, ?_⟩
    rcases inv.broadcaster_atRest enough stops with ⟨waiting, taken⟩ | blocked
    · exact .inl fun i attached => inv.display_atRest rest waiting taken attached
    · exact .inr blocked

/-- Client 0 has chosen a face and turned it; the other threads can bring the system to rest. -/
theorem network_converges_first_key :
    let events := [.slot 0 (.client (.key 50)), .accept, .slot 0 (.client (.key keyA)), .slot 0 .relayIn,
      .slot 0 (.client .wake), .slot 0 (.client .draw)]
    ∃ s, (facedNetwork (some 65536)).run (.start (fun _ => 7) fun _ _ => nul) events = some s ∧
      (s.slots 0).client.drawn = [2] ∧ events.length ≤ 37 * 2 + 6 ∧
      ∃ later s', (∀ event ∈ later, event.Quiet) ∧ (facedNetwork (some 65536)).run s later = some s' ∧
        (facedNetwork (some 65536)).Stuck NetworkEvent.Quiet s' := by
  intro events
  obtain ⟨s, run, drawn⟩ : ∃ s, (facedNetwork (some 65536)).run (.start (fun _ => 7) fun _ _ => nul) events = some s ∧
      (s.slots 0).client.drawn = [2] := ⟨_, rfl, rfl⟩
  obtain ⟨short, rests, -⟩ := network_converges (by simp) run
  exact ⟨s, run, drawn, short, rests⟩

end Rubiks
