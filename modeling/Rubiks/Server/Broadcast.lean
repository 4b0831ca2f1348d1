import Rubiks.Server.Command
import Rubiks.Logic.Transition
import Mathlib.Data.Finset.Card

/-!
# Commands and broadcasts, one critical section at a time

What the server's threads are for, with each critical section as one step: a
listener applies a command, then posts; the broadcaster waits for a post, encodes
the cube, then sends the message to each pipe. A post may be answered by a message
that already shows later commands, and every command is answered (`BroadcastInv`).
-/

namespace Rubiks

open Logic

/-- A command with the listener that applied it and the values its call of
`shuffle` met. -/
structure Entry (ι : Type) where
  client : ι
  command : Command
  draws : Draws

variable {ι : Type}

/-- The cube after a history of commands, from `make_cube()`. -/
def cubeAfter (history : List (Entry ι)) : Option Cube :=
  decodeAll makeCube (history.map fun e => (e.command.line, e.draws))

theorem cubeAfter_concat (history : List (Entry ι)) (e : Entry ι) :
    cubeAfter (history ++ [e]) = (cubeAfter history).bind fun c => decodeUserInput e.command.line c e.draws := by
  simp [cubeAfter, decodeAll, List.foldlM_append]

/-- Every history of commands leads to a reachable cube. -/
theorem cubeAfter_reachable (history : List (Entry ι)) : ∃ c, cubeAfter history = some c ∧ Reachable c := by
  induction history using List.reverseRecOn with
  | nil => exact ⟨makeCube, rfl, reachable_makeCube⟩
  | append_singleton history e ih =>
    obtain ⟨c, run, reach⟩ := ih
    obtain ⟨d, step, reach'⟩ := reach.command e.command e.draws
    exact ⟨d, by rw [cubeAfter_concat, run, Option.bind_some, step], reach'⟩

/-- The commands of one listener, in the order of the history. -/
def commandsOf [DecidableEq ι] (history : List (Entry ι)) (i : ι) : List Command :=
  (history.filter fun e => e.client = i).map Entry.command

theorem commandsOf_concat [DecidableEq ι] (history : List (Entry ι)) (e : Entry ι) (i : ι) :
    commandsOf (history ++ [e]) i = commandsOf history i ++ if e.client = i then [e.command] else [] := by
  by_cases own : e.client = i <;> simp [commandsOf, own]

/-- A broadcast. `version` is a history variable: how many commands it shows. -/
structure Snapshot where
  msg : Fin 56 → Char8
  version : Nat

/-- The cube after the first `n` commands of a history. -/
def CubeAt (history : List (Entry ι)) (n : Nat) (c : Cube) : Prop :=
  n ≤ history.length ∧ cubeAfter (history.take n) = some c

theorem CubeAt.append {history : List (Entry ι)} {n : Nat} {c : Cube} (h : CubeAt history n c)
    (later : List (Entry ι)) : CubeAt (history ++ later) n c := by
  obtain ⟨bound, run⟩ := h
  refine ⟨?_, ?_⟩
  · rw [List.length_append]
    omega
  · rw [List.take_append_of_le_length bound]
    exact run

theorem CubeAt.reachable {history : List (Entry ι)} {n : Nat} {c : Cube} (h : CubeAt history n c) : Reachable c := by
  obtain ⟨d, run, reach⟩ := cubeAfter_reachable (history.take n)
  rw [h.2] at run
  cases run
  exact reach

/-- The message is the cube after the first `version` commands. -/
def Snapshot.Shows (m : Snapshot) (history : List (Entry ι)) : Prop :=
  ∃ c, CubeAt history m.version c ∧ m.msg = encodedChar c

theorem Snapshot.Shows.append {m : Snapshot} {history : List (Entry ι)} (h : m.Shows history)
    (later : List (Entry ι)) : m.Shows (history ++ later) := by
  obtain ⟨c, version, msg⟩ := h
  exact ⟨c, version.append later, msg⟩

/-- Where `server_thread_wait_and_broadcast` is in its loop. -/
inductive Broadcaster where
  | waiting
  /-- `sem_wait` has returned, the cube is not encoded yet. -/
  | woken
  /-- The pipes `rest` are still to be sent the message. -/
  | sending (message : Snapshot) (rest : List FaceId)

/-- What is still to be sent to a pipe. -/
def Broadcaster.unsent (b : Broadcaster) (k : FaceId) : List Snapshot :=
  match b with
  | .sending message rest => if k ∈ rest then [message] else []
  | _ => []

/-- `1` when a post was taken and not answered yet. -/
def Broadcaster.answering : Broadcaster → Nat
  | .woken => 1
  | _ => 0

/-- The server between critical sections. `history`, `produced` and `sent` record
the commands applied, the messages encoded and what each pipe was sent. -/
structure ServerState (ι : Type) where
  globalCubeState : Cube
  broadcastMessageReady : Nat
  /-- The listeners between their unlock and their `sem_post`. -/
  posting : Finset ι
  broadcaster : Broadcaster
  history : List (Entry ι)
  produced : List Snapshot
  sent : FaceId → List Snapshot

def ServerState.start : ServerState ι where
  globalCubeState := makeCube
  broadcastMessageReady := 0
  posting := ∅
  broadcaster := .waiting
  history := []
  produced := []
  sent := fun _ => []

/-- What holds between the steps. `count`: every command that was applied is about
to be posted, counted by the semaphore, being answered or was answered. -/
structure BroadcastInv (s : ServerState ι) : Prop where
  cube : cubeAfter s.history = some s.globalCubeState
  count : s.history.length = s.posting.card + s.broadcastMessageReady +
    s.broadcaster.answering + s.produced.length
  shows : ∀ m ∈ s.produced, m.Shows s.history
  enough : ∀ k m, s.produced[k]? = some m → k + 1 ≤ m.version
  sorted : s.produced.Pairwise fun m m' => m.version ≤ m'.version
  distinct : ∀ m rest, s.broadcaster = .sending m rest → rest.Nodup
  sent : ∀ k, s.sent k ++ s.broadcaster.unsent k = s.produced

theorem BroadcastInv.start : BroadcastInv (ServerState.start : ServerState ι) where
  cube := rfl
  count := rfl
  shows := by simp [ServerState.start]
  enough := by simp [ServerState.start]
  sorted := .nil
  distinct := by simp [ServerState.start]
  sent _ := rfl

/-- A pipe was sent the first messages, in order. -/
theorem BroadcastInv.sent_prefix {s : ServerState ι} (h : BroadcastInv s) (k : FaceId) : s.sent k <+: s.produced :=
  ⟨_, h.sent k⟩

theorem BroadcastInv.cubeAt {s : ServerState ι} (h : BroadcastInv s) :
    CubeAt s.history s.history.length s.globalCubeState :=
  ⟨le_rfl, by rw [List.take_length, h.cube]⟩

/-- With nothing left to do, every command was broadcast and the last broadcast
shows them all. -/
theorem BroadcastInv.settled {s : ServerState ι} (h : BroadcastInv s) (posted : s.posting = ∅)
    (taken : s.broadcastMessageReady = 0) (waiting : s.broadcaster = .waiting) :
    s.produced.length = s.history.length ∧
      (∀ m, s.produced.getLast? = some m → m.version = s.history.length ∧ m.msg = encodedChar s.globalCubeState) ∧
      ∀ k, s.sent k = s.produced := by
  have count := h.count
  have sent := h.sent
  rw [posted, taken, waiting] at count
  rw [waiting] at sent
  have length : s.produced.length = s.history.length := by simpa [Broadcaster.answering] using count.symm
  refine ⟨length, fun m last => ?_, fun k => by simpa [Broadcaster.unsent] using sent k⟩
  have mem := List.mem_of_getLast? last
  obtain ⟨c, ⟨bound, run⟩, msg⟩ := h.shows m mem
  rw [List.getLast?_eq_getElem?] at last
  have enough := h.enough _ m last
  have some := List.length_pos_of_mem mem
  have all : m.version = s.history.length := by omega
  rw [all, List.take_length, h.cube] at run
  cases run
  exact ⟨all, msg⟩

inductive ServerEvent (ι : Type) where
  /-- The critical section of `interpret_command`. -/
  | interpret (e : Entry ι)
  | post (i : ι)
  | wait
  /-- The broadcaster's critical section; the buffer held anything before. -/
  | encode (buffer : Fin 56 → Char8)
  | send
  | finish

variable [DecidableEq ι]

def serverStep (s : ServerState ι) : ServerEvent ι → Option (ServerState ι)
  | .interpret e =>
    if e.client ∈ s.posting then none
    else do
      let cube ← decodeUserInput e.command.line s.globalCubeState e.draws
      some { s with
        globalCubeState := cube
        posting := insert e.client s.posting
        history := s.history ++ [e] }
  | .post i =>
    if i ∈ s.posting then
      some { s with posting := s.posting.erase i, broadcastMessageReady := s.broadcastMessageReady + 1 }
    else none
  | .wait =>
    match s.broadcaster with
    | .waiting =>
      if s.broadcastMessageReady = 0 then none
      else some { s with broadcaster := .woken, broadcastMessageReady := s.broadcastMessageReady - 1 }
    | _ => none
  | .encode buffer =>
    match s.broadcaster with
    | .woken =>
      let message : Snapshot := ⟨encode s.globalCubeState buffer, s.history.length⟩
      some { s with broadcaster := .sending message (List.finRange 6), produced := s.produced ++ [message] }
    | _ => none
  | .send =>
    match s.broadcaster with
    | .sending message (k :: rest) =>
      some { s with
        broadcaster := .sending message rest
        sent := Function.update s.sent k (s.sent k ++ [message]) }
    | _ => none
  | .finish =>
    match s.broadcaster with
    | .sending _ [] => some { s with broadcaster := .waiting }
    | _ => none

/-- The server's critical sections, posts, waits and sends in any order. -/
def broadcasts (ι : Type) [DecidableEq ι] : System (ServerState ι) (ServerEvent ι) where
  init s := s = .start
  step := serverStep

section Steps

variable {s s' : ServerState ι}

theorem serverStep_interpret {e : Entry ι} : serverStep s (.interpret e) = some s' ↔
    e.client ∉ s.posting ∧ ∃ cube, decodeUserInput e.command.line s.globalCubeState e.draws = some cube ∧
      s' = { s with
        globalCubeState := cube
        posting := insert e.client s.posting
        history := s.history ++ [e] } := by
  simp only [serverStep, Option.ite_none_left_eq_some, Option.bind_eq_bind, Option.bind_eq_some_iff,
    Option.some.injEq, eq_comm (a := s')]

theorem serverStep_post {i : ι} : serverStep s (.post i) = some s' ↔
    i ∈ s.posting ∧
      s' = { s with posting := s.posting.erase i, broadcastMessageReady := s.broadcastMessageReady + 1 } := by
  simp only [serverStep, Option.ite_none_right_eq_some, Option.some.injEq, eq_comm (a := s')]

theorem serverStep_wait : serverStep s .wait = some s' ↔
    s.broadcaster = .waiting ∧ s.broadcastMessageReady ≠ 0 ∧
      s' = { s with broadcaster := .woken, broadcastMessageReady := s.broadcastMessageReady - 1 } := by
  simp only [serverStep]
  cases s.broadcaster <;> simp [eq_comm]

theorem serverStep_encode {buffer : Fin 56 → Char8} : serverStep s (.encode buffer) = some s' ↔
    s.broadcaster = .woken ∧
      s' = { s with
        broadcaster := .sending ⟨encode s.globalCubeState buffer, s.history.length⟩ (List.finRange 6)
        produced := s.produced ++ [⟨encode s.globalCubeState buffer, s.history.length⟩] } := by
  simp only [serverStep]
  cases s.broadcaster <;> simp [eq_comm]

theorem serverStep_send : serverStep s .send = some s' ↔
    ∃ m k rest, s.broadcaster = .sending m (k :: rest) ∧
      s' = { s with broadcaster := .sending m rest, sent := Function.update s.sent k (s.sent k ++ [m]) } := by
  simp only [serverStep]
  rcases s.broadcaster with _ | _ | ⟨m, _ | ⟨k, rest⟩⟩ <;> simp [eq_comm]

theorem serverStep_finish : serverStep s .finish = some s' ↔
    (∃ m, s.broadcaster = .sending m []) ∧ s' = { s with broadcaster := .waiting } := by
  simp only [serverStep]
  rcases s.broadcaster with _ | _ | ⟨m, _ | ⟨k, rest⟩⟩ <;> simp [eq_comm]

/-- Only a command extends the history and only a send writes to a pipe. -/
theorem serverStep_quiet {event : ServerEvent ι} (step : serverStep s event = some s')
    (noInterpret : ∀ e, event ≠ .interpret e) (noSend : event ≠ .send) :
    s'.history = s.history ∧ s'.sent = s.sent := by
  cases event with
  | interpret e => exact absurd rfl (noInterpret e)
  | post i =>
    obtain ⟨-, rfl⟩ := serverStep_post.1 step
    exact ⟨rfl, rfl⟩
  | wait =>
    obtain ⟨-, -, rfl⟩ := serverStep_wait.1 step
    exact ⟨rfl, rfl⟩
  | encode buffer =>
    obtain ⟨-, rfl⟩ := serverStep_encode.1 step
    exact ⟨rfl, rfl⟩
  | send => exact absurd rfl noSend
  | finish =>
    obtain ⟨-, rfl⟩ := serverStep_finish.1 step
    exact ⟨rfl, rfl⟩

end Steps

/-- One step keeps the invariant. -/
theorem BroadcastInv.step {s s' : ServerState ι} {event : ServerEvent ι} (h : BroadcastInv s)
    (step : serverStep s event = some s') : BroadcastInv s' := by
  have count := h.count
  cases event with
  | interpret e =>
    obtain ⟨outside, cube, run, rfl⟩ := serverStep_interpret.1 step
    refine { h with cube := ?_, count := ?_, shows := fun m mem => (h.shows m mem).append [e] }
    · rw [cubeAfter_concat, h.cube, Option.bind_some, run]
    · rw [List.length_append, List.length_singleton, Finset.card_insert_of_notMem outside]
      dsimp only
      omega
  | post i =>
    obtain ⟨mem, rfl⟩ := serverStep_post.1 step
    refine { h with count := ?_ }
    have card := Finset.card_erase_add_one mem
    dsimp only
    omega
  | wait =>
    obtain ⟨waiting, posted, rfl⟩ := serverStep_wait.1 step
    have sent := h.sent
    rw [waiting] at count sent
    refine { h with count := ?_, distinct := ?_, sent := sent }
    · simp only [Broadcaster.answering] at count ⊢
      omega
    · rintro m rest ⟨⟩
  | encode buffer =>
    obtain ⟨woken, rfl⟩ := serverStep_encode.1 step
    have sent := h.sent
    rw [woken] at count sent
    refine { cube := h.cube, count := ?_, shows := ?_, enough := ?_, sorted := ?_, distinct := ?_, sent := ?_ }
    · rw [List.length_append, List.length_singleton]
      simp only [Broadcaster.answering] at count ⊢
      omega
    · intro m mem
      rcases List.mem_append.1 mem with mem | mem
      · exact h.shows m mem
      · rw [List.mem_singleton.1 mem]
        exact ⟨s.globalCubeState, h.cubeAt, encode_eq _ _⟩
    · intro k m found
      by_cases old : k < s.produced.length
      · rw [List.getElem?_append_left old] at found
        exact h.enough k m found
      · have bound := (List.getElem?_eq_some_iff.1 found).1
        rw [List.length_append, List.length_singleton] at bound
        obtain rfl : k = s.produced.length := by omega
        rw [List.getElem?_concat_length] at found
        cases found
        -- by `count`: the post being answered is one more command than there are messages
        simp only [Broadcaster.answering] at count
        show s.produced.length + 1 ≤ s.history.length
        omega
    · -- the new message shows the whole history, and none shows more
      refine List.pairwise_append.2 ⟨h.sorted, List.pairwise_singleton _ _, fun m mem m' mem' => ?_⟩
      obtain ⟨c, ⟨bound, -⟩, -⟩ := h.shows m mem
      rw [List.mem_singleton.1 mem']
      exact bound
    · rintro m rest ⟨⟩
      exact List.nodup_finRange 6
    · intro k
      have all : k ∈ List.finRange 6 := List.mem_finRange k
      have before : s.sent k = s.produced := by simpa [Broadcaster.unsent] using sent k
      simp only [Broadcaster.unsent, all, if_true, before]
  | send =>
    obtain ⟨m, k, rest, sending, rfl⟩ := serverStep_send.1 step
    have nodup := h.distinct m (k :: rest) sending
    have sent := h.sent
    rw [sending] at count sent
    refine { h with count := count, distinct := ?_, sent := ?_ }
    · rintro m' rest' ⟨⟩
      exact nodup.of_cons
    · intro j
      rw [← sent j]
      by_cases same : j = k
      · subst same
        simp [Broadcaster.unsent, (List.nodup_cons.1 nodup).1]
      · simp [Broadcaster.unsent, same]
  | finish =>
    obtain ⟨⟨m, sending⟩, rfl⟩ := serverStep_finish.1 step
    have sent := h.sent
    rw [sending] at count sent
    exact { h with count := count, distinct := by rintro m' rest ⟨⟩, sent := sent }

/-- The invariant holds in every run. -/
theorem broadcastInv {s : ServerState ι} (h : (broadcasts ι).Reach s) : BroadcastInv s :=
  h.invariant (fun _ start => start ▸ .start) fun _ _ _ inv step => inv.step step

end Rubiks
