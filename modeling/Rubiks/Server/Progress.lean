import Rubiks.Server.Threads
import Rubiks.Server.Capacity
import Mathlib.Algebra.Order.BigOperators.Group.Finset

/-!
# The server's threads come to rest (`rubiks_server.c`)

The threads of `Threads` with pipes of some capacity: the broadcaster's write blocks
while the line does not fit, and only the child of a slot with a client reads a pipe.
Each command costs its listener, the broadcaster and the readers a bounded number of
steps: a shuffle makes at most thirty turns, each turn stores six faces, each post is
answered by one message to six pipes. `cost` counts the steps still to come, and every
step lowers it. Where no thread can take a step, the listeners have nothing left to do;
the broadcaster has nothing left either, or it writes to a full pipe without a reader.
-/

namespace Rubiks

open Logic

/-- The threads, and how many messages have been read from each pipe to a client. -/
structure PipedState (ι : Type) where
  threads : ThreadState ι
  read : FaceId → Nat

variable {ι : Type}

/-- The messages in a pipe. -/
def PipedState.unread (s : PipedState ι) (k : FaceId) : List Snapshot := (s.threads.sent k).drop (s.read k)

/-- What the broadcaster is about to write, and to which pipe. -/
def BroadcasterPoint.next : BroadcasterPoint → Option (Snapshot × FaceId)
  | .sending message (k :: _) => some (message, k)
  | _ => none

/-- The next write of the broadcaster, if it is at one, does not block. -/
def PipedState.Writes (s : PipedState ι) (capacity : Option Nat) : Prop :=
  ∀ m ∈ s.threads.broadcaster.next, Fits capacity ((s.unread m.2).map Snapshot.text) m.1.text

instance (s : PipedState ι) (capacity : Option Nat) : Decidable (s.Writes capacity) :=
  inferInstanceAs (Decidable (∀ m ∈ s.threads.broadcaster.next, _))

inductive PipedEvent (ι : Type) where
  | thread (event : ThreadEvent ι)
  /-- The child of slot `k` reads a line. -/
  | read (k : FaceId)

def PipedState.start (lines : ι → List Command) : PipedState ι := ⟨.start lines, fun _ => 0⟩

/-- The slots in `readers` have a child that reads. -/
def pipedStep [DecidableEq ι] (capacity : Option Nat) (readers : Finset FaceId) (s : PipedState ι) :
    PipedEvent ι → Option (PipedState ι)
  | .thread (.listener i draws) => do
    let threads ← listenerStep s.threads i draws
    some { s with threads := threads }
  | .thread (.broadcaster buffer) =>
    if s.Writes capacity then do
      let threads ← broadcasterStep s.threads buffer
      some { s with threads := threads }
    else none
  | .read k =>
    if k ∈ readers ∧ s.unread k ≠ [] then some { s with read := Function.update s.read k (s.read k + 1) } else none

/-- The threads on the given commands with their pipes, in any interleaving. -/
def pipedThreads [DecidableEq ι] (lines : ι → List Command) (capacity : Option Nat) (readers : Finset FaceId) :
    System (PipedState ι) (PipedEvent ι) where
  init s := s = .start lines
  step := pipedStep capacity readers

/-! ## What a step costs -/

/-- Steps of the broadcaster until it waits again, and of the readers of what it sends. -/
def BroadcasterPoint.cost : BroadcasterPoint → Nat
  | .waiting => 0
  | .locking => 21
  | .encoding _ faces => faces.length + 14
  | .sending _ rest => 2 * rest.length + 1

/-- Steps until a listener reads its next line and its post is answered. -/
def ListenerPoint.cost : ListenerPoint → Nat
  | .outside => 0
  | .locking _ => 236
  | .decoding _ _ => 235
  | .storing stores moves => stores.length + 7 * moves.length + 24
  | .posting => 23

/-- Steps the line and the point of listener `i` still cost. -/
def ThreadState.listenerCost (s : ThreadState ι) (i : ι) : Nat := 237 * (s.lines i).length + (s.listener i).cost

/-- A listener with no steps to come has no line to come. -/
theorem listenerCost_eq_zero {t : ThreadState ι} {i : ι} (idle : t.listenerCost i = 0) :
    t.listener i = .outside ∧ t.lines i = [] := by
  rw [ThreadState.listenerCost, Nat.add_eq_zero_iff] at idle
  obtain ⟨lines, point⟩ := idle
  refine ⟨?_, List.length_eq_zero_iff.1 (by omega)⟩
  cases here : t.listener i with
  | outside => rfl
  | locking | decoding | storing | posting => simp [here, ListenerPoint.cost] at point

theorem waiting_of_cost {b : BroadcasterPoint} (idle : b.cost = 0) : b = .waiting := by
  cases b with
  | waiting => rfl
  | locking | encoding | sending => simp [BroadcasterPoint.cost] at idle

/-- Steps the threads still have before them, at most, and the readers of what they send. -/
def ThreadState.cost [Fintype ι] (s : ThreadState ι) : Nat :=
  ∑ i, s.listenerCost i + 22 * s.broadcastMessageReady + s.broadcaster.cost

/-- Steps still to come, at most. -/
def PipedState.cost [Fintype ι] (s : PipedState ι) : Nat := s.threads.cost + ∑ k, (s.unread k).length

/-- A command stores at most one cube or makes at most thirty turns. -/
theorem decodePlan_cost (command : Command) (c : Cube) (draws : Draws) :
    (decodePlan command c draws).1.length + 7 * (decodePlan command c draws).2.length ≤ 210 := by
  have depth := (defaultRange.depth_range draws).2
  have most : defaultRange.max = 30 := rfl
  rw [decodePlan]
  split
  · split
    · simp only [List.length_nil, Draws.moves, List.length_map, List.length_range]
      omega
    · simp [copyStores]
  · simp

section Cost

variable [Fintype ι] {s s' : ThreadState ι}

/-- A step of listener `i` changes no other listener's work. -/
theorem ThreadState.cost_lt (i : ι) (others : ∀ j, j ≠ i → s'.listenerCost j = s.listenerCost j)
    (broadcaster : s'.broadcaster = s.broadcaster)
    (own : s'.listenerCost i + 22 * s'.broadcastMessageReady < s.listenerCost i + 22 * s.broadcastMessageReady) :
    s'.cost < s.cost := by
  have listeners := System.sum_lt i others own
  unfold ThreadState.cost
  rw [broadcaster]
  omega

theorem listenerStep_cost [DecidableEq ι] {i : ι} {draws : Draws} (step : listenerStep s i draws = some s') :
    s'.cost < s.cost := by
  cases point : s.listener i with
  | outside =>
    simp only [listenerStep, point] at step
    cases unread : s.lines i with
    | nil =>
      rw [unread] at step
      cases step
    | cons command lines =>
      rw [unread] at step
      cases step
      refine ThreadState.cost_lt i (fun j other => by simp [ThreadState.listenerCost, other]) rfl ?_
      simp only [ThreadState.listenerCost, Function.update_self, unread, point, ListenerPoint.cost, List.length_cons]
      omega
  | locking command =>
    simp only [listenerStep, point, Option.ite_none_left_eq_some] at step
    obtain ⟨-, taken⟩ := step
    cases taken
    refine ThreadState.cost_lt i (fun j other => by simp [ThreadState.listenerCost, other]) rfl ?_
    simp [ThreadState.listenerCost, point, ListenerPoint.cost]
  | decoding command draws =>
    simp only [listenerStep, point] at step
    cases step
    have plan := decodePlan_cost command s.globalCubeState draws
    refine ThreadState.cost_lt i (fun j other => by simp [ThreadState.listenerCost, other]) rfl ?_
    simp only [ThreadState.listenerCost, Function.update_self, point, ListenerPoint.cost]
    omega
  | storing stores moves =>
    rcases stores with _ | ⟨w, stores⟩
    · rcases moves with _ | ⟨m, moves⟩
      · simp only [listenerStep, point] at step
        cases step
        refine ThreadState.cost_lt i (fun j other => by simp [ThreadState.listenerCost, other]) rfl ?_
        simp [ThreadState.listenerCost, point, ListenerPoint.cost]
      · simp only [listenerStep, point] at step
        obtain ⟨cubeCopy, -, copied⟩ := Option.bind_eq_some_iff.1 step
        cases copied
        refine ThreadState.cost_lt i (fun j other => by simp [ThreadState.listenerCost, other]) rfl ?_
        simp only [ThreadState.listenerCost, Function.update_self, point, ListenerPoint.cost, copyStores,
          List.length_map, List.length_finRange, List.length_nil, List.length_cons]
        omega
    · simp only [listenerStep, point] at step
      cases step
      refine ThreadState.cost_lt i (fun j other => by simp [ThreadState.listenerCost, other]) rfl ?_
      simp [ThreadState.listenerCost, point, ListenerPoint.cost]
  | posting =>
    simp only [listenerStep, point] at step
    cases step
    refine ThreadState.cost_lt i (fun j other => by simp [ThreadState.listenerCost, other]) rfl ?_
    simp only [ThreadState.listenerCost, Function.update_self, point, ListenerPoint.cost]
    omega

omit [Fintype ι] in
/-- A listener sends nothing. -/
theorem listenerStep_sent [DecidableEq ι] {i : ι} {draws : Draws} (step : listenerStep s i draws = some s') :
    s'.sent = s.sent := by
  rcases point : s.listener i with _ | command | ⟨command, draws'⟩ | ⟨_ | ⟨w, stores⟩, _ | ⟨m, moves⟩⟩ | _ <;>
    simp only [listenerStep, point, Option.ite_none_left_eq_some] at step
  case outside =>
    cases unread : s.lines i <;> rw [unread] at step <;> cases step
    rfl
  case locking =>
    cases step.2
    rfl
  case storing.nil.cons =>
    obtain ⟨cubeCopy, -, copied⟩ := Option.bind_eq_some_iff.1 step
    cases copied
    rfl
  all_goals
    cases step
    rfl

/-- The broadcaster sends nothing or one message, which costs a reader one step more. -/
theorem broadcasterStep_cost {buffer : Fin 56 → Char8} (step : broadcasterStep s buffer = some s') :
    (s'.sent = s.sent ∧ s'.cost < s.cost) ∨
      ∃ k m, s'.sent = Function.update s.sent k (s.sent k ++ [m]) ∧ s'.cost + 1 < s.cost := by
  rcases here : s.broadcaster with _ | _ | ⟨msg, _ | ⟨i, faces⟩⟩ | ⟨message, _ | ⟨k, rest⟩⟩ <;>
    simp only [broadcasterStep, here, Option.ite_none_left_eq_some, Option.some.injEq] at step
  case waiting =>
    obtain ⟨posted, rfl⟩ := step
    refine .inl ⟨rfl, ?_⟩
    simp only [ThreadState.cost, ThreadState.listenerCost, here, BroadcasterPoint.cost]
    omega
  case locking =>
    rw [← step.2]
    exact .inl ⟨rfl, by simp [ThreadState.cost, ThreadState.listenerCost, here, BroadcasterPoint.cost]⟩
  case sending.cons =>
    rw [← step]
    refine .inr ⟨k, message, rfl, ?_⟩
    simp only [ThreadState.cost, ThreadState.listenerCost, here, BroadcasterPoint.cost, List.length_cons]
    omega
  all_goals
    rw [← step]
    exact .inl ⟨rfl, by simp [ThreadState.cost, ThreadState.listenerCost, here, BroadcasterPoint.cost]⟩

/-- A message sent is one more to be read, if the reader is not ahead. -/
theorem sum_unread_send (sent : FaceId → List Snapshot) (read : FaceId → Nat) (k : FaceId) (m : Snapshot) :
    ∑ j, ((Function.update sent k (sent k ++ [m]) j).drop (read j)).length ≤ ∑ j, ((sent j).drop (read j)).length + 1 := by
  have one : ∑ j : FaceId, (if j = k then 1 else 0) = 1 := by simp
  rw [← one, ← Finset.sum_add_distrib]
  refine Finset.sum_le_sum fun j _ => ?_
  by_cases own : j = k
  · subst own
    simp only [Function.update_self, List.length_drop, List.length_append, List.length_singleton, if_true]
    omega
  · simp [own]

/-- Every step lowers the cost. -/
theorem pipedStep_cost [DecidableEq ι] {capacity : Option Nat} {readers : Finset FaceId} {s s' : PipedState ι}
    {event : PipedEvent ι} (step : pipedStep capacity readers s event = some s') : s'.cost < s.cost := by
  match event with
  | .thread (.listener i draws) =>
    obtain ⟨threads, moved, after⟩ := Option.bind_eq_some_iff.1 step
    cases after
    have less := listenerStep_cost moved
    have sent := listenerStep_sent moved
    simp only [PipedState.cost, PipedState.unread, sent]
    omega
  | .thread (.broadcaster buffer) =>
    simp only [pipedStep, Option.ite_none_right_eq_some] at step
    obtain ⟨threads, moved, after⟩ := Option.bind_eq_some_iff.1 step.2
    cases after
    rcases broadcasterStep_cost moved with ⟨sent, less⟩ | ⟨k, m, sent, less⟩
    · simp only [PipedState.cost, PipedState.unread, sent]
      omega
    · have more := sum_unread_send s.threads.sent s.read k m
      simp only [PipedState.cost, PipedState.unread, sent]
      omega
  | .read k =>
    simp only [pipedStep, Option.ite_none_right_eq_some, Option.some.injEq] at step
    obtain ⟨⟨-, some⟩, rfl⟩ := step
    have length := List.length_pos_iff.2 some
    have fewer : ∑ j, ((s.threads.sent j).drop (Function.update s.read k (s.read k + 1) j)).length + 0 <
        ∑ j, (s.unread j).length + 0 := by
      refine System.sum_lt k (fun j other => by simp [PipedState.unread, other]) ?_
      simp only [PipedState.unread, List.length_drop, Function.update_self] at length ⊢
      omega
    simp only [PipedState.cost, PipedState.unread] at fewer ⊢
    omega

end Cost

/-! ## A thread can go on while there is work -/

/-- While it encodes, the broadcaster goes on. -/
theorem reader_steps {s : ThreadState ι} (reading : s.broadcaster.Inside) :
    s.broadcaster.next = none ∧ ∃ s', broadcasterStep s (fun _ => nul) = some s' := by
  rcases here : s.broadcaster with _ | _ | ⟨msg, _ | ⟨i, faces⟩⟩ | ⟨message, rest⟩
  case encoding.nil | encoding.cons => exact ⟨rfl, _, by simp only [broadcasterStep, here]; rfl⟩
  all_goals
    rw [here] at reading
    exact reading.elim

/-- While the mutex is free, the broadcaster goes on or waits for a post, but for its writes. -/
theorem broadcaster_steps {s : ThreadState ι} (free : s.globalCubeStateLock = none) :
    (s.broadcaster = .waiting ∧ s.broadcastMessageReady = 0) ∨
      ∃ s', broadcasterStep s (fun _ => nul) = some s' := by
  rcases here : s.broadcaster with _ | _ | ⟨msg, _ | ⟨i, faces⟩⟩ | ⟨message, _ | ⟨k, rest⟩⟩
  case waiting =>
    by_cases taken : s.broadcastMessageReady = 0
    · exact .inl ⟨rfl, taken⟩
    · exact .inr ⟨_, by simp only [broadcasterStep, here, if_neg taken]; rfl⟩
  case locking =>
    have unlocked : ¬ s.globalCubeStateLock.isSome := by simp [free]
    exact .inr ⟨_, by simp only [broadcasterStep, here, if_neg unlocked]; rfl⟩
  all_goals exact .inr ⟨_, by simp only [broadcasterStep, here]; rfl⟩

section Steps

variable [DecidableEq ι] {s : ThreadState ι}

/-- A listener that holds the mutex is never stopped. -/
theorem Simulates.holder_steps {a : ServerState ι} (h : Simulates s a) {i : ι}
    (locked : s.globalCubeStateLock = some (.listener i)) : ∃ s', Rubiks.listenerStep s i default = some s' := by
  have inside := (h.owner i).2 locked
  obtain ⟨e, -, -, c, -, finishes⟩ := h.busy i locked
  cases point : s.listener i with
  | outside | locking | posting =>
    rw [point] at inside
    exact inside.elim
  | decoding command draws => exact ⟨_, by simp only [Rubiks.listenerStep, point]; rfl⟩
  | storing stores moves =>
    rcases stores with _ | ⟨w, stores⟩
    · rcases moves with _ | ⟨m, moves⟩
      · exact ⟨_, by simp only [Rubiks.listenerStep, point]; rfl⟩
      · -- the turn is defined, since the whole plan is
        rw [point] at finishes
        change (rotate s.globalCubeState (m.face : Nat) m.direction).bind _ = some c at finishes
        obtain ⟨cubeCopy, turned, -⟩ := Option.bind_eq_some_iff.1 finishes
        exact ⟨_, by simp only [Rubiks.listenerStep, point, turned]; rfl⟩
    · exact ⟨_, by simp only [Rubiks.listenerStep, point]; rfl⟩

/-- A listener with something to do goes on while the mutex is free. -/
theorem Simulates.free_steps {a : ServerState ι} (h : Simulates s a) (free : s.globalCubeStateLock = none) (i : ι) :
    (s.listener i = .outside ∧ s.lines i = []) ∨ ∃ s', Rubiks.listenerStep s i default = some s' := by
  cases point : s.listener i with
  | outside =>
    cases unread : s.lines i with
    | nil => exact .inl ⟨rfl, rfl⟩
    | cons command lines => exact .inr ⟨_, by simp only [Rubiks.listenerStep, point, unread]; rfl⟩
  | locking command =>
    have unlocked : ¬ s.globalCubeStateLock.isSome := by simp [free]
    exact .inr ⟨_, by simp only [Rubiks.listenerStep, point, if_neg unlocked]; rfl⟩
  | decoding | storing =>
    have inside : (s.listener i).Inside := by rw [point]; trivial
    rw [h.owner i, free] at inside
    cases inside
  | posting => exact .inr ⟨_, by simp only [Rubiks.listenerStep, point]; rfl⟩

end Steps

variable [DecidableEq ι] {lines : ι → List Command} {capacity : Option Nat} {readers : Finset FaceId} {s : PipedState ι}

/-- The threads with their pipes run as they do without. -/
theorem pipedThreads_threads (lines : ι → List Command) (capacity : Option Nat) (readers : Finset FaceId) :
    System.Simulation (pipedThreads lines capacity readers) (threads lines) fun s t => s.threads = t where
  init s start := ⟨.start lines, rfl, congrArg PipedState.threads start⟩
  step s t event s' _ same step := by
    subst same
    match event with
    | .thread (.listener i draws) =>
      obtain ⟨threads, moved, after⟩ := Option.bind_eq_some_iff.1 step
      cases after
      exact .inr ⟨.listener i draws, threads, moved, rfl⟩
    | .thread (.broadcaster buffer) =>
      simp only [pipedThreads, pipedStep, Option.ite_none_right_eq_some] at step
      obtain ⟨threads, moved, after⟩ := Option.bind_eq_some_iff.1 step.2
      cases after
      exact .inr ⟨.broadcaster buffer, threads, moved, rfl⟩
    | .read k =>
      simp only [pipedThreads, pipedStep, Option.ite_none_right_eq_some, Option.some.injEq] at step
      obtain ⟨-, rfl⟩ := step
      exact .inl rfl

theorem pipedThreads_reach (h : (pipedThreads lines capacity readers).Reach s) : (threads lines).Reach s.threads := by
  obtain ⟨t, reach, rfl⟩ := (pipedThreads_threads lines capacity readers).reach h
  exact reach

/-- Nothing is read before it is sent. -/
theorem read_le_sent [Fintype ι] (h : (pipedThreads lines capacity readers).Reach s) (k : FaceId) :
    s.read k ≤ (s.threads.sent k).length := by
  induction h with
  | init start =>
    cases start
    exact le_rfl
  | @step s s' event _ step ih =>
    match event with
    | .thread (.listener i draws) =>
      obtain ⟨threads, moved, after⟩ := Option.bind_eq_some_iff.1 step
      cases after
      rw [listenerStep_sent moved]
      exact ih
    | .thread (.broadcaster buffer) =>
      simp only [pipedThreads, pipedStep, Option.ite_none_right_eq_some] at step
      obtain ⟨threads, moved, after⟩ := Option.bind_eq_some_iff.1 step.2
      cases after
      refine ih.trans ?_
      rcases broadcasterStep_cost moved with ⟨sent, -⟩ | ⟨j, m, sent, -⟩ <;> rw [sent]
      by_cases own : k = j
      · subst own
        simp
      · simp [own]
    | .read j =>
      simp only [pipedThreads, pipedStep, Option.ite_none_right_eq_some, Option.some.injEq] at step
      obtain ⟨⟨-, some⟩, rfl⟩ := step
      have length := List.length_pos_iff.2 some
      by_cases own : k = j
      · subst own
        simp only [PipedState.unread, List.length_drop] at length
        simp only [Function.update_self]
        omega
      · simp only [Function.update_of_ne own]
        exact ih

/-- Every message of a reachable state takes a line of a pipe. -/
theorem text_length {m : Snapshot} {t : ThreadState ι} (h : (threads lines).Reach t) (mem : m ∈ t.produced) :
    m.text.length = lineBytes := by
  obtain ⟨a, reach, related⟩ := (threads_simulate lines).reach h
  obtain ⟨c, -, text⟩ := ((broadcastInv reach).shows m (related.produced ▸ mem)).text_eq
  rw [text, cubeLine_length, lineBytes]

/-- The message the broadcaster is writing to pipe `k` is the next one after those sent to it. -/
theorem produced_eq_sent {t : ThreadState ι} (h : (threads lines).Reach t) {message : Snapshot} {k : FaceId}
    {rest : List FaceId} (sending : t.broadcaster = .sending message (k :: rest)) :
    t.produced = t.sent k ++ [message] := by
  obtain ⟨a, reach, related⟩ := (threads_simulate lines).reach h
  have sent := (broadcastInv reach).sent k
  rw [related.broadcaster, sending, related.sent, related.produced] at sent
  simpa [BroadcasterPoint.abstract, Broadcaster.unsent] using sent.symm

/-- What the messages in a pipe take. -/
theorem bytes_unread (h : (pipedThreads lines capacity readers).Reach s) {k : FaceId}
    (sent : ∀ m ∈ s.threads.sent k, m ∈ s.threads.produced) :
    bytes ((s.unread k).map Snapshot.text) = (s.unread k).length * lineBytes := by
  rw [bytes_eq, List.length_map]
  simp only [List.forall_mem_map]
  exact fun m mem => text_length (pipedThreads_reach h) (sent m (List.mem_of_mem_drop mem))

/-- The listeners are in `getline` with no line to come and the readers have read what
was sent; the broadcaster waits for a post that no one owes, or writes to a pipe that
has no reader and no room. -/
structure PipedState.AtRest (s : PipedState ι) (capacity : Option Nat) (readers : Finset FaceId) : Prop where
  listener : ∀ i, s.threads.listener i = .outside
  lines : ∀ i, s.threads.lines i = []
  unread : ∀ k ∈ readers, s.unread k = []
  broadcaster : (s.threads.broadcaster = .waiting ∧ s.threads.broadcastMessageReady = 0) ∨
    ∃ message k rest, s.threads.broadcaster = .sending message (k :: rest) ∧ k ∉ readers ∧
      ¬ Fits capacity ((s.unread k).map Snapshot.text) message.text

theorem next_eq_some {b : BroadcasterPoint} {m : Snapshot × FaceId} (next : b.next = some m) :
    ∃ rest, b = .sending m.1 (m.2 :: rest) := by
  rcases b with _ | _ | _ | ⟨message, _ | ⟨k, rest⟩⟩ <;> cases next
  exact ⟨rest, rfl⟩

/-- **No deadlock.** Threads and readers that are not at rest can take a step. -/
theorem pipedThreads_step (enough : ∀ n ∈ capacity, lineBytes ≤ n) (h : (pipedThreads lines capacity readers).Reach s) :
    s.AtRest capacity readers ∨ ∃ event s', (pipedThreads lines capacity readers).step s event = some s' := by
  by_cases drained : ∀ k ∈ readers, s.unread k = []
  · have reach := pipedThreads_reach h
    obtain ⟨a, -, related⟩ := (threads_simulate lines).reach reach
    have listens : ∀ {i t}, listenerStep s.threads i default = some t →
        ∃ event s', (pipedThreads lines capacity readers).step s event = some s' := fun {i t} moved =>
      ⟨.thread (.listener i default), { s with threads := t }, Option.bind_eq_some_iff.2 ⟨t, moved, rfl⟩⟩
    have broadcasts : ∀ {t}, s.Writes capacity → broadcasterStep s.threads (fun _ => nul) = some t →
        ∃ event s', (pipedThreads lines capacity readers).step s event = some s' := fun {t} writes moved =>
      ⟨.thread (.broadcaster fun _ => nul), { s with threads := t },
        (if_pos writes).trans (Option.bind_eq_some_iff.2 ⟨t, moved, rfl⟩)⟩
    cases lock : s.threads.globalCubeStateLock with
    | none =>
      by_cases idle : ∀ i, s.threads.listener i = .outside ∧ s.threads.lines i = []
      · rcases broadcaster_steps lock with waits | ⟨t, moved⟩
        · exact .inl ⟨fun i => (idle i).1, fun i => (idle i).2, drained, .inl waits⟩
        · by_cases writes : s.Writes capacity
          · exact .inr (broadcasts writes moved)
          · -- the line would fit into a pipe that was read to its end
            simp only [PipedState.Writes, not_forall] at writes
            obtain ⟨⟨message, k⟩, next, full⟩ := writes
            obtain ⟨rest, sending⟩ := next_eq_some next
            refine .inl ⟨fun i => (idle i).1, fun i => (idle i).2, drained,
              .inr ⟨message, k, rest, sending, fun reader => full ?_, full⟩⟩
            have produced := produced_eq_sent reach sending
            intro n limit
            rw [drained k reader, text_length reach (produced ▸ List.mem_append_right _ (List.mem_singleton_self _))]
            simpa [bytes] using enough n limit
      · obtain ⟨i, work⟩ := not_forall.1 idle
        obtain ⟨t, moved⟩ := (related.free_steps lock i).resolve_left work
        exact .inr (listens moved)
    | some owner =>
      cases owner with
      | listener i =>
        obtain ⟨t, moved⟩ := related.holder_steps lock
        exact .inr (listens moved)
      | broadcaster =>
        obtain ⟨next, t, moved⟩ := reader_steps (related.reader.2 lock)
        exact .inr (broadcasts (by simp [PipedState.Writes, next]) moved)
  · simp only [not_forall] at drained
    obtain ⟨k, reader, some⟩ := drained
    exact .inr ⟨.read k, _, if_pos ⟨reader, some⟩⟩

/-- At rest nothing moves. -/
theorem PipedState.AtRest.stuck (h : s.AtRest capacity readers) (event : PipedEvent ι) :
    (pipedThreads lines capacity readers).step s event = none := by
  match event with
  | .thread (.listener i draws) =>
    have idle : listenerStep s.threads i draws = none := by simp only [listenerStep, h.listener i, h.lines i]
    simp only [pipedThreads, pipedStep, idle, Option.bind_eq_bind, Option.bind_none]
  | .thread (.broadcaster buffer) =>
    rcases h.broadcaster with ⟨waiting, taken⟩ | ⟨message, k, rest, sending, -, full⟩
    · have waits : broadcasterStep s.threads buffer = none := by simp only [broadcasterStep, waiting, taken, if_true]
      simp only [pipedThreads, pipedStep, waits, Option.bind_eq_bind, Option.bind_none, ite_self]
    · refine if_neg fun writes => full (writes (message, k) ?_)
      rw [sending]
      rfl
  | .read k =>
    refine if_neg ?_
    rintro ⟨reader, some⟩
    exact some (h.unread k reader)

/-! ## All the work is done -/

/-- Each command of a history is some listener's. -/
theorem length_history [Fintype ι] (history : List (Entry ι)) :
    history.length = ∑ i, (commandsOf history i).length := by
  induction history using List.reverseRecOn with
  | nil => simp [commandsOf]
  | append_singleton history e ih =>
    have own : ∑ i, (if e.client = i then [e.command] else []).length = 1 := by
      simp [apply_ite List.length]
    simp only [commandsOf_concat, List.length_append, Finset.sum_add_distrib, own, ← ih, List.length_singleton]

/-- At rest every command was applied, in the order of its listener. -/
theorem PipedState.AtRest.applied (rest : s.AtRest capacity readers) (h : (Rubiks.threads lines).Reach s.threads) :
    (∀ i, commandsOf s.threads.locked i = lines i) ∧
      ∃ a, BroadcastInv a ∧ Simulates s.threads a ∧ a.posting = ∅ ∧ a.globalCubeState = s.threads.globalCubeState ∧
        a.history = s.threads.locked := by
  obtain ⟨a, reach, related⟩ := (threads_simulate lines).reach h
  have free : ∀ i, s.threads.globalCubeStateLock ≠ some (.listener i) := by
    intro i locked
    have inside := (related.owner i).2 locked
    rw [rest.listener i] at inside
    exact inside
  obtain ⟨cube, history⟩ := related.idle free
  refine ⟨fun i => ?_, a, broadcastInv reach, related, ?_, cube, history⟩
  · rw [← threads_commands h i, ThreadState.commands, rest.listener i, rest.lines i]
    simp [ListenerPoint.inHand]
  · apply Finset.eq_empty_of_forall_notMem
    intro i mem
    have point := (related.posting i).1 mem
    rw [rest.listener i] at point
    cases point

/-- What the threads have done once they wait: one broadcast for each command, the last
one with the cube, all of them to every pipe and read by every reader. -/
theorem PipedState.AtRest.broadcast [Fintype ι] (rest : s.AtRest capacity readers)
    (h : (pipedThreads lines capacity readers).Reach s) (waiting : s.threads.broadcaster = .waiting) :
    s.threads.produced.length = ∑ i, (lines i).length ∧
      (∀ m, s.threads.produced.getLast? = some m → ∀ buffer, m.msg = encode s.threads.globalCubeState buffer) ∧
      (∀ k, s.threads.sent k = s.threads.produced) ∧ ∀ k ∈ readers, s.read k = s.threads.produced.length := by
  obtain ⟨taken, a, inv, related, posted, cube, history⟩ := rest.applied (pipedThreads_reach h)
  have ready : s.threads.broadcastMessageReady = 0 := by
    rcases rest.broadcaster with ⟨-, ready⟩ | ⟨message, k, others, sending, -⟩
    · exact ready
    · cases waiting.symm.trans sending
  obtain ⟨length, last, sent⟩ := inv.settled posted (related.ready.trans ready)
    (by rw [related.broadcaster, waiting]; rfl)
  rw [related.produced] at length last sent
  rw [related.sent] at sent
  rw [history, length_history] at length
  refine ⟨?_, fun m mem buffer => ?_, sent, fun k reader => ?_⟩
  · rw [length]
    exact Finset.sum_congr rfl fun i _ => by rw [taken i]
  · rw [(last m mem).2, encode_eq, cube]
  · have ahead := read_le_sent h k
    have drained := List.drop_eq_nil_iff.1 (rest.unread k reader)
    rw [sent k] at ahead drained
    omega

/-- The broadcaster does not stay at a write if all pipes are read or hold all lines. -/
theorem PipedState.AtRest.waits [Fintype ι] (rest : s.AtRest capacity readers)
    (h : (pipedThreads lines capacity readers).Reach s)
    (room : (∀ k, k ∈ readers) ∨ ∀ n ∈ capacity, lineBytes * ∑ i, (lines i).length ≤ n) :
    s.threads.broadcaster = .waiting := by
  rcases rest.broadcaster with ⟨waiting, -⟩ | ⟨message, k, others, sending, noReader, full⟩
  · exact waiting
  refine absurd (fun n limit => ?_) full
  have room := room.resolve_left (fun all => noReader (all k)) n limit
  have reach := pipedThreads_reach h
  have produced := produced_eq_sent reach sending
  obtain ⟨taken, a, inv, related, posted, cube, history⟩ := rest.applied reach
  -- the messages in the pipe and the one to be written are among those of the commands
  have count : s.threads.produced.length ≤ ∑ i, (lines i).length := by
    have all := inv.count
    rw [related.produced, history, length_history] at all
    rw [Finset.sum_congr rfl fun i _ => by rw [taken i]] at all
    omega
  have fewer : (s.unread k).length + 1 ≤ s.threads.produced.length := by
    rw [produced, List.length_append, List.length_singleton, PipedState.unread, List.length_drop]
    omega
  rw [bytes_unread h fun m mem => produced ▸ List.mem_append_left _ mem,
    text_length reach (produced ▸ List.mem_append_right _ (List.mem_singleton_self _))]
  rw [lineBytes] at room ⊢
  omega

/-- **The threads finish their work under every schedule.** Let each pipe take a line. A
run on `n` commands has at most `237 n` steps, those of the readers included; it is stuck
exactly at rest, and from each state it can be run to there. Then each listener's commands
were applied in its order. If the broadcaster waits then, each command was answered by one
broadcast, every pipe was sent all of them, every reader has read them, and the last one
shows the cube. It does, unless a pipe without a reader cannot take `n` lines. -/
theorem threads_finish [Fintype ι] (lines : ι → List Command) {capacity : Option Nat} {readers : Finset FaceId}
    (enough : ∀ n ∈ capacity, lineBytes ≤ n) {events : List (PipedEvent ι)} {s : PipedState ι}
    (run : (pipedThreads lines capacity readers).run (.start lines) events = some s) :
    events.length ≤ 237 * ∑ i, (lines i).length ∧
    ((∀ event, (pipedThreads lines capacity readers).step s event = none) ↔ s.AtRest capacity readers) ∧
    (∃ later s', (pipedThreads lines capacity readers).run s later = some s' ∧ s'.AtRest capacity readers) ∧
    (s.AtRest capacity readers →
      ((∀ i, commandsOf s.threads.locked i = lines i) ∧
        cubeAfter s.threads.locked = some s.threads.globalCubeState) ∧
      (s.threads.broadcaster = .waiting →
        s.threads.produced.length = ∑ i, (lines i).length ∧
        (∀ m, s.threads.produced.getLast? = some m → ∀ buffer, m.msg = encode s.threads.globalCubeState buffer) ∧
        (∀ k, s.threads.sent k = s.threads.produced) ∧ ∀ k ∈ readers, s.read k = s.threads.produced.length) ∧
      ((∀ k, k ∈ readers) ∨ (∀ n ∈ capacity, lineBytes * ∑ i, (lines i).length ≤ n) →
        s.threads.broadcaster = .waiting)) := by
  have start : (pipedThreads lines capacity readers).Reach (.start lines) := .init rfl
  have lowers : ∀ s e s', (pipedThreads lines capacity readers).Reach s → True →
      (pipedThreads lines capacity readers).step s e = some s' → s'.cost < s.cost :=
    fun s e s' _ _ step => pipedStep_cost step
  have reach := start.run run
  have stuck : ∀ {s}, (pipedThreads lines capacity readers).Reach s →
      (∀ event, (pipedThreads lines capacity readers).step s event = none) → s.AtRest capacity readers := by
    intro s reach none
    refine (pipedThreads_step enough reach).resolve_right ?_
    rintro ⟨event, s', step⟩
    rw [none event] at step
    cases step
  refine ⟨?_, ⟨stuck reach, fun rest => rest.stuck⟩, ?_, fun rest =>
    ⟨?_, fun waiting => rest.broadcast reach waiting, fun room => rest.waits reach room⟩⟩
  · have bound := start.run_length (fun _ => 0) lowers (fun _ _ => trivial) run
    have whole : (PipedState.start lines).cost = 237 * ∑ i, (lines i).length := by
      simp [PipedState.cost, PipedState.unread, PipedState.start, ThreadState.cost, ThreadState.listenerCost,
        ThreadState.start, ListenerPoint.cost, BroadcasterPoint.cost, Finset.mul_sum]
    have nothing : (events.map fun _ => 0).sum = 0 := by simp
    omega
  · obtain ⟨later, s', -, run', ends⟩ := reach.run_stuck (fun _ => True) lowers
    exact ⟨later, s', run', stuck (reach.run run') fun event => ends event trivial⟩
  · obtain ⟨taken, a, inv, -, -, cube, history⟩ := rest.applied (pipedThreads_reach reach)
    exact ⟨taken, by rw [← history, ← cube, inv.cube]⟩

/-- One listener turns a face: twelve steps of its thread, sixteen of the broadcaster, one
of a reader. In pipes for one line without a reader, the second broadcast blocks. -/
theorem threads_finish_one_command :
    let turns : Nat → Bool → List Command := fun n i => if i then List.replicate n ⟨0, 1, [newline, nul]⟩ else []
    let listens := List.replicate 12 (PipedEvent.thread (.listener true default))
    let broadcasts := List.replicate 16 (PipedEvent.thread (.broadcaster fun _ => nul))
    (∃ s, (pipedThreads (turns 1) (some pipeCapacity) {0}).run (.start (turns 1))
        (listens ++ broadcasts ++ [.read 0]) = some s ∧ s.threads.produced.length = 1 ∧ s.read 0 = 1) ∧
    ∃ s, (pipedThreads (turns 2) (some lineBytes) ∅).run (.start (turns 2))
        (listens ++ listens ++ broadcasts ++ broadcasts.take 9) = some s ∧
      (∀ event, (pipedThreads (turns 2) (some lineBytes) ∅).step s event = none) ∧ ¬ s.Writes (some lineBytes) := by
  intro turns listens broadcasts
  constructor
  · have checked : ∃ s ∈ (pipedThreads (turns 1) (some pipeCapacity) {0}).run (.start (turns 1))
        (listens ++ broadcasts ++ [.read 0]), (∀ i, s.threads.listenerCost i = 0) ∧ s.unread 0 = [] ∧
          s.threads.broadcaster.cost = 0 ∧ s.threads.broadcastMessageReady = 0 := by
      decide +kernel
    obtain ⟨s, run, idle, read, waiting, ready⟩ := checked
    have waits := waiting_of_cost waiting
    have rest : s.AtRest (some pipeCapacity) {0} := ⟨fun i => (listenerCost_eq_zero (idle i)).1,
      fun i => (listenerCost_eq_zero (idle i)).2, by simpa using read, .inl ⟨waits, ready⟩⟩
    obtain ⟨-, -, -, done⟩ := threads_finish (turns 1) (by decide) run
    obtain ⟨count, -, -, all⟩ := (done rest).2.1 waits
    exact ⟨s, run, count, (all 0 (Finset.mem_singleton_self 0)).trans count⟩
  · have checked : ∃ s ∈ (pipedThreads (turns 2) (some lineBytes) ∅).run (.start (turns 2))
        (listens ++ listens ++ broadcasts ++ broadcasts.take 9), (∀ i, s.threads.listenerCost i = 0) ∧
          ¬ s.Writes (some lineBytes) := by
      decide +kernel
    obtain ⟨s, run, idle, full⟩ := checked
    have blocked := full
    simp only [PipedState.Writes, not_forall] at blocked
    obtain ⟨m, next, blocked⟩ := blocked
    obtain ⟨more, sending⟩ := next_eq_some next
    have rest : s.AtRest (some lineBytes) ∅ := ⟨fun i => (listenerCost_eq_zero (idle i)).1,
      fun i => (listenerCost_eq_zero (idle i)).2, by simp, .inr ⟨m.1, m.2, more, sending, by simp, blocked⟩⟩
    exact ⟨s, run, (threads_finish (turns 2) (by decide) run).2.1.2 rest, full⟩

end Rubiks
