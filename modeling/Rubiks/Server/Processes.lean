import Rubiks.Server.Command
import Rubiks.Start.Cubies
import Rubiks.Logic.Transition
import Mathlib.Data.Finset.Insert
import Mathlib.Data.Finset.Prod
import Mathlib.Data.Fintype.Prod

/-!
# The server's processes

`accept_client` forks: every process has its own loop variables, its own cube and its
own set of open pipe ends, which the fork copies and only `close` and exit reduce. A
child would come back from `accept_client` with 0, into `run_server`'s loop, once its two
threads have returned. But each of them closes the one descriptor of the connection, and
the second `fclose` fails and ends the child: only the first process accepts clients
(`sole_acceptor`).
-/

namespace Rubiks

open Logic

/-- A descriptor of `client_pipes[i][d][e]`: `d` is 0 from the client to the server and 1
back, `e` is 0 for the read end and 1 for the write end. -/
abbrev PipeEnd := FaceId × Fin 2 × Fin 2

/-- Where the main thread of a process is; `client_id` is the argument of `accept_client`. -/
inductive MainPoint where
  /-- In `accept4`. -/
  | accepting (clientId : FaceId)
  /-- After the fork, in the parent's branch, before its closes. -/
  | parent (clientId : FaceId)
  /-- After the fork, in `client_facing_process`, before its closes. -/
  | child (clientId : FaceId)
  /-- In `client_facing_process`, joining its two threads. -/
  | serving (clientId : FaceId)
  /-- Behind the loop, joining the broadcasting thread. -/
  | joining
  | exited
  deriving DecidableEq

structure Process where
  /-- The `client_id` of the fork this process came from; the first has none. -/
  clientId : Option FaceId
  numClientsConnected : Nat
  acceptStatus : Int
  /-- The pipe ends it holds open. -/
  ends : Finset PipeEnd
  /-- The descriptor of its client's connection is open; its two threads share it. -/
  socketOpen : Bool
  /-- Its own `*global_cube_state`. -/
  globalCubeState : Cube
  main : MainPoint
  /-- `client_facing_thread_listen_to_socket` has returned. -/
  socketEnded : Bool
  /-- `client_facing_thread_listen_to_pipe` has returned. -/
  pipeEnded : Bool
  /-- The slots with a running `server_thread_listen_to_pipe`. -/
  listeners : Finset FaceId
  /-- The `client_id`s of its calls of `accept_client` so far, a history variable. -/
  calls : List FaceId

namespace Process

/-- The condition of `run_server`'s loop: one more call of `accept_client`, or the join. -/
def acceptLoop (P : Process) : Process :=
  if h : P.acceptStatus ≠ -1 ∧ P.numClientsConnected < 6 then
    { P with
      main := .accepting ⟨P.numClientsConnected, h.2⟩
      calls := P.calls ++ [⟨P.numClientsConnected, h.2⟩] }
  else { P with main := .joining }

/-- `accept_client` has returned: the rest of the loop's body, and its condition. -/
def acceptReturns (P : Process) (status : Int) : Process :=
  { P with acceptStatus := status, numClientsConnected := P.numClientsConnected + 1 }.acceptLoop

/-- `fork` in `accept_client`: the child's copy, without the threads. -/
def fork (P : Process) (clientId : FaceId) : Process :=
  { P with
    clientId := some clientId
    main := .child clientId
    socketOpen := true
    socketEnded := false
    pipeEnded := false
    listeners := ∅
    calls := [] }

/-- `close` on pipe ends. -/
def close (P : Process) (closed : Finset PipeEnd) : Process := { P with ends := P.ends \ closed }

/-- The process is gone, with its threads and its descriptors. -/
def exit (P : Process) : Process := { P with ends := ∅, socketOpen := false, main := .exited, listeners := ∅ }

/-- The joins of `client_facing_process`. Once both threads have returned it returns, and
`accept_client` returns 0 in the child as well. -/
def joinThreads (P : Process) : Process :=
  if P.socketEnded ∧ P.pipeEnded then P.acceptReturns 0 else P

end Process

/-- What a process may do next. A thread that reaches end of file calls `fclose` twice, in
a child on the socket first; `closed` says that neither call failed on a descriptor that is
open. On one that is closed it fails, and a failure means `error_and_exit`. -/
inductive ProcessEvent where
  /-- `accept4` returns a connection, and `fork` follows. -/
  | accept
  /-- The closes in the parent's branch, the new listener thread, and the return. -/
  | parentCloses
  /-- The closes of `client_facing_process` and its two new threads. -/
  | childCloses
  /-- The thread that listens to the socket ends: the client has disconnected, or the other
  thread has closed the socket. -/
  | socketEof (closed : Bool)
  /-- The thread that listens to the pipe from the server ends. -/
  | pipeEof (closed : Bool)
  /-- Listener thread `i` ends. -/
  | listenerEof (i : FaceId) (closed : Bool)
  /-- Listener thread `i` reads a line. -/
  | interpret (i : FaceId) (line : List Char8) (draws : Draws)
  /-- A signal or `error_and_exit` at any other place. -/
  | exit

/-- One step of a process: the process after it, and what it forked. `isOpen` says of a
pipe end that some process holds it; a pipe whose write end is not open is at end of
file. -/
def Process.step (P : Process) (isOpen : PipeEnd → Bool) (event : ProcessEvent) : Option (Process × List Process) :=
  if P.main = .exited then none else
  match event with
  | .accept =>
    match P.main with
    | .accepting id => some ({ P with main := .parent id }, [P.fork id])
    | _ => none
  | .parentCloses =>
    match P.main with
    | .parent id =>
      some (({ P with listeners := insert id P.listeners }.close {(id, 0, 1), (id, 1, 0)}).acceptReturns 0, [])
    | _ => none
  | .childCloses =>
    match P.main with
    | .child id => some ({ P with main := .serving id }.close {(id, 0, 0), (id, 1, 1)}, [])
    | _ => none
  | .socketEof closed =>
    match P.main with
    | .serving id =>
      if P.socketEnded then none
      else if P.socketOpen ∧ closed then
        some (({ P with socketEnded := true, socketOpen := false }.close {(id, 0, 1)}).joinThreads, [])
      else some (P.exit, [])
    | _ => none
  | .pipeEof closed =>
    match P.main with
    | .serving id =>
      if P.pipeEnded ∨ isOpen (id, 1, 1) then none
      else if P.socketOpen ∧ closed then
        some (({ P with pipeEnded := true, socketOpen := false }.close {(id, 1, 0)}).joinThreads, [])
      else some (P.exit, [])
    | _ => none
  | .listenerEof i closed =>
    if i ∉ P.listeners ∨ isOpen (i, 0, 1) then none
    else if closed then some ({ P with listeners := P.listeners.erase i }.close {(i, 0, 0)}, [])
    else some (P.exit, [])
  | .interpret i line draws =>
    if i ∉ P.listeners then none
    else (decodeUserInput (lineBuffer line) P.globalCubeState draws).map fun cube =>
      ({ P with globalCubeState := cube }, [])
  | .exit => some (P.exit, [])

/-- Some process holds the pipe end. -/
def someHolds (processes : List Process) (e : PipeEnd) : Bool := processes.any fun P => decide (e ∈ P.ends)

/-- `run_server` at its loop: `make_echo_server` has created the six pairs of pipes. -/
def firstProcess : Process := Process.acceptLoop
  { clientId := none
    numClientsConnected := 0
    acceptStatus := 0
    ends := Finset.univ
    socketOpen := false
    globalCubeState := makeCube
    main := .joining
    socketEnded := false
    pipeEnded := false
    listeners := ∅
    calls := [] }

/-- The server's processes, in the order of the forks; in any order of their steps. -/
def serverTree : System (List Process) (Nat × ProcessEvent) where
  init := fun s => s = [firstProcess]
  step := fun s e => do
    let P ← s[e.1]?
    let (after, forked) ← P.step (someHolds s) e.2
    some (s.set e.1 after ++ forked)

theorem reach_firstProcess : serverTree.Reach [firstProcess] := .init rfl

/-! ## Steps -/

/-- What a step of a process can do. -/
inductive Process.Acts (P : Process) (isOpen : PipeEnd → Bool) : ProcessEvent → Process → List Process → Prop where
  | accept {id : FaceId} : P.main = .accepting id → Acts P isOpen .accept { P with main := .parent id } [P.fork id]
  | parentCloses {id : FaceId} : P.main = .parent id →
      Acts P isOpen .parentCloses
        (({ P with listeners := insert id P.listeners }.close {(id, 0, 1), (id, 1, 0)}).acceptReturns 0) []
  | childCloses {id : FaceId} : P.main = .child id →
      Acts P isOpen .childCloses ({ P with main := .serving id }.close {(id, 0, 0), (id, 1, 1)}) []
  | socketEof {id : FaceId} {closed : Bool} : P.main = .serving id → P.socketEnded = false → P.socketOpen = true →
      Acts P isOpen (.socketEof closed)
        ({ P with socketEnded := true, socketOpen := false }.close {(id, 0, 1)}).joinThreads []
  | pipeEof {id : FaceId} {closed : Bool} : P.main = .serving id → P.pipeEnded = false → isOpen (id, 1, 1) = false →
      P.socketOpen = true →
      Acts P isOpen (.pipeEof closed)
        ({ P with pipeEnded := true, socketOpen := false }.close {(id, 1, 0)}).joinThreads []
  | listenerEof {i : FaceId} {closed : Bool} : i ∈ P.listeners → isOpen (i, 0, 1) = false →
      Acts P isOpen (.listenerEof i closed) ({ P with listeners := P.listeners.erase i }.close {(i, 0, 0)}) []
  | interpret {i : FaceId} {line : List Char8} {draws : Draws} (cube : Cube) : i ∈ P.listeners →
      Acts P isOpen (.interpret i line draws) { P with globalCubeState := cube } []
  | exit {event : ProcessEvent} : Acts P isOpen event P.exit []

variable {P P' : Process} {forked : List Process} {isOpen : PipeEnd → Bool} {event : ProcessEvent}

theorem Process.step_cases (h : P.step isOpen event = some (P', forked)) :
    P.main ≠ .exited ∧ P.Acts isOpen event P' forked := by
  unfold Process.step at h
  split at h
  · cases h
  · rename_i alive
    refine ⟨alive, ?_⟩
    cases event with
    | accept =>
      simp only at h
      split at h
      · rename_i id main
        cases h
        exact .accept main
      · cases h
    | parentCloses =>
      simp only at h
      split at h
      · rename_i id main
        cases h
        exact .parentCloses main
      · cases h
    | childCloses =>
      simp only at h
      split at h
      · rename_i id main
        cases h
        exact .childCloses main
      · cases h
    | socketEof closed =>
      simp only at h
      split at h
      · rename_i id main
        split at h
        · cases h
        · rename_i running
          split at h
          · rename_i succeeds
            cases h
            exact .socketEof main (Bool.eq_false_iff.2 running) succeeds.1
          · cases h
            exact .exit
      · cases h
    | pipeEof closed =>
      simp only at h
      split at h
      · rename_i id main
        split at h
        · cases h
        · rename_i running
          rw [not_or, Bool.not_eq_true, Bool.not_eq_true] at running
          split at h
          · rename_i succeeds
            cases h
            exact .pipeEof main running.1 running.2 succeeds.1
          · cases h
            exact .exit
      · cases h
    | listenerEof i closed =>
      simp only at h
      split at h
      · cases h
      · rename_i running
        rw [not_or, not_not, Bool.not_eq_true] at running
        split at h
        · cases h
          exact .listenerEof running.1 running.2
        · cases h
          exact .exit
    | interpret i line draws =>
      simp only at h
      split at h
      · cases h
      · rename_i running
        obtain ⟨cube, -, same⟩ := Option.map_eq_some_iff.1 h
        cases same
        exact .interpret cube (not_not.1 running)
    | exit =>
      cases h
      exact .exit

variable {s s' : List Process}

theorem serverTree_cases {e : Nat × ProcessEvent} (h : serverTree.step s e = some s') :
    ∃ P P' forked, s[e.1]? = some P ∧ P.main ≠ .exited ∧ P.Acts (someHolds s) e.2 P' forked ∧
      s' = s.set e.1 P' ++ forked := by
  obtain ⟨P, found, h⟩ := Option.bind_eq_some_iff.1 h
  obtain ⟨⟨P', forked⟩, step, h⟩ := Option.bind_eq_some_iff.1 h
  obtain ⟨alive, acts⟩ := Process.step_cases step
  exact ⟨P, P', forked, found, alive, acts, (Option.some.inj h).symm⟩

/-- A process after a step: the one that moved, one that did not, or one just forked. -/
theorem after_process {p q : Nat} {Q : Process} (found : (s.set p P' ++ forked)[q]? = some Q) :
    (q = p ∧ Q = P') ∨ (q ≠ p ∧ s[q]? = some Q) ∨ ∃ k, q = s.length + k ∧ forked[k]? = some Q := by
  rw [List.getElem?_append, List.length_set] at found
  split at found
  · rw [List.getElem?_set] at found
    split at found
    · rename_i same
      split at found
      · exact .inl ⟨same.symm, (Option.some.inj found).symm⟩
      · cases found
    · rename_i other
      exact .inr (.inl ⟨Ne.symm other, found⟩)
  · exact .inr (.inr ⟨q - s.length, by omega, found⟩)

/-! ## Who calls `accept_client` -/

namespace Process

/-- Back from `accept_client`: called again with the next `client_id`, or the loop is left. -/
theorem acceptReturns_cases (P : Process) :
    (∃ h : P.numClientsConnected + 1 < 6, P.acceptReturns 0 =
      { P with
        acceptStatus := 0
        numClientsConnected := P.numClientsConnected + 1
        main := .accepting ⟨P.numClientsConnected + 1, h⟩
        calls := P.calls ++ [⟨P.numClientsConnected + 1, h⟩] }) ∨
    (6 ≤ P.numClientsConnected + 1 ∧ P.acceptReturns 0 =
      { P with acceptStatus := 0, numClientsConnected := P.numClientsConnected + 1, main := .joining }) := by
  unfold acceptReturns acceptLoop
  split
  · rename_i h
    exact .inl ⟨h.2, rfl⟩
  · rename_i h
    refine .inr ⟨?_, rfl⟩
    by_contra more
    have next : P.numClientsConnected + 1 < 6 := by omega
    exact h ⟨(by decide : (0 : Int) ≠ -1), next⟩

/-- A child with a running thread waits for it. -/
theorem joinThreads_of_running (running : P.socketEnded = false ∨ P.pipeEnded = false) : P.joinThreads = P := by
  rw [joinThreads, if_neg]
  rintro ⟨socket, pipe⟩
  simp [socket, pipe] at running

/-- What holds of process `p` between its steps. A child closes its connection when the
first of its threads returns, and never calls `accept_client`. -/
structure Inv (p : Nat) (P : Process) : Prop where
  first : p = 0 ↔ P.clientId = none
  child : ∀ id, P.main = .child id ∨ P.main = .serving id → P.clientId = some id ∧
    (P.socketOpen = true → P.socketEnded = false ∧ P.pipeEnded = false) ∧
    (P.socketEnded = false ∨ P.pipeEnded = false)
  accepting : ∀ id, P.main = .accepting id ∨ P.main = .parent id → id ∈ P.calls ∧ P.numClientsConnected = id.val
  bounded : ∀ i ∈ P.calls, i.val ≤ P.numClientsConnected
  distinct : P.calls.Nodup
  forked : p ≠ 0 → P.calls = [] ∧ P.listeners = ∅

theorem Inv.exit {p : Nat} (h : Inv p P) : Inv p P.exit where
  first := h.first
  child := by simp [Process.exit]
  accepting := by simp [Process.exit]
  bounded := h.bounded
  distinct := h.distinct
  forked child := ⟨(h.forked child).1, rfl⟩

/-- Only the first process is in `accept4` or just behind its fork. -/
theorem Inv.first_of_call {p : Nat} {id : FaceId} (h : Inv p P) (main : P.main = .accepting id ∨ P.main = .parent id) :
    p = 0 := by
  by_contra child
  have called := (h.accepting id main).1
  rw [(h.forked child).1] at called
  cases called

/-- The fork of a call for `id`. -/
theorem Inv.fork {q : Nat} (P : Process) (id : FaceId) (later : q ≠ 0) : Inv q (P.fork id) where
  first := by simp [Process.fork, later]
  child := by
    intro id' main'
    rcases main' with main' | main'
    · cases main'
      exact ⟨rfl, fun _ => ⟨rfl, rfl⟩, .inl rfl⟩
    · cases main'
  accepting := by simp [Process.fork]
  bounded := by simp [Process.fork]
  distinct := List.nodup_nil
  forked _ := ⟨rfl, rfl⟩

/-- A return of `accept_client` to the first process. -/
theorem Inv.acceptReturns (first : P.clientId = none) (bounded : ∀ i ∈ P.calls, i.val ≤ P.numClientsConnected)
    (distinct : P.calls.Nodup) : Inv 0 (P.acceptReturns 0) := by
  rcases P.acceptReturns_cases with ⟨next, after⟩ | ⟨last, after⟩ <;> rw [after]
  · refine ⟨iff_of_true rfl first, by simp, ?_, ?_, ?_, fun child => absurd rfl child⟩
    · intro id main
      rcases main with main | main
      · cases main
        exact ⟨by simp, rfl⟩
      · cases main
    · intro i mem
      rcases List.mem_append.1 mem with mem | mem
      · exact (bounded i mem).trans (Nat.le_succ _)
      · rw [List.mem_singleton.1 mem]
    · refine List.Nodup.append distinct (List.nodup_singleton _) ?_
      rw [List.disjoint_singleton]
      intro mem
      have := bounded _ mem
      simp only at this
      omega
  · exact ⟨iff_of_true rfl first, by simp, by simp, fun i mem => (bounded i mem).trans (Nat.le_succ _), distinct,
      fun child => absurd rfl child⟩

/-- When the socket thread of a child returns, the child waits for the other one. -/
theorem Inv.socketEof_joins {p : Nat} {id : FaceId} (h : Inv p P) (main : P.main = .serving id)
    (isOpen : P.socketOpen = true) :
    ({ P with socketEnded := true, socketOpen := false }.close {(id, 0, 1)}).joinThreads =
      { P with socketEnded := true, socketOpen := false }.close {(id, 0, 1)} :=
  joinThreads_of_running (.inr ((h.child id (.inr main)).2.1 isOpen).2)

/-- The same for its pipe thread. -/
theorem Inv.pipeEof_joins {p : Nat} {id : FaceId} (h : Inv p P) (main : P.main = .serving id)
    (isOpen : P.socketOpen = true) :
    ({ P with pipeEnded := true, socketOpen := false }.close {(id, 1, 0)}).joinThreads =
      { P with pipeEnded := true, socketOpen := false }.close {(id, 1, 0)} :=
  joinThreads_of_running (.inl ((h.child id (.inr main)).2.1 isOpen).1)

/-- A child after the first of its threads has returned. -/
theorem Inv.threadReturns {p : Nat} {id : FaceId} (h : Inv p P) (main : P.main = .serving id)
    {socketEnded pipeEnded : Bool} (running : socketEnded = false ∨ pipeEnded = false) (ends : Finset PipeEnd) :
    Inv p { P with socketEnded := socketEnded, pipeEnded := pipeEnded, socketOpen := false, ends := ends } where
  first := h.first
  child id' at_ := ⟨(h.child id' at_).1, nofun, running⟩
  accepting id' at_ := by
    rcases at_ with at_ | at_
    · cases main.symm.trans at_
    · cases main.symm.trans at_
  bounded := h.bounded
  distinct := h.distinct
  forked := h.forked

/-- One step keeps the invariant of the process that moves. -/
theorem Inv.acts {p : Nat} (h : Inv p P) (acts : P.Acts isOpen event P' forked) : Inv p P' := by
  cases acts with
  | @accept id main =>
    refine ⟨h.first, by simp, ?_, h.bounded, h.distinct, h.forked⟩
    intro id' main'
    rcases main' with main' | main'
    · cases main'
    · cases main'
      exact h.accepting id (.inl main)
  | @parentCloses id main =>
    obtain rfl := h.first_of_call (.inr main)
    exact Inv.acceptReturns (h.first.1 rfl) h.bounded h.distinct
  | @childCloses id main =>
    have child := h.child id (.inl main)
    refine ⟨h.first, ?_, by simp [close], h.bounded, h.distinct, h.forked⟩
    intro id' main'
    rcases main' with main' | main'
    · cases main'
    · cases main'
      exact child
  | @socketEof id closed main running isOpen =>
    have waits := h.socketEof_joins main isOpen
    rw [waits]
    exact h.threadReturns main (.inr ((h.child id (.inr main)).2.1 isOpen).2) _
  | @pipeEof id closed main running eof isOpen =>
    have waits := h.pipeEof_joins main isOpen
    rw [waits]
    exact h.threadReturns main (.inl ((h.child id (.inr main)).2.1 isOpen).1) _
  | @listenerEof i closed running eof =>
    refine ⟨h.first, h.child, h.accepting, h.bounded, h.distinct, fun child => ?_⟩
    rw [(h.forked child).2] at running
    cases running
  | interpret cube running => exact ⟨h.first, h.child, h.accepting, h.bounded, h.distinct, h.forked⟩
  | exit => exact h.exit

/-- A process forks only in `accept4`, and only once. -/
theorem Acts.of_forked (acts : P.Acts isOpen event P' forked) {Q : Process} (mem : Q ∈ forked) :
    ∃ id, P.main = .accepting id ∧ forked = [P.fork id] := by
  cases acts with
  | @accept id main => exact ⟨id, main, rfl⟩
  | _ => cases mem

end Process

theorem Process.Inv.firstProcess : Process.Inv 0 firstProcess where
  first := by decide
  child := by simp [Rubiks.firstProcess, acceptLoop]
  accepting := by simp [Rubiks.firstProcess, acceptLoop]
  bounded := by simp [Rubiks.firstProcess, acceptLoop]
  distinct := by simp [Rubiks.firstProcess, acceptLoop]
  forked := by simp

/-- Every process of a reachable tree keeps its invariant. -/
theorem serverTree_inv (h : serverTree.Reach s) : ∀ (p : Nat) (P : Process), s[p]? = some P → P.Inv p := by
  induction h with
  | init start =>
    rintro p P found
    cases start
    cases p with
    | zero =>
      cases found
      exact .firstProcess
    | succ p => cases found
  | step _ next inv =>
    obtain ⟨P, P', forked, at_, alive, acts, rfl⟩ := serverTree_cases next
    intro q Q found
    rcases after_process found with ⟨rfl, rfl⟩ | ⟨other, found⟩ | ⟨k, rfl, new⟩
    · exact (inv _ P at_).acts acts
    · exact inv q Q found
    · have mem := List.mem_of_getElem? new
      obtain ⟨id, main, rfl⟩ := acts.of_forked mem
      rw [List.mem_singleton.1 mem]
      refine .fork P id ?_
      have inRange := (List.getElem?_eq_some_iff.1 at_).1
      omega

/-- **Only the original process accepts clients**: no other one calls `accept_client`, no
`client_id` is handed out twice, and no other process serves a cube. -/
structure SoleAcceptor (s : List Process) : Prop where
  calls : ∀ p P, s[p]? = some P → p ≠ 0 → P.calls = []
  distinct : (s.flatMap Process.calls).Nodup
  served : ∀ p P, s[p]? = some P → P.listeners.Nonempty → p = 0

/-- In every reachable state only the first process has called `accept_client`. -/
theorem sole_acceptor (h : serverTree.Reach s) : SoleAcceptor s := by
  have inv := serverTree_inv h
  refine ⟨fun p P found child => ((inv p P found).forked child).1, ?_, fun p P found some => ?_⟩
  · cases s with
    | nil => exact List.nodup_nil
    | cons first children =>
      have none : children.flatMap Process.calls = [] := by
        rw [List.flatMap_eq_nil_iff]
        intro P mem
        obtain ⟨p, found⟩ := List.mem_iff_getElem?.1 mem
        exact ((inv (p + 1) P found).forked (Nat.succ_ne_zero p)).1
      rw [List.flatMap_cons, none, List.append_nil]
      exact (inv 0 first rfl).distinct
  · by_contra child
    rw [((inv p P found).forked child).2] at some
    exact Finset.not_nonempty_empty some

/-- Two clients are accepted, the second one's child and the first process exit, and both
threads of the child that is left return. -/
def lastChild : List (Nat × ProcessEvent) :=
  [(0, .accept), (0, .parentCloses), (1, .childCloses), (0, .accept), (0, .parentCloses), (2, .childCloses), (2, .exit),
    (0, .exit), (1, .pipeEof true), (1, .socketEof true)]

/-- It exits and accepts nobody. -/
theorem sole_acceptor_last_child : ∃ s, serverTree.run [firstProcess] lastChild = some s ∧ SoleAcceptor s ∧
    (s.flatMap Process.calls) = [0, 1, 2] ∧ ∀ P ∈ s, P.main = .exited := by
  have checked : ∃ s ∈ serverTree.run [firstProcess] lastChild, (s.flatMap Process.calls) = [0, 1, 2] ∧
      ∀ P ∈ s, P.main = .exited := by
    decide +kernel
  obtain ⟨s, run, calls, exited⟩ := checked
  exact ⟨s, run, sole_acceptor (System.Reach.run reach_firstProcess run), calls, exited⟩

end Rubiks
