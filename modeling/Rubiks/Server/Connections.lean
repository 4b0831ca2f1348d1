import Rubiks.Client.Program
import Rubiks.Server.PipeEnds

/-!
# Who keeps a connection open

The first process never closes a connection it has accepted, and a fork copies those
accepted before. So a connection whose own child is gone stays open while the first
process or the child of a later connection runs (`connection_open_iff`), and a client
that has quit waits for an end of file that the server does not send
(`client_programs_wait`).
-/

namespace Rubiks

open Logic

/-- The server's processes and the connections each keeps open: by a descriptor, or by a
`read` of its socket thread, which keeps the connection until it returns even if the other
thread has closed the descriptor. The connection of a client has the number of the process
that was forked for it. -/
structure Connections where
  processes : List Process
  held : List (Finset Nat)

/-- What a step of process `p` to `after` makes of the connections it keeps; the next one
accepted is `fresh`. -/
def heldAfter (p fresh : Nat) (after : Process) (held : Finset Nat) (event : ProcessEvent) : Finset Nat :=
  if after.main = .exited then ∅
  else
    match event with
    | .accept => insert fresh held
    | .socketEof _ => held.erase p
    | .parentCloses | .childCloses | .pipeEof _ | .listenerEof _ _ | .interpret _ _ _ | .exit => held

/-- A fork copies the connections. -/
def connectionsStep (s : Connections) (e : Nat × ProcessEvent) : Option Connections := do
  let processes ← serverTree.step s.processes e
  let P ← processes[e.1]?
  let held ← s.held[e.1]?
  let after := heldAfter e.1 s.processes.length P held e.2
  some {
    processes := processes
    held := s.held.set e.1 after ++ List.replicate (processes.length - s.processes.length) after }

def connections : System Connections (Nat × ProcessEvent) where
  init := fun s => s = ⟨[firstProcess], [∅]⟩
  step := connectionsStep

variable {P P' : Process} {forked : List Process} {isOpen : PipeEnd → Bool} {event : ProcessEvent} {s s' : Connections}

theorem connections_cases {e : Nat × ProcessEvent} (h : connections.step s e = some s') :
    ∃ P P' forked H, serverTree.step s.processes e = some s'.processes ∧ s.processes[e.1]? = some P ∧
      P.main ≠ .exited ∧ P.Acts (someHolds s.processes) e.2 P' forked ∧
      s'.processes = s.processes.set e.1 P' ++ forked ∧ s.held[e.1]? = some H ∧
      s'.held = s.held.set e.1 (heldAfter e.1 s.processes.length P' H e.2) ++
        List.replicate forked.length (heldAfter e.1 s.processes.length P' H e.2) := by
  obtain ⟨processes, step, h⟩ := Option.bind_eq_some_iff.1 h
  obtain ⟨after, now, h⟩ := Option.bind_eq_some_iff.1 h
  obtain ⟨H, own, h⟩ := Option.bind_eq_some_iff.1 h
  cases h
  obtain ⟨P, P', forked, found, alive, acts, rfl⟩ := serverTree_cases step
  have inRange := (List.getElem?_eq_some_iff.1 found).1
  rw [List.getElem?_append_left (by simpa using inRange), List.getElem?_set_self inRange] at now
  cases now
  refine ⟨P, after, forked, H, step, found, alive, acts, rfl, own, ?_⟩
  simp only [List.length_append, List.length_set, Nat.add_sub_cancel_left]

theorem connections_serverTree : System.Simulation connections serverTree fun s t => s.processes = t where
  init s start := ⟨[firstProcess], rfl, congrArg Connections.processes start⟩
  step s t e s' _ same step := by
    subst same
    obtain ⟨P, P', forked, H, moved, -⟩ := connections_cases step
    exact .inr ⟨e, s'.processes, moved, rfl⟩

theorem connections_tree (h : connections.Reach s) : serverTree.Reach s.processes := by
  obtain ⟨t, reach, rfl⟩ := connections_serverTree.reach h
  exact reach

/-- Process `p` of `n` keeps connection `c` open: the first process every one, a child
those accepted before it, and its own until its socket thread has returned. -/
def Process.Keeps (n p : Nat) (P : Process) (c : Nat) : Prop :=
  P.main ≠ .exited ∧ 1 ≤ c ∧ c < n ∧ (p = 0 ∨ c < p ∨ c = p ∧ P.socketEnded = false)

/-- A connection more is one for the first process and the new child. -/
theorem Process.Keeps.grow {n n' p c : Nat} (child : p ≠ 0) (inRange : p < n) (more : n ≤ n') :
    P.Keeps n' p c ↔ P.Keeps n p c := by
  unfold Process.Keeps
  have : c < p ∨ c = p → (c < n ↔ c < n') := by omega
  tauto

/-- Only a return of the socket thread and an exit change what a process keeps. -/
theorem Process.Keeps.congr {n p c : Nat} (alive : P.main ≠ .exited) (alive' : P'.main ≠ .exited)
    (same : P'.socketEnded = P.socketEnded) : P'.Keeps n p c ↔ P.Keeps n p c := by
  unfold Process.Keeps
  rw [same]
  simp only [alive, alive', ne_eq, not_false_eq_true, true_and]

theorem heldAfter_alive {p n : Nat} {H : Finset Nat} (alive : P'.main ≠ .exited) :
    heldAfter p n P' H event = match event with
      | .accept => insert n H
      | .socketEof _ => H.erase p
      | .parentCloses | .childCloses | .pipeEof _ | .listenerEof _ _ | .interpret _ _ _ | .exit => H := if_neg alive

theorem Process.acceptReturns_fields (P : Process) :
    (P.acceptReturns 0).main ≠ .exited ∧ (P.acceptReturns 0).socketEnded = P.socketEnded := by
  rcases P.acceptReturns_cases with ⟨next, after⟩ | ⟨last, after⟩ <;> rw [after] <;> exact ⟨nofun, rfl⟩

/-- What a step leaves to the process that takes it and gives to the one it forks. -/
theorem Process.Acts.keeps {p n : Nat} {H : Finset Nat} (acts : P.Acts isOpen event P' forked) (inv : P.Inv p)
    (inRange : p < n) (alive : P.main ≠ .exited) (before : ∀ c, c ∈ H ↔ P.Keeps n p c) :
    (∀ c, c ∈ heldAfter p n P' H event ↔ P'.Keeps (n + forked.length) p c) ∧
      ∀ Q ∈ forked, p = 0 ∧ ∀ c, c ∈ heldAfter p n P' H event ↔ Q.Keeps (n + forked.length) n c := by
  have kept : P'.main ≠ .exited → P'.socketEnded = P.socketEnded → ∀ c, c ∈ H ↔ P'.Keeps n p c :=
    fun alive' same c => (before c).trans (Keeps.congr alive alive' same).symm
  have after : P'.main ≠ .exited → heldAfter p n P' H event = _ := heldAfter_alive
  cases acts with
  | @accept id main =>
    obtain rfl := inv.first_of_call (.inl main)
    have holds : ∀ c, c ∈ insert n H ↔ 1 ≤ c ∧ c < n + 1 := by
      intro c
      rw [Finset.mem_insert, before]
      simp only [Process.Keeps, alive, ne_eq, not_false_eq_true, true_and, true_or, and_true]
      omega
    rw [after (by simp)]
    refine ⟨fun c => ?_, fun Q mem => ⟨rfl, fun c => ?_⟩⟩
    · rw [holds]
      simp [Process.Keeps]
    · rw [List.mem_singleton.1 mem, holds]
      simp only [Process.Keeps, Process.fork, ne_eq, reduceCtorEq, not_false_eq_true, List.length_singleton, true_and,
        and_true]
      omega
  | @parentCloses id main =>
    obtain ⟨running, same⟩ :=
      (({ P with listeners := insert id P.listeners } : Process).close {(id, 0, 1), (id, 1, 0)}).acceptReturns_fields
    rw [after running]
    exact ⟨kept running same, List.forall_mem_nil _⟩
  | childCloses main =>
    rw [after (by simp)]
    exact ⟨kept (by simp) rfl, List.forall_mem_nil _⟩
  | @socketEof id closed main running isOpen =>
    have waits := inv.socketEof_joins main isOpen
    have child : p ≠ 0 := by
      intro zero
      have none := inv.first.1 zero
      rw [(inv.child id (.inr main)).1] at none
      cases none
    rw [waits] at kept after ⊢
    rw [after alive]
    refine ⟨fun c => ?_, List.forall_mem_nil _⟩
    rw [Finset.mem_erase, before]
    simp only [Process.Keeps, close, List.length_nil, Nat.add_zero, alive, child, ne_eq, not_false_eq_true, true_and,
      false_or, Bool.true_eq_false, and_false, or_false]
    omega
  | @pipeEof id closed main running eof isOpen =>
    have waits := inv.pipeEof_joins main isOpen
    rw [waits] at kept after ⊢
    rw [after alive]
    exact ⟨kept alive rfl, List.forall_mem_nil _⟩
  | listenerEof running eof =>
    rw [after alive]
    exact ⟨kept alive rfl, List.forall_mem_nil _⟩
  | interpret cube running =>
    rw [after alive]
    exact ⟨kept alive rfl, List.forall_mem_nil _⟩
  | exit =>
    refine ⟨fun c => iff_of_false (Finset.notMem_empty c) fun keeps => keeps.1 rfl, List.forall_mem_nil _⟩

/-- What each process keeps open. -/
theorem connections_held (h : connections.Reach s) : s.held.length = s.processes.length ∧
    ∀ (p : Nat) (P : Process) (H : Finset Nat), s.processes[p]? = some P → s.held[p]? = some H →
      ∀ c, c ∈ H ↔ P.Keeps s.processes.length p c := by
  induction h with
  | init start =>
    cases start
    refine ⟨rfl, fun p P H found held c => ?_⟩
    cases p with
    | zero =>
      cases found
      cases held
      refine iff_of_false (Finset.notMem_empty c) fun keeps => ?_
      have small : c < 1 := keeps.2.2.1
      have := keeps.2.1
      omega
    | succ p => cases found
  | @step s s' e reach next ih =>
    obtain ⟨same, ih⟩ := ih
    obtain ⟨P, P', forked, H, -, found, alive, acts, processes, own, held⟩ := connections_cases next
    rw [processes, held]
    refine ⟨by simp [same], fun q Q K at_ kept => ?_⟩
    have inv := serverTree_inv (connections_tree reach)
    have inRange := (List.getElem?_eq_some_iff.1 found).1
    obtain ⟨mine, new⟩ := acts.keeps (inv _ P found) inRange alive (ih _ P H found own)
    rw [List.length_append, List.length_set]
    rcases after_process at_ with ⟨rfl, rfl⟩ | ⟨other, there⟩ | ⟨k, rfl, forks⟩
    · rw [List.getElem?_append_left (by simpa [same] using inRange), List.getElem?_set_self (by omega)] at kept
      cases kept
      exact mine
    · have inRange' := (List.getElem?_eq_some_iff.1 there).1
      rw [List.getElem?_append_left (by simpa [same] using inRange'), List.getElem?_set_ne (Ne.symm other)] at kept
      intro c
      rw [ih q Q K there kept c]
      cases forked with
      | nil => exact Iff.rfl
      | cons R more =>
        have child : q ≠ 0 := (new R (List.mem_cons_self)).1 ▸ other
        exact (Process.Keeps.grow child inRange' (Nat.le_add_right _ _)).symm
    · have mem := List.mem_of_getElem? forks
      obtain ⟨id, main, rfl⟩ := acts.of_forked mem
      obtain rfl : k = 0 := by
        have := (List.getElem?_eq_some_iff.1 forks).1
        rw [List.length_singleton] at this
        omega
      rw [List.getElem?_append_right (by simp [same]), List.getElem?_replicate] at kept
      obtain rfl : heldAfter e.1 s.processes.length P' H e.2 = K := by simpa [same] using kept
      exact (new Q mem).2

/-- The connection is open at the server. -/
def Connections.Open (s : Connections) (c : Nat) : Prop := ∃ H ∈ s.held, c ∈ H

/-- A process that keeps a connection, from the list of what each keeps. -/
theorem open_of_keeps (h : connections.Reach s) {p c : Nat} (found : s.processes[p]? = some P)
    (keeps : P.Keeps s.processes.length p c) : s.Open c := by
  obtain ⟨length, held⟩ := connections_held h
  have inRange := (List.getElem?_eq_some_iff.1 found).1
  have own := List.getElem?_eq_getElem (l := s.held) (by omega : p < s.held.length)
  exact ⟨_, List.mem_of_getElem? own, (held p P _ found own c).2 keeps⟩

structure Sessions where
  server : Connections
  /-- The client of each connection. -/
  clients : Nat → ClientProgram

inductive SessionEvent where
  | server (e : Nat × ProcessEvent)
  | client (c : Nat) (event : ClientProgramEvent)

/-- The connection is at end of file: accepted and held by no process, or not accepted and
no process is left that holds the listening socket. -/
def Sessions.ended (s : Sessions) (c : Nat) : Bool :=
  if c < s.server.processes.length then s.server.held.all fun H => decide (c ∉ H)
  else s.server.processes.all fun P => decide (P.main = .exited)

def sessionsStep (s : Sessions) : SessionEvent → Option Sessions
  | .server e => do
    let server ← connectionsStep s.server e
    some { s with server := server }
  | .client c event => do
    let client ← (s.clients c).step (s.ended c) event
    some { s with clients := Function.update s.clients c client }

def sessions : System Sessions SessionEvent where
  init := fun s => s = ⟨⟨[firstProcess], [∅]⟩, fun _ => .start⟩
  step := sessionsStep

variable {t t' : Sessions}

theorem sessionsStep_server {e : Nat × ProcessEvent} : sessionsStep t (.server e) = some t' ↔
    ∃ server, connections.step t.server e = some server ∧ t' = { t with server := server } := by
  simp only [sessionsStep, connections, Option.bind_eq_bind, Option.bind_eq_some_iff, Option.some.injEq, eq_comm (a := t')]

theorem sessionsStep_client {c : Nat} {event : ClientProgramEvent} : sessionsStep t (.client c event) = some t' ↔
    ∃ client, (t.clients c).step (t.ended c) event = some client ∧
      t' = { t with clients := Function.update t.clients c client } := by
  simp only [sessionsStep, Option.bind_eq_bind, Option.bind_eq_some_iff, Option.some.injEq, eq_comm (a := t')]

theorem sessions_connections : System.Simulation sessions connections fun t s => t.server = s where
  init t start := ⟨⟨[firstProcess], [∅]⟩, rfl, congrArg Sessions.server start⟩
  step t s e t' _ same step := by
    subst same
    cases e with
    | server e =>
      obtain ⟨server, moved, rfl⟩ := sessionsStep_server.1 step
      exact .inr ⟨e, server, moved, rfl⟩
    | client c event =>
      obtain ⟨client, -, rfl⟩ := sessionsStep_client.1 step
      exact .inl rfl

/-- The first process of the server has not exited. -/
def Sessions.Serving (t : Sessions) : Prop := ∃ first, t.server.processes[0]? = some first ∧ first.main ≠ .exited

theorem serving_before {e : Nat × ProcessEvent} {server : Connections} (step : connections.step t.server e = some server)
    (serving : ({ t with server := server } : Sessions).Serving) : t.Serving := by
  obtain ⟨P, P', forked, H, -, found, alive, -, processes, -⟩ := connections_cases step
  obtain ⟨first, zero, running⟩ := serving
  change server.processes[0]? = _ at zero
  rw [processes] at zero
  rcases after_process zero with ⟨own, -⟩ | ⟨-, there⟩ | ⟨k, none, -⟩
  · exact ⟨P, own ▸ found, alive⟩
  · exact ⟨first, there, running⟩
  · have inRange := (List.getElem?_eq_some_iff.1 found).1
    omega

/-- No client sees an end of file as long as the first process runs. -/
theorem ended_of_serving (h : connections.Reach t.server) (serving : t.Serving) {c : Nat} (client : 1 ≤ c) :
    t.ended c = false := by
  obtain ⟨first, found, alive⟩ := serving
  unfold Sessions.ended
  split
  · rename_i accepted
    obtain ⟨H, mem, holds⟩ := open_of_keeps h found ⟨alive, client, accepted, .inl rfl⟩
    rw [List.all_eq_false]
    exact ⟨H, mem, by simpa using holds⟩
  · rw [List.all_eq_false]
    exact ⟨first, List.mem_of_getElem? found, by simpa using alive⟩

/-- Every client program keeps its invariant, and has not come out of its first call of
`run_cube` while the server's first process runs. -/
theorem sessions_clients (h : sessions.Reach t) (c : Nat) : (t.clients c).Inv ∧
    (t.Serving → 1 ≤ c → (t.clients c).rounds ≤ 1 ∧ (t.clients c).socket ≠ .returned) := by
  induction h with
  | init start =>
    cases start
    exact ⟨.start, fun _ _ => ⟨Nat.zero_le _, nofun⟩⟩
  | @step t t' e reach step ih =>
    obtain ⟨s, tree, same⟩ := sessions_connections.reach reach
    cases e with
    | server e =>
      obtain ⟨server, moved, rfl⟩ := sessionsStep_server.1 step
      exact ⟨ih.1, fun serving => ih.2 (serving_before moved serving)⟩
    | client d event =>
      obtain ⟨client, moved, rfl⟩ := sessionsStep_client.1 step
      by_cases own : c = d
      · subst own
        obtain ⟨alive, after⟩ := ClientProgram.step_cases moved
        have now : ({ t with clients := Function.update t.clients c client } : Sessions).clients c = client :=
          Function.update_self _ _ _
        rw [now]
        refine ⟨ih.1.after after alive, fun serving accepted => ?_⟩
        have before : t.Serving := serving
        rw [ended_of_serving (same ▸ tree) before accepted] at after
        exact after.first_call (ih.2 before accepted) ih.1
      · have now : ({ t with clients := Function.update t.clients d client } : Sessions).clients c = t.clients c :=
          Function.update_of_ne own _ _
        rw [now]
        exact ih

/-- A step of the threads of client `c`, but for keys and lines. -/
def SessionEvent.OwnStep (c : Nat) (e : SessionEvent) : Prop := ∃ event, ¬ event.Input ∧ e = .client c event

/-- **How client programs end.** A client program calls `run_cube` at most twice, never
returns from `main`, and exits with a failure only. While the server's first process runs
it does not come out of the first call, whatever keys were pressed. Left alone it takes
at most 45 steps; then it is gone, or it waits for a key, or after `q` for the server to
close the connection. -/
theorem client_programs_wait (h : sessions.Reach t) (c : Nat) :
    ((t.clients c).rounds ≤ 2 ∧ (t.clients c).main ≠ .returned ∧
      ∀ status, (t.clients c).main = .exited status → status = exitFailure) ∧
    (t.Serving → 1 ≤ c → (t.clients c).rounds ≤ 1 ∧ (t.clients c).socket ≠ .returned) ∧
    (∀ events t', (∀ e ∈ events, e.OwnStep c) → sessions.run t events = some t' → events.length ≤ 45) ∧
    (sessions.Stuck (SessionEvent.OwnStep c) t → (t.clients c).Waits (t.ended c)) := by
  obtain ⟨inv, first⟩ := sessions_clients h c
  refine ⟨⟨inv.rounds, inv.notReturned, inv.failed⟩, first, fun events t' own run => ?_, fun stuck => ?_⟩
  · have lowers : ∀ s e s', sessions.Reach s → e.OwnStep c → sessions.step s e = some s' →
        (s'.clients c).cost + 1 ≤ (s.clients c).cost + 0 := by
      rintro s e s' reach ⟨event, noInput, rfl⟩ step
      obtain ⟨client, moved, rfl⟩ := sessionsStep_client.1 step
      have less := (sessions_clients reach c).1.step_cost noInput moved
      simpa using less
    have bound := h.run_length (fun _ => 0) lowers own run
    have most := (t.clients c).cost_le
    simp only [List.map_const', List.sum_replicate, smul_zero, Nat.add_zero] at bound
    omega
  · refine inv.waits fun event noInput => ?_
    cases step : (t.clients c).step (t.ended c) event with
    | none => rfl
    | some client =>
      obtain ⟨t', moved⟩ : ∃ t', sessions.step t (.client c event) = some t' :=
        ⟨_, sessionsStep_client.2 ⟨client, step, rfl⟩⟩
      exact absurd ⟨event, noInput, rfl⟩ (stuck.never moved)

/-- A client connects, is accepted and presses `q`; then its child at the server exits. -/
def quits : List SessionEvent :=
  [.client 1 (.connect true), .client 1 (.create true), .client 1 (.create true), .client 1 (.create true),
    .client 1 (.openSocket true), .client 1 (.openCurses true)] ++ oneClient.map .server ++
    [.client 1 (.key keyQ), .client 1 (.join true), .server (1, .exit)]

/-- The client still waits in `run_cube`. -/
theorem client_programs_wait_quits : ∃ t, sessions.run ⟨⟨[firstProcess], [∅]⟩, fun _ => .start⟩ quits = some t ∧
    (t.clients 1).main = .joiningSocket ∧ (t.clients 1).rounds ≤ 1 ∧ (t.clients 1).socket ≠ .returned := by
  have checked : ∃ t ∈ sessions.run ⟨⟨[firstProcess], [∅]⟩, fun _ => .start⟩ quits,
      (∃ first ∈ t.server.processes[0]?, first.main ≠ .exited) ∧ (t.clients 1).main = .joiningSocket := by
    decide +kernel
  obtain ⟨t, run, first, main⟩ := checked
  have reach : sessions.Reach t := System.Reach.run (.init rfl) run
  exact ⟨t, run, main, (client_programs_wait reach 1).2.1 first le_rfl⟩

end Rubiks
