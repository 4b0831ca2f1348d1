import Rubiks.Server.Processes

/-!
# Pipe ends across the processes

All pipes are there before the first fork. A child closes the two ends of its own slot it
does not need, and keeps those of every other slot that were open when it was forked
until it exits: the write ends from the server to each other client, and the write ends to
the server of the slots after its own (`pipe_ownership_iff`).
-/

namespace Rubiks

open Logic

variable {P P' : Process} {forked : List Process} {isOpen : PipeEnd → Bool} {event : ProcessEvent}
  {s s' : List Process}

/-! ## Who holds which pipe end -/

namespace Process

@[simp] theorem mem_close {P : Process} {closed : Finset PipeEnd} {e : PipeEnd} :
    e ∈ (P.close closed).ends ↔ e ∈ P.ends ∧ e ∉ closed := Finset.mem_sdiff

@[simp] theorem close_main (P : Process) (closed : Finset PipeEnd) : (P.close closed).main = P.main := rfl

@[simp] theorem close_socketEnded (P : Process) (closed : Finset PipeEnd) :
    (P.close closed).socketEnded = P.socketEnded := rfl

@[simp] theorem close_numClientsConnected (P : Process) (closed : Finset PipeEnd) :
    (P.close closed).numClientsConnected = P.numClientsConnected := rfl

@[simp] theorem acceptReturns_ends (P : Process) : (P.acceptReturns 0).ends = P.ends := by
  rcases P.acceptReturns_cases with ⟨next, after⟩ | ⟨last, after⟩ <;> rw [after]

@[simp] theorem acceptReturns_numClientsConnected (P : Process) :
    (P.acceptReturns 0).numClientsConnected = P.numClientsConnected + 1 := by
  rcases P.acceptReturns_cases with ⟨next, after⟩ | ⟨last, after⟩ <;> rw [after]

/-- How often the process has forked, if it is the first one. -/
def forks (P : Process) : Nat :=
  match P.main with
  | .parent _ => P.numClientsConnected + 1
  | _ => P.numClientsConnected

theorem acceptReturns_forks (P : Process) : (P.acceptReturns 0).forks = P.numClientsConnected + 1 := by
  rcases P.acceptReturns_cases with ⟨next, after⟩ | ⟨last, after⟩ <;> rw [after] <;> rfl

/-- The write ends of the first process, of the slots from the next call's on and of all. -/
structure FirstEnds (P : Process) : Prop where
  clientToServer : ∀ j : FaceId, (j, 0, 1) ∈ P.ends ↔ P.numClientsConnected ≤ j.val
  serverToClient : ∀ j : FaceId, (j, 1, 1) ∈ P.ends

/-- The write ends of the child of slot `i`: what the first process held when it forked, but
for its own two once it has closed them. -/
structure ChildEnds (i : FaceId) (P : Process) : Prop where
  slot : P.clientId = some i
  ends : (P.main = .exited ∧ P.ends = ∅) ∨
    (P.main = .child i ∨ P.main = .serving i) ∧
      (∀ j : FaceId, (j, 0, 1) ∈ P.ends ↔ i < j ∨ j = i ∧ P.socketEnded = false) ∧
      ∀ j : FaceId, (j, 1, 1) ∈ P.ends ↔ j ≠ i ∨ P.main = .child i

theorem FirstEnds.fork {id : FaceId} (h : P.FirstEnds) (count : P.numClientsConnected = id.val) :
    (P.fork id).ChildEnds id where
  slot := rfl
  ends := by
    refine .inr ⟨.inl rfl, fun j => ?_, fun j => ?_⟩
    · show (j, 0, 1) ∈ P.ends ↔ _
      rw [h.clientToServer, count]
      simp only [Process.fork, and_true, Fin.lt_def, Fin.ext_iff]
      omega
    · exact iff_of_true (h.serverToClient j) (.inr rfl)

/-- One step of the first process, as long as it has not exited. -/
theorem FirstEnds.acts (h : P.FirstEnds) (inv : P.Inv 0) (acts : P.Acts isOpen event P' forked) (alive : P'.main ≠ .exited) :
    P'.FirstEnds ∧ P'.forks = P.forks + forked.length := by
  have noChild : ∀ id, ¬ (P.main = .child id ∨ P.main = .serving id) := by
    intro id main
    have slot := (inv.child id main).1
    rw [inv.first.1 rfl] at slot
    cases slot
  cases acts with
  | @accept id main => exact ⟨⟨h.clientToServer, h.serverToClient⟩, by simp [forks, main]⟩
  | @parentCloses id main =>
    have count := (inv.accepting id (.inr main)).2
    refine ⟨⟨fun j => ?_, fun j => ?_⟩, ?_⟩
    · have others := h.clientToServer j
      simp only [acceptReturns_ends, acceptReturns_numClientsConnected, close_numClientsConnected, mem_close, others]
      simp only [Finset.mem_insert, Finset.mem_singleton, Prod.mk.injEq, count, Fin.ext_iff]
      grind
    · simp [h.serverToClient j]
    · rw [acceptReturns_forks, forks, main]
      rfl
  | @childCloses id main => exact absurd (.inl main) (noChild id)
  | @socketEof id closed main running => exact absurd (.inr main) (noChild id)
  | @pipeEof id closed main running eof => exact absurd (.inr main) (noChild id)
  | @listenerEof i closed running eof =>
    refine ⟨⟨fun j => ?_, fun j => ?_⟩, rfl⟩
    · simp [h.clientToServer j]
    · simp [h.serverToClient j]
  | interpret cube running => exact ⟨⟨h.clientToServer, h.serverToClient⟩, rfl⟩
  | exit => exact absurd rfl alive

/-- One step of a child. -/
theorem ChildEnds.acts {i : FaceId} {p : Nat} (h : P.ChildEnds i) (inv : P.Inv p) (alive : P.main ≠ .exited)
    (acts : P.Acts isOpen event P' forked) : P'.ChildEnds i ∧ forked = [] := by
  obtain ⟨exited, -⟩ | ⟨main, clientToServer, serverToClient⟩ := h.ends
  · exact absurd exited alive
  have own : ∀ id, P.main = .child id ∨ P.main = .serving id → id = i := by
    intro id at_
    rcases main with main | main <;> rw [main] at at_ <;> simpa [eq_comm] using at_
  cases acts with
  | @accept id at_ => simp [at_] at main
  | @parentCloses id at_ => simp [at_] at main
  | @childCloses id at_ =>
    obtain rfl := own id (.inl at_)
    refine ⟨⟨h.slot, .inr ⟨.inr rfl, fun j => ?_, fun j => ?_⟩⟩, rfl⟩
    · simp [clientToServer j]
    · simp [serverToClient j, at_]
  | @socketEof id closed at_ running isOpen =>
    obtain rfl := own id (.inr at_)
    have waits := inv.socketEof_joins at_ isOpen
    rw [waits]
    refine ⟨⟨h.slot, .inr ⟨.inr at_, fun j => ?_, fun j => ?_⟩⟩, rfl⟩
    · simp only [mem_close, close_socketEnded, clientToServer j, running]
      simp only [Finset.mem_singleton, Prod.mk.injEq]
      grind
    · simp [serverToClient j]
  | @pipeEof id closed at_ running eof isOpen =>
    obtain rfl := own id (.inr at_)
    have waits := inv.pipeEof_joins at_ isOpen
    rw [waits]
    refine ⟨⟨h.slot, .inr ⟨.inr at_, fun j => ?_, fun j => ?_⟩⟩, rfl⟩
    · simp [clientToServer j]
    · simp [serverToClient j]
  | @listenerEof k closed running eof =>
    refine ⟨⟨h.slot, .inr ⟨main, fun j => ?_, fun j => ?_⟩⟩, rfl⟩
    · simp [clientToServer j]
    · simp [serverToClient j]
  | interpret cube running => exact ⟨⟨h.slot, .inr ⟨main, clientToServer, serverToClient⟩⟩, rfl⟩
  | exit => exact ⟨⟨h.slot, .inl ⟨rfl, rfl⟩⟩, rfl⟩

end Process

/-- A process that exits holds nothing any more. -/
theorem Process.Acts.ends_of_exited {p : Nat} (acts : P.Acts isOpen event P' forked) (inv : P.Inv p)
    (alive : P.main ≠ .exited) (exited : P'.main = .exited) : P'.ends = ∅ := by
  cases acts with
  | accept main => cases exited
  | @parentCloses id main =>
    rcases Process.acceptReturns_cases
      (({ P with listeners := insert id P.listeners } : Process).close {(id, 0, 1), (id, 1, 0)}) with
      ⟨next, after⟩ | ⟨last, after⟩ <;> rw [after] at exited <;> cases exited
  | childCloses main => cases exited
  | @socketEof id closed main running isOpen =>
    have waits := inv.socketEof_joins main isOpen
    rw [waits] at exited
    exact absurd exited alive
  | @pipeEof id closed main running eof isOpen =>
    have waits := inv.pipeEof_joins main isOpen
    rw [waits] at exited
    exact absurd exited alive
  | listenerEof running eof => exact absurd exited alive
  | interpret cube running => exact absurd exited alive
  | exit => rfl

/-- What the processes hold open: process `p + 1` is the child of slot `p`. -/
structure TreeEnds (s : List Process) (first : Process) : Prop where
  found : s[0]? = some first
  gone : first.main = .exited → first.ends = ∅
  own : first.main ≠ .exited → first.FirstEnds
  count : first.main ≠ .exited → s.length = first.forks + 1
  bounded : s.length ≤ 7
  children : ∀ (p : Nat) (P : Process), s[p + 1]? = some P → ∃ i : FaceId, i.val = p ∧ P.ChildEnds i

theorem someHolds_iff {e : PipeEnd} : someHolds s e = true ↔ ∃ P ∈ s, e ∈ P.ends := by
  simp [someHolds]

theorem TreeEnds.start : TreeEnds [firstProcess] firstProcess where
  found := rfl
  gone := by decide
  own _ := ⟨by decide, by decide⟩
  count _ := rfl
  bounded := by decide
  children := by
    intro p P found
    cases found

/-- A step of the first process. What it forks is the child of the next slot. -/
theorem TreeEnds.first_acts (h : TreeEnds s P) (inv : P.Inv 0) (alive : P.main ≠ .exited)
    (acts : P.Acts isOpen event P' forked) : TreeEnds (s.set 0 P' ++ forked) P' := by
  have own := h.own alive
  have count := h.count alive
  refine ⟨?_, acts.ends_of_exited inv alive, fun alive' => (own.acts inv acts alive').1, fun alive' => ?_, ?_,
    fun q Q found => ?_⟩
  · have inRange := (List.getElem?_eq_some_iff.1 h.found).1
    rw [List.getElem?_append_left (by simpa using inRange), List.getElem?_set_self inRange]
  · rw [List.length_append, List.length_set, count, (own.acts inv acts alive').2]
    omega
  · rw [List.length_append, List.length_set]
    cases forked with
    | nil => simpa using h.bounded
    | cons Q more =>
      obtain ⟨id, main, same⟩ := acts.of_forked List.mem_cons_self
      have slot := (inv.accepting id (.inl main)).2
      have forks : P.forks = id.val := by simp only [Process.forks, main, slot]
      rw [same, count, forks, List.length_singleton]
      omega
  · rcases after_process found with ⟨same, rfl⟩ | ⟨-, found⟩ | ⟨k, index, new⟩
    · omega
    · exact h.children q Q found
    · obtain ⟨id, main, rfl⟩ := acts.of_forked (List.mem_of_getElem? new)
      obtain ⟨rfl, rfl⟩ : k = 0 ∧ P.fork id = Q := by
        cases k with
        | zero => exact ⟨rfl, Option.some.inj new⟩
        | succ k => cases new
      have slot := (inv.accepting id (.inl main)).2
      refine ⟨id, ?_, own.fork slot⟩
      rw [count, Process.forks, main, slot] at index
      exact (Nat.succ.inj index).symm

/-- A step of a child. -/
theorem TreeEnds.child_acts {first : Process} {p : Nat} (h : TreeEnds s first) (inv : P.Inv (p + 1))
    (at_ : s[p + 1]? = some P) (alive : P.main ≠ .exited) (acts : P.Acts isOpen event P' forked) :
    TreeEnds (s.set (p + 1) P' ++ forked) first := by
  obtain ⟨i, slot, ends⟩ := h.children p P at_
  obtain ⟨ends', rfl⟩ := ends.acts inv alive acts
  rw [List.append_nil]
  refine ⟨?_, h.gone, h.own, ?_, ?_, fun q Q found => ?_⟩
  · rw [List.getElem?_set_ne (Nat.succ_ne_zero p)]
    exact h.found
  · rw [List.length_set]
    exact h.count
  · rw [List.length_set]
    exact h.bounded
  · rw [← List.append_nil (s.set (p + 1) P')] at found
    rcases after_process found with ⟨same, rfl⟩ | ⟨-, found⟩ | ⟨k, -, new⟩
    · exact ⟨i, slot.trans (Nat.succ.inj same).symm, ends'⟩
    · exact h.children q Q found
    · cases new

/-- In every reachable state each process keeps to its slot. -/
theorem serverTree_ends (h : serverTree.Reach s) : ∃ first, TreeEnds s first := by
  induction h with
  | init start =>
    cases start
    exact ⟨firstProcess, .start⟩
  | @step s s' e reach next ih =>
    obtain ⟨first, ends⟩ := ih
    obtain ⟨P, P', forked, at_, alive, acts, rfl⟩ := serverTree_cases next
    have inv := serverTree_inv reach _ P at_
    generalize e.1 = p at at_ inv ⊢
    cases p with
    | zero =>
      obtain rfl : first = P := Option.some.inj (ends.found.symm.trans at_)
      exact ⟨P', ends.first_acts inv alive acts⟩
    | succ p => exact ⟨first, ends.child_acts inv at_ alive acts⟩

namespace Process

/-- The write ends of a child, exited or not. -/
theorem ChildEnds.mem_iff {i : FaceId} (h : P.ChildEnds i) (j : FaceId) :
    ((j, 0, 1) ∈ P.ends ↔ P.main ≠ .exited ∧ (i < j ∨ j = i ∧ P.socketEnded = false)) ∧
      ((j, 1, 1) ∈ P.ends ↔ P.main ≠ .exited ∧ (j ≠ i ∨ P.main = .child i)) := by
  obtain ⟨exited, none⟩ | ⟨main, clientToServer, serverToClient⟩ := h.ends
  · simp [exited, none]
  · have alive : P.main ≠ .exited := by rcases main with main | main <;> simp [main]
    rw [clientToServer, serverToClient, and_iff_right alive, and_iff_right alive]
    exact ⟨Iff.rfl, Iff.rfl⟩

end Process

/-- A process of the tree is the first one or the child of some slot. -/
theorem TreeEnds.mem_cases {first : Process} (h : TreeEnds s first) (mem : P ∈ s) :
    P = first ∨ ∃ i : FaceId, P.ChildEnds i := by
  obtain ⟨p, at_⟩ := List.mem_iff_getElem?.1 mem
  cases p with
  | zero => exact .inl (Option.some.inj (at_.symm.trans h.found))
  | succ p =>
    obtain ⟨i, -, ends⟩ := h.children p P at_
    exact .inr ⟨i, ends⟩

/-- **The ends of slot `i` are where they are needed**: only its child holds the write end
to the server and only the first process the one to the client, so that the listener and
the child's thread see the end of file when the other side is gone. -/
structure PipeOwnership (s : List Process) (i : FaceId) : Prop where
  clientToServer : ∀ P ∈ s, (i, 0, 1) ∈ P.ends → P.clientId = some i
  serverToClient : ∀ P ∈ s, (i, 1, 1) ∈ P.ends → P.clientId = none
  listenerEof : ∀ child ∈ s, child.clientId = some i → child.main = .exited ∨ child.socketEnded = true →
    someHolds s (i, 0, 1) = false
  pipeEof : ∀ s', serverTree.step s (0, .exit) = some s' → someHolds s' (i, 1, 1) = false

/-- Every child but that of slot `i` has exited. -/
def OthersExited (s : List Process) (i : FaceId) : Prop :=
  ∀ P ∈ s, P.clientId ≠ none → P.clientId ≠ some i → P.main = .exited

variable {first child : Process} {i : FaceId}

theorem Process.ChildEnds.slot_eq {j : FaceId} (h : P.ChildEnds j) (slot : P.clientId = some i) : j = i :=
  Option.some.inj (h.slot.symm.trans slot)

/-- A process with a slot is its child. -/
theorem TreeEnds.childEnds (h : TreeEnds s first) (none : first.clientId = none)
    (mem : P ∈ s) (slot : P.clientId = some i) : P.ChildEnds i := by
  rcases h.mem_cases mem with rfl | ⟨k, ends⟩
  · rw [none] at slot
    cases slot
  · rwa [← ends.slot_eq slot]

/-- Nobody but child `i` keeps an end of slot `i` from a listener or a client exactly when
the other children are gone. -/
theorem owned_iff (h : TreeEnds s first) (alive : first.main ≠ .exited) (none : first.clientId = none)
    (accepted : i.val < first.numClientsConnected)
    (closed : ∀ child ∈ s, child.clientId = some i → child.main ≠ .child i) :
    ((∀ P ∈ s, (i, 0, 1) ∈ P.ends → P.clientId = some i) ∧ ∀ P ∈ s, (i, 1, 1) ∈ P.ends → P.clientId = Option.none) ↔
      OthersExited s i := by
  constructor
  · rintro ⟨-, serverToClient⟩ P mem isChild other
    rcases h.mem_cases mem with rfl | ⟨j, ends⟩
    · exact absurd none isChild
    · by_contra alive
      refine isChild (serverToClient P mem ((ends.mem_iff i).2.2 ⟨alive, .inl ?_⟩))
      rintro rfl
      exact other ends.slot
  · intro exited
    refine ⟨fun P mem held => ?_, fun P mem held => ?_⟩
    · rcases h.mem_cases mem with rfl | ⟨j, ends⟩
      · rw [(h.own alive).clientToServer] at held
        omega
      · by_contra other
        have alive := ((ends.mem_iff i).1.1 held).1
        exact alive (exited P mem (by simp [ends.slot]) other)
    · rcases h.mem_cases mem with rfl | ⟨j, ends⟩
      · exact none
      · obtain ⟨alive, kept⟩ := (ends.mem_iff i).2.1 held
        by_cases same : P.clientId = some i
        · obtain rfl := ends.slot_eq same
          exact absurd (kept.resolve_left (by simp)) (closed P mem same)
        · exact absurd (exited P mem (by simp [ends.slot]) same) alive

/-- A slot has one child. -/
theorem TreeEnds.child_unique (h : TreeEnds s first) (none : first.clientId = none)
    (memP : P ∈ s) (slotP : P.clientId = some i) (mem : child ∈ s) (slot : child.clientId = some i) : P = child := by
  have index : ∀ Q ∈ s, Q.clientId = some i → s[i.val + 1]? = some Q := by
    intro Q mem slot
    obtain ⟨q, at_⟩ := List.mem_iff_getElem?.1 mem
    cases q with
    | zero =>
      obtain rfl := Option.some.inj (at_.symm.trans h.found)
      rw [none] at slot
      cases slot
    | succ q =>
      obtain ⟨j, rfl, ends⟩ := h.children q Q at_
      rwa [← ends.slot_eq slot]
  exact Option.some.inj ((index P memP slotP).symm.trans (index child mem slot))

/-- When a listener is at end of file. -/
theorem listenerEof_iff (h : TreeEnds s first) (alive : first.main ≠ .exited) (none : first.clientId = none)
    (accepted : i.val < first.numClientsConnected) (mem : child ∈ s) (slot : child.clientId = some i) :
    someHolds s (i, 0, 1) = false ↔ (child.main = .exited ∨ child.socketEnded = true) ∧
      ∀ P ∈ s, ∀ j < i, P.clientId = some j → P.main = .exited := by
  rw [← Bool.not_eq_true, someHolds_iff]
  constructor
  · intro free
    refine ⟨?_, fun P mem j before slot => ?_⟩
    · by_contra runs
      rw [not_or, Bool.not_eq_true] at runs
      exact free ⟨child, mem, ((h.childEnds none mem slot).mem_iff i).1.2 ⟨runs.1, .inr ⟨rfl, runs.2⟩⟩⟩
    · by_contra runs
      exact free ⟨P, mem, ((h.childEnds none mem slot).mem_iff i).1.2 ⟨runs, .inl before⟩⟩
  · rintro ⟨gone, before⟩ ⟨P, memP, held⟩
    rcases h.mem_cases memP with rfl | ⟨j, endsP⟩
    · rw [(h.own alive).clientToServer] at held
      omega
    · obtain ⟨runs, kept⟩ := (endsP.mem_iff i).1.1 held
      rcases kept with lower | ⟨rfl, running⟩
      · exact runs (before P memP j lower endsP.slot)
      · obtain rfl := h.child_unique none memP endsP.slot mem slot
        rcases gone with exited | ended
        · exact runs exited
        · rw [running] at ended
          cases ended

/-- The child's pipe is at end of file once the first process exits after the others. -/
theorem pipeEof_of_exited (h : TreeEnds s first)
    (closed : ∀ child ∈ s, child.clientId = some i → child.main ≠ .child i) (exited : OthersExited s i)
    (step : serverTree.step s (0, .exit) = some s') : someHolds s' (i, 1, 1) = false := by
  have after : s' = s.set 0 first.exit ++ [] := by
    simp only [serverTree, h.found, Option.bind_eq_bind, Option.bind_some, Process.step] at step
    split at step
    · cases step
    · exact (Option.some.inj step).symm
  rw [← Bool.not_eq_true, someHolds_iff, after]
  rintro ⟨P, mem, held⟩
  obtain ⟨p, at_⟩ := List.mem_iff_getElem?.1 mem
  rcases after_process at_ with ⟨-, rfl⟩ | ⟨other, at_⟩ | ⟨k, -, new⟩
  · simp [Process.exit] at held
  · obtain ⟨q, rfl⟩ := Nat.exists_eq_succ_of_ne_zero other
    obtain ⟨j, -, ends⟩ := h.children q P at_
    obtain ⟨alive, kept⟩ := (ends.mem_iff i).2.1 held
    have memP := List.mem_of_getElem? at_
    by_cases same : P.clientId = some i
    · obtain rfl := ends.slot_eq same
      exact closed P memP same (kept.resolve_left (by simp))
    · exact alive (exited P memP (by simp [ends.slot]) same)
  · cases new

/-- **Which ends a child keeps open.** In every reachable state in which the first process
has not exited, connection `i` was accepted and both sides have done their closes: the ends
of slot `i` are where they are needed exactly when every other child has exited, and its
listener is at end of file exactly when the child has closed its end and the children of
the slots before have exited. -/
theorem pipe_ownership_iff (h : serverTree.Reach s) (found : s[0]? = some first) (alive : first.main ≠ .exited)
    (accepted : i.val < first.numClientsConnected)
    (mem : child ∈ s) (slot : child.clientId = some i) (closed : child.main ≠ .child i) :
    (PipeOwnership s i ↔ OthersExited s i) ∧
    (someHolds s (i, 0, 1) = false ↔ (child.main = .exited ∨ child.socketEnded = true) ∧
      ∀ P ∈ s, ∀ j < i, P.clientId = some j → P.main = .exited) := by
  have none : first.clientId = none := (serverTree_inv h 0 first found).first.1 rfl
  obtain ⟨first', ends⟩ := serverTree_ends h
  obtain rfl : first = first' := Option.some.inj (found.symm.trans ends.found)
  have eof := listenerEof_iff ends alive none accepted mem slot
  have closed' : ∀ child ∈ s, child.clientId = some i → child.main ≠ .child i := by
    intro P memP slotP
    rw [ends.child_unique none memP slotP mem slot]
    exact closed
  have owned := owned_iff ends alive none accepted closed'
  refine ⟨⟨fun all => owned.1 ⟨all.clientToServer, all.serverToClient⟩, fun exited => ?_⟩, eof⟩
  refine ⟨(owned.2 exited).1, (owned.2 exited).2, fun P memP slotP gone => ?_, fun s' step => ?_⟩
  · rw [ends.child_unique none memP slotP mem slot] at gone
    refine eof.2 ⟨gone, fun Q memQ j before slotQ => exited Q memQ (by simp [slotQ]) ?_⟩
    rw [slotQ]
    intro same
    exact before.ne (Option.some.inj same)
  · exact pipeEof_of_exited ends closed' exited step

/-- One client, and a second one whose child has exited. -/
def oneClient : List (Nat × ProcessEvent) := [(0, .accept), (0, .parentCloses), (1, .childCloses)]

def secondClientGone : List (Nat × ProcessEvent) :=
  oneClient ++ [(0, .accept), (0, .parentCloses), (2, .childCloses), (2, .exit)]

/-- A single client's ends are where they are needed. -/
theorem pipe_ownership_iff_single : ∃ s, serverTree.run [firstProcess] oneClient = some s ∧ PipeOwnership s 0 := by
  have checked : ∃ s ∈ serverTree.run [firstProcess] oneClient,
      (∃ first ∈ s[0]?, first.main ≠ .exited ∧ 0 < first.numClientsConnected) ∧
      (∃ child ∈ s, child.clientId = some 0 ∧ child.main ≠ .child 0) ∧ OthersExited s 0 := by
    unfold OthersExited
    decide +kernel
  obtain ⟨s, run, ⟨first, found, alive, accepted⟩, ⟨child, mem, slot, closed⟩, exited⟩ := checked
  have reach : serverTree.Reach s := System.Reach.run reach_firstProcess run
  exact ⟨s, run, (pipe_ownership_iff reach found alive accepted mem slot closed).1.2 exited⟩

/-- The child of slot 0 keeps the listener of slot 1 from seeing that its client is gone. -/
theorem pipe_ownership_fails : ∃ s first child, serverTree.Reach s ∧ s[0]? = some first ∧ first.main ≠ .exited ∧
    1 < first.numClientsConnected ∧ child ∈ s ∧ child.clientId = some 1 ∧ child.main = .exited ∧
    someHolds s (1, 0, 1) = true ∧ ¬ PipeOwnership s 1 := by
  have checked : ∃ s ∈ serverTree.run [firstProcess] secondClientGone,
      (∃ first ∈ s[0]?, first.main ≠ .exited ∧ 1 < first.numClientsConnected) ∧
      (∃ child ∈ s, child.clientId = some 1 ∧ child.main = .exited) ∧ someHolds s (1, 0, 1) = true := by
    decide +kernel
  obtain ⟨s, run, ⟨first, found, alive, accepted⟩, ⟨child, mem, slot, exited⟩, held⟩ := checked
  refine ⟨s, first, child, System.Reach.run reach_firstProcess run, found, alive, accepted, mem, slot, exited, held, ?_⟩
  intro owned
  rw [owned.listenerEof child mem slot (.inl exited)] at held
  cases held

end Rubiks
