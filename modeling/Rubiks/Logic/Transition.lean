import Mathlib.Algebra.BigOperators.Fin

/-!
# Transition systems

A system has initial states and events; `step s e` is `none` where the event `e`
cannot happen. An invariant is proved once for the initial states and once for a
step. A simulation lets each step of one system be at most one step of another,
and carries the invariants of the second over to the first. A potential that each
step lowers, but for what the event gains, bounds the length of every run. Who acts
only when nothing else can happen may force a state whatever the schedule.
-/

namespace Rubiks.Logic

/-- States `σ` and events `ε`. -/
structure System (σ ε : Type*) where
  init : σ → Prop
  step : σ → ε → Option σ

namespace System

variable {σ ε τ δ : Type*}

/-- The states some run from an initial state ends in. -/
inductive Reach (S : System σ ε) : σ → Prop where
  | init {s : σ} : S.init s → S.Reach s
  | step {s s' : σ} {e : ε} : S.Reach s → S.step s e = some s' → S.Reach s'

/-- A property of the initial states that every step keeps holds of every
reachable state. -/
theorem Reach.invariant {S : System σ ε} {I : σ → Prop} (init : ∀ s, S.init s → I s)
    (keep : ∀ s e s', I s → S.step s e = some s' → I s') {s : σ} (h : S.Reach s) : I s := by
  induction h with
  | init start => exact init _ start
  | step _ next ih => exact keep _ _ _ ih next

/-- A list of events, one after another. -/
def run (S : System σ ε) (s : σ) (events : List ε) : Option σ := events.foldlM S.step s

theorem Reach.run {S : System σ ε} {s s' : σ} (h : S.Reach s) {events : List ε}
    (run : S.run s events = some s') : S.Reach s' := by
  induction events generalizing s with
  | nil =>
    cases run
    exact h
  | cons e events ih =>
    obtain ⟨mid, step, rest⟩ := Option.bind_eq_some_iff.1 run
    exact ih (h.step step) rest

/-- What relates the two ends of each step by an event of `P` relates the two ends of a
run of them, for a reflexive and transitive relation. -/
theorem Reach.run_rel_of {S : System σ ε} {P : ε → Prop} {r : σ → σ → Prop} (refl : ∀ s, r s s)
    (trans : ∀ a b c, r a b → r b c → r a c)
    (each : ∀ s e s', S.Reach s → P e → S.step s e = some s' → r s s') {s s' : σ} (h : S.Reach s) {events : List ε}
    (allowed : ∀ e ∈ events, P e) (run : S.run s events = some s') : r s s' := by
  induction events generalizing s with
  | nil =>
    cases run
    exact refl _
  | cons e events ih =>
    obtain ⟨mid, step, rest⟩ := Option.bind_eq_some_iff.1 run
    obtain ⟨own, others⟩ := List.forall_mem_cons.1 allowed
    exact trans _ _ _ (each _ _ _ h own step) (ih (h.step step) others rest)

/-- The same for any events. -/
theorem Reach.run_rel {S : System σ ε} {r : σ → σ → Prop} (refl : ∀ s, r s s)
    (trans : ∀ a b c, r a b → r b c → r a c)
    (each : ∀ s e s', S.Reach s → S.step s e = some s' → r s s') {s s' : σ} (h : S.Reach s) {events : List ε}
    (run : S.run s events = some s') : r s s' :=
  h.run_rel_of refl trans (fun s e s' reach (_ : True) => each s e s' reach) (fun _ _ => trivial) run

/-- A run of a system is one of any system with its steps. -/
theorem run_of_step {S T : System σ ε} (steps : ∀ s e s', S.step s e = some s' → T.step s e = some s') {s s' : σ}
    {events : List ε} (run : S.run s events = some s') : T.run s events = some s' := by
  induction events generalizing s with
  | nil => exact run
  | cons e events ih =>
    obtain ⟨mid, step, rest⟩ := Option.bind_eq_some_iff.1 run
    exact Option.bind_eq_some_iff.2 ⟨mid, steps _ _ _ step, ih rest⟩

/-! ## Simulations -/

/-- `R` relates each state of `S` to one of `T`; a step of `S` is no step or one
step of `T`. -/
structure Simulation (S : System σ ε) (T : System τ δ) (R : σ → τ → Prop) : Prop where
  init : ∀ s, S.init s → ∃ t, T.init t ∧ R s t
  step : ∀ s t e s', T.Reach t → R s t → S.step s e = some s' →
    R s' t ∨ ∃ d t', T.step t d = some t' ∧ R s' t'

/-- Every reachable state of `S` is related to a reachable state of `T`. -/
theorem Simulation.reach {T : System τ δ} {R : σ → τ → Prop} (sim : Simulation S T R) {s : σ}
    (h : S.Reach s) : ∃ t, T.Reach t ∧ R s t := by
  induction h with
  | init start =>
    obtain ⟨t, init, related⟩ := sim.init _ start
    exact ⟨t, .init init, related⟩
  | step _ next ih =>
    obtain ⟨t, reach, related⟩ := ih
    rcases sim.step _ _ _ _ reach related next with stay | ⟨d, t', step, related'⟩
    · exact ⟨t, reach, stay⟩
    · exact ⟨t', reach.step step, related'⟩

/-! ## Runs that end -/

/-- A sum of potentials is lowered by lowering one of them. -/
theorem sum_lt {κ : Type*} [Fintype κ] (i : κ) {before after : κ → Nat} {gained left : Nat}
    (others : ∀ j, j ≠ i → after j = before j) (own : after i + left < before i + gained) :
    ∑ j, after j + left < ∑ j, before j + gained := by
  classical
  have rest : ∑ j ∈ {i}ᶜ, after j = ∑ j ∈ {i}ᶜ, before j :=
    Finset.sum_congr rfl fun j other => others j (by simpa using other)
  rw [Fintype.sum_eq_add_sum_compl i, Fintype.sum_eq_add_sum_compl i, rest]
  omega

/-- No event of `P` can happen. -/
def Stuck (S : System σ ε) (P : ε → Prop) (s : σ) : Prop := ∀ e, P e → S.step s e = none

theorem Stuck.never {S : System σ ε} {P : ε → Prop} {s s' : σ} {e : ε} (h : S.Stuck P s)
    (step : S.step s e = some s') : ¬ P e := by
  intro allowed
  rw [h e allowed] at step
  cases step

/-- A run of events of `P` is no longer than the potential it starts with and what
its events gain. -/
theorem Reach.run_length {S : System σ ε} {potential : σ → Nat} {P : ε → Prop} (gain : ε → Nat)
    (lowers : ∀ s e s', S.Reach s → P e → S.step s e = some s' → potential s' + 1 ≤ potential s + gain e)
    {s s' : σ} (h : S.Reach s) {events : List ε} (allowed : ∀ e ∈ events, P e) (run : S.run s events = some s') :
    events.length + potential s' ≤ potential s + (events.map gain).sum := by
  induction events generalizing s with
  | nil =>
    cases run
    simp
  | cons e events ih =>
    obtain ⟨mid, step, rest⟩ := Option.bind_eq_some_iff.1 run
    obtain ⟨own, others⟩ := List.forall_mem_cons.1 allowed
    have first := lowers s e mid h own step
    have later := ih (h.step step) others rest
    rw [List.length_cons, List.map_cons, List.sum_cons]
    omega

/-- Where the events of `P` lower a potential, any schedule of them ends. -/
theorem Reach.run_stuck {S : System σ ε} {potential : σ → Nat} (P : ε → Prop)
    (lowers : ∀ s e s', S.Reach s → P e → S.step s e = some s' → potential s' < potential s) {s : σ}
    (h : S.Reach s) : ∃ events s', (∀ e ∈ events, P e) ∧ S.run s events = some s' ∧ S.Stuck P s' := by
  generalize bound : potential s = n
  induction n using Nat.strongRecOn generalizing s with
  | ind n ih =>
    by_cases stuck : S.Stuck P s
    · exact ⟨[], s, by simp, rfl, stuck⟩
    · simp only [Stuck, Classical.not_forall] at stuck
      obtain ⟨e, allowed, moves⟩ := stuck
      obtain ⟨mid, step⟩ := Option.ne_none_iff_exists'.1 moves
      obtain ⟨events, s', each, run, ends⟩ := ih _ (bound ▸ lowers s e mid h allowed step) (h.step step) rfl
      refine ⟨e :: events, s', List.forall_mem_cons.2 ⟨allowed, each⟩, ?_, ends⟩
      exact Option.bind_eq_some_iff.2 ⟨mid, step, run⟩

/-! ## Events of one's own -/

/-- From `s` on, events of `mine`, each followed by any schedule of events of `others`
until none of them can happen, lead to `Q`. -/
inductive Forces (S : System σ ε) (mine others : ε → Prop) (Q : σ → Prop) : σ → Prop where
  | done {s : σ} : Q s → S.Forces mine others Q s
  | move {s mid : σ} {e : ε} : mine e → S.step s e = some mid →
      (∀ events s', (∀ e ∈ events, others e) → S.run mid events = some s' → S.Stuck others s' →
        S.Forces mine others Q s') → S.Forces mine others Q s

theorem Forces.bind {S : System σ ε} {mine others : ε → Prop} {Q R : σ → Prop} {s : σ} (h : S.Forces mine others Q s)
    (next : ∀ s, Q s → S.Forces mine others R s) : S.Forces mine others R s := by
  induction h with
  | done goal => exact next _ goal
  | move own step _ ih => exact .move own step ih

end System

end Rubiks.Logic
