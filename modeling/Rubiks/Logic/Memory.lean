import Mathlib.Data.Set.Card
import Mathlib.Order.CompletePartialOrder

/-!
# Programs on a heap

A heap maps addresses to live blocks of any type `β`. `malloc` asks an
`Allocator`, which may answer each request as it likes or refuse it, but never
with an address in use. Reading, writing or freeing an address without a live block
is undefined; a refused request ends the program too, as a fault of its own. `wp` is
the weakest precondition of a program, with one law for each primitive and one for a
loop; `Fails` says that a program does not return.

`Placed base L x S h` splits a heap in two: the blocks `x k` at the addresses
`L k`, for `k` in `S`, and everything else, which is `base`. It is kept by
allocation, writes and frees, a placement on top of another joins it (`attach`),
and a part of one is a placement on top of the rest (`detach`).
-/

namespace Rubiks.Logic

abbrev Address := Nat

/-- The live blocks. -/
abbrev Blocks (β : Type) := Address → Option β

/-- The live blocks and the number of calls of `malloc` so far. -/
structure Heap (β : Type) where
  blocks : Blocks β
  requests : Nat

namespace Heap

variable {β : Type}

/-- The heap with `b` at the address `a`. -/
def store (h : Heap β) (a : Address) (b : β) : Heap β := { h with blocks := Function.update h.blocks a (some b) }

/-- The heap without the block at `a`. -/
def erase (h : Heap β) (a : Address) : Heap β := { h with blocks := Function.update h.blocks a none }

@[simp] theorem blocks_store (h : Heap β) (a : Address) (b : β) :
    (h.store a b).blocks = Function.update h.blocks a (some b) := rfl

@[simp] theorem blocks_erase (h : Heap β) (a : Address) :
    (h.erase a).blocks = Function.update h.blocks a none := rfl

end Heap

/-- What ends a program early. -/
inductive Fault where
  /-- `malloc` returned a null pointer, and the program stores through it. -/
  | outOfMemory
  /-- Any other undefined behaviour. -/
  | undefined

/-- How `malloc` answers: `next n blocks` is the answer to request `n`, `none` a
null pointer. -/
structure Allocator (β : Type) where
  next : Nat → Blocks β → Option Address
  fresh : ∀ n blocks a, next n blocks = some a → blocks a = none

/-- A program with results in `α`. -/
abbrev Prog (β α : Type) := StateT (Heap β) (Except Fault) α

namespace Prog

variable {β α γ : Type}

/-- Undefined behaviour where a value is missing. -/
def defined (v : Option α) : Prog β α := fun h =>
  match v with
  | some v => .ok (v, h)
  | none => .error .undefined

/-- `malloc`, the new block holding `b`. The caller uses the pointer unchecked, so
a null pointer ends the program. -/
def malloc (A : Allocator β) (b : β) : Prog β Address := fun h =>
  match A.next h.requests h.blocks with
  | some a => .ok (a, { h.store a b with requests := h.requests + 1 })
  | none => .error .outOfMemory

/-- The block at an address. -/
def read (a : Address) : Prog β β := fun h =>
  match h.blocks a with
  | some b => .ok (b, h)
  | none => .error .undefined

/-- Overwrite a live block. -/
def write (a : Address) (b : β) : Prog β Unit := fun h =>
  match h.blocks a with
  | some _ => .ok ((), h.store a b)
  | none => .error .undefined

/-- `free`. -/
def free (a : Address) : Prog β Unit := fun h =>
  match h.blocks a with
  | some _ => .ok ((), h.erase a)
  | none => .error .undefined

end Prog

/-- The number of live blocks. -/
noncomputable def live {β : Type} (blocks : Blocks β) : ENat := {a | blocks a ≠ none}.encard

/-- The allocator may refuse a request while fewer than `limit` blocks are live. -/
def Allocator.Refuses {β : Type} (A : Allocator β) (limit : Nat) : Prop :=
  ∃ n blocks, live blocks + 1 ≤ limit ∧ A.next n blocks = none

section Preconditions

variable {β α γ : Type} {A : Allocator β} {limit : Nat}

/-- Nothing undefined happens from `h`; the program ends with `post`, or `malloc`
refused a request although fewer than `limit` blocks were live. -/
def wp (A : Allocator β) (limit : Nat) (prog : Prog β α) (post : α → Heap β → Prop) (h : Heap β) : Prop :=
  match prog h with
  | .ok (a, h') => post a h'
  | .error .outOfMemory => A.Refuses limit
  | .error .undefined => False

/-- The program does not return: it is undefined, or `malloc` refused a request
although fewer than `limit` blocks were live. -/
def Fails (A : Allocator β) (limit : Nat) (prog : Prog β α) (h : Heap β) : Prop :=
  prog h = .error .undefined ∨ prog h = .error .outOfMemory ∧ A.Refuses limit

/-- How a program with a precondition ends. -/
theorem wp.cases {prog : Prog β α} {post : α → Heap β → Prop} {h : Heap β} (pre : wp A limit prog post h) :
    (∃ a h', prog h = .ok (a, h') ∧ post a h') ∨ prog h = .error .outOfMemory ∧ A.Refuses limit := by
  unfold wp at pre
  split at pre
  · rename_i a h' run
    exact .inl ⟨a, h', run, pre⟩
  · rename_i run
    exact .inr ⟨run, pre⟩
  · exact pre.elim

/-- What a program that returns has done. -/
theorem wp.ok {prog : Prog β α} {post : α → Heap β → Prop} {h h' : Heap β} {a : α} (pre : wp A limit prog post h)
    (run : prog h = .ok (a, h')) : post a h' := by
  rcases pre.cases with ⟨b, h'', same, held⟩ | ⟨refused, -⟩
  · rw [run] at same
    cases same
    exact held
  · rw [run] at refused
    cases refused

/-- What a program that cannot run out of memory does. -/
theorem wp.run {prog : Prog β α} {post : α → Heap β → Prop} {h : Heap β} (pre : wp A limit prog post h)
    (grants : ¬ A.Refuses limit) : ∃ a h', prog h = .ok (a, h') ∧ post a h' :=
  pre.cases.resolve_right fun refused => grants refused.2

/-- A program never ends in undefined behaviour where it has a precondition. -/
theorem wp.defined {prog : Prog β α} {post : α → Heap β → Prop} {h : Heap β} (pre : wp A limit prog post h) :
    prog h ≠ .error .undefined := by
  intro undefined
  rw [wp, undefined] at pre
  exact pre

theorem wp_pure {v : α} {post : α → Heap β → Prop} {h : Heap β} (pre : post v h) :
    wp A limit (pure v) post h := pre

theorem wp_mono {prog : Prog β α} {post post' : α → Heap β → Prop} {h : Heap β} (pre : wp A limit prog post h)
    (weaken : ∀ a h', post a h' → post' a h') : wp A limit prog post' h := by
  unfold wp at pre ⊢
  split at pre
  · exact weaken _ _ pre
  · exact pre
  · exact pre

theorem bind_ok {prog : Prog β α} {next : α → Prog β γ} {h h' : Heap β} {a : α} (run : prog h = .ok (a, h')) :
    (prog >>= next) h = next a h' := by
  show (prog h >>= fun r => next r.1 r.2) = _
  rw [run]
  rfl

theorem bind_error {prog : Prog β α} {next : α → Prog β γ} {h : Heap β} {fault : Fault}
    (run : prog h = .error fault) : (prog >>= next) h = .error fault := by
  show (prog h >>= fun r => next r.1 r.2) = _
  rw [run]
  rfl

theorem wp_bind {prog : Prog β α} {next : α → Prog β γ} {post : γ → Heap β → Prop} {h : Heap β}
    (pre : wp A limit prog (fun a => wp A limit (next a) post) h) : wp A limit (prog >>= next) post h := by
  unfold wp at pre
  cases run : prog h with
  | ok result =>
    rw [run] at pre
    rw [wp, bind_ok run]
    exact pre
  | error fault =>
    rw [run] at pre
    rw [wp, bind_error run]
    cases fault with
    | outOfMemory => exact pre
    | undefined => exact pre

/-- A program that is defined, before one that fails. -/
theorem wp.fails_bind {prog : Prog β α} {next : α → Prog β γ} {post : α → Heap β → Prop} {h : Heap β}
    (pre : wp A limit prog post h) (fails : ∀ a h', post a h' → Fails A limit (next a) h') :
    Fails A limit (prog >>= next) h := by
  rcases pre.cases with ⟨a, h', run, held⟩ | ⟨refused, refuses⟩
  · rw [Fails, bind_ok run]
    exact fails a h' held
  · exact .inr ⟨bind_error refused, refuses⟩

/-- What fails is not followed by anything. -/
theorem Fails.bind {prog : Prog β α} {next : α → Prog β γ} {h : Heap β} (fails : Fails A limit prog h) :
    Fails A limit (prog >>= next) h :=
  fails.imp bind_error fun refused => ⟨bind_error refused.1, refused.2⟩

/-- A program that is known to end in `a` and `h'`. -/
theorem wp_of_eq {prog : Prog β α} {post : α → Heap β → Prop} {h h' : Heap β} {a : α}
    (run : prog h = .ok (a, h')) (pre : post a h') : wp A limit prog post h := by
  rw [wp, run]
  exact pre

/-- A loop of programs that only read. -/
theorem wp_mapM {ι ν : Type} {f : ι → Prog β ν} {g : ι → ν} {h : Heap β} (l : List ι)
    (each : ∀ i, wp A limit (f i) (fun v h' => v = g i ∧ h' = h) h) :
    wp A limit (l.mapM f) (fun vs h' => vs = l.map g ∧ h' = h) h := by
  induction l with
  | nil => exact wp_pure ⟨rfl, rfl⟩
  | cons i l ih =>
    rw [List.mapM_cons]
    refine wp_bind (wp_mono (each i) ?_)
    rintro v h' ⟨rfl, rfl⟩
    refine wp_bind (wp_mono ih ?_)
    rintro vs h' ⟨rfl, rfl⟩
    exact wp_pure ⟨rfl, rfl⟩

/-- A loop whose iterations carry a relation along a fold. -/
theorem wp_forM {ι ν : Type} {body : ι → Prog β PUnit} (step : ν → ι → Option ν) (R : ν → Heap β → Prop)
    (each : ∀ i v v' h, step v i = some v' → R v h → wp A limit (body i) (fun _ => R v') h)
    (l : List ι) {v v' : ν} (run : l.foldlM step v = some v') {h : Heap β} (pre : R v h) :
    wp A limit (l.forM body) (fun _ => R v') h := by
  induction l generalizing v h with
  | nil =>
    cases run
    exact pre
  | cons i l ih =>
    obtain ⟨mid, first, rest⟩ := Option.bind_eq_some_iff.1 run
    exact wp_bind (wp_mono (each i v mid h first pre) fun _ h' held => ih rest held)

/-- A loop over distinct indices, with an invariant over the iterations done so far. -/
theorem wp_forM_done {ι : Type} {body : ι → Prog β PUnit} {l : List ι} (distinct : l.Nodup)
    (I : List ι → Heap β → Prop)
    (each : ∀ done i h, i ∉ done → I done h → wp A limit (body i) (fun _ => I (done ++ [i])) h) {h : Heap β}
    (pre : I [] h) : wp A limit (l.forM body) (fun _ => I l) h := by
  have rest : ∀ rest done h, l = done ++ rest → I done h → wp A limit (rest.forM body) (fun _ => I l) h := by
    intro rest
    induction rest with
    | nil =>
      rintro done h split held
      rw [split, List.append_nil]
      exact held
    | cons i rest ih =>
      intro done h split held
      have new : i ∉ done := fun mem => (List.nodup_append.1 (split ▸ distinct)).2.2 i mem i List.mem_cons_self rfl
      refine wp_bind (wp_mono (each done i h new held) fun _ h' held => ?_)
      exact ih (done ++ [i]) h' (by rw [split, List.append_assoc]; rfl) held
  exact rest l [] h rfl pre

/-- A loop that only reads and stops at the first `false`. -/
theorem wp_allM {ι : Type} {test : ι → Prog β Bool} {f : ι → Bool} {h : Heap β} (l : List ι)
    (each : ∀ i, wp A limit (test i) (fun r h' => r = f i ∧ h' = h) h) :
    wp A limit (l.allM test) (fun r h' => r = l.all f ∧ h' = h) h := by
  induction l with
  | nil => exact wp_pure ⟨rfl, rfl⟩
  | cons i l ih =>
    refine wp_bind (wp_mono (each i) ?_)
    rintro r h' ⟨rfl, rfl⟩
    cases outcome : f i with
    | false => exact wp_pure ⟨by simp [outcome], rfl⟩
    | true => exact wp_mono ih fun r h' held => ⟨by simp [held.1, outcome], held.2⟩

/-- The same as `wp_forM` with iterations that cannot fail. -/
theorem wp_forM_foldl {ι ν : Type} {body : ι → Prog β PUnit} (step : ν → ι → ν) (R : ν → Heap β → Prop)
    (each : ∀ i v h, R v h → wp A limit (body i) (fun _ => R (step v i)) h)
    (l : List ι) {v : ν} {h : Heap β} (pre : R v h) :
    wp A limit (l.forM body) (fun _ => R (l.foldl step v)) h := by
  refine wp_forM (fun v i => some (step v i)) R (fun i v v' h next held => ?_) l ?_ pre
  · cases next
    exact each i v h held
  · exact List.foldlM_pure

/-! ## Placements -/

/-- The blocks `x k`, for `k` in `S`, at the addresses `L k` on top of `base`. -/
structure Placed {κ : Type} (base : Blocks β) (L : κ → Address) (x : κ → β) (S : Set κ) (blocks : Blocks β) :
    Prop where
  injective : Set.InjOn L S
  fresh : ∀ k ∈ S, base (L k) = none
  inside : ∀ k ∈ S, blocks (L k) = some (x k)
  outside : ∀ a, (∀ k ∈ S, a ≠ L k) → blocks a = base a

namespace Placed

variable {κ ν : Type} {base blocks : Blocks β} {L : κ → Address} {x : κ → β} {S : Set κ}

theorem empty (L : κ → Address) (x : κ → β) : Placed base L x ∅ base where
  injective := Set.injOn_empty L
  fresh _ mem := mem.elim
  inside _ mem := mem.elim
  outside _ _ := rfl

/-- Any blocks at distinct addresses, and nothing else. -/
theorem of_injective (injective : Function.Injective L) (x : κ → β) :
    Placed (fun _ => none) L x Set.univ (Function.extend L (fun k => some (x k)) fun _ => none) where
  injective := injective.injOn
  fresh _ _ := rfl
  inside k _ := injective.extend_apply _ _ k
  outside _ other := Function.extend_apply' _ _ _ fun ⟨k, eq⟩ => other k trivial eq.symm

/-- Nothing placed leaves the base. -/
theorem eq_base (h : Placed base L x ∅ blocks) : blocks = base :=
  funext fun a => h.outside a fun _ mem => mem.elim

/-- Only the addresses and blocks of `S` matter. -/
theorem congr (h : Placed base L x S blocks) (L' : κ → Address) (x' : κ → β) (addresses : ∀ k ∈ S, L' k = L k)
    (contents : ∀ k ∈ S, x' k = x k) : Placed base L' x' S blocks where
  injective k mem k' mem' same := h.injective mem mem' (by rwa [addresses k mem, addresses k' mem'] at same)
  fresh k mem := by rw [addresses k mem, h.fresh k mem]
  inside k mem := by rw [addresses k mem, contents k mem, h.inside k mem]
  outside a other := h.outside a fun k mem => by rw [← addresses k mem]; exact other k mem

/-- A block of the base is not at a placed address. -/
theorem apart (h : Placed base L x S blocks) {a : Address} (live : base a ≠ none) {k : κ} (mem : k ∈ S) :
    a ≠ L k := by
  rintro rfl
  exact live (h.fresh k mem)

/-- A block of the base is still there. -/
theorem base_live (h : Placed base L x S blocks) {a : Address} (live : base a ≠ none) : blocks a = base a :=
  h.outside a fun _ mem => h.apart live mem

section Update

variable [DecidableEq κ]

/-- A block allocated at a fresh address. -/
theorem insert (h : Placed base L x S blocks) {k : κ} (new : k ∉ S) {a : Address} (free : blocks a = none) (b : β) :
    Placed base (Function.update L k a) (Function.update x k b) (Insert.insert k S)
      (Function.update blocks a (some b)) := by
  have other : ∀ j ∈ S, j ≠ k := fun j mem same => new (same ▸ mem)
  have apart : ∀ j ∈ S, L j ≠ a := by
    rintro j mem rfl
    have live := h.inside j mem
    rw [free] at live
    cases live
  have unmoved : ∀ j ∈ S, Function.update L k a j = L j := fun j mem => Function.update_of_ne (other j mem) _ _
  constructor
  · rintro j (rfl | mem) j' (rfl | mem') same
    · rfl
    · rw [Function.update_self, unmoved j' mem'] at same
      exact absurd same.symm (apart j' mem')
    · rw [Function.update_self, unmoved j mem] at same
      exact absurd same (apart j mem)
    · rw [unmoved j mem, unmoved j' mem'] at same
      exact h.injective mem mem' same
  · rintro j (rfl | mem)
    · rw [Function.update_self, ← free]
      exact (h.outside a fun j mem => (apart j mem).symm).symm
    · rw [unmoved j mem, h.fresh j mem]
  · rintro j (rfl | mem)
    · simp only [Function.update_self]
    · rw [unmoved j mem, Function.update_of_ne (apart j mem), Function.update_of_ne (other j mem), h.inside j mem]
  · intro c outside
    have differ : c ≠ a := by simpa using outside k (Or.inl rfl)
    rw [Function.update_of_ne differ]
    refine h.outside c fun j mem => ?_
    have := outside j (Or.inr mem)
    rwa [unmoved j mem] at this

/-- A placed block overwritten. -/
theorem update (h : Placed base L x S blocks) {k : κ} (mem : k ∈ S) (b : β) :
    Placed base L (Function.update x k b) S (Function.update blocks (L k) (some b)) where
  injective := h.injective
  fresh := h.fresh
  inside j memj := by
    by_cases same : j = k
    · subst same; simp only [Function.update_self]
    · have differ : L j ≠ L k := fun eq => same (h.injective memj mem eq)
      rw [Function.update_of_ne differ, Function.update_of_ne same, h.inside j memj]
  outside a other := by rw [Function.update_of_ne (other k mem), h.outside a other]

/-- A placed block freed. -/
theorem erase (h : Placed base L x S blocks) {k : κ} (mem : k ∈ S) :
    Placed base L x (S \ {k}) (Function.update blocks (L k) none) where
  injective := h.injective.mono Set.sdiff_subset
  fresh j memj := h.fresh j memj.1
  inside j memj := by
    have differ : L j ≠ L k := fun eq => memj.2 (h.injective memj.1 mem eq)
    rw [Function.update_of_ne differ, h.inside j memj.1]
  outside a other := by
    by_cases same : a = L k
    · subst same; rw [Function.update_self, h.fresh k mem]
    · rw [Function.update_of_ne same]
      refine h.outside a fun j memj => ?_
      by_cases eq : j = k
      · rw [eq]; exact same
      · exact other j ⟨memj, eq⟩

end Update

/-- A placement on top of a placement, as one. -/
theorem attach {mid : Blocks β} (h : Placed base L x S mid) {M : ν → Address} {y : ν → β}
    (top : Placed mid M y Set.univ blocks) {e : ν → κ} (addresses : ∀ n, L (e n) = M n)
    (contents : ∀ n, x (e n) = y n) : Placed base L x (S ∪ Set.range e) blocks := by
  have free : ∀ n, mid (M n) = none := fun n => top.fresh n trivial
  have apart : ∀ k ∈ S, ∀ n, L k ≠ M n := by
    intro k mem n same
    have live := h.inside k mem
    rw [same, free n] at live
    cases live
  constructor
  · rintro k (mem | ⟨n, rfl⟩) k' (mem' | ⟨n', rfl⟩) same
    · exact h.injective mem mem' same
    · rw [addresses] at same
      exact absurd same (apart k mem n')
    · rw [addresses] at same
      exact absurd same.symm (apart k' mem' n)
    · rw [addresses, addresses] at same
      exact congrArg e (top.injective trivial trivial same)
  · rintro k (mem | ⟨n, rfl⟩)
    · exact h.fresh k mem
    · rw [addresses, ← free n]
      exact (h.outside _ fun k mem => (apart k mem n).symm).symm
  · rintro k (mem | ⟨n, rfl⟩)
    · have live : mid (L k) ≠ none := by rw [h.inside k mem]; simp
      rw [top.base_live live, h.inside k mem]
    · rw [addresses, contents, top.inside n trivial]
  · intro a other
    rw [top.outside a fun n _ => addresses n ▸ other (e n) (Or.inr ⟨n, rfl⟩)]
    exact h.outside a fun k mem => other k (Or.inl mem)

/-- A part of a placement, as a placement on top of the rest. -/
theorem detach (h : Placed base L x S blocks) {e : ν → κ} (injective : Function.Injective e) (part : ∀ n, e n ∈ S) :
    ∃ mid, Placed base L x (S \ Set.range e) mid ∧ Placed mid (L ∘ e) (x ∘ e) Set.univ blocks := by
  classical
  refine ⟨fun a => if ∃ n, a = L (e n) then none else blocks a, ?_, ?_⟩
  · have kept : ∀ k ∈ S \ Set.range e, ¬ ∃ n, L k = L (e n) := by
      rintro k ⟨mem, outside⟩ ⟨n, same⟩
      exact outside ⟨n, (h.injective mem (part n) same).symm⟩
    refine ⟨h.injective.mono Set.sdiff_subset, fun k mem => h.fresh k mem.1, fun k mem => ?_, fun a other => ?_⟩
    · rw [if_neg (kept k mem), h.inside k mem.1]
    · split
      · rename_i taken
        obtain ⟨n, rfl⟩ := taken
        exact (h.fresh _ (part n)).symm
      · rename_i untaken
        refine h.outside a fun k mem same => ?_
        by_cases range : k ∈ Set.range e
        · obtain ⟨n, rfl⟩ := range
          exact untaken ⟨n, same⟩
        · exact other k ⟨mem, range⟩ same
  · refine ⟨fun n _ n' _ same => injective (h.injective (part n) (part n') same), fun n _ => if_pos ⟨n, rfl⟩,
      fun n _ => h.inside _ (part n), fun a other => ?_⟩
    exact (if_neg fun ⟨n, same⟩ => other n trivial same).symm

/-- Placing adds exactly the blocks placed. -/
theorem live_eq (h : Placed base L x S blocks) : live blocks = live base + S.encard := by
  have split : {a | blocks a ≠ none} = {a | base a ≠ none} ∪ L '' S := by
    ext a
    constructor
    · intro alive
      by_cases placed : ∃ k ∈ S, a = L k
      · obtain ⟨k, mem, rfl⟩ := placed
        exact .inr ⟨k, mem, rfl⟩
      · simp only [not_exists, not_and] at placed
        exact .inl fun dead => alive ((h.outside a placed).trans dead)
    · rintro (alive | ⟨k, mem, rfl⟩)
      · exact fun dead => alive ((h.base_live alive).symm.trans dead)
      · exact fun dead => by simp [h.inside k mem] at dead
  have apart : Disjoint {a | base a ≠ none} (L '' S) := by
    rw [Set.disjoint_right]
    rintro _ ⟨k, mem, rfl⟩ alive
    exact alive (h.fresh k mem)
  rw [live, split, Set.encard_union_eq apart, h.injective.encard_image]
  rfl

/-- There is room for the parts not placed yet. -/
theorem room (h : Placed base L x S blocks) [Fintype κ] (enough : live base + Fintype.card κ ≤ limit)
    {T : Set κ} (apart : Disjoint S T) : live blocks + T.encard ≤ limit :=
  calc live blocks + T.encard = live base + (S ∪ T).encard := by
        rw [h.live_eq, add_assoc, Set.encard_union_eq apart]
    _ ≤ live base + (Set.univ : Set κ).encard := add_le_add_right (Set.encard_le_encard (Set.subset_univ _)) _
    _ = live base + Fintype.card κ := by rw [Set.encard_univ, ENat.card_eq_coe_fintype_card]
    _ ≤ limit := enough

/-- Of two placements, either may count as the one on top. -/
theorem swap {mid : Blocks β} {x : κ → β} (h : Placed base L x Set.univ mid) {M : ν → Address} {y : ν → β}
    (top : Placed mid M y Set.univ blocks) :
    ∃ mid', Placed base M y Set.univ mid' ∧ Placed mid' L x Set.univ blocks := by
  have both : Placed base (Sum.elim L M) (Sum.elim x y) Set.univ blocks := by
    have joined := ((Placed.empty (Sum.elim L M) (Sum.elim x y)).attach h (e := Sum.inl)
      (fun _ => rfl) fun _ => rfl).attach top (e := Sum.inr) (fun _ => rfl) fun _ => rfl
    rwa [Set.empty_union, Set.range_inl_union_range_inr] at joined
  obtain ⟨mid', rest, upper⟩ := both.detach Sum.inl_injective fun _ => trivial
  refine ⟨mid', ?_, upper⟩
  obtain ⟨base', none, lower⟩ := rest.detach Sum.inr_injective (by simp)
  have nothing : (Set.univ \ Set.range (Sum.inl : κ → κ ⊕ ν)) \ Set.range (Sum.inr : ν → κ ⊕ ν) = ∅ := by
    ext k
    cases k <;> simp
  rw [nothing] at none
  rwa [none.eq_base] at lower

end Placed

/-! ## The laws of the primitives -/

variable {h : Heap β} {a : Address} {b : β}

theorem defined_eq (w : α) (h : Heap β) : Prog.defined (some w) h = .ok (w, h) := rfl

theorem wp_defined {v : Option α} {w : α} {post : α → Heap β → Prop} (found : v = some w) (pre : post w h) :
    wp A limit (Prog.defined v) post h :=
  wp_of_eq (by rw [found]; exact defined_eq w h) pre

theorem read_eq (alive : h.blocks a = some b) : Prog.read a h = .ok (b, h) := by rw [Prog.read, alive]

theorem write_eq (alive : h.blocks a ≠ none) :
    Prog.write a b h = .ok ((), h.store a b) := by
  obtain ⟨old, found⟩ := Option.ne_none_iff_exists'.1 alive
  rw [Prog.write, found]

theorem free_eq (alive : h.blocks a ≠ none) :
    Prog.free a h = .ok ((), h.erase a) := by
  obtain ⟨old, found⟩ := Option.ne_none_iff_exists'.1 alive
  rw [Prog.free, found]

/-- `free` of a placed block. -/
theorem wp_free {κ : Type} [DecidableEq κ] {base : Blocks β} {L : κ → Address} {x : κ → β} {S : Set κ} {k : κ}
    {post : Unit → Heap β → Prop} (placed : Placed base L x S h.blocks) (mem : k ∈ S)
    (pre : ∀ h', Placed base L x (S \ {k}) h'.blocks → post () h') : wp A limit (Prog.free (L k)) post h :=
  wp_of_eq (free_eq (by rw [placed.inside k mem]; simp)) (pre _ (placed.erase mem))

theorem wp_malloc {post : Address → Heap β → Prop} (room : live h.blocks + 1 ≤ limit)
    (pre : ∀ a requests, h.blocks a = none → post a { h.store a b with requests := requests }) :
    wp A limit (Prog.malloc A b) post h := by
  unfold wp Prog.malloc
  cases answer : A.next h.requests h.blocks with
  | none => exact ⟨_, _, room, answer⟩
  | some a => exact pre a _ (A.fresh _ _ _ answer)

-- a proof goes by the laws and never runs the program
attribute [irreducible] wp

end Preconditions

/-! ## An allocator that grants -/

@[simp] theorem live_empty {β : Type} : live (fun _ => none : Blocks β) = 0 := by simp [live]

/-- The lowest free address below `limit`. -/
def firstFit (β : Type) (limit : Nat) : Allocator β where
  next _ blocks := (List.range limit).find? fun a => (blocks a).isNone
  fresh n blocks a found := by simpa using List.find?_some found

/-- With fewer than `limit` live blocks, one of the first `limit` addresses is free. -/
theorem firstFit_grants (β : Type) (limit : Nat) : ¬ (firstFit β limit).Refuses limit := by
  rintro ⟨n, blocks, few, refused⟩
  have taken : (Finset.range limit : Set Address) ⊆ {a | blocks a ≠ none} := by
    intro a below
    have occupied := List.find?_eq_none.1 refused a (List.mem_range.2 (by simpa using below))
    simpa using occupied
  have many : (limit : ENat) ≤ live blocks := by
    have count := Set.encard_le_encard taken
    rwa [Set.encard_coe_eq_coe_finsetCard, Finset.card_range] at count
  have more : (limit : ENat) + 1 ≤ limit := le_trans (add_le_add_left many 1) few
  exact absurd more (by exact_mod_cast Nat.not_succ_le_self limit)

end Rubiks.Logic
