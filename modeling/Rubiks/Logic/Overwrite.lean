import Mathlib.Logic.Function.Basic
import Mathlib.Data.List.Nodup

/-!
# Writing cells of an array in sequence

An array is a function from its index type. `overwrite` performs a list of
stores first to last; `copyCells` performs stores whose values are read from a
second array, which is how a program permutes an array through a scratch copy.
When no cell is written twice the order of the stores is irrelevant and the
result is read off the list (`overwrite_apply`); a copy of an array onto itself
is then the array read through `source` (`copyCells_self`).
-/

namespace Rubiks.Logic

variable {ι α : Type*} [DecidableEq ι]

/-- Store the listed values in the listed cells of `x`, first to last. -/
def overwrite (x : ι → α) (writes : List (ι × α)) : ι → α :=
  writes.foldl (fun x w => Function.update x w.1 w.2) x

@[simp] theorem overwrite_cons (x : ι → α) (w : ι × α) (writes : List (ι × α)) :
    overwrite x (w :: writes) = overwrite (Function.update x w.1 w.2) writes := rfl

theorem overwrite_append (x : ι → α) (writes writes' : List (ι × α)) :
    overwrite x (writes ++ writes') = overwrite (overwrite x writes) writes' := by
  simp [overwrite, List.foldl_append]

/-- A cell that is not written keeps its value. -/
theorem overwrite_of_not_mem {writes : List (ι × α)} {i : ι} (outside : i ∉ writes.map Prod.fst)
    (x : ι → α) : overwrite x writes i = x i := by
  induction writes generalizing x with
  | nil => rfl
  | cons w writes ih =>
    simp only [List.map_cons, List.mem_cons, not_or] at outside
    rw [overwrite_cons, ih outside.2, Function.update_of_ne outside.1]

/-- A cell that is written once holds the value stored. -/
theorem overwrite_of_mem {writes : List (ι × α)} (distinct : (writes.map Prod.fst).Nodup) {w : ι × α}
    (mem : w ∈ writes) (x : ι → α) : overwrite x writes w.1 = w.2 := by
  induction writes generalizing x with
  | nil => cases mem
  | cons first writes ih =>
    simp only [List.map_cons, List.nodup_cons] at distinct
    rw [overwrite_cons]
    rcases List.mem_cons.1 mem with rfl | later
    · rw [overwrite_of_not_mem distinct.1, Function.update_self]
    · exact ih distinct.2 later _

/-- Stores through an injective renaming of the cells, seen through the renaming. -/
theorem overwrite_comp {κ : Type*} [DecidableEq κ] {e : κ → ι} (injective : Function.Injective e)
    (x : ι → α) (writes : List (κ × α)) :
    overwrite x (writes.map fun w => (e w.1, w.2)) ∘ e = overwrite (x ∘ e) writes := by
  induction writes generalizing x with
  | nil => rfl
  | cons w writes ih =>
    rw [List.map_cons, overwrite_cons, ih, overwrite_cons,
      Function.update_comp_eq_of_injective _ injective]

/-- With distinct cells, each cell holds its one stored value. -/
theorem overwrite_apply {writes : List (ι × α)} (distinct : (writes.map Prod.fst).Nodup)
    (x : ι → α) (i : ι) : overwrite x writes i = (writes.lookup i).getD (x i) := by
  induction writes generalizing x with
  | nil => rfl
  | cons w writes ih =>
    obtain ⟨k, v⟩ := w
    simp only [List.map_cons, List.nodup_cons] at distinct
    rw [overwrite_cons, ih distinct.2]
    by_cases h : i = k
    · subst h
      have absent : writes.lookup i = none := by
        rw [List.lookup_eq_none_iff]
        intro p hp
        have : p.1 ≠ i := fun e => distinct.1 (e ▸ List.mem_map_of_mem hp)
        simpa using Ne.symm this
      simp [absent]
    · have step : List.lookup i ((k, v) :: writes) = writes.lookup i := by
        have differ : (i == k) = false := by simpa using h
        rw [List.lookup_cons, differ]
      rw [step]
      simp [Function.update_of_ne h]

/-- Storing `v`'s value in every cell leaves `v`, whatever was there and in any order. -/
theorem overwrite_cells {cells : List ι} (cover : ∀ i, i ∈ cells) (x v : ι → α) :
    overwrite x (cells.map fun i => (i, v i)) = v := by
  have each : ∀ (cells : List ι) (x : ι → α) (i : ι), i ∈ cells →
      overwrite x (cells.map fun i => (i, v i)) i = v i := by
    intro cells
    induction cells with
    | nil => intro x i mem; cases mem
    | cons k cells ih =>
      intro x i mem
      by_cases later : i ∈ cells
      · exact ih _ i later
      · obtain rfl : i = k := by simpa [later] using mem
        rw [List.map_cons, overwrite_cons, overwrite_of_not_mem (by simpa using later), Function.update_self]
  funext i
  exact each cells x i (cover i)

/-- Stores of an array that is a field, `get`, of a larger value: the field ends up
with the array written. -/
theorem foldl_set_overwrite {σ : Type*} (get : σ → ι → α) (set : σ → (ι → α) → σ)
    (get_set : ∀ s x, get (set s x) = x) (set_get : ∀ s, set s (get s) = s)
    (set_set : ∀ s x y, set (set s x) y = set s y) (writes : List (ι × α)) (s : σ) :
    writes.foldl (fun s w => set s (Function.update (get s) w.1 w.2)) s = set s (overwrite (get s) writes) := by
  induction writes generalizing s with
  | nil => exact (set_get s).symm
  | cons w writes ih => rw [List.foldl_cons, ih, get_set, set_set, overwrite_cons]

/-- With a store to every cell, the field ends up as `v`. -/
theorem foldl_set_cells {σ : Type*} (get : σ → ι → α) (set : σ → (ι → α) → σ)
    (get_set : ∀ s x, get (set s x) = x) (set_get : ∀ s, set s (get s) = s)
    (set_set : ∀ s x y, set (set s x) y = set s y) {cells : List ι} (cover : ∀ i, i ∈ cells) (v : ι → α) (s : σ) :
    cells.foldl (fun s i => set s (Function.update (get s) i (v i))) s = set s v := by
  have stores := foldl_set_overwrite get set get_set set_get set_set (cells.map fun i => (i, v i)) s
  rwa [List.foldl_map, overwrite_cells cover] at stores

/-- Copy `old`'s cell `m.2` into `new`'s cell `m.1`, for each listed `m`. -/
def copyCells (old new : ι → α) (moves : List (ι × ι)) : ι → α :=
  overwrite new (moves.map fun m => (m.1, old m.2))

theorem copyCells_append (old new : ι → α) (moves moves' : List (ι × ι)) :
    copyCells old new (moves ++ moves') = copyCells old (copyCells old new moves) moves' := by
  simp [copyCells, overwrite_append]

/-- The cell whose value ends up in cell `i`: itself when `i` is not written. -/
def source (moves : List (ι × ι)) (i : ι) : ι := (moves.lookup i).getD i

/-- Copying an array's cells onto the array reads it through `source`. -/
theorem copyCells_self {moves : List (ι × ι)} (distinct : (moves.map Prod.fst).Nodup) (old : ι → α) :
    copyCells old old moves = old ∘ source moves := by
  funext i
  have keys : ((moves.map fun m => (m.1, old m.2)).map Prod.fst).Nodup := by
    simpa [Function.comp_def] using distinct
  have look : (moves.map fun m => (m.1, old m.2)).lookup i = (moves.lookup i).map old := by
    clear distinct keys
    induction moves with
    | nil => rfl
    | cons m moves ih =>
      obtain ⟨k, v⟩ := m
      simp only [List.map_cons, List.lookup_cons, ih]
      split <;> rfl
  rw [copyCells, overwrite_apply keys, look, Function.comp, source]
  cases moves.lookup i <;> rfl

end Rubiks.Logic
