import Mathlib.GroupTheory.Perm.Cycle.Type
import Mathlib.Data.ZMod.IntUnitsPower

/-!
# Oriented pieces under rearrangements of their cells

Cells are grouped into pieces: piece `p` owns the cells `cell p a`, one for each
orientation `a` of an abelian group. A permutation of the cells carries the
pieces when it moves every piece as a whole, piece `p` onto the place of `ρ p`
and turned by `t p`. Carrying permutations compose; along products the turns
add up and the signs multiply (`Balanced`), which is how a conservation law of
single moves becomes one of whole runs. Repeated often enough, a carrying
permutation brings every piece home and then turns it back (`Carries.fixes`).
-/

namespace Rubiks.Logic

open Equiv

section

variable {S ι A : Type*} [AddCommGroup A] {cell : ι → A → S} {g h : Perm S}

/-- `g` moves the cells of each piece `p` to those of `ρ p`, turned by `t p`. -/
def Carries (cell : ι → A → S) (g : Perm S) (ρ : Perm ι) (t : ι → A) : Prop :=
  ∀ p a, g (cell p a) = cell (ρ p) (a + t p)

theorem Carries.one : Carries cell 1 1 0 := fun p a => by simp

theorem Carries.mul {ρ σ : Perm ι} {t u : ι → A} (hg : Carries cell g ρ t) (hh : Carries cell h σ u) :
    Carries cell (g * h) (ρ * σ) (fun p => u p + t (σ p)) := fun p a => by
  rw [Perm.mul_apply, hh, hg, add_assoc, Perm.mul_apply]

theorem Carries.inv {ρ : Perm ι} {t : ι → A} (hg : Carries cell g ρ t) :
    Carries cell g⁻¹ ρ⁻¹ (fun p => -t (ρ⁻¹ p)) := fun p a => by
  rw [Perm.inv_eq_iff_eq, hg]
  simp

theorem Carries.pow {ρ : Perm ι} {t : ι → A} (hg : Carries cell g ρ t) (n : Nat) :
    ∃ u, Carries cell (g ^ n) (ρ ^ n) u := by
  induction n with
  | zero => exact ⟨0, .one⟩
  | succ n ih =>
    obtain ⟨u, carries⟩ := ih
    rw [pow_succ, pow_succ]
    exact ⟨_, carries.mul hg⟩

/-- Pieces at home after `m` rounds are as they were after `m * k`. -/
theorem Carries.fixes {ρ : Perm ι} {t : ι → A} (hg : Carries cell g ρ t) {m k : Nat} (home : ρ ^ m = 1)
    (turned : ∀ a : A, k • a = 0) (p : ι) (a : A) : (g ^ (m * k)) (cell p a) = cell p a := by
  obtain ⟨u, carries⟩ := hg.pow m
  rw [home] at carries
  have rounds : ∀ n a, ((g ^ m) ^ n) (cell p a) = cell p (a + n • u p) := by
    intro n a
    induction n with
    | zero => simp
    | succ n ih =>
      rw [pow_succ', Perm.mul_apply, ih, carries, Perm.one_apply, add_assoc, succ_nsmul]
  rw [pow_mul, rounds, turned, add_zero]

/-- A permutation of `n` places has an order that divides what `1, …, n` divide. -/
theorem pow_eq_one_of_dvd [Fintype ι] [DecidableEq ι] {m : Nat}
    (divides : ∀ n < Fintype.card ι + 1, 0 < n → n ∣ m) (ρ : Perm ι) : ρ ^ m = 1 := by
  rw [← orderOf_dvd_iff_pow_eq_one, ← Perm.lcm_cycleType, Multiset.lcm_dvd]
  intro n mem
  have low := Perm.two_le_of_mem_cycleType mem
  have high := (Perm.le_card_support_of_mem_cycleType mem).trans (Finset.card_le_univ _)
  exact divides n (by omega) (by omega)

/-- Carried pieces whose turns sum to zero and whose permutation has the parity of `n`. -/
def Balanced [Fintype ι] [DecidableEq ι] (cell : ι → A → S) (g : Perm S) (n : Nat) : Prop :=
  ∃ ρ t, Carries cell g ρ t ∧ ∑ p, t p = 0 ∧ Perm.sign ρ = (-1) ^ n

variable [Fintype ι] [DecidableEq ι]

theorem Balanced.one : Balanced cell 1 0 := ⟨1, 0, .one, by simp, by simp⟩

theorem Balanced.mul {m n : Nat} (hg : Balanced cell g m) (hh : Balanced cell h n) :
    Balanced cell (g * h) (m + n) := by
  obtain ⟨ρ, t, carries, total, parity⟩ := hg
  obtain ⟨σ, u, carries', total', parity'⟩ := hh
  refine ⟨ρ * σ, _, carries.mul carries', ?_, by rw [map_mul, parity, parity', pow_add]⟩
  rw [Finset.sum_add_distrib, total', Equiv.sum_comp σ t, total, add_zero]

theorem Balanced.inv {n : Nat} (hg : Balanced cell g n) : Balanced cell g⁻¹ n := by
  obtain ⟨ρ, t, carries, total, parity⟩ := hg
  refine ⟨ρ⁻¹, _, carries.inv, ?_, by rw [Perm.sign_inv, parity]⟩
  rw [Finset.sum_neg_distrib, Equiv.sum_comp ρ⁻¹ t, total, neg_zero]

/-- **Conservation along a run**: a product of `n` odd balanced moves has the parity of `n`. -/
theorem Balanced.list_prod {gs : List (Perm S)} (each : ∀ g ∈ gs, Balanced cell g 1) :
    Balanced cell gs.prod gs.length := by
  induction gs with
  | nil => exact .one
  | cons g gs ih =>
    rw [List.prod_cons, List.length_cons, add_comm]
    exact (each g (by simp)).mul (ih fun h mem => each h (by simp [mem]))

/-- The permutation `a ↦ b ↦ c ↦ d ↦ a`. -/
def fourCycle (a b c d : ι) : Perm ι := swap a b * swap b c * swap c d

theorem sign_fourCycle {a b c d : ι} (ab : a ≠ b) (bc : b ≠ c) (cd : c ≠ d) :
    Perm.sign (fourCycle a b c d) = -1 := by
  simp [fourCycle, ab, bc, cd]

end

/-- Turns that sum to zero, as numbers: a multiple of the order of the group. -/
theorem val_sum_mod {ι : Type*} [DecidableEq ι] {n : Nat} [NeZero n] (s : Finset ι) (t : ι → Fin n) :
    (∑ p ∈ s, t p).val = (∑ p ∈ s, (t p).val) % n := by
  induction s using Finset.induction_on with
  | empty => simp
  | insert p s outside ih =>
    rw [Finset.sum_insert outside, Finset.sum_insert outside, Fin.val_add, ih, Nat.add_mod_mod]

end Rubiks.Logic
