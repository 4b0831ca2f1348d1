import Mathlib.Algebra.BigOperators.Group.List.Basic
import Mathlib.Algebra.Group.Commute.Basic

/-!
# Interleavings of two lists

`Interleave xs ys zs`: `zs` merges `xs` and `ys`, each in its own order. When
every element of one list commutes with every element of the other, the product
does not depend on the merge.
-/

namespace Rubiks.Logic

inductive Interleave {α : Type*} : List α → List α → List α → Prop
  | nil : Interleave [] [] []
  | left {xs ys zs : List α} (x : α) : Interleave xs ys zs → Interleave (x :: xs) ys (x :: zs)
  | right {xs ys zs : List α} (y : α) : Interleave xs ys zs → Interleave xs (y :: ys) (y :: zs)

namespace Interleave

variable {α β : Type*} {xs ys zs : List α}

theorem map (f : α → β) (h : Interleave xs ys zs) : Interleave (xs.map f) (ys.map f) (zs.map f) := by
  induction h with
  | nil => exact .nil
  | left x _ ih => exact .left (f x) ih
  | right y _ ih => exact .right (f y) ih

theorem mem_iff (h : Interleave xs ys zs) {a : α} : a ∈ zs ↔ a ∈ xs ∨ a ∈ ys := by
  induction h with
  | nil => simp
  | left x _ ih => simp [ih, or_assoc]
  | right y _ ih => simp [ih, or_left_comm]

/-- Lists whose elements commute pairwise across: any merge has the same product. -/
theorem prod_eq {M : Type*} [Monoid M] {xs ys zs : List M} (h : Interleave xs ys zs)
    (commute : ∀ x ∈ xs, ∀ y ∈ ys, Commute x y) : zs.prod = xs.prod * ys.prod := by
  induction h with
  | nil => simp
  | left x _ ih =>
    rw [List.prod_cons, List.prod_cons, ih fun a ha => commute a (by simp [ha]), mul_assoc]
  | @right xs ys zs y _ ih =>
    have across : Commute y xs.prod :=
      Commute.list_prod_right _ _ fun x hx => (commute x hx y (by simp)).symm
    rw [List.prod_cons, List.prod_cons, ih fun a ha b hb => commute a ha b (by simp [hb]), ← mul_assoc,
      across.eq, mul_assoc]

end Interleave

end Rubiks.Logic
