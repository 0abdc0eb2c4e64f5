import Mathlib.Algebra.BigOperators.Group.List.Basic
import Mathlib.Algebra.Order.BigOperators.Group.List
import Mathlib.Algebra.Order.Group.Nat
import Mathlib.Algebra.Order.Ring.Int
import Mathlib.Data.List.Perm.Basic
import Mathlib.Tactic.Common

/-!
# Counted resources

A counter says how many units of a resource are left, and its holders hold the others.
Whoever takes a unit lowers the counter, and only where it is positive; whoever gives one
back raises it. Then the counter and what is held always make up the amount that was there
(`Accounting.Balanced`), whatever that amount is: a negative one is never given out.

What a list of holders holds is the sum over the list (`Accounting.total`), and a change of
one holder changes it by that holder.
-/

namespace Accounting

/-! ### The counter -/

/-- **The account balances**: what is left and what is held make up `n`, and the counter has
not been lowered below zero. -/
structure Balanced (n left : ℤ) (held : ℕ) : Prop where
  sum : left + held = n
  floor : min n 0 ≤ left

section

variable {n left : ℤ} {held : ℕ}

theorem Balanced.initial (n : ℤ) : Balanced n n 0 := ⟨add_zero n, min_le_left n 0⟩

/-- A unit is taken. -/
theorem Balanced.take (h : Balanced n left held) (hleft : 0 < left) :
    Balanced n (left - 1) (held + 1) := by
  obtain ⟨hsum, -⟩ := h
  refine ⟨?_, (min_le_right n 0).trans (by omega)⟩
  push_cast
  omega

/-- A unit is given back. -/
theorem Balanced.give (h : Balanced n left (held + 1)) : Balanced n (left + 1) held := by
  obtain ⟨hsum, hfloor⟩ := h
  push_cast at hsum
  exact ⟨by omega, hfloor.trans (by omega)⟩

/-- **No more is held** than there was. -/
theorem Balanced.held_le (h : Balanced n left held) : (held : ℤ) ≤ max n 0 := by
  obtain ⟨hsum, hfloor⟩ := h
  omega

end

/-! ### The holders -/

section

variable {α : Type} {holds : α → ℕ} {l : List α} {k : ℕ} {a b : α}

/-- **What the holders hold** together. -/
def total (holds : α → ℕ) (l : List α) : ℕ := (l.map holds).sum

@[simp] theorem total_nil : total holds [] = 0 := rfl

@[simp] theorem total_append (l l' : List α) :
    total holds (l ++ l') = total holds l + total holds l' := by
  rw [total, total, total, List.map_append, List.sum_append]

@[simp] theorem total_singleton (a : α) : total holds [a] = holds a := by
  rw [total, List.map_singleton, List.sum_singleton]

/-- One holder, and the others. -/
theorem total_eq (h : l[k]? = some a) : total holds l = holds a + total holds (l.eraseIdx k) := by
  obtain ⟨hk, rfl⟩ := List.getElem?_eq_some_iff.mp h
  have hperm := (List.getElem_cons_eraseIdx_perm hk).map holds
  rw [total, total, ← hperm.sum_eq, List.map_cons, List.sum_cons]

/-- A holder changes. -/
theorem total_set (hk : k < l.length) :
    total holds (l.set k b) = holds b + total holds (l.eraseIdx k) := by
  have hperm := (List.set_perm_cons_eraseIdx hk b).map holds
  rw [total, total, hperm.sum_eq, List.map_cons, List.sum_cons]

end

end Accounting
