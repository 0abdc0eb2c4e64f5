import Mathlib.Data.List.Basic
import Mathlib.Algebra.Order.Group.Int

/-!
# Three-way comparison

A three-way comparison answers with an integer of which only the sign counts. It decides an
order (`ThreeWay.Decides`) when that sign tells which of the two values is the smaller one; a
linear order gives it its laws: it changes sign with its operands, and its answers compose.

On lists the order is the lexicographic one. The lists that start with a given one are an
interval of it (`ThreeWay.prefix_of_between`).
-/

namespace ThreeWay

variable {α : Type}

/-- **`c` decides the order**: its sign tells which operand is smaller. -/
structure Decides [LT α] (c : α → α → ℤ) : Prop where
  neg_iff (a b : α) : c a b < 0 ↔ a < b
  zero_iff (a b : α) : c a b = 0 ↔ a = b
  pos_iff (a b : α) : 0 < c a b ↔ b < a

section Order

variable [LT α] [LE α] [Std.IsLinearOrder α] [Std.LawfulOrderLT α] {c : α → α → ℤ}

/-- It is enough to have each answer where it is due: the order leaves no other case. -/
theorem decides_of_answers (hlt : ∀ a b, a < b → c a b < 0) (heq : ∀ a, c a a = 0)
    (hgt : ∀ a b, b < a → 0 < c a b) : Decides c where
  neg_iff a b := by
    refine ⟨fun h => ?_, hlt a b⟩
    rcases Std.lt_trichotomy a b with hab | rfl | hba
    · exact hab
    · exact absurd (heq a) h.ne
    · exact absurd (hgt a b hba) h.not_gt
  zero_iff a b := by
    refine ⟨fun h => ?_, fun h => h ▸ heq a⟩
    rcases Std.lt_trichotomy a b with hab | hab | hba
    · exact absurd h (hlt a b hab).ne
    · exact hab
    · exact absurd h (hgt a b hba).ne'
  pos_iff a b := by
    refine ⟨fun h => ?_, hgt a b⟩
    rcases Std.lt_trichotomy a b with hab | rfl | hba
    · exact absurd (hlt a b hab) h.not_gt
    · exact absurd (heq a) h.ne'
    · exact hba

namespace Decides

theorem nonpos_iff (hc : Decides c) (a b : α) : c a b ≤ 0 ↔ a ≤ b := by
  rw [← Int.not_lt, hc.pos_iff, Std.not_lt]

theorem nonneg_iff (hc : Decides c) (a b : α) : 0 ≤ c a b ↔ b ≤ a := by
  rw [← Int.not_lt, hc.neg_iff, Std.not_lt]

/-- Swapped operands give the opposite sign. -/
theorem sign_swap (hc : Decides c) (a b : α) : (c b a).sign = -(c a b).sign := by
  rcases Std.lt_trichotomy a b with h | rfl | h
  · rw [Int.sign_eq_one_of_pos ((hc.pos_iff b a).mpr h),
      Int.sign_eq_neg_one_of_neg ((hc.neg_iff a b).mpr h), neg_neg]
  · rw [(hc.zero_iff a a).mpr rfl, Int.sign_zero, neg_zero]
  · rw [Int.sign_eq_neg_one_of_neg ((hc.neg_iff b a).mpr h),
      Int.sign_eq_one_of_pos ((hc.pos_iff a b).mpr h)]

theorem trans (hc : Decides c) {x y z : α} (hxy : c x y ≤ 0) (hyz : c y z ≤ 0) : c x z ≤ 0 := by
  rw [hc.nonpos_iff] at *
  exact Std.le_trans hxy hyz

theorem trans_lt (hc : Decides c) {x y z : α} (hxy : c x y < 0) (hyz : c y z ≤ 0) :
    c x z < 0 := by
  rw [hc.nonpos_iff] at hyz
  rw [hc.neg_iff] at *
  exact Std.lt_of_lt_of_le hxy hyz

theorem total (hc : Decides c) (a b : α) : c a b ≤ 0 ∨ c b a ≤ 0 := by
  rw [hc.nonpos_iff, hc.nonpos_iff]
  exact Std.le_total

end Decides

/-- Two lists compared on `n` elements that both have: the first place where they differ. -/
theorem exists_of_take_lt {α : Type} [LT α] {a b : List α} {n : ℕ} (ha : n ≤ a.length)
    (hb : n ≤ b.length) (hlt : a.take n < b.take n) :
    ∃ i x y, i < n ∧ (∀ j < i, a[j]? = b[j]?) ∧ a[i]? = some x ∧ b[i]? = some y ∧ x < y := by
  rcases List.lt_iff_exists.mp hlt with ⟨-, hlen⟩ | ⟨i, hia, hib, hsame, hi⟩
  · rw [List.length_take_of_le ha, List.length_take_of_le hb] at hlen
    exact absurd hlen (lt_irrefl n)
  · rw [List.length_take_of_le ha] at hia
    rw [List.getElem_take, List.getElem_take] at hi
    refine ⟨i, a[i], b[i], hia, fun j hj => ?_, List.getElem?_eq_getElem _,
      List.getElem?_eq_getElem _, hi⟩
    have hj' := hsame j hj
    rw [List.getElem_take, List.getElem_take] at hj'
    rw [List.getElem?_eq_getElem (show j < a.length by omega),
      List.getElem?_eq_getElem (show j < b.length by omega), hj']

/-- A smaller list is smaller on the elements that both have, or the two agree there and it is
the shorter one. -/
theorem take_lt_or_of_lt {α : Type} [LT α] {a b : List α} {n : ℕ}
    (hn : n = min a.length b.length) (hlt : a < b) :
    a.take n < b.take n ∨ a.take n = b.take n ∧ a.length < b.length := by
  rcases List.lt_iff_exists.mp hlt with ⟨heq, hlen⟩ | ⟨i, hia, hib, hsame, hi⟩
  · have hna : n = a.length := by omega
    rw [hna, List.take_length]
    exact .inr ⟨heq, hlen⟩
  · refine .inl (List.lt_iff_exists.mpr (.inr ⟨i, ?_, ?_, fun j hj => ?_, ?_⟩))
    · rw [List.length_take]
      omega
    · rw [List.length_take]
      omega
    · rw [List.getElem_take, List.getElem_take]
      exact hsame j hj
    · rw [List.getElem_take, List.getElem_take]
      exact hi

/-- **Prefixes are intervals**: what lies between two lists that start with `x` starts with
`x`. -/
theorem prefix_of_between {x a b c : List α} (ha : x <+: a) (hc : x <+: c) (hab : a ≤ b)
    (hbc : b ≤ c) : x <+: b := by
  induction x generalizing a b c with
  | nil => exact List.nil_prefix
  | cons u x ih =>
    obtain ⟨s, rfl⟩ := ha
    obtain ⟨t, rfl⟩ := hc
    cases b with
    | nil => exact absurd (List.le_antisymm hab (List.nil_le _)) (List.cons_ne_nil _ _)
    | cons v b =>
      rw [List.cons_append, List.cons_le_cons_iff] at hab hbc
      -- the heads are equal, or they are in both orders
      rcases hab with huv | ⟨rfl, hab⟩
      · rcases hbc with hvu | ⟨rfl, -⟩
        · exact absurd hvu (Std.not_gt_of_lt huv)
        · exact absurd huv Std.lt_irrefl
      · rcases hbc with huu | ⟨-, hbc⟩
        · exact absurd huu Std.lt_irrefl
        · exact List.cons_prefix_cons.mpr
            ⟨rfl, ih (List.prefix_append x s) (List.prefix_append x t) hab hbc⟩

end Order

end ThreeWay
