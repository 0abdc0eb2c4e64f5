import Mathlib.Data.List.Basic
import Mathlib.Order.Nat
import Mathlib.Tactic.Common

/-!
# Regions of memory

A region is a run of addresses (`Region`). Regions are disjoint where one ends before the
other starts (`Region.Disjoint`), also where they are empty. A region that is not within
another one leaves it at some address (`Region.exists_notMem`), unless it is empty.

An allocator that carves its regions out of larger blocks keeps three facts: what it has
handed out is pairwise disjoint, the region it carves from next is disjoint from all of it,
and every region is within a block. The rules for one more region are
`Region.Disjoint.mono` (where it is carved out of the free region) and
`Region.disjoint_of_within` (where it comes with a block of its own).
-/

/-- **A region**: `size` addresses from `base` on. -/
structure Region where
  base : ℕ
  size : ℕ
  deriving DecidableEq, Repr

namespace Region

instance : Membership ℕ Region := ⟨fun r a => r.base ≤ a ∧ a < r.base + r.size⟩

theorem mem_iff {r : Region} {a : ℕ} : a ∈ r ↔ r.base ≤ a ∧ a < r.base + r.size := Iff.rfl

/-- One of the regions ends where the other starts, or before. -/
def Disjoint (r s : Region) : Prop := r.base + r.size ≤ s.base ∨ s.base + s.size ≤ r.base
  deriving Decidable

/-- The region `r` is a part of `s`. -/
def Within (r s : Region) : Prop := s.base ≤ r.base ∧ r.base + r.size ≤ s.base + s.size
  deriving Decidable

variable {r s t u : Region}

theorem Disjoint.symm (h : r.Disjoint s) : s.Disjoint r := Or.symm h

theorem Within.refl (r : Region) : r.Within r := ⟨le_rfl, le_rfl⟩

theorem Within.trans (h : r.Within s) (h' : s.Within t) : r.Within t :=
  ⟨h'.1.trans h.1, h.2.trans h'.2⟩

theorem Disjoint.mono (h : s.Disjoint u) (hr : r.Within s) (ht : t.Within u) : r.Disjoint t := by
  obtain ⟨hr, hr'⟩ := hr
  obtain ⟨ht, ht'⟩ := ht
  rcases h with h | h
  · exact .inl (by omega)
  · exact .inr (by omega)

/-- A region that is not empty and not within `s` has an address that is not in `s`. -/
theorem exists_notMem (hr : 0 < r.size) (h : ¬r.Within s) : ∃ a ∈ r, a ∉ s := by
  by_contra hall
  push Not at hall
  have hfirst := hall r.base (by rw [mem_iff]; omega)
  have hlast := hall (r.base + r.size - 1) (by rw [mem_iff]; omega)
  rw [mem_iff] at hfirst hlast
  exact h ⟨hfirst.1, by omega⟩

/-- What is within a block that is disjoint from all of `bs` is disjoint from what is within
one of them. -/
theorem disjoint_of_within {b : Region} {bs : List Region} (hb : ∀ c ∈ bs, b.Disjoint c)
    (hr : r.Within b) (hs : ∃ c ∈ bs, s.Within c) : r.Disjoint s := by
  obtain ⟨c, hc, hs⟩ := hs
  exact (hb c hc).mono hr hs

/-- One more region that is disjoint from all those before. -/
theorem pairwise_concat {rs : List Region} (h : rs.Pairwise Disjoint)
    (hr : ∀ s ∈ rs, r.Disjoint s) : (rs ++ [r]).Pairwise Disjoint := by
  rw [List.pairwise_append]
  refine ⟨h, List.pairwise_singleton _ _, fun s hs t ht => ?_⟩
  obtain rfl := List.mem_singleton.mp ht
  exact (hr s hs).symm

end Region
