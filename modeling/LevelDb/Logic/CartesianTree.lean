import LevelDb.Logic.DepthCost

/-!
# Cartesian trees

The Cartesian tree of a sequence has the leftmost minimum of a range at its root, and the
Cartesian trees of what is before and behind it below (`CartesianTree.IsCartesian`). It is the
search tree of the positions that is a heap of the values, ties going to the left.

A position is an ancestor of another where it is the leftmost minimum of the range that the two
bound (`CartesianTree.IsCartesian.ancestors`), which gives the cost of the tree without the
tree (`CartesianTree.IsCartesian.depthCost_eq`).
-/

namespace CartesianTree

open SearchTree

variable {β : Type} [LinearOrder β] (f : ℕ → β)

/-- **The leftmost minimum** of `f` over the positions from `lo` on and below `hi`. -/
def LeftmostMin (lo hi j : ℕ) : Prop :=
  (lo ≤ j ∧ j < hi) ∧ (∀ k < hi, lo ≤ k → f j ≤ f k) ∧ ∀ k < j, lo ≤ k → f j < f k

instance (lo hi j : ℕ) : Decidable (LeftmostMin f lo hi j) :=
  inferInstanceAs (Decidable (_ ∧ _ ∧ _))

/-- **`j` is above `i`**: the leftmost minimum of the positions between the two. -/
def Above (j i : ℕ) : Prop := LeftmostMin f (min i j) (max i j + 1) j

instance : DecidableRel (Above f) := fun j i =>
  inferInstanceAs (Decidable (LeftmostMin f (min i j) (max i j + 1) j))

/-- **The Cartesian tree** of the positions from `lo` on and below `hi`. -/
inductive IsCartesian : ℕ → ℕ → BinaryTree ℕ → Prop
  | nil (lo : ℕ) : IsCartesian lo lo .nil
  | node {lo hi m : ℕ} {l r : BinaryTree ℕ} (hm : LeftmostMin f lo hi m)
      (hl : IsCartesian lo m l) (hr : IsCartesian (m + 1) hi r) : IsCartesian lo hi (.node m l r)

variable {f} {lo hi m : ℕ} {t : BinaryTree ℕ}

theorem LeftmostMin.unique {j : ℕ} (hm : LeftmostMin f lo hi m) (hj : LeftmostMin f lo hi j) :
    m = j := by
  obtain ⟨⟨hlom, hmhi⟩, hmle, hmlt⟩ := hm
  obtain ⟨⟨hloj, hjhi⟩, hjle, hjlt⟩ := hj
  rcases lt_trichotomy m j with h | h | h
  · exact absurd (hmle j hjhi hloj) (hjlt m h hlom).not_ge
  · exact h
  · exact absurd (hjle m hmhi hlom) (hmlt j h hloj).not_ge

/-- The leftmost minimum of one position. -/
theorem leftmostMin_self (f : ℕ → β) (lo : ℕ) : LeftmostMin f lo (lo + 1) lo := by
  refine ⟨by omega, fun k _ _ => ?_, by omega⟩
  obtain rfl : k = lo := by omega
  exact le_rfl

/-- One more position: it is the leftmost minimum only where it is smaller. -/
theorem LeftmostMin.extend (hm : LeftmostMin f lo hi m) :
    LeftmostMin f lo (hi + 1) (if f hi < f m then hi else m) := by
  obtain ⟨⟨hlo, hhi⟩, hle, hlt⟩ := hm
  split_ifs with h
  · refine ⟨by omega, fun k hk hlok => ?_, fun k hk hlok => h.trans_le (hle k hk hlok)⟩
    rcases Nat.lt_succ_iff_lt_or_eq.mp hk with hk | rfl
    · exact h.le.trans (hle k hk hlok)
    · exact le_rfl
  · refine ⟨by omega, fun k hk hlok => ?_, hlt⟩
    rcases Nat.lt_succ_iff_lt_or_eq.mp hk with hk | rfl
    · exact hle k hk hlok
    · exact not_lt.mp h

/-- The leftmost minimum is the one of every smaller range that it is in. -/
theorem LeftmostMin.above {i : ℕ} (hm : LeftmostMin f lo hi m) (hlo : lo ≤ i) (hhi : i < hi) :
    Above f m i := by
  obtain ⟨⟨hlom, hmhi⟩, hle, hlt⟩ := hm
  exact ⟨by omega, fun k _ _ => hle k (by omega) (by omega), fun k hk _ => hlt k hk (by omega)⟩

/-- Nothing is above a leftmost minimum, nor above what is on the other side of it. -/
theorem LeftmostMin.not_above {i j : ℕ} (hm : LeftmostMin f lo hi m) (hlo : lo ≤ i)
    (hhi : i < hi) (him : i ≠ m) (hmi : min j i ≤ m) (hmj : m ≤ max j i) : ¬Above f i j := by
  obtain ⟨-, hle, hlt⟩ := hm
  rintro ⟨-, hile, hilt⟩
  rcases lt_or_gt_of_ne him with h | h
  · exact absurd (hile m (by omega) hmi) (hlt i h hlo).not_ge
  · exact absurd (hilt m h hmi) (hle i hhi hlo).not_gt

/-- A range around one of its positions. -/
theorem range'_split (hlo : lo ≤ m) (hhi : m < hi) : List.range' lo (hi - lo) =
    List.range' lo (m - lo) ++ m :: List.range' (m + 1) (hi - (m + 1)) := by
  have happend := List.range'_append_1 (s := lo) (m := m - lo) (n := hi - m)
  rw [Nat.add_sub_cancel' hlo] at happend
  rw [← List.range'_succ, show hi - (m + 1) + 1 = hi - m by omega, happend]
  congr 1
  omega

namespace IsCartesian

theorem le (ht : IsCartesian f lo hi t) : lo ≤ hi := by
  cases ht with
  | nil => exact le_rfl
  | node hm _ _ =>
    have := hm.1
    omega

/-- The positions, in their order. -/
theorem inorder_eq (ht : IsCartesian f lo hi t) : inorder t = List.range' lo (hi - lo) := by
  induction ht with
  | nil lo => rw [Nat.sub_self, inorder_nil, List.range'_zero]
  | node hm _ _ ihl ihr => rw [inorder_node, ihl, ihr, range'_split hm.1.1 hm.1.2]

theorem mem_inorder {i : ℕ} (ht : IsCartesian f lo hi t) : i ∈ inorder t ↔ lo ≤ i ∧ i < hi := by
  have hle := ht.le
  rw [ht.inorder_eq, List.mem_range'_1]
  omega

/-- **The ancestors in a Cartesian tree.** -/
theorem ancestors (ht : IsCartesian f lo hi t) : Ancestors (Above f) t := by
  induction ht with
  | nil => trivial
  | @node lo hi m l r hm hl hr ihl ihr =>
    obtain ⟨hlo, hhi⟩ := hm.1
    refine ⟨hm.above hlo hhi, fun x hx => ?_, fun x hx => ?_, fun x hx y hy => ?_, ihl, ihr⟩
    · rw [hl.mem_inorder] at hx
      exact ⟨hm.above (by omega) (by omega),
        hm.not_above (by omega) (by omega) (by omega) (by omega) (by omega)⟩
    · rw [hr.mem_inorder] at hx
      exact ⟨hm.above (by omega) (by omega),
        hm.not_above (by omega) (by omega) (by omega) (by omega) (by omega)⟩
    · rw [hl.mem_inorder] at hx
      rw [hr.mem_inorder] at hy
      exact ⟨hm.not_above (by omega) (by omega) (by omega) (by omega) (by omega),
        hm.not_above (by omega) (by omega) (by omega) (by omega) (by omega)⟩

/-- **The cost of a Cartesian tree**, by the positions above each other. -/
theorem depthCost_eq (ht : IsCartesian f lo hi t) (w : ℕ → ℤ) :
    depthCost w 1 t = ((List.range' lo (hi - lo)).map fun i =>
      w i * (List.range' lo (hi - lo)).countP fun j => Above f j i).sum := by
  rw [depthCost_eq_sum w 1 ht.ancestors, ht.inorder_eq]
  congr 1
  refine List.map_congr_left fun i _ => ?_
  rw [sub_self, zero_add, ancestorCount, ht.inorder_eq]

end IsCartesian

/-! ### Existence -/

theorem exists_leftmostMin (f : ℕ → β) (h : lo < hi) : ∃ m, LeftmostMin f lo hi m := by
  induction hi, h using Nat.le_induction with
  | base => exact ⟨lo, leftmostMin_self f lo⟩
  | succ hi _ ih =>
    obtain ⟨m, hm⟩ := ih
    exact ⟨_, hm.extend⟩

theorem exists_isCartesian (f : ℕ → β) (h : lo ≤ hi) : ∃ t, IsCartesian f lo hi t := by
  induction hn : hi - lo using Nat.strong_induction_on generalizing lo hi with
  | _ n ih =>
    subst hn
    rcases h.eq_or_lt with rfl | hlt
    · exact ⟨.nil, .nil lo⟩
    · obtain ⟨m, hm⟩ := exists_leftmostMin f hlt
      obtain ⟨hlo, hhi⟩ := hm.1
      obtain ⟨l, hl⟩ := ih (m - lo) (by omega) hlo rfl
      obtain ⟨r, hr⟩ := ih (hi - (m + 1)) (by omega) hhi rfl
      exact ⟨.node m l r, .node hm hl hr⟩

end CartesianTree
