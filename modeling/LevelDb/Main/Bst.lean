import LevelDb.Logic.SearchTree
import Mathlib.Algebra.Order.Ring.Int
import Mathlib.Data.List.Induction
import Mathlib.Data.List.TakeWhile

/-!
# The binary search tree of `main.cpp`

`BST::Insert` goes to the left where the new value is smaller than that of the node, and else
to the right where `root->data, data` holds. That is a comma, and the condition is the new
value by itself: it is true of every value but 0. So a value other than 0 that is in the tree
is stored once more, and 0 is lost where the way to its place passes a smaller value.

The tree is ordered all the same, but for the repetitions (`LevelDb.BST.build_ordered`). It is
the set of the values inserted exactly where no value but 0 comes twice, and no negative one
before the first 0 (`LevelDb.BST.isSet_iff`).
-/

namespace LevelDb.BST

open SearchTree

open scoped List

/-! ### The code -/

section

variable {α : Type} [LinearOrder α] [Zero α]

/-- The private `BST::Insert`: the tree that it leaves at `root`, with what it returns. -/
def insertAt : BinaryTree α → α → BinaryTree α
  | .nil, data => .node data .nil .nil
  | .node a left right, data =>
    if data < a then
      .node a (insertAt left data) right
    -- `root->data, data`
    else if data ≠ 0 then
      .node a left (insertAt right data)
    else
      .node a left right

/-- `BST::Insert`. -/
def insert (root : BinaryTree α) (data : α) : BinaryTree α :=
  match root with
  | .nil => .node data .nil .nil
  | .node a left right => insertAt (.node a left right) data

/-- `BST::IsSame`. -/
def isSame : BinaryTree α → BinaryTree α → Bool
  | .nil, .nil => true
  | .nil, .node .. => false
  | .node .., .nil => false
  | .node a left right, .node b left' right' =>
    a = b && isSame left left' && isSame right right'

/-- The values of a list are inserted in an empty tree. -/
def build (xs : List α) : BinaryTree α := xs.foldl insert .nil

/-- **The tree is a set**: it is a search tree, its traversal is strictly increasing, and its
values are those inserted. -/
structure IsSet (xs : List α) : Prop where
  ordered : Ordered (· < ·) (build xs)
  increasing : (inorder (build xs)).Pairwise (· < ·)
  values : ∀ v, v ∈ inorder (build xs) ↔ v ∈ xs

/-- No value but 0 comes twice, and no negative one before the first 0. -/
def Faithful (xs : List α) : Prop :=
  (xs.filter (· ≠ 0)).Nodup ∧ (0 ∈ xs → ∀ v ∈ xs.takeWhile (· ≠ 0), 0 < v)
  deriving Decidable

/-! ### One insertion -/

variable {t : BinaryTree α} {a : α} {xs : List α}

theorem insert_eq (t : BinaryTree α) (a : α) : insert t a = insertAt t a := by
  cases t <;> rfl

omit [Zero α] in
theorem isSame_iff {t u : BinaryTree α} : isSame t u ↔ t = u := by
  induction t generalizing u with
  | nil => cases u <;> simp [isSame]
  | node a l r ihl ihr => cases u <;> simp [isSame, ihl, ihr, and_assoc]

/-- A value other than 0 is always stored. -/
theorem insertAt_perm (ha : a ≠ 0) : (inorder (insertAt t a)).Perm (a :: inorder t) := by
  induction t with
  | nil => exact .refl _
  | node b l r ihl ihr =>
    rw [insertAt]
    split_ifs with hlt
    · exact ihl.append_right _
    · rw [inorder_node, inorder_node]
      calc inorder l ++ b :: inorder (insertAt r a)
        _ ~ inorder l ++ b :: a :: inorder r := (ihr.cons b).append_left _
        _ ~ inorder l ++ a :: b :: inorder r := (List.Perm.swap a b _).append_left _
        _ ~ a :: (inorder l ++ b :: inorder r) := List.perm_middle

/-- 0 is stored where all values are positive. -/
theorem insertAt_zero_of_pos (hpos : ∀ x ∈ inorder t, 0 < x) :
    inorder (insertAt t 0) = 0 :: inorder t := by
  induction t with
  | nil => rfl
  | node b l r ihl ihr =>
    rw [insertAt, if_pos (hpos b (mem_inorder_node.mpr (.inr (.inl rfl)))), inorder_node,
      ihl fun x hx => hpos x (mem_inorder_node.mpr (.inl hx))]
    rfl

/-- 0 is lost where they are not. -/
theorem insertAt_zero_of_not_pos (ht : Ordered (· ≤ ·) t) (hpos : ¬∀ x ∈ inorder t, 0 < x) :
    insertAt t 0 = t := by
  induction t with
  | nil => exact absurd (fun x hx => absurd hx List.not_mem_nil) hpos
  | node b l r ihl ihr =>
    obtain ⟨hl, hr, hol, hor⟩ := ht
    rw [insertAt]
    split_ifs with hlt hzero
    · -- the node is positive, and so is what is on its right
      rw [ihl hol fun hposl => hpos fun x hx => ?_]
      rcases mem_inorder_node.mp hx with hx | rfl | hx
      · exact hposl x hx
      · exact hlt
      · exact hlt.trans_le (hr x hx)
    · exact absurd rfl hzero
    · rfl

/-- Nothing else is stored. -/
theorem mem_insertAt {x : α} (hx : x ∈ inorder (insertAt t a)) : x = a ∨ x ∈ inorder t := by
  induction t with
  | nil => exact .inl (List.mem_singleton.mp hx)
  | node b l r ihl ihr =>
    rw [mem_inorder_node]
    rw [insertAt] at hx
    split_ifs at hx <;> rw [mem_inorder_node] at hx
    · rcases hx with hx | hx
      · exact (ihl hx).imp_right .inl
      · exact .inr (.inr hx)
    · rcases hx with hx | hx | hx
      · exact .inr (.inl hx)
      · exact .inr (.inr (.inl hx))
      · exact (ihr hx).imp_right fun hx => .inr (.inr hx)
    · exact .inr hx

/-- What is stored is kept. -/
theorem mem_insertAt_of_mem {x : α} (hx : x ∈ inorder t) : x ∈ inorder (insertAt t a) := by
  induction t with
  | nil => exact absurd hx List.not_mem_nil
  | node b l r ihl ihr =>
    rw [mem_inorder_node] at hx
    rw [insertAt]
    split_ifs <;> rw [mem_inorder_node]
    · exact hx.imp_left ihl
    · exact hx.imp_right fun hx => hx.imp_right ihr
    · exact hx

/-- The order is kept, but for repetitions. -/
theorem insertAt_ordered (ht : Ordered (· ≤ ·) t) : Ordered (· ≤ ·) (insertAt t a) := by
  induction t with
  | nil => exact ⟨by simp, by simp, trivial, trivial⟩
  | node b l r ihl ihr =>
    obtain ⟨hl, hr, hol, hor⟩ := ht
    rw [insertAt]
    split_ifs with hlt hzero
    · refine ⟨fun x hx => ?_, hr, ihl hol, hor⟩
      rcases mem_insertAt hx with rfl | hx
      · exact hlt
      · exact hl x hx
    · refine ⟨hl, fun x hx => ?_, hol, ihr hor⟩
      rcases mem_insertAt hx with rfl | hx
      · exact not_lt.mp hlt
      · exact hr x hx
    · exact ⟨hl, hr, hol, hor⟩

/-! ### The insertions of a list -/

@[simp] theorem build_concat (xs : List α) (a : α) : build (xs ++ [a]) = insertAt (build xs) a := by
  rw [build, List.foldl_append, List.foldl_cons, List.foldl_nil, insert_eq, build]

/-- **The tree is ordered**, but for repetitions. -/
theorem build_ordered (xs : List α) : Ordered (· ≤ ·) (build xs) := by
  induction xs using List.reverseRecOn with
  | nil => trivial
  | append_singleton xs a ih =>
    rw [build_concat]
    exact insertAt_ordered ih

/-- The values other than 0 are stored as often as they are inserted. -/
theorem build_perm (xs : List α) :
    (inorder (build xs)).filter (· ≠ 0) ~ xs.filter (· ≠ 0) := by
  induction xs using List.reverseRecOn with
  | nil => exact .refl _
  | append_singleton xs a ih =>
    rw [build_concat, List.filter_append]
    by_cases ha : a = 0
    · subst ha
      by_cases hpos : ∀ x ∈ inorder (build xs), 0 < x
      · rw [insertAt_zero_of_pos hpos]
        simpa using ih
      · rw [insertAt_zero_of_not_pos (build_ordered xs) hpos]
        simpa using ih
    · calc (inorder (insertAt (build xs) a)).filter (· ≠ 0)
        _ ~ (a :: inorder (build xs)).filter (· ≠ 0) := (insertAt_perm ha).filter _
        _ = a :: (inorder (build xs)).filter (· ≠ 0) := by simp [ha]
        _ ~ a :: xs.filter (· ≠ 0) := ih.cons a
        _ ~ xs.filter (· ≠ 0) ++ [a] := (List.perm_append_singleton a _).symm
        _ = xs.filter (· ≠ 0) ++ [a].filter (· ≠ 0) := by simp [ha]

/-- A value other than 0 is stored where it is inserted. -/
theorem mem_build_of_ne (ha : a ≠ 0) : a ∈ inorder (build xs) ↔ a ∈ xs := by
  have hmem := (build_perm xs).mem_iff (a := a)
  simpa [List.mem_filter, ha] using hmem

/-- Once 0 was inserted, not all values are positive. -/
theorem not_pos_of_zero_mem (h0 : 0 ∈ xs) : ¬∀ x ∈ inorder (build xs), 0 < x := by
  induction xs using List.reverseRecOn with
  | nil => exact absurd h0 List.not_mem_nil
  | append_singleton xs a ih =>
    rw [build_concat]
    intro hpos
    rcases List.mem_append.mp h0 with h0 | h0
    · exact ih h0 fun x hx => hpos x (mem_insertAt_of_mem hx)
    · obtain rfl := List.mem_singleton.mp h0
      by_cases hpos' : ∀ x ∈ inorder (build xs), 0 < x
      · refine lt_irrefl (0 : α) (hpos 0 ?_)
        rw [insertAt_zero_of_pos hpos']
        exact List.mem_cons_self
      · rw [insertAt_zero_of_not_pos (build_ordered xs) hpos'] at hpos
        exact hpos' hpos

/-- What comes before the first 0, once there is one. -/
theorem takeWhile_concat_of_mem (h0 : 0 ∈ xs) :
    (xs ++ [a]).takeWhile (· ≠ 0) = xs.takeWhile (· ≠ 0) := by
  rw [List.takeWhile_append, if_neg]
  intro hlength
  have hall := List.takeWhile_eq_self_iff.mp
    ((List.takeWhile_prefix (· ≠ (0 : α))).eq_of_length hlength) 0 h0
  simp at hall

theorem takeWhile_concat_of_notMem (h0 : 0 ∉ xs) :
    (xs ++ [0]).takeWhile (· ≠ 0) = xs := by
  rw [List.takeWhile_append_of_pos]
  · simp
  · intro x hx
    simpa using ne_of_mem_of_not_mem hx h0

/-- 0 is stored where it was inserted, and no negative value before it. -/
theorem zero_mem_build :
    0 ∈ inorder (build xs) ↔ 0 ∈ xs ∧ ∀ v ∈ xs.takeWhile (· ≠ 0), 0 < v := by
  induction xs using List.reverseRecOn with
  | nil => simp [build]
  | append_singleton xs a ih =>
    rw [build_concat]
    by_cases h0 : 0 ∈ xs
    · have hkeep : 0 ∈ inorder (insertAt (build xs) a) ↔ 0 ∈ inorder (build xs) := by
        by_cases ha : a = 0
        · rw [ha, insertAt_zero_of_not_pos (build_ordered xs) (not_pos_of_zero_mem h0)]
        · rw [(insertAt_perm ha).mem_iff, List.mem_cons, or_iff_right (Ne.symm ha)]
      rw [hkeep, ih, takeWhile_concat_of_mem h0]
      simp [h0]
    · have hnot : 0 ∉ inorder (build xs) := fun h => h0 (ih.mp h).1
      by_cases ha : a = 0
      · subst ha
        rw [takeWhile_concat_of_notMem h0]
        -- the values stored are those inserted, as 0 is not among them
        have hvalues : ∀ x, x ∈ inorder (build xs) ↔ x ∈ xs := by
          intro x
          by_cases hx : x = 0
          · rw [hx]
            exact iff_of_false hnot h0
          · exact mem_build_of_ne hx
        by_cases hpos : ∀ x ∈ inorder (build xs), 0 < x
        · rw [insertAt_zero_of_pos hpos]
          exact iff_of_true List.mem_cons_self
            ⟨by simp, fun v hv => hpos v ((hvalues v).mpr hv)⟩
        · rw [insertAt_zero_of_not_pos (build_ordered xs) hpos]
          exact iff_of_false hnot fun h => hpos fun x hx => h.2 x ((hvalues x).mp hx)
      · rw [(insertAt_perm ha).mem_iff, List.mem_cons, or_iff_right (Ne.symm ha)]
        refine iff_of_false hnot fun h => h0 ?_
        simpa [Ne.symm ha] using h.1

/-- 0 is stored at most once. -/
theorem count_zero_le (xs : List α) : (inorder (build xs)).count 0 ≤ 1 := by
  induction xs using List.reverseRecOn with
  | nil => simp [build]
  | append_singleton xs a ih =>
    rw [build_concat]
    by_cases ha : a = 0
    · subst ha
      by_cases hpos : ∀ x ∈ inorder (build xs), 0 < x
      · have hnot : 0 ∉ inorder (build xs) := fun h => lt_irrefl _ (hpos 0 h)
        rw [insertAt_zero_of_pos hpos, List.count_cons_self, List.count_eq_zero.mpr hnot]
      · rwa [insertAt_zero_of_not_pos (build_ordered xs) hpos]
    · rwa [(insertAt_perm ha).count_eq, List.count_cons_of_ne ha]

/-! ### When the tree is a set -/

/-- Every value is stored once where the values other than 0 are inserted once. -/
theorem build_nodup (h : (xs.filter (· ≠ 0)).Nodup) : (inorder (build xs)).Nodup := by
  rw [List.nodup_iff_count_le_one]
  intro a
  by_cases ha : a = 0
  · rw [ha]
    exact count_zero_le xs
  · have hcount := List.nodup_iff_count_le_one.mp ((build_perm xs).nodup_iff.mpr h) a
    rwa [List.count_filter (by simpa using ha)] at hcount

theorem isSet_iff_faithful (xs : List α) : IsSet xs ↔ Faithful xs := by
  constructor
  · intro h
    constructor
    · exact (build_perm xs).nodup_iff.mp ((h.increasing.imp ne_of_lt).filter _)
    · exact fun h0 => (zero_mem_build.mp ((h.values 0).mpr h0)).2
  · rintro ⟨hnodup, hzero⟩
    have hordered := (build_ordered xs).of_nodup (build_nodup hnodup)
    refine ⟨hordered, ordered_lt_iff.mp hordered, fun v => ?_⟩
    by_cases hv : v = 0
    · rw [hv, zero_mem_build]
      exact ⟨And.left, fun h0 => ⟨h0, hzero h0⟩⟩
    · exact mem_build_of_ne hv

/-- Inserting a value that was inserted before leaves the tree as it is exactly where the
value is 0. -/
theorem isSame_insert_iff (ha : a ∈ xs) : isSame (insert (build xs) a) (build xs) ↔ a = 0 := by
  rw [isSame_iff, insert_eq]
  constructor
  · intro hsame
    by_contra hne
    have hlength := (insertAt_perm (t := build xs) hne).length_eq
    rw [hsame, List.length_cons] at hlength
    omega
  · rintro rfl
    exact insertAt_zero_of_not_pos (build_ordered xs) (not_pos_of_zero_mem ha)

end

/-- **When the tree is a set**: exactly where no value but 0 is inserted twice, and no negative
one before the first 0; and then a value that is in the tree can be inserted again without a
change exactly where it is 0. -/
theorem isSet_iff (xs : List ℤ) : (IsSet xs ↔ Faithful xs) ∧
    ∀ v ∈ xs, (isSame (insert (build xs) v) (build xs) ↔ v = 0) :=
  ⟨isSet_iff_faithful xs, fun _ hv => isSame_insert_iff hv⟩

/-- A value that comes twice is stored twice, and 0 after -1 is lost. -/
theorem not_isSet : ¬IsSet ([1, 1] : List ℤ) ∧ ¬IsSet ([-1, 0] : List ℤ) ∧
    isSame (insert (build [1]) (1 : ℤ)) (build [1]) = false := by
  refine ⟨fun h => ?_, fun h => ?_, by decide⟩
  · exact absurd h.increasing (by decide)
  · exact absurd ((h.values 0).mpr (by decide)) (by decide)

end LevelDb.BST
