import LevelDb.Logic.SearchTree
import Mathlib.Tactic.Ring
import Mathlib.Tactic.Linarith
import Mathlib.Tactic.LinearCombination

/-!
# The depth-weighted cost of a tree

A tree costs the sum, over its nodes, of the depth of the node times its weight
(`SearchTree.depthCost`). One level further down it costs the whole weight more
(`SearchTree.depthCost_add_one`), which is what makes the cheapest tree one of cheapest
subtrees.

The depth of a node is the number of its ancestors, itself included. Where a relation tells the
ancestors in a tree (`SearchTree.Ancestors`), the cost is a sum over the nodes that does not
mention the tree (`SearchTree.depthCost_eq_sum`).

Weights may be negative, and then so may the cost be. If it is for no tree with a given
traversal, and the weights sum to 0, then they are all 0
(`SearchTree.eq_zero_of_depthCost_nonneg`): the two spines already say so.
-/

namespace SearchTree

variable {α : Type}

/-- **The depth-weighted cost** of a tree whose root is at depth `level`. -/
def depthCost (w : α → ℤ) : ℤ → BinaryTree α → ℤ
  | _, .nil => 0
  | level, .node a l r =>
    level * w a + depthCost w (level + 1) l + depthCost w (level + 1) r

section

variable (w : α → ℤ) (level : ℤ)

@[simp] theorem depthCost_nil : depthCost w level .nil = 0 := rfl

@[simp] theorem depthCost_node (a : α) (l r : BinaryTree α) : depthCost w level (.node a l r) =
    level * w a + depthCost w (level + 1) l + depthCost w (level + 1) r := rfl

/-- One level down, a tree costs its whole weight more. -/
theorem depthCost_add_one (t : BinaryTree α) :
    depthCost w (level + 1) t = depthCost w level t + ((inorder t).map w).sum := by
  induction t generalizing level with
  | nil => simp
  | node a l r ihl ihr =>
    rw [depthCost_node, depthCost_node, ihl, ihr, inorder_node, List.map_append, List.map_cons,
      List.sum_append, List.sum_cons]
    ring

/-- Nodes without weight cost nothing. -/
theorem depthCost_eq_zero {t : BinaryTree α} (ht : ∀ x ∈ inorder t, w x = 0) :
    depthCost w level t = 0 := by
  induction t generalizing level with
  | nil => rfl
  | node a l r ihl ihr =>
    rw [depthCost_node, ht a (mem_inorder_node.mpr (.inr (.inl rfl))),
      ihl _ fun x hx => ht x (mem_inorder_node.mpr (.inl hx)),
      ihr _ fun x hx => ht x (mem_inorder_node.mpr (.inr (.inr hx)))]
    ring

variable {w level} in
/-- Where no weight is negative, a tree costs at least what its nodes weigh. -/
theorem sum_le_depthCost {t : BinaryTree α} (ht : ∀ x ∈ inorder t, 0 ≤ w x) (hlevel : 1 ≤ level) :
    ((inorder t).map w).sum ≤ depthCost w level t := by
  induction t generalizing level with
  | nil => exact le_rfl
  | node a l r ihl ihr =>
    have hl := ihl (fun x hx => ht x (mem_inorder_node.mpr (.inl hx)))
      (hlevel.trans (Int.le_add_one le_rfl))
    have hr := ihr (fun x hx => ht x (mem_inorder_node.mpr (.inr (.inr hx))))
      (hlevel.trans (Int.le_add_one le_rfl))
    have ha : 1 * w a ≤ level * w a :=
      mul_le_mul_of_nonneg_right hlevel (ht a (mem_inorder_node.mpr (.inr (.inl rfl))))
    rw [depthCost_node, inorder_node, List.map_append, List.sum_append, List.map_cons,
      List.sum_cons]
    linarith

/-! ### Depths and ancestors -/

/-- **`anc` tells the ancestors** in the tree, every node being one of itself. -/
def Ancestors (anc : α → α → Prop) : BinaryTree α → Prop
  | .nil => True
  | .node a l r =>
    anc a a ∧ (∀ x ∈ inorder l, anc a x ∧ ¬anc x a) ∧ (∀ x ∈ inorder r, anc a x ∧ ¬anc x a) ∧
      (∀ x ∈ inorder l, ∀ y ∈ inorder r, ¬anc x y ∧ ¬anc y x) ∧ Ancestors anc l ∧
        Ancestors anc r

variable {anc : α → α → Prop} [DecidableRel anc]

/-- How many nodes of the tree are ancestors of `i`. -/
def ancestorCount (anc : α → α → Prop) [DecidableRel anc] (t : BinaryTree α) (i : α) : ℕ :=
  (inorder t).countP fun j => anc j i

section

variable {a i : α} {l r : BinaryTree α} (h : Ancestors anc (.node a l r))
include h

/-- On the left, the ancestors are those in the subtree, and the root. -/
theorem Ancestors.count_left (hi : i ∈ inorder l) :
    ancestorCount anc (.node a l r) i = ancestorCount anc l i + 1 := by
  obtain ⟨-, hal, -, hlr, -, -⟩ := h
  have hnone : ((inorder r).countP fun j => anc j i) = 0 :=
    List.countP_eq_zero.mpr fun j hj => by simpa using (hlr i hi j hj).2
  rw [ancestorCount, inorder_node, List.countP_append,
    List.countP_cons_of_pos (by simpa using (hal i hi).1), hnone, ancestorCount]

/-- On the right, the ancestors are those in the subtree, and the root. -/
theorem Ancestors.count_right (hi : i ∈ inorder r) :
    ancestorCount anc (.node a l r) i = ancestorCount anc r i + 1 := by
  obtain ⟨-, -, har, hlr, -, -⟩ := h
  have hnone : ((inorder l).countP fun j => anc j i) = 0 :=
    List.countP_eq_zero.mpr fun j hj => by simpa using (hlr j hj i hi).1
  rw [ancestorCount, inorder_node, List.countP_append,
    List.countP_cons_of_pos (by simpa using (har i hi).1), hnone, Nat.zero_add, ancestorCount]

/-- The root is its only ancestor. -/
theorem Ancestors.count_root : ancestorCount anc (.node a l r) a = 1 := by
  obtain ⟨haa, hal, har, -, -, -⟩ := h
  have hl : ((inorder l).countP fun j => anc j a) = 0 :=
    List.countP_eq_zero.mpr fun j hj => by simpa using (hal j hj).2
  have hr : ((inorder r).countP fun j => anc j a) = 0 :=
    List.countP_eq_zero.mpr fun j hj => by simpa using (har j hj).2
  rw [ancestorCount, inorder_node, List.countP_append,
    List.countP_cons_of_pos (by simpa using haa), hl, hr]

end

/-- **The cost as a sum over the nodes**: at the top, the depth of a node is the number of its
ancestors. -/
theorem depthCost_eq_sum {t : BinaryTree α} (ht : Ancestors anc t) :
    depthCost w level t =
      ((inorder t).map fun i => w i * (level - 1 + ancestorCount anc t i)).sum := by
  induction t generalizing level with
  | nil => rfl
  | node a l r ihl ihr =>
    have hleft : (inorder l).map (fun i => w i * (level + 1 - 1 + ancestorCount anc l i)) =
        (inorder l).map fun i => w i * (level - 1 + ancestorCount anc (.node a l r) i) := by
      refine List.map_congr_left fun i hi => ?_
      rw [ht.count_left hi, Nat.cast_add_one]
      ring
    have hright : (inorder r).map (fun i => w i * (level + 1 - 1 + ancestorCount anc r i)) =
        (inorder r).map fun i => w i * (level - 1 + ancestorCount anc (.node a l r) i) := by
      refine List.map_congr_left fun i hi => ?_
      rw [ht.count_right hi, Nat.cast_add_one]
      ring
    have hroot := ht.count_root
    obtain ⟨-, -, -, -, hl, hr⟩ := ht
    rw [depthCost_node, ihl (level + 1) hl, ihr (level + 1) hr, hleft, hright, inorder_node,
      List.map_append, List.map_cons, List.sum_append, List.sum_cons, hroot, Nat.cast_one]
    ring

/-! ### The spines -/

/-- The tree of `xs` in which every node is the right child of the one before. -/
def rightSpine (xs : List α) : BinaryTree α := xs.foldr (fun a t => .node a .nil t) .nil

/-- The tree of `t` and `xs` in which every node of `xs` has the ones before on its left. -/
def leftSpine (t : BinaryTree α) (xs : List α) : BinaryTree α :=
  xs.foldl (fun t a => .node a t .nil) t

@[simp] theorem rightSpine_cons (a : α) (xs : List α) :
    rightSpine (a :: xs) = .node a .nil (rightSpine xs) := rfl

@[simp] theorem leftSpine_cons (t : BinaryTree α) (a : α) (xs : List α) :
    leftSpine t (a :: xs) = leftSpine (.node a t .nil) xs := rfl

theorem inorder_rightSpine (xs : List α) : inorder (rightSpine xs) = xs := by
  induction xs with
  | nil => rfl
  | cons a xs ih => rw [rightSpine_cons, inorder_node, ih, inorder_nil, List.nil_append]

theorem inorder_leftSpine (t : BinaryTree α) (xs : List α) :
    inorder (leftSpine t xs) = inorder t ++ xs := by
  induction xs generalizing t with
  | nil => exact (List.append_nil _).symm
  | cons a xs ih =>
    rw [leftSpine_cons, ih, inorder_node, inorder_nil, List.append_assoc, List.cons_append,
      List.nil_append]

/-- What a left spine starts with is at its bottom. -/
theorem depthCost_leftSpine (t : BinaryTree α) (xs : List α) : depthCost w level (leftSpine t xs) =
    depthCost w level (leftSpine .nil xs) + depthCost w (level + xs.length) t := by
  induction xs generalizing t with
  | nil => simp [leftSpine]
  | cons a xs ih =>
    rw [leftSpine_cons, leftSpine_cons, ih, ih (.node a .nil .nil), List.length_cons,
      Nat.cast_add_one, ← add_assoc]
    simp only [depthCost_node, depthCost_nil]
    ring

/-- The two spines hold a node at depths that add up to the same for every node. -/
theorem depthCost_spines (xs : List α) :
    depthCost w level (rightSpine xs) + depthCost w level (leftSpine .nil xs) =
      (2 * level + xs.length - 1) * (xs.map w).sum := by
  induction xs generalizing level with
  | nil => simp [rightSpine, leftSpine]
  | cons a xs ih =>
    have hright := depthCost_add_one w level (rightSpine xs)
    rw [inorder_rightSpine] at hright
    rw [rightSpine_cons, leftSpine_cons, depthCost_leftSpine, List.map_cons, List.sum_cons,
      List.length_cons, Nat.cast_add_one]
    simp only [depthCost_node, depthCost_nil, hright]
    linear_combination ih level

/-! ### Trees that cost nothing -/

/-- **Trees of weight 0**: where no tree with the traversal costs less than nothing and the
weights sum to 0, all weights are 0. -/
theorem eq_zero_of_depthCost_nonneg {xs : List α}
    (hcost : ∀ t : BinaryTree α, inorder t = xs → 0 ≤ depthCost w 1 t)
    (hsum : (xs.map w).sum = 0) : ∀ x ∈ xs, w x = 0 := by
  induction xs with
  | nil => exact fun x hx => absurd hx List.not_mem_nil
  | cons a xs ih =>
    rw [List.map_cons, List.sum_cons] at hsum
    have hspines := depthCost_spines w 1 xs
    -- `a` above a tree of the others: the others one level down
    have habove : ∀ t : BinaryTree α, inorder t = xs → 0 ≤ depthCost w 1 t := by
      intro t ht
      have h := hcost (.node a .nil t) (by rw [inorder_node, inorder_nil, ht, List.nil_append])
      rw [depthCost_node, depthCost_nil, depthCost_add_one, ht] at h
      linarith
    have hright := habove (rightSpine xs) (inorder_rightSpine xs)
    have hleft := habove (leftSpine .nil xs) (inorder_leftSpine .nil xs)
    -- `a` at the bottom of the left spine
    have hbelow := hcost (leftSpine (.node a .nil .nil) xs)
      (by rw [inorder_leftSpine, inorder_node, inorder_nil, List.nil_append, List.singleton_append])
    rw [depthCost_leftSpine, depthCost_node, depthCost_nil] at hbelow
    have hweight : (xs.map w).sum = -w a := by linarith
    rw [hweight] at hspines
    have hzero : depthCost w 1 (rightSpine xs) = 0 := by linarith
    have hle : w a ≤ 0 := by
      have hlength : (0 : ℤ) < 1 + xs.length := by omega
      by_contra! hpos
      have hmul := mul_pos hlength hpos
      linarith
    have hge : 0 ≤ w a := by
      cases xs with
      | nil => simpa using hweight.ge
      | cons b ys =>
        -- `a` on the left of a right spine, whose other nodes keep their depths
        have hvee := hcost (.node b (.node a .nil .nil) (rightSpine ys)) (by
          rw [inorder_node, inorder_node, inorder_rightSpine, inorder_nil, List.nil_append,
            List.singleton_append])
        simp only [rightSpine_cons, depthCost_node, depthCost_nil] at hvee hzero
        linarith
    have ha : w a = 0 := le_antisymm hle hge
    rintro x hx
    rcases List.mem_cons.mp hx with rfl | hx
    · exact ha
    · exact ih habove (by rw [hweight, ha, neg_zero]) x hx

end

end SearchTree
