import Mathlib.Data.List.Sort
import Mathlib.Data.Tree.Basic

/-!
# Search trees

The values of a binary tree from left to right are its in-order traversal
(`SearchTree.inorder`). A tree is ordered (`SearchTree.Ordered`) where, at every node, what is
on the left is smaller, and what is on the right is in a relation `R` to the node: larger, in
a tree that is a set (`SearchTree.ordered_lt_iff`), or no smaller, in one that may hold a
value more than once (`SearchTree.Ordered.inorder_le`). A tree of the second kind whose
traversal has no repetition is one of the first kind (`SearchTree.Ordered.of_nodup`).
-/

namespace SearchTree

variable {α : Type}

/-- **The in-order traversal.** -/
def inorder : BinaryTree α → List α
  | .nil => []
  | .node a l r => inorder l ++ a :: inorder r

@[simp] theorem inorder_nil : inorder (.nil : BinaryTree α) = [] := rfl

@[simp] theorem inorder_node (a : α) (l r : BinaryTree α) :
    inorder (.node a l r) = inorder l ++ a :: inorder r := rfl

theorem mem_inorder_node {x a : α} {l r : BinaryTree α} :
    x ∈ inorder (.node a l r) ↔ x ∈ inorder l ∨ x = a ∨ x ∈ inorder r := by
  rw [inorder_node, List.mem_append, List.mem_cons]

variable [LinearOrder α]

/-- **The order of a search tree**, with `R` for what may be on the right of a node. -/
def Ordered (R : α → α → Prop) : BinaryTree α → Prop
  | .nil => True
  | .node a l r =>
    (∀ x ∈ inorder l, x < a) ∧ (∀ x ∈ inorder r, R a x) ∧ Ordered R l ∧ Ordered R r

section

variable {R S : α → α → Prop} {t : BinaryTree α}

/-- The traversal of an ordered tree, by a relation that both sides imply. -/
theorem Ordered.pairwise (hlt : ∀ x y, x < y → S x y) (hR : ∀ x y, R x y → S x y)
    (htrans : ∀ x y z, x < y → R y z → S x z) (ht : Ordered R t) : (inorder t).Pairwise S := by
  induction t with
  | nil => exact .nil
  | node a l r ihl ihr =>
    obtain ⟨hl, hr, hol, hor⟩ := ht
    rw [inorder_node, List.pairwise_append, List.pairwise_cons]
    refine ⟨ihl hol, ⟨fun x hx => hR a x (hr x hx), ihr hor⟩, fun x hx y hy => ?_⟩
    rcases List.mem_cons.mp hy with rfl | hy
    · exact hlt x y (hl x hx)
    · exact htrans x a y (hl x hx) (hr y hy)

/-- The traversal of a tree that may hold a value more than once. -/
theorem Ordered.inorder_le (ht : Ordered (· ≤ ·) t) : (inorder t).Pairwise (· ≤ ·) :=
  ht.pairwise (fun _ _ => le_of_lt) (fun _ _ => id) fun _ _ _ h h' => (h.trans_le h').le

/-- **A tree is a search tree exactly where its traversal is strictly increasing.** -/
theorem ordered_lt_iff : Ordered (· < ·) t ↔ (inorder t).Pairwise (· < ·) := by
  constructor
  · exact Ordered.pairwise (fun _ _ => id) (fun _ _ => id) fun _ _ _ => lt_trans
  · intro h
    induction t with
    | nil => trivial
    | node a l r ihl ihr =>
      rw [inorder_node, List.pairwise_append, List.pairwise_cons] at h
      obtain ⟨hl, ⟨hr, hr'⟩, hlr⟩ := h
      exact ⟨fun x hx => hlr x hx a List.mem_cons_self, hr, ihl hl, ihr hr'⟩

/-- Without repetitions, what is no smaller is larger. -/
theorem Ordered.of_nodup (ht : Ordered (· ≤ ·) t) (hnodup : (inorder t).Nodup) :
    Ordered (· < ·) t := by
  refine ordered_lt_iff.mpr ?_
  exact List.Pairwise.imp₂ (fun _ _ hle hne => lt_of_le_of_ne hle hne) ht.inorder_le hnodup

end

end SearchTree
