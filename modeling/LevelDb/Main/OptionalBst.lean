import LevelDb.Logic.CartesianTree

/-!
# The cost of a tree of minima

`OptionalBST` of `main.cpp` goes down the ranges of a vector: at the leftmost minimum of a range
it adds the weight of that position, times the level, to `*result`, and goes on with what is
before and behind it. This is the Cartesian tree of the vector, and what is added up is its
depth-weighted cost (`LevelDb.OptionalBST.range_eq`).

An `int` is an integer here: the sums of the code are supposed to fit. A read outside a vector,
on the other hand, is an outcome of its own (`LevelDb.OptionalBST.Trap.bounds`).
-/

namespace LevelDb.OptionalBST

open SearchTree CartesianTree

/-! ### The code -/

/-- How a call can end other than by returning. -/
inductive Trap
  /-- A vector was read outside its bounds. -/
  | bounds
  /-- The recursion was cut off by its bound. -/
  | fuel
  deriving DecidableEq, Repr

@[simp] theorem Trap.ok_bind {α β : Type} (a : α) (f : α → Except Trap β) :
    (Except.ok a >>= f) = f a := rfl

/-- `v[i]`. -/
def read (v : List ℤ) (i : ℤ) : Except Trap ℤ :=
  if i < 0 then .error .bounds
  else
    match v[i.toNat]? with
    | some x => .ok x
    | none => .error .bounds

/-- The loop of `std::min_element`, with `n` elements to go from `first` on. -/
def minElementLoop (data : List ℤ) : ℕ → ℤ → ℤ → Except Trap ℤ
  | 0, smallest, _ => .ok smallest
  | n + 1, smallest, first => do
    let x ← read data first
    let y ← read data smallest
    minElementLoop data n (if x < y then first else smallest) (first + 1)

/-- `std::min_element(data.begin() + first, data.begin() + last)`, as its distance from
`data.begin()`. -/
def minElement (data : List ℤ) (first last : ℤ) : Except Trap ℤ :=
  minElementLoop data (last - first - 1).toNat first (first + 1)

/-- `*result`, with the values of `min_index` so far. -/
structure State where
  result : ℤ
  visited : List ℤ
  deriving DecidableEq, Repr

/-- `OptionalBST(data, weights, left, right, level, result)`. -/
def optionalBSTRange (data weights : List ℤ) : ℕ → ℤ → ℤ → ℤ → State → Except Trap State
  | 0, _, _, _, _ => .error .fuel
  | fuel + 1, left, right, level, s =>
    if left > right then .ok s
    else do
      let minIndex ← minElement data left (right + 1)
      let weight ← read weights minIndex
      let s : State :=
        { result := s.result + level * weight, visited := s.visited ++ [minIndex] }
      let s ← optionalBSTRange data weights fuel left (minIndex - 1) (level + 1) s
      optionalBSTRange data weights fuel (minIndex + 1) right (level + 1) s

/-- `OptionalBST(data, weights)`, with what it visited. For an empty `data` the last position is
-1. -/
def optionalBST (data weights : List ℤ) (fuel : ℕ) : Except Trap State :=
  optionalBSTRange data weights fuel 0 (data.length - 1) 1 ⟨0, []⟩

/-- `OptionalBST` with its two recursive calls in an order that `leftFirst` settles for each
range. -/
def optionalBSTInOrder (leftFirst : ℤ → ℤ → Bool) (data weights : List ℤ) :
    ℕ → ℤ → ℤ → ℤ → State → Except Trap State
  | 0, _, _, _, _ => .error .fuel
  | fuel + 1, left, right, level, s =>
    if left > right then .ok s
    else do
      let minIndex ← minElement data left (right + 1)
      let weight ← read weights minIndex
      let s : State :=
        { result := s.result + level * weight, visited := s.visited ++ [minIndex] }
      if leftFirst left right then do
        let s ← optionalBSTInOrder leftFirst data weights fuel left (minIndex - 1) (level + 1) s
        optionalBSTInOrder leftFirst data weights fuel (minIndex + 1) right (level + 1) s
      else do
        let s ← optionalBSTInOrder leftFirst data weights fuel (minIndex + 1) right (level + 1) s
        optionalBSTInOrder leftFirst data weights fuel left (minIndex - 1) (level + 1) s

/-- The code goes left first. -/
theorem optionalBSTInOrder_true (data weights : List ℤ) (fuel : ℕ) (left right level : ℤ)
    (s : State) : optionalBSTInOrder (fun _ _ => true) data weights fuel left right level s =
      optionalBSTRange data weights fuel left right level s := by
  induction fuel generalizing left right level s with
  | zero => rfl
  | succ fuel ih => simp only [optionalBSTInOrder, optionalBSTRange, ih, if_true]

/-! ### The parts -/

/-- The value at a position. -/
def value (v : List ℤ) (i : ℕ) : ℤ := v.getD i 0

theorem value_eq_getElem {v : List ℤ} {i : ℕ} (h : i < v.length) : value v i = v[i] := by
  rw [value, List.getD_eq_getElem?_getD, List.getElem?_eq_getElem h, Option.getD_some]

theorem read_eq {v : List ℤ} {i : ℕ} (h : i < v.length) : read v i = .ok (value v i) := by
  rw [value_eq_getElem h, read, if_neg (by omega), Int.toNat_natCast,
    List.getElem?_eq_getElem h]

/-- The loop keeps the leftmost minimum of what it has seen. -/
theorem minElementLoop_eq {data : List ℤ} {lo m : ℕ} (n k : ℕ)
    (hm : LeftmostMin (value data) lo k m) (hk : k + n ≤ data.length) :
    ∃ m', LeftmostMin (value data) lo (k + n) m' ∧ minElementLoop data n m k = .ok m' := by
  induction n generalizing k m with
  | zero => exact ⟨m, hm, rfl⟩
  | succ n ih =>
    have hmk := hm.1
    obtain ⟨m', hm', hrun⟩ := ih (k + 1) hm.extend (by omega)
    refine ⟨m', by rwa [Nat.add_right_comm, Nat.add_assoc] at hm', ?_⟩
    rw [minElementLoop, read_eq (by omega), read_eq (by omega), Trap.ok_bind, Trap.ok_bind,
      ← hrun]
    push_cast
    rfl

/-- `std::min_element` finds the leftmost minimum. -/
theorem minElement_eq {data : List ℤ} {lo hi m : ℕ} (hm : LeftmostMin (value data) lo hi m)
    (hhi : hi ≤ data.length) : minElement data lo hi = .ok (m : ℤ) := by
  have hlohi := hm.1
  obtain ⟨m', hm', hrun⟩ := minElementLoop_eq (hi - lo - 1) (lo + 1)
    (leftmostMin_self (value data) lo) (by omega)
  rw [show lo + 1 + (hi - lo - 1) = hi by omega] at hm'
  rw [minElement, show ((hi : ℤ) - lo - 1).toNat = hi - lo - 1 by omega, hm.unique hm', ← hrun]
  push_cast
  rfl

/-! ### The run -/

/-- What a call adds to `*result`, and visits. -/
def State.add (s : State) (c : ℤ) (l : List ℤ) : State :=
  { result := s.result + c, visited := s.visited ++ l }

@[simp] theorem State.add_zero (s : State) : s.add 0 [] = s := by
  rw [State.add, Int.add_zero, List.append_nil]

@[simp] theorem State.add_add (s : State) (c d : ℤ) (l l' : List ℤ) :
    (s.add c l).add d l' = s.add (c + d) (l ++ l') := by
  simp only [State.add, add_assoc, List.append_assoc]

section

variable (leftFirst : ℤ → ℤ → Bool) {data weights : List ℤ} {lo hi m : ℕ}

/-- One call on a range that is not empty: the root of the range, and its two sides. -/
theorem inOrder_step (hm : LeftmostMin (value data) lo hi m) (hhi : hi ≤ data.length)
    (hlength : data.length = weights.length) (fuel : ℕ) (level : ℤ) (s : State) :
    optionalBSTInOrder leftFirst data weights (fuel + 1) lo (hi - 1) level s =
      if leftFirst lo (hi - 1) then
        optionalBSTInOrder leftFirst data weights fuel lo (m - 1) (level + 1)
            (s.add (level * value weights m) [(m : ℤ)]) >>=
          optionalBSTInOrder leftFirst data weights fuel (m + 1 : ℕ) (hi - 1) (level + 1)
      else
        optionalBSTInOrder leftFirst data weights fuel (m + 1 : ℕ) (hi - 1) (level + 1)
            (s.add (level * value weights m) [(m : ℤ)]) >>=
          optionalBSTInOrder leftFirst data weights fuel lo (m - 1) (level + 1) := by
  have hbounds := hm.1
  rw [optionalBSTInOrder, if_neg (by omega), sub_add_cancel, minElement_eq hm hhi, Trap.ok_bind,
    read_eq (by omega), Trap.ok_bind, Nat.cast_add_one]
  rfl

/-- **The recursion goes down the Cartesian tree**: in whatever order it takes the two sides, it
adds the cost of the tree of the range, and visits every position of it once. -/
theorem range_eq {t : BinaryTree ℕ} (ht : IsCartesian (value data) lo hi t)
    (hhi : hi ≤ data.length) (hlength : data.length = weights.length) {fuel : ℕ}
    (hfuel : hi - lo < fuel) (level : ℤ) (s : State) :
    ∃ l : List ℕ, l.Perm (inorder t) ∧
      optionalBSTInOrder leftFirst data weights fuel lo (hi - 1) level s =
        .ok (s.add (depthCost (value weights) level t) (l.map Nat.cast)) := by
  induction ht generalizing fuel level s with
  | nil lo =>
    obtain ⟨fuel, rfl⟩ := Nat.exists_eq_succ_of_ne_zero (Nat.ne_zero_of_lt hfuel)
    refine ⟨[], .nil, ?_⟩
    rw [optionalBSTInOrder, if_pos (by omega), depthCost_nil, List.map_nil, State.add_zero]
  | @node lo hi m l r hm _ _ ihl ihr =>
    obtain ⟨fuel, rfl⟩ := Nat.exists_eq_succ_of_ne_zero (Nat.ne_zero_of_lt hfuel)
    have hbounds := hm.1
    have hl := ihl (by omega) (by omega : m - lo < fuel) (level + 1)
    have hr := ihr hhi (by omega : hi - (m + 1) < fuel) (level + 1)
    rw [inOrder_step leftFirst hm hhi hlength, depthCost_node]
    split_ifs
    · obtain ⟨ll, hpl, hrunl⟩ := hl (s.add (level * value weights m) [(m : ℤ)])
      obtain ⟨lr, hpr, hrunr⟩ := hr _
      refine ⟨m :: (ll ++ lr), ((hpl.append hpr).cons m).trans List.perm_middle.symm, ?_⟩
      rw [hrunl, Trap.ok_bind, hrunr, State.add_add, State.add_add, List.map_cons,
        List.map_append, List.singleton_append, ← add_assoc]
    · obtain ⟨lr, hpr, hrunr⟩ := hr (s.add (level * value weights m) [(m : ℤ)])
      obtain ⟨ll, hpl, hrunl⟩ := hl _
      have hperm : (lr ++ ll).Perm (inorder l ++ inorder r) :=
        List.perm_append_comm.trans (hpl.append hpr)
      refine ⟨m :: (lr ++ ll), (hperm.cons m).trans List.perm_middle.symm, ?_⟩
      rw [hrunr, Trap.ok_bind, hrunl, State.add_add, State.add_add, List.map_cons,
        List.map_append, List.singleton_append, ← add_assoc, add_right_comm]

end

/-! ### The cost -/

/-- The number of positions above `i`, of which `i` is one. -/
def depth (data : List ℤ) (i : ℕ) : ℕ :=
  (List.range data.length).countP fun j => Above (value data) j i

/-- **The depth-weighted cost of the Cartesian tree** of `data`, without the tree. -/
def cartesianCost (data weights : List ℤ) : ℤ :=
  ((List.range data.length).map fun i => value weights i * depth data i).sum

theorem depthCost_eq_cartesianCost {data : List ℤ} {t : BinaryTree ℕ}
    (ht : IsCartesian (value data) 0 data.length t) (weights : List ℤ) :
    depthCost (value weights) 1 t = cartesianCost data weights := by
  rw [ht.depthCost_eq, Nat.sub_zero, ← List.range_eq_range']
  rfl

theorem inorder_eq_range {data : List ℤ} {t : BinaryTree ℕ}
    (ht : IsCartesian (value data) 0 data.length t) : inorder t = List.range data.length := by
  rw [ht.inorder_eq, Nat.sub_zero, List.range_eq_range']

section

variable {data weights : List ℤ} (hlength : data.length = weights.length) {fuel : ℕ}
  (hfuel : data.length < fuel)

include hlength hfuel

/-- In every order of the calls: the cost of one tree, and every position once. -/
theorem inOrder_eq (leftFirst : ℤ → ℤ → Bool) : ∃ s,
    optionalBSTInOrder leftFirst data weights fuel 0 (data.length - 1) 1 ⟨0, []⟩ = .ok s ∧
      s.result = cartesianCost data weights ∧
      s.visited.Perm ((List.range data.length).map Nat.cast) := by
  obtain ⟨t, ht⟩ := exists_isCartesian (value data) (Nat.zero_le data.length)
  obtain ⟨l, hl, hrun⟩ := range_eq leftFirst ht le_rfl hlength
    (by omega : data.length - 0 < fuel) 1 ⟨0, []⟩
  refine ⟨_, hrun, ?_, ?_⟩
  · rw [State.add, Int.zero_add, depthCost_eq_cartesianCost ht]
  · rw [inorder_eq_range ht] at hl
    exact hl.map _

theorem optionalBST_eq : ∃ s, optionalBST data weights fuel = .ok s ∧
    s.result = cartesianCost data weights ∧
    s.visited.Perm ((List.range data.length).map Nat.cast) := by
  have h := inOrder_eq hlength hfuel fun _ _ => true
  rwa [optionalBSTInOrder_true] at h

/-- **`OptionalBST` computes the cost of the Cartesian tree**: it returns, having read nothing
outside the vectors and visited every position once, with the sum of the weights times the
numbers of positions above; and the order of its two recursive calls is of no account. -/
theorem optionalBST_cartesian :
    (∃ s, optionalBST data weights fuel = .ok s ∧ s.result = cartesianCost data weights ∧
        s.visited.Perm ((List.range data.length).map Nat.cast)) ∧
      ∀ leftFirst : ℤ → ℤ → Bool, ∃ s,
        optionalBSTInOrder leftFirst data weights fuel 0 (data.length - 1) 1 ⟨0, []⟩ = .ok s ∧
          s.result = cartesianCost data weights ∧
          s.visited.Perm ((List.range data.length).map Nat.cast) :=
  ⟨optionalBST_eq hlength hfuel, inOrder_eq hlength hfuel⟩

end

/-- Ties go to the left. -/
theorem optionalBST_cartesian_ties :
    ∃ s, optionalBST [3, 1, 2, 1] [10, 20, 30, 40] 5 = .ok s ∧ s.result = 210 := by
  have hlength : ([3, 1, 2, 1] : List ℤ).length = ([10, 20, 30, 40] : List ℤ).length := rfl
  have hfuel : ([3, 1, 2, 1] : List ℤ).length < 5 := by decide
  obtain ⟨⟨s, hrun, hresult, -⟩, -⟩ := optionalBST_cartesian hlength hfuel
  exact ⟨s, hrun, hresult.trans (by decide)⟩

end LevelDb.OptionalBST
