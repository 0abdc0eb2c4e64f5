import LevelDb.Main.OptionalBst
import Mathlib.Algebra.Order.BigOperators.Group.List
import Mathlib.Order.Bounds.Defs

/-!
# The search for an optimal tree

`OptionalBSTDP` of `main.cpp` tries every position of a range as the root of a tree, and takes
the cheapest. It is to compute the least depth-weighted cost of a search tree on the keys
(`LevelDb.OptionalBST.Optimum`), with a table that remembers the cost of a range.

The table is created with zeros. What should fill it with -1, the mark of a range not yet known,
is a call of `std::find`, which changes nothing; so the first look-up answers, and the function
returns 0 (`LevelDb.OptionalBST.optionalBSTDP_eq`). Filled as it should be, the table would
change nothing, as no call stores in it (`LevelDb.OptionalBST.optionalBSTDPRange_of_unknown`);
and without it the function would not do either: the cost of a root and its two sides leaves out
that the sides are one level further down, and the sum is that of the weights for every root
(`LevelDb.OptionalBST.plain_eq`).

So the function computes what it is to compute where all weights are 0, and nowhere else
(`LevelDb.OptionalBST.optionalBSTDP_optimum_iff`).
-/

namespace LevelDb.OptionalBST

open SearchTree CartesianTree

/-! ### The code -/

/-- `INT_MAX`. -/
def intMax : ℤ := 2147483647

/-- `INT_MIN`. -/
def intMin : ℤ := -2147483648

/-- `(*table)[left][right]`. -/
def lookup (table : List (List ℤ)) (left right : ℤ) : Except Trap ℤ :=
  if left < 0 then .error .bounds
  else
    match table[left.toNat]? with
    | some row => read row right
    | none => .error .bounds

/-- The loop over the roots, with `n` to go from `i` on. -/
def minLoop (cost : ℤ → Except Trap ℤ) : ℕ → ℤ → ℤ → Except Trap ℤ
  | 0, _, minResult => .ok minResult
  | n + 1, i, minResult => do
    let c ← cost i
    minLoop cost n (i + 1) (min minResult c)

/-- `OptionalBSTDP(data, weights, left, right, level, table)`, which does not look at `data`. -/
def optionalBSTDPRange (weights : List ℤ) (table : List (List ℤ)) :
    ℕ → ℤ → ℤ → ℤ → Except Trap ℤ
  | 0, _, _, _ => .error .fuel
  | fuel + 1, left, right, level =>
    if left > right then .ok 0
    else do
      let known ← lookup table left right
      if known ≠ -1 then .ok known
      else
        let cost := fun i => do
          let weight ← read weights i
          let costLeft ← optionalBSTDPRange weights table fuel left (i - 1) (level + 1)
          let costRight ← optionalBSTDPRange weights table fuel (i + 1) right (level + 1)
          .ok (weight + costLeft + costRight)
        minLoop cost (right + 1 - left).toNat left intMax

/-- The table of `OptionalBSTDP(data, weights)`: rows of zeros, in each of which -1 is looked
for. -/
def initTable (n : ℕ) : List (List ℤ) :=
  (List.replicate n (List.replicate n 0)).map fun row =>
    -- `std::find(table[i].begin(), table[i].end(), -1)`: what it finds is dropped
    (row.find? (· = -1), row).2

/-- `OptionalBSTDP(data, weights)`. -/
def optionalBSTDP (data weights : List ℤ) (fuel : ℕ) : Except Trap ℤ :=
  optionalBSTDPRange weights (initTable data.length) fuel 0 (data.length - 1) 1

/-- The recursion without the table. -/
def plainRange (weights : List ℤ) : ℕ → ℤ → ℤ → ℤ → Except Trap ℤ
  | 0, _, _, _ => .error .fuel
  | fuel + 1, left, right, level =>
    if left > right then .ok 0
    else
      let cost := fun i => do
        let weight ← read weights i
        let costLeft ← plainRange weights fuel left (i - 1) (level + 1)
        let costRight ← plainRange weights fuel (i + 1) right (level + 1)
        .ok (weight + costLeft + costRight)
      minLoop cost (right + 1 - left).toNat left intMax

/-- `OptionalBSTDP` without the table. -/
def plain (data weights : List ℤ) (fuel : ℕ) : Except Trap ℤ :=
  plainRange weights fuel 0 (data.length - 1) 1

/-! ### What it is to compute -/

/-- The sum of the weights from `lo` on and below `hi`. -/
def rangeSum (weights : List ℤ) (lo hi : ℕ) : ℤ :=
  ((List.range' lo (hi - lo)).map (value weights)).sum

/-- **The sums fit**: the weights of every range add up to an `int`. -/
def Fits (weights : List ℤ) : Prop :=
  ∀ hi ≤ weights.length, ∀ lo ≤ hi,
    intMin ≤ rangeSum weights lo hi ∧ rangeSum weights lo hi ≤ intMax

instance (weights : List ℤ) : Decidable (Fits weights) :=
  inferInstanceAs (Decidable (∀ hi ≤ weights.length, ∀ lo ≤ hi, _ ∧ _))

/-- The costs of the search trees on `n` keys in their order. -/
def treeCosts (weights : List ℤ) (n : ℕ) : Set ℤ :=
  {c | ∃ t : BinaryTree ℕ, inorder t = List.range n ∧ depthCost (value weights) 1 t = c}

/-- **The optimum**: the least cost of a search tree on the keys, in particular no more than that
of the tree of `OptionalBST`, and what the recursion gives without the table. -/
structure Optimum (data weights : List ℤ) (fuel : ℕ) (result : ℤ) : Prop where
  least : IsLeast (treeCosts weights data.length) result
  le_optionalBST : ∃ s, optionalBST data weights fuel = .ok s ∧ result ≤ s.result
  eq_plain : plain data weights fuel = .ok result

/-- What `OptionalBST` computes is the cost of one of the trees. -/
theorem cartesianCost_mem (data weights : List ℤ) :
    cartesianCost data weights ∈ treeCosts weights data.length := by
  obtain ⟨t, ht⟩ := exists_isCartesian (value data) (Nat.zero_le data.length)
  exact ⟨t, inorder_eq_range ht, depthCost_eq_cartesianCost ht weights⟩

/-! ### The table -/

theorem initTable_eq (n : ℕ) : initTable n = List.replicate n (List.replicate n 0) := by
  rw [initTable, List.map_id']

/-- The table answers 0 for every range. -/
theorem lookup_initTable {n i j : ℕ} (hi : i < n) (hj : j < n) :
    lookup (initTable n) i j = .ok 0 := by
  rw [initTable_eq, lookup, if_neg (by omega), Int.toNat_natCast,
    List.getElem?_eq_getElem (by simpa using hi), List.getElem_replicate]
  have hlength : j < (List.replicate n (0 : ℤ)).length := by simpa using hj
  exact (read_eq hlength).trans (by rw [value_eq_getElem hlength, List.getElem_replicate])

/-- **The table answers at once**: the function returns 0. -/
theorem optionalBSTDP_eq (data weights : List ℤ) {fuel : ℕ} (hfuel : fuel ≠ 0) :
    optionalBSTDP data weights fuel = .ok 0 := by
  obtain ⟨fuel, rfl⟩ := Nat.exists_eq_succ_of_ne_zero hfuel
  rw [optionalBSTDP, optionalBSTDPRange]
  rcases Nat.eq_zero_or_pos data.length with h | h
  · rw [if_pos (by omega)]
  · have hlook := lookup_initTable h (Nat.sub_lt h Nat.one_pos)
    rw [Nat.cast_sub h, Nat.cast_zero, Nat.cast_one] at hlook
    rw [if_neg (by omega), hlook, Trap.ok_bind, if_pos (by decide)]

/-! ### The recursion -/

theorem rangeSum_self (weights : List ℤ) (lo : ℕ) : rangeSum weights lo lo = 0 := by
  rw [rangeSum, Nat.sub_self, List.range'_zero, List.map_nil, List.sum_nil]

/-- Whatever the root, its weight and those of the two sides are the weights of the range. -/
theorem rangeSum_split (weights : List ℤ) {lo hi i : ℕ} (hlo : lo ≤ i) (hhi : i < hi) :
    rangeSum weights lo hi =
      value weights i + rangeSum weights lo i + rangeSum weights (i + 1) hi := by
  rw [rangeSum, range'_split hlo hhi, List.map_append, List.sum_append, List.map_cons,
    List.sum_cons, rangeSum, rangeSum]
  ring

/-- The loop, where every root costs the same. -/
theorem minLoop_eq {cost : ℤ → Except Trap ℤ} {c : ℤ} (n lo : ℕ) (m : ℤ)
    (hcost : ∀ i : ℕ, lo ≤ i → i < lo + n → cost i = .ok c) (hle : c ≤ m) (hpos : 0 < n) :
    minLoop cost n lo m = .ok c := by
  induction n generalizing lo m with
  | zero => exact absurd hpos (Nat.lt_irrefl 0)
  | succ n ih =>
    rw [minLoop, hcost lo le_rfl (by omega), Trap.ok_bind, min_eq_right hle]
    rcases Nat.eq_zero_or_pos n with rfl | hpos
    · rfl
    · have h := ih (lo + 1) c (fun i _ _ => hcost i (by omega) (by omega)) le_rfl hpos
      rwa [Nat.cast_add_one] at h

/-- **The recursion adds the weights up**: no root is better than another. -/
theorem plainRange_eq {weights : List ℤ} (hfits : Fits weights) {fuel lo hi : ℕ} (hle : lo ≤ hi)
    (hhi : hi ≤ weights.length) (hfuel : hi - lo < fuel) (level : ℤ) :
    plainRange weights fuel lo (hi - 1) level = .ok (rangeSum weights lo hi) := by
  induction fuel generalizing lo hi level with
  | zero => exact absurd hfuel (Nat.not_lt_zero _)
  | succ fuel ih =>
    rw [plainRange]
    rcases hle.eq_or_lt with rfl | hlt
    · rw [if_pos (by omega), rangeSum_self]
    · rw [if_neg (by omega)]
      simp only [show ((hi : ℤ) - 1 + 1 - lo).toNat = hi - lo by omega]
      refine minLoop_eq (hi - lo) lo intMax (fun i hlo hi' => ?_) (hfits hi hhi lo hle).2
        (by omega)
      have hleft := ih hlo (by omega) (by omega : i - lo < fuel) (level + 1)
      have hright := ih (show i + 1 ≤ hi by omega) hhi (by omega) (level + 1)
      rw [Nat.cast_add_one] at hright
      rw [read_eq (by omega), Trap.ok_bind, hleft, Trap.ok_bind, hright, Trap.ok_bind,
        ← rangeSum_split weights hlo (by omega)]

theorem minLoop_congr {cost cost' : ℤ → Except Trap ℤ} (n lo : ℕ) (m : ℤ)
    (hcost : ∀ i : ℕ, lo ≤ i → i < lo + n → cost i = cost' i) :
    minLoop cost n lo m = minLoop cost' n lo m := by
  induction n generalizing lo m with
  | zero => rfl
  | succ n ih =>
    rw [minLoop, minLoop, hcost lo le_rfl (by omega)]
    congr 1
    funext c
    have h := ih (lo + 1) (min m c) fun i _ _ => hcost i (by omega) (by omega)
    rwa [Nat.cast_add_one] at h

/-- A table filled with -1 would change nothing: no call stores in it. -/
theorem optionalBSTDPRange_of_unknown {weights : List ℤ} {table : List (List ℤ)}
    (htable : ∀ i j : ℕ, i < weights.length → j < weights.length → lookup table i j = .ok (-1))
    (fuel : ℕ) {lo hi : ℕ} (hle : lo ≤ hi) (hhi : hi ≤ weights.length) (level : ℤ) :
    optionalBSTDPRange weights table fuel lo (hi - 1) level =
      plainRange weights fuel lo (hi - 1) level := by
  induction fuel generalizing lo hi level with
  | zero => rfl
  | succ fuel ih =>
    rw [optionalBSTDPRange, plainRange]
    rcases hle.eq_or_lt with rfl | hlt
    · rw [if_pos (by omega), if_pos (by omega)]
    · have hlook := htable lo (hi - 1) (by omega) (by omega)
      rw [Nat.cast_sub (by omega), Nat.cast_one] at hlook
      rw [if_neg (by omega), if_neg (by omega), hlook, Trap.ok_bind, if_neg (not_not_intro rfl)]
      simp only [show ((hi : ℤ) - 1 + 1 - lo).toNat = hi - lo by omega]
      refine minLoop_congr (hi - lo) lo intMax fun i hlo hi' => ?_
      have hright := ih (show i + 1 ≤ hi by omega) hhi (level + 1)
      rw [Nat.cast_add_one] at hright
      rw [ih hlo (by omega) (level + 1), hright]

/-! ### Trees that cost nothing -/

section

variable {weights : List ℤ}

theorem value_eq_zero (h : ∀ w ∈ weights, w = 0) (i : ℕ) : value weights i = 0 := by
  rw [value, List.getD_eq_getElem?_getD]
  cases hi : weights[i]? with
  | none => rfl
  | some w => exact h w (List.mem_of_getElem? hi)

/-- Where no tree costs less than nothing and the weights add up to 0, they are all 0. -/
theorem zero_of_least (hleast : IsLeast (treeCosts weights weights.length) 0)
    (hsum : ((List.range weights.length).map (value weights)).sum = 0) :
    ∀ w ∈ weights, w = 0 := by
  have hvalue := eq_zero_of_depthCost_nonneg (value weights)
    (fun t ht => hleast.2 ⟨t, ht, rfl⟩) hsum
  intro w hw
  obtain ⟨i, hi, rfl⟩ := List.mem_iff_getElem.mp hw
  have hzero := hvalue i (List.mem_range.mpr hi)
  rwa [value_eq_getElem hi] at hzero

/-- Without negative weights it is the least cost alone that fails: 0 is the least cost of a tree
only where all weights are 0. -/
theorem zero_least_of_nonneg (hnonneg : ∀ w ∈ weights, 0 ≤ w)
    (hleast : IsLeast (treeCosts weights weights.length) 0) : ∀ w ∈ weights, w = 0 := by
  have hvalue : ∀ i ∈ List.range weights.length, 0 ≤ value weights i := by
    intro i hi
    rw [value_eq_getElem (List.mem_range.mp hi)]
    exact hnonneg _ (List.getElem_mem _)
  obtain ⟨t, ht, hcost⟩ := hleast.1
  have hle := sum_le_depthCost (t := t) (ht ▸ hvalue) (le_refl 1)
  rw [ht, hcost] at hle
  refine zero_of_least hleast (le_antisymm hle (List.sum_nonneg fun x hx => ?_))
  obtain ⟨i, hi, rfl⟩ := List.mem_map.mp hx
  exact hvalue i hi

end

/-! ### Where it is the optimum -/

section

variable {data weights : List ℤ} (hlength : data.length = weights.length)
  (hfits : Fits weights) {fuel : ℕ} (hfuel : data.length < fuel)

include hlength hfits hfuel

theorem plain_eq : plain data weights fuel = .ok (rangeSum weights 0 data.length) :=
  plainRange_eq hfits (Nat.zero_le _) hlength.le hfuel 1

/-- Where all weights are 0, every tree costs nothing. -/
theorem optimum_of_zero (h : ∀ w ∈ weights, w = 0) : Optimum data weights fuel 0 := by
  have hvalue : value weights = fun _ => 0 := funext (value_eq_zero h)
  have hcost : ∀ t : BinaryTree ℕ, depthCost (value weights) 1 t = 0 := fun t =>
    depthCost_eq_zero _ _ fun x _ => value_eq_zero h x
  have hleast : IsLeast (treeCosts weights data.length) 0 := by
    refine ⟨⟨rightSpine (List.range data.length), inorder_rightSpine _, hcost _⟩, ?_⟩
    rintro c ⟨t, -, rfl⟩
    exact (hcost t).ge
  obtain ⟨s, hrun, hresult, -⟩ := optionalBST_eq hlength hfuel
  refine ⟨hleast, ⟨s, hrun, ?_⟩, ?_⟩
  · rw [hresult]
    exact hleast.2 (cartesianCost_mem data weights)
  · rw [plain_eq hlength hfits hfuel, rangeSum]
    simp [hvalue]

/-- Where 0 is the optimum, all weights are 0. -/
theorem zero_of_optimum (h : Optimum data weights fuel 0) : ∀ w ∈ weights, w = 0 := by
  have hplain := h.eq_plain
  rw [plain_eq hlength hfits hfuel, rangeSum, Nat.sub_zero, ← List.range_eq_range'] at hplain
  have hleast := h.least
  rw [hlength] at hplain hleast
  exact zero_of_least hleast (Except.ok.inj hplain)

/-- **When the optimum is computed**: where all weights are 0, and nowhere else. -/
theorem optionalBSTDP_optimum_iff :
    (∃ r, optionalBSTDP data weights fuel = .ok r ∧ Optimum data weights fuel r) ↔
      ∀ w ∈ weights, w = 0 := by
  rw [optionalBSTDP_eq data weights (Nat.ne_zero_of_lt hfuel)]
  constructor
  · rintro ⟨r, hr, hopt⟩
    obtain rfl := Except.ok.inj hr
    exact zero_of_optimum hlength hfits hfuel hopt
  · exact fun h => ⟨0, rfl, optimum_of_zero hlength hfits hfuel h⟩

end

theorem optionalBSTDP_optimum_zeros :
    ∃ r, optionalBSTDP [7, 5, 6] [0, 0, 0] 4 = .ok r ∧ Optimum [7, 5, 6] [0, 0, 0] 4 r :=
  have hlength : ([7, 5, 6] : List ℤ).length = ([0, 0, 0] : List ℤ).length := rfl
  have hfits : Fits [0, 0, 0] := by decide
  have hfuel : ([7, 5, 6] : List ℤ).length < 4 := by decide
  (optionalBSTDP_optimum_iff hlength hfits hfuel).mpr (by decide)

/-- One key of weight 20: the function returns 0, and the only tree costs 20. -/
theorem optionalBSTDP_one_key :
    optionalBSTDP [10] [20] 2 = .ok 0 ∧ optionalBST [10] [20] 2 = .ok ⟨20, [0]⟩ ∧
      plain [10] [20] 2 = .ok 20 ∧ ¬IsLeast (treeCosts [20] 1) 0 ∧
      ¬∃ r, optionalBSTDP [10] [20] 2 = .ok r ∧ Optimum [10] [20] 2 r := by
  have hdp : optionalBSTDP [10] [20] 2 = .ok 0 := rfl
  have hleast : ¬IsLeast (treeCosts [20] 1) 0 := by
    intro h
    have hnonneg : ∀ w ∈ ([20] : List ℤ), 0 ≤ w := by decide
    have hzero := zero_least_of_nonneg hnonneg h 20 (List.mem_singleton_self 20)
    exact absurd hzero (by decide)
  refine ⟨hdp, rfl, rfl, hleast, ?_⟩
  rintro ⟨r, hr, hopt⟩
  obtain rfl := Except.ok.inj (hdp.symm.trans hr)
  exact hleast hopt.least

end LevelDb.OptionalBST
