import LevelDb.Logic.ThreeWay
import LevelDb.Filename.Owned

/-!
# Comparing slices

`Slice::compare`, `Slice::starts_with` and the two operators of `include/slice.hpp`, as they
are written: on `memcmp`, which compares a number of bytes that both slices must have, with
the lengths looked at apart. `memcmp` is the parameter `LevelDb.Memcmp`.

Together they decide the lexicographic order of unsigned bytes
(`LevelDb.Slice.compare_decides`), from which the laws that sorted files and scans of a range
need follow (`LevelDb.Slice.ComparisonLaws`).
-/

namespace LevelDb

/-- `memcmp(s1, s2, n)` of `<string.h>`, on the bytes behind the two pointers. -/
abbrev Memcmp := Bytes → Bytes → ℕ → ℤ

/-- **What the slices rely on**: of the first `n` bytes, which both strings have, the first
two that differ decide, as unsigned chars. -/
structure Memcmp.Lawful (memcmp : Memcmp) : Prop where
  eq_zero (a b : Bytes) (n : ℕ) : n ≤ a.length → n ≤ b.length → (∀ i < n, a[i]? = b[i]?) →
    memcmp a b n = 0
  neg (a b : Bytes) (n i : ℕ) (x y : UInt8) : n ≤ a.length → n ≤ b.length → i < n →
    (∀ j < i, a[j]? = b[j]?) → a[i]? = some x → b[i]? = some y → x.toNat < y.toNat →
    memcmp a b n < 0
  pos (a b : Bytes) (n i : ℕ) (x y : UInt8) : n ≤ a.length → n ≤ b.length → i < n →
    (∀ j < i, a[j]? = b[j]?) → a[i]? = some x → b[i]? = some y → y.toNat < x.toNat →
    0 < memcmp a b n

/-- A `memcmp` that answers with the difference of the two bytes. -/
def memcmpBytes : Memcmp
  | x :: a, y :: b, n + 1 => if x = y then memcmpBytes a b n else (x.toNat : ℤ) - y.toNat
  | _, _, _ => 0

namespace Slice

/-! ### The code -/

/-- `operator==`. -/
def eq (memcmp : Memcmp) (x y : Bytes) : Bool :=
  x.length == y.length && memcmp x y x.length == 0

/-- `operator!=`. -/
def ne (memcmp : Memcmp) (x y : Bytes) : Bool := !eq memcmp x y

/-- `Slice::compare`. -/
def compare (memcmp : Memcmp) (s b : Bytes) : ℤ :=
  let minLen := if s.length < b.length then s.length else b.length
  let r := memcmp s b minLen
  if r = 0 then
    if s.length < b.length then -1
    else if s.length > b.length then 1
    else r
  else r

/-- `Slice::starts_with`, on `memcmp`. -/
def startsWithMemcmp (memcmp : Memcmp) (s x : Bytes) : Bool :=
  x.length ≤ s.length && memcmp s x x.length == 0

end Slice

/-! ### `memcmp` and the first bytes -/

namespace Memcmp.Lawful

variable {memcmp : Memcmp} {a b : Bytes} {n : ℕ}

theorem neg_of_take_lt (h : memcmp.Lawful) (ha : n ≤ a.length) (hb : n ≤ b.length)
    (hlt : a.take n < b.take n) : memcmp a b n < 0 := by
  obtain ⟨i, x, y, hi, hsame, hx, hy, hxy⟩ := ThreeWay.exists_of_take_lt ha hb hlt
  exact h.neg a b n i x y ha hb hi hsame hx hy (UInt8.lt_iff_toNat_lt.mp hxy)

theorem pos_of_take_lt (h : memcmp.Lawful) (ha : n ≤ a.length) (hb : n ≤ b.length)
    (hlt : b.take n < a.take n) : 0 < memcmp a b n := by
  obtain ⟨i, y, x, hi, hsame, hy, hx, hyx⟩ := ThreeWay.exists_of_take_lt hb ha hlt
  exact h.pos a b n i x y ha hb hi (fun j hj => (hsame j hj).symm) hx hy
    (UInt8.lt_iff_toNat_lt.mp hyx)

theorem eq_zero_of_take_eq (h : memcmp.Lawful) (ha : n ≤ a.length) (hb : n ≤ b.length)
    (heq : a.take n = b.take n) : memcmp a b n = 0 :=
  h.eq_zero a b n ha hb fun i hi => by
    rw [← List.getElem?_take_of_lt hi, heq, List.getElem?_take_of_lt hi]

/-- `memcmp` finds no difference exactly where there is none. -/
theorem eq_zero_iff (h : memcmp.Lawful) (ha : n ≤ a.length) (hb : n ≤ b.length) :
    memcmp a b n = 0 ↔ a.take n = b.take n := by
  refine ⟨fun h0 => ?_, h.eq_zero_of_take_eq ha hb⟩
  rcases Std.lt_trichotomy (a.take n) (b.take n) with hlt | heq | hgt
  · exact absurd h0 (h.neg_of_take_lt ha hb hlt).ne
  · exact heq
  · exact absurd h0 (h.pos_of_take_lt ha hb hgt).ne'

end Memcmp.Lawful

/-- The difference of the first two bytes that differ. -/
theorem memcmpBytes_of_first_diff {a b : Bytes} {n i : ℕ} {x y : UInt8} (hi : i < n)
    (hsame : ∀ j < i, a[j]? = b[j]?) (hx : a[i]? = some x) (hy : b[i]? = some y) (hxy : x ≠ y) :
    memcmpBytes a b n = (x.toNat : ℤ) - y.toNat := by
  induction n generalizing a b i with
  | zero => exact absurd hi (Nat.not_lt_zero i)
  | succ n ih =>
    cases a with
    | nil => cases hx
    | cons u a =>
      cases b with
      | nil => cases hy
      | cons v b =>
        cases i with
        | zero =>
          cases hx
          cases hy
          exact if_neg hxy
        | succ i =>
          have huv : u = v := Option.some.inj (hsame 0 (Nat.succ_pos i))
          rw [memcmpBytes, if_pos huv]
          exact ih (Nat.lt_of_succ_lt_succ hi) (fun j hj => hsame (j + 1) (Nat.succ_lt_succ hj))
            hx hy

theorem memcmpBytes_of_same {a b : Bytes} {n : ℕ} (hsame : ∀ i < n, a[i]? = b[i]?) :
    memcmpBytes a b n = 0 := by
  induction n generalizing a b with
  | zero => cases a <;> cases b <;> rfl
  | succ n ih =>
    cases a with
    | nil => rfl
    | cons u a =>
      cases b with
      | nil => rfl
      | cons v b =>
        have huv : u = v := Option.some.inj (hsame 0 (Nat.succ_pos n))
        rw [memcmpBytes, if_pos huv]
        exact ih fun i hi => hsame (i + 1) (Nat.succ_lt_succ hi)

theorem memcmpBytes_lawful : Memcmp.Lawful memcmpBytes where
  eq_zero _ _ _ _ _ hsame := memcmpBytes_of_same hsame
  neg _ _ _ _ x y _ _ hi hsame hx hy hxy := by
    rw [memcmpBytes_of_first_diff hi hsame hx hy fun h => hxy.ne (congrArg UInt8.toNat h)]
    omega
  pos _ _ _ _ x y _ _ hi hsame hx hy hyx := by
    rw [memcmpBytes_of_first_diff hi hsame hx hy fun h => hyx.ne' (congrArg UInt8.toNat h)]
    omega

namespace Slice

variable {memcmp : Memcmp} {a b c x : Bytes}

/-! ### What the functions decide -/

theorem compare_eq (memcmp : Memcmp) (a b : Bytes) :
    compare memcmp a b =
      if memcmp a b (min a.length b.length) ≠ 0 then memcmp a b (min a.length b.length)
      else if a.length < b.length then -1 else if b.length < a.length then 1 else 0 := by
  have hmin : (if a.length < b.length then a.length else b.length)
      = min a.length b.length := by
    split <;> omega
  simp only [compare, hmin]
  split
  next h => simp only [h, ne_eq, not_true_eq_false, if_false, gt_iff_lt]
  next => rfl

/-- A smaller slice compares as smaller. -/
theorem compare_neg (h : memcmp.Lawful) (hlt : a < b) : compare memcmp a b < 0 := by
  have ha : min a.length b.length ≤ a.length := min_le_left _ _
  have hb : min a.length b.length ≤ b.length := min_le_right _ _
  rw [compare_eq]
  rcases ThreeWay.take_lt_or_of_lt rfl hlt with htake | ⟨htake, hlen⟩
  · have hneg := h.neg_of_take_lt ha hb htake
    rwa [if_pos hneg.ne]
  · rw [h.eq_zero_of_take_eq ha hb htake, if_neg (not_not_intro rfl), if_pos hlen]
    exact neg_one_lt_zero

/-- A larger slice compares as larger. -/
theorem compare_pos (h : memcmp.Lawful) (hlt : b < a) : 0 < compare memcmp a b := by
  have ha : min a.length b.length ≤ a.length := min_le_left _ _
  have hb : min a.length b.length ≤ b.length := min_le_right _ _
  rw [compare_eq]
  rcases ThreeWay.take_lt_or_of_lt (min_comm _ _) hlt with htake | ⟨htake, hlen⟩
  · have hpos := h.pos_of_take_lt ha hb htake
    rwa [if_pos hpos.ne']
  · rw [h.eq_zero_of_take_eq ha hb htake.symm, if_neg (not_not_intro rfl),
      if_neg (not_lt_of_gt hlen), if_pos hlen]
    exact zero_lt_one

theorem compare_self (h : memcmp.Lawful) (a : Bytes) : compare memcmp a a = 0 := by
  rw [compare_eq, h.eq_zero_of_take_eq (min_le_left _ _) (min_le_right _ _) rfl]
  simp

/-- **The order**: `compare` decides the lexicographic order of unsigned bytes. -/
theorem compare_decides (h : memcmp.Lawful) : ThreeWay.Decides (compare memcmp) :=
  ThreeWay.decides_of_answers (fun _ _ => compare_neg h) (compare_self h) fun _ _ =>
    compare_pos h

-- the bytes are unsigned, and a proper prefix is smaller
example : compare memcmpBytes [0x80] [0x7f, 0] = 1 ∧ compare memcmpBytes [0x80] [0x80, 0] = -1 :=
  ⟨rfl, rfl⟩

/-- `operator==` is equality of the bytes. -/
theorem eq_iff (h : memcmp.Lawful) (a b : Bytes) : eq memcmp a b = true ↔ a = b := by
  rw [eq, Bool.and_eq_true, beq_iff_eq, beq_iff_eq]
  refine ⟨fun ⟨hlen, h0⟩ => ?_, ?_⟩
  · have htake := (h.eq_zero_iff le_rfl hlen.le).mp h0
    rwa [List.take_length, hlen, List.take_length] at htake
  · rintro rfl
    exact ⟨rfl, h.eq_zero_of_take_eq le_rfl le_rfl rfl⟩

/-- `starts_with` on `memcmp` is the one on the bytes. -/
theorem startsWithMemcmp_eq (h : memcmp.Lawful) (s x : Bytes) :
    startsWithMemcmp memcmp s x = startsWith s x := by
  rw [startsWithMemcmp, startsWith]
  by_cases hlen : x.length ≤ s.length
  · have h0 := h.eq_zero_iff hlen le_rfl
    rw [List.take_length] at h0
    rw [Bool.eq_iff_iff, Bool.and_eq_true, Bool.and_eq_true, beq_iff_eq, beq_iff_eq, h0]
  · simp [hlen]

/-- `starts_with` says whether `remove_prefix` cuts exactly `x` off. -/
theorem startsWithMemcmp_iff (h : memcmp.Lawful) (s x : Bytes) :
    startsWithMemcmp memcmp s x = true ↔
      ∃ rest, removePrefix s x.length = .ok rest ∧ s = x ++ rest := by
  rw [startsWithMemcmp_eq h, startsWith_eq, List.isPrefixOf_iff_prefix]
  constructor
  · rintro ⟨rest, rfl⟩
    refine ⟨rest, ?_, rfl⟩
    rw [removePrefix_of_le (by simp), List.drop_left]
  · rintro ⟨rest, -, rfl⟩
    exact List.prefix_append x rest

/-! ### The laws -/

/-- **What comparing slices is good for.** -/
structure ComparisonLaws (memcmp : Memcmp) : Prop where
  /-- The sign is that of the lexicographic comparison of unsigned bytes. -/
  lexicographic (a b : Bytes) : (compare memcmp a b < 0 ↔ a < b) ∧
    (compare memcmp a b = 0 ↔ a = b) ∧ (0 < compare memcmp a b ↔ b < a)
  antisymmetric (a b : Bytes) : (compare memcmp b a).sign = -(compare memcmp a b).sign
  transitive (a b c : Bytes) : compare memcmp a b ≤ 0 → compare memcmp b c ≤ 0 →
    compare memcmp a c ≤ 0
  transitive_lt (a b c : Bytes) : compare memcmp a b < 0 → compare memcmp b c ≤ 0 →
    compare memcmp a c < 0
  total (a b : Bytes) : compare memcmp a b ≤ 0 ∨ compare memcmp b a ≤ 0
  /-- The operators agree with `compare`. -/
  operators (a b : Bytes) : (compare memcmp a b = 0 ↔ eq memcmp a b = true) ∧
    (compare memcmp a b ≠ 0 ↔ ne memcmp a b = true)
  /-- `starts_with` agrees with `remove_prefix`. -/
  prefixes (a x : Bytes) : startsWithMemcmp memcmp a x = true ↔
    ∃ rest, removePrefix a x.length = .ok rest ∧ a = x ++ rest
  /-- The slices that start with `x` are an interval. -/
  interval (a b c x : Bytes) : compare memcmp a b ≤ 0 → 0 ≤ compare memcmp c b →
    startsWithMemcmp memcmp a x = true → startsWithMemcmp memcmp c x = true →
    startsWithMemcmp memcmp b x = true

/-- **Slices are compared lexicographically**, and all the functions that compare them agree. -/
theorem comparisonLaws (h : memcmp.Lawful) : ComparisonLaws memcmp where
  lexicographic a b :=
    ⟨(compare_decides h).neg_iff a b, (compare_decides h).zero_iff a b,
      (compare_decides h).pos_iff a b⟩
  antisymmetric a b := (compare_decides h).sign_swap a b
  transitive _ _ _ hab hbc := (compare_decides h).trans hab hbc
  transitive_lt _ _ _ hab hbc := (compare_decides h).trans_lt hab hbc
  total a b := (compare_decides h).total a b
  operators a b := by
    rw [ne, Bool.not_eq_true', ← Bool.not_eq_true, eq_iff h, Ne, (compare_decides h).zero_iff]
    exact ⟨Iff.rfl, Iff.rfl⟩
  prefixes := startsWithMemcmp_iff h
  interval a b c x hab hcb ha hc := by
    rw [(compare_decides h).nonpos_iff] at hab
    rw [(compare_decides h).nonneg_iff] at hcb
    rw [startsWithMemcmp_eq h, startsWith_eq, List.isPrefixOf_iff_prefix] at *
    exact ThreeWay.prefix_of_between ha hc hab hcb

theorem comparisonLaws_memcmpBytes : ComparisonLaws memcmpBytes :=
  comparisonLaws memcmpBytes_lawful

end Slice

end LevelDb
