import LevelDb.Logic.FullCycle
import LevelDb.Slice
import Mathlib.Tactic.NormNum.Prime
import Mathlib.Tactic.ReduceModChar

/-!
# The random number generator

`util/random.hpp` multiplies its state by 16807 modulo `M = 2 ^ 31 - 1`, without a division:
the high and the low bits of the product are added, and `M` is subtracted where the sum is
above it. From a state that is neither 0 nor `M` that is the plain modulus, and the result is
again such a state (`LevelDb.Random.next_toNat`); it is here that the primality of `M` comes
in, which keeps the sum from being `M` itself.

The state is thus the seed times a power of 16807, modulo `M` (`LevelDb.Random.after_exact`).
As 16807 generates the nonzero residues, the values that `Next` returns go round all of them
(`LevelDb.Random.full_period`).
-/

namespace LevelDb

/-- `Random`. -/
structure Random where
  seed : UInt32
  deriving DecidableEq, Repr

namespace Random

/-- `M` of `Random::Next`. -/
def M : UInt32 := 2147483647

/-- `A` of `Random::Next`. -/
def A : UInt64 := 16807

/-- `Random::Random`. -/
def new (s : UInt32) : Random :=
  let seed := s &&& 0x7fffffff
  if seed = 0 ∨ seed = 2147483647 then ⟨1⟩ else ⟨seed⟩

/-- `Random::Next`: what it returns, and the generator. -/
def next (r : Random) : UInt32 × Random :=
  let product : UInt64 := r.seed.toUInt64 * A
  let seed := ((product >>> 31) + (product &&& M.toUInt64)).toUInt32
  let seed := if seed > M then seed - M else seed
  (seed, ⟨seed⟩)

/-- The value that the `n`-th call of `Next` returns, from 0 on. -/
def values (r : Random) : ℕ → UInt32
  | 0 => r.next.1
  | n + 1 => r.next.2.values n

/-- The generator after `n` calls of `Next`. -/
def after (r : Random) : ℕ → Random
  | 0 => r
  | n + 1 => (r.after n).next.2

/-- **A good seed**: neither 0 nor `M`, and no more than 31 bits. -/
def Good (r : Random) : Prop := 1 ≤ r.seed.toNat ∧ r.seed.toNat ≤ 2 ^ 31 - 2

/-! ### The modulus -/

/-- 16807 is a primitive root modulo the prime `2 ^ 31 - 1`. -/
theorem certificate :
    FullCycle.Certificate 2147483647 (16807 : ZMod 2147483647) [2, 3, 3, 7, 11, 31, 151, 331] where
  pos := by norm_num
  product := by norm_num
  prime q hq := by
    simp only [List.mem_cons, List.not_mem_nil, or_false] at hq
    rcases hq with rfl | rfl | rfl | rfl | rfl | rfl | rfl | rfl <;> norm_num
  pow := by
    norm_num only
    reduce_mod_char
  pow_div q hq := by
    simp only [List.mem_cons, List.not_mem_nil, or_false] at hq
    rcases hq with rfl | rfl | rfl | rfl | rfl | rfl | rfl | rfl <;> norm_num only <;>
      reduce_mod_char <;> decide

theorem prime_M : Nat.Prime 2147483647 := FullCycle.prime_of_certificate certificate

instance : Fact (Nat.Prime 2147483647) := ⟨prime_M⟩

/-! ### One call -/

section

variable {r : Random}

theorem new_good (s : UInt32) : (new s).Good := by
  have hlt : (s &&& 0x7fffffff).toNat < 2 ^ 31 := by
    have h := Nat.and_two_pow_sub_one_eq_mod s.toNat 31
    rw [UInt32.toNat_and]
    exact h ▸ Nat.mod_lt _ (by norm_num)
  simp only [new]
  split_ifs with hbad
  · exact ⟨le_rfl, by decide⟩
  · rw [not_or, ← UInt32.toNat_inj, ← UInt32.toNat_inj] at hbad
    simp only [UInt32.reduceToNat] at hbad
    exact ⟨by simp only; omega, by simp only; omega⟩

/-- The sum of the high and the low bits is a number of 32 bits. -/
theorem sum_toNat (product : UInt64) (h : product.toNat < 2 ^ 46) :
    ((product >>> 31) + (product &&& M.toUInt64)).toUInt32.toNat =
      product.toNat / 2 ^ 31 + product.toNat % 2 ^ 31 := by
  have hand : product.toNat &&& 2147483647 = product.toNat % 2 ^ 31 :=
    Nat.and_two_pow_sub_one_eq_mod product.toNat 31
  have hshift : (product >>> 31).toNat = product.toNat / 2 ^ 31 := by
    rw [UInt64.toNat_shiftRight]
    exact Nat.shiftRight_eq_div_pow _ _
  have hmask : (product &&& M.toUInt64).toNat = product.toNat % 2 ^ 31 := by
    rw [UInt64.toNat_and]
    exact hand
  rw [UInt64.toNat_toUInt32, UInt64.toNat_add, hshift, hmask]
  omega

/-- The product is a number of 64 bits. -/
theorem product_toNat (hr : r.Good) : (r.seed.toUInt64 * A).toNat = r.seed.toNat * 16807 := by
  have hle := hr.2
  rw [UInt64.toNat_mul, UInt32.toNat_toUInt64]
  simp only [A, UInt64.reduceToNat]
  omega

theorem sum_product_toNat (hr : r.Good) :
    (((r.seed.toUInt64 * A) >>> 31) + (r.seed.toUInt64 * A &&& M.toUInt64)).toUInt32.toNat =
      r.seed.toNat * 16807 / 2 ^ 31 + r.seed.toNat * 16807 % 2 ^ 31 := by
  have hle := hr.2
  have hproduct := product_toNat hr
  rw [sum_toNat _ (by omega), hproduct]

/-- The product is no multiple of `M`. -/
theorem not_dvd_product (hr : r.Good) : ¬2147483647 ∣ r.seed.toNat * 16807 := by
  obtain ⟨hpos, hle⟩ := hr
  intro hdvd
  rcases prime_M.dvd_mul.mp hdvd with hdvd | hdvd
  · have hlt : r.seed.toNat < 2147483647 := hle.trans_lt (by norm_num)
    exact absurd (Nat.le_of_dvd hpos hdvd) hlt.not_ge
  · exact absurd (Nat.le_of_dvd (by norm_num) hdvd) (by norm_num)

/-- The sum of the high and the low bits is `M` for multiples of `M` only. -/
theorem dvd_of_sum_eq {p : ℕ} (h : p / 2 ^ 31 + p % 2 ^ 31 = 2 ^ 31 - 1) : 2147483647 ∣ p :=
  ⟨p / 2 ^ 31 + 1, by omega⟩

theorem sum_ne_M (hr : r.Good) :
    r.seed.toNat * 16807 / 2 ^ 31 + r.seed.toNat * 16807 % 2 ^ 31 ≠ 2 ^ 31 - 1 :=
  fun h => not_dvd_product hr (dvd_of_sum_eq h)

/-- The shift, the mask and the one subtraction are the plain modulus. -/
theorem next_toNat (hr : r.Good) : r.next.1.toNat = r.seed.toNat * 16807 % 2147483647 := by
  have hndvd := not_dvd_product hr
  have hle := hr.2
  have hsum := sum_product_toNat hr
  simp only [next]
  split_ifs with hgt
  · have hle : M ≤ _ := UInt32.le_of_lt hgt
    rw [gt_iff_lt, UInt32.lt_iff_toNat_lt, hsum] at hgt
    rw [UInt32.toNat_sub_of_le _ _ hle, hsum]
    simp only [M, UInt32.reduceToNat] at hgt ⊢
    omega
  · -- the sum is not `M`, which does not divide the product
    rw [gt_iff_lt, UInt32.lt_iff_toNat_lt, hsum] at hgt
    rw [hsum]
    simp only [M, UInt32.reduceToNat] at hgt
    omega

/-- A good seed leads to a good one. -/
theorem next_good (hr : r.Good) : r.next.2.Good := by
  have hndvd := not_dvd_product hr
  have hnext : r.next.2.seed.toNat = r.seed.toNat * 16807 % 2147483647 := next_toNat hr
  constructor <;> rw [hnext] <;> omega

/-- **A call loses nothing**: neither does the product leave 64 bits, nor the sum 32 bits, nor
does the subtraction, of which the sum never leaves `M` itself, go below 0; and what they
leave is the plain modulus. -/
structure Exact (r : Random) : Prop where
  product : (r.seed.toUInt64 * A).toNat = r.seed.toNat * 16807
  sum : (((r.seed.toUInt64 * A) >>> 31) + (r.seed.toUInt64 * A &&& M.toUInt64)).toUInt32.toNat =
    r.seed.toNat * 16807 / 2 ^ 31 + r.seed.toNat * 16807 % 2 ^ 31
  sum_ne : r.seed.toNat * 16807 / 2 ^ 31 + r.seed.toNat * 16807 % 2 ^ 31 ≠ 2 ^ 31 - 1
  subtraction : (r.next.2.seed.toNat : ℤ) =
    let sum : ℤ := r.seed.toNat * 16807 / 2 ^ 31 + r.seed.toNat * 16807 % 2 ^ 31
    if sum > 2 ^ 31 - 1 then sum - (2 ^ 31 - 1) else sum
  modulus : r.next.2.seed.toNat = r.seed.toNat * 16807 % (2 ^ 31 - 1)
  returned : r.next.1 = r.next.2.seed

theorem Good.exact (hr : r.Good) : r.Exact := by
  have hndvd := not_dvd_product hr
  have hle := hr.2
  have hnext : r.next.2.seed.toNat = r.seed.toNat * 16807 % 2147483647 := next_toNat hr
  refine ⟨product_toNat hr, sum_product_toNat hr, sum_ne_M hr, ?_, hnext, rfl⟩
  rw [hnext]
  simp only
  split_ifs <;> omega

/-! ### All calls -/

/-- What the constructor makes of `s`: its low 31 bits, unless they are a bad seed. -/
def initialSeed (s : ℕ) : ℕ :=
  if s % 2 ^ 31 = 0 ∨ s % 2 ^ 31 = 2 ^ 31 - 1 then 1 else s % 2 ^ 31

theorem new_toNat (s : UInt32) : (new s).seed.toNat = initialSeed s.toNat := by
  have hmask : (s &&& 0x7fffffff).toNat = s.toNat % 2 ^ 31 := by
    rw [UInt32.toNat_and]
    exact Nat.and_two_pow_sub_one_eq_mod s.toNat 31
  simp only [new, initialSeed, ← UInt32.toNat_inj, hmask, UInt32.reduceToNat]
  split_ifs with hbad hbad' hbad'
  · rfl
  · exact absurd hbad hbad'
  · exact absurd hbad' hbad
  · exact hmask

theorem after_good (hr : r.Good) (n : ℕ) : (r.after n).Good := by
  induction n with
  | zero => exact hr
  | succ n ih => exact next_good ih

/-- The state after `n` calls is the plain modulus of the whole product. -/
theorem after_toNat (hr : r.Good) (n : ℕ) :
    (r.after n).seed.toNat = r.seed.toNat * 16807 ^ n % (2 ^ 31 - 1) := by
  induction n with
  | zero =>
    have hle := hr.2
    rw [after, pow_zero, mul_one, Nat.mod_eq_of_lt (by omega)]
  | succ n ih =>
    rw [after, (after_good hr n).exact.modulus, ih, Nat.mod_mul_mod, pow_succ 16807 n, mul_assoc]

theorem after_succ (r : Random) (n : ℕ) : r.after (n + 1) = r.next.2.after n := by
  induction n with
  | zero => rfl
  | succ n ih => rw [after, ih, after]

theorem after_add (r : Random) (m n : ℕ) : r.after (m + n) = (r.after m).after n := by
  induction n with
  | zero => rfl
  | succ n ih => rw [← Nat.add_assoc, after, ih, after]

/-- The values are the states after the calls. -/
theorem values_eq_after (r : Random) (n : ℕ) : r.values n = (r.after (n + 1)).seed := by
  induction n generalizing r with
  | zero => rfl
  | succ n ih => rw [values, ih, after_succ r (n + 1)]

/-- **The reduction is the modulus**: whatever the seed and the number of calls, the state is
the initial one times a power of 16807 modulo `2 ^ 31 - 1`, and the next call loses nothing. -/
theorem after_exact (s : UInt32) (n : ℕ) :
    ((new s).after n).seed.toNat = initialSeed s.toNat * 16807 ^ n % (2 ^ 31 - 1) ∧
      (1 ≤ ((new s).after n).seed.toNat ∧ ((new s).after n).seed.toNat ≤ 2 ^ 31 - 2) ∧
      ((new s).after n).Exact := by
  have hgood := after_good (new_good s) n
  refine ⟨?_, hgood, hgood.exact⟩
  rw [after_toNat (new_good s), new_toNat]

theorem values_range (hr : r.Good) (n : ℕ) :
    1 ≤ (r.values n).toNat ∧ (r.values n).toNat ≤ 2 ^ 31 - 2 := by
  induction n generalizing r with
  | zero => exact next_good hr
  | succ n ih => exact ih (next_good hr)

/-- One call, as residues. -/
theorem next_cast (hr : r.Good) :
    (r.next.1.toNat : ZMod 2147483647) = 16807 * r.seed.toNat := by
  rw [next_toNat hr, ZMod.natCast_mod, Nat.cast_mul, Nat.cast_ofNat, mul_comm]

/-- The values as residues. -/
theorem values_cast (hr : r.Good) (n : ℕ) : ((r.values n).toNat : ZMod 2147483647) =
    16807 ^ n * (16807 * r.seed.toNat) := by
  induction n generalizing r with
  | zero => rw [pow_zero, one_mul, values, next_cast hr]
  | succ n ih =>
    have hseed : (r.next.2.seed.toNat : ZMod 2147483647) = 16807 * r.seed.toNat := next_cast hr
    rw [values, ih (next_good hr), hseed, pow_succ, mul_assoc]

/-- Numbers in the range are told apart by their residues. -/
theorem eq_of_cast {m n : ℕ} (hm : m ≤ 2 ^ 31 - 2) (hn : n ≤ 2 ^ 31 - 2)
    (h : (m : ZMod 2147483647) = n) : m = n := by
  rw [ZMod.natCast_eq_natCast_iff', Nat.mod_eq_of_lt (by omega), Nat.mod_eq_of_lt (by omega)] at h
  exact h

/-- Numbers in the range are nonzero residues. -/
theorem cast_ne_zero {n : ℕ} (hpos : 1 ≤ n) (hle : n ≤ 2 ^ 31 - 2) :
    (n : ZMod 2147483647) ≠ 0 := by
  intro h
  have hzero := eq_of_cast hle (Nat.zero_le _) (h.trans Nat.cast_zero.symm)
  omega

theorem order_A : orderOf (16807 : ZMod 2147483647) = Fintype.card (ZMod 2147483647) - 1 := by
  rw [ZMod.card]
  exact FullCycle.orderOf_of_certificate certificate

/-- The first of the values is a nonzero residue. -/
theorem first_ne_zero (hr : r.Good) :
    (16807 * r.seed.toNat : ZMod 2147483647) ≠ 0 :=
  mul_ne_zero (FullCycle.ne_zero_of_order order_A) (cast_ne_zero hr.1 hr.2)

/-- The periods of the sequence. -/
theorem values_periodic_iff (hr : r.Good) (d : ℕ) :
    (∀ n, r.values (n + d) = r.values n) ↔ 2 ^ 31 - 2 ∣ d := by
  have hperiods := FullCycle.pow_add_mul_eq_iff (d := d) order_A (first_ne_zero hr)
  rw [ZMod.card] at hperiods
  refine Iff.trans (forall_congr' fun n => ?_) hperiods
  rw [← values_cast hr, ← values_cast hr, ← UInt32.toNat_inj]
  constructor
  · exact congrArg _
  · exact eq_of_cast (values_range hr _).2 (values_range hr _).2

/-- The states as residues. -/
theorem after_cast (hr : r.Good) (n : ℕ) :
    ((r.after n).seed.toNat : ZMod 2147483647) = 16807 ^ n * r.seed.toNat := by
  rw [after_toNat hr, show 2 ^ 31 - 1 = 2147483647 from rfl, ZMod.natCast_mod, Nat.cast_mul,
    Nat.cast_pow, Nat.cast_ofNat, mul_comm]

/-- Good generators are told apart by the residues of their states. -/
theorem Good.eq_iff_cast {q : Random} (hq : q.Good) (hr : r.Good) :
    q = r ↔ (q.seed.toNat : ZMod 2147483647) = r.seed.toNat := by
  constructor
  · rintro rfl
    rfl
  · intro h
    have hseed := UInt32.toNat_inj.mp (eq_of_cast hq.2 hr.2 h)
    cases q
    cases r
    exact congrArg Random.mk hseed

/-- **A generator comes back** after so many calls. -/
theorem after_eq_self_iff (hr : r.Good) (n : ℕ) : r.after n = r ↔ 2 ^ 31 - 2 ∣ n := by
  have horder : orderOf (16807 : ZMod 2147483647) = 2 ^ 31 - 2 := by
    rw [order_A, ZMod.card]
    rfl
  rw [(after_good hr n).eq_iff_cast hr, after_cast hr, ← horder, orderOf_dvd_iff_pow_eq_one]
  exact mul_eq_right₀ (cast_ne_zero hr.1 hr.2)

/-- **Every good generator comes up** once in a period. -/
theorem after_existsUnique {q : Random} (hr : r.Good) (hq : q.Good) :
    ∃! n, n < 2 ^ 31 - 2 ∧ r.after n = q := by
  have hcycle := FullCycle.existsUnique_pow_mul order_A (cast_ne_zero hr.1 hr.2)
    (cast_ne_zero hq.1 hq.2)
  rw [ZMod.card] at hcycle
  refine (existsUnique_congr fun n => and_congr_right fun _ => ?_).mp hcycle
  rw [(after_good hr n).eq_iff_cast hq, after_cast hr]

/-- Every value once in a period, wherever it starts. -/
theorem values_existsUnique (hr : r.Good) (k : ℕ) {x : ℕ} (hpos : 1 ≤ x) (hle : x ≤ 2 ^ 31 - 2) :
    ∃! i, i < 2 ^ 31 - 2 ∧ (r.values (k + i)).toNat = x := by
  have hstart : (16807 ^ k * (16807 * r.seed.toNat) : ZMod 2147483647) ≠ 0 :=
    mul_ne_zero (pow_ne_zero k (FullCycle.ne_zero_of_order order_A)) (first_ne_zero hr)
  have hcycle := FullCycle.existsUnique_pow_mul order_A hstart (cast_ne_zero hpos hle)
  rw [ZMod.card] at hcycle
  refine (existsUnique_congr fun i => and_congr_right fun _ => ?_).mp hcycle
  rw [← mul_assoc, ← pow_add, Nat.add_comm i k, ← values_cast hr]
  constructor
  · exact eq_of_cast (values_range hr _).2 hle
  · exact congrArg _

/-- **The generator visits every state**: whatever the seed, its values have the period
`2 ^ 31 - 2` and no smaller one, and every number from 1 to `2 ^ 31 - 2` is one of them, once
in each period. -/
theorem full_period (s : UInt32) :
    (∀ n, 1 ≤ ((new s).values n).toNat ∧ ((new s).values n).toNat ≤ 2 ^ 31 - 2) ∧
      (∀ d, (∀ n, (new s).values (n + d) = (new s).values n) ↔ 2 ^ 31 - 2 ∣ d) ∧
      (∀ k x, 1 ≤ x → x ≤ 2 ^ 31 - 2 →
        ∃! i, i < 2 ^ 31 - 2 ∧ ((new s).values (k + i)).toNat = x) ∧
      ∀ n, (new s).values (n + 1) ≠ (new s).values n := by
  have hr := new_good s
  refine ⟨values_range hr, values_periodic_iff hr,
    fun k _ hpos hle => values_existsUnique hr k hpos hle, fun n hn => ?_⟩
  -- a value twice in a row would be one value at two places of a period
  obtain ⟨hpos, hle⟩ := values_range hr n
  obtain ⟨i, -, hunique⟩ := values_existsUnique hr n hpos hle
  have h0 := hunique 0 ⟨by norm_num, rfl⟩
  have h1 := hunique 1 ⟨by norm_num, congrArg UInt32.toNat hn⟩
  omega

end

end Random

end LevelDb
