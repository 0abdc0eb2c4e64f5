import Mathlib.Data.Int.CardIntervalMod
import Mathlib.FieldTheory.Finite.Basic
import Mathlib.NumberTheory.LucasPrimality

/-!
# Full cycles of a multiplication

In a finite field of `q` elements, multiplication by an element of order `q - 1` goes round
all nonzero elements before it returns. From any nonzero element `x`, the sequence of the
`g ^ n * x` has the periods that `q - 1` divides, and no others
(`FullCycle.pow_add_mul_eq_iff`), and any `q - 1` terms of it in a row are each nonzero
element once (`FullCycle.existsUnique_pow_mul`).

Where a sequence takes every number from 1 to `c` once, its residues modulo `n` are as evenly
spread as the numbers from 1 to `c` (`FullCycle.card_mod_eq`).

The order of an element, and that `p` is prime, come from the same powers modulo `p`
(`FullCycle.prime_of_certificate`, `FullCycle.orderOf_of_certificate`).
-/

namespace FullCycle

section Cycle

variable {K : Type} [Field K] [Fintype K] {g x y : K}

theorem ne_zero_of_order (hg : orderOf g = Fintype.card K - 1) : g ≠ 0 := by
  rintro rfl
  have hcard := Fintype.one_lt_card (α := K)
  have hpow := pow_orderOf_eq_one (0 : K)
  rw [hg, zero_pow (by omega)] at hpow
  exact zero_ne_one hpow

/-- **The periods** of the sequence. -/
theorem pow_add_mul_eq_iff (hg : orderOf g = Fintype.card K - 1) (hx : x ≠ 0) {d : ℕ} :
    (∀ n, g ^ (n + d) * x = g ^ n * x) ↔ Fintype.card K - 1 ∣ d := by
  rw [← hg, orderOf_dvd_iff_pow_eq_one]
  constructor
  · intro h
    have h0 := h 0
    rw [Nat.zero_add, pow_zero] at h0
    exact mul_right_cancel₀ hx h0
  · intro hd n
    rw [pow_add, hd, mul_one]

/-- **Every nonzero element once**: the first terms of the sequence. -/
theorem existsUnique_pow_mul (hg : orderOf g = Fintype.card K - 1) (hx : x ≠ 0) (hy : y ≠ 0) :
    ∃! n, n < Fintype.card K - 1 ∧ g ^ n * x = y := by
  classical
  have hinj : Set.InjOn (fun n => g ^ n * x) (Finset.range (Fintype.card K - 1)) := by
    intro m hm n hn hmn
    rw [Finset.coe_range, ← hg] at hm hn
    exact pow_injOn_Iio_orderOf hm hn (mul_right_cancel₀ hx hmn)
  have hg0 := ne_zero_of_order hg
  -- the terms are as many as the nonzero elements, and all nonzero
  have himage : (Finset.range (Fintype.card K - 1)).image (fun n => g ^ n * x) =
      Finset.univ.erase 0 := by
    refine Finset.eq_of_subset_of_card_le (fun z hz => ?_) ?_
    · obtain ⟨n, -, rfl⟩ := Finset.mem_image.mp hz
      exact Finset.mem_erase.mpr ⟨mul_ne_zero (pow_ne_zero n hg0) hx, Finset.mem_univ _⟩
    · rw [Finset.card_image_of_injOn hinj, Finset.card_range,
        Finset.card_erase_of_mem (Finset.mem_univ _), Finset.card_univ]
  have hmem : y ∈ (Finset.range (Fintype.card K - 1)).image (fun n => g ^ n * x) := by
    rw [himage]
    exact Finset.mem_erase.mpr ⟨hy, Finset.mem_univ _⟩
  obtain ⟨n, hn, hny⟩ := Finset.mem_image.mp hmem
  refine ⟨n, ⟨Finset.mem_range.mp hn, hny⟩, fun m hm => ?_⟩
  exact hinj (Finset.mem_coe.mpr (Finset.mem_range.mpr hm.1)) hn (hm.2.trans hny.symm)

end Cycle

/-! ### Residues -/

section Residues

variable {c n r : ℕ} {f : ℕ → ℕ}

/-- How many of the numbers from 1 to `c` have the residue `r`. -/
theorem card_succ_mod_eq (hr : r < n) : {y ∈ Finset.range c | (y + 1) % n = r}.card =
    c / n + if 1 ≤ r ∧ r ≤ c % n then 1 else 0 := by
  have hn : 0 < n := by omega
  -- the number before has the residue before
  have hshift : ∀ y, (y + 1) % n = r ↔ y ≡ r + (n - 1) [MOD n] := fun y => by
    rw [← Nat.ModEq.add_iff_right (Nat.ModEq.refl 1), add_assoc, Nat.sub_add_cancel hn, Nat.ModEq,
      Nat.add_mod_right, Nat.mod_eq_of_lt hr]
  have hprev : (r + (n - 1)) % n = if r = 0 then n - 1 else r - 1 := by
    split_ifs with h0
    · rw [h0, Nat.zero_add, Nat.mod_eq_of_lt (by omega)]
    · rw [show r + (n - 1) = r - 1 + n by omega, Nat.add_mod_right, Nat.mod_eq_of_lt (by omega)]
  have hlt := Nat.mod_lt c hn
  rw [Finset.filter_congr fun y _ => hshift y, ← Nat.count_eq_card_filter_range,
    Nat.count_modEq_card c hn, hprev]
  refine congrArg (c / n + ·) (if_congr ?_ rfl rfl)
  split_ifs
  · omega
  · omega

/-- **The residues of a sequence that takes every number from 1 to `c` once.** -/
theorem card_mod_eq (hf : ∀ i, 1 ≤ f i ∧ f i ≤ c)
    (hunique : ∀ x, 1 ≤ x → x ≤ c → ∃! i, i < c ∧ f i = x) (hr : r < n) :
    {i ∈ Finset.range c | f i % n = r}.card = c / n + if 1 ≤ r ∧ r ≤ c % n then 1 else 0 := by
  rw [← card_succ_mod_eq hr]
  refine Finset.card_nbij (fun i => f i - 1) (fun i hi => ?_) (fun i hi j hj hij => ?_)
    fun y hy => ?_
  · obtain ⟨-, hmod⟩ := Finset.mem_filter.mp hi
    obtain ⟨hpos, hle⟩ := hf i
    have hlt : f i - 1 < c := by omega
    refine Finset.mem_filter.mpr ⟨Finset.mem_range.mpr hlt, ?_⟩
    rwa [Nat.sub_add_cancel hpos]
  · obtain ⟨hi, -⟩ := Finset.mem_filter.mp hi
    obtain ⟨hj, -⟩ := Finset.mem_filter.mp hj
    obtain ⟨hpos, hle⟩ := hf i
    have hsame : f j = f i := by
      have hposj := (hf j).1
      have hij : f i - 1 = f j - 1 := hij
      omega
    obtain ⟨k, -, hk⟩ := hunique (f i) hpos hle
    rw [hk i ⟨Finset.mem_range.mp hi, rfl⟩, hk j ⟨Finset.mem_range.mp hj, hsame⟩]
  · obtain ⟨hy, hmod⟩ := Finset.mem_filter.mp hy
    obtain ⟨i, ⟨hi, hfi⟩, -⟩ := hunique (y + 1) (by omega) (Finset.mem_range.mp hy)
    refine ⟨i, Finset.mem_coe.mpr (Finset.mem_filter.mpr ⟨Finset.mem_range.mpr hi, ?_⟩), ?_⟩
    · rwa [hfi]
    · exact Nat.sub_eq_of_eq_add hfi

/-- The places of a sequence are the even ones and the odd ones. -/
theorem card_even_add_odd (p : ℕ → Prop) [DecidablePred p] (n : ℕ) :
    {i ∈ Finset.range n | p (2 * i)}.card + {i ∈ Finset.range n | p (2 * i + 1)}.card =
      {i ∈ Finset.range (2 * n) | p i}.card := by
  simp only [← Nat.count_eq_card_filter_range]
  induction n with
  | zero => rfl
  | succ n ih =>
    rw [Nat.mul_succ, Nat.count_succ, Nat.count_succ, Nat.count_succ p (2 * n + 1),
      Nat.count_succ p (2 * n), ← ih]
    omega

end Residues

/-! ### Certificates -/

/-- **What shows that `a` is a primitive root modulo a prime `p`**: a factorization of `p - 1`,
and the powers of `a` to be looked at. -/
structure Certificate (p : ℕ) (a : ZMod p) (factors : List ℕ) : Prop where
  pos : 0 < p - 1
  product : factors.prod = p - 1
  prime : ∀ q ∈ factors, q.Prime
  pow : a ^ (p - 1) = 1
  pow_div : ∀ q ∈ factors, a ^ ((p - 1) / q) ≠ 1

section Certificate

variable {p : ℕ} {a : ZMod p} {factors : List ℕ}

theorem Certificate.pow_div_ne (h : Certificate p a factors) {q : ℕ} (hq : q.Prime)
    (hdvd : q ∣ p - 1) : a ^ ((p - 1) / q) ≠ 1 := by
  rw [← h.product] at hdvd
  obtain ⟨r, hr, hqr⟩ := (Prime.dvd_prod_iff hq.prime).mp hdvd
  obtain rfl := (Nat.prime_dvd_prime_iff_eq hq (h.prime r hr)).mp hqr
  exact h.pow_div q hr

theorem prime_of_certificate (h : Certificate p a factors) : p.Prime :=
  lucas_primality p a h.pow fun _ => h.pow_div_ne

theorem orderOf_of_certificate (h : Certificate p a factors) : orderOf a = p - 1 :=
  orderOf_eq_of_pow_and_pow_div_prime h.pos h.pow fun _ => h.pow_div_ne

end Certificate

end FullCycle
