import LevelDb.Util.Random
import Mathlib.Tactic.IntervalCases

/-!
# Uniform and skewed numbers

`Uniform` takes the remainder of the next value. The values go round the numbers from 1 to
`2 ^ 31 - 2`, each once (`LevelDb.Random.full_period`), so that the remainders are spread as
those of these numbers are: over a period each comes up as often as the others, or once more
(`LevelDb.Random.uniform_balanced`). Those that come up once more are the first from 1 on. In
particular 0 comes up least often, and never where `n` is `2 ^ 31 - 1`.

`Skewed` draws a number of bits, and then as many low bits of the next value. As a call takes
two values, and there is an even number of states, the calls of `Skewed` do not go round all of
them. There are two cycles of half the length: that of the seed, and that of the generator one
call of `Next` later (`LevelDb.Random.skewed_run`). The numbers of bits that are drawn in one
of them need not be evenly spread, but in both of them together they are.
-/

namespace LevelDb.Random

variable {r : Random} {n maxLog : Int32} {m x : ℕ}

/-- `Random::Uniform`. The remainder is one of unsigned numbers. -/
def uniform (r : Random) (n : Int32) : UInt32 × Random := (r.next.1 % n.toUInt32, r.next.2)

/-- `Random::Skewed`. -/
def skewed (r : Random) (maxLog : Int32) : UInt32 × Random :=
  let (base, r) := r.uniform (maxLog + 1)
  r.uniform (1 <<< base.toInt32)

/-- The generator after `n` calls of `Skewed`. -/
def skewedAfter (r : Random) (maxLog : Int32) : ℕ → Random
  | 0 => r
  | n + 1 => ((r.skewedAfter maxLog n).skewed maxLog).2

/-- A nonnegative `int`, as an unsigned number. -/
theorem toUInt32_toNat (hn : n.toInt = m) : n.toUInt32.toNat = m := by
  have hcond := BitVec.toInt_eq_toNat_cond n.toBitVec
  have hlt := n.toBitVec.isLt
  rw [Int32.toInt_toBitVec, hn] at hcond
  have hsame : n.toUInt32.toNat = n.toBitVec.toNat := rfl
  split_ifs at hcond
  · omega
  · omega

theorem uniform_toNat (hn : n.toInt = m) : (r.uniform n).1.toNat = r.next.1.toNat % m := by
  rw [uniform, UInt32.toNat_mod, toUInt32_toNat hn]

/-- The values, one generator after the other. -/
theorem next_after (r : Random) (k : ℕ) : (r.after k).next.1 = r.values k := by
  rw [values_eq_after]
  rfl

/-- **Uniform numbers are evenly spread**: whatever the seed, and wherever a period starts,
each of the numbers below `n` comes up `(2 ^ 31 - 2) / n` times in it; and once more if it is
one of those from 1 to the remainder of that division. -/
theorem uniform_balanced (s : UInt32) (k : ℕ) (hn : n.toInt = m) (hx : x < m) :
    {i ∈ Finset.range (2 ^ 31 - 2) | (((new s).after (k + i)).uniform n).1.toNat = x}.card =
      (2 ^ 31 - 2) / m + if 1 ≤ x ∧ x ≤ (2 ^ 31 - 2) % m then 1 else 0 := by
  have hr := new_good s
  rw [← FullCycle.card_mod_eq (fun i => values_range hr (k + i))
    (fun y hpos hle => values_existsUnique hr k hpos hle) hx]
  refine congrArg Finset.card (Finset.filter_congr fun i _ => ?_)
  rw [uniform_toNat hn, next_after]

/-! ### Skewed numbers -/

/-- `1 << base`, without overflow. -/
theorem one_shiftLeft_toInt {base : UInt32} (h : base.toNat ≤ 30) :
    ((1 : Int32) <<< base.toInt32).toInt = (2 ^ base.toNat : ℕ) := by
  have hall : ∀ b ≤ 30, ((1 : Int32) <<< (UInt32.ofNat b).toInt32).toInt = (2 ^ b : ℕ) := by
    intro b hb
    interval_cases b <;> rfl
  have hb := hall base.toNat h
  rwa [UInt32.ofNat_toNat] at hb

/-- A call of `Skewed` takes two values. -/
theorem skewedAfter_eq (r : Random) (maxLog : Int32) (n : ℕ) :
    r.skewedAfter maxLog n = r.after (2 * n) := by
  induction n with
  | zero => rfl
  | succ n ih => rw [skewedAfter, ih]; rfl

/-- `max_log + 1`, without overflow. -/
theorem succ_toInt (hlog : maxLog.toInt = m) (hm : m ≤ 30) : (maxLog + 1).toInt = (m + 1 : ℕ) := by
  rw [Int32.toInt_add, hlog, show (1 : Int32).toInt = 1 from rfl, Nat.cast_add_one]
  exact Int.bmod_eq_of_le (by omega) (by omega)

/-- The number of bits that a call of `Skewed` draws. -/
theorem base_toNat (hlog : maxLog.toInt = m) (hm : m ≤ 30) (n : ℕ) :
    ((r.skewedAfter maxLog n).uniform (maxLog + 1)).1.toNat =
      (r.values (2 * n)).toNat % (m + 1) := by
  rw [uniform_toNat (succ_toInt hlog hm), skewedAfter_eq, next_after]

/-- **A call of `Skewed`**: neither `max_log + 1` nor the shift overflows, the number of bits is
drawn from one value, and as many low bits of the next one are returned. -/
structure Draws (r : Random) (maxLog : Int32) (m draw value : ℕ) : Prop where
  bound : (maxLog + 1).toInt = (m + 1 : ℕ)
  base : (r.uniform (maxLog + 1)).1.toNat = draw % (m + 1)
  shift : ((1 : Int32) <<< (r.uniform (maxLog + 1)).1.toInt32).toInt = (2 ^ (draw % (m + 1)) : ℕ)
  result : (r.skewed maxLog).1.toNat = value % 2 ^ (draw % (m + 1))
  lt : (r.skewed maxLog).1.toNat < 2 ^ m

theorem skewedAfter_draws (hlog : maxLog.toInt = m) (hm : m ≤ 30) (n : ℕ) :
    (r.skewedAfter maxLog n).Draws maxLog m (r.values (2 * n)).toNat
      (r.values (2 * n + 1)).toNat := by
  have hbase := base_toNat (r := r) hlog hm n
  have hle : (r.values (2 * n)).toNat % (m + 1) ≤ m := Nat.lt_succ_iff.mp (Nat.mod_lt _ m.succ_pos)
  have hshift := one_shiftLeft_toInt (hbase.trans_le (hle.trans hm))
  have hresult : ((r.skewedAfter maxLog n).skewed maxLog).1.toNat =
      (r.values (2 * n + 1)).toNat % 2 ^ ((r.values (2 * n)).toNat % (m + 1)) := by
    rw [skewed, uniform_toNat hshift, hbase, skewedAfter_eq, ← next_after r (2 * n + 1)]
    rfl
  refine ⟨succ_toInt hlog hm, hbase, hbase ▸ hshift, hresult, ?_⟩
  rw [hresult]
  refine (Nat.mod_lt _ (Nat.two_pow_pos _)).trans_le ?_
  exact Nat.pow_le_pow_right Nat.two_pos hle

/-- The periods of the calls of `Skewed`. -/
theorem skewedAfter_periodic_iff (hr : r.Good) (d : ℕ) :
    (∀ n, r.skewedAfter maxLog (n + d) = r.skewedAfter maxLog n) ↔ 2 ^ 30 - 1 ∣ d := by
  have hhalf : 2 ^ 31 - 2 ∣ 2 * d ↔ 2 ^ 30 - 1 ∣ d := by
    rw [show 2 ^ 31 - 2 = 2 * (2 ^ 30 - 1) from rfl]
    exact Nat.mul_dvd_mul_iff_left Nat.two_pos
  rw [← hhalf, ← after_eq_self_iff hr]
  constructor
  · intro h
    have h0 := h 0
    rwa [skewedAfter_eq, skewedAfter_eq, Nat.zero_add] at h0
  · intro h n
    rw [skewedAfter_eq, skewedAfter_eq, Nat.mul_add, Nat.add_comm, after_add, h]

/-- **Every good generator is in one of the two cycles**, once in a period. -/
theorem skewedAfter_existsUnique {q : Random} (hr : r.Good) (hq : q.Good) :
    ∃! x : ℕ × Bool, x.1 < 2 ^ 30 - 1 ∧
      (if x.2 then r.next.2 else r).skewedAfter maxLog x.1 = q := by
  have hplace : ∀ x : ℕ × Bool, (if x.2 then r.next.2 else r).skewedAfter maxLog x.1 =
      r.after (2 * x.1 + x.2.toNat) := by
    rintro ⟨n, _ | _⟩
    · exact skewedAfter_eq r maxLog n
    · rw [if_pos rfl, skewedAfter_eq, ← after_succ]
      rfl
  obtain ⟨n, ⟨hn, hafter⟩, hunique⟩ := after_existsUnique hr hq
  refine ⟨(n / 2, n % 2 = 1), ⟨by dsimp only; omega, ?_⟩, ?_⟩
  · rw [hplace, ← hafter]
    refine congrArg r.after ?_
    rcases Nat.mod_two_eq_zero_or_one n with h | h <;> simp [h] <;> omega
  · rintro ⟨k, b⟩ ⟨hk, hx⟩
    rw [hplace] at hx
    have hle := Bool.toNat_le b
    obtain rfl := hunique _ ⟨by dsimp only at hk ⊢; omega, hx⟩
    refine Prod.ext (by dsimp only; omega) ?_
    cases b <;> simp

/-- **A run of `Skewed`**, from any seed: what each call draws and returns; the generator comes
back after `2 ^ 30 - 1` calls and no fewer; every good generator is in this cycle, or in that of
the generator one call of `Next` later; and over a period of both, every number of bits is drawn
equally often, up to one. -/
theorem skewed_run (s : UInt32) (hlog : maxLog.toInt = m) (hm : m ≤ 30) :
    (∀ n, ((new s).skewedAfter maxLog n).Draws maxLog m ((new s).values (2 * n)).toNat
      ((new s).values (2 * n + 1)).toNat) ∧
    (∀ d, (∀ n, (new s).skewedAfter maxLog (n + d) = (new s).skewedAfter maxLog n) ↔
      2 ^ 30 - 1 ∣ d) ∧
    (∀ q : Random, q.Good → ∃! x : ℕ × Bool, x.1 < 2 ^ 30 - 1 ∧
      (if x.2 then (new s).next.2 else new s).skewedAfter maxLog x.1 = q) ∧
    ∀ b ≤ m,
      {n ∈ Finset.range (2 ^ 30 - 1) |
        (((new s).skewedAfter maxLog n).uniform (maxLog + 1)).1.toNat = b}.card +
      {n ∈ Finset.range (2 ^ 30 - 1) |
        (((new s).next.2.skewedAfter maxLog n).uniform (maxLog + 1)).1.toNat = b}.card =
        (2 ^ 31 - 2) / (m + 1) + if 1 ≤ b ∧ b ≤ (2 ^ 31 - 2) % (m + 1) then 1 else 0 := by
  have hr := new_good s
  refine ⟨skewedAfter_draws hlog hm, skewedAfter_periodic_iff hr,
    fun q hq => skewedAfter_existsUnique hr hq, fun b hb => ?_⟩
  -- the two cycles take the values at the even and at the odd places
  have hall := FullCycle.card_even_add_odd (fun i =>
    (((new s).after (0 + i)).uniform (maxLog + 1)).1.toNat = b) (2 ^ 30 - 1)
  rw [show 2 * (2 ^ 30 - 1) = 2 ^ 31 - 2 from rfl] at hall
  rw [← uniform_balanced s 0 (succ_toInt hlog hm) (Nat.lt_succ_iff.mpr hb), ← hall]
  refine congrArg₂ (· + ·) ?_ ?_
  · refine congrArg Finset.card (Finset.filter_congr fun n _ => ?_)
    rw [skewedAfter_eq, Nat.zero_add]
  · refine congrArg Finset.card (Finset.filter_congr fun n _ => ?_)
    rw [skewedAfter_eq, ← after_succ, Nat.zero_add]

/-- Of the numbers below 4, 1 comes up once more than 0 in a period. -/
theorem uniform_balanced_four :
    {j ∈ Finset.range (2 ^ 31 - 2) | (((new 301).after (0 + j)).uniform 4).1.toNat = 0}.card =
        536870911 ∧
      {j ∈ Finset.range (2 ^ 31 - 2) | (((new 301).after (0 + j)).uniform 4).1.toNat = 1}.card =
        536870912 := by
  have hfour : (4 : Int32).toInt = (4 : ℕ) := rfl
  exact ⟨uniform_balanced 301 0 hfour (by decide), uniform_balanced 301 0 hfour (by decide)⟩

/-- The second call of `Skewed(3)` from the seed 301 returns the low bits of the fourth value.
After 1000 calls the generator is not back; and 0 bits are drawn 536870911 times in the two
cycles. -/
theorem skewed_run_three :
    (((new 301).skewedAfter 3 1).skewed 3).1.toNat =
      ((new 301).values 3).toNat % 2 ^ (((new 301).values 2).toNat % 4) ∧
      ¬(∀ n, (new 301).skewedAfter 3 (n + 1000) = (new 301).skewedAfter 3 n) ∧
      {n ∈ Finset.range (2 ^ 30 - 1) |
        (((new 301).skewedAfter 3 n).uniform (3 + 1)).1.toNat = 0}.card +
      {n ∈ Finset.range (2 ^ 30 - 1) |
        (((new 301).next.2.skewedAfter 3 n).uniform (3 + 1)).1.toNat = 0}.card = 536870911 := by
  obtain ⟨hdraws, hperiodic, -, hcount⟩ :=
    skewed_run 301 (rfl : (3 : Int32).toInt = (3 : ℕ)) (by decide)
  refine ⟨(hdraws 1).result, fun h => ?_, hcount 0 (by decide)⟩
  exact absurd ((hperiodic 1000).mp h) (by decide)

end LevelDb.Random
