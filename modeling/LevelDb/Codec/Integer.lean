import LevelDb.Codec.Format
import Mathlib.Tactic.Ring

/-!
# Integers as bytes

The two encodings of an unsigned integer that a binary record format uses:

* **fixed width**, little-endian: `Codec.toLE w` writes the `w` low bytes of a
  number and `Codec.ofLE` reads them back (`Codec.ofLE_toLE`);
* **variable width**, seven bits to a byte, the top bit set on every byte but
  the last: `Codec.varint k` is the format of at most `k` bytes,
  `Codec.IsVarint` the grammar it recognises (`Codec.encodes_varint`) and
  `Codec.encodeVarint` the writer of the shortest form
  (`Codec.encodes_encodeVarint`).

A *length-prefixed word* is a varint and as many bytes as it says
(`Codec.lengthPrefixed`).
-/

namespace Codec

open Format

/-! ### Fixed width -/

/-- The `w` low bytes of a number, the lowest first. -/
def toLE : ℕ → ℕ → List UInt8
  | 0, _ => []
  | w + 1, n => UInt8.ofNat n :: toLE w (n / 256)

/-- The number that bytes spell, the lowest first. -/
def ofLE : List UInt8 → ℕ
  | [] => 0
  | b :: bs => b.toNat + 256 * ofLE bs

@[simp] theorem length_toLE (w n : ℕ) : (toLE w n).length = w := by
  induction w generalizing n with
  | zero => rfl
  | succ w ih => simp [toLE, ih]

/-- **Reading a fixed-width integer undoes writing it**, up to the width. -/
theorem ofLE_toLE (w n : ℕ) : ofLE (toLE w n) = n % 256 ^ w := by
  induction w generalizing n with
  | zero => simp [toLE, ofLE, Nat.mod_one]
  | succ w ih =>
    have hb : (UInt8.ofNat n).toNat = n % 256 := by simp
    rw [toLE, ofLE, ih, hb, pow_succ, mul_comm (256 ^ w) 256, Nat.mod_mul]

/-! ### Variable width -/

/-- **The varint format** of at most `k` bytes. -/
def varint : ℕ → Format UInt8 ℕ
  | 0 => .fail
  | k + 1 => item.bind fun b =>
      if b.toNat < 128 then .pure b.toNat
      else (varint k).map fun n => b.toNat - 128 + 128 * n

/-- **The varint grammar**: at most `k` bytes, every one but the last with its
top bit set. -/
inductive IsVarint : ℕ → List UInt8 → ℕ → Prop
  /-- The last byte. -/
  | last {k : ℕ} {b : UInt8} : b.toNat < 128 → IsVarint (k + 1) [b] b.toNat
  /-- A byte that continues. -/
  | more {k : ℕ} {b : UInt8} {bs : List UInt8} {n : ℕ} : 128 ≤ b.toNat → IsVarint k bs n →
      IsVarint (k + 1) (b :: bs) (b.toNat - 128 + 128 * n)

/-- The format recognises the grammar. -/
theorem encodes_varint {k : ℕ} {enc : List UInt8} {n : ℕ} :
    (varint k).Encodes enc n ↔ IsVarint k enc n := by
  induction k generalizing enc n with
  | zero =>
    constructor
    · intro h
      simp [varint, Encodes, Format.fail] at h
    · rintro ⟨⟩
  | succ k ih =>
    rw [varint, encodes_bind]
    constructor
    · rintro ⟨e, e', b, rfl, he, he'⟩
      obtain rfl := encodes_item.mp he
      by_cases hb : b.toNat < 128
      · rw [if_pos hb, encodes_pure] at he'
        obtain ⟨rfl, rfl⟩ := he'
        exact .last hb
      · rw [if_neg hb, encodes_map] at he'
        obtain ⟨m, hm, rfl⟩ := he'
        exact .more (by omega) (ih.mp hm)
    · rintro (hb | ⟨hb, h⟩)
      · refine ⟨_, [], _, rfl, encodes_item.mpr rfl, ?_⟩
        rw [if_pos hb, encodes_pure]
        exact ⟨rfl, rfl⟩
      · refine ⟨_, _, _, rfl, encodes_item.mpr rfl, ?_⟩
        rw [if_neg (by omega), encodes_map]
        exact ⟨_, ih.mpr h, rfl⟩

/-- The shortest varint of a number, cut off after `k` bytes. -/
def encodeVarint : ℕ → ℕ → List UInt8
  | 0, _ => []
  | k + 1, n =>
    if n < 128 then [UInt8.ofNat n]
    else UInt8.ofNat (n % 128 + 128) :: encodeVarint k (n / 128)

/-- **Reading a varint undoes writing it**, for a number that fits. -/
theorem encodes_encodeVarint {k n : ℕ} (h : n < 128 ^ (k + 1)) :
    (varint (k + 1)).Encodes (encodeVarint (k + 1) n) n := by
  rw [encodes_varint]
  induction k generalizing n with
  | zero =>
    have hn : n < 128 := by simpa using h
    have hb : (UInt8.ofNat n).toNat = n := by
      simp only [UInt8.toNat_ofNat']
      omega
    rw [encodeVarint, if_pos hn]
    have := IsVarint.last (k := 0) (b := UInt8.ofNat n) (by omega)
    rwa [hb] at this
  | succ k ih =>
    rw [encodeVarint]
    by_cases hn : n < 128
    · have hb : (UInt8.ofNat n).toNat = n := by
        simp only [UInt8.toNat_ofNat']
        omega
      rw [if_pos hn]
      have := IsVarint.last (k := k + 1) (b := UInt8.ofNat n) (by omega)
      rwa [hb] at this
    · have hb : (UInt8.ofNat (n % 128 + 128)).toNat = n % 128 + 128 := by
        simp only [UInt8.toNat_ofNat']
        omega
      have hlt : n / 128 < 128 ^ (k + 1) := by
        rw [pow_succ] at h
        omega
      rw [if_neg hn]
      have := IsVarint.more (b := UInt8.ofNat (n % 128 + 128)) (by omega) (ih hlt)
      rwa [hb, show n % 128 + 128 - 128 + 128 * (n / 128) = n by omega] at this

/-- The varint of a 32-bit integer: at most five bytes, read modulo `2 ^ 32`. -/
def varint32 : Format UInt8 ℕ := (varint 5).map (· % 2 ^ 32)

/-- The bytes `enc` are a valid varint of the 32-bit integer `n`. -/
def IsVarint32 (enc : List UInt8) (n : ℕ) : Prop := ∃ m, IsVarint 5 enc m ∧ n = m % 2 ^ 32

theorem encodes_varint32 {enc : List UInt8} {n : ℕ} :
    varint32.Encodes enc n ↔ IsVarint32 enc n := by
  simp only [varint32, encodes_map, encodes_varint, IsVarint32]

/-! ### Length-prefixed words -/

/-- **The format of a length-prefixed word**: a varint, and as many bytes as it
says. -/
def lengthPrefixed : Format UInt8 (List UInt8) := varint32.bind take

/-- The bytes `enc` are the word `s` behind a varint of its length. -/
def IsLengthPrefixed (enc s : List UInt8) : Prop := ∃ len, IsVarint32 len s.length ∧ enc = len ++ s

theorem encodes_lengthPrefixed {enc s : List UInt8} :
    lengthPrefixed.Encodes enc s ↔ IsLengthPrefixed enc s := by
  rw [lengthPrefixed, encodes_bind]
  constructor
  · rintro ⟨e, e', n, rfl, he, he'⟩
    obtain ⟨rfl, rfl⟩ := encodes_take.mp he'
    exact ⟨e, encodes_varint32.mp he, rfl⟩
  · rintro ⟨len, hlen, rfl⟩
    exact ⟨len, s, s.length, rfl, encodes_varint32.mpr hlen, encodes_take.mpr ⟨rfl, rfl⟩⟩

/-- A word behind the shortest varint of its length. -/
def encodeLengthPrefixed (s : List UInt8) : List UInt8 := encodeVarint 5 (s.length % 2 ^ 32) ++ s

theorem encodes_encodeLengthPrefixed {s : List UInt8} (h : s.length < 2 ^ 32) :
    lengthPrefixed.Encodes (encodeLengthPrefixed s) s := by
  refine encodes_lengthPrefixed.mpr ⟨_, ⟨s.length, ?_, (Nat.mod_eq_of_lt h).symm⟩, rfl⟩
  rw [Nat.mod_eq_of_lt h]
  exact encodes_varint.mp (encodes_encodeVarint (lt_of_lt_of_le h (by decide)))

end Codec
