import Mathlib.Data.Nat.Digits.Defs
import Mathlib.Tactic.Ring

/-!
# Numbers in decimal

Decimal digits as ASCII bytes: `Codec.decimalValue` reads a run of them,
`Codec.decimal` writes a number without leading zeros and `Codec.padded` fills it
up to a width. Reading undoes writing (`Codec.decimalValue_padded`).
-/

namespace Codec

/-- An ASCII digit. -/
def isDigit (b : UInt8) : Bool := 48 ≤ b && b ≤ 57

/-- The number a run of digits spells. -/
def decimalValue (ds : List UInt8) : ℕ := ds.foldl (fun v b => 10 * v + (b.toNat - 48)) 0

/-- The byte of a digit. -/
def digitByte (d : ℕ) : UInt8 := UInt8.ofNat (48 + d)

/-- A number in decimal, without leading zeros; nothing for zero. -/
def decimal (n : ℕ) : List UInt8 := (Nat.digits 10 n).reverse.map digitByte

/-- A number in decimal, filled up with zeros to at least `w` digits. -/
def padded (w n : ℕ) : List UInt8 :=
  List.replicate (w - (decimal n).length) (digitByte 0) ++ decimal n

theorem toNat_digitByte {d : ℕ} (h : d < 10) : (digitByte d).toNat = 48 + d := by
  simp only [digitByte, UInt8.toNat_ofNat']
  omega

theorem isDigit_digitByte {d : ℕ} (h : d < 10) : isDigit (digitByte d) = true := by
  have hd := toNat_digitByte h
  simp only [isDigit, Bool.and_eq_true, decide_eq_true_eq, UInt8.le_iff_toNat_le, hd]
  simp
  omega

/-- The digits of a number, the lowest first, spell it backwards. -/
theorem decimalValue_reverse {l : List ℕ} (h : ∀ d ∈ l, d < 10) :
    decimalValue (l.reverse.map digitByte) = Nat.ofDigits 10 l := by
  induction l with
  | nil => rfl
  | cons d l ih =>
    have hd := toNat_digitByte (h d List.mem_cons_self)
    have ih' := ih fun x hx => h x (List.mem_cons_of_mem _ hx)
    rw [decimalValue] at ih' ⊢
    rw [List.reverse_cons, List.map_append, List.foldl_append, ih', Nat.ofDigits_cons]
    simp only [List.map_cons, List.map_nil, List.foldl_cons, List.foldl_nil, hd]
    omega

theorem decimalValue_decimal (n : ℕ) : decimalValue (decimal n) = n := by
  rw [decimal, decimalValue_reverse fun d hd => Nat.digits_lt_base (by omega) hd,
    Nat.ofDigits_digits]

/-- Leading zeros do not change the number. -/
theorem decimalValue_zeros (k : ℕ) (ds : List UInt8) :
    decimalValue (List.replicate k (digitByte 0) ++ ds) = decimalValue ds := by
  induction k with
  | zero => rfl
  | succ k ih =>
    rw [List.replicate_succ, List.cons_append, ← ih]
    rfl

/-- **Reading a padded number undoes writing it.** -/
theorem decimalValue_padded (w n : ℕ) : decimalValue (padded w n) = n := by
  rw [padded, decimalValue_zeros, decimalValue_decimal]

theorem isDigit_of_mem_padded {w n : ℕ} {b : UInt8} (h : b ∈ padded w n) : isDigit b = true := by
  rcases List.mem_append.mp h with h | h
  · rw [(List.mem_replicate.mp h).2]
    exact isDigit_digitByte (by omega)
  · obtain ⟨d, hd, rfl⟩ := List.mem_map.mp h
    exact isDigit_digitByte (Nat.digits_lt_base (by omega) (List.mem_reverse.mp hd))

theorem le_length_padded (w n : ℕ) : w ≤ (padded w n).length := by
  rw [padded, List.length_append, List.length_replicate]
  omega

end Codec
