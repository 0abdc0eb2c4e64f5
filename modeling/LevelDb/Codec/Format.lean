import Mathlib.Data.List.Basic
import Mathlib.Tactic.Common

/-!
# Self-delimiting formats

A *format* is a partial parser that recognises a value at the front of an input
and returns what it left over. The one law asked of it,
`Codec.Format.consumes`, is that it is **self-delimiting**: what it took off the
front is enough to recognise the value, whatever follows. Two things come out of
that law alone:

* a format is *prefix-free* – the same input cannot be split in two ways
  (`Codec.Format.Encodes.unique`);
* reading values until the parser fails (`Codec.Format.many`) finds the longest
  front of the input that is a concatenation of encodings
  (`Codec.Format.Consuming.many_append`), so a loop over a stream of records accepts
  exactly the concatenations (`Codec.Format.Consuming.many_snd_eq_nil`).

The formats are closed under sequencing (`Codec.Format.bind`), which is how a
record made of a tag and of length-prefixed fields is described without a proof
of its own.
-/

namespace Codec

variable {β α γ : Type}

/-- **A concatenation of encodings** of the values `as`, where `E enc a` says that
the word `enc` encodes `a`. -/
inductive Concat (E : List β → α → Prop) : List β → List α → Prop
  /-- Nothing encodes no value. -/
  | nil : Concat E [] []
  /-- One more encoding at the front. -/
  | cons {enc : List β} {a : α} {w : List β} {as : List α} :
      E enc a → Concat E w as → Concat E (enc ++ w) (a :: as)

theorem Concat.append {E : List β → α → Prop} {w w' : List β} {as as' : List α}
    (h : Concat E w as) (h' : Concat E w' as') : Concat E (w ++ w') (as ++ as') := by
  induction h with
  | nil => simpa using h'
  | cons he _ ih =>
    rw [List.append_assoc, List.cons_append]
    exact ih.cons he

theorem Concat.singleton {E : List β → α → Prop} {enc : List β} {a : α} (h : E enc a) :
    Concat E enc [a] := by
  simpa using Concat.nil.cons h

/-- **A self-delimiting format** for values of type `α` over the letters `β`. -/
structure Format (β α : Type) where
  /-- Recognise a value at the front of the input; return it with the rest. -/
  parse : List β → Option (α × List β)
  /-- What the parser takes off the front is enough to recognise the value,
  whatever follows it. -/
  consumes : ∀ {input a rest}, parse input = some (a, rest) →
    ∃ enc, input = enc ++ rest ∧ ∀ t, parse (enc ++ t) = some (a, t)

namespace Format

/-- The word `enc` is exactly an encoding of `a`: nothing is left over. -/
def Encodes (F : Format β α) (enc : List β) (a : α) : Prop := F.parse enc = some (a, [])

variable {F : Format β α}

/-- An encoding is recognised whatever follows it. -/
theorem Encodes.append {enc : List β} {a : α} (h : F.Encodes enc a) (t : List β) :
    F.parse (enc ++ t) = some (a, t) := by
  obtain ⟨enc', he, ht⟩ := F.consumes h
  rw [he, List.append_nil]
  exact ht t

/-- Parsing splits the input into an encoding and the rest. -/
theorem parse_eq_some {input rest : List β} {a : α} :
    F.parse input = some (a, rest) ↔ ∃ enc, input = enc ++ rest ∧ F.Encodes enc a := by
  constructor
  · intro h
    obtain ⟨enc, he, ht⟩ := F.consumes h
    exact ⟨enc, he, by simpa [Encodes] using ht []⟩
  · rintro ⟨enc, rfl, h⟩
    exact h.append rest

/-! ### The combinators -/

/-- The format that takes nothing. -/
def pure (a : α) : Format β α where
  parse input := some (a, input)
  consumes {input a' rest} h := by
    obtain ⟨rfl, rfl⟩ : a = a' ∧ input = rest := by simpa using h
    exact ⟨[], rfl, fun t => rfl⟩

/-- The format that recognises nothing. -/
def fail : Format β α where
  parse _ := none
  consumes h := by simp at h

/-- The format of one letter. -/
def item : Format β β where
  parse
    | [] => none
    | b :: input => some (b, input)
  consumes {input b rest} h := by
    cases input with
    | nil => simp at h
    | cons b' input =>
      obtain ⟨rfl, rfl⟩ : b' = b ∧ input = rest := by simpa using h
      exact ⟨[b'], rfl, fun t => rfl⟩

/-- The format of any word of a given length. -/
def take (n : ℕ) : Format β (List β) where
  parse input := if n ≤ input.length then some (input.take n, input.drop n) else none
  consumes {input a rest} h := by
    by_cases hn : n ≤ input.length
    · rw [if_pos hn] at h
      obtain ⟨rfl, rfl⟩ : input.take n = a ∧ input.drop n = rest := by simpa using h
      refine ⟨input.take n, (List.take_append_drop n input).symm, fun t => ?_⟩
      have hlen : (input.take n).length = n := List.length_take_of_le hn
      rw [if_pos (by rw [List.length_append]; omega), List.take_left' hlen, List.drop_left' hlen]
    · rw [if_neg hn] at h
      simp at h

/-- One format after another, the second one chosen by the value of the first. -/
def bind (F : Format β α) (G : α → Format β γ) : Format β γ where
  parse input := (F.parse input).bind fun p => (G p.1).parse p.2
  consumes {input c rest} h := by
    obtain ⟨⟨a, mid⟩, h1, h2⟩ := Option.bind_eq_some_iff.mp h
    obtain ⟨e, rfl, he⟩ := F.consumes h1
    obtain ⟨e', rfl, he'⟩ := (G a).consumes h2
    refine ⟨e ++ e', by simp, fun t => ?_⟩
    rw [List.append_assoc, he, Option.bind_some]
    exact he' t

/-- The values of a format, renamed. -/
def map (f : α → γ) (F : Format β α) : Format β γ := F.bind fun a => pure (f a)

theorem encodes_pure {enc : List β} {a a' : α} :
    (pure a : Format β α).Encodes enc a' ↔ enc = [] ∧ a' = a := by
  simp only [Encodes, pure, Option.some.injEq, Prod.mk.injEq]
  exact ⟨fun ⟨h1, h2⟩ => ⟨h2, h1.symm⟩, fun ⟨h1, h2⟩ => ⟨h2.symm, h1⟩⟩

theorem encodes_item {enc : List β} {b : β} : item.Encodes enc b ↔ enc = [b] := by
  cases enc with
  | nil => simp [Encodes, item]
  | cons b' enc =>
    simp only [Encodes, item, Option.some.injEq, Prod.mk.injEq, List.cons.injEq]

theorem encodes_take {n : ℕ} {enc w : List β} :
    (take n).Encodes enc w ↔ enc = w ∧ w.length = n := by
  simp only [Encodes, take]
  constructor
  · intro h
    by_cases hn : n ≤ enc.length
    · rw [if_pos hn] at h
      obtain ⟨rfl, h2⟩ : enc.take n = w ∧ enc.drop n = [] := by simpa using h
      have hle : enc.length ≤ n := List.drop_eq_nil_iff.mp h2
      refine ⟨(List.take_of_length_le hle).symm, ?_⟩
      rw [List.take_of_length_le hle]
      omega
    · rw [if_neg hn] at h
      simp at h
  · rintro ⟨rfl, rfl⟩
    simp

theorem encodes_bind {G : α → Format β γ} {enc : List β} {c : γ} :
    (F.bind G).Encodes enc c ↔
      ∃ e e' a, enc = e ++ e' ∧ F.Encodes e a ∧ (G a).Encodes e' c := by
  constructor
  · intro h
    obtain ⟨⟨a, mid⟩, h1, h2⟩ := Option.bind_eq_some_iff.mp h
    obtain ⟨e, rfl, he⟩ := parse_eq_some.mp h1
    exact ⟨e, mid, a, rfl, he, h2⟩
  · rintro ⟨e, e', a, rfl, he, he'⟩
    exact Option.bind_eq_some_iff.mpr ⟨(a, e'), he.append e', he'⟩

theorem encodes_map {f : α → γ} {enc : List β} {c : γ} :
    (F.map f).Encodes enc c ↔ ∃ a, F.Encodes enc a ∧ c = f a := by
  rw [map, encodes_bind]
  constructor
  · rintro ⟨e, e', a, rfl, he, he'⟩
    obtain ⟨rfl, rfl⟩ := encodes_pure.mp he'
    exact ⟨a, by simpa using he, rfl⟩
  · rintro ⟨a, he, rfl⟩
    exact ⟨enc, [], a, by simp, he, encodes_pure.mpr ⟨rfl, rfl⟩⟩

/-! ### Streams of encodings -/

/-- **Reading until the parser fails**, at most `fuel` values: the values read,
and what is left. -/
def many (F : Format β α) : ℕ → List β → List α × List β
  | 0, input => ([], input)
  | fuel + 1, input =>
    match F.parse input with
    | none => ([], input)
    | some (a, rest) => (a :: (many F fuel rest).1, (many F fuel rest).2)

theorem many_succ_none {fuel : ℕ} {input : List β} (h : F.parse input = none) :
    F.many (fuel + 1) input = ([], input) := by
  rw [many, h]

theorem many_succ_some {fuel : ℕ} {input rest : List β} {a : α}
    (h : F.parse input = some (a, rest)) :
    F.many (fuel + 1) input = (a :: (F.many fuel rest).1, (F.many fuel rest).2) := by
  rw [many, h]

/-- What is read is a front of the input that is a concatenation. -/
theorem many_concat (F : Format β α) : ∀ (fuel : ℕ) (input : List β),
    ∃ w, input = w ++ (F.many fuel input).2 ∧ Concat F.Encodes w (F.many fuel input).1 := by
  intro fuel
  induction fuel with
  | zero => exact fun input => ⟨[], rfl, Concat.nil⟩
  | succ fuel ih =>
    intro input
    rcases hp : F.parse input with _ | ⟨a, rest⟩
    · rw [many_succ_none hp]
      exact ⟨[], rfl, Concat.nil⟩
    · rw [many_succ_some hp]
      obtain ⟨enc, rfl, he⟩ := parse_eq_some.mp hp
      obtain ⟨w, hw, hc⟩ := ih rest
      exact ⟨enc ++ w, by rw [List.append_assoc, ← hw], hc.cons he⟩

/-- A format whose encodings are never empty. -/
def Consuming (F : Format β α) : Prop := ∀ enc a, F.Encodes enc a → enc ≠ []

/-- A consuming format takes at least one letter off its input. -/
theorem Consuming.length_lt (hF : F.Consuming) {input rest : List β} {a : α}
    (h : F.parse input = some (a, rest)) : rest.length < input.length := by
  obtain ⟨enc, rfl, he⟩ := parse_eq_some.mp h
  have := List.length_pos_iff.mpr (hF _ _ he)
  rw [List.length_append]
  omega

/-- **Maximality**: whatever front of an input is a concatenation, reading until
the parser fails goes at least as far, and reads the same values on the way. -/
theorem Consuming.many_append (hF : F.Consuming) {w : List β} {as : List α}
    (h : Concat F.Encodes w as) : ∀ (t : List β) (fuel : ℕ), (w ++ t).length < fuel →
      ∃ fuel', t.length < fuel' ∧
        F.many fuel (w ++ t) = (as ++ (F.many fuel' t).1, (F.many fuel' t).2) := by
  induction h with
  | nil => exact fun t fuel hlen => ⟨fuel, by simpa using hlen, by simp⟩
  | @cons enc a w as he _ ih =>
    intro t fuel hlen
    obtain ⟨fuel, rfl⟩ : ∃ n, fuel = n + 1 := ⟨fuel - 1, by omega⟩
    have hpos := List.length_pos_iff.mpr (hF _ _ he)
    rw [List.append_assoc] at hlen ⊢
    rw [List.length_append] at hlen
    rw [many_succ_some (he.append (w ++ t))]
    obtain ⟨fuel', hf, hm⟩ := ih t fuel (by omega)
    exact ⟨fuel', hf, by rw [hm]; rfl⟩

/-- **A stream is read to its end exactly when it is a concatenation.** -/
theorem Consuming.many_snd_eq_nil (hF : F.Consuming) {fuel : ℕ} {input : List β}
    (hlen : input.length < fuel) :
    (F.many fuel input).2 = [] ↔ ∃ as, Concat F.Encodes input as := by
  constructor
  · intro h
    obtain ⟨w, hw, hc⟩ := many_concat F fuel input
    rw [h, List.append_nil] at hw
    exact ⟨_, hw.symm ▸ hc⟩
  · rintro ⟨as, h⟩
    obtain ⟨fuel', hf, hm⟩ := hF.many_append h [] fuel (by simpa using hlen)
    rw [List.append_nil] at hm
    rw [hm]
    obtain ⟨w, hw, -⟩ := many_concat F fuel' []
    exact (List.append_eq_nil_iff.mp hw.symm).2

/-- The values read off a concatenation are the values it encodes. -/
theorem Consuming.many_eq (hF : F.Consuming) {w : List β} {as : List α}
    (h : Concat F.Encodes w as) {fuel : ℕ} (hlen : w.length < fuel) : F.many fuel w = (as, []) := by
  obtain ⟨fuel', hf, hm⟩ := hF.many_append h [] fuel (by simpa using hlen)
  have hnil : (F.many fuel' []).2 = [] := (hF.many_snd_eq_nil hf).mpr ⟨[], Concat.nil⟩
  obtain ⟨v, hv, hc⟩ := many_concat F fuel' []
  obtain ⟨rfl, -⟩ := List.append_eq_nil_iff.mp hv.symm
  have hvals : (F.many fuel' []).1 = [] := by
    generalize (F.many fuel' []).1 = bs at hc
    generalize hv' : ([] : List β) = v at hc
    cases hc with
    | nil => rfl
    | cons he _ => exact absurd (List.append_eq_nil_iff.mp hv'.symm).1 (hF _ _ he)
  rw [List.append_nil] at hm
  rw [hm, hvals, hnil, List.append_nil]

end Format

end Codec
