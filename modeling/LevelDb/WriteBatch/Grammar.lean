import LevelDb.WriteBatch

/-!
# The grammar of a write batch

What `WriteBatch::Iterate` accepts and what it delivers, for a string of any
length and any contents. The body of a batch is read as a stream of *records*
(`LevelDb.IsRecord`), a self-delimiting format in the sense of
`Codec.Format`; the loop of the source is the reading of that format until it
fails (`LevelDb.WriteBatch.iterateLoop_eq`), and everything else is a consequence
of the general facts on such readings:

* the loop ends, trips no assertion, and delivers the operations of the longest
  front of the body that is a concatenation of records;
* it accepts exactly when that front is the whole body and the count agrees
  (`LevelDb.WriteBatch.iterate_accepts_iff`).

`LevelDb.WriteBatch.delivered` names the operations delivered; the recovery files
speak of a log record through it.
-/

namespace LevelDb

open Codec

variable (C : Coding)

/-! ### Records -/

/-- **A complete record**: the value tag with a length-prefixed key and a
length-prefixed value, or the deletion tag with a length-prefixed key. -/
inductive IsRecord : Bytes → Op → Prop
  | put {k v key value : Bytes} : IsLengthPrefixed k key → IsLengthPrefixed v value →
      IsRecord (C.tag .kTypeValue :: (k ++ v)) (.put key value)
  | delete {k key : Bytes} : IsLengthPrefixed k key →
      IsRecord (C.tag .kTypeDeletion :: k) (.delete key)

/-- A concatenation of records, with the operations they hold. -/
abbrev Records : Bytes → List Op → Prop := Concat (IsRecord C)

/-- The format of a record. -/
def record : Format UInt8 Op :=
  .bind .item fun tag =>
    if tag = C.tag .kTypeValue then
      lengthPrefixed.bind fun key => lengthPrefixed.map fun value => .put key value
    else if tag = C.tag .kTypeDeletion then lengthPrefixed.map .delete
    else .fail

variable {C}

theorem encodes_record (hC : C.Lawful) {enc : Bytes} {op : Op} :
    (record C).Encodes enc op ↔ IsRecord C enc op := by
  rw [record, Format.encodes_bind]
  constructor
  · rintro ⟨e, e', tag, rfl, he, he'⟩
    obtain rfl := Format.encodes_item.mp he
    by_cases hv : tag = C.tag .kTypeValue
    · rw [if_pos hv, Format.encodes_bind] at he'
      obtain ⟨k, v, key, rfl, hk, hv'⟩ := he'
      obtain ⟨value, hval, rfl⟩ := Format.encodes_map.mp hv'
      rw [hv]
      exact IsRecord.put (k := k) (v := v) (encodes_lengthPrefixed.mp hk)
        (encodes_lengthPrefixed.mp hval)
    rw [if_neg hv] at he'
    by_cases hd : tag = C.tag .kTypeDeletion
    · rw [if_pos hd, Format.encodes_map] at he'
      obtain ⟨key, hk, rfl⟩ := he'
      rw [hd]
      exact .delete (encodes_lengthPrefixed.mp hk)
    · rw [if_neg hd] at he'
      simp [Format.Encodes, Format.fail] at he'
  · rintro (⟨hk, hv⟩ | hk)
    · refine ⟨_, _, _, rfl, Format.encodes_item.mpr rfl, ?_⟩
      rw [if_pos rfl, Format.encodes_bind]
      exact ⟨_, _, _, rfl, encodes_lengthPrefixed.mpr hk,
        Format.encodes_map.mpr ⟨_, encodes_lengthPrefixed.mpr hv, rfl⟩⟩
    · refine ⟨_, _, _, rfl, Format.encodes_item.mpr rfl, ?_⟩
      rw [if_neg hC.tag_ne.symm, if_pos rfl, Format.encodes_map]
      exact ⟨_, encodes_lengthPrefixed.mpr hk, rfl⟩

/-- The two descriptions of a concatenation of records agree. -/
theorem concat_record (hC : C.Lawful) : Concat (record C).Encodes = Records C := by
  have : (record C).Encodes = IsRecord C := by
    funext enc op
    exact propext (encodes_record hC)
  rw [this]

theorem record_consuming (hC : C.Lawful) : (record C).Consuming := by
  intro enc op h
  cases (encodes_record hC).mp h <;> simp

/-- Reading a record at a tag: the two calls of `GetLengthPrefixedSlice`. -/
theorem record_parse_cons (hC : C.Lawful) (tag : UInt8) (input : Bytes) :
    (record C).parse (tag :: input) =
      if tag = C.tag .kTypeValue then
        (C.getLengthPrefixedSlice input).bind fun p =>
          (C.getLengthPrefixedSlice p.2).map fun q => (.put p.1 q.1, q.2)
      else if tag = C.tag .kTypeDeletion then
        (C.getLengthPrefixedSlice input).map fun p => (.delete p.1, p.2)
      else none := by
  simp only [hC.getLengthPrefixedSlice_eq]
  by_cases hv : tag = C.tag .kTypeValue
  · simp only [record, Format.bind, Format.item, Option.bind_some, if_pos hv, Format.map,
      Format.pure, Option.map_eq_bind, Function.comp_def]
  by_cases hd : tag = C.tag .kTypeDeletion
  · simp only [record, Format.bind, Format.item, Option.bind_some, if_neg hv, if_pos hd,
      Format.map, Format.pure, Option.map_eq_bind, Function.comp_def]
  · simp only [record, Format.bind, Format.item, Option.bind_some, if_neg hv, if_neg hd,
      Format.fail]

/-- A record takes a byte at least, so a string holds no more records than bytes. -/
theorem Records.length_le {w : Bytes} {ops : List Op} (h : Records C w ops) :
    ops.length ≤ w.length := by
  induction h with
  | nil => simp
  | cons he _ ih =>
    rw [List.length_append, List.length_cons]
    cases he <;> simp <;> omega

@[simp] theorem record_parse_nil : (record C).parse [] = none := rfl

/-! ### The loop -/

namespace WriteBatch

variable (C) in
/-- The status the loop returns when it has read `found` records and `rest` is
left, which no record opens. -/
def verdict (b : WriteBatch) (found : ℕ) : Bytes → Status
  | [] =>
    if (found : ℤ) ≠ (WriteBatchInternal.count C b).toInt then
      .corruption "WriteBatch has wrong count"
    else .ok
  | tag :: _ =>
    if tag = C.tag .kTypeValue then .corruption "bad writebatch Put"
    else if tag = C.tag .kTypeDeletion then .corruption "bad WriteBatch Delete"
    else .corruption "uknown WriteBatch tag"

theorem verdict_eq_ok {b : WriteBatch} {found : ℕ} {rest : Bytes} :
    verdict C b found rest = .ok ↔
      rest = [] ∧ (found : ℤ) = (WriteBatchInternal.count C b).toInt := by
  cases rest with
  | nil =>
    rw [verdict]
    split_ifs with h
    · simp only [true_and]
      exact ⟨fun hc => by simp [Status.corruption] at hc, fun hc => absurd hc h⟩
    · simpa using h
  | cons tag rest =>
    rw [verdict]
    split_ifs <;> simp [Status.corruption]

variable {σ : Type}

/-- **The loop is the reading of the record format**: it hands the handler the
operations read, and judges what is left. -/
theorem iterateLoop_eq (hC : C.Lawful) (h : Handler σ) (b : WriteBatch) :
    ∀ (fuel : ℕ) (input : Bytes) (found : ℕ) (s : σ), input.length < fuel →
      iterateLoop C h b fuel input found s =
        .ok (verdict C b (found + ((record C).many fuel input).1.length)
              ((record C).many fuel input).2,
            ((record C).many fuel input).1.foldl h.call s) := by
  intro fuel
  induction fuel with
  | zero => exact fun input found s hlen => absurd hlen (Nat.not_lt_zero _)
  | succ fuel ih =>
    intro input found s hlen
    cases input with
    | nil =>
      rw [Format.many_succ_none record_parse_nil]
      by_cases hc : (found : ℤ) ≠ (WriteBatchInternal.count C b).toInt
      · simp [iterateLoop, verdict, hc]
      · simp [iterateLoop, verdict, hc]
    | cons tag input =>
      have hrec := record_parse_cons hC tag input
      -- one turn that delivers: the rest is shorter, and the induction takes over
      have hturn : ∀ {op : Op} {rest : Bytes}, (record C).parse (tag :: input) = some (op, rest) →
          iterateLoop C h b fuel rest (found + 1) (h.call s op) =
            .ok (verdict C b (found + ((record C).many (fuel + 1) (tag :: input)).1.length)
                  ((record C).many (fuel + 1) (tag :: input)).2,
                ((record C).many (fuel + 1) (tag :: input)).1.foldl h.call s) := by
        intro op rest hp
        have hlt := (record_consuming hC).length_lt hp
        rw [Format.many_succ_some hp, ih rest (found + 1) (h.call s op) (by omega),
          List.foldl_cons, List.length_cons, add_assoc, add_comm 1]
      -- one turn that fails: nothing is read, and the tag is left
      have hstop : (record C).parse (tag :: input) = none →
          ((record C).many (fuel + 1) (tag :: input)) = ([], tag :: input) :=
        Format.many_succ_none
      rw [iterateLoop]
      simp only [List.isEmpty_cons, Bool.false_eq_true, if_false, Slice.get_cons_zero,
        Slice.removePrefix_cons_one, Fault.ok_bind]
      by_cases hv : tag = C.tag .kTypeValue
      · rw [if_pos hv] at hrec ⊢
        rcases hk : C.getLengthPrefixedSlice input with _ | ⟨key, rest⟩
        · rw [hk] at hrec
          rw [hstop hrec]
          simp [verdict, hv]
        rcases hval : C.getLengthPrefixedSlice rest with _ | ⟨value, rest'⟩
        · rw [hk, Option.bind_some, hval] at hrec
          rw [hstop hrec]
          simp [verdict, hv, hval]
        · rw [hk, Option.bind_some, hval] at hrec
          simp only [hval]
          exact hturn hrec
      rw [if_neg hv] at hrec ⊢
      by_cases hd : tag = C.tag .kTypeDeletion
      · rw [if_pos hd] at hrec ⊢
        rcases hk : C.getLengthPrefixedSlice input with _ | ⟨key, rest⟩
        · rw [hk] at hrec
          rw [hstop hrec]
          simp [verdict, hd, hC.tag_ne.symm]
        · rw [hk] at hrec
          exact hturn hrec
      · rw [if_neg hd] at hrec ⊢
        rw [hstop hrec]
        simp [verdict, hv, hd]

/-- The body of a batch: what follows the header. -/
def body (b : WriteBatch) : Bytes := b.rep.drop kHeader

variable (C) in
/-- Reading the body of a batch until no record opens what is left: the
operations, and what is left. -/
def split (b : WriteBatch) : List Op × Bytes := (record C).many (b.body.length + 1) b.body

/-- **`Iterate` in closed form**, on a batch that has its header. -/
theorem iterate_eq (hC : C.Lawful) (h : Handler σ) {b : WriteBatch}
    (hb : kHeader ≤ b.rep.length) (s : σ) :
    b.iterate C h s =
      .ok (verdict C b (b.split C).1.length (b.split C).2, (b.split C).1.foldl h.call s) := by
  rw [iterate, if_neg (by omega), Slice.removePrefix_of_le hb]
  simp only [Fault.ok_bind]
  rw [iterateLoop_eq hC h b _ _ 0 s (Nat.lt_succ_self _), Nat.zero_add]
  rfl

/-- What is read of the body is a concatenation of records, and no longer front
of the body is one. -/
theorem split_spec (hC : C.Lawful) (b : WriteBatch) :
    ∃ w, b.body = w ++ (b.split C).2 ∧ Records C w (b.split C).1 ∧
      ∀ w' rest ops, b.body = w' ++ rest → Records C w' ops →
        w'.length ≤ w.length ∧ ops <+: (b.split C).1 := by
  rw [← concat_record hC]
  obtain ⟨w, hw, hc⟩ := Format.many_concat (record C) (b.body.length + 1) b.body
  refine ⟨w, hw, hc, fun w' rest ops hb hops => ?_⟩
  obtain ⟨fuel, hf, hm⟩ := (record_consuming hC).many_append hops rest (b.body.length + 1)
    (by rw [← hb]; exact Nat.lt_succ_self _)
  obtain ⟨v, hv, -⟩ := Format.many_concat (record C) fuel rest
  rw [← hb] at hm
  constructor
  · have hl : b.body.length = w.length + (b.split C).2.length := by
      conv_lhs => rw [hw]
      exact List.length_append
    have hl' : b.body.length = w'.length + rest.length := by
      conv_lhs => rw [hb]
      exact List.length_append
    have hr : rest.length = v.length + ((record C).many fuel rest).2.length := by
      conv_lhs => rw [hv]
      exact List.length_append
    have h2 : (b.split C).2 = ((record C).many fuel rest).2 := by rw [split, hm]
    rw [h2] at hl
    omega
  · rw [split, hm]
    exact List.prefix_append _ _

/-- The whole body is read exactly when it is a concatenation of records. -/
theorem split_snd_eq_nil (hC : C.Lawful) {b : WriteBatch} :
    (b.split C).2 = [] ↔ Records C b.body (b.split C).1 := by
  rw [← concat_record hC]
  constructor
  · intro h
    obtain ⟨w, hw, hc, -⟩ := split_spec hC b
    rw [h, List.append_nil] at hw
    rw [hw, concat_record hC]
    exact hc
  · intro h
    exact ((record_consuming hC).many_snd_eq_nil (Nat.lt_succ_self _)).mpr ⟨_, h⟩

/-- The operations read off a body that is a concatenation of records. -/
theorem split_of_records (hC : C.Lawful) {b : WriteBatch} {ops : List Op}
    (h : Records C b.body ops) : b.split C = (ops, []) := by
  rw [← concat_record hC] at h
  exact (record_consuming hC).many_eq h (Nat.lt_succ_self _)

/-! ### What `Iterate` delivers -/

/-- The handler that writes down the calls made to it. -/
def collector : Handler (List Op) where
  put key value ops := ops ++ [.put key value]
  delete key ops := ops ++ [.delete key]

theorem foldl_collector (ops acc : List Op) : ops.foldl collector.call acc = acc ++ ops := by
  induction ops generalizing acc with
  | nil => simp
  | cons op ops ih =>
    have hcall : collector.call acc op = acc ++ [op] := by cases op <;> rfl
    rw [List.foldl_cons, hcall, ih, List.append_assoc, List.singleton_append]

variable (C) in
/-- **The operations `Iterate` delivers.** -/
def delivered (b : WriteBatch) : List Op :=
  match b.iterate C collector [] with
  | .ok (_, ops) => ops
  | .error _ => []

theorem delivered_eq (hC : C.Lawful) {b : WriteBatch} (hb : kHeader ≤ b.rep.length) :
    b.delivered C = (b.split C).1 := by
  rw [delivered, iterate_eq hC collector hb, foldl_collector]
  rfl

/-- **A batch that `Iterate` accepts**: it has its header, its body is a
concatenation of records, and the count field – as the code reads it, a signed
32-bit integer – is their number. -/
def Accepted (C : Coding) (b : WriteBatch) : Prop :=
  kHeader ≤ b.rep.length ∧ ∃ ops, Records C b.body ops ∧
    (ops.length : ℤ) = (WriteBatchInternal.count C b).toInt

/-- `Iterate` returns OK exactly on the accepted batches. -/
theorem verdict_split_eq_ok (hC : C.Lawful) {b : WriteBatch} (hb : kHeader ≤ b.rep.length) :
    verdict C b (b.split C).1.length (b.split C).2 = .ok ↔ b.Accepted C := by
  rw [verdict_eq_ok, split_snd_eq_nil hC]
  constructor
  · rintro ⟨h1, h2⟩
    exact ⟨hb, _, h1, h2⟩
  · rintro ⟨-, ops, h1, h2⟩
    rw [split_of_records hC h1]
    exact ⟨h1, h2⟩

/-- With fewer than `2 ^ 31` operations the signed count agrees with their number
exactly when the unsigned field does. -/
theorem count_eq_iff {b : WriteBatch} {n : ℕ} (hn : n < 2 ^ 31) :
    (n : ℤ) = (WriteBatchInternal.count C b).toInt ↔
      (C.decodeFixed32 (b.rep.drop 8)).toNat = n := by
  have hlt := (C.decodeFixed32 (b.rep.drop 8)).toNat_lt
  rw [WriteBatchInternal.count]
  generalize C.decodeFixed32 (b.rep.drop 8) = v at hlt ⊢
  have hv : v.toInt32.toInt = Int.bmod v.toNat (2 ^ 32) := by
    rw [← Int32.toInt_toBitVec, UInt32.toBitVec_toInt32, BitVec.toInt_eq_toNat_bmod]
    rfl
  rw [hv, Int.bmod]
  split_ifs <;> omega

/-- **The decoder accepts exactly its grammar.** On every string `rep` with fewer
than `2 ^ 31` records `Iterate` ends without tripping an assertion; it returns OK
exactly when `rep` has its header, the rest is a concatenation of records and
their number is the count field; and the handler is given the operations of the
longest front of the body that is a concatenation of records. -/
theorem iterate_accepts_iff (hC : C.Lawful) (h : Handler σ) (s : σ) (b : WriteBatch)
    (hfew : ∀ w rest ops, b.body = w ++ rest → Records C w ops → ops.length < 2 ^ 31) :
    ∃ status ops, b.iterate C h s = .ok (status, ops.foldl h.call s) ∧
      (status = .ok ↔ kHeader ≤ b.rep.length ∧ ∃ all, Records C b.body all ∧
        (C.decodeFixed32 (b.rep.drop 8)).toNat = all.length) ∧
      (b.rep.length < kHeader → ops = []) ∧
      (kHeader ≤ b.rep.length → ∃ w rest, b.body = w ++ rest ∧ Records C w ops ∧
        ∀ w' rest' ops', b.body = w' ++ rest' → Records C w' ops' → w'.length ≤ w.length) := by
  by_cases hb : kHeader ≤ b.rep.length
  · obtain ⟨w, hw, hrec, hmax⟩ := split_spec hC b
    refine ⟨_, _, iterate_eq hC h hb s, ?_, fun hlt => absurd hb (by omega),
      fun _ => ⟨w, _, hw, hrec, fun w' rest' ops' he hr => (hmax w' rest' ops' he hr).1⟩⟩
    rw [verdict_split_eq_ok hC hb]
    have hcount : ∀ {ops : List Op}, Records C b.body ops →
        ((ops.length : ℤ) = (WriteBatchInternal.count C b).toInt ↔
          (C.decodeFixed32 (b.rep.drop 8)).toNat = ops.length) := fun hr =>
      count_eq_iff (hfew b.body [] _ (by simp) hr)
    constructor
    · rintro ⟨-, ops, hr, hc⟩
      exact ⟨hb, ops, hr, (hcount hr).mp hc⟩
    · rintro ⟨-, ops, hr, hc⟩
      exact ⟨hb, ops, hr, (hcount hr).mpr hc⟩
  · refine ⟨_, [], by rw [iterate, if_pos (by omega)]; rfl, ?_, fun _ => rfl,
      fun h => absurd h hb⟩
    constructor
    · intro h
      simp [Status.corruption] at h
    · rintro ⟨h, -⟩
      exact absurd h hb

/-- One `Put` of the key `a` and the value `b`, with sequence number 7. -/
def putAB : WriteBatch := ⟨[7, 0, 0, 0, 0, 0, 0, 0, 1, 0, 0, 0, 1, 1, 97, 1, 98]⟩

theorem iterate_accepts_iff_putAB :
    ∃ status ops, putAB.iterate leveldbCoding collector [] =
        .ok (status, ops.foldl collector.call []) ∧
      (status = .ok ↔ kHeader ≤ putAB.rep.length ∧ ∃ all, Records leveldbCoding putAB.body all ∧
        (leveldbCoding.decodeFixed32 (putAB.rep.drop 8)).toNat = all.length) ∧
      (putAB.rep.length < kHeader → ops = []) ∧
      (kHeader ≤ putAB.rep.length → ∃ w rest, putAB.body = w ++ rest ∧
        Records leveldbCoding w ops ∧ ∀ w' rest' ops', putAB.body = w' ++ rest' →
          Records leveldbCoding w' ops' → w'.length ≤ w.length) :=
  iterate_accepts_iff leveldbCoding_lawful collector [] putAB fun w rest ops hw hr => by
    have h1 := hr.length_le
    have h2 := congrArg List.length hw
    rw [List.length_append, show putAB.body.length = 5 from rfl] at h2
    omega

example : putAB.iterate leveldbCoding collector [] = .ok (.ok, [.put [97] [98]]) := by decide

end WriteBatch

end LevelDb
