import LevelDb.Filename.Kinds

/-!
# The names of owned files

`ParseFileName` as it writes its output parameters: it strips pieces off a slice in place, and
returns early where a piece is missing. What it returns and writes is what
`LevelDb.parseFileName` says (`LevelDb.parseFileNameInto_eq`), so that nothing is written where
it returns false.

The names for which it returns true are exactly those of owned files (`LevelDb.Owned`), which
are a matter of their form alone (`LevelDb.parseFileName_eq_some_iff`).
-/

namespace LevelDb

open Codec

/-! ### The code -/

/-- `Slice::starts_with`. -/
def Slice.startsWith (s x : Bytes) : Bool := x.length ≤ s.length && s.take x.length == x

/-- What `ParseFileName` writes: `*number` and `*type`. -/
structure ParseOutput where
  number : ℕ
  type : FileType
  deriving DecidableEq, Repr

/-- `ParseFileName`, with its two output parameters: what it returns, and what they hold
then. -/
def parseFileNameInto (L : Logging) (fname : Bytes) (out : ParseOutput) :
    Except Fault (Bool × ParseOutput) :=
  let rest := fname
  if rest = chars "CURRENT" then
    let out := { out with number := 0 }
    let out := { out with type := .kCurrentFile }
    .ok (true, out)
  else if rest = chars "LOCK" then
    let out := { out with number := 0 }
    let out := { out with type := .kDBLockFile }
    .ok (true, out)
  else if rest = chars "LOG" ∨ rest = chars "LOG.old" then
    let out := { out with number := 0 }
    let out := { out with type := .kInfoLogFile }
    .ok (true, out)
  else if Slice.startsWith rest (chars "MANIFEST-") then do
    let rest ← Slice.removePrefix rest (chars "MANIFEST-").length
    match L.consumeDecimalNumber rest with
    | none => .ok (false, out)
    | some (num, rest) =>
      if ¬rest.isEmpty then
        .ok (false, out)
      else
        let out := { out with type := .kDescriptorFile }
        let out := { out with number := num }
        .ok (true, out)
  else
    match L.consumeDecimalNumber rest with
    | none => .ok (false, out)
    | some (num, suffix) =>
      if suffix = chars ".log" then
        let out := { out with type := .kLogFile }
        .ok (true, { out with number := num })
      else if suffix = chars ".sst" ∨ suffix = chars ".ldb" then
        let out := { out with type := .kTableFile }
        .ok (true, { out with number := num })
      else if suffix = chars ".dbtmp" then
        let out := { out with type := .kTempFile }
        .ok (true, { out with number := num })
      else
        .ok (false, out)

/-! ### The forms of the names -/

/-- A nonempty string of digits whose value is a number of 64 bits. -/
structure Numeral (d : Bytes) : Prop where
  ne_nil : d ≠ []
  digits : ∀ b ∈ d, isDigit b = true
  value_lt : decimalValue d < 2 ^ 64

/-- What stands behind the number of a file, and the type that it stands for. -/
def suffixes : List (String × FileType) :=
  [(".log", .kLogFile), (".sst", .kTableFile), (".ldb", .kTableFile), (".dbtmp", .kTempFile)]

/-- **The name of an owned file**, with its number and type. -/
inductive Owned : Bytes → ℕ → FileType → Prop
  | current : Owned (chars "CURRENT") 0 .kCurrentFile
  | lock : Owned (chars "LOCK") 0 .kDBLockFile
  | log : Owned (chars "LOG") 0 .kInfoLogFile
  | oldLog : Owned (chars "LOG.old") 0 .kInfoLogFile
  | manifest {d : Bytes} (hd : Numeral d) :
      Owned (chars "MANIFEST-" ++ d) (decimalValue d) .kDescriptorFile
  | numbered {d : Bytes} {s : String} {t : FileType} (hd : Numeral d) (hs : (s, t) ∈ suffixes) :
      Owned (d ++ chars s) (decimalValue d) t

section

variable {L : Logging} {fname d rest : Bytes} {n : ℕ} {t : FileType}

theorem startsWith_eq (s x : Bytes) : Slice.startsWith s x = x.isPrefixOf s := by
  rw [Bool.eq_iff_iff, List.isPrefixOf_iff_prefix, Slice.startsWith, Bool.and_eq_true,
    decide_eq_true_eq, beq_iff_eq]
  constructor
  · rintro ⟨-, htake⟩
    exact List.prefix_iff_eq_take.mpr htake.symm
  · intro hpre
    exact ⟨hpre.length_le, (List.prefix_iff_eq_take.mp hpre).symm⟩

/-- **What `ParseFileName` writes** is what it reads off the name, and nothing where it
returns false. -/
theorem parseFileNameInto_eq (L : Logging) (fname : Bytes) (out : ParseOutput) :
    parseFileNameInto L fname out = .ok (match parseFileName L fname with
      | some (n, t) => (true, ⟨n, t⟩)
      | none => (false, out)) := by
  rw [parseFileNameInto, parseFileName, startsWith_eq]
  split_ifs with hcurrent hlock hlog hmanifest
  · rfl
  · rfl
  · rfl
  · have hlength := (List.isPrefixOf_iff_prefix.mp hmanifest).length_le
    rw [Slice.removePrefix_of_le hlength, Fault.ok_bind]
    cases L.consumeDecimalNumber (fname.drop (chars "MANIFEST-").length) with
    | none => rfl
    | some p => cases hempty : p.2.isEmpty <;> simp [hempty]
  · cases L.consumeDecimalNumber fname with
    | none => rfl
    | some p =>
      obtain ⟨num, suffix⟩ := p
      dsimp only
      split_ifs <;> rfl

/-! ### What is parsed is owned -/

/-- What the parser has consumed is a numeral, and the rest follows it. -/
theorem numeral_of_consume (hL : L.Lawful) (h : L.consumeDecimalNumber fname = some (n, rest)) :
    ∃ d, Numeral d ∧ n = decimalValue d ∧ fname = d ++ rest := by
  rw [hL.consumeDecimalNumber_eq] at h
  split_ifs at h with hnumeral
  obtain ⟨rfl, rfl⟩ := Prod.mk.inj (Option.some.inj h)
  refine ⟨_, ⟨hnumeral.1, fun b hb => List.mem_takeWhile_imp hb, hnumeral.2⟩, rfl, ?_⟩
  exact List.takeWhile_append_dropWhile.symm

theorem owned_of_parseFileName (hL : L.Lawful) (h : parseFileName L fname = some (n, t)) :
    Owned fname n t := by
  rw [parseFileName] at h
  split_ifs at h with hcurrent hlock hlog hmanifest
  · obtain ⟨rfl, rfl⟩ := Prod.mk.inj (Option.some.inj h)
    exact hcurrent ▸ .current
  · obtain ⟨rfl, rfl⟩ := Prod.mk.inj (Option.some.inj h)
    exact hlock ▸ .lock
  · obtain ⟨rfl, rfl⟩ := Prod.mk.inj (Option.some.inj h)
    rcases hlog with rfl | rfl
    · exact .log
    · exact .oldLog
  · obtain ⟨s, rfl⟩ := List.isPrefixOf_iff_prefix.mp hmanifest
    rw [List.drop_left] at h
    cases hconsume : L.consumeDecimalNumber s with
    | none => simp [hconsume] at h
    | some p =>
      obtain ⟨num, rest⟩ := p
      obtain ⟨d, hd, rfl, rfl⟩ := numeral_of_consume hL hconsume
      rw [hconsume] at h
      dsimp only at h
      split_ifs at h with hempty
      obtain ⟨rfl, rfl⟩ := Prod.mk.inj (Option.some.inj h)
      rw [List.isEmpty_iff.mp hempty, List.append_nil]
      exact .manifest hd
  · cases hconsume : L.consumeDecimalNumber fname with
    | none => simp [hconsume] at h
    | some p =>
      obtain ⟨num, suffix⟩ := p
      obtain ⟨d, hd, rfl, rfl⟩ := numeral_of_consume hL hconsume
      rw [hconsume] at h
      dsimp only at h
      split_ifs at h with hs hs hs
      · obtain ⟨rfl, rfl⟩ := Prod.mk.inj (Option.some.inj h)
        exact hs ▸ .numbered hd (.head _)
      · obtain ⟨rfl, rfl⟩ := Prod.mk.inj (Option.some.inj h)
        rcases hs with rfl | rfl
        · exact .numbered hd (.tail _ (.head _))
        · exact .numbered hd (.tail _ (.tail _ (.head _)))
      · obtain ⟨rfl, rfl⟩ := Prod.mk.inj (Option.some.inj h)
        exact hs ▸ .numbered hd (.tail _ (.tail _ (.tail _ (.head _))))

/-! ### What is owned is parsed -/

/-- A name that opens with digits. -/
theorem parseFileName_of_numeral (hL : L.Lawful) (hd : Numeral d) {s : Bytes}
    (hs : ∀ b ∈ s.head?, isDigit b = false) :
    parseFileName L (d ++ s) =
      if s = chars ".log" then some (decimalValue d, .kLogFile)
      else if s = chars ".sst" ∨ s = chars ".ldb" then some (decimalValue d, .kTableFile)
      else if s = chars ".dbtmp" then some (decimalValue d, .kTempFile)
      else none := by
  obtain ⟨b, ds, rfl⟩ := List.exists_cons_of_ne_nil hd.ne_nil
  have hconsume := consumeDecimalNumber_digits hL hd.ne_nil hd.digits hd.value_lt hs
  rw [List.cons_append] at hconsume ⊢
  rw [parseFileName_of_digit (hd.digits b List.mem_cons_self), hconsume]

theorem mem_suffixes {s : String} (hs : (s, t) ∈ suffixes) : s = ".log" ∧ t = .kLogFile ∨
    s = ".sst" ∧ t = .kTableFile ∨ s = ".ldb" ∧ t = .kTableFile ∨
      s = ".dbtmp" ∧ t = .kTempFile := by
  simpa only [suffixes, List.mem_cons, List.not_mem_nil, or_false, Prod.mk.injEq] using hs

/-- No suffix opens with a digit. -/
theorem head_suffix {s : String} (hs : (s, t) ∈ suffixes) :
    ∀ b ∈ (chars s).head?, isDigit b = false := by
  have hdot : (chars s).head? = some 46 := by
    rcases mem_suffixes hs with ⟨rfl, rfl⟩ | ⟨rfl, rfl⟩ | ⟨rfl, rfl⟩ | ⟨rfl, rfl⟩ <;> rfl
  intro b hb
  obtain rfl : 46 = b := Option.some.inj (hdot.symm.trans hb)
  decide

theorem parseFileName_of_owned (hL : L.Lawful) (h : Owned fname n t) :
    parseFileName L fname = some (n, t) := by
  cases h with
  | current => exact parseFileName_current
  | lock => rw [parseFileName, if_neg (by decide), if_pos rfl]
  | log => rw [parseFileName, if_neg (by decide), if_neg (by decide), if_pos (.inl rfl)]
  | oldLog => rw [parseFileName, if_neg (by decide), if_neg (by decide), if_pos (.inr rfl)]
  | manifest hd => exact Kind.parseFileName_manifest_digits hL hd.ne_nil hd.digits hd.value_lt
  | numbered hd hs =>
    rw [parseFileName_of_numeral hL hd (head_suffix hs)]
    rcases mem_suffixes hs with ⟨rfl, rfl⟩ | ⟨rfl, rfl⟩ | ⟨rfl, rfl⟩ | ⟨rfl, rfl⟩ <;> rfl

/-- **The parser reads exactly the names of owned files.** -/
theorem parseFileName_eq_some_iff (hL : L.Lawful) :
    parseFileName L fname = some (n, t) ↔ Owned fname n t :=
  ⟨owned_of_parseFileName hL, parseFileName_of_owned hL⟩

/-- **`ParseFileName` accepts exactly the owned file names**: it returns true for them, with
their number and type in the output parameters, and false for every other name, with the
output parameters left as they were. -/
theorem parseFileNameInto_iff_owned (hL : L.Lawful) (fname : Bytes) (out : ParseOutput) :
    ∃ ok out', parseFileNameInto L fname out = .ok (ok, out') ∧
      (ok = true ↔ ∃ n t, Owned fname n t) ∧
      (∀ n t, Owned fname n t → out'.number = n ∧ out'.type = t) ∧ (ok = false → out' = out) := by
  refine ⟨_, _, parseFileNameInto_eq L fname out, ?_⟩
  cases hparse : parseFileName L fname with
  | none =>
    have hnot : ∀ n t, ¬Owned fname n t := by
      intro n t h
      simp [parseFileName_of_owned hL h] at hparse
    exact ⟨by simp [hnot], fun n t h => absurd h (hnot n t), fun _ => rfl⟩
  | some p =>
    obtain ⟨n, t⟩ := p
    have howned := owned_of_parseFileName hL hparse
    refine ⟨iff_of_true rfl ⟨n, t, howned⟩, fun n' t' h => ?_, Bool.noConfusion⟩
    have hsame := hparse.symm.trans (parseFileName_of_owned hL h)
    exact Prod.mk.inj (Option.some.inj hsame)

/-- A table, and a name with a byte too many. -/
theorem parseFileNameInto_iff_owned_names :
    (∃ ok out',
      parseFileNameInto leveldbLogging (chars "100.sst") ⟨7, .kTempFile⟩ = .ok (ok, out') ∧
      (ok = true ↔ ∃ n t, Owned (chars "100.sst") n t)) ∧
    ∃ ok out',
      parseFileNameInto leveldbLogging (chars "100.sst2") ⟨7, .kTempFile⟩ = .ok (ok, out') ∧
      (ok = false → out' = ⟨7, .kTempFile⟩) := by
  obtain ⟨ok, out', h, hiff, -⟩ :=
    parseFileNameInto_iff_owned leveldbLogging_lawful (chars "100.sst") ⟨7, .kTempFile⟩
  obtain ⟨ok', out'', h', -, -, hkeep⟩ :=
    parseFileNameInto_iff_owned leveldbLogging_lawful (chars "100.sst2") ⟨7, .kTempFile⟩
  exact ⟨⟨ok, out', h, hiff⟩, ok', out'', h', hkeep⟩

end

end LevelDb
