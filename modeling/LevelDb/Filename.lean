import LevelDb.Slice
import LevelDb.Codec.Decimal

/-!
# File names

`db/filename.cpp`: the names of the files of a database and the parser that reads
them off a directory listing. `ConsumeDecimalNumber` (`util/logging.h`) is not in
the repository; it is the parameter `LevelDb.Logging`.

The other files address a numbered file by its type and number, and a listing by
its names past the name of the database: the name under which a file shows is
what its builder makes of the empty `dbname`. What the builders make of an actual
`dbname` – `MakeFileName` puts no separator behind it – is a matter of
`LevelDb.Filename.Kinds`.
-/

namespace LevelDb

open Codec

/-- `enum FileType`. -/
inductive FileType
  | kLogFile
  | kDBLockFile
  | kTableFile
  | kDescriptorFile
  | kCurrentFile
  | kTempFile
  | kInfoLogFile
  deriving DecidableEq, Repr

/-- The bytes of a string literal. -/
def chars (s : String) : Bytes := s.toList.map fun c => UInt8.ofNat c.toNat

/-- The function of `util/logging.h` that the parser uses:
`ConsumeDecimalNumber(in, val)`, with the value and the new `in`. -/
structure Logging where
  consumeDecimalNumber : Bytes → Option (ℕ × Bytes)

/-- **What the parser relies on**: the longest run of digits is taken, if there is
one and its value is a 64-bit number. -/
structure Logging.Lawful (L : Logging) : Prop where
  consumeDecimalNumber_eq : ∀ s, L.consumeDecimalNumber s =
    if s.takeWhile isDigit ≠ [] ∧ decimalValue (s.takeWhile isDigit) < 2 ^ 64 then
      some (decimalValue (s.takeWhile isDigit), s.dropWhile isDigit)
    else none

/-- The documented `ConsumeDecimalNumber`. -/
def leveldbLogging : Logging where
  consumeDecimalNumber s :=
    if s.takeWhile isDigit ≠ [] ∧ decimalValue (s.takeWhile isDigit) < 2 ^ 64 then
      some (decimalValue (s.takeWhile isDigit), s.dropWhile isDigit)
    else none

theorem leveldbLogging_lawful : leveldbLogging.Lawful := ⟨fun _ => rfl⟩

/-! ### Building names -/

/-- `MakeFileName`: `snprintf` of `"%0.6llu.%s"`, behind the name. -/
def makeFileName (name : Bytes) (number : ℕ) (suffix : String) : Bytes :=
  name ++ (padded 6 number ++ chars "." ++ chars suffix)

/-- `LogFileName`, behind its assertion that the number is positive. -/
def logFileName (name : Bytes) (number : ℕ) : Bytes := makeFileName name number "log"

/-- `TableFileName`, behind its assertion that the number is positive. -/
def tableFileName (name : Bytes) (number : ℕ) : Bytes := makeFileName name number "ldb"

/-- `SSTTableFileName`, behind its assertion that the number is positive. -/
def sstTableFileName (name : Bytes) (number : ℕ) : Bytes := makeFileName name number "sst"

/-- `TempFileName`, behind its assertion that the number is positive. -/
def tempFileName (dbname : Bytes) (number : ℕ) : Bytes := makeFileName dbname number "dbtmp"

/-- `DescriptorFileName`, behind its assertion that the number is positive. -/
def descriptorFileName (dbname : Bytes) (number : ℕ) : Bytes :=
  dbname ++ (chars "/MANIFEST-" ++ padded 6 number)

/-! ### Parsing names -/

/-- `ParseFileName`: the number and the type, where it returns true. -/
def parseFileName (L : Logging) (fname : Bytes) : Option (ℕ × FileType) :=
  let rest := fname
  if rest = chars "CURRENT" then some (0, .kCurrentFile)
  else if rest = chars "LOCK" then some (0, .kDBLockFile)
  else if rest = chars "LOG" ∨ rest = chars "LOG.old" then some (0, .kInfoLogFile)
  else if (chars "MANIFEST-").isPrefixOf rest then
    match L.consumeDecimalNumber (rest.drop (chars "MANIFEST-").length) with
    | none => none
    | some (num, rest) => if rest.isEmpty then some (num, .kDescriptorFile) else none
  else
    match L.consumeDecimalNumber rest with
    | none => none
    | some (num, suffix) =>
      if suffix = chars ".log" then some (num, .kLogFile)
      else if suffix = chars ".sst" ∨ suffix = chars ".ldb" then some (num, .kTableFile)
      else if suffix = chars ".dbtmp" then some (num, .kTempFile)
      else none

variable {L : Logging}

@[simp] theorem parseFileName_current :
    parseFileName L (chars "CURRENT") = some (0, .kCurrentFile) := by
  rw [parseFileName, if_pos rfl]

/-- The name of a manifest is not read as that of a log. -/
theorem parseFileName_manifest_ne (s : Bytes) (n : ℕ) :
    parseFileName L (chars "MANIFEST-" ++ s) ≠ some (n, .kLogFile) := by
  have hpre : (chars "MANIFEST-").isPrefixOf (chars "MANIFEST-" ++ s) = true :=
    List.isPrefixOf_iff_prefix.mpr (List.prefix_append _ _)
  rw [parseFileName, if_pos hpre]
  split_ifs
  · simp
  · simp
  · simp
  · split
    · simp
    · split_ifs <;> simp

/-- The name of a manifest is read as that of a manifest, if at all. -/
theorem parseFileName_manifest_type {s : Bytes} {n : ℕ} {type : FileType}
    (h : parseFileName L (chars "MANIFEST-" ++ s) = some (n, type)) :
    type = .kDescriptorFile := by
  have hpre : (chars "MANIFEST-").isPrefixOf (chars "MANIFEST-" ++ s) = true :=
    List.isPrefixOf_iff_prefix.mpr (List.prefix_append _ _)
  have hne : ∀ name, (chars "MANIFEST-").isPrefixOf name = false →
      chars "MANIFEST-" ++ s ≠ name := by
    intro name hname heq
    rw [heq, hname] at hpre
    exact Bool.noConfusion hpre
  rw [parseFileName, if_neg (hne _ rfl), if_neg (hne _ rfl),
    if_neg (not_or.mpr ⟨hne _ rfl, hne _ rfl⟩), if_pos hpre] at h
  split at h
  · exact absurd h (by simp)
  · split_ifs at h
    exact (Prod.mk.inj (Option.some.inj h)).2.symm

/-- Digits are consumed up to the first byte that is none. -/
theorem consumeDecimalNumber_digits (hL : L.Lawful) {d rest : Bytes} (hne : d ≠ [])
    (hd : ∀ b ∈ d, isDigit b = true) (hn : decimalValue d < 2 ^ 64)
    (hrest : ∀ b ∈ rest.head?, isDigit b = false) :
    L.consumeDecimalNumber (d ++ rest) = some (decimalValue d, rest) := by
  have hspan : rest.takeWhile isDigit = [] ∧ rest.dropWhile isDigit = rest := by
    cases rest with
    | nil => exact ⟨rfl, rfl⟩
    | cons b rest =>
      have hb := hrest b rfl
      exact ⟨List.takeWhile_cons_of_neg (by simp [hb]), List.dropWhile_cons_of_neg (by simp [hb])⟩
  have htake : (d ++ rest).takeWhile isDigit = d := by
    rw [List.takeWhile_append_of_pos hd, hspan.1, List.append_nil]
  have hdrop : (d ++ rest).dropWhile isDigit = rest := by
    rw [List.dropWhile_append_of_pos hd, hspan.2]
  rw [hL.consumeDecimalNumber_eq, htake, hdrop, if_pos ⟨hne, hn⟩]

/-- A number is consumed up to the first byte that is no digit. -/
theorem consumeDecimalNumber_padded (hL : L.Lawful) {n : ℕ} (hn : n < 2 ^ 64) {b : UInt8}
    (hb : isDigit b = false) (rest : Bytes) :
    L.consumeDecimalNumber (padded 6 n ++ b :: rest) = some (n, b :: rest) := by
  have hne : padded 6 n ≠ [] := by
    intro h
    have := le_length_padded 6 n
    rw [h] at this
    simp at this
  have hrest : ∀ a ∈ (b :: rest).head?, isDigit a = false := fun a ha => Option.some.inj ha ▸ hb
  rw [consumeDecimalNumber_digits hL hne (fun a ha => isDigit_of_mem_padded ha)
    (by rwa [decimalValue_padded]) hrest, decimalValue_padded]

/-- A name that opens with a digit is read by the last branch of the parser. -/
theorem parseFileName_of_digit {b : UInt8} {s : Bytes} (hb : isDigit b = true) :
    parseFileName L (b :: s) =
      match L.consumeDecimalNumber (b :: s) with
      | none => none
      | some (num, suffix) =>
        if suffix = chars ".log" then some (num, .kLogFile)
        else if suffix = chars ".sst" ∨ suffix = chars ".ldb" then some (num, .kTableFile)
        else if suffix = chars ".dbtmp" then some (num, .kTempFile)
        else none := by
  have hne : ∀ c t, isDigit c = false → b :: s ≠ c :: t := by
    rintro c t hc h
    rw [(List.cons.inj h).1, hc] at hb
    exact Bool.noConfusion hb
  have hpre : (chars "MANIFEST-").isPrefixOf (b :: s) = false := by
    rw [Bool.eq_false_iff]
    intro h
    obtain ⟨t, ht⟩ := List.isPrefixOf_iff_prefix.mp h
    exact hne 77 _ (by decide) ht.symm
  have hcur : b :: s ≠ chars "CURRENT" := hne 67 _ (by decide)
  have hlock : b :: s ≠ chars "LOCK" := hne 76 _ (by decide)
  have hlog : b :: s ≠ chars "LOG" := hne 76 _ (by decide)
  have hold : b :: s ≠ chars "LOG.old" := hne 76 _ (by decide)
  rw [parseFileName, if_neg hcur, if_neg hlock, if_neg (by simp only [hlog, hold, or_self,
    not_false_eq_true]), hpre]
  rfl

/-- **Parsing a name undoes `MakeFileName`.** -/
theorem parseFileName_makeFileName (hL : L.Lawful) {n : ℕ} (hn : n < 2 ^ 64) {suffix : String} :
    parseFileName L (makeFileName [] n suffix) =
      if chars "." ++ chars suffix = chars ".log" then some (n, .kLogFile)
      else if chars "." ++ chars suffix = chars ".sst" ∨
        chars "." ++ chars suffix = chars ".ldb" then some (n, .kTableFile)
      else if chars "." ++ chars suffix = chars ".dbtmp" then some (n, .kTempFile)
      else none := by
  have hlen := le_length_padded 6 n
  obtain ⟨b, s, hbs⟩ : ∃ b s, padded 6 n = b :: s := by
    cases h : padded 6 n with
    | nil =>
      rw [h] at hlen
      simp at hlen
    | cons b s => exact ⟨b, s, rfl⟩
  have hb : isDigit b = true := isDigit_of_mem_padded (w := 6) (n := n) (by rw [hbs]; simp)
  have hname : makeFileName [] n suffix = b :: (s ++ (chars "." ++ chars suffix)) := by
    rw [makeFileName, hbs]
    simp
  rw [hname, parseFileName_of_digit hb, ← List.cons_append, ← hbs,
    show chars "." ++ chars suffix = 46 :: chars suffix from rfl,
    consumeDecimalNumber_padded hL hn (by decide)]

theorem parseFileName_tableFileName (hL : L.Lawful) {n : ℕ} (hn : n < 2 ^ 64) :
    parseFileName L (tableFileName [] n) = some (n, .kTableFile) := by
  rw [tableFileName, parseFileName_makeFileName hL hn, if_neg (by decide), if_pos (by decide)]

theorem parseFileName_logFileName (hL : L.Lawful) {n : ℕ} (hn : n < 2 ^ 64) :
    parseFileName L (logFileName [] n) = some (n, .kLogFile) := by
  rw [logFileName, parseFileName_makeFileName hL hn, if_pos (by decide)]

end LevelDb
