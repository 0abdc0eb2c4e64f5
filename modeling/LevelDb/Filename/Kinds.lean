import LevelDb.Filename
import Mathlib.Data.List.TakeWhile

/-!
# The five kinds of numbered files

`LogFileName`, `TableFileName`, `SSTTableFileName`, `TempFileName` and
`DescriptorFileName`, side by side.

*Parsing a name undoes building it* (`LevelDb.Kind.parseFileName_fileName`): behind the
name of the database, and behind a separator if there is one, a name is read as its own
number and type, and for one database no two files share a name.

*The name is that of a file in the directory of the database* for manifests only
(`LevelDb.Kind.housed_iff`). `MakeFileName` puts no separator between the name of the
database and the number, so that its files lie beside the directory, under a name that
may be that of another database's file as well.
-/

namespace LevelDb

open Codec

/-- The kinds of numbered files. -/
inductive Kind
  | log
  | table
  | sstTable
  | temp
  | descriptor
  deriving DecidableEq, Repr

namespace Kind

/-- The function that builds the name. -/
def fileName : Kind → Bytes → ℕ → Bytes
  | log => logFileName
  | table => tableFileName
  | sstTable => sstTableFileName
  | temp => tempFileName
  | descriptor => descriptorFileName

/-- The type that the parser should report. -/
def type : Kind → FileType
  | log => .kLogFile
  | table => .kTableFile
  | sstTable => .kTableFile
  | temp => .kTempFile
  | descriptor => .kDescriptorFile

/-- What stands behind the number, for the names that `MakeFileName` builds. -/
def suffix : Kind → String
  | log => "log"
  | table => "ldb"
  | sstTable => "sst"
  | temp => "dbtmp"
  | descriptor => ""

variable {k k' : Kind} {dbname dbname' : Bytes} {n n' : ℕ} {L : Logging}

theorem fileName_eq (hk : k ≠ descriptor) :
    k.fileName dbname n = makeFileName dbname n k.suffix := by
  cases k with
  | descriptor => exact absurd rfl hk
  | log => rfl
  | table => rfl
  | sstTable => rfl
  | temp => rfl

theorem suffix_injective (hk : k ≠ descriptor) (hk' : k' ≠ descriptor)
    (h : chars k.suffix = chars k'.suffix) : k = k' := by
  cases k <;> cases k' <;> first | rfl | exact absurd rfl hk | exact absurd rfl hk' |
    exact absurd h (by decide)

end Kind

/-! ### Numbers in names -/

section

variable {n n' : ℕ} {b b' : UInt8} {rest rest' : Bytes}

theorem padded_ne_nil : padded 6 n ≠ [] := fun h => by
  have := le_length_padded 6 n
  rw [h] at this
  simp at this

/-- A number opens with a digit. -/
theorem exists_padded : ∃ d ds, padded 6 n = d :: ds ∧ isDigit d = true := by
  rcases h : padded 6 n with _ | ⟨d, ds⟩
  · exact absurd h padded_ne_nil
  · exact ⟨d, ds, rfl, isDigit_of_mem_padded (by rw [h]; exact List.mem_cons_self)⟩

theorem padded_injective (h : padded 6 n = padded 6 n') : n = n' := by
  rw [← decimalValue_padded 6 n, h, decimalValue_padded]

/-- Digits in front of a byte that is no digit. -/
theorem span_digits {ds : Bytes} (hds : ∀ d ∈ ds, isDigit d = true) (hb : isDigit b = false)
    (rest : Bytes) :
    (ds ++ b :: rest).takeWhile isDigit = ds ∧ (ds ++ b :: rest).dropWhile isDigit = b :: rest := by
  constructor
  · rw [List.takeWhile_append_of_pos hds, List.takeWhile_cons_of_neg (by simp [hb]),
      List.append_nil]
  · rw [List.dropWhile_append_of_pos hds, List.dropWhile_cons_of_neg (by simp [hb])]

/-- **Digits end at the first byte that is none.** -/
theorem digits_append_inj {ds ds' : Bytes} (hds : ∀ d ∈ ds, isDigit d = true)
    (hds' : ∀ d ∈ ds', isDigit d = true) (hb : isDigit b = false) (hb' : isDigit b' = false)
    (h : ds ++ b :: rest = ds' ++ b' :: rest') : ds = ds' ∧ b :: rest = b' :: rest' := by
  obtain ⟨h1, h2⟩ := span_digits hds hb rest
  obtain ⟨h1', h2'⟩ := span_digits hds' hb' rest'
  rw [h] at h1 h2
  exact ⟨h1.symm.trans h1', h2.symm.trans h2'⟩

/-- **A number ends at the first byte that is no digit.** -/
theorem padded_append_inj (hb : isDigit b = false) (hb' : isDigit b' = false)
    (h : padded 6 n ++ b :: rest = padded 6 n' ++ b' :: rest') :
    n = n' ∧ b :: rest = b' :: rest' := by
  obtain ⟨hdigits, hrest⟩ := digits_append_inj (fun _ => isDigit_of_mem_padded)
    (fun _ => isDigit_of_mem_padded) hb hb' h
  exact ⟨padded_injective hdigits, hrest⟩

/-- **A number begins behind the last byte that is no digit.** -/
theorem append_padded_inj (hb : isDigit b = false) (hb' : isDigit b' = false)
    (h : rest ++ b :: padded 6 n = rest' ++ b' :: padded 6 n') :
    n = n' ∧ rest ++ [b] = rest' ++ [b'] := by
  have hdigit : ∀ {n}, ∀ d ∈ (padded 6 n).reverse, isDigit d = true := fun d hd =>
    isDigit_of_mem_padded (List.mem_reverse.mp hd)
  -- read from its end, the name opens with the number
  have hrev := congrArg List.reverse h
  simp only [List.reverse_append, List.reverse_cons, List.append_assoc, List.singleton_append]
    at hrev
  obtain ⟨hdigits, hrest⟩ := digits_append_inj hdigit hdigit hb hb' hrev
  refine ⟨padded_injective (List.reverse_injective hdigits), List.reverse_injective ?_⟩
  rw [List.reverse_append, List.reverse_append]
  exact hrest

end

/-! ### Parsing undoes building -/

/-- What is left of a name without the name of the database, and without a separator. -/
def relativeName (dbname fname : Bytes) : Bytes :=
  match fname.drop dbname.length with
  | [] => []
  | b :: rest => if [b] = chars "/" then rest else b :: rest

namespace Kind

variable {k k' : Kind} {dbname dbname' : Bytes} {n n' : ℕ} {L : Logging}

theorem relativeName_makeFileName (suffix : String) :
    relativeName dbname (makeFileName dbname n suffix) = makeFileName [] n suffix := by
  obtain ⟨d, ds, hd, hdigit⟩ := exists_padded (n := n)
  have hne : [d] ≠ chars "/" := by
    intro h
    obtain rfl : d = 47 := (List.cons.inj h).1
    exact absurd hdigit (by decide)
  have hname : makeFileName dbname n suffix = dbname ++ makeFileName [] n suffix := rfl
  rw [relativeName, hname, List.drop_left, makeFileName, hd]
  exact if_neg hne

theorem relativeName_descriptorFileName :
    relativeName dbname (descriptorFileName dbname n) = chars "MANIFEST-" ++ padded 6 n := by
  rw [relativeName, descriptorFileName, List.drop_left]
  exact if_pos rfl

/-- The name of a manifest is read as one, whatever its digits. -/
theorem parseFileName_manifest_digits (hL : L.Lawful) {d : Bytes} (hne : d ≠ [])
    (hd : ∀ b ∈ d, isDigit b = true) (hn : decimalValue d < 2 ^ 64) :
    parseFileName L (chars "MANIFEST-" ++ d) = some (decimalValue d, .kDescriptorFile) := by
  have hpre : (chars "MANIFEST-").isPrefixOf (chars "MANIFEST-" ++ d) = true :=
    List.isPrefixOf_iff_prefix.mpr (List.prefix_append _ _)
  have hname : ∀ s, (chars "MANIFEST-").isPrefixOf s = false → chars "MANIFEST-" ++ d ≠ s := by
    intro s hs h
    rw [h, hs] at hpre
    exact Bool.noConfusion hpre
  have hconsume := consumeDecimalNumber_digits hL hne hd hn
    (by simp : ∀ b ∈ ([] : Bytes).head?, isDigit b = false)
  rw [List.append_nil] at hconsume
  rw [parseFileName, if_neg (hname _ (by decide)), if_neg (hname _ (by decide)),
    if_neg (not_or.mpr ⟨hname _ (by decide), hname _ (by decide)⟩), if_pos hpre, List.drop_left,
    hconsume]
  rfl

theorem parseFileName_manifest (hL : L.Lawful) (hn : n < 2 ^ 64) :
    parseFileName L (chars "MANIFEST-" ++ padded 6 n) = some (n, .kDescriptorFile) := by
  have hparse := parseFileName_manifest_digits hL (d := padded 6 n) padded_ne_nil
    (fun _ => isDigit_of_mem_padded) (by rwa [decimalValue_padded])
  rwa [decimalValue_padded] at hparse

/-- **The names of one database** are told apart by kind and number. -/
theorem fileName_injective (h : k.fileName dbname n = k'.fileName dbname n') :
    k = k' ∧ n = n' := by
  have hrel := congrArg (relativeName dbname) h
  have hdot : ∀ s : String, chars "." ++ chars s = 46 :: chars s := fun _ => rfl
  -- a number does not open like the name of a manifest
  have hmixed : ∀ {n n' : ℕ} (s : String),
      makeFileName [] n s ≠ chars "MANIFEST-" ++ padded 6 n' := fun {n n'} s h => by
    obtain ⟨d, ds, hd, hdigit⟩ := exists_padded (n := n)
    rw [makeFileName, hd] at h
    obtain rfl : d = 77 := (List.cons.inj h).1
    exact absurd hdigit (by decide)
  by_cases hk : k = descriptor
  · subst hk
    rw [show descriptor.fileName dbname n = descriptorFileName dbname n from rfl,
      relativeName_descriptorFileName] at hrel
    by_cases hk' : k' = descriptor
    · subst hk'
      rw [show descriptor.fileName dbname n' = descriptorFileName dbname n' from rfl,
        relativeName_descriptorFileName] at hrel
      exact ⟨rfl, padded_injective (List.append_cancel_left hrel)⟩
    · rw [fileName_eq hk', relativeName_makeFileName] at hrel
      exact absurd hrel.symm (hmixed _)
  · rw [fileName_eq hk, relativeName_makeFileName] at hrel
    by_cases hk' : k' = descriptor
    · subst hk'
      rw [show descriptor.fileName dbname n' = descriptorFileName dbname n' from rfl,
        relativeName_descriptorFileName] at hrel
      exact absurd hrel (hmixed _)
    · rw [fileName_eq hk', relativeName_makeFileName, makeFileName, makeFileName, List.nil_append,
        List.nil_append, List.append_assoc, List.append_assoc, hdot, hdot] at hrel
      obtain ⟨hn, hs⟩ := padded_append_inj (by decide) (by decide) hrel
      exact ⟨suffix_injective hk hk' (List.cons.inj hs).2, hn⟩

/-- **Parsing a file name undoes building it**, for each of the five kinds, and one
database has no two files of the same name. -/
theorem parseFileName_fileName (hL : L.Lawful) (hn : n < 2 ^ 64) :
    parseFileName L (relativeName dbname (k.fileName dbname n)) = some (n, k.type) ∧
      ∀ k' n', k.fileName dbname n = k'.fileName dbname n' → k = k' ∧ n = n' := by
  refine ⟨?_, fun k' n' h => fileName_injective h⟩
  by_cases hk : k = descriptor
  · subst hk
    rw [show descriptor.fileName dbname n = descriptorFileName dbname n from rfl,
      relativeName_descriptorFileName, parseFileName_manifest hL hn]
    rfl
  · rw [fileName_eq hk, relativeName_makeFileName, parseFileName_makeFileName hL hn]
    cases k with
    | descriptor => exact absurd rfl hk
    | log => rfl
    | table => rfl
    | sstTable => rfl
    | temp => rfl

/-- The greatest number, twenty digits long. -/
theorem parseFileName_fileName_max :
    parseFileName leveldbLogging (relativeName (chars "db7")
      (tempFileName (chars "db7") (2 ^ 64 - 1))) = some (2 ^ 64 - 1, .kTempFile) :=
  (parseFileName_fileName (k := temp) leveldbLogging_lawful (by decide)).1

/-! ### Files in the directory of the database -/

/-- **The file is housed by its database**: it has a name of its own in the directory, and
shares its path with no file of this or another database. -/
def Housed (k : Kind) (dbname : Bytes) (n : ℕ) : Prop :=
  (∃ base, k.fileName dbname n = dbname ++ chars "/" ++ base ∧ 47 ∉ base) ∧
    ∀ k' dbname' n', 0 < n' → n' < 2 ^ 64 → k.fileName dbname n = k'.fileName dbname' n' →
      dbname = dbname' ∧ n = n' ∧ k = k'

/-- Where `MakeFileName` writes the number, no separator can stand. -/
theorem not_separated {suffix : String} {base : Bytes} :
    makeFileName dbname n suffix ≠ dbname ++ chars "/" ++ base := by
  intro h
  obtain ⟨d, ds, hd, hdigit⟩ := exists_padded (n := n)
  rw [makeFileName, List.append_assoc dbname, hd] at h
  obtain rfl : d = 47 := (List.cons.inj (List.append_cancel_left h)).1
  exact absurd hdigit (by decide)

/-- The last byte of a name that `MakeFileName` builds is no digit, that of a manifest's
is. -/
theorem descriptorFileName_ne_makeFileName (hk : k ≠ descriptor) :
    descriptorFileName dbname n ≠ makeFileName dbname' n' k.suffix := by
  have hlast : (chars k.suffix).getLast?.map isDigit = some false := by
    cases k <;> first | rfl | exact absurd rfl hk
  intro h
  have hleft : (descriptorFileName dbname n).getLast?.map isDigit = some true := by
    rw [descriptorFileName, ← List.append_assoc, List.getLast?_append_of_ne_nil _ padded_ne_nil,
      List.getLast?_eq_some_getLast padded_ne_nil, Option.map_some,
      isDigit_of_mem_padded (List.getLast_mem padded_ne_nil)]
  have hne : chars k.suffix ≠ [] := by
    cases k <;> first | decide | exact absurd rfl hk
  rw [h, makeFileName, ← List.append_assoc, List.getLast?_append_of_ne_nil _ hne, hlast] at hleft
  simp at hleft

/-- **A numbered file is housed by its database** exactly where it is a manifest. -/
theorem housed_iff : k.Housed dbname n ↔ k = descriptor := by
  constructor
  · rintro ⟨⟨base, hbase, -⟩, -⟩
    by_contra hk
    rw [fileName_eq hk] at hbase
    exact not_separated hbase
  · rintro rfl
    refine ⟨⟨chars "MANIFEST-" ++ padded 6 n, ?_, ?_⟩, fun k' dbname' n' _ _ h => ?_⟩
    · rw [List.append_assoc]
      rfl
    · intro hmem
      rcases List.mem_append.mp hmem with hmem | hmem
      · exact absurd hmem (by decide)
      · exact absurd (isDigit_of_mem_padded hmem) (by decide)
    · by_cases hk' : k' = descriptor
      · subst hk'
        have hsplit : ∀ (dbname : Bytes) n, descriptor.fileName dbname n =
            (dbname ++ chars "/MANIFEST") ++ 45 :: padded 6 n := fun dbname n => by
          rw [List.append_assoc]
          rfl
        rw [hsplit, hsplit] at h
        obtain ⟨hn, hdb⟩ := append_padded_inj (by decide) (by decide) h
        exact ⟨List.append_cancel_right (List.append_cancel_right hdb), hn, rfl⟩
      · rw [fileName_eq hk'] at h
        exact absurd h (descriptorFileName_ne_makeFileName hk')

/-- **Two databases share a log**, and it is in the directory of neither. -/
theorem log_shared :
    log.fileName (chars "a") 1000001 = log.fileName (chars "a1") 1 ∧
      ¬∀ k dbname n, 0 < n → n < 2 ^ 64 → Housed k dbname n := by
  have hshared : log.fileName (chars "a") 1000001 = log.fileName (chars "a1") 1 := by decide
  refine ⟨hshared, fun h => ?_⟩
  have := ((h log (chars "a") 1000001 (by decide) (by decide)).2 log (chars "a1") 1 (by decide)
    (by decide) hshared).2.1
  exact absurd this (by decide)

end Kind

end LevelDb
