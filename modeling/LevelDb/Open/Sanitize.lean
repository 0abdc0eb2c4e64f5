import LevelDb.Filename
import Mathlib.Order.Lattice

/-!
# Sanitizing the options of the user

`ClipToRange` and `SanitizeOptions` of `db/dp_impl.cpp`, and what the constructor of `DBImpl`
makes of the result. Four options are moved into a range: `max_open_files`, which is an `int`,
and three sizes, which are words of 64 bits.

Each should come out as the nearest number of its range. The template compares after a
conversion to the type of the bounds, which is `int` in all four calls
(`LevelDb.Sanitize.Conversion`), and so it is right about a number that the conversion leaves
on its side of the bounds, and about no other (`LevelDb.Sanitize.clipToRange_eq_clamp_iff`).
For `max_open_files` that is every number. Of the sizes it takes those from 2^31 on for
something else: most of them come out as the least number of the range, and some as they are
(`LevelDb.Sanitize.sanitizes_iff`).

The constructor remembers whether the logger and the cache are the user's, as the destructor
deletes them where they are not. It takes none for its own that the user has given
(`LevelDb.Sanitize.dbImpl_owns`).
-/

namespace LevelDb.Sanitize

/-! ### The template -/

/-- **The conversions of an instance** of `ClipToRange`, whose bounds are of type `int`:
`static_cast<V>` of a field, and the assignment of a bound to the field. -/
structure Conversion (T : Type) where
  /-- The number that a field stands for. -/
  value : T → ℤ
  cast : T → Int32
  assign : Int32 → T
  cast_assign : ∀ x, 0 ≤ x.toInt → cast (assign x) = x
  value_assign : ∀ x, 0 ≤ x.toInt → value (assign x) = x.toInt

/-- **The bounds of a call.** -/
structure Bounds where
  minval : Int32
  maxval : Int32
  pos : 0 < minval.toInt
  lt : minval.toInt < maxval.toInt

/-- `ClipToRange`. -/
def clipToRange {T : Type} (C : Conversion T) (b : Bounds) (v : T) : T :=
  let v := if C.cast v > b.maxval then C.assign b.maxval else v
  if C.cast v < b.minval then C.assign b.minval else v

/-- The nearest number of the range. -/
def Bounds.clamp (b : Bounds) (v : ℤ) : ℤ := min (max v b.minval.toInt) b.maxval.toInt

/-- **The conversion leaves a number on its side** of the bounds. -/
structure Fits {T : Type} (C : Conversion T) (b : Bounds) (v : T) : Prop where
  above : b.maxval.toInt < (C.cast v).toInt → b.maxval.toInt ≤ C.value v
  below : (C.cast v).toInt < b.minval.toInt → C.value v ≤ b.minval.toInt
  within : b.minval.toInt ≤ (C.cast v).toInt → (C.cast v).toInt ≤ b.maxval.toInt →
    b.minval.toInt ≤ C.value v ∧ C.value v ≤ b.maxval.toInt

section

variable {T : Type} {C : Conversion T} {b : Bounds} {v : T}

theorem clipToRange_above (h : b.maxval.toInt < (C.cast v).toInt) :
    clipToRange C b v = C.assign b.maxval := by
  have hpos := b.pos
  have hlt := b.lt
  have habove : C.cast v > b.maxval := Int32.lt_iff_toInt_lt.mpr h
  have hcast : C.cast (C.assign b.maxval) = b.maxval := C.cast_assign _ (by omega)
  have hbelow : ¬b.maxval < b.minval := by
    rw [Int32.lt_iff_toInt_lt]
    omega
  simp only [clipToRange, if_pos habove, hcast, if_neg hbelow]

theorem clipToRange_below (h : (C.cast v).toInt < b.minval.toInt) :
    clipToRange C b v = C.assign b.minval := by
  have hlt := b.lt
  have habove : ¬C.cast v > b.maxval := by
    rw [gt_iff_lt, Int32.lt_iff_toInt_lt]
    omega
  have hbelow : C.cast v < b.minval := Int32.lt_iff_toInt_lt.mpr h
  simp only [clipToRange, if_neg habove, if_pos hbelow]

theorem clipToRange_within (h : b.minval.toInt ≤ (C.cast v).toInt)
    (h' : (C.cast v).toInt ≤ b.maxval.toInt) : clipToRange C b v = v := by
  have habove : ¬C.cast v > b.maxval := by
    rw [gt_iff_lt, Int32.lt_iff_toInt_lt]
    omega
  have hbelow : ¬C.cast v < b.minval := by
    rw [Int32.lt_iff_toInt_lt]
    omega
  simp only [clipToRange, if_neg habove, if_neg hbelow]

/-- **The number that comes out**, by the side of the bounds on which the conversion is. -/
theorem value_clipToRange : C.value (clipToRange C b v) =
    if b.maxval.toInt < (C.cast v).toInt then b.maxval.toInt
    else if (C.cast v).toInt < b.minval.toInt then b.minval.toInt else C.value v := by
  have hpos := b.pos
  have hlt := b.lt
  split_ifs with habove hbelow
  · rw [clipToRange_above habove, C.value_assign _ (by omega)]
  · rw [clipToRange_below hbelow, C.value_assign _ (by omega)]
  · rw [clipToRange_within (by omega) (by omega)]

/-- What comes out is in the range, once it is converted. -/
theorem cast_clipToRange : b.minval.toInt ≤ (C.cast (clipToRange C b v)).toInt ∧
    (C.cast (clipToRange C b v)).toInt ≤ b.maxval.toInt := by
  have hpos := b.pos
  have hlt := b.lt
  rcases lt_or_ge b.maxval.toInt (C.cast v).toInt with habove | hle
  · rw [clipToRange_above habove, C.cast_assign _ (by omega)]
    omega
  rcases lt_or_ge (C.cast v).toInt b.minval.toInt with hbelow | hge
  · rw [clipToRange_below hbelow, C.cast_assign _ (by omega)]
    omega
  · rw [clipToRange_within hge hle]
    exact ⟨hge, hle⟩

/-- **Clipping twice is clipping once.** -/
theorem clipToRange_clipToRange : clipToRange C b (clipToRange C b v) = clipToRange C b v :=
  clipToRange_within cast_clipToRange.1 cast_clipToRange.2

/-- **The nearest number of the range comes out** exactly where the conversion leaves the
number on its side of the bounds. -/
theorem clipToRange_eq_clamp_iff :
    C.value (clipToRange C b v) = b.clamp (C.value v) ↔ Fits C b v := by
  have hlt := b.lt
  rw [value_clipToRange, Bounds.clamp]
  constructor
  · intro h
    constructor
    · intro habove
      rw [if_pos habove] at h
      omega
    · intro hbelow
      rw [if_neg (by omega), if_pos hbelow] at h
      omega
    · intro hge hle
      rw [if_neg (by omega), if_neg (by omega)] at h
      omega
  · intro h
    split_ifs with habove hbelow
    · have := h.above habove
      omega
    · have := h.below hbelow
      omega
    · have := h.within (by omega) (by omega)
      omega

end

/-! ### The two instances -/

/-- The instance for a field of type `int`. -/
def Conversion.int : Conversion Int32 where
  value := Int32.toInt
  cast v := v
  assign x := x
  cast_assign _ _ := rfl
  value_assign _ _ := rfl

/-- What is left of a size in an `int`: its remainder modulo 2^32, in the signed range. -/
def castInt (v : UInt64) : Int32 := Int32.ofInt v.toNat

theorem toInt_castInt (v : UInt64) : (castInt v).toInt =
    if v.toNat % 2 ^ 32 < 2 ^ 31 then (v.toNat % 2 ^ 32 : ℤ) else v.toNat % 2 ^ 32 - 2 ^ 32 := by
  rw [castInt, Int32.toInt_ofInt, Int.bmod_def, show (Int32.size : ℤ) = 2 ^ 32 from rfl]
  split_ifs <;> omega

/-- A size that does not fit is not kept, and the `int` is the lesser number. -/
theorem castInt_cases (v : UInt64) : (castInt v).toInt = v.toNat ∧ v.toNat < 2 ^ 31 ∨
    (castInt v).toInt < v.toNat ∧ 2 ^ 31 ≤ v.toNat := by
  rw [toInt_castInt]
  split_ifs <;> omega

/-- The instance for a field of type `size_t`. -/
def Conversion.size : Conversion UInt64 where
  value v := v.toNat
  cast := castInt
  assign x := UInt64.ofNat x.toInt.toNat
  cast_assign x hx := by
    have hlt := x.toInt_lt
    have hnat : (UInt64.ofNat x.toInt.toNat).toNat = x.toInt.toNat := by
      rw [UInt64.toNat_ofNat', Nat.mod_eq_of_lt (by omega)]
    rw [← Int32.toInt_inj, toInt_castInt, hnat]
    split_ifs <;> omega
  value_assign x hx := by
    have hlt := x.toInt_lt
    rw [UInt64.toNat_ofNat', Nat.mod_eq_of_lt (by omega)]
    omega

/-! ### The options -/

/-- A pointer; `none` is `NULL`. -/
abbrev Pointer : Type := Option ℕ

/-- `Options`, with the fields that sanitizing reads or writes. The others are copied. -/
structure Options where
  comparator : Pointer
  infoLog : Pointer
  writeBufferSize : UInt64
  maxOpenFiles : Int32
  blockCache : Pointer
  blockSize : UInt64
  maxFileSize : UInt64
  filterPolicy : Pointer
  deriving DecidableEq, Repr

/-- The functions that are not in the repository. -/
structure Environment where
  /-- `Env::NewLogger`: the status, and what it stores in `*result`. -/
  newLogger : Bytes → Status × Pointer
  newLRUCache : ℕ → Pointer

/-- A call, with its arguments. -/
inductive Call
  | createDir (dirname : Bytes)
  | renameFile (src target : Bytes)
  | newLogger (fname : Bytes)
  | newLRUCache (capacity : ℕ)
  deriving DecidableEq, Repr

/-- `kNumNonTableCacheFiles`. -/
def kNumNonTableCacheFiles : Int32 := 10

/-- `InfoLogFileName`. -/
def infoLogFileName (dbname : Bytes) : Bytes := dbname ++ chars "/LOG"

/-- `OldInfoLogFileName`. -/
def oldInfoLogFileName (dbname : Bytes) : Bytes := dbname ++ chars "/LOG.old"

/-- The bounds of `max_open_files`. -/
def maxOpenFilesBounds : Bounds := ⟨64 + kNumNonTableCacheFiles, 50000, by decide, by decide⟩

/-- The bounds of `write_buffer_size`. -/
def writeBufferSizeBounds : Bounds :=
  ⟨(64 : Int32) <<< 10, (1 : Int32) <<< 30, by decide, by decide⟩

/-- The bounds of `max_file_size`. -/
def maxFileSizeBounds : Bounds := ⟨(1 : Int32) <<< 20, (1 : Int32) <<< 30, by decide, by decide⟩

/-- The bounds of `block_size`. -/
def blockSizeBounds : Bounds := ⟨(1 : Int32) <<< 10, (4 : Int32) <<< 20, by decide, by decide⟩

variable (E : Environment) (dbname : Bytes) (icmp ipolicy : Pointer)

/-- The log file of `SanitizeOptions`, in the directory of the database. -/
def openInfoLog (result : Options) : Options × List Call :=
  if result.infoLog.isNone then
    let (s, infoLog) := E.newLogger (infoLogFileName dbname)
    -- without a place for it there is no log
    ({ result with infoLog := if s.isOk then infoLog else none },
      [.createDir dbname, .renameFile (infoLogFileName dbname) (oldInfoLogFileName dbname),
        .newLogger (infoLogFileName dbname)])
  else (result, [])

/-- The block cache of `SanitizeOptions`. -/
def newBlockCache (result : Options) : Options × List Call :=
  if result.blockCache.isNone then
    ({ result with blockCache := E.newLRUCache (8 <<< 20) }, [.newLRUCache (8 <<< 20)])
  else (result, [])

/-- `SanitizeOptions`: the result, and the calls that it has made. -/
def sanitizeOptions (src : Options) : Options × List Call :=
  let result := src
  let result := { result with comparator := icmp }
  let result := { result with filterPolicy := if src.filterPolicy.isSome then ipolicy else none }
  let result := { result with
    maxOpenFiles := clipToRange .int maxOpenFilesBounds result.maxOpenFiles }
  let result := { result with
    writeBufferSize := clipToRange .size writeBufferSizeBounds result.writeBufferSize }
  let result := { result with
    maxFileSize := clipToRange .size maxFileSizeBounds result.maxFileSize }
  let result := { result with
    blockSize := clipToRange .size blockSizeBounds result.blockSize }
  let (result, calls) := openInfoLog E dbname result
  let (result, calls') := newBlockCache E result
  (result, calls ++ calls')

/-- What the constructor of `DBImpl` keeps of the options. -/
structure DBImpl where
  options : Options
  ownsInfoLog : Bool
  ownsCache : Bool
  tableCacheSize : Int32
  deriving DecidableEq, Repr

/-- `DBImpl::DBImpl`, with the addresses of its comparator and its filter policy. -/
def dbImpl (rawOptions : Options) : DBImpl :=
  let options := (sanitizeOptions E dbname icmp ipolicy rawOptions).1
  { options := options
    ownsInfoLog := options.infoLog != rawOptions.infoLog
    ownsCache := options.blockCache != rawOptions.blockCache
    -- ten files are for other uses, and the rest are the table cache's
    tableCacheSize := options.maxOpenFiles - kNumNonTableCacheFiles }

/-! ### The promise -/

/-- **The options are sanitized**: each of the four numbers is the nearest one of its range,
and what is sanitized stays as it is. -/
structure Sanitizes (src : Options) : Prop where
  maxOpenFiles : (sanitizeOptions E dbname icmp ipolicy src).1.maxOpenFiles.toInt =
    min (max src.maxOpenFiles.toInt 74) 50000
  writeBufferSize : (sanitizeOptions E dbname icmp ipolicy src).1.writeBufferSize.toNat =
    min (max src.writeBufferSize.toNat (2 ^ 16)) (2 ^ 30)
  maxFileSize : (sanitizeOptions E dbname icmp ipolicy src).1.maxFileSize.toNat =
    min (max src.maxFileSize.toNat (2 ^ 20)) (2 ^ 30)
  blockSize : (sanitizeOptions E dbname icmp ipolicy src).1.blockSize.toNat =
    min (max src.blockSize.toNat (2 ^ 10)) (2 ^ 22)
  idempotent : (sanitizeOptions E dbname icmp ipolicy
    (sanitizeOptions E dbname icmp ipolicy src).1).1 = (sanitizeOptions E dbname icmp ipolicy src).1
  tableCacheSize : 64 ≤ (dbImpl E dbname icmp ipolicy src).tableCacheSize.toInt

/-- **A size is small enough** for the template, or happens to be taken for a large one. -/
def SizeFits (b : Bounds) (v : UInt64) : Prop :=
  v.toNat < 2 ^ 31 ∨ b.maxval.toInt < v.toNat % 2 ^ 32 ∧ v.toNat % 2 ^ 32 < 2 ^ 31

/-- The order of two sizes is kept: the greater one is not taken for one below the range, nor
the smaller one for one in it. -/
structure KeepsOrder (b : Bounds) (v w : UInt64) : Prop where
  below : b.minval.toInt ≤ (castInt v).toInt → b.minval.toInt < v.toNat →
    b.minval.toInt ≤ (castInt w).toInt
  within : b.minval.toInt ≤ (castInt v).toInt → (castInt v).toInt ≤ b.maxval.toInt →
    b.maxval.toInt < v.toNat → (castInt w).toInt ≤ b.maxval.toInt

/-! ### What the code does -/

section

variable {b : Bounds}

/-- No `int` is moved by its conversion. -/
theorem fits_int (b : Bounds) (v : Int32) : Fits .int b v where
  above h := h.le
  below h := h.le
  within h h' := ⟨h, h'⟩

theorem fits_size_iff {v : UInt64} : Fits .size b v ↔ SizeFits b v := by
  have hpos := b.pos
  have hlt := b.lt
  have hmax := b.maxval.toInt_lt
  have hcast := toInt_castInt v
  have hvalue : Conversion.size.value v = v.toNat := rfl
  have hsize : Conversion.size.cast v = castInt v := rfl
  rw [SizeFits]
  constructor
  · intro h
    by_contra hnot
    rcases lt_or_ge (castInt v).toInt b.minval.toInt with hbelow | hge
    · have := h.below (hsize ▸ hbelow)
      split_ifs at hcast <;> omega
    · rcases lt_or_ge b.maxval.toInt (castInt v).toInt with habove | hle
      · split_ifs at hcast <;> omega
      · have := h.within (hsize ▸ hge) (hsize ▸ hle)
        split_ifs at hcast <;> omega
  · intro h
    constructor <;> rw [hsize, hvalue] <;> split_ifs at hcast <;> omega

/-- The `int` that comes out. -/
theorem toInt_clipToRange (b : Bounds) (v : Int32) :
    (clipToRange .int b v).toInt = min (max v.toInt b.minval.toInt) b.maxval.toInt :=
  clipToRange_eq_clamp_iff.mpr (fits_int b v)

theorem clipToRange_mono_int {v w : Int32} (h : v ≤ w) :
    clipToRange .int b v ≤ clipToRange .int b w := by
  rw [Int32.le_iff_toInt_le] at h ⊢
  rw [toInt_clipToRange, toInt_clipToRange]
  exact min_le_min_right _ (max_le_max_right _ h)

/-- The size that comes out. -/
theorem toNat_clipToRange {v : UInt64} : ((clipToRange .size b v).toNat : ℤ) =
    if b.maxval.toInt < (castInt v).toInt then b.maxval.toInt
    else if (castInt v).toInt < b.minval.toInt then b.minval.toInt else v.toNat :=
  value_clipToRange (C := .size)

/-- **The order of two sizes.** -/
theorem clipToRange_mono_size_iff {v w : UInt64} (h : v ≤ w) :
    clipToRange .size b v ≤ clipToRange .size b w ↔ KeepsOrder b v w := by
  have hpos := b.pos
  have hlt := b.lt
  have hmax := b.maxval.toInt_lt
  have hcv := castInt_cases v
  have hcw := castInt_cases w
  have hv := toNat_clipToRange (b := b) (v := v)
  have hw := toNat_clipToRange (b := b) (v := w)
  rw [UInt64.le_iff_toNat_le] at h ⊢
  constructor
  · intro hle
    constructor
    · intro hge hgt
      by_contra hbelow
      split_ifs at hv hw <;> omega
    · intro hge hle hgt
      by_contra hbelow
      split_ifs at hv hw <;> omega
  · rintro ⟨hbelow, hwithin⟩
    split_ifs at hv hw <;> omega

/-- **A size is clipped to the nearest number of its range** exactly where it fits. -/
theorem toNat_clipToRange_iff (b : Bounds) (v : UInt64) {lo hi : ℕ}
    (hlo : b.minval.toInt = lo) (hhi : b.maxval.toInt = hi) :
    (clipToRange .size b v).toNat = min (max v.toNat lo) hi ↔ SizeFits b v := by
  rw [← fits_size_iff, ← clipToRange_eq_clamp_iff, Bounds.clamp, hlo, hhi]
  change _ ↔ ((clipToRange .size b v).toNat : ℤ) = min (max (v.toNat : ℤ) lo) hi
  omega

/-- **What `SanitizeOptions` returns**, field by field. -/
theorem sanitizeOptions_eq (src : Options) : (sanitizeOptions E dbname icmp ipolicy src).1 =
    { comparator := icmp
      infoLog := if src.infoLog.isNone then
          if (E.newLogger (infoLogFileName dbname)).1.isOk then
            (E.newLogger (infoLogFileName dbname)).2
          else none
        else src.infoLog
      writeBufferSize := clipToRange .size writeBufferSizeBounds src.writeBufferSize
      maxOpenFiles := clipToRange .int maxOpenFilesBounds src.maxOpenFiles
      blockCache := if src.blockCache.isNone then E.newLRUCache (8 <<< 20) else src.blockCache
      blockSize := clipToRange .size blockSizeBounds src.blockSize
      maxFileSize := clipToRange .size maxFileSizeBounds src.maxFileSize
      filterPolicy := if src.filterPolicy.isSome then ipolicy else none } := by
  simp only [sanitizeOptions, openInfoLog, newBlockCache]
  cases src.infoLog <;> cases src.blockCache <;> rfl

/-- **Sanitized options stay as they are.** -/
theorem sanitizeOptions_sanitizeOptions (src : Options) :
    (sanitizeOptions E dbname icmp ipolicy (sanitizeOptions E dbname icmp ipolicy src).1).1 =
      (sanitizeOptions E dbname icmp ipolicy src).1 := by
  rw [sanitizeOptions_eq _ _ _ _ (sanitizeOptions E dbname icmp ipolicy src).1,
    sanitizeOptions_eq _ _ _ _ src]
  simp only [clipToRange_clipToRange]
  congr 1
  · rcases src.infoLog with _ | l
    · simp
    · simp
  · rcases src.blockCache with _ | k
    · simp
    · simp
  · rcases src.filterPolicy with _ | f
    · simp
    · rcases ipolicy <;> rfl

/-- **The table cache** has room for 64 files at least. -/
theorem le_tableCacheSize (src : Options) :
    64 ≤ (dbImpl E dbname icmp ipolicy src).tableCacheSize.toInt := by
  have hclip := cast_clipToRange (C := .int) (b := maxOpenFilesBounds) (v := src.maxOpenFiles)
  change (74 : ℤ) ≤ (clipToRange .int maxOpenFilesBounds src.maxOpenFiles).toInt ∧
    (clipToRange .int maxOpenFilesBounds src.maxOpenFiles).toInt ≤ 50000 at hclip
  simp only [dbImpl, sanitizeOptions_eq, Int32.toInt_sub]
  rw [show kNumNonTableCacheFiles.toInt = 10 from rfl, Int.bmod_def]
  split_ifs <;> omega

/-- The destructor deletes no logger and no cache that is the user's. -/
theorem dbImpl_owns (src : Options) :
    ((dbImpl E dbname icmp ipolicy src).ownsInfoLog = true → src.infoLog = none) ∧
      ((dbImpl E dbname icmp ipolicy src).ownsCache = true → src.blockCache = none) := by
  simp only [dbImpl, sanitizeOptions_eq]
  constructor
  · cases src.infoLog <;> simp
  · cases src.blockCache <;> simp

/-- **`max_open_files` is always sanitized, and a size exactly where it fits an `int`** or is
taken for a large number nevertheless. The order of two sizes is kept exactly where the
conversion takes neither of them to the wrong side of a bound. -/
theorem sanitizes_iff (E : Environment) (dbname : Bytes) (icmp ipolicy : Pointer) :
    (∀ src, Sanitizes E dbname icmp ipolicy src ↔
      SizeFits writeBufferSizeBounds src.writeBufferSize ∧
        SizeFits maxFileSizeBounds src.maxFileSize ∧ SizeFits blockSizeBounds src.blockSize) ∧
    (∀ b (v w : UInt64), v ≤ w →
      (clipToRange .size b v ≤ clipToRange .size b w ↔ KeepsOrder b v w)) ∧
    ∀ b (v w : Int32), v ≤ w → clipToRange .int b v ≤ clipToRange .int b w := by
  refine ⟨fun src => ?_, fun b v w => clipToRange_mono_size_iff, fun b v w => clipToRange_mono_int⟩
  have heq := sanitizeOptions_eq E dbname icmp ipolicy src
  have hwrite : _ = min (max src.writeBufferSize.toNat (2 ^ 16)) (2 ^ 30) ↔ _ :=
    toNat_clipToRange_iff writeBufferSizeBounds src.writeBufferSize rfl rfl
  have hfile : _ = min (max src.maxFileSize.toNat (2 ^ 20)) (2 ^ 30) ↔ _ :=
    toNat_clipToRange_iff maxFileSizeBounds src.maxFileSize rfl rfl
  have hblock : _ = min (max src.blockSize.toNat (2 ^ 10)) (2 ^ 22) ↔ _ :=
    toNat_clipToRange_iff blockSizeBounds src.blockSize rfl rfl
  rw [← hwrite, ← hfile, ← hblock]
  constructor
  · intro h
    have h1 := h.writeBufferSize
    have h2 := h.maxFileSize
    have h3 := h.blockSize
    rw [heq] at h1 h2 h3
    exact ⟨h1, h2, h3⟩
  · rintro ⟨h1, h2, h3⟩
    constructor
    · rw [heq]
      exact toInt_clipToRange maxOpenFilesBounds src.maxOpenFiles
    · rw [heq]
      exact h1
    · rw [heq]
      exact h2
    · rw [heq]
      exact h3
    · exact sanitizeOptions_sanitizeOptions E dbname icmp ipolicy src
    · exact le_tableCacheSize E dbname icmp ipolicy src

end

/-- An environment that has a logger and a cache to give. -/
def environment : Environment where
  newLogger _ := (.ok, some 1)
  newLRUCache _ := some 2

/-- Options of a user: the defaults, but for the size of the write buffer. -/
def userOptions (writeBufferSize : UInt64) : Options where
  comparator := some 3
  infoLog := none
  writeBufferSize := writeBufferSize
  maxOpenFiles := 1000
  blockCache := none
  blockSize := 4096
  maxFileSize := 0x200000
  filterPolicy := none

/-- The greatest size that is taken for what it is, and two that keep their order. -/
theorem sanitizes_iff_greatest :
    Sanitizes environment (chars "db") (some 4) (some 5) (userOptions 0x7fffffff) ∧
      clipToRange .size writeBufferSizeBounds 1 ≤
        clipToRange .size writeBufferSizeBounds 0x7fffffff := by
  obtain ⟨hiff, hmono, -⟩ := sanitizes_iff environment (chars "db") (some 4) (some 5)
  refine ⟨(hiff (userOptions 0x7fffffff)).mpr ⟨.inl (by decide), .inl (by decide), ?_⟩, ?_⟩
  · exact .inl (by decide)
  · refine (hmono writeBufferSizeBounds 1 0x7fffffff (by decide)).mpr ⟨?_, ?_⟩
    · decide
    · decide

/-- **A write buffer of 2 GiB becomes one of 64 KiB**, where one of 1 GiB keeps its size, and a
block that is too large by 4 GiB keeps it, too. -/
theorem two_gib :
    (sanitizeOptions environment (chars "db") (some 4) (some 5)
      (userOptions 0x80000000)).1.writeBufferSize = 0x10000 ∧
    ¬Sanitizes environment (chars "db") (some 4) (some 5) (userOptions 0x80000000) ∧
    ¬clipToRange .size writeBufferSizeBounds 0x40000000 ≤
      clipToRange .size writeBufferSizeBounds 0x80000000 ∧
    clipToRange .size blockSizeBounds 0x100001000 = 0x100001000 := by
  have hsize : (sanitizeOptions environment (chars "db") (some 4) (some 5)
      (userOptions 0x80000000)).1.writeBufferSize = 0x10000 := by decide
  refine ⟨hsize, fun h => ?_, by decide, by decide⟩
  have hclamp := h.writeBufferSize
  rw [hsize] at hclamp
  exact absurd hclamp (by decide)

end LevelDb.Sanitize
