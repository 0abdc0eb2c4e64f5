import LevelDb.Logic.Region
import LevelDb.Posix.Descriptors

/-!
# Reading from a mapped file

`PosixMmapReadableFile::Read` of `util/env_posix.cpp` copies nothing: it checks that the range
lies within the file and returns a slice of the mapping. Offset and size are words of 64 bits
that were read from disk, and their sum is one, too. Here is the address that the slice points
to, and what the memory holds there.

A read should succeed exactly for the ranges within the file, with their bytes
(`LevelDb.Posix.ReadsInside`). The code keeps to it unless the sum wraps around to a number
that is no greater than the length of the file (`LevelDb.Posix.readsInside_iff`): then it
returns OK, with a slice that has an address outside the mapping
(`LevelDb.Posix.MmapReadableFile.read_outside`). A `pread` would fail there, since such an
offset is negative as an `off_t`, or else such a size as an `ssize_t`.
-/

namespace LevelDb.Posix

/-! ### Memory -/

/-- What the addresses of the process hold, where they are mapped. -/
abbrev Memory : Type := UInt64 → Option UInt8

/-- A `Slice`, as a pointer and a size. -/
structure SlicePtr where
  data : UInt64
  size : UInt64
  deriving DecidableEq, Repr

/-- `Slice()`; no byte of it is read. -/
def SlicePtr.empty : SlicePtr := ⟨0, 0⟩

/-- The addresses of the bytes, where they do not wrap around. -/
def SlicePtr.region (s : SlicePtr) : Region := ⟨s.data.toNat, s.size.toNat⟩

/-- The slice has these bytes. -/
def Holds (mem : Memory) (s : SlicePtr) (bs : Bytes) : Prop :=
  bs.length = s.size.toNat ∧ ∀ i < bs.length, mem (s.data + UInt64.ofNat i) = bs[i]?

instance (mem : Memory) (s : SlicePtr) (bs : Bytes) : Decidable (Holds mem s bs) :=
  inferInstanceAs (Decidable (_ ∧ _))

/-- The bytes that a `pread` of the range gives: those that there are. -/
def pread (contents : Bytes) (n offset : UInt64) : Bytes :=
  (contents.drop offset.toNat).take n.toNat

/-! ### The code -/

/-- **A `PosixMmapReadableFile`**: the mapping is a region of the address space, and there is
an address behind it. -/
structure MmapReadableFile where
  filename : Bytes
  mmapRegion : UInt64
  length : UInt64
  fits : mmapRegion.toNat + length.toNat < 2 ^ 64

/-- `PosixMmapReadableFile::Read`: the status, and `*result`. -/
def MmapReadableFile.read (f : MmapReadableFile) (offset n : UInt64) : Status × SlicePtr :=
  if offset + n > f.length then (.ioError f.filename.text "Invalid argument", .empty)
  else (.ok, ⟨f.mmapRegion + offset, n⟩)

/-! ### The promise -/

/-- The mapping. -/
def MmapReadableFile.mapping (f : MmapReadableFile) : SlicePtr := ⟨f.mmapRegion, f.length⟩

/-- **A read stays inside the file**: it succeeds for the ranges within the file, with the
bytes of the range, and returns an error and an empty slice for the others. -/
structure ReadsInside (mem : Memory) (f : MmapReadableFile) (contents : Bytes)
    (offset n : UInt64) : Prop where
  isOk_iff : (f.read offset n).1.isOk ↔ offset.toNat + n.toNat ≤ f.length.toNat
  within : offset.toNat + n.toNat ≤ f.length.toNat →
    (f.read offset n).2.region.Within f.mapping.region
  bytes : offset.toNat + n.toNat ≤ f.length.toNat →
    Holds mem (f.read offset n).2 (pread contents n offset)
  ioError : f.length.toNat < offset.toNat + n.toNat →
    f.read offset n = (.ioError f.filename.text "Invalid argument", .empty)

section

variable {mem : Memory} {f : MmapReadableFile} {contents : Bytes} {offset n : UInt64}

/-- The table of descriptors takes no part in the read: it is the same in `LevelDb.Posix.Process`,
where slices have no address. -/
theorem Process.read_mmapReadable (p : Process) (o : ReadOutcome) :
    p.read offset n o (.mmapReadable f.filename f.length) =
      (((f.read offset n).1, some (f.read offset n).2.size.toNat), p) := by
  rw [Process.read, MmapReadableFile.read]
  split_ifs <;> rfl

/-- The part of a slice has the part of its bytes. -/
theorem Holds.sub {s : SlicePtr} {bs : Bytes} (h : Holds mem s bs)
    (hle : offset.toNat + n.toNat ≤ s.size.toNat) :
    Holds mem ⟨s.data + offset, n⟩ (pread bs n offset) := by
  obtain ⟨hlen, hbytes⟩ := h
  have hsize : (pread bs n offset).length = n.toNat := by
    rw [pread, List.length_take, List.length_drop]
    omega
  refine ⟨hsize, fun i hi => ?_⟩
  rw [hsize] at hi
  have hget : (pread bs n offset)[i]? = bs[offset.toNat + i]? := by
    rw [pread, List.getElem?_take_of_lt hi, List.getElem?_drop]
  have hword : UInt64.ofNat (offset.toNat + i) = offset + UInt64.ofNat i := by
    rw [UInt64.ofNat_add, UInt64.ofNat_toNat]
  rw [hget, UInt64.add_assoc, ← hword]
  exact hbytes _ (by omega)

/-- The test of the code, over the integers: the sum may wrap around. -/
theorem lt_add_iff {a b c : UInt64} : c < a + b ↔
    (c.toNat < a.toNat + b.toNat ∧ a.toNat + b.toNat < 2 ^ 64) ∨
      c.toNat + 2 ^ 64 < a.toNat + b.toNat := by
  have ha := a.toNat_lt
  have hb := b.toNat_lt
  rw [UInt64.lt_iff_toNat_lt, UInt64.toNat_add]
  omega

/-- The range is returned. -/
theorem MmapReadableFile.read_accepted (h : offset.toNat + n.toNat ≤ f.length.toNat ∨
    2 ^ 64 ≤ offset.toNat + n.toNat ∧ offset.toNat + n.toNat ≤ 2 ^ 64 + f.length.toNat) :
    f.read offset n = (.ok, ⟨f.mmapRegion + offset, n⟩) := by
  have hlength := f.length.toNat_lt
  refine if_neg ?_
  rw [gt_iff_lt, lt_add_iff]
  omega

/-- The range is refused. -/
theorem MmapReadableFile.read_refused (h : f.length.toNat < offset.toNat + n.toNat)
    (hwrap : offset.toNat + n.toNat < 2 ^ 64 ∨
      2 ^ 64 + f.length.toNat < offset.toNat + n.toNat) :
    f.read offset n = (.ioError f.filename.text "Invalid argument", .empty) := by
  refine if_pos ?_
  rw [gt_iff_lt, lt_add_iff]
  omega

/-- A range within the file. -/
theorem ReadsInside.of_le (hf : Holds mem f.mapping contents)
    (h : offset.toNat + n.toNat ≤ f.length.toNat) : ReadsInside mem f contents offset n := by
  have hfits := f.fits
  have hdata : (f.mmapRegion + offset).toNat = f.mmapRegion.toNat + offset.toNat := by
    rw [UInt64.toNat_add]
    omega
  have hread := MmapReadableFile.read_accepted (.inl h)
  constructor
  · rw [hread]
    exact iff_of_true rfl h
  · intro _
    rw [hread]
    constructor
    · change f.mmapRegion.toNat ≤ (f.mmapRegion + offset).toNat
      omega
    · change (f.mmapRegion + offset).toNat + n.toNat ≤ f.mmapRegion.toNat + f.length.toNat
      omega
  · intro _
    rw [hread]
    exact hf.sub h
  · intro hlt
    omega

/-- A range that is not within the file, and is refused. -/
theorem ReadsInside.of_lt (h : f.length.toNat < offset.toNat + n.toNat)
    (hwrap : offset.toNat + n.toNat < 2 ^ 64 ∨
      2 ^ 64 + f.length.toNat < offset.toNat + n.toNat) : ReadsInside mem f contents offset n := by
  have hread := MmapReadableFile.read_refused h hwrap
  constructor
  · rw [hread]
    exact iff_of_false Bool.false_ne_true (by omega)
  · intro hle
    omega
  · intro hle
    omega
  · exact fun _ => hread

/-- **A range that wraps around** is read with OK, though the slice has an address that is not
in the mapping: it begins in front of the mapping, or ends behind it. -/
theorem MmapReadableFile.read_outside (h : 2 ^ 64 ≤ offset.toNat + n.toNat)
    (h' : offset.toNat + n.toNat ≤ 2 ^ 64 + f.length.toNat) :
    (f.read offset n).1.isOk ∧
      ∃ a ∈ (f.read offset n).2.region, a ∉ f.mapping.region := by
  have hoffset := offset.toNat_lt
  have hfits := f.fits
  have hn : 0 < n.toNat := by omega
  rw [read_accepted (.inr ⟨h, h'⟩)]
  refine ⟨rfl, Region.exists_notMem hn ?_⟩
  rintro ⟨hfirst, hlast⟩
  change f.mmapRegion.toNat ≤ (f.mmapRegion + offset).toNat at hfirst
  change (f.mmapRegion + offset).toNat + n.toNat ≤ f.mmapRegion.toNat + f.length.toNat at hlast
  rw [UInt64.toNat_add] at hfirst hlast
  omega

/-- **A read stays inside the file** unless the sum of offset and size wraps around to a number
that is no greater than the length of the file. -/
theorem readsInside_iff (hf : Holds mem f.mapping contents) (offset n : UInt64) :
    ReadsInside mem f contents offset n ↔
      offset.toNat + n.toNat < 2 ^ 64 ∨ 2 ^ 64 + f.length.toNat < offset.toNat + n.toNat := by
  have hlength := f.length.toNat_lt
  constructor
  · intro h
    by_contra hwrap
    have hmin : 2 ^ 64 ≤ offset.toNat + n.toNat := by omega
    have hmax : offset.toNat + n.toNat ≤ 2 ^ 64 + f.length.toNat := by omega
    have hle := h.isOk_iff.mp (MmapReadableFile.read_outside hmin hmax).1
    omega
  · intro hwrap
    rcases Nat.lt_or_ge f.length.toNat (offset.toNat + n.toNat) with hlt | hle
    · exact .of_lt hlt hwrap
    · exact .of_le hf hle

end

/-- A mapped file of five bytes. -/
def fiveBytes : MmapReadableFile where
  filename := [102]
  mmapRegion := 4096
  length := 5
  fits := by decide

/-- The file is in memory, and there is nothing around it. -/
def fiveBytesMemory : Memory := fun a =>
  if 4096 ≤ a then [1, 2, 3, 4, 5][(a - 4096).toNat]? else none

/-- Three bytes from the second on, and the greatest range. -/
theorem readsInside_iff_fiveBytes :
    ReadsInside fiveBytesMemory fiveBytes [1, 2, 3, 4, 5] 1 3 ∧
      ReadsInside fiveBytesMemory fiveBytes [1, 2, 3, 4, 5] 0xffffffffffffffff
        0xffffffffffffffff := by
  have hf : Holds fiveBytesMemory fiveBytes.mapping [1, 2, 3, 4, 5] := by decide
  exact ⟨(readsInside_iff hf 1 3).mpr (.inl (by decide)),
    (readsInside_iff hf 0xffffffffffffffff 0xffffffffffffffff).mpr (.inr (by decide))⟩

/-- **The byte in front of the mapping is read**, at an offset of -1. -/
theorem read_wraps :
    fiveBytes.read 0xffffffffffffffff 1 = (.ok, ⟨4095, 1⟩) ∧
      fiveBytesMemory 4095 = none ∧
      ¬ReadsInside fiveBytesMemory fiveBytes [1, 2, 3, 4, 5] 0xffffffffffffffff 1 := by
  have hread : fiveBytes.read 0xffffffffffffffff 1 = (.ok, ⟨4095, 1⟩) := by decide
  refine ⟨hread, by decide, fun h => ?_⟩
  have hle := h.isOk_iff.mp (by rw [hread]; rfl)
  exact absurd hle (by decide)

end LevelDb.Posix
