import LevelDb.Slice
import LevelDb.Codec.Integer

/-!
# Write batches

`db/write_batch.cpp`: the string a `WriteBatch` accumulates its operations in,
the loop that decodes it, and the handler that puts the decoded operations into a
memtable.

The layout of `rep_` is

* bytes 0–7, the sequence number of the first operation, fixed 64 bits;
* bytes 8–11, the number of operations, fixed 32 bits;
* the operations, each a tag byte and one or two length-prefixed strings.

The codecs (`util/coding.h`) and the two tags (`db/dbformat.h`) are not in the
repository. They are the parameter `LevelDb.Coding`; what the batch code relies
on is `LevelDb.Coding.Lawful`, and `LevelDb.leveldbCoding` is the instance that
follows the documented format.
-/

namespace LevelDb

/-! ### The codecs -/

/-- The two kinds of an operation, `enum ValueType`. -/
inductive ValueType
  | kTypeDeletion
  | kTypeValue
  deriving DecidableEq, Repr

/-- The functions of `util/coding.h` and the tag bytes of `db/dbformat.h` that
write batches use. A decoder reads from the front of its argument; an encoder
returns the bytes it writes. -/
structure Coding where
  /-- The byte of a tag. -/
  tag : ValueType → UInt8
  decodeFixed32 : Bytes → UInt32
  decodeFixed64 : Bytes → UInt64
  encodeFixed32 : UInt32 → Bytes
  encodeFixed64 : UInt64 → Bytes
  /-- `PutLengthPrefixedSlice(dst, value)`: the new contents of `dst`. -/
  putLengthPrefixedSlice : Bytes → Bytes → Bytes
  /-- `GetLengthPrefixedSlice(input, result)`: the result and the new `input`. -/
  getLengthPrefixedSlice : Bytes → Option (Bytes × Bytes)

/-- **What the batch code relies on**: distinct tags, little-endian fixed-width
codecs, and the length-prefixed format. -/
structure Coding.Lawful (C : Coding) : Prop where
  tag_ne : C.tag .kTypeValue ≠ C.tag .kTypeDeletion
  decodeFixed32_eq : ∀ s, 4 ≤ s.length →
    C.decodeFixed32 s = UInt32.ofNat (Codec.ofLE (s.take 4))
  decodeFixed64_eq : ∀ s, 8 ≤ s.length →
    C.decodeFixed64 s = UInt64.ofNat (Codec.ofLE (s.take 8))
  encodeFixed32_eq : ∀ v, C.encodeFixed32 v = Codec.toLE 4 v.toNat
  encodeFixed64_eq : ∀ v, C.encodeFixed64 v = Codec.toLE 8 v.toNat
  /-- Writing appends to `dst`. -/
  putLengthPrefixedSlice_eq : ∀ dst s,
    C.putLengthPrefixedSlice dst s = dst ++ C.putLengthPrefixedSlice [] s
  /-- Reading a string shorter than `2 ^ 32` back yields it and leaves what follows. -/
  get_put : ∀ s t, s.length < 2 ^ 32 →
    C.getLengthPrefixedSlice (C.putLengthPrefixedSlice [] s ++ t) = some (s, t)
  /-- Reading succeeds exactly on a valid varint32 `n` followed by `n` bytes at least, and
  takes these. -/
  getLengthPrefixedSlice_eq : ∀ s, C.getLengthPrefixedSlice s = Codec.lengthPrefixed.parse s

/-- The documented codecs. -/
def leveldbCoding : Coding where
  tag
    | .kTypeDeletion => 0
    | .kTypeValue => 1
  decodeFixed32 s := UInt32.ofNat (Codec.ofLE (s.take 4))
  decodeFixed64 s := UInt64.ofNat (Codec.ofLE (s.take 8))
  encodeFixed32 v := Codec.toLE 4 v.toNat
  encodeFixed64 v := Codec.toLE 8 v.toNat
  putLengthPrefixedSlice dst s := dst ++ Codec.encodeLengthPrefixed s
  getLengthPrefixedSlice s := Codec.lengthPrefixed.parse s

theorem leveldbCoding_lawful : leveldbCoding.Lawful where
  tag_ne := by decide
  decodeFixed32_eq _ _ := rfl
  decodeFixed64_eq _ _ := rfl
  encodeFixed32_eq _ := rfl
  encodeFixed64_eq _ := rfl
  putLengthPrefixedSlice_eq dst s := rfl
  get_put _ t h := (Codec.encodes_encodeLengthPrefixed h).append t
  getLengthPrefixedSlice_eq _ := rfl

namespace Coding.Lawful

variable {C : Coding} (hC : C.Lawful)

include hC

theorem length_encodeFixed32 (v : UInt32) : (C.encodeFixed32 v).length = 4 := by
  rw [hC.encodeFixed32_eq, Codec.length_toLE]

theorem length_encodeFixed64 (v : UInt64) : (C.encodeFixed64 v).length = 8 := by
  rw [hC.encodeFixed64_eq, Codec.length_toLE]

/-- The fixed 32-bit codecs are inverse, whatever follows. -/
theorem decode_encodeFixed32 (v : UInt32) (t : Bytes) :
    C.decodeFixed32 (C.encodeFixed32 v ++ t) = v := by
  have hlen := hC.length_encodeFixed32 v
  rw [hC.decodeFixed32_eq _ (by rw [List.length_append]; omega), List.take_left' hlen,
    hC.encodeFixed32_eq, Codec.ofLE_toLE, Nat.mod_eq_of_lt (lt_of_lt_of_le v.toNat_lt (by decide)),
    UInt32.ofNat_toNat]

/-- The fixed 64-bit codecs are inverse, whatever follows. -/
theorem decode_encodeFixed64 (v : UInt64) (t : Bytes) :
    C.decodeFixed64 (C.encodeFixed64 v ++ t) = v := by
  have hlen := hC.length_encodeFixed64 v
  rw [hC.decodeFixed64_eq _ (by rw [List.length_append]; omega), List.take_left' hlen,
    hC.encodeFixed64_eq, Codec.ofLE_toLE, Nat.mod_eq_of_lt (lt_of_lt_of_le v.toNat_lt (by decide)),
    UInt64.ofNat_toNat]

end Coding.Lawful

/-! ### The batch -/

/-- `kHeader`. -/
def kHeader : ℕ := 12

/-- A `WriteBatch`: the string `rep_`. -/
@[ext] structure WriteBatch where
  rep : Bytes
  deriving DecidableEq, Repr

/-- `WriteBatch::Handler`, as a transformer of the handler's own state. -/
structure Handler (σ : Type) where
  put : Bytes → Bytes → σ → σ
  delete : Bytes → σ → σ

/-- One call of a handler. -/
inductive Op
  | put (key value : Bytes)
  | delete (key : Bytes)
  deriving DecidableEq, Repr

/-- Make the call `op` on a handler. -/
def Handler.call {σ : Type} (h : Handler σ) (s : σ) : Op → σ
  | .put key value => h.put key value s
  | .delete key => h.delete key s

namespace WriteBatchInternal

variable (C : Coding)

/-- `WriteBatchInternal::Count`: the fixed 32-bit field, as an `int`. -/
def count (b : WriteBatch) : Int32 := (C.decodeFixed32 (b.rep.drop 8)).toInt32

/-- `WriteBatchInternal::SetCount`. -/
def setCount (b : WriteBatch) (n : Int32) : WriteBatch :=
  ⟨b.rep.take 8 ++ C.encodeFixed32 n.toUInt32 ++ b.rep.drop 12⟩

/-- `WriteBatchInternal::Sequence`. -/
def sequence (b : WriteBatch) : UInt64 := C.decodeFixed64 b.rep

/-- `WriteBatchInternal::SetSequence`. -/
def setSequence (b : WriteBatch) (seq : UInt64) : WriteBatch :=
  ⟨C.encodeFixed64 seq ++ b.rep.drop 8⟩

/-- `WriteBatchInternal::SetContents`. -/
def setContents (contents : Bytes) : Except Fault WriteBatch :=
  if kHeader ≤ contents.length then .ok ⟨contents⟩ else .error .assertion

/-- `WriteBatchInternal::Append`. -/
def append (dst src : WriteBatch) : Except Fault WriteBatch :=
  let dst := setCount C dst (count C dst + count C src)
  if kHeader ≤ src.rep.length then .ok ⟨dst.rep ++ src.rep.drop kHeader⟩ else .error .assertion

end WriteBatchInternal

open WriteBatchInternal

namespace WriteBatch

/-- `WriteBatch::Clear`: an empty string, resized to the header's length. -/
def clear : WriteBatch := ⟨List.replicate kHeader 0⟩

variable (C : Coding)

/-- `WriteBatch::Put`. -/
def put (b : WriteBatch) (key value : Bytes) : WriteBatch :=
  let b := setCount C b (count C b + 1)
  let rep := b.rep ++ [C.tag .kTypeValue]
  let rep := C.putLengthPrefixedSlice rep key
  ⟨C.putLengthPrefixedSlice rep value⟩

/-- `WriteBatch::Delete`. -/
def delete (b : WriteBatch) (key : Bytes) : WriteBatch :=
  let b := setCount C b (count C b + 1)
  let rep := b.rep ++ [C.tag .kTypeDeletion]
  ⟨C.putLengthPrefixedSlice rep key⟩

variable {σ : Type} (h : Handler σ)

/-- The loop of `WriteBatch::Iterate`, with `found` operations delivered so far
and at most `fuel` turns left. -/
def iterateLoop (b : WriteBatch) : ℕ → Bytes → ℕ → σ → Except Fault (Status × σ)
  | 0, _, _, _ => .error .fuel
  | fuel + 1, input, found, s =>
    if input.isEmpty then
      -- `found` counts in an `int`; a body of `2 ^ 31` records is out of its range
      if (found : ℤ) ≠ (count C b).toInt then
        .ok (.corruption "WriteBatch has wrong count", s)
      else
        .ok (.ok, s)
    else do
      let tag ← Slice.get input 0
      let input ← Slice.removePrefix input 1
      if tag = C.tag .kTypeValue then
        match C.getLengthPrefixedSlice input with
        | none => .ok (.corruption "bad writebatch Put", s)
        | some (key, input) =>
          match C.getLengthPrefixedSlice input with
          | none => .ok (.corruption "bad writebatch Put", s)
          | some (value, input) => iterateLoop b fuel input (found + 1) (h.put key value s)
      else if tag = C.tag .kTypeDeletion then
        match C.getLengthPrefixedSlice input with
        | none => .ok (.corruption "bad WriteBatch Delete", s)
        | some (key, input) => iterateLoop b fuel input (found + 1) (h.delete key s)
      else
        .ok (.corruption "uknown WriteBatch tag", s)

/-- `WriteBatch::Iterate`: the status returned and the state the handler is left
in. Every turn of the loop takes a byte, which bounds their number. -/
def iterate (b : WriteBatch) (s : σ) : Except Fault (Status × σ) :=
  if b.rep.length < kHeader then
    .ok (.corruption "malformed WriteBatch (too small)", s)
  else do
    let input ← Slice.removePrefix b.rep kHeader
    iterateLoop C h b (input.length + 1) input 0 s

end WriteBatch

/-! ### Inserting into a memtable -/

/-- An entry of a memtable or of a table: an internal key and a value. -/
structure Entry where
  sequence : UInt64
  kind : ValueType
  key : Bytes
  value : Bytes
  deriving DecidableEq, Repr

/-- A `MemTable` (`db/memtable.h`, not in the repository): the entries added to
it, oldest first. -/
abbrev MemTable := List Entry

/-- `MemTable::Add`. -/
def MemTable.add (mem : MemTable) (sequence : UInt64) (kind : ValueType) (key value : Bytes) :
    MemTable :=
  mem ++ [⟨sequence, kind, key, value⟩]

/-- `MemTableInserter`. -/
structure MemTableInserter where
  sequence : UInt64
  mem : MemTable
  deriving DecidableEq, Repr

/-- The two methods of `MemTableInserter`. -/
def memTableInserter : Handler MemTableInserter where
  put key value i := ⟨i.sequence + 1, i.mem.add i.sequence .kTypeValue key value⟩
  delete key i := ⟨i.sequence + 1, i.mem.add i.sequence .kTypeDeletion key []⟩

/-- `WriteBatchInternal::InsertInto`. -/
def WriteBatchInternal.insertInto (C : Coding) (b : WriteBatch) (memtable : MemTable) :
    Except Fault (Status × MemTable) := do
  let (s, inserter) ← b.iterate C memTableInserter ⟨sequence C b, memtable⟩
  .ok (s, inserter.mem)

end LevelDb
