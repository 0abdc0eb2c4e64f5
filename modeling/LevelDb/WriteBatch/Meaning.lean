import LevelDb.WriteBatch.Build
import LevelDb.Logic.Versioned

/-!
# What a batch means

A database is a map from keys to values, and an operation of a batch changes the map at
its key. What is stored are versions of it (`LevelDb.Entry.version`): the entries of
memtables and tables, under sequence numbers that grow. A reader at a sequence number takes
the newest entry below it.

So inserting a batch makes its operations on the map, one after another, and a reader at a
number within the batch sees the first few of them; readers at older numbers see no
difference (`LevelDb.insertInto_denotes`). Building a batch composes what its calls do to
the map: `Append` is one batch after the other (`LevelDb.Build.run_denotes`).
-/

namespace LevelDb

open Codec Versioned WriteBatch WriteBatchInternal

/-- The write that an operation is. -/
def Op.write : Op → Write Bytes Bytes
  | .put key value => (key, some value)
  | .delete key => (key, none)

/-- The version that an entry is. -/
def Entry.version (e : Entry) : Version Bytes Bytes where
  key := e.key
  number := e.sequence.toNat
  value := match e.kind with
    | .kTypeValue => some e.value
    | .kTypeDeletion => none

/-- The versions in a set of entries. -/
def versions (S : Set Entry) : Set (Version Bytes Bytes) := Entry.version '' S

/-- The versions in a memtable. -/
def MemTable.versions (mem : MemTable) : Set (Version Bytes Bytes) :=
  LevelDb.versions {e | e ∈ mem}

@[simp] theorem Op.version_entry (op : Op) (seq : UInt64) :
    (op.entry seq).version = ⟨op.write.1, seq.toNat, op.write.2⟩ := by
  cases op <;> rfl

/-- Consecutive entries are consecutive versions, unless the numbers wrap around. -/
theorem map_version_stamp {seq : UInt64} {ops : List Op}
    (hfit : seq.toNat + ops.length ≤ 2 ^ 64) :
    (stamp seq ops).map Entry.version = numbered seq.toNat (ops.map Op.write) := by
  induction ops generalizing seq with
  | nil => rfl
  | cons op ops ih =>
    rw [stamp_cons, List.map_cons, List.map_cons, numbered, Op.version_entry]
    refine congrArg _ ?_
    rcases ops with _ | ⟨op', ops⟩
    · rfl
    · rw [List.length_cons, List.length_cons] at hfit
      have hnext : (seq + 1).toNat = seq.toNat + 1 := by
        rw [UInt64.toNat_add]
        exact Nat.mod_eq_of_lt (by simp only [UInt64.toNat_one]; omega)
      rw [ih (by rw [hnext, List.length_cons]; omega), hnext]

theorem MemTable.versions_append_stamp {mem : MemTable} {seq : UInt64} {ops : List Op}
    (hfit : seq.toNat + ops.length ≤ 2 ^ 64) :
    MemTable.versions (mem ++ stamp seq ops) =
      mem.versions ∪ {v | v ∈ numbered seq.toNat (ops.map Op.write)} := by
  rw [← map_version_stamp hfit]
  ext v
  simp [MemTable.versions, LevelDb.versions, or_and_right, exists_or]

variable {C : Coding}

/-- **A batch makes its operations**, one after another, in a memtable with older entries
only, where its numbers do not wrap around. The operations are those that are decoded, all of
them where the batch is accepted. -/
theorem insertInto_denotes (hC : C.Lawful) {b : WriteBatch} (hb : kHeader ≤ b.rep.length)
    {mem : MemTable} {m : Bytes → Option Bytes} (hmem : Denotes mem.versions m)
    (hlast : ∀ e ∈ mem, e.sequence < sequence C b)
    (hfit : (sequence C b).toNat + (b.delivered C).length ≤ 2 ^ 64) :
    ∃ status mem', insertInto C b mem = .ok (status, mem') ∧
      Denotes (MemTable.versions mem') (((b.delivered C).map Op.write).foldl put m) ∧
      (∀ i, Denotes (asOf (MemTable.versions mem') ((sequence C b).toNat + i))
        ((((b.delivered C).take i).map Op.write).foldl put m)) ∧
      ∀ n ≤ (sequence C b).toNat, asOf (MemTable.versions mem') n = asOf mem.versions n := by
  have hold : ∀ v ∈ mem.versions, v.number < (sequence C b).toNat := by
    rintro _ ⟨e, he, rfl⟩
    exact UInt64.lt_iff_toNat_lt.mp (hlast e he)
  have hnew : MemTable.versions (mem ++ b.entries C) =
      mem.versions ∪ {v | v ∈ numbered (sequence C b).toNat ((b.delivered C).map Op.write)} :=
    MemTable.versions_append_stamp hfit
  refine ⟨_, _, insertInto_eq hC hb mem, ?_, fun i => ?_, fun n hn => ?_⟩
  · rw [hnew]
    exact hmem.writes hold
  · rw [hnew, asOf_numbered hold, List.map_take]
    exact hmem.writes hold
  · rw [hnew]
    exact asOf_union_of_le fun v hv => hn.trans (le_of_mem_numbered hv).1

/-- A batch that puts a value in the place of an older one. -/
theorem insertInto_denotes_putAB :
    ∃ status mem', insertInto leveldbCoding putAB [⟨3, .kTypeValue, [97], [99]⟩] =
        .ok (status, mem') ∧
      Denotes (MemTable.versions mem')
        (put (put (fun _ => none) ([97], some [99])) ([97], some [98])) ∧
      (∀ i, Denotes (asOf (MemTable.versions mem') (7 + i))
        ((([Op.put [97] [98]].take i).map Op.write).foldl put
          (put (fun _ => none) ([97], some [99])))) ∧
      ∀ n ≤ 7, asOf (MemTable.versions mem') n =
        asOf (MemTable.versions [⟨3, .kTypeValue, [97], [99]⟩]) n := by
  have hone : MemTable.versions [⟨3, .kTypeValue, [97], [99]⟩] =
      insert ⟨[97], 3, some [99]⟩ ∅ := by
    ext v
    simp [MemTable.versions, LevelDb.versions, Entry.version]
  have hmem : Denotes (MemTable.versions [⟨3, .kTypeValue, [97], [99]⟩])
      (put (fun _ => none) ([97], some [99])) := by
    rw [hone]
    exact denotes_empty.insert fun _ hu => absurd hu (Set.notMem_empty _)
  exact insertInto_denotes (b := putAB) leveldbCoding_lawful (by decide) hmem (by decide)
    (by decide)

/-! ### What building a batch means -/

namespace Build

/-- **What the calls that build a batch do to a map**, once the batch is inserted. -/
def meaning : Build → (Bytes → Option Bytes) → Bytes → Option Bytes
  | new, m => m
  | clear _, m => m
  | put b key value, m => Function.update (b.meaning m) key (some value)
  | delete b key, m => Function.update (b.meaning m) key none
  | setSequence b _, m => b.meaning m
  | append dst src, m => src.meaning (dst.meaning m)

theorem foldl_ops (B : Build) (m : Bytes → Option Bytes) :
    (B.ops.map Op.write).foldl Versioned.put m = B.meaning m := by
  induction B generalizing m with
  | new => rfl
  | clear b => rfl
  | put b key value ih =>
    rw [ops, List.map_append, List.foldl_append, ih]
    rfl
  | delete b key ih =>
    rw [ops, List.map_append, List.foldl_append, ih]
    rfl
  | setSequence b seq ih => exact ih m
  | append dst src ihd ihs => rw [ops, List.map_append, List.foldl_append, ihd, ihs, meaning]

/-- **Building a batch composes what its calls do to the map**, where keys, values and counts
fit in their fields, the numbers do not wrap around, and the memtable has older entries only. -/
theorem run_denotes (hC : C.Lawful) (B : Build) (hfit : ∀ op ∈ B.ops, op.Fits)
    (hfew : B.ops.length < 2 ^ 31) (hnum : B.seq.toNat + B.ops.length ≤ 2 ^ 64) {mem : MemTable}
    {m : Bytes → Option Bytes} (hmem : Denotes mem.versions m)
    (hlast : ∀ e ∈ mem, e.sequence < B.seq) :
    ∃ b mem', B.run C = .ok b ∧ insertInto C b mem = .ok (.ok, mem') ∧
      Denotes (MemTable.versions mem') (B.meaning m) := by
  obtain ⟨b, hrun, body, hrep, hrec⟩ := run_represents hC B hfit
  have hb : b = ⟨_⟩ := WriteBatch.ext hrep
  have hlen : kHeader ≤ b.rep.length := by
    rw [hrep, List.length_append, length_header hC]
    omega
  have hbody : Records C b.body B.ops := by
    rw [hb, body_layout hC]
    exact hrec
  have hseq : sequence C b = B.seq := by
    rw [hb]
    exact sequence_layout hC _ _ _
  have hops : b.delivered C = B.ops := by rw [delivered_eq hC hlen, split_of_records hC hbody]
  have hcount : (B.ops.length : ℤ) = (count C b).toInt := by
    refine (count_eq_iff hfew).mpr ?_
    rw [hb, List.append_assoc, List.drop_left' (hC.length_encodeFixed64 _),
      hC.decode_encodeFixed32, UInt32.toNat_ofNat']
    exact Nat.mod_eq_of_lt (by omega)
  have hok := (verdict_split_eq_ok hC hlen).mpr ⟨hlen, _, hbody, hcount⟩
  refine ⟨b, _, hrun, (insertInto_eq hC hlen mem).trans (by rw [hok]), ?_⟩
  rw [entries, hseq, hops, MemTable.versions_append_stamp hnum, ← foldl_ops]
  refine hmem.writes ?_
  rintro _ ⟨e, he, rfl⟩
  exact UInt64.lt_iff_toNat_lt.mp (hlast e he)

/-- A batch that deletes a key, and has one appended that puts a value under it. -/
theorem run_denotes_append :
    ∃ b mem', (append (setSequence (delete new [97]) 5) (put new [97] [98])).run leveldbCoding =
        .ok b ∧ insertInto leveldbCoding b [] = .ok (.ok, mem') ∧
      Denotes (MemTable.versions mem')
        (Function.update (Function.update (fun _ => none) [97] none) [97] (some [98])) := by
  have hnil : MemTable.versions [] = ∅ := by
    ext v
    simp [MemTable.versions, LevelDb.versions]
  exact run_denotes leveldbCoding_lawful
    (append (setSequence (delete new [97]) 5) (put new [97] [98])) (by simp [ops, Op.Fits])
    (by decide) (by decide) (by rw [hnil]; exact denotes_empty)
    fun _ he => absurd he List.not_mem_nil

end Build

end LevelDb
