import LevelDb.WriteBatch.Grammar

/-!
# Applying a batch to a memtable

`WriteBatchInternal::InsertInto` streams the operations of a batch into the
memtable while it decodes them, and learns only afterwards whether the batch is
well formed. Its closed form (`LevelDb.WriteBatchInternal.insertInto_eq`) says so:
whatever the status, the memtable has received the operations of the longest
front of the body that parses, the `i`-th of them under the sequence number of
the batch plus `i`.

So a rejected batch leaves the memtable alone exactly when its very first record
is broken (`LevelDb.insertInto_atomic_iff`).
-/

namespace LevelDb

open Codec WriteBatch

/-- The memtable entry that an operation with sequence number `seq` becomes. -/
def Op.entry (seq : UInt64) : Op → Entry
  | .put key value => ⟨seq, .kTypeValue, key, value⟩
  | .delete key => ⟨seq, .kTypeDeletion, key, []⟩

/-- The entries of consecutive operations, the first one numbered `seq`. The
numbers wrap around at `2 ^ 64`. -/
def stamp (seq : UInt64) (ops : List Op) : List Entry :=
  ops.mapIdx fun i op => op.entry (seq + UInt64.ofNat i)

@[simp] theorem stamp_nil (seq : UInt64) : stamp seq [] = [] := rfl

@[simp] theorem stamp_cons (seq : UInt64) (op : Op) (ops : List Op) :
    stamp seq (op :: ops) = op.entry seq :: stamp (seq + 1) ops := by
  have h : ∀ i : ℕ, seq + UInt64.ofNat (i + 1) = seq + 1 + UInt64.ofNat i := by
    intro i
    rw [UInt64.ofNat_add, UInt64.add_assoc, UInt64.add_comm 1]
    rfl
  simp only [stamp, List.mapIdx_cons, h]
  simp

@[simp] theorem length_stamp (seq : UInt64) (ops : List Op) :
    (stamp seq ops).length = ops.length := by
  simp [stamp]

theorem stamp_eq_nil {seq : UInt64} {ops : List Op} : stamp seq ops = [] ↔ ops = [] := by
  rw [← List.length_eq_zero_iff, length_stamp, List.length_eq_zero_iff]

/-- What the two methods of `MemTableInserter` do to a memtable over a whole
batch. -/
theorem foldl_memTableInserter (ops : List Op) (seq : UInt64) (mem : MemTable) :
    (ops.foldl memTableInserter.call ⟨seq, mem⟩).mem = mem ++ stamp seq ops := by
  induction ops generalizing seq mem with
  | nil => simp
  | cons op ops ih =>
    have hcall : memTableInserter.call ⟨seq, mem⟩ op = ⟨seq + 1, mem ++ [op.entry seq]⟩ := by
      cases op <;> rfl
    rw [List.foldl_cons, hcall, ih, stamp_cons, List.append_assoc, List.singleton_append]

namespace WriteBatch

variable (C : Coding)

/-- **The entries a batch puts into a memtable**: the operations `Iterate`
delivers, numbered from the sequence number of the batch. -/
def entries (b : WriteBatch) : List Entry :=
  stamp (WriteBatchInternal.sequence C b) (b.delivered C)

end WriteBatch

variable {C : Coding}

/-- **`InsertInto` in closed form.** -/
theorem WriteBatchInternal.insertInto_eq (hC : C.Lawful) {b : WriteBatch}
    (hb : kHeader ≤ b.rep.length) (mem : MemTable) :
    insertInto C b mem =
      .ok (verdict C b (b.split C).1.length (b.split C).2, mem ++ b.entries C) := by
  rw [insertInto, iterate_eq hC memTableInserter hb]
  simp only [Fault.ok_bind]
  rw [foldl_memTableInserter, entries, delivered_eq hC hb]

/-- A rejected batch puts nothing into the memtable exactly when no record opens
its body. -/
theorem entries_eq_nil_iff (hC : C.Lawful) {b : WriteBatch} (hb : kHeader ≤ b.rep.length) :
    b.entries C = [] ↔ ¬∃ enc op rest, b.body = enc ++ rest ∧ IsRecord C enc op := by
  rw [entries, stamp_eq_nil, delivered_eq hC hb]
  obtain ⟨w, hw, hrec, hmax⟩ := split_spec hC b
  constructor
  · rintro h ⟨enc, op, rest, he, hop⟩
    have := (hmax enc rest [op] he (Concat.singleton hop)).2
    rw [h] at this
    simp at this
  · intro h
    generalize hops : (b.split C).1 = ops at hrec
    cases hrec with
    | nil => rfl
    | @cons enc op w' ops' hop _ =>
      exact absurd ⟨enc, op, w' ++ (b.split C).2, by rw [hw, List.append_assoc], hop⟩ h

/-- **A rejected batch leaves the memtable alone exactly when its first record is
broken.** -/
theorem insertInto_atomic_iff (hC : C.Lawful) {b : WriteBatch} (hb : kHeader ≤ b.rep.length)
    (mem : MemTable) :
    (∀ status mem', WriteBatchInternal.insertInto C b mem = .ok (status, mem') → status ≠ .ok →
        mem' = mem) ↔
      b.Accepted C ∨ ¬∃ enc op rest, b.body = enc ++ rest ∧ IsRecord C enc op := by
  rw [← entries_eq_nil_iff hC hb, ← verdict_split_eq_ok hC hb]
  have heq := WriteBatchInternal.insertInto_eq hC hb mem
  constructor
  · intro h
    by_cases hv : verdict C b (b.split C).1.length (b.split C).2 = .ok
    · exact Or.inl hv
    · exact Or.inr (by simpa using h _ _ heq hv)
  · rintro h status mem' hins hne
    rw [heq] at hins
    obtain ⟨rfl, rfl⟩ : verdict C b (b.split C).1.length (b.split C).2 = status ∧
        mem ++ b.entries C = mem' := by simpa using hins
    rcases h with hv | he
    · exact absurd hv hne
    · rw [he, List.append_nil]

end LevelDb
