import LevelDb.WriteBatch.Insert

/-!
# Building a batch and reading it back

A batch is built by any sequence of `Clear`, `Put`, `Delete`, `SetSequence` and
`Append`, the batch appended being built the same way: a term of
`LevelDb.Build`. The source patches the header in place and grows the body by
concatenation, so the invariant (`LevelDb.Build.Represents`) ties the three
together: the first eight bytes are the sequence number, the next four the number
of operations, and the rest is a concatenation of records of exactly the
operations made since the last `Clear`.

With the grammar of `LevelDb.WriteBatch.Grammar` the round trip follows
(`LevelDb.Build.iterate_run`).
-/

namespace LevelDb

open Codec WriteBatch WriteBatchInternal

/-- **How a batch is built.** A term is the history of one batch, the last call
outermost. -/
inductive Build
  /-- `WriteBatch()`, which calls `Clear`. -/
  | new
  /-- `Clear()`. -/
  | clear (b : Build)
  /-- `Put(key, value)`. -/
  | put (b : Build) (key value : Bytes)
  /-- `Delete(key)`. -/
  | delete (b : Build) (key : Bytes)
  /-- `WriteBatchInternal::SetSequence(b, seq)`. -/
  | setSequence (b : Build) (seq : UInt64)
  /-- `WriteBatchInternal::Append(dst, src)`. -/
  | append (dst src : Build)

namespace Build

variable (C : Coding)

/-- Make the calls. -/
def run : Build → Except Fault WriteBatch
  | new => .ok WriteBatch.clear
  | clear b => do
    let _ ← b.run
    .ok WriteBatch.clear
  | put b key value => do
    let b ← b.run
    .ok (b.put C key value)
  | delete b key => do
    let b ← b.run
    .ok (b.delete C key)
  | setSequence b seq => do
    let b ← b.run
    .ok (WriteBatchInternal.setSequence C b seq)
  | append dst src => do
    let dst ← dst.run
    let src ← src.run
    WriteBatchInternal.append C dst src

/-- The operations made or appended since the last `Clear`. -/
def ops : Build → List Op
  | new => []
  | clear _ => []
  | put b key value => b.ops ++ [.put key value]
  | delete b key => b.ops ++ [.delete key]
  | setSequence b _ => b.ops
  | append dst src => dst.ops ++ src.ops

/-- The last sequence number set on this batch since its last `Clear`. -/
def seq : Build → UInt64
  | new => 0
  | clear _ => 0
  | put b _ _ => b.seq
  | delete b _ => b.seq
  | setSequence _ seq => seq
  | append dst _ => dst.seq

end Build

/-- The strings of an operation are shorter than `2 ^ 32`, as their length
prefixes need. -/
def Op.Fits : Op → Prop
  | .put key value => key.length < 2 ^ 32 ∧ value.length < 2 ^ 32
  | .delete key => key.length < 2 ^ 32

namespace Build

variable {C : Coding}

/-- **The batch `b` is `B`, laid out**: sequence number, count modulo `2 ^ 32`,
records. -/
def Represents (C : Coding) (B : Build) (b : WriteBatch) : Prop :=
  ∃ body, b.rep = C.encodeFixed64 B.seq ++ C.encodeFixed32 (UInt32.ofNat B.ops.length) ++ body ∧
    Records C body B.ops

section Header

variable (hC : C.Lawful) (seq : UInt64) (n : UInt32) (body : Bytes)

include hC

/-- Splitting a laid-out batch at the end of its header. -/
theorem length_header : (C.encodeFixed64 seq ++ C.encodeFixed32 n).length = kHeader := by
  rw [List.length_append, hC.length_encodeFixed64, hC.length_encodeFixed32]
  rfl

theorem body_layout :
    WriteBatch.body ⟨C.encodeFixed64 seq ++ C.encodeFixed32 n ++ body⟩ = body :=
  List.drop_left' (length_header hC seq n)

theorem sequence_layout :
    WriteBatchInternal.sequence C ⟨C.encodeFixed64 seq ++ C.encodeFixed32 n ++ body⟩ = seq := by
  rw [WriteBatchInternal.sequence, List.append_assoc, hC.decode_encodeFixed64]

theorem count_layout :
    count C ⟨C.encodeFixed64 seq ++ C.encodeFixed32 n ++ body⟩ = n.toInt32 := by
  rw [count, List.append_assoc, List.drop_left' (hC.length_encodeFixed64 seq),
    hC.decode_encodeFixed32]

theorem setCount_layout (m : Int32) :
    setCount C ⟨C.encodeFixed64 seq ++ C.encodeFixed32 n ++ body⟩ m =
      ⟨C.encodeFixed64 seq ++ C.encodeFixed32 m.toUInt32 ++ body⟩ := by
  have h8 := hC.length_encodeFixed64 seq
  have h12 : (C.encodeFixed64 seq ++ C.encodeFixed32 n).length = 12 := length_header hC seq n
  rw [setCount]
  congr 2
  · rw [List.append_assoc, List.take_left' h8]
  · exact List.drop_left' h12

theorem setSequence_layout (seq' : UInt64) :
    WriteBatchInternal.setSequence C ⟨C.encodeFixed64 seq ++ C.encodeFixed32 n ++ body⟩ seq' =
      ⟨C.encodeFixed64 seq' ++ C.encodeFixed32 n ++ body⟩ := by
  rw [WriteBatchInternal.setSequence, List.append_assoc,
    List.drop_left' (hC.length_encodeFixed64 seq), List.append_assoc]

/-- A cleared batch is laid out with the sequence number 0 and the count 0. -/
theorem clear_layout : WriteBatch.clear = ⟨C.encodeFixed64 0 ++ C.encodeFixed32 0 ++ []⟩ := by
  rw [hC.encodeFixed64_eq, hC.encodeFixed32_eq]
  rfl

end Header

/-- The count field after adding `m` operations to `n`: an `int` addition, whose
bits are those of the sum. -/
theorem toUInt32_add_ofNat (n m : ℕ) :
    ((UInt32.ofNat n).toInt32 + (UInt32.ofNat m).toInt32).toUInt32 = UInt32.ofNat (n + m) := by
  rw [Int32.toUInt32_add, UInt32.toUInt32_toInt32, UInt32.toUInt32_toInt32, UInt32.ofNat_add]

/-- Writing a string that fits leaves a length-prefixed string behind `dst`. -/
theorem putLengthPrefixedSlice_spec (hC : C.Lawful) (dst : Bytes) {s : Bytes}
    (hs : s.length < 2 ^ 32) :
    ∃ e, C.putLengthPrefixedSlice dst s = dst ++ e ∧ IsLengthPrefixed e s := by
  refine ⟨C.putLengthPrefixedSlice [] s, hC.putLengthPrefixedSlice_eq dst s, ?_⟩
  have h := hC.get_put s [] hs
  rw [List.append_nil, hC.getLengthPrefixedSlice_eq] at h
  exact encodes_lengthPrefixed.mp h

/-- No sequence of calls trips an assertion, and every batch has its header. -/
theorem run_ok (hC : C.Lawful) (B : Build) : ∃ b, B.run C = .ok b ∧ kHeader ≤ b.rep.length := by
  have hput : ∀ dst s : Bytes, dst.length ≤ (C.putLengthPrefixedSlice dst s).length := by
    intro dst s
    rw [hC.putLengthPrefixedSlice_eq, List.length_append]
    omega
  have hset : ∀ (b : WriteBatch) (n : Int32), kHeader ≤ b.rep.length →
      kHeader ≤ (setCount C b n).rep.length := by
    intro b n hb
    simp only [setCount, List.length_append, hC.length_encodeFixed32, List.length_take,
      List.length_drop]
    simp only [kHeader] at hb ⊢
    omega
  induction B with
  | new => exact ⟨_, rfl, by decide⟩
  | clear b ih =>
    obtain ⟨b', hb', -⟩ := ih
    exact ⟨_, by rw [run, hb']; rfl, by decide⟩
  | put b key value ih =>
    obtain ⟨b', hb', hlen⟩ := ih
    refine ⟨_, by rw [run, hb']; rfl, ?_⟩
    refine le_trans (hset b' (count C b' + 1) hlen)
      (le_trans ?_ (le_trans (hput _ key) (hput _ value)))
    rw [List.length_append]
    omega
  | delete b key ih =>
    obtain ⟨b', hb', hlen⟩ := ih
    refine ⟨_, by rw [run, hb']; rfl, ?_⟩
    refine le_trans (hset b' (count C b' + 1) hlen) (le_trans ?_ (hput _ key))
    rw [List.length_append]
    omega
  | setSequence b seq ih =>
    obtain ⟨b', hb', hlen⟩ := ih
    refine ⟨_, by rw [run, hb']; rfl, ?_⟩
    simp only [WriteBatchInternal.setSequence, List.length_append, hC.length_encodeFixed64,
      List.length_drop]
    simp only [kHeader] at hlen ⊢
    omega
  | append dst src ihd ihs =>
    obtain ⟨d, hd, hdlen⟩ := ihd
    obtain ⟨s, hs, hslen⟩ := ihs
    refine ⟨_, by rw [run, hd, Fault.ok_bind, hs, Fault.ok_bind, WriteBatchInternal.append,
      if_pos hslen], ?_⟩
    refine le_trans (hset d (count C d + count C s) hdlen) ?_
    rw [List.length_append]
    omega

/-- **The layout invariant**: whatever the calls, the batch is laid out as the
operations and the sequence number that the calls leave. -/
theorem run_represents (hC : C.Lawful) (B : Build) (hfit : ∀ op ∈ B.ops, op.Fits) :
    ∃ b, B.run C = .ok b ∧ B.Represents C b := by
  induction B with
  | new => exact ⟨_, rfl, [], congrArg rep (clear_layout hC), .nil⟩
  | clear b =>
    obtain ⟨b', hb', -⟩ := run_ok hC b
    exact ⟨_, by rw [run, hb']; rfl, [], congrArg rep (clear_layout hC), .nil⟩
  | put b key value ih =>
    obtain ⟨b', hb', body, hrep, hrec⟩ := ih fun op hop => hfit op (List.mem_append_left _ hop)
    have hb'' : b' = ⟨_⟩ := WriteBatch.ext hrep
    obtain ⟨hk, hv⟩ := hfit (.put key value) (List.mem_append_right _ (List.mem_singleton_self _))
    refine ⟨_, by rw [run, hb']; rfl, ?_⟩
    rw [hb'', WriteBatch.put, count_layout hC, setCount_layout hC]
    obtain ⟨ek, hek, hke⟩ := putLengthPrefixedSlice_spec hC (C.encodeFixed64 b.seq ++
      C.encodeFixed32 ((UInt32.ofNat b.ops.length).toInt32 + 1).toUInt32 ++ body ++
        [C.tag .kTypeValue]) hk
    obtain ⟨ev, hev, hve⟩ := putLengthPrefixedSlice_spec hC (C.encodeFixed64 b.seq ++
      C.encodeFixed32 ((UInt32.ofNat b.ops.length).toInt32 + 1).toUInt32 ++ body ++
        [C.tag .kTypeValue] ++ ek) hv
    refine ⟨body ++ (C.tag .kTypeValue :: (ek ++ ev)), ?_,
      hrec.append (Concat.singleton (.put hke hve))⟩
    simp only [hek, hev]
    rw [ops, List.length_append, List.length_singleton, ← toUInt32_add_ofNat]
    simp [seq]
  | delete b key ih =>
    obtain ⟨b', hb', body, hrep, hrec⟩ := ih fun op hop => hfit op (List.mem_append_left _ hop)
    have hb'' : b' = ⟨_⟩ := WriteBatch.ext hrep
    have hk := hfit (.delete key) (List.mem_append_right _ (List.mem_singleton_self _))
    refine ⟨_, by rw [run, hb']; rfl, ?_⟩
    rw [hb'', WriteBatch.delete, count_layout hC, setCount_layout hC]
    obtain ⟨ek, hek, hke⟩ := putLengthPrefixedSlice_spec hC (C.encodeFixed64 b.seq ++
      C.encodeFixed32 ((UInt32.ofNat b.ops.length).toInt32 + 1).toUInt32 ++ body ++
        [C.tag .kTypeDeletion]) hk
    refine ⟨body ++ (C.tag .kTypeDeletion :: ek), ?_, hrec.append (Concat.singleton (.delete hke))⟩
    simp only [hek]
    rw [ops, List.length_append, List.length_singleton, ← toUInt32_add_ofNat]
    simp [seq]
  | setSequence b seq' ih =>
    obtain ⟨b', hb', body, hrep, hrec⟩ := ih hfit
    have hb'' : b' = ⟨_⟩ := WriteBatch.ext hrep
    refine ⟨_, by rw [run, hb']; rfl, body, ?_, hrec⟩
    rw [hb'', setSequence_layout hC]
    rfl
  | append dst src ihd ihs =>
    obtain ⟨d, hd, body, hrep, hrec⟩ := ihd fun op hop => hfit op (List.mem_append_left _ hop)
    obtain ⟨s, hs, body', hrep', hrec'⟩ := ihs fun op hop => hfit op (List.mem_append_right _ hop)
    have hd' : d = ⟨_⟩ := WriteBatch.ext hrep
    have hs' : s = ⟨_⟩ := WriteBatch.ext hrep'
    have hlen : kHeader ≤ s.rep.length := by
      rw [hrep', List.length_append, length_header hC]
      omega
    refine ⟨_, by rw [run, hd, Fault.ok_bind, hs, Fault.ok_bind, WriteBatchInternal.append,
      if_pos hlen], body ++ body', ?_, hrec.append hrec'⟩
    have hbody : s.rep.drop kHeader = body' := by
      rw [hs']
      exact body_layout hC _ _ _
    rw [hbody, hd', hs', count_layout hC, count_layout hC, setCount_layout hC, ops,
      List.length_append, toUInt32_add_ofNat]
    simp [seq]

/-- **Decoding a batch undoes building it.** For every sequence of calls whose
strings have lengths below `2 ^ 32` and which leaves fewer than `2 ^ 31`
operations, `Iterate` returns OK and hands the handler exactly the operations, in
order; `Count` is their number; `Sequence` is the last one set; and `InsertInto`
numbers the `i`-th operation by it plus `i`, modulo `2 ^ 64`. -/
theorem iterate_run (hC : C.Lawful) (B : Build) (hfit : ∀ op ∈ B.ops, op.Fits)
    (hfew : B.ops.length < 2 ^ 31) :
    ∃ b, B.run C = .ok b ∧
      (∀ (σ : Type) (h : Handler σ) (s : σ),
        b.iterate C h s = .ok (.ok, B.ops.foldl h.call s)) ∧
      (count C b).toInt = B.ops.length ∧
      WriteBatchInternal.sequence C b = B.seq ∧
      ∀ mem, insertInto C b mem =
        .ok (.ok, mem ++ B.ops.mapIdx fun i op => op.entry (B.seq + UInt64.ofNat i)) := by
  obtain ⟨b, hrun, body, hrep, hrec⟩ := run_represents hC B hfit
  have hb : b = ⟨_⟩ := WriteBatch.ext hrep
  have hlen : kHeader ≤ b.rep.length := by
    rw [hrep, List.length_append, length_header hC]
    omega
  have hbody : b.body = body := by
    rw [hb]
    exact body_layout hC _ _ _
  have hseq : WriteBatchInternal.sequence C b = B.seq := by
    rw [hb]
    exact sequence_layout hC _ _ _
  have hcount : (count C b).toInt = B.ops.length := by
    refine (count_eq_iff hfew).mpr ?_ |>.symm
    rw [hb, List.append_assoc, List.drop_left' (hC.length_encodeFixed64 _),
      hC.decode_encodeFixed32, UInt32.toNat_ofNat']
    exact Nat.mod_eq_of_lt (by omega)
  have hsplit : b.split C = (B.ops, []) := split_of_records hC (by rw [hbody]; exact hrec)
  have hverdict : verdict C b (b.split C).1.length (b.split C).2 = .ok := by
    rw [hsplit]
    exact verdict_eq_ok.mpr ⟨rfl, hcount.symm⟩
  refine ⟨b, hrun, fun σ h s => ?_, hcount, hseq, fun mem => ?_⟩
  · rw [iterate_eq hC h hlen, hverdict, hsplit]
  · rw [insertInto_eq hC hlen, hverdict, entries, delivered_eq hC hlen, hsplit, hseq]
    rfl

/-- The empty key deleted, a batch with one `Put` appended, numbered from 5. -/
theorem iterate_run_append :
    ∃ b, (append (setSequence (delete new []) 5) (put new [97] [98])).run leveldbCoding = .ok b ∧
      (∀ (σ : Type) (h : Handler σ) (s : σ), b.iterate leveldbCoding h s =
        .ok (.ok, [.delete [], .put [97] [98]].foldl h.call s)) ∧
      (count leveldbCoding b).toInt = 2 ∧ WriteBatchInternal.sequence leveldbCoding b = 5 ∧
      ∀ mem, insertInto leveldbCoding b mem =
        .ok (.ok, mem ++ [⟨5, .kTypeDeletion, [], []⟩, ⟨6, .kTypeValue, [97], [98]⟩]) :=
  iterate_run leveldbCoding_lawful (append (setSequence (delete new []) 5) (put new [97] [98]))
    (by simp [ops, Op.Fits]) (by decide)

end Build

end LevelDb
