import LevelDb.Recover.Recovery

/-!
# Records that are not well formed

Without `paranoid_checks`, recovery ignores the error of a batch that does not decode
and goes on. Two things then go wrong, each under a condition that is exact.

* The commit is not skipped: the operations in front of the error stay in the
  memtable. A batch is all or nothing just when it is accepted, or when its very
  first record is broken (`LevelDb.rejected_batch_skipped_iff`).
* `max_sequence` comes from the header, the sequence numbers from the operations.
  Recovery ends past every number it has inserted just when the headers it has read
  cover the operations, and no header – and not the manifest – ends at the last
  64-bit number (`LevelDb.recover_sequence_iff`).
-/

namespace LevelDb

open CrashLogic WriteBatch

variable {c : Context}

/-! ### Half a commit -/

/-- A rejected batch is one whose decoding ends in an error. -/
theorem recordEntries_eq_nil_iff (hX : c.X.Lawful) {contents : Bytes}
    (hlen : kHeader ≤ contents.length) : recordEntries c.X.coding [contents] = [] ↔
      ¬∃ enc op rest, (WriteBatch.mk contents).body = enc ++ rest ∧ IsRecord c.X.coding enc op := by
  rw [recordEntries_singleton]
  exact entries_eq_nil_iff hX.coding hlen

/-- **A batch is applied entirely or not at all**: where it is rejected, `InsertInto`
leaves the memtable alone, and a replay that ignores the error adds nothing to the
tables and the memtable. -/
def AllOrNothing (c : Context) (contents : Bytes) : Prop :=
  (∀ mem status mem', WriteBatchInternal.insertInto c.X.coding ⟨contents⟩ mem =
    .ok (status, mem') → status ≠ .ok → mem' = mem) ∧
  (¬Accepted c.X.coding ⟨contents⟩ → c.options.paranoidChecks = false → ∀ w log r r',
    ((replayRecord c log contents r).run w).result = some r' → r'.status = .ok →
    (taken ((replayRecord c log contents r).run w).final.calls).Nodup →
    ∃ files, r'.edit = r.edit.addFiles files ∧
      (((replayRecord c log contents r).run w).final.disk.contents files ++
        r'.mem.getD []).Perm (r.mem.getD []))

/-- **A rejected batch is skipped** – by `InsertInto`, and by a recovery that ignores
its error – exactly when no complete record opens it. -/
theorem rejected_batch_skipped_iff (hX : c.X.Lawful) {contents : Bytes}
    (hlen : kHeader ≤ contents.length) :
    AllOrNothing c contents ↔ Accepted c.X.coding ⟨contents⟩ ∨
        ¬∃ enc op rest, (WriteBatch.mk contents).body = enc ++ rest ∧
          IsRecord c.X.coding enc op := by
  have hatomic : (∀ mem status mem', WriteBatchInternal.insertInto c.X.coding ⟨contents⟩ mem =
      .ok (status, mem') → status ≠ .ok → mem' = mem) ↔ _ :=
    ⟨fun h => (insertInto_atomic_iff hX.coding hlen []).mp (h []),
      fun h mem => (insertInto_atomic_iff hX.coding hlen mem).mpr h⟩
  constructor
  · exact fun h => hatomic.mp h.1
  · refine fun h => ⟨hatomic.mpr h, fun hrej _ w log r r' hrun hs htaken => ?_⟩
    -- the rejected batch has no entry, and that is all the record adds
    have hnil := (recordEntries_eq_nil_iff hX hlen).mpr (h.resolve_left hrej)
    obtain ⟨-, hrec⟩ := (replayRecord_sat (A := distinctNumbers) hX hlen).result hrun htaken
    obtain ⟨files, hedit, -, -, hperm⟩ := (hrec (by rw [hs]; rfl)).replays.received
    refine ⟨files, hedit, ?_⟩
    rw [insertedRecords_inserted, hnil, List.append_nil] at hperm
    exact (hperm distinct_distinctNumbers).2

/-- A batch that announces two operations: a put, and an unknown tag. -/
def halfCommit : Bytes := [5, 0, 0, 0, 0, 0, 0, 0, 2, 0, 0, 0, 1, 1, 97, 1, 98, 9]

theorem rejected_batch_skipped_iff_halfCommit :
    AllOrNothing (healthy {}) halfCommit ↔ Accepted leveldbCoding ⟨halfCommit⟩ ∨
      ¬∃ enc op rest, (WriteBatch.mk halfCommit).body = enc ++ rest ∧
        IsRecord leveldbCoding enc op :=
  rejected_batch_skipped_iff documented_lawful (by decide)

/-- **Half a commit is applied**, to the memtable and to the recovered database. -/
theorem halfCommit_applied :
    (¬∀ contents mem status mem', kHeader ≤ contents.length →
      WriteBatchInternal.insertInto leveldbCoding ⟨contents⟩ mem = .ok (status, mem') →
        status ≠ .ok → mem' = mem) ∧
    ∃ p t, ((recover (healthy {}) {} false).run (.initial (oneLog [halfCommit]))).final = t ∧
      ((recover (healthy {}) {} false).run (.initial (oneLog [halfCommit]))).result =
        some (.ok, p) ∧
      t.disk.contents p.edit.newFiles = [⟨5, .kTypeValue, [97], [98]⟩] := by
  refine ⟨fun h => ?_, _, _, rfl, rfl, by decide⟩
  have := h halfCommit [] (.corruption "uknown WriteBatch tag") [⟨5, .kTypeValue, [97], [98]⟩]
    (by decide) (by decide) (by decide)
  exact absurd this (by decide)

/-! ### Sequence numbers -/

section

variable {C : Coding}

/-- `max_sequence` is the greatest of the header ends. -/
theorem le_foldl_raise {x m : UInt64} {records : List Bytes} :
    x ≤ records.foldl (fun m record => raise C m ⟨record⟩) m ↔
      x ≤ m ∨ ∃ record ∈ records, x ≤ lastSequence C ⟨record⟩ := by
  induction records generalizing m with
  | nil => simp
  | cons record records ih =>
    have hraise : x ≤ raise C m ⟨record⟩ ↔ x ≤ m ∨ x ≤ lastSequence C ⟨record⟩ := by
      rw [raise]
      split_ifs with h <;>
        simp only [UInt64.le_iff_toNat_le, UInt64.lt_iff_toNat_lt] at h ⊢ <;> omega
    rw [List.foldl_cons, ih, hraise, or_assoc]
    simp

end

/-- The sequence number at hand is below the next one to be handed out just when the
last one is no smaller, and not the last 64-bit number. -/
theorem lt_next_iff {x last : UInt64} : x < last + 1 ↔ x ≤ last ∧ last.toNat + 1 < 2 ^ 64 := by
  have hx := x.toNat_lt
  have hl := last.toNat_lt
  rw [UInt64.lt_iff_toNat_lt, UInt64.le_iff_toNat_le, UInt64.toNat_add]
  simp only [UInt64.toNat_one]
  omega

theorem next_le_next_iff {x last : UInt64} (h : x ≤ last) :
    x + 1 ≤ last + 1 ↔ last.toNat + 1 < 2 ^ 64 ∨ x.toNat + 1 = 2 ^ 64 := by
  have hx := x.toNat_lt
  have hl := last.toNat_lt
  rw [UInt64.le_iff_toNat_le] at h ⊢
  simp only [UInt64.toNat_add, UInt64.toNat_one]
  omega

section

variable {A : LowerSet World} {w t : World} {p : Progress} {m : Manifest} {v : VersionSet}
  {steps : List Step} {mem : MemTable}

/-- **The last sequence number** is the greatest among that of the manifest and the header
ends. -/
theorem Recovery.le_lastSequence_iff (h : Recovery c A w {} t p m v steps mem) {x : UInt64} :
    x ≤ v.lastSequence ↔ x ≤ m.lastSequence ∨
      ∃ record ∈ insertedRecords steps, x ≤ LevelDb.lastSequence c.X.coding ⟨record⟩ := by
  obtain ⟨save, hlogs⟩ := h.logs
  have hmax : x ≤ p.maxSequence ↔ x ≤ 0 ∨
      ∃ record ∈ insertedRecords steps, x ≤ LevelDb.lastSequence c.X.coding ⟨record⟩ := by
    rw [hlogs.replays.maxSequence]
    exact le_foldl_raise
  have hmax' : x ≤ v.lastSequence ↔ x ≤ m.lastSequence ∨ x ≤ p.maxSequence := by
    rw [h.lastSequence]
    split_ifs with h <;>
      simp only [UInt64.le_iff_toNat_le, UInt64.lt_iff_toNat_lt] at h ⊢ <;> omega
  rw [hmax', hmax, ← or_assoc]
  refine or_congr_left (or_iff_left_of_imp fun h => ?_)
  simp only [UInt64.le_iff_toNat_le, UInt64.toNat_zero] at h ⊢
  omega

/-- It is the last 64-bit number only where one of them is. -/
theorem Recovery.lastSequence_lt_iff (h : Recovery c A w {} t p m v steps mem) :
    v.lastSequence.toNat + 1 < 2 ^ 64 ↔ m.lastSequence.toNat + 1 < 2 ^ 64 ∧
      ∀ record ∈ insertedRecords steps,
        (LevelDb.lastSequence c.X.coding ⟨record⟩).toNat + 1 < 2 ^ 64 := by
  have htop : ∀ x : UInt64, UInt64.ofNat (2 ^ 64 - 1) ≤ x ↔ ¬x.toNat + 1 < 2 ^ 64 := by
    intro x
    have hx := x.toNat_lt
    rw [UInt64.le_iff_toNat_le, show (UInt64.ofNat (2 ^ 64 - 1)).toNat = 2 ^ 64 - 1 by decide]
    omega
  have hnot := not_congr (h.le_lastSequence_iff (x := UInt64.ofNat (2 ^ 64 - 1)))
  simpa only [htop, not_not, not_or, not_exists, not_and] using hnot

end

/-- **Recovery resumes past every number it has inserted** exactly when no header
wraps around and the headers cover the operations – or when there is nothing to
resume past. -/
theorem recover_sequence_iff (hX : c.X.Lawful) {d : Disk} {m : Manifest} {p : Progress} {t : World}
    (hm : d.manifest = some m)
    (hfinal : ((recover c {} false).run (.initial d)).final = t)
    (hok : ((recover c {} false).run (.initial d)).result = some (.ok, p)) :
    ((∀ e ∈ recordEntries c.X.coding (insertedRecords (trail t.calls)),
        e.sequence < t.impl.versions.lastSequence + 1) ∧
      m.lastSequence + 1 ≤ t.impl.versions.lastSequence + 1) ↔
    (m.lastSequence.toNat + 1 < 2 ^ 64 ∧
      (∀ record ∈ insertedRecords (trail t.calls),
        (lastSequence c.X.coding ⟨record⟩).toNat + 1 < 2 ^ 64) ∧
      ∀ e ∈ recordEntries c.X.coding (insertedRecords (trail t.calls)),
        e.sequence ≤ m.lastSequence ∨ ∃ record ∈ insertedRecords (trail t.calls),
          e.sequence ≤ lastSequence c.X.coding ⟨record⟩) ∨
    (m.lastSequence.toNat + 1 = 2 ^ 64 ∧
      recordEntries c.X.coding (insertedRecords (trail t.calls)) = []) := by
  subst hfinal
  obtain ⟨-, hrec⟩ := (recover_sat (A := ⊤) hX).result hok LowerSet.mem_top
  obtain ⟨m', v, steps, mem, hrec⟩ := hrec rfl
  obtain rfl : m = m' := Option.some.inj (hm.symm.trans hrec.manifest)
  obtain ⟨save, hlogs⟩ := hrec.logs
  have hsteps : trail ((recover c {} false).run (.initial d)).final.calls = steps :=
    hlogs.replays.trail
  rw [hsteps, hlogs.versions]
  have hself : m.lastSequence ≤ v.lastSequence :=
    hrec.le_lastSequence_iff.mpr (Or.inl (UInt64.le_refl _))
  have hversions : ((World.initial d).loaded v).impl.versions = v := rfl
  rw [hversions, next_le_next_iff hself]
  have hwrap := hrec.lastSequence_lt_iff
  simp only [lt_next_iff, hrec.le_lastSequence_iff]
  -- whether the last number is the last 64-bit number
  by_cases hv : v.lastSequence.toNat + 1 < 2 ^ 64
  · obtain ⟨hm1, hr1⟩ := hwrap.mp hv
    constructor
    · exact fun h => Or.inl ⟨hm1, hr1, fun e he => (h.1 e he).1⟩
    · rintro (⟨-, -, h⟩ | ⟨h, -⟩)
      · exact ⟨fun e he => ⟨h e he, hv⟩, Or.inl hv⟩
      · omega
  · constructor
    · rintro ⟨h, h' | h'⟩
      · exact absurd h' hv
      · exact Or.inr ⟨h', List.eq_nil_iff_forall_not_mem.mpr fun e he => hv (h e he).2⟩
    · rintro (⟨hm1, hr1, -⟩ | ⟨h, hnil⟩)
      · exact absurd (hwrap.mpr ⟨hm1, hr1⟩) hv
      · rw [hnil]
        exact ⟨fun e he => absurd he List.not_mem_nil, Or.inr h⟩

/-- A well-counted batch is resumed past. -/
theorem recover_sequence_iff_putAB : ∃ (p : Progress) (t : World),
    ((recover (healthy {}) {} false).run (.initial (oneLog [putAB.rep]))).final = t ∧
      ((recover (healthy {}) {} false).run (.initial (oneLog [putAB.rep]))).result =
        some (.ok, p) ∧
      (∀ e ∈ recordEntries leveldbCoding (insertedRecords (trail t.calls)),
        e.sequence < t.impl.versions.lastSequence + 1) ∧
      0 + 1 ≤ t.impl.versions.lastSequence + 1 := by
  obtain ⟨p, hok⟩ : ∃ p, ((recover (healthy {}) {} false).run
      (.initial (oneLog [putAB.rep]))).result = some (.ok, p) := ⟨_, rfl⟩
  refine ⟨p, _, rfl, hok, ?_⟩
  exact (recover_sequence_iff documented_lawful (m := ⟨1, 0, 0, 0, []⟩) rfl rfl hok).mpr
    (Or.inl (by decide))

/-- A batch with a put that its header does not count. -/
def uncounted : Bytes := [5, 0, 0, 0, 0, 0, 0, 0, 0, 0, 0, 0, 1, 1, 97, 1, 98]

/-- **The next write gets the number of a recovered one.** -/
theorem uncounted_hides_write : ∃ (p : Progress) (t : World),
    ((recover (healthy {}) {} false).run (.initial (oneLog [uncounted]))).final = t ∧
      ((recover (healthy {}) {} false).run (.initial (oneLog [uncounted]))).result =
        some (.ok, p) ∧
      t.disk.contents p.edit.newFiles = [⟨5, .kTypeValue, [97], [98]⟩] ∧
      ¬∀ e ∈ t.disk.contents p.edit.newFiles,
        e.sequence < t.impl.versions.lastSequence + 1 :=
  ⟨_, _, rfl, rfl, by decide, by decide⟩

end LevelDb
