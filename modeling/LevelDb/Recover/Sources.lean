import LevelDb.Recover

/-!
# Where the entries of a table have come from

Equal entries may be in two logs. To say that the entries of a log were moved into a table,
one has to know which log an entry was inserted from. The calls tell: `RecoverLogFile` starts
without a memtable, inserts the records of its log, and builds each table from the memtable
that it has by then (`LevelDb.sources`).

Where recovery returns OK, the tables that were finished are those of the edit, all of them at
level 0, and with the memtable they have the entries of all records inserted, each from the log
that it was read from (`LevelDb.Traced`).
-/

namespace LevelDb

open CrashLogic

/-! ### Sources -/

/-- **Where the entries have come from** that are in the memtable at hand, and in each table:
every entry with the log that it was inserted from. -/
structure Sources where
  mem : List (ℕ × Entry) := []
  tables : List (ℕ × List (ℕ × Entry)) := []
  deriving DecidableEq, Repr

/-- The entries of a record of a log. -/
def sourced (C : Coding) (log : ℕ) (record : Bytes) : List (ℕ × Entry) :=
  (WriteBatch.entries C ⟨record⟩).map (Prod.mk log)

/-- What a call changes. -/
def Sources.next (C : Coding) (s : Sources) : Call × Answer → Sources
  -- `RecoverLogFile` starts without a memtable
  | (.newSequentialFile _, _) => { s with mem := [] }
  | (.insertInto log record, _) => { s with mem := s.mem ++ sourced C log record }
  -- a memtable that has become a table is dropped
  | (.finishTable n, _) => { mem := [], tables := s.tables ++ [(n, s.mem)] }
  | _ => s

/-- The sources, as the calls tell. -/
def sources (C : Coding) (calls : List (Call × Answer)) : Sources := calls.foldl (Sources.next C) {}

/-- The entries of the records inserted, each with its log. -/
def origins (C : Coding) (steps : List Step) : List (ℕ × Entry) :=
  steps.flatMap fun
    | .inserted log record => sourced C log record
    | .opened _ _ => []

/-- The call says nothing about sources. -/
def Call.unsourced : Call → Bool
  | newSequentialFile _ => false
  | insertInto _ _ => false
  | finishTable _ => false
  | _ => true

section

variable {C : Coding} {calls : List (Call × Answer)} {what : Call} {a : Answer}
  {steps steps' : List Step} {w : World} {d : Disk} {log n : ℕ} {record : Bytes} {e : Entry}

@[simp] theorem sources_concat (x : Call × Answer) :
    sources C (calls ++ [x]) = (sources C calls).next C x := by
  simp [sources, List.foldl_append]

theorem sources_unsourced (h : what.unsourced) :
    sources C (w.after what a d).calls = sources C w.calls := by
  rw [World.after_calls, sources_concat]
  cases what <;> simp_all [Call.unsourced, Sources.next]

@[simp] theorem origins_append :
    origins C (steps ++ steps') = origins C steps ++ origins C steps' := by
  simp [origins]

@[simp] theorem origins_opened (log : ℕ) (ok : Bool) : origins C [.opened log ok] = [] := rfl

@[simp] theorem origins_inserted : origins C [.inserted log record] = sourced C log record := by
  simp [origins]

@[simp] theorem map_snd_sourced :
    (sourced C log record).map Prod.snd = WriteBatch.entries C ⟨record⟩ := by
  simp [sourced]

/-- **An entry has come from a log** where a record of it was inserted that has the entry. -/
theorem mem_origins : (log, e) ∈ origins C steps ↔
    ∃ record, .inserted log record ∈ steps ∧ e ∈ WriteBatch.entries C ⟨record⟩ := by
  rw [origins, List.mem_flatMap]
  constructor
  · rintro ⟨step, hstep, he⟩
    cases step with
    | opened => exact absurd he List.not_mem_nil
    | inserted log' record =>
      obtain ⟨e', he', heq⟩ := List.mem_map.mp he
      obtain ⟨rfl, rfl⟩ := Prod.mk.inj heq
      exact ⟨record, hstep, he'⟩
  · rintro ⟨record, hstep, he⟩
    exact ⟨_, hstep, List.mem_map.mpr ⟨e, he, rfl⟩⟩

end

/-! ### The invariant -/

/-- **Everything is accounted for**: the memtable at hand, the tables of the edit, which are at
level 0, and with both all the records that were inserted. -/
structure Traced (C : Coding) (edit : VersionEdit) (mem : MemTable) (t : World) : Prop where
  mem : (sources C t.calls).mem.map Prod.snd = mem
  tables : (sources C t.calls).tables.map Prod.fst = edit.newNumbers
  origins : (sources C t.calls).tables.flatMap Prod.snd ++ (sources C t.calls).mem =
    origins C (trail t.calls)
  level : ∀ f ∈ edit.newFiles, f.1 = 0

section

variable {C : Coding} {c : Context} {A : LowerSet World} {w t u : World} {edit : VersionEdit}
  {mem : MemTable} {s : Status} {what : Call} {a : Answer} {log : ℕ} {record : Bytes}
  {iter : Iterator} {fname : Bytes} {file : FileMetaData}

/-- Nothing has happened that says anything about sources. -/
theorem Traced.congr (h : Traced C edit mem w)
    (hsources : sources C t.calls = sources C w.calls) (htrail : trail t.calls = trail w.calls) :
    Traced C edit mem t where
  mem := by rw [hsources]; exact h.mem
  tables := by rw [hsources]; exact h.tables
  origins := by rw [hsources, htrail]; exact h.origins
  level := h.level

/-- A log is opened while there is no memtable. -/
theorem Traced.opened (h : Traced C edit [] w) :
    Traced C edit [] (w.after (.newSequentialFile log) a w.disk) := by
  have hnil := List.map_eq_nil_iff.mp h.mem
  refine ⟨?_, ?_, ?_, h.level⟩
  · simp [Sources.next]
  · simpa [Sources.next] using h.tables
  · have horigins := h.origins
    rw [hnil] at horigins
    simpa [Sources.next] using horigins

/-- A record is inserted. -/
theorem Traced.inserted (h : Traced C edit mem w) :
    Traced C edit (mem ++ WriteBatch.entries C ⟨record⟩)
      (w.after (.insertInto log record) a w.disk) := by
  refine ⟨?_, ?_, ?_, h.level⟩
  · simp [Sources.next, h.mem]
  · simpa [Sources.next] using h.tables
  · simp [Sources.next, ← h.origins]

/-- **The memtable has become a table** of the edit. -/
theorem Traced.finished (h : Traced C edit mem w) (htrail : trail t.calls = trail w.calls)
    (hsources : sources C t.calls =
      ⟨[], (sources C w.calls).tables ++ [(file.number, (sources C w.calls).mem)]⟩) :
    Traced C (edit.addFile 0 file) [] t := by
  refine ⟨by rw [hsources]; rfl, ?_, ?_, fun f hf => ?_⟩
  · rw [hsources, List.map_append, h.tables]
    simp [VersionEdit.newNumbers, VersionEdit.addFile]
  · rw [hsources, htrail, ← h.origins]
    simp
  · rcases List.mem_append.mp hf with hf | hf
    · exact h.level f hf
    · rw [List.mem_singleton.mp hf]

/-! ### Building tables -/

theorem call_keeps {effect : Answer → Disk → Disk} (h : what.unsourced) :
    Keeps (fun w => sources C w.calls) (call c what effect) :=
  keeps_step fun _ => sources_unsourced h

theorem modifyImpl_keeps {f : DBImpl → DBImpl} :
    Keeps (fun w => sources C w.calls) (modifyImpl f) :=
  keeps_modify fun _ => rfl

theorem thenCall_keeps {effect : Answer → Disk → Disk} (h : what.unsourced) :
    Keeps (fun w => sources C w.calls) (thenCall c s what effect) :=
  .ite (fun _ => .bind (call_keeps h) fun _ => keeps_pure _) fun _ => keeps_pure _

theorem deleteFile_keeps : Keeps (fun w => sources C w.calls) (deleteFile c fname) :=
  .bind (call_keeps rfl) fun _ => keeps_pure _

theorem buildTableEnd_keeps :
    Keeps (fun w => sources C w.calls) (buildTableEnd c iter fname s file) := by
  rw [buildTableEnd]
  exact .ite (fun _ => keeps_pure _) fun _ => .bind deleteFile_keeps fun _ => keeps_pure _

theorem buildTableFinished_keeps :
    Keeps (fun w => sources C w.calls) (buildTableFinished c iter fname a file) := by
  rw [buildTableFinished]
  refine .ite (fun _ => .bind (keeps_assert _) fun _ => ?_) fun _ => buildTableEnd_keeps
  exact .bind (thenCall_keeps rfl) fun _ => .bind (thenCall_keeps rfl) fun _ =>
    .bind (thenCall_keeps rfl) fun _ => buildTableEnd_keeps

theorem buildTableEnd_sat_ok :
    Sat A (buildTableEnd c iter fname s file) w (fun _ => True) fun r _ =>
      r.2 = file ∧ (r.1.isOk → s.isOk) := by
  rw [buildTableEnd]
  have hok : (if iter.status.isOk then s else iter.status).isOk → s.isOk := by
    split_ifs with hiter
    · exact id
    · exact fun h => absurd h hiter
  by_cases hkeep : ((if iter.status.isOk then s else iter.status).isOk &&
      decide (0 < file.fileSize)) = true
  · rw [if_pos hkeep]
    exact sat_pure.mpr fun _ => ⟨rfl, hok⟩
  · rw [if_neg hkeep]
    exact Sat.skip fun _ _ => sat_pure.mpr fun _ => ⟨rfl, hok⟩

/-- A table that could not be finished is not built; one that could is not empty. -/
theorem buildTableFinished_sat_ok :
    Sat A (buildTableFinished c iter fname a file) w (fun _ => True) fun r _ =>
      r.2.number = file.number ∧ (r.1.isOk → 0 < r.2.fileSize) := by
  rw [buildTableFinished]
  split_ifs with ha
  · refine Sat.assert (fun _ => trivial) fun hpos => ?_
    -- `Sync`, `Close`, and reading the table back
    refine Sat.skip fun _ _ => Sat.skip fun _ _ => Sat.skip fun _ _ => ?_
    refine buildTableEnd_sat_ok.mono (fun _ _ _ h => h) ?_
    rintro ⟨s, f⟩ t - - ⟨rfl, -⟩
    exact ⟨rfl, fun _ => of_decide_eq_true hpos⟩
  · refine buildTableEnd_sat_ok.mono (fun _ _ _ h => h) ?_
    rintro ⟨s, f⟩ t - - ⟨rfl, hok⟩
    exact ⟨rfl, fun h => absurd (hok h) ha⟩

/-- **`BuildTable`** turns what is at hand into its table, unless there is nothing. -/
theorem buildTable_sources :
    Sat A (buildTable c iter file) w (fun _ => True) fun r t => r.2.number = file.number ∧
      (r.1.isOk → (iter.entries = [] ∧ r.2.fileSize = 0 ∧
          sources C t.calls = sources C w.calls) ∨
        (0 < r.2.fileSize ∧ sources C t.calls =
          ⟨[], (sources C w.calls).tables ++ [(file.number, (sources C w.calls).mem)]⟩)) := by
  rw [buildTable]
  refine Sat.assert (fun _ => trivial) fun _ => ?_
  split_ifs with hempty
  · refine (buildTableEnd_sat_ok.keeps (buildTableEnd_keeps (C := C))).mono (fun _ _ _ h => h) ?_
    rintro ⟨s, f⟩ t - - ⟨⟨rfl, -⟩, hsources⟩
    exact ⟨rfl, fun _ => Or.inl ⟨List.isEmpty_iff.mp hempty, rfl, hsources⟩⟩
  · rw [sat_bind]
    refine sat_call (fun _ => trivial) fun a _ => ?_
    have hcreated : sources C (w.after (.newWritableFile .kTableFile file.number) a
        (if a.status.isOk then
          (w.disk.create (tableFileName [] file.number)).setTable file.number []
          else w.disk)).calls = sources C w.calls := sources_unsourced rfl
    split_ifs at hcreated ⊢ with ha
    · rw [sat_bind]
      refine sat_call (fun _ => trivial) fun b _ =>
        (buildTableFinished_sat_ok.keeps (buildTableFinished_keeps (C := C))).mono
          (fun _ _ _ h => h) ?_
      rintro ⟨s, f⟩ t - - ⟨⟨hnumber, hpos⟩, hsources⟩
      refine ⟨hnumber, fun hs => Or.inr ⟨hpos hs, ?_⟩⟩
      rw [hsources, World.after_calls, sources_concat, hcreated]
      rfl
    · exact sat_pure.mpr fun _ => ⟨rfl, fun hs => absurd hs ha⟩

/-- What a flush to level 0 that succeeds does: nothing for an empty memtable, and otherwise
it adds the table that it builds. -/
theorem writeLevel10Table_sources (hX : c.X.Lawful) :
    Sat A (writeLevel10Table c mem edit false) w (fun _ => True) fun r t => r.1.isOk →
      (mem = [] ∧ r.2 = edit ∧ sources C t.calls = sources C w.calls) ∨
        ∃ file, r.2 = edit.addFile 0 file ∧ sources C t.calls =
          ⟨[], (sources C w.calls).tables ++ [(file.number, (sources C w.calls).mem)]⟩ := by
  have hperm : (c.X.newIterator mem).entries.Perm mem := hX.newIterator_perm mem
  rw [writeLevel10Table, sat_bind, newFileNumber, sat_bind]
  refine sat_call (fun _ => trivial) fun a _ => ?_
  rw [sat_pure, sat_bind, sat_modifyImpl]
  intro _ _
  have hnumber : sources C (w.after .newFileNumber a w.disk).calls = sources C w.calls :=
    sources_unsourced rfl
  refine (buildTable_sources (C := C)).seq (fun _ _ _ h => h) ?_
  rintro ⟨s, file⟩ t - - ⟨hfile, hbuilt⟩
  rw [hnumber, ← hfile] at hbuilt
  rw [sat_bind, sat_modifyImpl]
  intro _
  by_cases hkeep : (s.isOk && decide (0 < file.fileSize)) = true
  · rw [if_pos hkeep, if_neg (by simp)]
    obtain ⟨hs, hpos⟩ := Bool.and_eq_true_iff.mp hkeep
    refine sat_pure.mpr fun _ _ => Or.inr ⟨file, rfl, ?_⟩
    rcases hbuilt hs with ⟨-, hzero, -⟩ | ⟨-, hsources⟩
    · exact absurd hzero (of_decide_eq_true hpos).ne'
    · exact hsources
  · rw [if_neg hkeep]
    refine sat_pure.mpr fun _ hs => Or.inl ?_
    rcases hbuilt hs with ⟨hempty, -, hsources⟩ | ⟨hpos, -⟩
    · exact ⟨List.nil_perm.mp (hempty ▸ hperm), rfl, hsources⟩
    · exact absurd (by simp [show s.isOk = true from hs, hpos]) hkeep

/-- **Flushing the memtable at hand** to level 0: what `writeLevel10Table_sat` says of any
flush, and that the entries are still accounted for. -/
theorem writeLevel10Table_traced (hX : c.X.Lawful) :
    Sat A (writeLevel10Table c mem edit false) w (Frame c.X.logging w) fun r t =>
      Quietly c.X.logging w t ∧ ∃ files, r.2 = edit.addFiles files ∧
        FreshTables c.X.logging w t files ∧ (r.1.isOk → (t.disk.contents files).Perm mem ∧
          (Traced c.X.coding edit mem w → Traced c.X.coding r.2 [] t)) := by
  refine ((writeLevel10Table_sat hX).inter (writeLevel10Table_sources (C := c.X.coding) hX)).mono
    (fun _ _ _ h => h.1) ?_
  rintro ⟨s, edit'⟩ t - - ⟨⟨hquiet, files, hedit, hfresh, hperm⟩, hcases⟩
  refine ⟨hquiet, files, hedit, hfresh, fun hs => ⟨hperm hs, fun hw => ?_⟩⟩
  rcases hcases hs with ⟨rfl, rfl, hsources⟩ | ⟨file, rfl, hsources⟩
  · exact hw.congr hsources hquiet.trail
  · exact hw.finished hquiet.trail hsources

end

end LevelDb
