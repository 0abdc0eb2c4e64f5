import LevelDb.Frame

/-!
# Building a table

`BuildTable` of `db/builder.cpp`, and `DBImpl::WriteLevel10Table`, which gives a
memtable a fresh number, builds its table and adds the file to an edit.

What the callers need is in two statements. Wherever `BuildTable` is stopped it has
touched its own table only; and where it returns OK with a positive size, the table
exists and holds what the iterator went over (`LevelDb.buildTable_sat`). Flushing a
memtable that way adds at most one file to the edit, and the files added hold
exactly the memtable (`LevelDb.writeLevel10Table_sat`).
-/

namespace LevelDb

open CrashLogic

variable (c : Context)

/-! ### The code -/

/-- The end of `BuildTable`: the error of the input iterator overrides, and the file
is kept or deleted. -/
def buildTableEnd (iter : Iterator) (fname : Bytes) (s : Status) (file : FileMetaData) :
    Prog (Status × FileMetaData) := do
  let s := if iter.status.isOk then s else iter.status
  if s.isOk && 0 < file.fileSize then
    pure (s, file)
  else do
    deleteFile c fname
    pure (s, file)

/-- The part of `BuildTable` behind `builder->Finish`. -/
def buildTableFinished (iter : Iterator) (fname : Bytes) (a : Answer) (file : FileMetaData) :
    Prog (Status × FileMetaData) :=
  if a.status.isOk then do
    let file := { file with fileSize := a.size }
    Proc.assert (0 < file.fileSize)
    let s ← thenCall c .ok (.syncTable file.number)
    let s ← thenCall c s (.closeTable file.number)
    let s ← thenCall c s (.verifyTable file.number)
    buildTableEnd c iter fname s file
  else buildTableEnd c iter fname a.status file

/-- `BuildTable`: the status, and `*meta` as it leaves it. Where the file cannot be
created it returns at once, past the deletion. -/
def buildTable (iter : Iterator) (file : FileMetaData) : Prog (Status × FileMetaData) := do
  let file := { file with fileSize := 0 }
  -- the assertion of `TableFileName`
  Proc.assert (0 < file.number)
  let fname := tableFileName [] file.number
  if iter.entries.isEmpty then
    buildTableEnd c iter fname .ok file
  else do
    let a ← call c (.newWritableFile .kTableFile file.number) fun a d =>
      if a.status.isOk then (d.create fname).setTable file.number [] else d
    if a.status.isOk then do
      let file := { file with
        smallest := iter.entries.head?.map Entry.internalKey
        largest := iter.entries.getLast?.map Entry.internalKey }
      let a ← call c (.finishTable file.number) fun a d =>
        if a.status.isOk then d.setTable file.number iter.entries else d
      buildTableFinished c iter fname a file
    else pure (a.status, file)

/-- `DBImpl::WriteLevel10Table`, which its callers name `WriteLevel0Table`: the
status, and the edit. Its iterator is the one over `mem`. -/
def writeLevel10Table (mem : MemTable) (edit : VersionEdit) (base : Bool) :
    Prog (Status × VersionEdit) := do
  let number ← newFileNumber c
  modifyImpl fun i => { i with pendingOutputs := number :: i.pendingOutputs }
  let (s, file) ← buildTable c (c.X.newIterator mem) { number := number }
  modifyImpl fun i => { i with pendingOutputs := i.pendingOutputs.filter (· ≠ file.number) }
  if s.isOk && 0 < file.fileSize then do
    if base then do
      let a ← call c .pickLevelForMemTableOutput
      pure (s, edit.addFile a.level file)
    else pure (s, edit.addFile 0 file)
  else pure (s, edit)

/-! ### What building a table does -/

section

variable {c} {A : LowerSet World} {w₀ w : World} {impl : DBImpl} {calls : List (Call × Answer)}
  {iter : Iterator} {file : FileMetaData}

/-- The file is the table of these entries. -/
def Disk.HasTable (L : Logging) (d : Disk) (file : FileMetaData) (entries : List Entry) : Prop :=
  d.Has L .kTableFile file.number ∧ d.table file.number = entries

/-- What `BuildTable` leaves when it returns OK: no file for an empty iterator, and
otherwise the table of its entries. -/
def Built (L : Logging) (d : Disk) (iter : Iterator) (file : FileMetaData) : Prop :=
  (file.fileSize = 0 ∧ iter.entries = []) ∨ (0 < file.fileSize ∧ d.HasTable L file iter.entries)

/-- While the table of `file` is being finished, it holds the entries. -/
structure Finishing (L : Logging) (w₀ : World) (impl : DBImpl) (calls : List (Call × Answer))
    (entries : List Entry) (file : FileMetaData) (t : World) : Prop where
  untouched : Untouched L w₀ impl calls t
  newly : file.number ∈ newly w₀ t
  table : t.disk.HasTable L file entries

/-- The calls that finish the file leave its table alone. -/
theorem Finishing.after {L : Logging} {entries : List Entry} {what : Call} {a : Answer}
    (h : Finishing L w₀ impl calls entries file w) (hq : what.quiet) :
    Finishing L w₀ impl calls entries file (w.after what a w.disk) where
  untouched := h.untouched.after hq (.refl _ _)
  newly := by
    rw [newly_after h.untouched.frame.le hq]
    exact h.newly
  table := h.table

theorem thenCall_finishing {s : Status} {what : Call} (hq : what.quiet)
    (hw : Finishing c.X.logging w₀ impl calls iter.entries file w) :
    Sat A (thenCall c s what) w (Untouched c.X.logging w₀ impl calls) fun _ t =>
      Finishing c.X.logging w₀ impl calls iter.entries file t :=
  sat_thenCall (fun _ => hw.untouched) (fun _ _ => hw) fun _ _ _ => hw.after hq

/-- Deleting the table of a number that was taken. -/
theorem deleteFile_sat (hL : c.X.logging.Lawful) {n : ℕ} (hlt : n < 2 ^ 64)
    (hw : Untouched c.X.logging w₀ impl calls w) (hn : n ∈ newly w₀ w) :
    Sat A (deleteFile c (tableFileName [] n)) w (Untouched c.X.logging w₀ impl calls)
      fun _ t => Untouched c.X.logging w₀ impl calls t := by
  rw [deleteFile, sat_bind]
  refine sat_call (fun _ => hw) fun a _ => sat_pure.mpr fun _ => hw.after rfl ?_
  split_ifs
  · exact .delete hL hlt hn
  · exact .refl _ _

/-- What `BuildTable` promises: it touches nothing but its table, and where it
returns OK it leaves what it should. -/
def BuildPost (L : Logging) (w₀ : World) (impl : DBImpl) (calls : List (Call × Answer))
    (iter : Iterator) (n : ℕ) (r : Status × FileMetaData) (t : World) : Prop :=
  Untouched L w₀ impl calls t ∧ r.2.number = n ∧ (r.1.isOk → Built L t.disk iter r.2)

theorem buildTableEnd_sat (file : FileMetaData) (hL : c.X.logging.Lawful)
    (hlt : file.number < 2 ^ 64) (hw : Untouched c.X.logging w₀ impl calls w)
    (hn : file.number ∈ newly w₀ w) {s : Status}
    (hs : s.isOk → Built c.X.logging w.disk iter file) :
    Sat A (buildTableEnd c iter (tableFileName [] file.number) s file) w
      (Untouched c.X.logging w₀ impl calls)
      (BuildPost c.X.logging w₀ impl calls iter file.number) := by
  rw [buildTableEnd]
  generalize hs' : (if iter.status.isOk then s else iter.status) = s'
  have hbuilt : s'.isOk → Built c.X.logging w.disk iter file := by
    rw [← hs']
    split_ifs with h
    · exact hs
    · exact fun h' => absurd h' h
  by_cases hkeep : s'.isOk && decide (0 < file.fileSize)
  · rw [if_pos hkeep]
    exact sat_pure.mpr fun _ => ⟨hw, rfl, hbuilt⟩
  · rw [if_neg hkeep]
    refine (deleteFile_sat hL hlt hw hn).seq (fun _ _ _ h => h) fun _ t _ _ ht => ?_
    refine sat_pure.mpr fun _ => ⟨ht, rfl, fun hok => ?_⟩
    -- an OK status comes here with an empty iterator: nothing is lost
    rcases hbuilt hok with hempty | ⟨hpos, -⟩
    · exact Or.inl hempty
    · exact absurd (by simpa [hpos] using hok) hkeep

theorem buildTableFinished_sat (file : FileMetaData) (hL : c.X.logging.Lawful)
    (hlt : file.number < 2 ^ 64) (hw : Untouched c.X.logging w₀ impl calls w)
    (hn : file.number ∈ newly w₀ w) {a : Answer}
    (ha : a.status.isOk → w.disk.HasTable c.X.logging file iter.entries) :
    Sat A (buildTableFinished c iter (tableFileName [] file.number) a file) w
      (Untouched c.X.logging w₀ impl calls)
      (BuildPost c.X.logging w₀ impl calls iter file.number) := by
  rw [buildTableFinished]
  split_ifs with hok
  · refine Sat.assert (fun _ => hw) fun hpos => ?_
    have hw : Finishing c.X.logging w₀ impl calls iter.entries
        { file with fileSize := a.size } w := ⟨hw, hn, ha hok⟩
    refine (thenCall_finishing rfl hw).seq (fun _ _ _ h => h) fun _ _ _ _ hw => ?_
    refine (thenCall_finishing rfl hw).seq (fun _ _ _ h => h) fun _ _ _ _ hw => ?_
    refine (thenCall_finishing rfl hw).seq (fun _ _ _ h => h) fun _ t _ _ hw => ?_
    exact buildTableEnd_sat { file with fileSize := a.size } hL hlt hw.untouched
      hw.newly fun _ => Or.inr ⟨of_decide_eq_true hpos, hw.table⟩
  · exact buildTableEnd_sat file hL hlt hw hn fun h => absurd h hok

/-- **`BuildTable`** touches nothing but its own table, and returns OK either with
that table or with nothing to build. -/
theorem buildTable_sat (file : FileMetaData) (hL : c.X.logging.Lawful) (hlt : file.number < 2 ^ 64)
    (hw : Untouched c.X.logging w₀ impl calls w) (hn : file.number ∈ newly w₀ w) :
    Sat A (buildTable c iter file) w (Untouched c.X.logging w₀ impl calls)
      (BuildPost c.X.logging w₀ impl calls iter file.number) := by
  rw [buildTable]
  refine Sat.assert (fun _ => hw) fun _ => ?_
  have hq : (Call.newWritableFile .kTableFile file.number).quiet = true := rfl
  split_ifs with hempty
  · refine buildTableEnd_sat { file with fileSize := 0 } hL hlt hw hn fun _ =>
      Or.inl ⟨rfl, ?_⟩
    simpa using hempty
  · rw [sat_bind]
    refine sat_call (fun _ => hw) fun a _ => ?_
    split_ifs with hok
    · have hw1 := hw.after (a := a) hq
        ((Disk.Off.create hL hlt hn).trans (.setTable hn [] : Disk.Off c.X.logging _ _ _))
      rw [← newly_after hw.frame.le hq] at hn
      rw [sat_bind]
      refine sat_call (fun _ => hw1) fun b _ => ?_
      refine buildTableFinished_sat { file with
        fileSize := 0
        smallest := iter.entries.head?.map Entry.internalKey
        largest := iter.entries.getLast?.map Entry.internalKey } hL hlt (hw1.after rfl ?_) ?_ ?_
      · split_ifs
        · exact .setTable hn _
        · exact .refl _ _
      · rwa [newly_after hw1.frame.le rfl]
      · intro hb
        rw [World.after_disk, if_pos hb]
        refine ⟨?_, Function.update_self _ _ _⟩
        exact Disk.has_create.mpr (Or.inr (parseFileName_tableFileName hL hlt))
    · exact sat_pure.mpr fun _ => ⟨hw.after hq (.refl _ _), rfl, fun h => absurd h hok⟩

/-! ### What a flush does -/

/-- The edit with more files. -/
def VersionEdit.addFiles (edit : VersionEdit) (files : List (ℕ × FileMetaData)) : VersionEdit :=
  { edit with newFiles := edit.newFiles ++ files }

@[simp] theorem VersionEdit.addFiles_nil (edit : VersionEdit) : edit.addFiles [] = edit := by
  simp [addFiles]

@[simp] theorem VersionEdit.addFiles_addFiles (edit : VersionEdit)
    (files files' : List (ℕ × FileMetaData)) :
    (edit.addFiles files).addFiles files' = edit.addFiles (files ++ files') := by
  simp [addFiles]

/-- The entries that a disk holds in the tables of these files. -/
def Disk.contents (d : Disk) (files : List (ℕ × FileMetaData)) : List Entry :=
  files.flatMap fun f => d.table f.2.number

@[simp] theorem Disk.contents_nil (d : Disk) : d.contents [] = [] := rfl

@[simp] theorem Disk.contents_append (d : Disk) (files files' : List (ℕ × FileMetaData)) :
    d.contents (files ++ files') = d.contents files ++ d.contents files' := by
  simp [contents]

/-- Nothing but tables under fresh numbers, and the set of pending outputs. -/
structure Quietly (L : Logging) (w t : World) : Prop where
  frame : Frame L w t
  impl : ∃ pending, t.impl = { w.impl with pendingOutputs := pending }
  trail : trail t.calls = trail w.calls
  marks : marks t.calls = marks w.calls

theorem Quietly.after {L : Logging} {t : World} (h : Quietly L w t) {what : Call} {a : Answer}
    (hq : what.quiet) : Quietly L w (t.after what a t.disk) where
  frame := h.frame.after what a
  impl := h.impl
  trail := by rw [World.after_calls, trail_append, trail_quiet hq, List.append_nil, h.trail]
  marks := by rw [World.after_calls, marks_append, marks_quiet hq, List.append_nil, h.marks]

/-- The files are tables under numbers taken since `w`. -/
def FreshTables (L : Logging) (w t : World) (files : List (ℕ × FileMetaData)) : Prop :=
  ∀ f ∈ files, f.2.number ∈ newly w t ∧ t.disk.Has L .kTableFile f.2.number

/-- **Flushing a memtable** is quiet, and adds to the edit tables that hold exactly
the memtable where it returns OK. -/
theorem writeLevel10Table_sat (hX : c.X.Lawful) {mem : MemTable} {edit : VersionEdit}
    {base : Bool} :
    Sat A (writeLevel10Table c mem edit base) w (Frame c.X.logging w) fun r t =>
      Quietly c.X.logging w t ∧ ∃ files, r.2 = edit.addFiles files ∧
        FreshTables c.X.logging w t files ∧ (r.1.isOk → (t.disk.contents files).Perm mem) := by
  rw [writeLevel10Table, sat_bind, newFileNumber, sat_bind]
  refine sat_call (fun _ => Frame.refl w) fun a _ => ?_
  rw [sat_pure, sat_bind, sat_modifyImpl]
  intro _ _
  generalize ht : ({ (w.after .newFileNumber a w.disk) with impl := _ } : World) = t
  have hu : Untouched c.X.logging w t.impl t.calls t :=
    ⟨ht ▸ ((Frame.refl w).after .newFileNumber a).modify _, rfl, rfl, rfl⟩
  have hn : a.number.toNat ∈ newly w t := by
    subst ht
    simp [newly]
  have himpl : ∃ pending, t.impl = { w.impl with pendingOutputs := pending } := by
    subst ht
    exact ⟨_, rfl⟩
  have htrail : trail t.calls = trail w.calls := by
    subst ht
    simp
  have hmarks : marks t.calls = marks w.calls := by
    subst ht
    simp
  refine (buildTable_sat { number := a.number.toNat } hX.logging
    (UInt64.toNat_lt a.number) hu hn).seq (fun _ _ _ h => h.frame) ?_
  have hwt : w ≤ t := hu.frame.le
  rintro ⟨s, file⟩ u htu _ ⟨hu, hnum, hbuilt⟩
  obtain ⟨pending, hpending⟩ := himpl
  have hquiet : ∀ p, Quietly c.X.logging w { u with impl := { u.impl with pendingOutputs := p } } :=
    fun p => ⟨hu.frame.modify _, ⟨p, by rw [hu.impl, hpending]⟩, hu.trail.trans htrail,
      hu.marks.trans hmarks⟩
  rw [sat_bind, sat_modifyImpl]
  intro _
  have hperm : (c.X.newIterator mem).entries.Perm mem := hX.newIterator_perm mem
  -- a file that was kept is one fresh table with the entries of the memtable
  have hadd : ∀ {v : World} (level : ℕ), v.disk = u.disk → newly w v = newly w u →
      s.isOk && decide (0 < file.fileSize) → FreshTables c.X.logging w v [(level, file)] ∧
        (v.disk.contents [(level, file)]).Perm mem := by
    intro v level hd hnew hkeep
    obtain ⟨hok, hpos⟩ := Bool.and_eq_true_iff.mp hkeep
    rcases hbuilt hok with ⟨h0, -⟩ | ⟨-, htable⟩
    · exact absurd h0 (Nat.ne_of_gt (of_decide_eq_true hpos))
    · refine ⟨fun f hf => ?_, ?_⟩
      · obtain rfl := List.mem_singleton.mp hf
        rw [hnew, hd]
        have hnum : file.number = a.number.toNat := hnum
        refine ⟨?_, htable.1⟩
        rw [newly_trans hwt htu]
        exact Or.inl (by rw [hnum]; exact hn)
      · simpa [Disk.contents, hd, htable.2] using hperm
  split_ifs with hkeep hbase
  · rw [sat_bind]
    refine sat_call (fun _ => (hquiet _).frame) fun b _ => sat_pure.mpr fun _ => ?_
    have hq : Call.pickLevelForMemTableOutput.quiet = true := rfl
    obtain ⟨hfresh, hmem⟩ := hadd (v := World.after _ _ b _) b.level rfl
      (newly_after (hquiet _).frame.le hq) hkeep
    exact ⟨(hquiet _).after hq, _, rfl, hfresh, fun _ => hmem⟩
  · obtain ⟨hfresh, hmem⟩ := hadd 0 rfl rfl hkeep
    exact sat_pure.mpr fun _ => ⟨hquiet _, _, rfl, hfresh, fun _ => hmem⟩
  · refine sat_pure.mpr fun _ => ⟨hquiet _, [], by simp, by simp [FreshTables], fun hok => ?_⟩
    rcases hbuilt hok with ⟨-, hempty⟩ | ⟨hpos, -⟩
    · rw [hempty] at hperm
      simpa using hperm
    · exact absurd (by simpa [hpos] using hok) hkeep

end

end LevelDb
