import LevelDb.Open

/-!
# The current log after an open

Whether the manifest and the writer agree on the current log once `DB::Open` has
returned OK. They do where the last log was taken over: `RecoverLogFile` sets
`logfile_number_` together with the log. Where a new log was created they do not:
`DB::Open` leaves `logfile_number_` at `0`, and saves that number
(`LevelDb.dbOpen_currentLog_iff`).

A log is replayed by a later open where the manifest selects it
(`LevelDb.recover_opened_iff`). It must not be where it was obsolete before, or where
entries that were inserted from it have been moved into a table (`LevelDb.Stale`); another
log may have equal entries, and is not stale for that. After an open that saved the log
number `0`, every log that still exists is replayed again.
-/

namespace LevelDb

open CrashLogic

/-! ### The statement -/

/-- The log exists and the manifest selects it. -/
def Disk.Selected (L : Logging) (d : Disk) (log : ℕ) : Prop :=
  ∃ m, d.manifest = some m ∧ m.Selects log ∧ d.Has L .kLogFile log

/-- The memtable and the log of the database object are there, its `logfile_number_` is
that of the log it writes to, and the edit that was saved, if any, says so. -/
structure Agreed (t : World) : Prop where
  mem : t.impl.mem.isSome
  log : t.impl.log.map LogWriter.number = some t.impl.logfileNumber
  logfile : t.impl.logfile = some t.impl.logfileNumber
  saved : ∀ edit, .saved edit ∈ marks t.calls →
    edit.logNumber = some t.impl.logfileNumber ∧ edit.prevLogNumber = some 0

/-- The log exists and the manifest does not select it. -/
def Disk.Obsolete (L : Logging) (d : Disk) (log : ℕ) : Prop :=
  ∃ m, d.manifest = some m ∧ ¬m.Selects log ∧ d.Has L .kLogFile log

/-- **Entries of the log were moved** into a table of the edit: one that was inserted from
this log was in the memtable that became the table, and the tables have it. -/
def Moved (C : Coding) (t : World) (edit : VersionEdit) (log : ℕ) : Prop :=
  ∃ f ∈ edit.newFiles, ∃ es, (f.2.number, es) ∈ (sources C t.calls).tables ∧
    ∃ e, (log, e) ∈ es ∧ e ∈ t.disk.contents edit.newFiles

/-- **The log is stale** after `d` was opened: it was obsolete before, or entries of it have
been moved into a table. -/
def Stale (X : Externals) (d : Disk) (t : World) (log : ℕ) : Prop :=
  d.Obsolete X.logging log ∨ ∃ edit, .saved edit ∈ marks t.calls ∧ Moved X.coding t edit log

/-- **The manifest and the writer agree on the current log** after `d` was opened, and no
stale log is left to be replayed. -/
structure CurrentLog (X : Externals) (d : Disk) (t : World) : Prop where
  agreed : Agreed t
  stale : ∀ log, Stale X d t log → ¬t.disk.Selected X.logging log

section

variable {c : Context} {A : LowerSet World} {w t u : World} {d : Disk} {m : Manifest} {s : Status}
  {v : VersionSet} {edit : VersionEdit} {p : Progress} {n : ℕ} {steps : List Step}

/-! ### What a later open replays -/

theorem exists_opened_segment (d : Disk) (ok : Bool) {x log : ℕ} :
    (∃ b, Step.opened x b ∈ segment d log ok) ↔ x = log := by
  constructor
  · rintro ⟨b, hb⟩
    rcases List.mem_cons.mp hb with hb | hb
    · exact (Step.opened.inj hb).1
    · rcases ok with _ | _
      · exact absurd hb List.not_mem_nil
      · obtain ⟨_, _, h⟩ := List.mem_map.mp hb
        exact Step.noConfusion h
  · rintro rfl
    exact ⟨ok, List.mem_cons_self⟩

/-- The logs opened are those recovered. -/
theorem exists_opened_iff {logs : List ℕ} (h : Codec.Concat (IsSegment d) steps logs) :
    (∃ b, Step.opened n b ∈ steps) ↔ n ∈ logs := by
  induction h with
  | nil => simp
  | @cons seg log steps logs hseg _ ih =>
    obtain ⟨ok, rfl⟩ := hseg
    rw [List.mem_cons, ← ih, ← exists_opened_segment d ok, ← exists_or]
    exact exists_congr fun b => List.mem_append

/-- **A later recovery opens exactly the selected logs.** -/
theorem recover_opened_iff (hX : c.X.Lawful)
    (hfinal : ((recover c {} false).run (.initial d)).final = t)
    (hok : ((recover c {} false).run (.initial d)).result = some (.ok, p)) :
    (∃ b, Step.opened n b ∈ trail t.calls) ↔ d.Selected c.X.logging n := by
  subst hfinal
  obtain ⟨-, hrec⟩ := (@recover_sat c ⊤ (.initial d) {} hX false).result hok trivial
  obtain ⟨m, v, steps, mem, hrec⟩ := hrec rfl
  obtain ⟨save, hlogs⟩ := hrec.logs
  have hm : d.manifest = some m := hrec.manifest
  rw [hlogs.replays.trail]
  refine (exists_opened_iff hlogs.segments).trans (mem_sortedLogs.trans ⟨?_, ?_⟩)
  · exact fun ⟨hhas, hsel⟩ => ⟨m, hm, hsel, hhas⟩
  · rintro ⟨m', hm', hsel, hhas⟩
    obtain rfl : m = m' := Option.some.inj (hm.symm.trans hm')
    exact ⟨hhas, hsel⟩

/-! ### What a successful open leaves -/

/-- Where the status stays OK, the edit was saved, or did not have to be. -/
theorem saveManifest_sat {save : Bool} (hm : s.isOk → ∃ m, w.disk.manifest = some m) :
    Sat A (saveManifest c s save edit) w (fun _ => True) fun s' t => s'.isOk →
      s.isOk ∧ ((save = false ∧ t = w) ∨ ∃ m, w.disk.manifest = some m ∧
        Saved m ((edit.setPrevLogNumber 0).setLogNumber w.impl.logfileNumber) w t) := by
  rw [saveManifest, sat_bind, sat_get]
  intro _
  split_ifs with hsave
  · obtain ⟨hs, -⟩ := Bool.and_eq_true_iff.mp hsave
    obtain ⟨m, hm⟩ := hm hs
    refine logAndApply_sat hm (fun _ => trivial) ?_ ?_ ?_
    · exact fun a ha _ h => absurd h (by simp [ha])
    · exact fun a ha _ h => absurd h (by simp [ha])
    · exact fun t _ _ ht _ _ _ => ⟨hs, Or.inr ⟨m, hm, ht⟩⟩
  · refine sat_pure.mpr fun _ hs => ⟨hs, Or.inl ⟨?_, rfl⟩⟩
    simpa [show s.isOk = true from hs] using hsave

/-- Once the logs are recovered, no call says anything about sources. -/
theorem saveManifest_keeps {C : Coding} {save : Bool} :
    Keeps (fun w => sources C w.calls) (saveManifest c s save edit) := by
  rw [saveManifest]
  refine .bind keeps_get fun w => .ite (fun _ => ?_) fun _ => keeps_pure _
  refine .bind keeps_get fun w => .bind (call_keeps rfl) fun a => ?_
  exact .ite (fun _ => .bind modifyImpl_keeps fun _ => keeps_pure _) fun _ => keeps_pure _

theorem deleteFiles_keeps {C : Coding} {live : List ℕ} (filenames : List Bytes) :
    Keeps (fun w => sources C w.calls) (deleteFiles c v live filenames) := by
  induction filenames with
  | nil => exact keeps_pure _
  | cons name filenames ih =>
    rw [deleteFiles]
    split
    · exact .ite (fun _ => ih) fun _ => .bind deleteFile_keeps fun _ => ih
    · exact ih

theorem deleteObsoleteFiles_keeps {C : Coding} :
    Keeps (fun w => sources C w.calls) (deleteObsoleteFiles c) := by
  rw [deleteObsoleteFiles]
  refine .bind keeps_get fun w => .ite (fun _ => ?_) fun _ => keeps_pure _
  refine .bind (.bind keeps_get fun _ => .bind (call_keeps rfl) fun _ => keeps_pure _) fun _ => ?_
  exact deleteFiles_keeps _

/-- Where the status is OK, obsolete files have been deleted, and background work may
have been scheduled. -/
theorem finishOpen_sat
    (hs : s.isOk → ∀ m, w.disk.manifest = some m →
      w.impl.versions.manifestFileNumber ≤ m.number) :
    Sat A (finishOpen c s) w (fun _ => True) fun s' t => s'.isOk → s.isOk ∧ ∃ u,
      Collected c.X.logging w.impl.versions (w.impl.pendingOutputs ++ w.impl.versions.live) w u ∧
        Idle u t ∧ (∃ b, t.impl = { w.impl with bgCompactionScheduled := b }) ∧
          sources c.X.coding t.calls = sources c.X.coding w.calls := by
  rw [finishOpen]
  split_ifs with hok
  · refine ((deleteObsoleteFiles_sat (hs hok)).keeps
      (deleteObsoleteFiles_keeps (C := c.X.coding))).andThen ?_
    rintro - u - - ⟨hu, hsources⟩
    refine maybeScheduleCompaction_sat.andThen fun _ t _ _ hsched => ?_
    obtain ⟨ht, b, hb⟩ := hsched
    rw [sat_bind, sat_get]
    intro _
    refine Sat.assert (fun _ => trivial) fun _ => sat_pure.mpr fun _ _ =>
      ⟨hok, u, hu, ht, ⟨b, ?_⟩, (ht.sources _).trans hsources⟩
    rw [hb, hu.impl]
  · refine Sat.skip fun _ _ => ?_
    exact sat_pure.mpr fun _ h => absurd h hok

/-- A new log was created, and the log number left as it was. -/
def Created (t : World) : Prop :=
  ∃ n, 0 < n ∧ t.impl.logfile = some n ∧ t.impl.logfileNumber = 0 ∧ ∀ k, .reopened k ∉ marks t.calls

/-- The edit of an open that has taken the log `n` over was saved as `m'`: it names this log,
and adds the tables with the records before it. -/
structure Resaved (X : Externals) (d : Disk) (t : World) (n : ℕ) (before : List Step)
    (edit : VersionEdit) (m' : Manifest) : Prop where
  manifest : t.disk.manifest = some m'
  logNumber : edit.logNumber = some n
  prevLogNumber : edit.prevLogNumber = some 0
  selects : ∀ x, m'.Selects x ↔ n ≤ x ∨ x = 0
  kept : ∀ x, m'.Selects x → d.Has X.logging .kLogFile x → t.disk.Has X.logging .kLogFile x
  tables : (sources X.coding t.calls).tables.map Prod.fst = edit.newNumbers
  contents : (t.disk.contents edit.newFiles).Perm
    (recordEntries X.coding (insertedRecords before))

/-- **The last log was taken over.** The records before it have gone into tables, and only
these. -/
structure TakenOver (X : Externals) (d : Disk) (t : World) (m : Manifest) (n : ℕ)
    (before : List Step) : Prop where
  manifest : d.manifest = some m
  selected : m.Selects n ∧ d.Has X.logging .kLogFile n
  last : ∀ x, m.Selects x → d.Has X.logging .kLogFile x → 0 < x ∧ x ≤ n
  trail : trail t.calls = before ++ segment d n true
  moved : (sources X.coding t.calls).tables.flatMap Prod.snd = origins X.coding before
  mem : t.impl.mem.isSome
  log : t.impl.log.map LogWriter.number = some n
  logfile : t.impl.logfile = some n
  logfileNumber : t.impl.logfileNumber = n
  has_of : ∀ x, t.disk.Has X.logging .kLogFile x → d.Has X.logging .kLogFile x
  saved : (marks t.calls = [.reopened n] ∧ t.disk.manifest = some m) ∨
    ∃ edit m', marks t.calls = [.reopened n, .saved edit] ∧ Resaved X d t n before edit m'

/-- In a sorted list nothing is greater than the last element. -/
theorem le_of_mem_sortedLogs {L : Logging} {minLog prevLog x : ℕ} {names : List Bytes}
    {init : List ℕ} (h : sortedLogs L minLog prevLog names = init ++ [n])
    (hx : x ∈ sortedLogs L minLog prevLog names) : x ≤ n := by
  have hsorted : (sortedLogs L minLog prevLog names).Pairwise (· ≤ ·) :=
    List.pairwise_insertionSort (· ≤ ·) _
  rw [h] at hsorted hx
  rcases List.mem_append.mp hx with hx | hx
  · exact (List.pairwise_append.mp hsorted).2.2 x hx n (List.mem_singleton.mpr rfl)
  · exact (List.mem_singleton.mp hx).le

/-- **After recovery** either no log was handed over, or the last one was. -/
theorem Recovery.takenOver {mem : MemTable}
    (h : Recovery c A (.initial d) {} t p m v steps mem) (hA : Distinct A) :
    (t.impl.mem = none ∧ marks t.calls = []) ∨ ∃ n before, TakenOver c.X d t m n before ∧
      marks t.calls = [.reopened n] ∧ t.disk.manifest = some m ∧
      (sources c.X.coding t.calls).tables.map Prod.fst = p.edit.newNumbers ∧
      (t.disk.contents p.edit.newFiles).Perm
        (recordEntries c.X.coding (insertedRecords before)) := by
  obtain ⟨save, hlogs⟩ := h.logs
  have hm : d.manifest = some m := h.manifest
  have hmt : t.disk.manifest = some m := hlogs.replays.frame.off.manifest.trans hm
  rcases hlogs.ending with ⟨hstill, -⟩ | ⟨init, n, before, hinit, hsteps, -, -, hhand, -, hmem⟩
  · obtain ⟨_, hi⟩ := hstill.impl
    refine Or.inl ⟨by rw [hi]; rfl, hstill.marks⟩
  obtain ⟨_, size, hi⟩ := hhand.impl
  have hmarks : marks t.calls = [.reopened n] := hhand.marks
  have hn : n ∈ sortedLogs c.X.logging m.logNumber m.prevLogNumber d.children := by
    rw [show sortedLogs _ _ _ d.children = init ++ [n] from hinit]
    exact List.mem_append_right _ (List.mem_singleton.mpr rfl)
  obtain ⟨hhas, hsel⟩ := mem_sortedLogs.mp hn
  have htrail : trail t.calls = before ++ segment d n true :=
    hlogs.replays.trail.trans (by rw [hsteps]; rfl)
  have htraced := h.traced
  refine Or.inr ⟨n, before, ⟨hm, ⟨hsel, hhas⟩, fun x hx hhas => ?_, htrail, ?_, ?_, ?_, ?_, ?_, ?_,
    Or.inl ⟨hmarks, hmt⟩⟩, hmarks, hmt, htraced.tables, ?_⟩
  · have hx : x ∈ sortedLogs c.X.logging m.logNumber m.prevLogNumber d.children :=
      mem_sortedLogs.mpr ⟨hhas, hx⟩
    exact ⟨hlogs.pos x hx, le_of_mem_sortedLogs hinit hx⟩
  · -- the memtable at hand has the entries of the last log, and the tables those before
    have horigins := htraced.origins
    rw [htrail, origins_append] at horigins
    refine (List.append_inj' horigins ?_).1
    have hlength : ∀ es : List (ℕ × Entry), es.length = (es.map Prod.snd).length := fun _ =>
      (List.length_map _).symm
    rw [hlength, htraced.mem, hmem, hlength (origins _ _), map_snd_origins,
      insertedRecords_segment]
    rfl
  · rw [hi]
    rfl
  · rw [hi]
    rfl
  · rw [hi]
  · rw [hi]
  · exact fun x => hlogs.replays.frame.has_log.mp
  · obtain ⟨files, hedit, -, -, hperm⟩ := hlogs.replays.received
    obtain ⟨-, hperm⟩ := hperm hA
    have hfiles : p.edit.newFiles = files := by
      rw [hedit]
      rfl
    -- the memtable handed over holds the records of the last log
    rw [hsteps, insertedRecords_append, insertedRecords_segment, recordEntries_append,
      List.nil_append, hmem] at hperm
    rw [hfiles]
    exact (List.perm_append_right_iff _).mp hperm

/-- What happens to a database that has taken a log over without touching its memtable,
its logs or its trail. -/
theorem TakenOver.next {before : List Step} (h : TakenOver c.X d t m n before)
    (htrail : LevelDb.trail u.calls = LevelDb.trail t.calls)
    (hsources : sources c.X.coding u.calls = sources c.X.coding t.calls)
    (himpl : ∃ b v, u.impl = { t.impl with bgCompactionScheduled := b, versions := v })
    (hhas : ∀ x, u.disk.Has c.X.logging .kLogFile x → t.disk.Has c.X.logging .kLogFile x)
    (hsaved : (marks u.calls = [.reopened n] ∧ u.disk.manifest = some m) ∨
      ∃ edit m', marks u.calls = [.reopened n, .saved edit] ∧
        Resaved c.X d u n before edit m') : TakenOver c.X d u m n before := by
  obtain ⟨b, v, hi⟩ := himpl
  refine ⟨h.manifest, h.selected, h.last, htrail.trans h.trail, by rw [hsources, h.moved], ?_, ?_,
    ?_, ?_, fun x hx => h.has_of x (hhas x hx), hsaved⟩
  · rw [hi]
    exact h.mem
  · rw [hi]
    exact h.log
  · rw [hi]
    exact h.logfile
  · rw [hi]
    exact h.logfileNumber

/-- What saving the manifest and finishing the open have left of the fields that the
current log is about. -/
structure Finished (c : Context) (edit : VersionEdit) (save : Bool) (w t : World) : Prop where
  impl : ∃ b v, t.impl = { w.impl with bgCompactionScheduled := b, versions := v }
  trail : trail t.calls = trail w.calls
  sources : sources c.X.coding t.calls = sources c.X.coding w.calls
  has_of : ∀ x, t.disk.Has c.X.logging .kLogFile x → w.disk.Has c.X.logging .kLogFile x
  saved : (save = false ∧ marks t.calls = marks w.calls ∧ t.disk.manifest = w.disk.manifest) ∨
    ∃ m', marks t.calls = marks w.calls ++ [.saved edit] ∧ t.disk.manifest = some m' ∧
      m'.logNumber = edit.logNumber.getD w.impl.versions.logNumber ∧
      m'.prevLogNumber = edit.prevLogNumber.getD w.impl.versions.prevLogNumber ∧
      (∀ x, m'.Selects x → w.disk.Has c.X.logging .kLogFile x →
        t.disk.Has c.X.logging .kLogFile x) ∧
      t.disk.contents edit.newFiles = w.disk.contents edit.newFiles

/-- Finishing an open whose edit did not have to be saved. -/
theorem Finished.unsaved {v : VersionSet} {live : List ℕ} {b : Bool}
    (hcol : Collected c.X.logging v live w u) (hidle : Idle u t)
    (hi : t.impl = { w.impl with bgCompactionScheduled := b })
    (hsources : LevelDb.sources c.X.coding t.calls = LevelDb.sources c.X.coding w.calls) :
    Finished c edit false w t where
  impl := ⟨b, w.impl.versions, hi⟩
  trail := hidle.trail.trans hcol.trail
  sources := hsources
  has_of x hx := hcol.has_of _ x (hidle.disk ▸ hx)
  saved := Or.inl ⟨rfl, hidle.marks.trans hcol.marks, by rw [hidle.disk, hcol.spares.manifest]⟩

/-- Finishing an open whose edit was saved: the logs that the new manifest selects are
kept, and so are the tables of the edit. -/
theorem Finished.of_saved {w' : World} {save b : Bool} (h : Saved m edit w w')
    (hcol : Collected c.X.logging w'.impl.versions
      (w'.impl.pendingOutputs ++ w'.impl.versions.live) w' u) (hidle : Idle u t)
    (hi : t.impl = { w'.impl with bgCompactionScheduled := b })
    (hsources : LevelDb.sources c.X.coding t.calls = LevelDb.sources c.X.coding w.calls) :
    Finished c edit save w t where
  impl := ⟨b, w'.impl.versions, by rw [hi, h.impl]⟩
  trail := hidle.trail.trans (hcol.trail.trans h.trail)
  sources := hsources
  has_of x hx := by
    have hx := hcol.has_of _ x (hidle.disk ▸ hx)
    rw [h.disk] at hx
    exact Disk.has_log_of_committed hx
  saved := by
    refine Or.inr ⟨m.apply w.impl.versions edit, ?_, ?_, rfl, rfl, fun x hsel hhas => ?_, ?_⟩
    · rw [hidle.marks, hcol.marks, h.marks]
    · rw [hidle.disk, hcol.spares.manifest, h.disk]
      rfl
    · rw [hidle.disk, hcol.spares.has]
      · rw [h.disk]
        exact Disk.has_committed hhas
      · rw [h.impl]
        refine Bool.or_eq_true_iff.mpr (hsel.imp (fun h => decide_eq_true h) fun h => ?_)
        exact beq_iff_eq.mpr h
    · refine List.flatMap_congr fun f hf => ?_
      rw [hidle.disk, hcol.spares.table, h.disk]
      · rfl
      · rw [Kept, keep, decide_eq_true_eq, h.impl]
        refine List.mem_append_right _ (List.mem_append_right _ ?_)
        exact List.mem_map.mpr ⟨f, hf, rfl⟩

/-- What creating the log leaves of a recovery: the manifest, and the version set that was
loaded from it. -/
theorem Recovery.loaded {mem : MemTable} (h : Recovery c A (.initial d) {} t p m v steps mem)
    (hmanifest : u.disk.manifest = t.disk.manifest)
    (himpl : u.impl.versions = t.impl.versions) :
    u.disk.manifest = some m ∧ u.impl.versions = v := by
  obtain ⟨_, hlogs⟩ := h.logs
  exact ⟨hmanifest.trans (hlogs.replays.frame.off.manifest.trans h.manifest),
    himpl.trans h.versions⟩

/-- **An open that goes on with a memtable** has taken the last log over. -/
theorem Recovery.finished_takenOver {mem : MemTable}
    (h : Recovery c A (.initial d) {} t p m v steps mem) (hA : Distinct A)
    (hmem : t.impl.mem.isSome)
    (hfin : Finished c ((p.edit.setPrevLogNumber 0).setLogNumber t.impl.logfileNumber)
      p.saveManifest t u) : ∃ n before, TakenOver c.X d u m n before := by
  rcases h.takenOver hA with ⟨hnone, -⟩ | ⟨n, before, htaken, hmt, hmd, htables, hperm⟩
  · rw [hnone] at hmem
    exact absurd hmem (by simp)
  refine ⟨n, before, htaken.next hfin.trail hfin.sources hfin.impl hfin.has_of ?_⟩
  rcases hfin.saved with ⟨-, hmk, hdisk⟩ | ⟨m', hmk, hdisk, hlogn, hprev, hhas, hcont⟩
  · exact Or.inl ⟨hmk.trans hmt, hdisk.trans hmd⟩
  · refine Or.inr ⟨_, m', hmk.trans (by rw [hmt]; rfl), hdisk, ?_, rfl, fun x => ?_,
      fun x hx hd => hhas x hx ?_, by rw [hfin.sources]; exact htables, ?_⟩
    · exact congrArg some htaken.logfileNumber
    · rw [Manifest.Selects, hlogn, hprev]
      simp [VersionEdit.setLogNumber, VersionEdit.setPrevLogNumber, htaken.logfileNumber]
    · obtain ⟨_, hlogs⟩ := h.logs
      exact hlogs.replays.frame.has_log.mpr hd
    · rw [hcont]
      exact hperm

/-- **An open that goes on without one** has created a log. -/
theorem Recovery.finished_created {mem : MemTable} {save : Bool}
    (h : Recovery c A (.initial d) {} t p m v steps mem) (hA : Distinct A)
    (hmem : t.impl.mem = none) (hlog : CreatedLog c.X.logging t w n)
    (hmarks : marks w.calls = marks t.calls) (hfin : Finished c edit save w u) : Created u := by
  have hnil : marks w.calls = [] := by
    rcases h.takenOver hA with ⟨-, hnil⟩ | ⟨_, _, htaken, -⟩
    · rw [hmarks, hnil]
    · have hsome := htaken.mem
      rw [hmem] at hsome
      exact absurd hsome (by simp)
  obtain ⟨_, _, hi⟩ := hfin.impl
  refine ⟨n, hlog.pos, ?_, ?_, fun k hk => ?_⟩
  · rw [hi, hlog.impl]
  · rw [hi, hlog.impl]
    exact h.logfileNumber hmem
  · rcases hfin.saved with ⟨-, hmk, -⟩ | ⟨m', hmk, -⟩
    · rw [hmk, hnil] at hk
      exact absurd hk List.not_mem_nil
    · rw [hmk, hnil] at hk
      exact absurd (List.mem_singleton.mp hk) (by simp)

/-- **A successful open** has created a new log, or taken the last one over. -/
theorem dbOpen_sat (hX : c.X.Lawful) (hA : Distinct A) :
    Sat A (dbOpen c) (.initial d) (fun _ => True) fun s t => s.isOk →
      Created t ∨ ∃ m n before, TakenOver c.X d t m n before := by
  rw [dbOpen]
  refine (recover_sat hX).andThen ?_
  rintro ⟨s, p⟩ t - - ⟨-, hrec⟩
  refine (createLog_sat hX.logging).andThen ?_
  rintro ⟨s₁, edit⟩ u - - ⟨-, hsp, -, hmarks, hok⟩
  have hloaded : s₁.isOk → ∃ m v steps mem,
      Recovery c A (.initial d) {} t p m v steps mem ∧ u.disk.manifest = some m ∧
        u.impl.versions = v := by
    intro hs₁
    obtain ⟨hs, hcases⟩ := hok hs₁
    obtain ⟨m, v, steps, mem, hrec⟩ := hrec hs
    refine ⟨m, v, steps, mem, hrec, hrec.loaded hsp.manifest ?_⟩
    rcases hcases with ⟨-, rfl, -⟩ | ⟨-, n, -, hlog⟩
    · rfl
    · rw [hlog.impl]
  refine ((saveManifest_sat fun hs₁ => ?_).keeps
    (saveManifest_keeps (C := c.X.coding))).andThen fun s₂ u' _ _ hkept => ?_
  · obtain ⟨m, _, _, _, -, hm, -⟩ := hloaded hs₁
    exact ⟨m, hm⟩
  obtain ⟨hsaved, hsrc⟩ := hkept
  refine (finishOpen_sat fun hs₂ m' hm' => ?_).mono (fun _ _ _ _ => trivial) ?_
  · obtain ⟨hs₁, hsaved⟩ := hsaved hs₂
    obtain ⟨m, v, steps, mem, hrec, hm, hv⟩ := hloaded hs₁
    rcases hsaved with ⟨hsave, rfl⟩ | ⟨m₀, -, hsaved⟩
    · obtain rfl : m = m' := Option.some.inj (hm.symm.trans hm')
      rw [hv]
      exact (hrec.agrees hsave).manifestFileNumber.le
    · rw [hsaved.disk] at hm'
      obtain rfl := Option.some.inj hm'
      rw [hsaved.impl]
      exact le_rfl
  intro s₃ t' _ _ hfin hs₃
  obtain ⟨hs₂, u'', hcol, hidle, ⟨b, hi⟩, hsources⟩ := hfin hs₃
  obtain ⟨hs₁, hsaved⟩ := hsaved hs₂
  obtain ⟨m, v, steps, mem, hrec, hm, -⟩ := hloaded hs₁
  have hfin : Finished c ((edit.setPrevLogNumber 0).setLogNumber u.impl.logfileNumber)
      p.saveManifest u t' := by
    rcases hsaved with ⟨hsave, rfl⟩ | ⟨m₀, -, hsaved⟩
    · rw [hsave]
      exact .unsaved hcol hidle hi hsources
    · exact .of_saved hsaved hcol hidle hi (hsources.trans hsrc)
  obtain ⟨-, ⟨hmem, rfl, rfl⟩ | ⟨hmem, n, -, hlog⟩⟩ := hok hs₁
  · exact Or.inr ⟨m, hrec.finished_takenOver hA hmem hfin⟩
  · exact Or.inl (hrec.finished_created hA hmem hlog hmarks hfin)

/-! ### When the manifest and the writer agree -/

/-- **The open resumes the last log**: it was reopened for appending, after the records
of the logs before it. Where an edit was saved, the obsolete logs are numbered below it
and not `0`, and no record of it that has entries was inserted before as well. -/
structure Resumes (X : Externals) (d : Disk) (t : World) (n : ℕ) (before : List Step) : Prop where
  reopened : .reopened n ∈ marks t.calls
  trail : trail t.calls = before ++ segment d n true
  obsolete : ∀ edit, .saved edit ∈ marks t.calls →
    ∀ x, d.Obsolete X.logging x → x < n ∧ x ≠ 0
  fresh : ∀ edit, .saved edit ∈ marks t.calls → ∀ record, .inserted n record ∈ before →
    WriteBatch.entries X.coding ⟨record⟩ = []

/-- A new log is not the one whose number was saved. -/
theorem Created.not_agreed (h : Created t) : ¬Agreed t := by
  obtain ⟨n, hpos, hlogfile, hnumber, -⟩ := h
  intro hagreed
  have := hagreed.logfile
  rw [hlogfile, hnumber] at this
  exact hpos.ne' (Option.some.inj this)

theorem TakenOver.agreed {before : List Step} {X : Externals} (h : TakenOver X d t m n before) :
    Agreed t := by
  refine ⟨h.mem, ?_, ?_, fun edit hedit => ?_⟩
  · rw [h.log, h.logfileNumber]
  · rw [h.logfile, h.logfileNumber]
  · rw [h.logfileNumber]
    rcases h.saved with ⟨hmk, -⟩ | ⟨edit', m', hmk, hre⟩
    · rw [hmk] at hedit
      simp at hedit
    · rw [hmk] at hedit
      obtain rfl : edit = edit' := by simpa using hedit
      exact ⟨hre.logNumber, hre.prevLogNumber⟩

/-- **The logs whose entries were moved** by an open that has taken a log over are those
from which a record with entries was inserted before. -/
theorem TakenOver.moved_iff {before : List Step} {X : Externals} {m' : Manifest} {log : ℕ}
    (h : TakenOver X d t m n before) (hre : Resaved X d t n before edit m') :
    Moved X.coding t edit log ↔
      ∃ record, .inserted log record ∈ before ∧ WriteBatch.entries X.coding ⟨record⟩ ≠ [] := by
  constructor
  · rintro ⟨f, -, es, hes, e, he, -⟩
    have horigin : (log, e) ∈ origins X.coding before := by
      rw [← h.moved]
      exact List.mem_flatMap.mpr ⟨_, hes, he⟩
    obtain ⟨record, hrecord, he⟩ := mem_origins.mp horigin
    exact ⟨record, hrecord, List.ne_nil_of_mem he⟩
  · rintro ⟨record, hrecord, hne⟩
    obtain ⟨e, he⟩ := List.exists_mem_of_ne_nil _ hne
    have horigin := mem_origins.mpr ⟨record, hrecord, he⟩
    have hcontents : e ∈ t.disk.contents edit.newFiles := by
      rw [hre.contents.mem_iff, ← map_snd_origins]
      exact List.mem_map.mpr ⟨_, horigin, rfl⟩
    rw [← h.moved] at horigin
    obtain ⟨⟨k, es⟩, hes, hin⟩ := List.mem_flatMap.mp horigin
    have hk : k ∈ edit.newNumbers := by
      rw [← hre.tables]
      exact List.mem_map.mpr ⟨_, hes, rfl⟩
    obtain ⟨f, hf, rfl⟩ := List.mem_map.mp hk
    exact ⟨f, hf, es, hes, e, hin, hcontents⟩

/-- Where an edit was saved, the log taken over is selected again, and so is every
obsolete one that is not numbered below it. -/
theorem TakenOver.resumes {before : List Step} {X : Externals} (h : TakenOver X d t m n before)
    (hcur : CurrentLog X d t) : Resumes X d t n before := by
  rcases h.saved with ⟨hmk, -⟩ | ⟨edit, m', hmk, hre⟩
  · have hnone : ∀ edit, .saved edit ∉ marks t.calls := fun edit he => by
      rw [hmk] at he
      simp at he
    exact ⟨by rw [hmk]; exact List.mem_singleton.mpr rfl, h.trail,
      fun edit he => absurd he (hnone edit), fun edit he => absurd he (hnone edit)⟩
  · have hselected : ∀ x, n ≤ x ∨ x = 0 → d.Has X.logging .kLogFile x →
        t.disk.Selected X.logging x := fun x hx hhas =>
      ⟨m', hre.manifest, (hre.selects x).mpr hx, hre.kept x ((hre.selects x).mpr hx) hhas⟩
    refine ⟨by rw [hmk]; exact List.mem_cons_self, h.trail, fun _ _ x hx => ?_,
      fun _ _ record hrecord => ?_⟩
    · obtain ⟨-, -, -, hhas⟩ := id hx
      have hnot := hcur.stale x (Or.inl hx)
      refine ⟨not_le.mp fun hle => ?_, fun h0 => ?_⟩
      · exact hnot (hselected x (Or.inl hle) hhas)
      · exact hnot (hselected x (Or.inr h0) hhas)
    · by_contra hne
      refine hcur.stale n (Or.inr ⟨edit, ?_, (h.moved_iff hre).mpr ⟨record, hrecord, hne⟩⟩)
        (hselected n (Or.inl le_rfl) h.selected.2)
      rw [hmk]
      simp

/-- Conversely, an open that resumes the last log leaves nothing stale selected. -/
theorem TakenOver.currentLog {before : List Step} {X : Externals} (h : TakenOver X d t m n before)
    (hres : Resumes X d t n before) : CurrentLog X d t := by
  refine ⟨h.agreed, fun x hstale => ?_⟩
  rintro ⟨m', hm', hx, hhas⟩
  have hhas := h.has_of x hhas
  rcases h.saved with ⟨hmk, hm⟩ | ⟨edit, m'', hmk, hre⟩
  · -- nothing was saved, so that nothing was moved, and the selection is what it was
    obtain rfl : m = m' := Option.some.inj (hm.symm.trans hm')
    rcases hstale with ⟨m₀, hm₀, hobs, -⟩ | ⟨edit, hedit, -⟩
    · obtain rfl : m = m₀ := Option.some.inj (h.manifest.symm.trans hm₀)
      exact hobs hx
    · rw [hmk] at hedit
      simp at hedit
  · obtain rfl : m'' = m' := Option.some.inj (hre.manifest.symm.trans hm')
    have hmem : .saved edit ∈ marks t.calls := by
      rw [hmk]
      simp
    have hlive : ¬d.Obsolete X.logging x := fun hobs => by
      obtain ⟨hlt, h0⟩ := hres.obsolete edit hmem x hobs
      exact ((hre.selects x).mp hx).elim (not_le.mpr hlt) h0
    have hmx : m.Selects x := by
      by_contra hmx
      exact hlive ⟨m, h.manifest, hmx, hhas⟩
    obtain ⟨hpos, hle⟩ := h.last x hmx hhas
    obtain rfl : x = n := le_antisymm hle (((hre.selects x).mp hx).resolve_right hpos.ne')
    rcases hstale with hobs | ⟨edit', hedit', hmoved⟩
    · exact hlive hobs
    · rw [hmk] at hedit'
      obtain rfl : edit' = edit := by simpa using hedit'
      obtain ⟨record, hrecord, hne⟩ := (h.moved_iff hre).mp hmoved
      exact hne (hres.fresh edit' hmem record hrecord)

/-- **The manifest and the writer agree on the current log** after a successful open, and
no stale log is left to be replayed, exactly where the open resumes the last log. -/
theorem dbOpen_currentLog_iff (hX : c.X.Lawful)
    (hfinal : ((dbOpen c).run (.initial d)).final = t)
    (hok : ((dbOpen c).run (.initial d)).result = some .ok) (htaken : (taken t.calls).Nodup) :
    CurrentLog c.X d t ↔ ∃ n before, Resumes c.X d t n before := by
  subst hfinal
  have hopened := (dbOpen_sat (A := distinctNumbers) hX distinct_distinctNumbers).result hok htaken
  rcases hopened rfl with hnew | ⟨m, n, before, h⟩
  · constructor
    · exact fun hcur => absurd hcur.agreed hnew.not_agreed
    · rintro ⟨n, before, hres⟩
      obtain ⟨-, -, -, -, hmk⟩ := hnew
      exact absurd hres.reopened (hmk n)
  · refine ⟨fun hcur => ⟨n, before, h.resumes hcur⟩, ?_⟩
    rintro ⟨n', before', hres⟩
    have hn : n' = n := by
      have hmem := hres.reopened
      rcases h.saved with ⟨hmk, -⟩ | ⟨_, _, hmk, -⟩ <;> rw [hmk] at hmem <;> simpa using hmem
    subst hn
    have hbefore : before' = before := List.append_cancel_right (hres.trail.symm.trans h.trail)
    exact h.currentLog (hbefore ▸ hres)

/-- Opening a database whose only log is taken over. -/
theorem dbOpen_currentLog_iff_reused :
    CurrentLog documented (oneLog [WriteBatch.putAB.rep])
      ((dbOpen (healthy { reuseLogs := true })).run
        (.initial (oneLog [WriteBatch.putAB.rep]))).final := by
  have hmarks : marks ((dbOpen (healthy { reuseLogs := true })).run
      (.initial (oneLog [WriteBatch.putAB.rep]))).final.calls = [.reopened 3] := by decide
  have hnone : ∀ edit, Mark.saved edit ∉ marks ((dbOpen (healthy { reuseLogs := true })).run
      (.initial (oneLog [WriteBatch.putAB.rep]))).final.calls := by
    rw [hmarks]
    simp
  refine (dbOpen_currentLog_iff (c := healthy { reuseLogs := true }) documented_lawful rfl rfl
    (by decide)).mpr ⟨3, [], ?_, by decide, fun edit he => absurd he (hnone edit),
      fun edit he => absurd he (hnone edit)⟩
  rw [hmarks]
  exact List.mem_singleton.mpr rfl

/-- Opening a database whose only log is not taken over: the new log is another one, but
`logfile_number_` and the log number saved are `0`, and the old log is selected once more
though its entry has gone into a table. -/
theorem newLog_not_currentLog : ∃ t,
    ((dbOpen (healthy {})).run (.initial (oneLog [WriteBatch.putAB.rep]))).final = t ∧
      ((dbOpen (healthy {})).run (.initial (oneLog [WriteBatch.putAB.rep]))).result = some .ok ∧
      t.impl.logfileNumber = 0 ∧ t.impl.logfile = some 24 ∧
      Stale documented (oneLog [WriteBatch.putAB.rep]) t 3 ∧ t.disk.Selected leveldbLogging 3 ∧
      ¬CurrentLog documented (oneLog [WriteBatch.putAB.rep]) t := by
  let key : InternalKey := ⟨[97], 7, .kTypeValue⟩
  let edit : VersionEdit := ⟨some 0, some 0, [(0, ⟨17, 1, some key, some key⟩)]⟩
  have hmarks : marks ((dbOpen (healthy {})).run
      (.initial (oneLog [WriteBatch.putAB.rep]))).final.calls = [.saved edit] := by decide
  have hstale : Stale documented (oneLog [WriteBatch.putAB.rep]) ((dbOpen (healthy {})).run
      (.initial (oneLog [WriteBatch.putAB.rep]))).final 3 := by
    refine Or.inr ⟨edit, ?_, _, List.mem_singleton.mpr rfl, _, List.mem_singleton.mpr rfl,
      ⟨7, .kTypeValue, [97], [98]⟩, by decide, by decide⟩
    rw [hmarks]
    exact List.mem_singleton.mpr rfl
  have hsel : ((dbOpen (healthy {})).run
      (.initial (oneLog [WriteBatch.putAB.rep]))).final.disk.Selected leveldbLogging 3 :=
    ⟨_, rfl, Or.inl (Nat.zero_le 3), logFileName [] 3, by decide, by decide⟩
  exact ⟨_, rfl, rfl, rfl, by decide, hstale, hsel, fun h => h.stale 3 hstale hsel⟩

end

end LevelDb
