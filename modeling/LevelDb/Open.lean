import LevelDb.Collect
import LevelDb.Recover.Recovery

/-!
# Opening a database

`DB::Open` of `db/dp_impl.cpp`: recover, create a new log where recovery has handed
none over, save the manifest where recovery asks for it, and delete what is obsolete.

Opening never loses data. Wherever it is stopped, and however its calls end, an entry
that was recoverable before is still recoverable (`LevelDb.dbOpen_recoverable`). The
one step that could lose something is the commit, because it may raise the log
number. It is harmless on both paths: a new log is committed under the log number
`0`, which keeps every log, and a reused log is committed only when the tables and
that log have everything (`LevelDb.Recovery.recoverable_commit`).
-/

namespace LevelDb

open CrashLogic Codec

variable (c : Context)

/-! ### The code -/

/-- Whether there is work to be done. -/
def workNeeded : Prog Bool := do
  let w ← Proc.get
  if w.impl.imm.isNone && !w.impl.manualCompaction then do
    let a ← call c .needsCompaction
    pure a.needsCompaction
  else pure true

/-- `DBImpl::MaybeScheduleCompaction`. -/
def maybeScheduleCompaction : Prog Unit := do
  let w ← Proc.get
  if w.impl.bgCompactionScheduled then pure ()
  else if w.impl.shuttingDown then pure ()
  else if !w.impl.bgError.isOk then pure ()
  else do
    let needed ← workNeeded c
    if needed then do
      modifyImpl fun i => { i with bgCompactionScheduled := true }
      let _ ← call c .schedule
      pure ()
    else pure ()

/-- "Create new log and a corresponding memtable": the status and the edit. -/
def createLog (s : Status) (edit : VersionEdit) : Prog (Status × VersionEdit) := do
  let w ← Proc.get
  if s.isOk && w.impl.mem.isNone then do
    let newLogNumber ← newFileNumber c
    -- the assertion of `LogFileName`
    Proc.assert (0 < newLogNumber)
    let a ← call c (.newWritableFile .kLogFile newLogNumber) fun a d =>
      if a.status.isOk then (d.create (logFileName [] newLogNumber)).clearLog newLogNumber else d
    if a.status.isOk then do
      modifyImpl fun i => { i with
        logfile := some newLogNumber
        log := some ⟨newLogNumber, 0⟩
        mem := some [] }
      pure (a.status, edit.setLogNumber newLogNumber)
    else pure (a.status, edit)
  else pure (s, edit)

/-- Save the manifest, if recovery asked for it. -/
def saveManifest (s : Status) (save : Bool) (edit : VersionEdit) : Prog Status := do
  let w ← Proc.get
  if s.isOk && save then
    logAndApply c ((edit.setPrevLogNumber 0).setLogNumber w.impl.logfileNumber)
  else pure s

/-- The destructor of a database that could not be opened: no background work is
scheduled yet, and the lock goes back. -/
def destroyDB : Prog Unit := do
  modifyImpl fun i => { i with shuttingDown := true }
  let w ← Proc.get
  if w.impl.dbLock then do
    let _ ← call c .unlockFile
    pure ()
  else pure ()

/-- The end of `DB::Open`. -/
def finishOpen (s : Status) : Prog Status :=
  if s.isOk then do
    deleteObsoleteFiles c
    maybeScheduleCompaction c
    let w ← Proc.get
    Proc.assert w.impl.mem.isSome
    pure s
  else do
    destroyDB c
    pure s

/-- `DB::Open`. The database object is the caller's where the status is OK. -/
def dbOpen : Prog Status := do
  let (s, p) ← recover c {} false
  let (s, edit) ← createLog c s p.edit
  let s ← saveManifest c s p.saveManifest edit
  finishOpen c s

/-! ### Commits -/

section

variable {c} {A : LowerSet World} {w t u : World} {d : Disk} {L : Logging} {X : Externals}
  {e : Entry} {m : Manifest} {v : VersionSet} {edit : VersionEdit}

/-- The disk after the version set committed an edit. -/
def Disk.committed (d : Disk) (m : Manifest) (v : VersionSet) (edit : VersionEdit) : Disk :=
  (d.create ((descriptorFileName [] v.manifestFileNumber).drop 1)).commit (m.apply v edit)

/-- A commit creates files only. -/
theorem Disk.has_committed {type : FileType} {n : ℕ} (h : d.Has L type n) :
    (d.committed m v edit).Has L type n :=
  has_create.mpr (Or.inl (has_create.mpr (Or.inl h)))

/-- A commit creates no log. -/
theorem Disk.has_log_of_committed {n : ℕ} (h : (d.committed m v edit).Has L .kLogFile n) :
    d.Has L .kLogFile n := by
  rcases has_create.mp h with h | h
  · refine (has_create.mp h).resolve_right fun h => ?_
    exact parseFileName_manifest_ne (padded 6 v.manifestFileNumber) n h
  · rw [parseFileName_current] at h
    simp at h

/-- The version set has committed the edit to the manifest, and has it as well. -/
structure Saved (m : Manifest) (edit : VersionEdit) (w t : World) : Prop where
  disk : t.disk = w.disk.committed m w.impl.versions edit
  impl : t.impl = { w.impl with versions := w.impl.versions.apply edit }
  trail : trail t.calls = trail w.calls
  marks : marks t.calls = marks w.calls ++ [.saved edit]

/-- **`LogAndApply`** commits the edit or does not; it does where it returns OK, and the
version set then has the edit as well. -/
theorem logAndApply_sat {I : World → Prop} {Q : Status → World → Prop}
    (hm : w.disk.manifest = some m) (hI : w ∈ A → I w)
    (hfail : ∀ a : Answer, a.status.isOk = false →
      w.after (.logAndApply edit) a w.disk ∈ A →
        Q a.status (w.after (.logAndApply edit) a w.disk))
    (hlate : ∀ a : Answer, a.status.isOk = false →
      w.after (.logAndApply edit) a (w.disk.committed m w.impl.versions edit) ∈ A →
        Q a.status (w.after (.logAndApply edit) a (w.disk.committed m w.impl.versions edit)))
    (hok : ∀ t, w ≤ t → t ∈ A → Saved m edit w t → ∀ s : Status, s.isOk → Q s t) :
    Sat A (logAndApply c edit) w I Q := by
  rw [logAndApply, sat_bind, sat_get]
  intro _
  rw [sat_bind]
  refine sat_call hI fun a ha => ?_
  simp only [hm] at ha ⊢
  rcases hs : a.status.isOk with _ | _
  · rw [if_neg (by simp)]
    refine sat_pure.mpr fun _ => ?_
    rcases hc : a.committed with _ | _
    · simp only [hs, hc, Bool.or_self, Bool.false_eq_true, if_false] at ha ⊢
      exact hfail a hs ha
    · simp only [hs, hc, Bool.or_true, if_true] at ha ⊢
      exact hlate a hs ha
  · rw [if_pos rfl, sat_bind, sat_modifyImpl]
    intro ht
    refine sat_pure.mpr fun _ => hok _ (List.prefix_append _ _) ht ⟨?_, rfl, ?_, ?_⟩ _ hs
    · simp [Disk.committed]
    · simp
    · simp

/-- All files but the logs under these numbers. -/
def OtherLogs (S : Set ℕ) (type : FileType) (n : ℕ) : Prop := type = .kLogFile → n ∉ S

/-- Creating a log under a number that was taken spares the others. -/
theorem Disk.Spares.createLog {S : Set ℕ} {n : ℕ} (hL : L.Lawful) (hlt : n < 2 ^ 64) (hn : n ∈ S) :
    d.Spares L (OtherLogs S) ((d.create (logFileName [] n)).clearLog n) where
  manifest := rfl
  log k hk := by
    have hne : k ≠ n := fun h => hk rfl (h ▸ hn)
    exact Function.update_of_ne hne _ _
  table _ _ := rfl
  has type k hk := by
    have hc : ((d.create (logFileName [] n)).clearLog n).Has L type k ↔
        (d.create (logFileName [] n)).Has L type k := Iff.rfl
    rw [hc, has_create, parseFileName_logFileName hL hlt, or_iff_left]
    rintro ⟨rfl, rfl⟩
    exact hk rfl hn

/-- A new log was created under the number `n`, and the database object writes to it –
but its `logfile_number_` is what it was. -/
structure CreatedLog (L : Logging) (w t : World) (n : ℕ) : Prop where
  pos : 0 < n
  newly : n ∈ newly w t
  has : t.disk.Has L .kLogFile n
  impl : t.impl = { w.impl with logfile := some n, log := some ⟨n, 0⟩, mem := some [] }

/-- **Creating the log** touches nothing but the new log. -/
theorem createLog_sat (hL : c.X.logging.Lawful) {s : Status} :
    Sat A (createLog c s edit) w
      (fun t => w ≤ t ∧ w.disk.Spares c.X.logging (OtherLogs (newly w t)) t.disk)
      fun x t => w ≤ t ∧ w.disk.Spares c.X.logging (OtherLogs (newly w t)) t.disk ∧
        trail t.calls = trail w.calls ∧ marks t.calls = marks w.calls ∧ (x.1.isOk → s.isOk ∧
          ((w.impl.mem.isSome ∧ t = w ∧ x.2 = edit) ∨
            (w.impl.mem = none ∧
              ∃ n, x.2 = edit.setLogNumber n ∧ CreatedLog c.X.logging w t n))) := by
  rw [createLog, sat_bind, sat_get]
  intro _
  split_ifs with hnew
  · obtain ⟨hs, hmem⟩ := Bool.and_eq_true_iff.mp hnew
    rw [sat_bind, newFileNumber, sat_bind]
    refine sat_call (fun _ => ⟨le_rfl, .refl _ _⟩) fun a _ => sat_pure.mpr fun _ => ?_
    generalize ht : w.after .newFileNumber a w.disk = t
    have hwt : w ≤ t := ht ▸ w.le_after _ _ _
    have hdisk : t.disk = w.disk := ht ▸ rfl
    have himpl : t.impl = w.impl := ht ▸ rfl
    have hn : a.number.toNat ∈ newly w t := by
      subst ht
      simp [newly]
    have htrail : trail t.calls = trail w.calls := by
      subst ht
      simp
    have hmarks : marks t.calls = marks w.calls := by
      subst ht
      simp
    have hidle : w.disk.Spares c.X.logging (OtherLogs (newly w t)) t.disk := by
      rw [hdisk]
      exact .refl _ _
    refine Sat.assert (fun _ => ⟨hwt, hidle⟩) fun hpos => ?_
    rw [sat_bind]
    refine sat_call (fun _ => ⟨hwt, hidle⟩) fun b _ => ?_
    have hq : (Call.newWritableFile .kLogFile a.number.toNat).quiet = true := rfl
    have hafter : ∀ d, w ≤ t.after (.newWritableFile .kLogFile a.number.toNat) b d ∧
        newly w (t.after (.newWritableFile .kLogFile a.number.toNat) b d) = newly w t ∧
        trail (t.after (.newWritableFile .kLogFile a.number.toNat) b d).calls = trail w.calls ∧
        marks (t.after (.newWritableFile .kLogFile a.number.toNat) b d).calls = marks w.calls :=
      fun d => ⟨hwt.trans (t.le_after _ _ _), newly_after hwt hq,
        by rw [World.after_calls, trail_append, trail_quiet hq, List.append_nil, htrail],
        by rw [World.after_calls, marks_append, marks_quiet hq, List.append_nil, hmarks]⟩
    have hsp : w.disk.Spares c.X.logging (OtherLogs (newly w t))
        ((t.disk.create (logFileName [] a.number.toNat)).clearLog a.number.toNat) := by
      rw [hdisk]
      exact .createLog hL (UInt64.toNat_lt _) hn
    split_ifs with hb
    · obtain ⟨h1, h2, h3, h4⟩ := hafter
        ((t.disk.create (logFileName [] a.number.toNat)).clearLog a.number.toNat)
      rw [sat_bind, sat_modifyImpl]
      refine fun _ => sat_pure.mpr fun _ => ⟨h1, ?_, h3, h4, fun _ => ⟨hs, Or.inr ⟨?_, _, rfl, ?_⟩⟩⟩
      · exact h2.symm ▸ hsp
      · exact Option.isNone_iff_eq_none.mp hmem
      · refine ⟨of_decide_eq_true hpos, h2 ▸ hn, ?_, by rw [World.after_impl, himpl]⟩
        exact Disk.has_create.mpr (Or.inr (parseFileName_logFileName hL (UInt64.toNat_lt _)))
    · obtain ⟨h1, h2, h3, h4⟩ := hafter t.disk
      refine sat_pure.mpr fun _ => ⟨h1, ?_, h3, h4, fun h => absurd h hb⟩
      exact h2.symm ▸ hidle
  · refine sat_pure.mpr fun _ => ⟨le_rfl, .refl _ _, rfl, rfl, fun hs => ⟨hs, ?_⟩⟩
    refine Or.inl ⟨?_, rfl, rfl⟩
    rcases hmem : w.impl.mem with _ | _
    · exact absurd (by simp [hmem, show s.isOk = true from hs]) hnew
    · rfl

/-- `MaybeScheduleCompaction` makes quiet calls, and sets one flag. -/
theorem maybeScheduleCompaction_sat :
    Sat A (maybeScheduleCompaction c) w (Idle w) fun _ t =>
      Idle w t ∧ ∃ b, t.impl = { w.impl with bgCompactionScheduled := b } := by
  have hdone : ∀ {t}, Idle w t → t.impl = w.impl →
      Sat A (pure () : Prog Unit) t (Idle w) fun _ t =>
        Idle w t ∧ ∃ b, t.impl = { w.impl with bgCompactionScheduled := b } :=
    fun ht hi => sat_pure.mpr fun _ => ⟨ht, _, hi⟩
  have hgo : ∀ {t} {needed : Bool}, Idle w t → t.impl = w.impl →
      Sat A (if needed then do
          modifyImpl fun i => { i with bgCompactionScheduled := true }
          let _ ← call c .schedule
          pure ()
        else pure () : Prog Unit) t (Idle w) fun _ t =>
          Idle w t ∧ ∃ b, t.impl = { w.impl with bgCompactionScheduled := b } := by
    intro t needed ht hi
    split_ifs
    · rw [sat_bind, sat_modifyImpl]
      intro _
      have ht' := ht.modify { t.impl with bgCompactionScheduled := true }
      rw [sat_bind]
      refine sat_call (fun _ => ht') fun a _ => sat_pure.mpr fun _ =>
        ⟨ht'.after a rfl rfl, true, ?_⟩
      rw [World.after_impl, hi]
    · exact hdone ht hi
  rw [maybeScheduleCompaction, sat_bind, sat_get]
  intro _
  split_ifs
  · exact hdone (.refl w) rfl
  · exact hdone (.refl w) rfl
  · exact hdone (.refl w) rfl
  · rw [sat_bind, workNeeded, sat_bind, sat_get]
    intro _
    split_ifs
    · rw [sat_bind]
      refine sat_call (fun _ => .refl w) fun a _ => sat_pure.mpr fun _ => ?_
      exact hgo ((Idle.refl w).after a rfl rfl) rfl
    · exact sat_pure.mpr fun _ => hgo (.refl w) rfl

/-! ### Opening loses nothing -/

/-- The entries recoverable from `d` are recoverable from the disk of `t`. -/
def Safe (X : Externals) (d : Disk) (t : World) : Prop :=
  ∀ e, Recoverable X d e → Recoverable X t.disk e

theorem Safe.idle (h : Safe X d w) (hw : Idle w t) : Safe X d t := fun e he => by
  rw [hw.disk]
  exact h e he

/-- The end of `DB::Open` is safe where the version set agrees with the manifest. -/
theorem finishOpen_safe {s : Status} (hsafe : Safe c.X d w)
    (hs : s.isOk → ∃ m, w.disk.manifest = some m ∧ Agrees w.impl.versions m) :
    Sat A (finishOpen c s) w (Safe c.X d) fun _ t => Safe c.X d t := by
  rw [finishOpen]
  split_ifs with hok
  · obtain ⟨m, hm, hv⟩ := hs hok
    have hdesc : ∀ m, w.disk.manifest = some m →
        w.impl.versions.manifestFileNumber ≤ m.number := fun m' hm' => by
      obtain rfl : m = m' := Option.some.inj (hm.symm.trans hm')
      exact hv.manifestFileNumber.le
    have hgc : ∀ {t}, Collected c.X.logging w.impl.versions
        (w.impl.pendingOutputs ++ w.impl.versions.live) w t → Safe c.X d t :=
      fun ht e he => ht.recoverable hm hv (hsafe e he)
    refine (deleteObsoleteFiles_sat hdesc).seq (fun _ _ _ h => hgc h) fun _ t _ _ ht => ?_
    refine maybeScheduleCompaction_sat.seq (fun _ _ _ h => (hgc ht).idle h) fun _ u _ _ hu => ?_
    rw [sat_bind, sat_get]
    intro _
    have hsafe := (hgc ht).idle hu.1
    exact Sat.assert (fun _ => hsafe) fun _ => sat_pure.mpr fun _ => hsafe
  · rw [sat_bind, destroyDB, sat_bind, sat_modifyImpl]
    intro _
    rw [sat_bind, sat_get]
    intro _
    split_ifs
    · rw [sat_bind]
      exact sat_call (fun _ => hsafe) fun a _ => sat_pure.mpr fun _ => sat_pure.mpr fun _ => hsafe
    · exact sat_pure.mpr fun _ => sat_pure.mpr fun _ => hsafe

/-- The number is neither that of an existing log nor that of a live table. -/
def Disk.Unused (L : Logging) (d : Disk) (n : ℕ) : Prop :=
  ¬d.Has L .kLogFile n ∧ ∀ m, d.manifest = some m → n ∉ m.live

/-- **What opening relies on**: `NewFileNumber` returns no number twice, nor the number
of an existing log or of a live table, and the logs that recovery selects open. -/
def openRely (L : Logging) (d : Disk) : LowerSet World where
  carrier := {w | (taken w.calls).Nodup ∧ (∀ n ∈ taken w.calls, d.Unused L n) ∧
    ∀ n, Step.opened n false ∉ trail w.calls}
  lower' := by
    rintro w t ⟨cs, hcs⟩ ⟨hnd, hunused, hopen⟩
    rw [← hcs] at hnd hunused hopen
    simp only [taken_append, trail_append, List.mem_append, not_or] at hnd hunused hopen
    exact ⟨(List.nodup_append.mp hnd).1, fun n hn => hunused n (Or.inl hn), fun n => (hopen n).1⟩

theorem distinct_openRely : Distinct (openRely L d) := fun _ h => h.1

/-- Building tables under unused numbers spares what recoverable entries depend on. -/
theorem Frame.spares (h : Frame L w t) (hunused : ∀ n ∈ newly w t, w.disk.Unused L n)
    (hm : w.disk.manifest = some m) : w.disk.Spares L m.Needs t.disk :=
  .of_off h.off fun n hn hn' => (hunused n hn').2 m hm hn

/-- Building tables under unused numbers is safe. -/
theorem Frame.safe (h : Frame X.logging w t)
    (hunused : ∀ n ∈ newly w t, w.disk.Unused X.logging n) : Safe X w.disk t := by
  rintro e ⟨m, hm, he⟩
  exact (h.spares hunused hm).recoverable hm (fun _ _ hn _ => hn) ⟨m, hm, he⟩

/-- Recovery is safe: it has touched fresh tables only. -/
theorem Frame.safe_open (h : Frame X.logging (.initial d) t) (ht : t ∈ openRely X.logging d) :
    Safe X d t :=
  h.safe fun n hn => ht.2.1 n (mem_taken_of_newly h.le hn)

/-- Creating the log is safe: its number is not that of an existing one. -/
theorem Safe.createLog (h : Safe X d t) (hframe : Frame X.logging (.initial d) t) (htu : t ≤ u)
    (hu : u ∈ openRely X.logging d)
    (hsp : t.disk.Spares X.logging (OtherLogs (newly t u)) u.disk) : Safe X d u := by
  intro e he
  obtain ⟨m, hm, -⟩ := id he
  refine hsp.recoverable (hframe.off.manifest.trans hm) (fun type n _ hhas htype hn => ?_) (h e he)
  subst htype
  exact (hu.2.1 n (mem_taken_of_newly htu hn)).1 (hframe.has_log.mp hhas)

/-- A commit is safe for whatever it does not leave behind in a log. -/
theorem Disk.recoverable_committed (hm : d.manifest = some m) (he : Recoverable X d e)
    (hlog : ∀ n, m.Selects n → d.Has X.logging .kLogFile n → e ∈ d.logEntries X.coding n →
      Recoverable X (d.committed m v edit) e) : Recoverable X (d.committed m v edit) e := by
  obtain ⟨m', hm', he⟩ := he
  obtain rfl : m = m' := Option.some.inj (hm.symm.trans hm')
  rcases he with ⟨n, hn, hhas, he⟩ | ⟨n, hn, hhas, he⟩
  · exact ⟨_, rfl, Or.inl ⟨n, List.mem_append_left _ hn, has_committed hhas, he⟩⟩
  · exact hlog n hn hhas he

/-- **The commit of a new log** is safe: it leaves no log behind, since the log number
saved is `0`. -/
theorem Disk.recoverable_committed_zero (hm : d.manifest = some m) (he : Recoverable X d e)
    (hedit : edit.logNumber = some 0) : Recoverable X (d.committed m v edit) e := by
  refine recoverable_committed hm he fun n _ hhas he => ⟨_, rfl, Or.inr ⟨n, Or.inl ?_, ?_, he⟩⟩
  · simp [Manifest.apply, hedit]
  · exact has_committed hhas

/-- **The commit of a reused log** is safe: what was in the logs before it has gone into
the tables of the edit, and the log number saved is that of the reused log. -/
theorem Recovery.recoverable_commit {p : Progress} {steps : List Step} {mem : MemTable}
    (h : Recovery c (openRely c.X.logging d) (.initial d) {} t p m v steps mem)
    (ht : t ∈ openRely c.X.logging d) (hmem : t.impl.mem.isSome) (hsafe : Safe c.X d t)
    (he : Recoverable c.X d e) :
    Recoverable c.X (t.disk.committed m t.impl.versions
      ((p.edit.setPrevLogNumber 0).setLogNumber t.impl.logfileNumber)) e := by
  obtain ⟨save, hlogs⟩ := h.logs
  have hoff := hlogs.replays.frame.off
  have hm : t.disk.manifest = some m := hoff.manifest.trans h.manifest
  have hentries : ∀ n, t.disk.logEntries c.X.coding n = d.logEntries c.X.coding n := fun n => by
    rw [Disk.logEntries, hoff.log]
    rfl
  refine Disk.recoverable_committed hm (hsafe e he) fun n hn hhas he => ?_
  rcases hlogs.ending with ⟨hstill, -⟩ | ⟨init, log, before, hinit, -, -, -, hhand, -, hlast⟩
  · obtain ⟨_, hi⟩ := hstill.impl
    rw [hi] at hmem
    exact absurd hmem (by simp [World.loaded, World.initial])
  obtain ⟨_, _, hi⟩ := hhand.impl
  have hnum : t.impl.logfileNumber = log := by rw [hi]
  obtain ⟨files, hfiles, -, -, hperm⟩ := hlogs.replays.received
  obtain ⟨hhasf, hperm⟩ := hperm distinct_openRely
  -- every selected log was replayed, as all of them opened
  have hsteps := steps_eq_of_opened hlogs.segments fun n hn =>
    ht.2.2 n (by rw [hlogs.replays.trail]; exact List.mem_append_right _ hn)
  have hn' : n ∈ sortedLogs c.X.logging m.logNumber m.prevLogNumber d.children :=
    mem_sortedLogs.mpr ⟨hlogs.replays.frame.has_log.mp hhas, hn⟩
  have hin : e ∈ t.disk.contents files ++ mem := by
    refine hperm.mem_iff.mpr ?_
    rw [List.nil_append, hsteps, insertedRecords_flatMap_segment, recordEntries, List.flatMap_assoc]
    rw [hentries n] at he
    exact List.mem_flatMap.mpr ⟨n, hn', he⟩
  rcases List.mem_append.mp hin with hin | hin
  · obtain ⟨f, hf, he⟩ := List.mem_flatMap.mp hin
    refine ⟨_, rfl, Or.inl ⟨f.2.number, List.mem_append_right _ ?_, ?_, he⟩⟩
    · rw [hfiles]
      exact List.mem_map.mpr ⟨f, hf, rfl⟩
    · exact Disk.has_committed (hhasf f hf)
  · have hlog : log ∈ sortedLogs c.X.logging m.logNumber m.prevLogNumber d.children := by
      rw [show sortedLogs _ _ _ d.children = init ++ [log] from hinit]
      exact List.mem_append_right _ (List.mem_singleton.mpr rfl)
    have he : e ∈ t.disk.logEntries c.X.coding log := by
      rw [hentries, Disk.logEntries]
      rwa [hlast] at hin
    refine ⟨_, rfl, Or.inr ⟨log, Or.inl ?_, Disk.has_committed ?_, he⟩⟩
    · simp [Manifest.apply, VersionEdit.setLogNumber, hnum]
    · exact hlogs.replays.frame.has_log.mpr (mem_sortedLogs.mp hlog).1

/-- The version set and the manifest agree after an edit where they agreed on the
live tables. -/
theorem Agrees.apply (hlive : v.live = m.live) : Agrees (v.apply edit) (m.apply v edit) :=
  ⟨rfl, rfl, rfl, by rw [VersionSet.apply, Manifest.apply, hlive]⟩

/-- **Saving the manifest** is safe, and leaves the version set in agreement with the
manifest: it is asked for wherever the two do not agree already. -/
theorem saveManifest_safe {s : Status} {save : Bool} (hsafe : Safe c.X d w)
    (hm : w.disk.manifest = some m)
    (hcommit : s.isOk → ∀ e, Recoverable c.X d e →
      Recoverable c.X (w.disk.committed m w.impl.versions
        ((edit.setPrevLogNumber 0).setLogNumber w.impl.logfileNumber)) e)
    (hlive : s.isOk → w.impl.versions.live = m.live)
    (hv : s.isOk → save = false → Agrees w.impl.versions m) :
    Sat A (saveManifest c s save edit) w (Safe c.X d) fun s t => Safe c.X d t ∧
      (s.isOk → ∃ m, t.disk.manifest = some m ∧ Agrees t.impl.versions m) := by
  rw [saveManifest, sat_bind, sat_get]
  intro _
  split_ifs with hsave
  · obtain ⟨hs, -⟩ := Bool.and_eq_true_iff.mp hsave
    refine logAndApply_sat hm (fun _ => hsafe) ?_ ?_ ?_
    · exact fun a ha _ => ⟨hsafe, fun h => absurd h (by simp [ha])⟩
    · exact fun a ha _ => ⟨hcommit hs, fun h => absurd h (by simp [ha])⟩
    · intro t _ _ ht s' _
      refine ⟨fun e he => ht.disk ▸ hcommit hs e he, fun _ => ⟨_, by rw [ht.disk]; rfl, ?_⟩⟩
      rw [ht.impl]
      exact .apply (hlive hs)
  · refine sat_pure.mpr fun _ => ⟨hsafe, fun hs => ⟨m, hm, hv hs ?_⟩⟩
    simpa [show s.isOk = true from hs] using hsave

/-- Recovery has loaded the version set. -/
theorem Recovery.versions {p : Progress} {steps : List Step} {mem : MemTable}
    (h : Recovery c A w edit t p m v steps mem) : t.impl.versions = v := by
  obtain ⟨_, hlogs⟩ := h.logs
  exact hlogs.versions

/-- Where recovery has handed no log over, the log number is the one of a fresh
`DBImpl`. -/
theorem Recovery.logfileNumber {p : Progress} {steps : List Step} {mem : MemTable}
    (h : Recovery c A (.initial d) edit t p m v steps mem) (hmem : t.impl.mem = none) :
    t.impl.logfileNumber = 0 := by
  obtain ⟨_, hlogs⟩ := h.logs
  rcases hlogs.ending with ⟨hs, -⟩ | ⟨_, _, _, _, _, _, _, hh, -⟩
  · obtain ⟨_, hi⟩ := hs.impl
    rw [hi]
    rfl
  · obtain ⟨_, _, hi⟩ := hh.impl
    rw [hi] at hmem
    exact absurd hmem (by simp)

/-- Where recovery asks for no new manifest, the version set agrees with the committed
one. -/
theorem Recovery.agrees {p : Progress} {steps : List Step} {mem : MemTable}
    (h : Recovery c A w edit t p m v steps mem) (hp : p.saveManifest = false) : Agrees v m where
  logNumber := h.logNumber
  prevLogNumber := h.prevLogNumber
  manifestFileNumber := h.manifestFileNumber.resolve_right (by simp [hp])
  live := h.live

/-- **Opening a database never loses data**, wherever it is interrupted: whatever the
calls answer, an entry recoverable before is recoverable in every state of the run. -/
theorem dbOpen_recoverable (hX : c.X.Lawful)
    (hw : w ∈ ((dbOpen c).run (.initial d)).states) (hrely : w ∈ openRely c.X.logging d)
    (he : Recoverable c.X d e) : Recoverable c.X w.disk e := by
  obtain ⟨m, hm, -⟩ := id he
  suffices hsat : Sat (openRely c.X.logging d) (dbOpen c) (.initial d) (Safe c.X d)
      fun _ t => Safe c.X d t from hsat.states (fun _ _ h => h) w hw hrely e he
  have hsome : (World.initial d).disk.manifest.isSome := by
    rw [show (World.initial d).disk.manifest = some m from hm]
    rfl
  rw [dbOpen]
  refine (recover_sat hX).seq (fun t _ ht h => (h hsome).safe_open ht) ?_
  rintro ⟨s, p⟩ t - ht ⟨hframe, hrec⟩
  replace hframe := hframe hsome
  have hsafe := hframe.safe_open ht
  refine (createLog_sat hX.logging).seq (fun u htu hu h => hsafe.createLog hframe htu hu h.2) ?_
  rintro ⟨s', edit⟩ u htu hu ⟨-, hsp, -, -, hok⟩
  have hsafe' := hsafe.createLog hframe htu hu hsp
  have hmu : u.disk.manifest = some m := hsp.manifest.trans (hframe.off.manifest.trans hm)
  have hloaded : s'.isOk → ∃ v, u.impl.versions = v ∧ v.live = m.live ∧
      (p.saveManifest = false → Agrees v m) := by
    intro hs'
    obtain ⟨hs, hcases⟩ := hok hs'
    obtain ⟨m', v, steps, mem, hrec⟩ := hrec hs
    obtain rfl : m = m' := Option.some.inj (hm.symm.trans hrec.manifest)
    refine ⟨v, ?_, hrec.live, hrec.agrees⟩
    rcases hcases with ⟨-, rfl, -⟩ | ⟨-, n, -, hlog⟩
    · exact hrec.versions
    · rw [hlog.impl]
      exact hrec.versions
  refine (saveManifest_safe hsafe' hmu (fun hs' e he => ?_) (fun hs' => ?_)
    fun hs' hsave => ?_).seq (fun _ _ _ h => h) fun s t' _ _ h => finishOpen_safe h.1 h.2
  · obtain ⟨hs, hcases⟩ := hok hs'
    obtain ⟨m', v, steps, mem, hrec⟩ := hrec hs
    obtain rfl : m = m' := Option.some.inj (hm.symm.trans hrec.manifest)
    rcases hcases with ⟨hmem, rfl, rfl⟩ | ⟨hmem, n, rfl, hlog⟩
    · exact hrec.recoverable_commit hu hmem hsafe he
    · refine Disk.recoverable_committed_zero hmu (hsafe' e he) ?_
      rw [hlog.impl]
      exact congrArg some (hrec.logfileNumber hmem)
  · obtain ⟨v, rfl, hlive, -⟩ := hloaded hs'
    exact hlive
  · obtain ⟨v, rfl, -, hv⟩ := hloaded hs'
    exact hv hsave

/-- In the sample database, every number but that of its log is unused. -/
theorem unused_oneLog {records : List Bytes} {n : ℕ} (hn : n ≠ 3) :
    (oneLog records).Unused leveldbLogging n := by
  refine ⟨?_, fun m hm => ?_⟩
  · rintro ⟨name, hname, hp⟩
    have hall : ∀ name ∈ [chars "CURRENT", chars "MANIFEST-000001", logFileName [] 3],
        ∀ x ∈ parseFileName leveldbLogging name, x.2 = .kLogFile → x.1 = 3 := by decide
    exact hn (hall name hname _ hp rfl)
  · obtain rfl : ⟨1, 0, 0, 0, []⟩ = m := Option.some.inj hm
    exact List.not_mem_nil

/-- A run that opens a database with one log, to its end. -/
theorem dbOpen_recoverable_oneLog : ∃ w ∈ ((dbOpen (healthy {})).run
      (.initial (oneLog [WriteBatch.putAB.rep]))).states,
    Recoverable documented w.disk ⟨7, .kTypeValue, [97], [98]⟩ := by
  have htaken : ∀ n ∈ taken ((dbOpen (healthy {})).run
      (.initial (oneLog [WriteBatch.putAB.rep]))).final.calls, n ≠ 3 := by decide
  have htrail : trail ((dbOpen (healthy {})).run
      (.initial (oneLog [WriteBatch.putAB.rep]))).final.calls =
        [.opened 3 true, .inserted 3 WriteBatch.putAB.rep] := by decide
  have hrely : ((dbOpen (healthy {})).run (.initial (oneLog [WriteBatch.putAB.rep]))).final ∈
      openRely leveldbLogging (oneLog [WriteBatch.putAB.rep]) :=
    ⟨by decide, fun n hn => unused_oneLog (htaken n hn), fun n => by rw [htrail]; simp⟩
  refine ⟨_, Run.mem_states.mpr (Or.inr rfl), dbOpen_recoverable documented_lawful
    (Run.mem_states.mpr (Or.inr rfl)) hrely ?_⟩
  exact ⟨_, rfl, Or.inr ⟨3, Or.inl (Nat.zero_le 3), ⟨logFileName [] 3, by decide, by decide⟩,
    by decide⟩⟩

end

end LevelDb
