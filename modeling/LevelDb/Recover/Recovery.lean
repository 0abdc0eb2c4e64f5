import LevelDb.Recover.Replay

/-!
# What recovery guarantees

`DBImpl::Recover` as a whole. Where it returns OK, it has loaded the committed
manifest and recovered the logs that the listing selects (`LevelDb.Recovery`); and
wherever it is stopped, nothing but fresh tables was touched, provided there was a
database at all (`LevelDb.recover_sat`).

The first consequence is that no operation is lost and none is duplicated
(`LevelDb.recover_operations`).
-/

namespace LevelDb

open CrashLogic

variable (c : Context) (A : LowerSet World)

/-- The world with a version set loaded, and the lock held. -/
def World.loaded (w : World) (v : VersionSet) : World :=
  { w with impl := { w.impl with dbLock := true, versions := v } }

/-- **A successful recovery**: the manifest was loaded as `v`, and the logs that it
selects from the listing were recovered. -/
structure Recovery (w : World) (edit : VersionEdit) (t : World) (p : Progress) (m : Manifest)
    (v : VersionSet) (steps : List Step) (mem : MemTable) : Prop where
  manifest : w.disk.manifest = some m
  logNumber : v.logNumber = m.logNumber
  prevLogNumber : v.prevLogNumber = m.prevLogNumber
  live : v.live = m.live
  manifestFileNumber : v.manifestFileNumber = m.number ∨ p.saveManifest = true
  lastSequence : v.lastSequence =
    if m.lastSequence < p.maxSequence then p.maxSequence else m.lastSequence
  complete : missingFiles c.X.logging m.live w.disk.children = []
  logs : ∃ save, LogsRecovered c A
    (sortedLogs c.X.logging m.logNumber m.prevLogNumber w.disk.children) (w.loaded v)
    { edit := edit, saveManifest := save } t p steps mem

section

variable {c A} {w t u : World} {edit : VersionEdit} {p p' : Progress} {steps : List Step}
  {mem : MemTable} {logs : List ℕ}

/-- The version set is left alone while the logs are recovered. -/
theorem LogsRecovered.versions (h : LogsRecovered c A logs w p t p' steps mem) :
    t.impl.versions = w.impl.versions := by
  rcases h.ending with ⟨hs, -⟩ | ⟨_, _, _, _, _, _, _, hh, -⟩
  · obtain ⟨_, hi⟩ := hs.impl
    rw [hi]
  · obtain ⟨_, _, hi⟩ := hh.impl
    rw [hi]

/-- The memtable of the database object is the one that was handed over, if any. -/
theorem LogsRecovered.mem_final (hw : w.impl.mem = none)
    (h : LogsRecovered c A logs w p t p' steps mem) : t.impl.mem.getD [] = mem := by
  rcases h.ending with ⟨hs, rfl, -⟩ | ⟨_, _, _, _, _, _, _, hh, -⟩
  · obtain ⟨_, hi⟩ := hs.impl
    rw [hi, hw]
    rfl
  · obtain ⟨_, _, hi⟩ := hh.impl
    rw [hi]
    rfl

/-- The database object has a memtable only where the last log was reused. -/
theorem LogsRecovered.reused (hw : w.impl.mem = none) (hwm : marks w.calls = [])
    (h : LogsRecovered c A logs w p t p' steps mem) (hmem : t.impl.mem.isSome) :
    c.options.reuseLogs = true ∧ ∃ n, logs.getLast? = some n ∧ t.impl.logfile = some n ∧
      t.impl.logfileNumber = n ∧ marks t.calls = [.reopened n] := by
  rcases h.ending with ⟨hs, -⟩ | ⟨init, n, _, rfl, -, -, -, hh, hopt, -⟩
  · obtain ⟨_, hi⟩ := hs.impl
    rw [hi, hw] at hmem
    exact absurd hmem (by simp)
  · obtain ⟨_, _, hi⟩ := hh.impl
    refine ⟨hopt, n, List.getLast?_concat .., by rw [hi], by rw [hi], ?_⟩
    rw [hh.marks, hwm, List.nil_append]

/-- Nothing but quiet calls that leave the disk alone. -/
structure Idle (w t : World) : Prop where
  le : w ≤ t
  disk : t.disk = w.disk
  trail : trail t.calls = trail w.calls
  marks : marks t.calls = marks w.calls
  sources : ∀ C, sources C t.calls = sources C w.calls

namespace Idle

theorem refl (w : World) : Idle w w := ⟨le_rfl, rfl, rfl, rfl, fun _ => rfl⟩

theorem after (h : Idle w t) {what : Call} (a : Answer) (hq : what.quiet) (hs : what.unsourced) :
    Idle w (t.after what a t.disk) where
  le := h.le.trans (t.le_after what a _)
  disk := h.disk
  trail := by rw [World.after_calls, trail_append, trail_quiet hq, List.append_nil, h.trail]
  marks := by rw [World.after_calls, marks_append, marks_quiet hq, List.append_nil, h.marks]
  sources C := (sources_unsourced hs).trans (h.sources C)

theorem modify (h : Idle w t) (i : DBImpl) : Idle w { t with impl := i } :=
  ⟨h.le, h.disk, h.trail, h.marks, h.sources⟩

theorem frame {L : Logging} (h : Idle w t) : Frame L w t := ⟨h.le, h.disk ▸ .refl _ _⟩

end Idle

/-- A recovery of the logs reads the same from a world that differs in its version
set, and in calls that do not matter. -/
theorem LogsRecovered.retarget {w' : World} {v : VersionSet} (ht : t ∈ A)
    (h : LogsRecovered c A logs w' p t p' steps mem) (hw : Idle w w')
    (himpl : w.impl = { w'.impl with versions := v }) :
    LogsRecovered c A logs w p { t with impl := { t.impl with versions := v } } p' steps mem where
  pos := h.pos
  segments := hw.disk ▸ h.segments
  replays :=
    have hrep := (Replays.idle (c := c) (A := A) hw.frame hw.trail (hw.sources _) p []).trans ht
      h.replays
    ⟨hrep.frame.modify _, hrep.trail, hrep.received, hrep.maxSequence, hrep.saveManifest,
      fun hw => (hrep.traced hw).congr rfl rfl⟩
  ending := by
    rw [← hw.disk]
    rcases h.ending with ⟨hs, h⟩ | ⟨init, log, before, h1, h2, h3, h4, hh, h⟩
    · obtain ⟨pending, hi⟩ := hs.impl
      exact Or.inl ⟨⟨⟨pending, by rw [hi, himpl]⟩, hs.marks.trans hw.marks⟩, h⟩
    · obtain ⟨pending, size, hi⟩ := hh.impl
      exact Or.inr ⟨init, log, before, h1, h2, h3, h4,
        ⟨⟨pending, size, by rw [hi, himpl]⟩, by rw [← hw.marks]; exact hh.marks⟩, h⟩

/-- The version set after recovery: its last sequence number is at least that of the
logs. -/
def VersionSet.raised (v : VersionSet) (maxSequence : UInt64) : VersionSet :=
  { v with lastSequence := if v.lastSequence < maxSequence then maxSequence else v.lastSequence }

/-- **`Recover` behind the loading of the manifest.** -/
theorem recoverFiles_sat (hX : c.X.Lawful) :
    Sat A (recoverFiles c p) w (Frame c.X.logging w) fun x t =>
      Frame c.X.logging w t ∧ (x.1.isOk →
        missingFiles c.X.logging w.impl.versions.live w.disk.children = [] ∧ ∃ w' t' steps mem,
          Idle w w' ∧ w'.impl = w.impl ∧ t' ∈ A ∧
          LogsRecovered c A (sortedLogs c.X.logging w.impl.versions.logNumber
            w.impl.versions.prevLogNumber w.disk.children) w' p t' x.2 steps mem ∧
          t = { t' with impl := { t'.impl with
            versions := t'.impl.versions.raised x.2.maxSequence } }) := by
  rw [recoverFiles, sat_bind, sat_get]
  intro _
  rw [getChildren, sat_bind, sat_bind, sat_get]
  intro _
  rw [sat_bind]
  refine sat_call (fun _ => .refl w) fun a hv => sat_pure.mpr fun _ => ?_
  have hidle := (Idle.refl w).after a (show Call.getChildren.quiet from rfl) rfl
  have hframe : Frame c.X.logging w _ := hidle.frame
  dsimp only
  split_ifs with ha
  · split
    · next first _ =>
      refine Sat.assert (fun _ => hframe) fun _ => sat_pure.mpr fun _ => ⟨hframe, fun h => ?_⟩
      simp at h
    · next hmin =>
      refine (recoverLogs_sat hX _).seq (fun _ _ _ h => hframe.trans h) ?_
      rintro ⟨s, p'⟩ t' - ht' ⟨hwt, hrec⟩
      dsimp only
      split_ifs with hs
      · rw [sat_bind, sat_modifyImpl]
        refine fun _ => sat_pure.mpr fun _ => ⟨(hframe.trans hwt).modify _, fun _ => ?_⟩
        obtain ⟨steps, mem, hlogs⟩ := hrec hs
        exact ⟨List.min?_eq_none_iff.mp hmin, _, t', steps, mem, hidle, rfl, ht', hlogs, rfl⟩
      · exact sat_pure.mpr fun _ => ⟨hframe.trans hwt, fun h => absurd h hs⟩
  · exact sat_pure.mpr fun _ => ⟨hframe, fun h => absurd h ha⟩

/-- **`Recover` from the loading of the manifest on.** -/
theorem recoverVersions_sat (hX : c.X.Lawful) {w₀ : World} (hw : Idle w₀ w)
    (himpl : w.impl = { w₀.impl with dbLock := true }) {save : Bool} :
    Sat A (recoverVersions c edit save) w (Frame c.X.logging w₀) fun x t =>
      Frame c.X.logging w₀ t ∧ (x.1.isOk →
        ∃ m v steps mem, Recovery c A w₀ edit t x.2 m v steps mem) := by
  rw [recoverVersions, sat_bind, versionsRecover, sat_bind, sat_get]
  intro _
  rw [sat_bind]
  refine sat_call (fun _ => hw.frame) fun a _ => ?_
  have hidle := hw.after a (show Call.recoverVersions.quiet from rfl) rfl
  split
  · have hne : ¬(if a.status.isOk then Status.corruption "" else a.status).isOk := by
      split_ifs with ha
      · simp
      · exact ha
    refine sat_pure.mpr fun _ => ?_
    dsimp only
    rw [if_neg hne]
    exact sat_pure.mpr fun _ => ⟨hidle.frame, fun h => absurd h hne⟩
  · next m hm =>
    split_ifs with ha
    · rw [sat_bind, sat_modifyImpl]
      refine fun _ => sat_pure.mpr fun _ => ?_
      generalize hw₁ : ({ (w.after .recoverVersions a w.disk) with impl := _ } : World) = w₁
      have hidle₁ : Idle w₀ w₁ := hw₁ ▸ hidle.modify _
      have hi₁ : w₁.impl = { w₀.impl with dbLock := true, versions := m.load a } := by
        subst hw₁
        rw [World.after_impl, himpl]
      refine (recoverFiles_sat hX).mono (fun _ _ _ h => hidle₁.frame.trans h) ?_
      rintro ⟨s, p'⟩ t - - ⟨hframe, hrec⟩
      refine ⟨hidle₁.frame.trans hframe, fun hs => ?_⟩
      obtain ⟨hmissing, w', t', steps, mem, hw', hi, ht', hlogs, rfl⟩ := hrec hs
      refine ⟨m, (m.load a).raised p'.maxSequence, steps, mem, ?_⟩
      rw [hi₁, hidle₁.disk] at hmissing hlogs
      have hversions : t'.impl.versions = m.load a := by rw [hlogs.versions, hi, hi₁]
      have hloaded : Idle (w₀.loaded ((m.load a).raised p'.maxSequence)) w' :=
        ⟨hidle₁.le.trans hw'.le, hw'.disk.trans hidle₁.disk, hw'.trail.trans hidle₁.trail,
          hw'.marks.trans hidle₁.marks, fun C => (hw'.sources C).trans (hidle₁.sources C)⟩
      refine ⟨by rw [← hw.disk, hm], rfl, rfl, rfl, ?_, rfl, hmissing, save || a.saveManifest, ?_⟩
      · by_cases hsave : a.saveManifest
        · exact Or.inr (hlogs.replays.saveManifest (by simp [hsave]))
        · exact Or.inl (if_neg hsave)
      · rw [hversions]
        exact hlogs.retarget ht' hloaded (by rw [hi, hi₁]; rfl)
    · refine sat_pure.mpr fun _ => ?_
      dsimp only
      rw [if_neg ha]
      exact sat_pure.mpr fun _ => ⟨hidle.frame, fun h => absurd h ha⟩

/-- **`Recover`.** Wherever it is stopped, a database that was there has been touched
in fresh tables only. -/
theorem recover_sat (hX : c.X.Lawful) {save : Bool} :
    Sat A (recover c edit save) w (fun t => w.disk.manifest.isSome → Frame c.X.logging w t)
      fun x t => (w.disk.manifest.isSome → Frame c.X.logging w t) ∧ (x.1.isOk →
        ∃ m v steps mem, Recovery c A w edit t x.2 m v steps mem) := by
  rw [recover, sat_bind]
  refine sat_call (fun _ _ => .refl w) fun a _ => ?_
  have hidle := (Idle.refl w).after a (show Call.createDir.quiet from rfl) rfl
  rw [sat_bind, sat_get]
  intro _
  refine Sat.assert (fun _ _ => hidle.frame) fun _ => ?_
  rw [sat_bind]
  refine sat_call (fun _ _ => hidle.frame) fun b _ => ?_
  replace hidle := hidle.after b (show Call.lockFile.quiet from rfl) rfl
  by_cases hb : b.status.isOk
  · rw [if_pos hb, sat_bind, sat_modifyImpl]
    intro _
    generalize hw₁ : ({ (World.after _ .lockFile _ _) with impl := _ } : World) = w₁
    have hi : w₁.impl = { w.impl with dbLock := true } := by
      subst hw₁
      rfl
    replace hidle : Idle w w₁ := hw₁ ▸ hidle.modify _
    rw [sat_bind, sat_get]
    intro _
    rw [sat_bind]
    refine sat_call (fun _ _ => hidle.frame) fun e _ => ?_
    have hdisk := hidle.disk
    replace hidle := hidle.after e (show Call.fileExistsCurrent.quiet from rfl) rfl
    rw [hdisk] at hidle ⊢
    have hrec : ∀ {t}, Idle w t → t.impl = { w.impl with dbLock := true } →
        Sat A (recoverVersions c edit save) t
          (fun t => w.disk.manifest.isSome → Frame c.X.logging w t)
          fun x t => (w.disk.manifest.isSome → Frame c.X.logging w t) ∧ (x.1.isOk →
            ∃ m v steps mem, Recovery c A w edit t x.2 m v steps mem) := fun ht hi =>
      (recoverVersions_sat hX ht hi).mono (fun _ _ _ h _ => h) fun _ _ _ _ h => ⟨fun _ => h.1, h.2⟩
    rcases hex : w.disk.fileExists (chars "CURRENT") with _ | _
    · have hnone : ¬w.disk.manifest.isSome := fun h => by
        rw [Disk.fileExists_iff.mpr (w.disk.current h)] at hex
        exact absurd hex (by decide)
      rw [if_pos (by rfl)]
      split_ifs
      · -- the new database is made where there was none
        refine (sat_trivial (newDb c)).seq (fun _ _ _ _ h => absurd h hnone) fun s t _ _ _ => ?_
        split_ifs with hs
        · exact sat_pure.mpr fun _ => ⟨fun h => absurd h hnone, fun h => by simp at h⟩
        · exact sat_pure.mpr fun _ => ⟨fun h => absurd h hnone, fun h => absurd h hs⟩
      · exact sat_pure.mpr fun _ => ⟨fun _ => hidle.frame, fun h => by simp at h⟩
      · exact hrec hidle hi
    · rw [if_neg (by decide)]
      exact hrec hidle hi
  · rw [if_neg hb]
    exact sat_pure.mpr fun _ => ⟨fun _ => hidle.frame, fun h => absurd h hb⟩

end

/-! ### No operation is lost, and none duplicated -/

/-- The worlds in whose calls no number was taken twice. -/
def distinctNumbers : LowerSet World where
  carrier := {w | (taken w.calls).Nodup}
  lower' _ _ h hnd := List.Nodup.sublist (taken_mono h).sublist hnd

theorem distinct_distinctNumbers : Distinct distinctNumbers := fun _ h => h

/-- Where `DB::Open` starts: a fresh `DBImpl`. -/
def World.initial (d : Disk) : World := ⟨d, {}, []⟩

/-- Recovery accounts for every entry, from an empty edit on. -/
theorem Recovery.traced {t : World} {p : Progress} {m : Manifest} {v : VersionSet}
    {steps : List Step} {mem : MemTable} {d : Disk} {A : LowerSet World}
    (h : Recovery c A (.initial d) {} t p m v steps mem) : Traced c.X.coding p.edit mem t := by
  obtain ⟨_, hlogs⟩ := h.logs
  exact hlogs.replays.traced ⟨rfl, rfl, rfl, fun f hf => absurd hf List.not_mem_nil⟩

section

variable {c} {L : Logging} {d : Disk} {minLog prevLog n : ℕ} {logs : List ℕ} {steps : List Step}

theorem mem_parsed {names : List Bytes} {x : ℕ × FileType} :
    x ∈ parsed L names ↔ ∃ name ∈ names, parseFileName L name = some x :=
  List.mem_filterMap

theorem mem_selectedLogs {names : List Bytes} : n ∈ selectedLogs L minLog prevLog names ↔
    (n, .kLogFile) ∈ parsed L names ∧ (minLog ≤ n ∨ n = prevLog) := by
  rw [selectedLogs, List.mem_filterMap]
  constructor
  · rintro ⟨⟨k, type⟩, hk, h⟩
    dsimp only at h
    split_ifs at h with hsel
    obtain ⟨rfl, hsel⟩ := hsel
    obtain rfl : k = n := by simpa using h
    exact ⟨hk, hsel⟩
  · rintro ⟨hn, hsel⟩
    exact ⟨(n, .kLogFile), hn, if_pos ⟨rfl, hsel⟩⟩

/-- **The selection.** -/
theorem mem_sortedLogs : n ∈ sortedLogs L minLog prevLog d.children ↔
    d.Has L .kLogFile n ∧ (minLog ≤ n ∨ n = prevLog) := by
  rw [sortedLogs, List.mem_insertionSort, mem_selectedLogs, mem_parsed, Disk.Has]

/-- Logs of distinct numbers are sorted strictly. -/
theorem sortedLogs_pairwise (h : (selectedLogs L minLog prevLog d.children).Nodup) :
    (sortedLogs L minLog prevLog d.children).Pairwise (· < ·) := by
  have hsorted : (sortedLogs L minLog prevLog d.children).Pairwise (· ≤ ·) :=
    List.pairwise_insertionSort (· ≤ ·) _
  have hnd : (sortedLogs L minLog prevLog d.children).Nodup :=
    (List.perm_insertionSort (· ≤ ·) _).nodup_iff.mpr h
  exact (hsorted.and hnd).imp fun ⟨hle, hne⟩ => lt_of_le_of_ne hle hne

/-- Where every log opens, all the steps are known. -/
theorem steps_eq_of_opened (h : Codec.Concat (IsSegment d) steps logs)
    (hopen : ∀ n, Step.opened n false ∉ steps) :
    steps = logs.flatMap fun n => segment d n true := by
  induction h with
  | nil => rfl
  | @cons seg log steps logs hseg _ ih =>
    obtain ⟨ok, rfl⟩ := hseg
    obtain rfl : ok = true := by
      rcases ok with _ | _
      · exact absurd (by simp [segment]) (hopen log)
      · rfl
    rw [List.flatMap_cons, ih fun n hn => hopen n (List.mem_append_right _ hn)]

theorem insertedRecords_flatMap_segment (logs : List ℕ) :
    insertedRecords (logs.flatMap fun n => segment d n true) =
      logs.flatMap fun n => longRecords (d.log n) := by
  induction logs with
  | nil => rfl
  | cons log logs ih =>
    rw [List.flatMap_cons, insertedRecords_append, ih, insertedRecords_segment, List.flatMap_cons]

/-- A log that could not be opened shows among the calls. -/
theorem exists_of_mem_trail {calls : List (Call × Answer)} (h : Step.opened n false ∈ trail calls) :
    ∃ a, (Call.newSequentialFile n, a) ∈ calls ∧ a.status.isOk = false := by
  obtain ⟨⟨what, a⟩, hmem, hwhat⟩ := List.mem_filterMap.mp h
  cases what <;> simp_all
  obtain ⟨rfl, ha⟩ := hwhat
  exact ⟨a, hmem, ha⟩

/-- **Recovery neither loses nor duplicates an operation.** Where every selected log
opens and `Recover` returns OK, the logs have been replayed in ascending order, each
record in its turn; and the tables added to the edit, all of them at level 0, with `mem_`,
which is set only where the last log was reused, hold exactly the operations of the records,
each of them once. -/
theorem recover_operations (hX : c.X.Lawful) {p : Progress} {t : World}
    (hfinal : ((recover c {} false).run (.initial d)).final = t)
    (hok : ((recover c {} false).run (.initial d)).result = some (.ok, p))
    (hdistinct : ∀ m, d.manifest = some m →
      (selectedLogs c.X.logging m.logNumber m.prevLogNumber d.children).Nodup)
    (hopen : ∀ n a, (Call.newSequentialFile n, a) ∈ t.calls → a.status.isOk)
    (htaken : (taken t.calls).Nodup) :
    ∃ m, ∃ logs : List ℕ, d.manifest = some m ∧ logs.Pairwise (· < ·) ∧
      (∀ n, n ∈ logs ↔ d.Has c.X.logging .kLogFile n ∧ (m.logNumber ≤ n ∨ n = m.prevLogNumber)) ∧
      trail t.calls = logs.flatMap (fun n => segment d n true) ∧
      (∀ f ∈ p.edit.newFiles, f.1 = 0 ∧ t.disk.Has c.X.logging .kTableFile f.2.number) ∧
      (t.impl.mem.isSome → c.options.reuseLogs = true ∧ ∃ n, logs.getLast? = some n ∧
        t.impl.logfile = some n ∧ t.impl.logfileNumber = n ∧ marks t.calls = [.reopened n]) ∧
      (t.disk.contents p.edit.newFiles ++ t.impl.mem.getD []).Perm
        (logs.flatMap fun n => recordEntries c.X.coding (longRecords (d.log n))) ∧
      (p.edit.newFiles ≠ [] → p.saveManifest = true) := by
  subst hfinal
  have hsat := @recover_sat c distinctNumbers (.initial d) {} hX false
  obtain ⟨-, hrec⟩ := hsat.result hok htaken
  obtain ⟨m, v, steps, mem, hrec⟩ := hrec rfl
  obtain ⟨save, hlogs⟩ := hrec.logs
  have hm : d.manifest = some m := hrec.manifest
  refine ⟨m, _, hm, sortedLogs_pairwise (hdistinct m hm), fun n => mem_sortedLogs, ?_⟩
  have htrail := hlogs.replays.trail
  have hsteps := steps_eq_of_opened hlogs.segments fun n hn => by
    obtain ⟨a, ha, hfalse⟩ := exists_of_mem_trail (by rw [htrail]; exact List.mem_append_right _ hn)
    rw [hopen n a ha] at hfalse
    exact Bool.noConfusion hfalse
  obtain ⟨files, hedit, -, hsave, hperm⟩ := hlogs.replays.received
  obtain ⟨hhas, hperm⟩ := hperm distinct_distinctNumbers
  have hfiles : p.edit.newFiles = files := by
    rw [hedit]
    rfl
  have hmem := hlogs.mem_final rfl
  refine ⟨?_, fun f hf => ⟨hrec.traced.level f hf, hhas f (hfiles ▸ hf)⟩, hlogs.reused rfl rfl,
    ?_, by rwa [hfiles]⟩
  · rw [htrail, hsteps]
    rfl
  · rw [hfiles, hmem]
    refine hperm.trans (List.Perm.of_eq ?_)
    rw [List.nil_append, hsteps]
    exact insertedRecords_flatMap_segment _ ▸ List.flatMap_assoc

/-- A run of recovery over one log. -/
theorem recover_operations_oneLog : ∃ (p : Progress) (t : World) (logs : List ℕ),
    ((recover (healthy {}) {} false).run (.initial (oneLog [WriteBatch.putAB.rep]))).final = t ∧
      ((recover (healthy {}) {} false).run (.initial (oneLog [WriteBatch.putAB.rep]))).result =
        some (.ok, p) ∧
      (∀ f ∈ p.edit.newFiles, f.1 = 0) ∧
      (t.disk.contents p.edit.newFiles ++ t.impl.mem.getD []).Perm (logs.flatMap fun n =>
        recordEntries leveldbCoding (longRecords ((oneLog [WriteBatch.putAB.rep]).log n))) ∧
      (p.edit.newFiles ≠ [] → p.saveManifest = true) := by
  obtain ⟨p, hok⟩ : ∃ p, ((recover (healthy {}) {} false).run
      (.initial (oneLog [WriteBatch.putAB.rep]))).result = some (.ok, p) := ⟨_, rfl⟩
  have hall : ∀ x ∈ ((recover (healthy {}) {} false).run
      (.initial (oneLog [WriteBatch.putAB.rep]))).final.calls, x.2.status.isOk := by decide
  obtain ⟨m, logs, -, -, -, -, hadded, -, hperm, hsave⟩ :=
    recover_operations documented_lawful rfl hok
      (fun m hm => by obtain rfl : ⟨1, 0, 0, 0, []⟩ = m := Option.some.inj hm; decide)
      (fun n a h => hall _ h) (by decide)
  exact ⟨p, _, logs, rfl, hok, fun f hf => (hadded f hf).1, hperm, hsave⟩

end

end LevelDb
