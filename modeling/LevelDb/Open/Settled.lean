import LevelDb.CompactMemtable
import Mathlib.Logic.Relation

/-!
# Opening and flushing bring nothing back

What is recoverable after a database was opened was recoverable before, or was in a log
that still existed (`LevelDb.dbOpen_within`). The second case is real: opening may commit
the log number `0`, and with it selects every log again, also one that was obsolete.

That does no harm on a disk where every existing log holds recoverable entries only
(`LevelDb.Settled`): then what is recoverable is the same in every state of the run.
Opening and flushing both keep a disk settled, wherever they are stopped, so that a
database that is opened and flushed over and over, and stopped whenever, has the same
entries all along (`LevelDb.maintained_recoverable_iff`).
-/

namespace LevelDb

open CrashLogic Relation

/-! ### What a disk holds -/

/-- The entry is in an existing log, which the manifest may select or not. -/
def Disk.Logged (X : Externals) (d : Disk) (e : Entry) : Prop :=
  ∃ n, d.Has X.logging .kLogFile n ∧ e ∈ d.logEntries X.coding n

/-- The entry is recoverable, or would be if the manifest selected every log. -/
def Disk.Holds (X : Externals) (d : Disk) (e : Entry) : Prop := Recoverable X d e ∨ d.Logged X e

/-- **Every existing log holds recoverable entries only.** -/
def Settled (X : Externals) (d : Disk) : Prop := ∀ e, d.Logged X e → Recoverable X d e

/-- `d'` still has a manifest, and holds nothing, in its logs in particular, that `d` does
not. -/
structure Disk.Within (X : Externals) (d d' : Disk) : Prop where
  manifest : d.manifest.isSome → d'.manifest.isSome
  recoverable : ∀ e, Recoverable X d' e → d.Holds X e
  logged : ∀ e, d'.Logged X e → d.Logged X e

section

variable {c : Context} {A : LowerSet World} {w t u : World} {d d' d'' : Disk} {L : Logging}
  {X : Externals} {e : Entry} {m : Manifest} {imm : MemTable} {v : VersionSet}
  {edit : VersionEdit} {s : Status}

/-- A commit creates no table. -/
theorem Disk.has_table_of_committed {n : ℕ}
    (h : (d.committed m v edit).Has L .kTableFile n) : d.Has L .kTableFile n := by
  rcases has_create.mp h with h | h
  · refine (has_create.mp h).resolve_right fun h => ?_
    exact FileType.noConfusion (parseFileName_manifest_type h)
  · rw [parseFileName_current] at h
    simp at h

namespace Disk.Within

theorem refl (d : Disk) : d.Within X d := ⟨id, fun _ => Or.inl, fun _ => id⟩

theorem trans (h : d.Within X d') (h' : d'.Within X d'') : d.Within X d'' where
  manifest hm := h'.manifest (h.manifest hm)
  recoverable e he := by
    rcases h'.recoverable e he with he | he
    · exact h.recoverable e he
    · exact Or.inr (h.logged e he)
  logged e he := h.logged e (h'.logged e he)

/-- Where every log held recoverable entries only, nothing has been brought back. -/
theorem recoverable_of_settled (h : d.Within X d') (hd : Settled X d) (he : Recoverable X d' e) :
    Recoverable X d e :=
  (h.recoverable e he).elim id (hd e)

/-- A disk is still settled where nothing was lost and nothing was added. -/
theorem settled (h : d.Within X d') (hd : Settled X d)
    (hsafe : ∀ e, Recoverable X d e → Recoverable X d' e) : Settled X d' :=
  fun e he => hsafe e (hd e (h.logged e he))

/-! ### The steps -/

/-- Building tables under unused numbers. -/
theorem of_frame (h : Frame X.logging w t)
    (hunused : ∀ n ∈ newly w t, w.disk.Unused X.logging n) : w.disk.Within X t.disk where
  manifest hm := by rwa [h.off.manifest]
  recoverable e := by
    rintro ⟨m, hm, he⟩
    rw [h.off.manifest] at hm
    refine Or.inl ⟨m, hm, he.imp ?_ ?_⟩
    · rintro ⟨n, hn, hhas, he⟩
      have hold : n ∉ newly w t := fun hnew => (hunused n hnew).2 m hm hn
      exact ⟨n, hn, (h.off.has _ n fun _ => hold).mp hhas, h.off.table n hold ▸ he⟩
    · rintro ⟨n, hn, hhas, he⟩
      rw [logEntries, h.off.log] at he
      exact ⟨n, hn, h.has_log.mp hhas, he⟩
  logged e := by
    rintro ⟨n, hhas, he⟩
    rw [logEntries, h.off.log] at he
    exact ⟨n, h.has_log.mp hhas, he⟩

/-- Creating an empty log. -/
theorem createLog {n : ℕ} (hL : X.logging.Lawful) (hlt : n < 2 ^ 64) :
    d.Within X ((d.create (logFileName [] n)).clearLog n) := by
  have htype : ∀ {type k}, ((d.create (logFileName [] n)).clearLog n).Has X.logging type k →
      d.Has X.logging type k ∨ (type = .kLogFile ∧ k = n) := by
    intro type k hhas
    rcases has_create.mp hhas with h | h
    · exact Or.inl h
    · rw [parseFileName_logFileName hL hlt] at h
      obtain ⟨rfl, rfl⟩ := Prod.mk.inj (Option.some.inj h)
      exact Or.inr ⟨rfl, rfl⟩
  -- the new log is empty, even where it took the place of another one
  have hlog : ∀ {e k}, ((d.create (logFileName [] n)).clearLog n).Has X.logging .kLogFile k →
      e ∈ ((d.create (logFileName [] n)).clearLog n).logEntries X.coding k →
      d.Has X.logging .kLogFile k ∧ e ∈ d.logEntries X.coding k := by
    intro e k hhas he
    by_cases hk : k = n
    · subst hk
      have hnil : ((d.create (logFileName [] k)).clearLog k).log k = [] :=
        Function.update_self _ _ _
      rw [logEntries, hnil] at he
      exact absurd he List.not_mem_nil
    · have hsame : ((d.create (logFileName [] n)).clearLog n).log k = d.log k :=
        Function.update_of_ne hk _ _
      rw [logEntries, hsame] at he
      exact ⟨(htype hhas).resolve_right fun h => hk h.2, he⟩
  refine ⟨id, ?_, ?_⟩
  · rintro e ⟨m, hm, he⟩
    refine Or.inl ⟨m, hm, he.imp ?_ ?_⟩
    · rintro ⟨k, hk, hhas, he⟩
      exact ⟨k, hk, (htype hhas).resolve_right fun h => FileType.noConfusion h.1, he⟩
    · rintro ⟨k, hk, hhas, he⟩
      obtain ⟨hhas, he⟩ := hlog hhas he
      exact ⟨k, hk, hhas, he⟩
  · rintro e ⟨k, hhas, he⟩
    obtain ⟨hhas, he⟩ := hlog hhas he
    exact ⟨k, hhas, he⟩

/-- A commit, where what the new tables hold is no news. -/
theorem committed (hm : d.manifest = some m)
    (hnew : ∀ n ∈ edit.newNumbers, ∀ e ∈ d.table n, d.Holds X e) :
    d.Within X (d.committed m v edit) := by
  have hlog : ∀ {e n}, (d.committed m v edit).Has X.logging .kLogFile n →
      e ∈ (d.committed m v edit).logEntries X.coding n → d.Logged X e :=
    fun {_ n} hhas he => ⟨n, has_log_of_committed hhas, he⟩
  refine ⟨fun _ => rfl, ?_, ?_⟩
  · rintro e ⟨m', hm', he⟩
    obtain rfl : m.apply v edit = m' := Option.some.inj hm'
    rcases he with ⟨n, hn, hhas, he⟩ | ⟨n, -, hhas, he⟩
    · rcases List.mem_append.mp hn with hn | hn
      · exact Or.inl ⟨m, hm, Or.inl ⟨n, hn, has_table_of_committed hhas, he⟩⟩
      · exact hnew n hn e he
    · exact Or.inr (hlog hhas he)
  · rintro e ⟨n, hhas, he⟩
    exact hlog hhas he

/-- Deleting a file that does not take the manifest with it. -/
theorem delete {name : Bytes} (hmanifest : (d.delete X.logging name).manifest = d.manifest) :
    d.Within X (d.delete X.logging name) := by
  refine ⟨fun h => by rwa [hmanifest], ?_, ?_⟩
  · rintro e ⟨m, hm, he⟩
    rw [hmanifest] at hm
    refine Or.inl ⟨m, hm, he.imp ?_ ?_⟩
    · rintro ⟨n, hn, hhas, he⟩
      exact ⟨n, hn, has_of_delete hhas, he⟩
    · rintro ⟨n, hn, hhas, he⟩
      exact ⟨n, hn, has_of_delete hhas, he⟩
  · rintro e ⟨n, hhas, he⟩
    exact ⟨n, has_of_delete hhas, he⟩

end Disk.Within

/-! ### Opening brings nothing back -/

/-- The deletion of obsolete files. -/
theorem deleteFiles_within {live : List ℕ} (filenames : List Bytes)
    (hw : w.disk.Within c.X t.disk) (hm : t.disk.manifest = w.disk.manifest)
    (hdesc : ∀ m, w.disk.manifest = some m → v.manifestFileNumber ≤ m.number) :
    Sat A (deleteFiles c v live filenames) t (fun u => w.disk.Within c.X u.disk)
      fun _ u => w.disk.Within c.X u.disk := by
  induction filenames generalizing t with
  | nil => exact sat_pure.mpr fun _ => hw
  | cons name filenames ih =>
    rw [deleteFiles]
    rcases hp : parseFileName c.X.logging name with _ | ⟨number, type⟩
    · exact ih hw hm
    · dsimp only
      split_ifs with hkeep
      · exact ih hw hm
      · rw [sat_bind, deleteFile, sat_bind]
        refine sat_call (fun _ => hw) fun a _ => sat_pure.mpr fun _ => ?_
        have hspares := (Disk.Spares.delete (d := t.disk) hp (Bool.eq_false_iff.mpr hkeep)
          fun m h => hdesc m (hm.symm.trans h)).manifest
        split_ifs
        · exact ih (hw.trans (.delete hspares)) (hspares.trans hm)
        · exact ih hw hm

theorem deleteObsoleteFiles_within
    (hdesc : ∀ m, w.disk.manifest = some m → w.impl.versions.manifestFileNumber ≤ m.number) :
    Sat A (deleteObsoleteFiles c) w (fun u => w.disk.Within c.X u.disk)
      fun _ u => w.disk.Within c.X u.disk := by
  rw [deleteObsoleteFiles, sat_bind, sat_get]
  intro _
  split_ifs
  · rw [sat_bind, getChildren, sat_bind, sat_get]
    intro _
    rw [sat_bind]
    refine sat_call (fun _ => .refl _) fun a _ => sat_pure.mpr fun _ => ?_
    exact deleteFiles_within _ (.refl _) rfl hdesc
  · exact sat_pure.mpr fun _ => .refl _

/-- The end of `DB::Open`. -/
theorem finishOpen_within (hw : d.Within c.X w.disk)
    (hs : s.isOk → ∃ m, w.disk.manifest = some m ∧ Agrees w.impl.versions m) :
    Sat A (finishOpen c s) w (fun t => d.Within c.X t.disk) fun _ t => d.Within c.X t.disk := by
  rw [finishOpen]
  split_ifs with hok
  · obtain ⟨m, hm, hv⟩ := hs hok
    refine (deleteObsoleteFiles_within fun m' hm' => ?_).seq (fun _ _ _ h => hw.trans h)
      fun _ t _ _ ht => ?_
    · obtain rfl : m = m' := Option.some.inj (hm.symm.trans hm')
      exact hv.manifestFileNumber.le
    · refine maybeScheduleCompaction_sat.seq (fun u _ _ hu => ?_) fun _ u _ _ hu => ?_
      · rw [hu.disk]
        exact hw.trans ht
      · have hw : d.Within c.X u.disk := by
          rw [hu.1.disk]
          exact hw.trans ht
        rw [sat_bind, sat_get]
        exact fun _ => Sat.assert (fun _ => hw) fun _ => sat_pure.mpr fun _ => hw
  · rw [sat_bind, destroyDB, sat_bind, sat_modifyImpl]
    intro _
    rw [sat_bind, sat_get]
    intro _
    split_ifs
    · rw [sat_bind]
      exact sat_call (fun _ => hw) fun a _ => sat_pure.mpr fun _ => sat_pure.mpr fun _ => hw
    · exact sat_pure.mpr fun _ => sat_pure.mpr fun _ => hw

/-- Saving the manifest, where the tables of the edit hold no news. -/
theorem saveManifest_within {save : Bool} (hw : d.Within c.X w.disk)
    (hm : w.disk.manifest = some m)
    (hnew : s.isOk → ∀ n ∈ edit.newNumbers, ∀ e ∈ w.disk.table n, w.disk.Holds c.X e) :
    Sat A (saveManifest c s save edit) w (fun t => d.Within c.X t.disk)
      fun _ t => d.Within c.X t.disk := by
  rw [saveManifest, sat_bind, sat_get]
  intro _
  split_ifs with hsave
  · obtain ⟨hs, -⟩ := Bool.and_eq_true_iff.mp hsave
    have hcommit : ∀ v n k, d.Within c.X
        (w.disk.committed m v ((edit.setPrevLogNumber k).setLogNumber n)) :=
      fun v n k => hw.trans (.committed hm (hnew hs))
    refine logAndApply_sat hm (fun _ => hw) ?_ ?_ ?_
    · exact fun a _ _ => hw
    · exact fun a _ _ => hcommit _ _ _
    · intro t _ _ ht _ _
      rw [ht.disk]
      exact hcommit _ _ _
  · exact sat_pure.mpr fun _ => hw

/-- Creating the log. -/
theorem createLog_within (hL : c.X.logging.Lawful) :
    Sat A (createLog c s edit) w (fun t => w.disk.Within c.X t.disk)
      fun x t => w.disk.Within c.X t.disk ∧ x.2.newNumbers = edit.newNumbers := by
  rw [createLog, sat_bind, sat_get]
  intro _
  split_ifs
  · rw [sat_bind, newFileNumber, sat_bind]
    refine sat_call (fun _ => .refl _) fun a _ => sat_pure.mpr fun _ => ?_
    refine Sat.assert (fun _ => .refl _) fun _ => ?_
    rw [sat_bind]
    refine sat_call (fun _ => .refl _) fun b _ => ?_
    split_ifs
    · rw [sat_bind, sat_modifyImpl]
      exact fun _ => sat_pure.mpr fun _ => ⟨.createLog hL (UInt64.toNat_lt _), rfl⟩
    · exact sat_pure.mpr fun _ => ⟨.refl _, rfl⟩
  · exact sat_pure.mpr fun _ => ⟨.refl _, rfl⟩

/-- What recovery has written into tables was in the logs. -/
theorem Recovery.logged {p : Progress} {steps : List Step} {mem : MemTable}
    (h : Recovery c (openRely c.X.logging d) (.initial d) {} t p m v steps mem)
    (ht : t ∈ openRely c.X.logging d) {n : ℕ} (hn : n ∈ p.edit.newNumbers)
    (he : e ∈ t.disk.table n) : d.Logged c.X e := by
  obtain ⟨save, hlogs⟩ := h.logs
  obtain ⟨files, hfiles, -, -, hperm⟩ := hlogs.replays.received
  obtain ⟨-, hperm⟩ := hperm distinct_openRely
  have hsteps := steps_eq_of_opened hlogs.segments fun n hn =>
    ht.2.2 n (by rw [hlogs.replays.trail]; exact List.mem_append_right _ hn)
  have hin : e ∈ t.disk.contents files ++ mem := by
    refine List.mem_append_left _ ?_
    rw [hfiles] at hn
    obtain ⟨f, hf, rfl⟩ := List.mem_map.mp hn
    exact List.mem_flatMap.mpr ⟨f, hf, he⟩
  rw [hperm.mem_iff, List.nil_append, hsteps, insertedRecords_flatMap_segment, recordEntries,
    List.flatMap_assoc] at hin
  obtain ⟨k, hk, he⟩ := List.mem_flatMap.mp hin
  exact ⟨k, (mem_sortedLogs.mp hk).1, he⟩

/-- **Opening** loses nothing and brings nothing in, wherever it is stopped. -/
theorem dbOpen_kept (hX : c.X.Lawful) (hm : d.manifest = some m) :
    Sat (openRely c.X.logging d) (dbOpen c) (.initial d)
      (fun t => Safe c.X d t ∧ d.Within c.X t.disk)
      fun _ t => Safe c.X d t ∧ d.Within c.X t.disk := by
  have hsome : (World.initial d).disk.manifest.isSome := by
    rw [show (World.initial d).disk.manifest = some m from hm]
    rfl
  have hrecovered : ∀ {t}, t ∈ openRely c.X.logging d → Frame c.X.logging (.initial d) t →
      Safe c.X d t ∧ d.Within c.X t.disk := fun ht h =>
    ⟨h.safe_open ht, .of_frame h fun n hn => ht.2.1 n (mem_taken_of_newly h.le hn)⟩
  rw [dbOpen]
  refine (recover_sat hX).seq (fun t _ ht h => hrecovered ht (h hsome)) ?_
  rintro ⟨s, p⟩ t - ht ⟨hframe, hrec⟩
  replace hframe := hframe hsome
  obtain ⟨hsafe, hwithin⟩ := hrecovered ht hframe
  refine ((createLog_sat hX.logging).inter (createLog_within hX.logging)).seq
    (fun u htu hu h => ⟨hsafe.createLog hframe htu hu h.1.2, hwithin.trans h.2⟩) ?_
  rintro ⟨s', edit⟩ u htu hu ⟨⟨-, hsp, -, -, hok⟩, hwithin', hedit⟩
  have hsafe' := hsafe.createLog hframe htu hu hsp
  have hmu : u.disk.manifest = some m := hsp.manifest.trans (hframe.off.manifest.trans hm)
  have hloaded : s'.isOk → ∃ v, u.impl.versions = v ∧ v.live = m.live ∧
      (p.saveManifest = false → Agrees v m) := by
    intro hs'
    obtain ⟨hs, hcases⟩ := hok hs'
    obtain ⟨m', v, steps, mem, hrec⟩ := hrec hs
    obtain rfl : m = m' := Option.some.inj (hm.symm.trans hrec.manifest)
    refine ⟨v, ?_, hrec.live, hrec.agrees⟩
    rcases hcases with ⟨-, rfl, -⟩ | ⟨-, n, -, hlog⟩
    · exact hrec.versions
    · rw [hlog.impl]
      exact hrec.versions
  -- what the edit adds was in a log of the disk that is opened, and the log is still there
  have hnew : s'.isOk → ∀ n ∈ edit.newNumbers, ∀ e ∈ u.disk.table n, u.disk.Holds c.X e := by
    intro hs' n hn e he
    obtain ⟨hs, -⟩ := hok hs'
    obtain ⟨m', v, steps, mem, hrec⟩ := hrec hs
    rw [hsp.table n fun h => FileType.noConfusion h] at he
    obtain ⟨k, hk, he⟩ := hrec.logged ht (hedit ▸ hn) he
    have hold : OtherLogs (newly t u) .kLogFile k := fun _ hnew =>
      (hu.2.1 k (mem_taken_of_newly htu hnew)).1 hk
    refine Or.inr ⟨k, (hsp.has _ k hold).mpr (hframe.has_log.mpr hk), ?_⟩
    rw [Disk.logEntries, hsp.log k hold, hframe.off.log]
    exact he
  refine ((saveManifest_safe hsafe' hmu (fun hs' e he => ?_) (fun hs' => ?_)
    fun hs' hsave => ?_).inter (saveManifest_within (hwithin.trans hwithin') hmu hnew)).seq
      (fun _ _ _ h => h) fun s t' _ _ h =>
        (finishOpen_safe h.1.1 h.1.2).inter (finishOpen_within h.2 h.1.2)
  · obtain ⟨hs, hcases⟩ := hok hs'
    obtain ⟨m', v, steps, mem, hrec⟩ := hrec hs
    obtain rfl : m = m' := Option.some.inj (hm.symm.trans hrec.manifest)
    rcases hcases with ⟨hmem, rfl, rfl⟩ | ⟨hmem, n, rfl, hlog⟩
    · exact hrec.recoverable_commit hu hmem hsafe he
    · refine Disk.recoverable_committed_zero hmu (hsafe' e he) ?_
      rw [hlog.impl]
      exact congrArg some (hrec.logfileNumber hmem)
  · obtain ⟨v, rfl, hlive, -⟩ := hloaded hs'
    exact hlive
  · obtain ⟨v, rfl, -, hv⟩ := hloaded hs'
    exact hv hsave

/-- **Opening invents nothing**, where there is a manifest and as long as every selected log
opens and the file numbers are new: an entry that is recoverable in any state of the run was
recoverable before, or is in a log that existed before. -/
theorem dbOpen_within (hX : c.X.Lawful) (hm : d.manifest.isSome)
    (hw : w ∈ ((dbOpen c).run (.initial d)).states) (hrely : w ∈ openRely c.X.logging d)
    (he : Recoverable c.X w.disk e) : d.Holds c.X e := by
  obtain ⟨m, hm⟩ := Option.isSome_iff_exists.mp hm
  have hstates := (dbOpen_kept hX hm).states (fun _ _ h => h) w hw hrely
  exact hstates.2.recoverable e he

/-- The state in which opening the sample database ends. -/
abbrev opened : World :=
  ((dbOpen (healthy {})).run (.initial (oneLog [WriteBatch.putAB.rep]))).final

theorem opened_mem_openRely :
    opened ∈ openRely leveldbLogging (oneLog [WriteBatch.putAB.rep]) := by
  have htaken : ∀ n ∈ taken opened.calls, n ≠ 3 := by decide
  have htrail : trail opened.calls = [.opened 3 true, .inserted 3 WriteBatch.putAB.rep] := by
    decide
  exact ⟨by decide, fun n hn => unused_oneLog (htaken n hn), fun n => by rw [htrail]; simp⟩

theorem opened_recoverable : Recoverable documented opened.disk ⟨7, .kTypeValue, [97], [98]⟩ :=
  ⟨_, rfl, Or.inr ⟨3, Or.inl (Nat.zero_le 3), ⟨logFileName [] 3, by decide, by decide⟩,
    by decide⟩⟩

/-- The entry of the sample database was there before. -/
theorem dbOpen_within_oneLog :
    (oneLog [WriteBatch.putAB.rep]).Holds documented ⟨7, .kTypeValue, [97], [98]⟩ :=
  dbOpen_within (c := healthy {}) documented_lawful rfl (Run.mem_states.mpr (Or.inr rfl))
    opened_mem_openRely opened_recoverable

/-! ### Flushing brings nothing back -/

/-- The commit of a flush: what is in its table was in the older logs. -/
theorem replaceMemtable_within (h : Rotated c.X w m imm) (ht : Tabled c.X w imm s edit t)
    (htA : t ∈ flushRely c.X.logging w) :
    Sat A (replaceMemtable c s edit) t (fun u => w.disk.Within c.X u.disk)
      fun _ u => w.disk.Within c.X u.disk := by
  have hm : t.disk.manifest = some m := ht.frame.off.manifest.trans h.manifest
  have hwithin : w.disk.Within c.X t.disk := .of_frame ht.frame (htA ht.frame.le)
  rw [replaceMemtable]
  split_ifs with hs
  · rw [sat_bind, sat_get]
    intro _
    have hnew : ∀ n ∈ edit.newNumbers, ∀ e ∈ t.disk.table n, t.disk.Holds c.X e := by
      obtain ⟨files, rfl, -, hperm⟩ := ht.table hs
      intro n hn e he
      obtain ⟨f, hf, rfl⟩ := List.mem_map.mp hn
      have himm : e ∈ imm := hperm.mem_iff.mp (List.mem_flatMap.mpr ⟨f, hf, he⟩)
      exact Or.inl (ht.frame.safe (htA ht.frame.le) e (h.recoverable (Or.inr (Or.inl himm))))
    have hcommit : ∀ v n k, w.disk.Within c.X
        (t.disk.committed m v ((edit.setPrevLogNumber k).setLogNumber n)) :=
      fun v n k => hwithin.trans (.committed hm hnew)
    refine logAndApply_sat hm (fun _ => hwithin) (fun a _ _ => hwithin)
      (fun a _ _ => hcommit _ _ _) fun u _ _ hu _ _ => ?_
    rw [hu.disk]
    exact hcommit _ _ _
  · exact sat_pure.mpr fun _ => hwithin

/-- **Flushing** brings nothing in, wherever it is stopped. -/
theorem compactMemtable_within (hX : c.X.Lawful) (h : Rotated c.X w m imm) :
    Sat (flushRely c.X.logging w) (compactMemtable c) w (fun t => w.disk.Within c.X t.disk)
      fun _ t => w.disk.Within c.X t.disk := by
  have hframe : ∀ {t}, t ∈ flushRely c.X.logging w → Frame c.X.logging w t →
      w.disk.Within c.X t.disk := fun ht hframe => .of_frame hframe (ht hframe.le)
  rw [compactMemtable, sat_bind, sat_get]
  intro _
  rw [h.immutable]
  refine (writeLevel10Table_sat hX).seq (fun t _ ht h => hframe ht h) ?_
  rintro ⟨s, edit⟩ t - - ⟨hquiet, files, hedit, hfresh, hperm⟩
  have ht : Tabled c.X w imm s edit t := by
    obtain ⟨pending, hi⟩ := hquiet.impl
    exact ⟨hquiet.frame, ⟨pending, _, hi⟩, fun hs => ⟨files, hedit, hfresh, hperm hs⟩⟩
  refine (checkShutdown_sat (I := fun t => Tabled c.X w imm s edit t) (fun _ h => h) ht).seq
    (fun t _ htA ht => hframe htA ht.frame) fun s' t _ htA ht => ?_
  refine ((replaceMemtable_sat h ht htA).inter (replaceMemtable_within h ht htA)).seq
    (fun _ _ _ h => h.2) fun s'' u _ _ hu => ?_
  obtain ⟨hu, hwithin⟩ := hu
  split_ifs at hu with hs
  · rw [if_pos hs, sat_bind, sat_modifyImpl]
    intro _
    refine (deleteObsoleteFiles_within fun m' hm' => ?_).seq
      (fun _ _ _ hv => hwithin.trans hv) fun _ v _ _ hv => sat_pure.mpr fun _ => hwithin.trans hv
    obtain ⟨m, hm, hagrees⟩ := hu.agrees
    obtain rfl : m = m' := Option.some.inj (hm.symm.trans hm')
    exact hagrees.manifestFileNumber.le
  · rw [if_neg hs, sat_bind, recordBackgroundError, sat_modifyImpl]
    exact fun _ => sat_pure.mpr fun _ => hwithin

/-! ### The life of a database -/

/-- **One stretch of the life of a database**, which may be cut short: it is opened, or its
immutable memtable is flushed. The options and the answers of the environment are those of
the stretch. -/
inductive Maintained (X : Externals) : Disk → Disk → Prop
  | opened {c : Context} {d : Disk} {t : World} (hc : c.X = X)
    (ht : t ∈ ((dbOpen c).run (.initial d)).states) (hrely : t ∈ openRely X.logging d) :
    Maintained X d t.disk
  | flushed {c : Context} {w t : World} {m : Manifest} {imm : MemTable} (hc : c.X = X)
    (hrot : Rotated X w m imm) (ht : t ∈ ((compactMemtable c).run w).states)
    (hrely : t ∈ flushRely X.logging w) : Maintained X w.disk t.disk

/-- A stretch loses nothing and brings nothing in. -/
theorem Maintained.kept (hX : X.Lawful) (h : Maintained X d d') (hd : d.manifest.isSome) :
    (∀ e, Recoverable X d e → Recoverable X d' e) ∧ d.Within X d' := by
  cases h with
  | opened hc ht hrely =>
    subst hc
    obtain ⟨m, hm⟩ := Option.isSome_iff_exists.mp hd
    exact (dbOpen_kept hX hm).states (fun _ _ h => h) _ ht hrely
  | flushed hc hrot ht hrely =>
    subst hc
    have hboth := (compactMemtable_sat hX hrot).inter (compactMemtable_within hX hrot)
    exact hboth.states (fun _ _ h => ⟨h.1.1, h.2⟩) _ ht hrely

/-- **A settled database has the same entries all along**, however often it is opened and
flushed, and wherever each of these is stopped; and it stays settled. What opening and
flushing rely on is assumed of each stretch (`LevelDb.Maintained`). -/
theorem maintained_recoverable_iff (hX : X.Lawful) (hm : d.manifest.isSome) (hd : Settled X d)
    (h : ReflTransGen (Maintained X) d d') :
    Settled X d' ∧ ∀ e, Recoverable X d' e ↔ Recoverable X d e := by
  suffices hall : d'.manifest.isSome ∧ Settled X d' ∧
      ∀ e, Recoverable X d' e ↔ Recoverable X d e from hall.2
  induction h with
  | refl => exact ⟨hm, hd, fun _ => Iff.rfl⟩
  | tail _ hstep ih =>
    obtain ⟨hm, hd, hiff⟩ := ih
    obtain ⟨hsafe, hwithin⟩ := hstep.kept hX hm
    refine ⟨hwithin.manifest hm, hwithin.settled hd hsafe, fun e => ?_⟩
    exact ⟨fun he => (hiff e).mp (hwithin.recoverable_of_settled hd he),
      fun he => hsafe e ((hiff e).mpr he)⟩

/-- A disk on which the manifest selects every existing log is settled. -/
theorem settled_of_selects (hm : d.manifest = some m)
    (hall : ∀ n, d.Has X.logging .kLogFile n → m.Selects n) : Settled X d := by
  rintro e ⟨n, hhas, he⟩
  exact ⟨m, hm, Or.inr ⟨n, hall n hhas, hhas, he⟩⟩

/-- The sample database has its entry before and after it is opened. -/
theorem maintained_recoverable_iff_oneLog :
    Settled documented opened.disk ∧
      (Recoverable documented opened.disk ⟨7, .kTypeValue, [97], [98]⟩ ↔
        Recoverable documented (oneLog [WriteBatch.putAB.rep]) ⟨7, .kTypeValue, [97], [98]⟩) := by
  have hsettled : Settled documented (oneLog [WriteBatch.putAB.rep]) :=
    settled_of_selects rfl fun n _ => Or.inl (Nat.zero_le n)
  have hstep : Maintained documented (oneLog [WriteBatch.putAB.rep]) opened.disk :=
    .opened (c := healthy {}) rfl (Run.mem_states.mpr (Or.inr rfl)) opened_mem_openRely
  have hlife := maintained_recoverable_iff documented_lawful rfl hsettled (.single hstep)
  exact ⟨hlife.1, hlife.2 _⟩

end

end LevelDb
