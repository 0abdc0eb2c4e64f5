import LevelDb.Recover.Sources

/-!
# Replaying the logs

What the replay loop of `RecoverLogFile` does, over any number of records and with
its memtable flushed at any of them. The invariant is a relation between two points
of a run, `LevelDb.Replays`, of which one record is an instance
(`LevelDb.replayRecord_sat`) and which composes (`LevelDb.Replays.trans`); a log and
the list of all logs are then inductions. Along any such stretch

* the files added to the edit, together with the memtable, have received exactly the
  entries of the records inserted – none lost, none twice;
* `save_manifest` is set as soon as a file was added;
* `max_sequence` is the greatest of the header ends of the records inserted.

A log ends in one of two ways. Either its memtable is written out, and the database
object is as it was (`LevelDb.Still`); or, for the last log only, it is handed over
to the database object together with the log (`LevelDb.HandedOver`).
-/

namespace LevelDb

open CrashLogic

open scoped List

/-! ### What the records hold -/

/-- The records inserted. -/
def insertedRecords (steps : List Step) : List Bytes :=
  steps.filterMap fun
    | .inserted _ record => some record
    | .opened _ _ => none

/-- The records of a log that are large enough. -/
def longRecords (items : List LogItem) : List Bytes :=
  items.filterMap fun
    | .record record => if kHeader ≤ record.length then some record else none
    | .corruption _ _ => none

/-- The entries that these records put into the database. -/
def recordEntries (C : Coding) (records : List Bytes) : List Entry :=
  records.flatMap fun record => WriteBatch.entries C ⟨record⟩

section

variable {C : Coding} {steps steps' : List Step} {records records' : List Bytes}

@[simp] theorem insertedRecords_append :
    insertedRecords (steps ++ steps') = insertedRecords steps ++ insertedRecords steps' :=
  List.filterMap_append

@[simp] theorem insertedRecords_map (log : ℕ) :
    insertedRecords (records.map (Step.inserted log)) = records := by
  induction records with
  | nil => rfl
  | cons r records ih => simp_all [insertedRecords]

@[simp] theorem insertedRecords_nil : insertedRecords [] = [] := rfl

@[simp] theorem insertedRecords_opened (log : ℕ) (ok : Bool) :
    insertedRecords [.opened log ok] = [] := rfl

@[simp] theorem insertedRecords_inserted (log : ℕ) (record : Bytes) :
    insertedRecords [.inserted log record] = [record] := rfl

@[simp] theorem recordEntries_nil : recordEntries C [] = [] := rfl

@[simp] theorem recordEntries_append :
    recordEntries C (records ++ records') =
      recordEntries C records ++ recordEntries C records' := by
  simp [recordEntries]

@[simp] theorem recordEntries_singleton (record : Bytes) :
    recordEntries C [record] = WriteBatch.entries C ⟨record⟩ := by
  simp [recordEntries]

/-- Without their logs, they are the entries of the records. -/
theorem map_snd_origins (steps : List Step) :
    (origins C steps).map Prod.snd = recordEntries C (insertedRecords steps) := by
  induction steps with
  | nil => rfl
  | cons step steps ih =>
    rw [← List.singleton_append, origins_append, List.map_append, ih, insertedRecords_append,
      recordEntries_append]
    cases step <;> simp

end

/-! ### The invariant -/

variable (c : Context) (A : LowerSet World)

/-- In the rely, no number is taken twice. -/
def Distinct : Prop := ∀ w ∈ A, (taken w.calls).Nodup

/-- **The files added and the memtable left** have received these entries. -/
def Received (w t : World) (edit edit' : VersionEdit) (mem mem' : MemTable)
    (entries : List Entry) (saveManifest : Bool) : Prop :=
  ∃ files, edit' = edit.addFiles files ∧ (∀ f ∈ files, f.2.number ∈ newly w t) ∧
    (files ≠ [] → saveManifest = true) ∧
    (Distinct A → (∀ f ∈ files, t.disk.Has c.X.logging .kTableFile f.2.number) ∧
      (t.disk.contents files ++ mem').Perm (mem ++ entries))

/-- **A stretch of recovery** from `w` to `t`, in which the memtable at hand went from
`mem` to `mem'` and the given steps were taken. -/
structure Replays (w : World) (p : Progress) (mem : MemTable) (t : World) (p' : Progress)
    (mem' : MemTable) (steps : List Step) : Prop where
  frame : Frame c.X.logging w t
  trail : trail t.calls = trail w.calls ++ steps
  received : Received c A w t p.edit p'.edit mem mem'
    (recordEntries c.X.coding (insertedRecords steps)) p'.saveManifest
  maxSequence : p'.maxSequence =
    (insertedRecords steps).foldl (fun m record => raise c.X.coding m ⟨record⟩) p.maxSequence
  saveManifest : p.saveManifest = true → p'.saveManifest = true
  traced : Traced c.X.coding p.edit mem w → Traced c.X.coding p'.edit mem' t

/-- Besides the pending outputs, the database object is as it was, and no log was
reopened. -/
structure Still (w t : World) : Prop where
  impl : ∃ pending, t.impl = { w.impl with pendingOutputs := pending }
  marks : marks t.calls = marks w.calls

/-- The memtable and the log were handed over to the database object. -/
structure HandedOver (log : ℕ) (mem : MemTable) (w t : World) : Prop where
  impl : ∃ pending size, t.impl = { w.impl with
    pendingOutputs := pending
    logfile := some log
    log := some ⟨log, size⟩
    logfileNumber := log
    mem := some mem }
  marks : marks t.calls = marks w.calls ++ [.reopened log]

section

variable {c A} {w t u : World} {p p' p'' : Progress} {mem mem' mem'' : MemTable}
  {steps steps' : List Step}

theorem Still.refl (w : World) : Still w w := ⟨⟨_, rfl⟩, rfl⟩

theorem Still.trans (h : Still w t) (h' : Still t u) : Still w u := by
  obtain ⟨_, hp⟩ := h.impl
  obtain ⟨q, hq⟩ := h'.impl
  exact ⟨⟨q, by rw [hq, hp]⟩, h'.marks.trans h.marks⟩

theorem Still.handedOver {log : ℕ} (h : Still w t) (h' : HandedOver log mem t u) :
    HandedOver log mem w u := by
  obtain ⟨_, hp⟩ := h.impl
  obtain ⟨q, size, hq⟩ := h'.impl
  exact ⟨⟨q, size, by rw [hq, hp]⟩, by rw [h'.marks, h.marks]⟩

theorem Quietly.still (h : Quietly c.X.logging w t) : Still w t := ⟨h.impl, h.marks⟩

/-- Stretches compose: the tables written in the first one are still there after the
second, because its numbers are others. -/
theorem Received.trans {edit edit' edit'' : VersionEdit} {entries entries' : List Entry}
    {save save' : Bool} (hu : u ∈ A) (hwt : w ≤ t) (htu : Frame c.X.logging t u)
    (h : Received c A w t edit edit' mem mem' entries save)
    (h' : Received c A t u edit' edit'' mem' mem'' entries' save')
    (hsave : save = true → save' = true) :
    Received c A w u edit edit'' mem mem'' (entries ++ entries') save' := by
  obtain ⟨files, rfl, hnew, hs, hperm⟩ := h
  obtain ⟨files', rfl, hnew', hs', hperm'⟩ := h'
  refine ⟨files ++ files', VersionEdit.addFiles_addFiles .., ?_, ?_, fun hA => ?_⟩
  · intro f hf
    rw [newly_trans hwt htu.le]
    exact (List.mem_append.mp hf).imp (hnew f) (hnew' f)
  · intro hne
    by_cases hfiles : files = []
    · exact hs' fun h => hne (by rw [hfiles, h, List.append_nil])
    · exact hsave (hs hfiles)
  · obtain ⟨hhas, hperm⟩ := hperm hA
    obtain ⟨hhas', hperm'⟩ := hperm' hA
    have hkept : ∀ f ∈ files, f.2.number ∈ taken t.calls := fun f hf =>
      mem_taken_of_newly hwt (hnew f hf)
    have hcontents : u.disk.contents files = t.disk.contents files :=
      List.flatMap_congr fun f hf => htu.table_of_taken (hA u hu) (hkept f hf)
    refine ⟨fun f hf => ?_, ?_⟩
    · rcases List.mem_append.mp hf with hf | hf
      · exact (htu.has_of_taken (hA u hu) (hkept f hf)).mpr (hhas f hf)
      · exact hhas' f hf
    · calc u.disk.contents (files ++ files') ++ mem''
          = t.disk.contents files ++ (u.disk.contents files' ++ mem'') := by
            rw [Disk.contents_append, hcontents, List.append_assoc]
        _ ~ t.disk.contents files ++ (mem' ++ entries') := hperm'.append_left _
        _ = t.disk.contents files ++ mem' ++ entries' := (List.append_assoc ..).symm
        _ ~ mem ++ entries ++ entries' := hperm.append_right _
        _ = mem ++ (entries ++ entries') := List.append_assoc ..

/-- A stretch that takes no step of recovery and adds no file. -/
theorem Replays.idle (h : Frame c.X.logging w t)
    (ht : LevelDb.trail t.calls = LevelDb.trail w.calls)
    (hs : sources c.X.coding t.calls = sources c.X.coding w.calls) (p : Progress)
    (mem : MemTable) : Replays c A w p mem t p mem [] where
  frame := h
  trail := by rw [ht, List.append_nil]
  received := ⟨[], by simp, by simp, by simp, fun _ => by simp⟩
  maxSequence := rfl
  saveManifest := id
  traced h := h.congr hs ht

theorem Replays.trans (hu : u ∈ A) (h : Replays c A w p mem t p' mem' steps)
    (h' : Replays c A t p' mem' u p'' mem'' steps') :
    Replays c A w p mem u p'' mem'' (steps ++ steps') where
  frame := h.frame.trans h'.frame
  trail := by rw [h'.trail, h.trail, List.append_assoc]
  received := by
    rw [insertedRecords_append, recordEntries_append]
    exact h.received.trans hu h.frame.le h'.frame h'.received h'.saveManifest
  maxSequence := by
    rw [insertedRecords_append, List.foldl_append, ← h.maxSequence, h'.maxSequence]
  saveManifest hs := h'.saveManifest (h.saveManifest hs)
  traced hw := h'.traced (h.traced hw)

/-- A call that is no step of recovery. -/
theorem Replays.after (h : Replays c A w p mem t p' mem' steps) {what : Call} {a : Answer}
    (hu : t.after what a t.disk ∈ A) (hq : what.quiet) (hs : what.unsourced) :
    Replays c A w p mem (t.after what a t.disk) p' mem' steps := by
  have ht : LevelDb.trail (t.after what a t.disk).calls = LevelDb.trail t.calls := by
    rw [World.after_calls, trail_append, trail_quiet hq, List.append_nil]
  simpa using h.trans hu (.idle ((Frame.refl t).after what a) ht (sources_unsourced hs) p' mem')

theorem Still.after (h : Still w t) {what : Call} {a : Answer} (hq : what.quiet) :
    Still w (t.after what a t.disk) :=
  ⟨h.impl, by rw [World.after_calls, marks_append, marks_quiet hq, List.append_nil, h.marks]⟩

/-- Writing the memtable out. -/
theorem Replays.flush {edit : VersionEdit} {files : List (ℕ × FileMetaData)} (hp : p.edit = edit)
    (hq : Quietly c.X.logging w t) (hf : FreshTables c.X.logging w t files)
    (hperm : (t.disk.contents files).Perm mem)
    (ht : Traced c.X.coding edit mem w → Traced c.X.coding (edit.addFiles files) [] t) :
    Replays c A w p mem t { p with edit := edit.addFiles files, saveManifest := true } [] [] where
  frame := hq.frame
  trail := by rw [hq.trail, List.append_nil]
  received := ⟨files, by rw [hp], fun f hfm => (hf f hfm).1, fun _ => rfl, fun _ =>
    ⟨fun f hfm => (hf f hfm).2, by simpa using hperm⟩⟩
  maxSequence := rfl
  saveManifest _ := rfl
  traced hw := ht (hp ▸ hw)

end

/-! ### One log -/

/-- A stretch of the replay loop. While there was no flush, the edit is as it was and
the memtable has every entry; once a record was inserted, there is a memtable or the
manifest is to be saved. -/
structure Replayed (w : World) (r : Replay) (t : World) (r' : Replay) (steps : List Step) :
    Prop where
  replays : Replays c A w r.toProgress (r.mem.getD []) t r'.toProgress (r'.mem.getD []) steps
  still : Still w t
  unflushed : r'.compactions = 0 → r.compactions = 0 ∧ r'.edit = r.edit ∧
    r'.saveManifest = r.saveManifest ∧
    r'.mem.getD [] = r.mem.getD [] ++ recordEntries c.X.coding (insertedRecords steps)
  kept : r.mem.isSome ∨ insertedRecords steps ≠ [] → r'.mem.isSome ∨ r'.saveManifest = true

section

variable {c A} {w t u : World} {r r' r'' : Replay} {steps steps' : List Step} {log : ℕ}

theorem Replayed.refl (w : World) (r : Replay) : Replayed c A w r w r [] :=
  ⟨.idle (.refl w) rfl rfl _ _, .refl _, fun h => ⟨h, rfl, rfl, by simp⟩,
    fun h => by simpa using Or.inl h⟩

theorem Replayed.trans (hu : u ∈ A) (h : Replayed c A w r t r' steps)
    (h' : Replayed c A t r' u r'' steps') : Replayed c A w r u r'' (steps ++ steps') where
  replays := h.replays.trans hu h'.replays
  still := h.still.trans h'.still
  unflushed h0 := by
    obtain ⟨h0, hedit, hsave, hmem⟩ := h'.unflushed h0
    obtain ⟨h0, hedit', hsave', hmem'⟩ := h.unflushed h0
    refine ⟨h0, hedit.trans hedit', hsave.trans hsave', ?_⟩
    rw [hmem, hmem', insertedRecords_append, recordEntries_append, List.append_assoc]
  kept hk := by
    by_cases hfirst : r.mem.isSome ∨ insertedRecords steps ≠ []
    · rcases h.kept hfirst with hmem | hsave
      · exact h'.kept (Or.inl hmem)
      · exact Or.inr (h'.replays.saveManifest hsave)
    · refine h'.kept (Or.inr fun hnil => hfirst (hk.imp_right fun hne hnil' => hne ?_))
      rw [insertedRecords_append, hnil, hnil', List.append_nil]

theorem Replayed.after (h : Replayed c A w r t r' steps) {what : Call} {a : Answer}
    (hu : t.after what a t.disk ∈ A) (hq : what.quiet) (hs : what.unsourced) :
    Replayed c A w r (t.after what a t.disk) r' steps :=
  ⟨h.replays.after hu hq hs, h.still.after hq, h.unflushed, h.kept⟩

/-- **One record**: its entries go to the memtable, and from there possibly to a
table. -/
theorem replayRecord_sat (hX : c.X.Lawful) {record : Bytes} (hlen : kHeader ≤ record.length) :
    Sat A (replayRecord c log record r) w (Frame c.X.logging w) fun r' t =>
      Frame c.X.logging w t ∧
        (r'.status.isOk → Replayed c A w r t r' [.inserted log record]) := by
  have hcontents : WriteBatchInternal.setContents record = .ok ⟨record⟩ := if_pos hlen
  have hinsert := WriteBatchInternal.insertInto_eq hX.coding (b := ⟨record⟩) hlen (r.mem.getD [])
  rw [replayRecord, hcontents]
  simp only [ofExcept, sat_bind, sat_pure, hinsert]
  intro _
  refine sat_call (fun _ => Frame.refl w) fun a _ _ => ?_
  generalize hst : maybeIgnoreError c _ = status
  generalize ht : w.after (.insertInto log record) a w.disk = t
  have hframe : Frame c.X.logging w t := ht ▸ (Frame.refl w).after _ a
  have hstill : Still w t := ⟨⟨_, by rw [← ht]; rfl⟩, by rw [← ht]; simp [marks]⟩
  -- the stretch up to the insertion, with the memtable at hand
  have hins : Replays c A w r.toProgress (r.mem.getD []) t
      { r.toProgress with maxSequence := raise c.X.coding r.maxSequence ⟨record⟩ }
      (r.mem.getD [] ++ WriteBatch.entries c.X.coding ⟨record⟩) [.inserted log record] := by
    refine ⟨hframe, by rw [← ht]; simp, ⟨[], by simp, by simp, by simp, fun _ => ?_⟩, by simp, id,
      fun hw => ht ▸ hw.inserted⟩
    simp
  by_cases hok : status.isOk
  · rw [if_pos hok]
    split_ifs with hflush
    · refine (writeLevel10Table_traced hX).seq (fun _ _ _ h => hframe.trans h) ?_
      rintro ⟨s, edit⟩ u _ hu ⟨hq, files, rfl, hfresh, hflush⟩
      refine sat_pure.mpr fun _ => ⟨hframe.trans hq.frame, fun hs => ⟨?_, ?_, ?_, ?_⟩⟩
      · exact hins.trans hu (.flush rfl hq hfresh (hflush hs).1 (hflush hs).2)
      · exact hstill.trans hq.still
      · exact fun h => absurd h (Nat.succ_ne_zero _)
      · exact fun _ => Or.inr rfl
    · exact sat_pure.mpr fun _ => ⟨hframe, fun _ => ⟨hins, hstill,
        fun h0 => ⟨h0, rfl, rfl, by simp⟩, fun _ => Or.inl rfl⟩⟩
  · rw [if_neg hok]
    exact sat_pure.mpr fun _ => ⟨hframe, fun h => absurd h hok⟩

/-- **The replay loop**: the long records of a log are inserted, in order. -/
theorem replayLoop_sat (hX : c.X.Lawful) (items : List LogItem) :
    Sat A (replayLoop c log items r) w (Frame c.X.logging w) fun r' t =>
      Frame c.X.logging w t ∧ (r'.status.isOk →
        Replayed c A w r t r' ((longRecords items).map (Step.inserted log))) := by
  induction items generalizing w r with
  | nil => exact sat_pure.mpr fun _ => ⟨.refl w, fun _ => .refl w r⟩
  | cons item items ih =>
    -- an item that is skipped is one quiet call
    have hskip : ∀ what : Call, what.quiet → what.unsourced →
        longRecords (item :: items) = longRecords items →
        Sat A (do let _ ← call c what; replayLoop c log items r) w (Frame c.X.logging w)
          fun r' t => Frame c.X.logging w t ∧ (r'.status.isOk →
            Replayed c A w r t r' ((longRecords (item :: items)).map (Step.inserted log))) := by
      intro what hq hu hlong
      rw [sat_bind, hlong]
      refine sat_call (fun _ => Frame.refl w) fun a hA => ?_
      have hw := (Frame.refl (L := c.X.logging) w).after what a
      refine ih.mono (fun t _ _ ht => hw.trans ht) fun r' t _ ht h => ⟨hw.trans h.1, fun hs => ?_⟩
      have hcall := (Replayed.refl (c := c) (A := A) w r).after hA hq hu
      simpa using hcall.trans ht (h.2 hs)
    cases item with
    | corruption bytes status => exact hskip _ rfl rfl rfl
    | record record =>
      rw [replayLoop]
      split_ifs with hok hlen
      · refine hskip _ rfl rfl ?_
        have hlt : ¬kHeader ≤ record.length := by simpa [kHeader] using hlen
        simp [longRecords, hlt]
      · have hle : kHeader ≤ record.length := by simpa [kHeader] using hlen
        have hlong : longRecords (.record record :: items) = record :: longRecords items := by
          simp [longRecords, hle]
        refine (replayRecord_sat hX hle).seq (fun _ _ _ h => h) fun r₁ t _ _ ⟨hframe, hrec⟩ => ?_
        split_ifs with hok₁
        · refine ih.mono (fun u _ _ hu => hframe.trans hu) fun r' u _ hu h =>
            ⟨hframe.trans h.1, fun hs => ?_⟩
          rw [hlong]
          exact (hrec hok₁).trans hu (h.2 hs)
        · exact sat_pure.mpr fun _ => ⟨hframe, fun h => absurd h hok₁⟩
      · exact sat_pure.mpr fun _ => ⟨.refl w, fun h => absurd h hok⟩

/-- **Reusing the last log** hands the memtable over; where that does not happen the
memtable is left to be written. -/
theorem reuseLog_sat {lastLog : Bool} :
    Sat A (reuseLog c log lastLog r) w (Frame c.X.logging w) fun mem t =>
      Frame c.X.logging w t ∧ trail t.calls = trail w.calls ∧
        ((mem = r.mem ∧ Still w t) ∨
          (mem = none ∧ HandedOver log (r.mem.getD []) w t ∧ r.status.isOk = true ∧
            r.compactions = 0 ∧ c.options.reuseLogs = true ∧ lastLog = true)) := by
  have hnone : ∀ {t}, Frame c.X.logging w t → trail t.calls = trail w.calls → Still w t →
      Sat A (pure r.mem : Prog (Option MemTable)) t (Frame c.X.logging w) fun mem t =>
        Frame c.X.logging w t ∧ trail t.calls = trail w.calls ∧
          ((mem = r.mem ∧ Still w t) ∨
            (mem = none ∧ HandedOver log (r.mem.getD []) w t ∧ r.status.isOk = true ∧
              r.compactions = 0 ∧ c.options.reuseLogs = true ∧ lastLog = true)) :=
    fun hf ht hs => sat_pure.mpr fun _ => ⟨hf, ht, Or.inl ⟨rfl, hs⟩⟩
  rw [reuseLog]
  split_ifs with hreuse
  · simp only [Bool.and_eq_true, beq_iff_eq] at hreuse
    obtain ⟨⟨⟨hs₀, hopt⟩, hlast⟩, h0⟩ := hreuse
    rw [sat_bind, sat_get]
    intro _
    refine Sat.assert (fun _ => .refl w) fun _ => ?_
    refine Sat.assert (fun _ => .refl w) fun _ => ?_
    refine Sat.assert (fun _ => .refl w) fun _ => ?_
    rw [sat_bind]
    refine sat_call (fun _ => .refl w) fun a _ => ?_
    have hsize : (Call.getFileSize log).quiet = true := rfl
    have hf := (Frame.refl (L := c.X.logging) w).after (.getFileSize log) a
    have hs := (Still.refl w).after (a := a) hsize
    have ht : trail (w.after (.getFileSize log) a w.disk).calls = trail w.calls := by simp [trail]
    split_ifs with ha
    · rw [sat_bind]
      refine sat_call (fun _ => hf) fun b _ => ?_
      have hf' := hf.after (.newAppendableFile log) b
      have hm := marks_newAppendableFile (n := log) (a := b)
      have ht' : trail [(Call.newAppendableFile log, b)] = [] := rfl
      split_ifs with hb
      · rw [if_pos hb] at hm
        rw [sat_bind, sat_modifyImpl]
        refine fun _ => sat_pure.mpr fun _ =>
          ⟨hf'.modify _, ?_, Or.inr ⟨rfl, ?_, hs₀, h0, hopt, hlast⟩⟩
        · rw [World.after_calls, trail_append, ht, ht', List.append_nil]
        · exact ⟨⟨_, a.size, rfl⟩, by rw [World.after_calls, marks_append, hs.marks, hm]⟩
      · rw [if_neg hb] at hm
        refine hnone hf' ?_ ⟨hs.impl, ?_⟩
        · rw [World.after_calls, trail_append, ht, ht', List.append_nil]
        · rw [World.after_calls, marks_append, hs.marks, hm, List.append_nil]
    · exact hnone hf ht hs
  · exact hnone (.refl w) rfl (.refl w)

/-- Reusing a log says nothing about sources. -/
theorem reuseLog_keeps {C : Coding} {lastLog : Bool} :
    Keeps (fun w => sources C w.calls) (reuseLog c log lastLog r) := by
  rw [reuseLog]
  refine .ite (fun _ => .bind keeps_get fun w => ?_) fun _ => keeps_pure _
  refine .bind (keeps_assert _) fun _ => .bind (keeps_assert _) fun _ => .bind (keeps_assert _)
    fun _ => .bind (call_keeps rfl) fun a => .ite (fun _ => ?_) fun _ => keeps_pure _
  refine .bind (call_keeps rfl) fun b => .ite (fun _ => ?_) fun _ => keeps_pure _
  exact .bind modifyImpl_keeps fun _ => keeps_pure _

end

/-! ### All the logs -/

/-- The steps of recovering one log. -/
def segment (d : Disk) (log : ℕ) (ok : Bool) : List Step :=
  .opened log ok :: if ok then (longRecords (d.log log)).map (.inserted log) else []

/-- These are the steps of recovering the log. -/
def IsSegment (d : Disk) (steps : List Step) (log : ℕ) : Prop := ∃ ok, steps = segment d log ok

/-- **A log was recovered**: its memtable was written out, or handed over together
with the log. -/
structure LogRecovered (lastLog : Bool) (log : ℕ) (w : World) (p : Progress) (t : World)
    (p' : Progress) (ok : Bool) (mem : MemTable) : Prop where
  pos : 0 < log
  replays : Replays c A w p [] t p' mem (segment w.disk log ok)
  ending : (Still w t ∧ mem = [] ∧
      (insertedRecords (segment w.disk log ok) ≠ [] → p'.saveManifest = true)) ∨
    (HandedOver log mem w t ∧ lastLog = true ∧ c.options.reuseLogs = true ∧ ok = true ∧
      mem = recordEntries c.X.coding (longRecords (w.disk.log log)))

/-- **The logs were recovered**, in this order: all written out, or all but the last
one, which was handed over. -/
structure LogsRecovered (logs : List ℕ) (w : World) (p : Progress) (t : World) (p' : Progress)
    (steps : List Step) (mem : MemTable) : Prop where
  pos : ∀ log ∈ logs, 0 < log
  replays : Replays c A w p [] t p' mem steps
  segments : Codec.Concat (IsSegment w.disk) steps logs
  ending : (Still w t ∧ mem = [] ∧ (insertedRecords steps ≠ [] → p'.saveManifest = true)) ∨
    ∃ init log before, logs = init ++ [log] ∧ steps = before ++ segment w.disk log true ∧
      Codec.Concat (IsSegment w.disk) before init ∧
      (insertedRecords before ≠ [] → p'.saveManifest = true) ∧ HandedOver log mem w t ∧
      c.options.reuseLogs = true ∧ mem = recordEntries c.X.coding (longRecords (w.disk.log log))

section

variable {c A} {w t u : World} {p p' p'' : Progress} {r : Replay} {steps steps' : List Step}
  {mem : MemTable} {log : ℕ} {logs : List ℕ}

@[simp] theorem insertedRecords_segment (d : Disk) (log : ℕ) :
    insertedRecords (segment d log true) = longRecords (d.log log) := by
  have h : segment d log true =
      [.opened log true] ++ (longRecords (d.log log)).map (.inserted log) := rfl
  rw [h, insertedRecords_append, insertedRecords_map]
  rfl

/-- The end of `RecoverLogFile`, with the memtable that reusing the log has left. -/
theorem writeLeftover_sat (hX : c.X.Lawful) {lastLog : Bool} {left : Option MemTable}
    (hpos : 0 < log) (hframe : Frame c.X.logging w u)
    (hr : r.status.isOk →
      Replays c A w p [] u r.toProgress (r.mem.getD []) (segment w.disk log true) ∧
      (insertedRecords (segment w.disk log true) ≠ [] → r.mem.isSome ∨ r.saveManifest = true))
    (hleft : (left = r.mem ∧ (r.status.isOk → Still w u)) ∨
      (left = none ∧ r.status.isOk = true ∧ HandedOver log (r.mem.getD []) w u ∧ lastLog = true ∧
        c.options.reuseLogs = true ∧
        r.mem.getD [] = recordEntries c.X.coding (longRecords (w.disk.log log)))) :
    Sat A (writeLeftover c left r) u (Frame c.X.logging w) fun x t =>
      Frame c.X.logging w t ∧
        (x.1.isOk → ∃ mem, LogRecovered c A lastLog log w p t x.2 true mem) := by
  rcases hleft with ⟨hleft, hstill⟩ | ⟨hleft, hs, hhand, hlast, hopt, hmem⟩
  · rcases left with _ | left
    · refine sat_pure.mpr fun _ => ⟨hframe, fun hs => ⟨[], hpos, ?_, Or.inl ⟨hstill hs, rfl, ?_⟩⟩⟩
      · simpa [← hleft] using (hr hs).1
      · simpa [← hleft] using (hr hs).2
    · rw [writeLeftover]
      split_ifs with hs
      · refine (writeLevel10Table_traced hX).seq (fun _ _ _ h => hframe.trans h) ?_
        rintro ⟨s, edit⟩ t _ ht ⟨hq, files, rfl, hfresh, hflush⟩
        refine sat_pure.mpr fun _ => ⟨hframe.trans hq.frame, fun hs' => ⟨[], hpos, ?_,
          Or.inl ⟨(hstill hs).trans hq.still, rfl, fun _ => rfl⟩⟩⟩
        have hrep := (hr hs).1
        rw [← hleft] at hrep
        simpa using hrep.trans ht (.flush rfl hq hfresh (hflush hs').1 (hflush hs').2)
      · exact sat_pure.mpr fun _ => ⟨hframe, fun h => absurd h hs⟩
  · subst hleft
    exact sat_pure.mpr fun _ => ⟨hframe, fun _ => ⟨_, hpos, (hr hs).1,
      Or.inr ⟨hhand, hlast, hopt, rfl, hmem⟩⟩⟩

/-- **`RecoverLogFile`**. -/
theorem recoverLogFile_sat (hX : c.X.Lawful) {lastLog : Bool} :
    Sat A (recoverLogFile c log lastLog p) w (Frame c.X.logging w) fun x t =>
      Frame c.X.logging w t ∧
        (x.1.isOk → ∃ ok mem, LogRecovered c A lastLog log w p t x.2 ok mem) := by
  rw [recoverLogFile]
  refine Sat.assert (fun _ => .refl w) fun hpos => ?_
  replace hpos : 0 < log := of_decide_eq_true hpos
  rw [sat_bind]
  refine sat_call (fun _ => .refl w) fun a hv => ?_
  generalize hvw : w.after (.newSequentialFile log) a w.disk = v at hv ⊢
  have hframe : Frame c.X.logging w v := hvw ▸ (Frame.refl w).after _ a
  have hstill : Still w v := ⟨⟨_, by rw [← hvw]; rfl⟩, by rw [← hvw]; simp [marks]⟩
  have hopen : Replays c A w p [] v p [] [.opened log a.status.isOk] :=
    ⟨hframe, by rw [← hvw]; simp, ⟨[], by simp, by simp, by simp, fun _ => by simp⟩, rfl, id,
      fun hw => hvw ▸ hw.opened⟩
  split_ifs with ha
  · rw [sat_bind, sat_get]
    intro _
    rw [ha] at hopen
    have hlog : v.disk.log log = w.disk.log log := by rw [hframe.off.log]
    refine (replayLoop_sat hX (v.disk.log log)).seq (fun _ _ _ h => hframe.trans h) ?_
    rintro r t - - ⟨hvt, hr⟩
    rw [hlog] at hr
    refine (reuseLog_sat.keeps (reuseLog_keeps (C := c.X.coding))).seq
      (fun _ _ _ h => (hframe.trans hvt).trans h) ?_
    rintro left u - hu ⟨⟨htu, htrail, hleft⟩, hsources⟩
    refine (writeLeftover_sat (r := r) hX hpos ((hframe.trans hvt).trans htu) (fun hs => ⟨?_, ?_⟩)
      ?_).mono (fun _ _ _ h => h) fun x y _ _ h => ⟨h.1, fun hs => ⟨true, h.2 hs⟩⟩
    · have hseg := (hopen.trans (A.lower htu.le hu) (hr hs).replays).trans hu
        (.idle htu htrail hsources r.toProgress (r.mem.getD []))
      simpa [segment] using hseg
    · intro hne
      rw [insertedRecords_segment] at hne
      exact (hr hs).kept (Or.inr (by rwa [insertedRecords_map]))
    · rcases hleft with ⟨hleft, hstill'⟩ | ⟨hleft, hhand, hs, h0, hopt, hlast⟩
      · exact Or.inl ⟨hleft, fun hs => (hstill.trans (hr hs).still).trans hstill'⟩
      · refine Or.inr ⟨hleft, hs, (hstill.trans (hr hs).still).handedOver hhand, hlast, hopt, ?_⟩
        simpa using ((hr hs).unflushed h0).2.2.2
  · refine sat_pure.mpr fun _ => ⟨hframe, fun hs => ⟨false, [], hpos, ?_, Or.inl ⟨hstill, rfl, ?_⟩⟩⟩
    · rw [Bool.eq_false_iff.mpr ha] at hopen
      exact hopen
    · exact fun h => absurd rfl h

/-- The steps of a log only depend on the logs of the disk. -/
theorem isSegment_congr {d d' : Disk} (h : d'.log = d.log) : IsSegment d' = IsSegment d := by
  funext steps log
  rw [IsSegment, IsSegment]
  simp only [segment, h]

/-- A quiet call later, the log is still recovered. -/
theorem LogRecovered.after {lastLog ok : Bool}
    (h : LogRecovered c A lastLog log w p t p' ok mem) {what : Call} {a : Answer}
    (hu : t.after what a t.disk ∈ A) (hq : what.quiet) (hs : what.unsourced) :
    LogRecovered c A lastLog log w p (t.after what a t.disk) p' ok mem where
  pos := h.pos
  replays := h.replays.after hu hq hs
  ending := by
    rcases h.ending with ⟨hstill, h⟩ | ⟨hhand, h⟩
    · exact Or.inl ⟨hstill.after hq, h⟩
    · refine Or.inr ⟨⟨hhand.impl, ?_⟩, h⟩
      rw [World.after_calls, marks_append, marks_quiet hq, List.append_nil, hhand.marks]

/-- No log is left to recover. -/
theorem LogsRecovered.nil (w : World) (p : Progress) : LogsRecovered c A [] w p w p [] [] where
  pos _ h := absurd h List.not_mem_nil
  replays := .idle (.refl w) rfl rfl p []
  segments := .nil
  ending := Or.inl ⟨.refl w, rfl, fun h => absurd rfl h⟩

/-- The last log was handed over. -/
theorem LogRecovered.handedOver {lastLog : Bool}
    (h : LogRecovered c A lastLog log w p t p' true mem) (hhand : HandedOver log mem w t)
    (hopt : c.options.reuseLogs = true)
    (hmem : mem = recordEntries c.X.coding (longRecords (w.disk.log log))) :
    LogsRecovered c A [log] w p t p' (segment w.disk log true) mem where
  pos x hx := by
    rw [List.mem_singleton.mp hx]
    exact h.pos
  replays := h.replays
  segments := .singleton ⟨true, rfl⟩
  ending := Or.inr ⟨[], log, [], rfl, rfl, .nil, fun h => absurd rfl h, hhand, hopt, hmem⟩

/-- A log was written out, and the others recovered. -/
theorem LogRecovered.cons {lastLog ok : Bool} (hu : u ∈ A)
    (h : LogRecovered c A lastLog log w p t p' ok []) (hstill : Still w t)
    (hsave : insertedRecords (segment w.disk log ok) ≠ [] → p'.saveManifest = true)
    (h' : LogsRecovered c A logs t p' u p'' steps mem) :
    LogsRecovered c A (log :: logs) w p u p'' (segment w.disk log ok ++ steps) mem := by
  have hlog : t.disk.log = w.disk.log := h.replays.frame.off.log
  have hseg : Codec.Concat (IsSegment w.disk) (segment w.disk log ok) [log] := .singleton ⟨ok, rfl⟩
  have hsave' : ∀ {ss}, (insertedRecords ss ≠ [] → p''.saveManifest = true) →
      insertedRecords (segment w.disk log ok ++ ss) ≠ [] → p''.saveManifest = true := by
    intro ss hss hne
    by_cases hfirst : insertedRecords (segment w.disk log ok) = []
    · rw [insertedRecords_append, hfirst, List.nil_append] at hne
      exact hss hne
    · exact h'.replays.saveManifest (hsave hfirst)
  refine ⟨?_, h.replays.trans hu h'.replays, ?_, ?_⟩
  · rintro x (_ | ⟨_, hx⟩)
    · exact h.pos
    · exact h'.pos x hx
  · rw [← isSegment_congr hlog] at hseg
    rw [← isSegment_congr hlog]
    exact hseg.append h'.segments
  · rcases h'.ending with
      ⟨hs, hmem, hsv⟩ | ⟨init, last, before, rfl, rfl, hc, hsv, hhand, hopt, hmem⟩
    · exact Or.inl ⟨hstill.trans hs, hmem, hsave' hsv⟩
    · refine Or.inr ⟨log :: init, last, segment w.disk log ok ++ before, rfl, ?_, ?_, hsave' hsv,
        hstill.handedOver hhand, hopt, ?_⟩
      · rw [List.append_assoc, segment, segment, segment, hlog]
      · rw [isSegment_congr hlog] at hc
        exact hseg.append hc
      · rw [hmem, hlog]

/-- **The loop over the logs.** -/
theorem recoverLogs_sat (hX : c.X.Lawful) (logs : List ℕ) :
    Sat A (recoverLogs c logs p) w (Frame c.X.logging w) fun x t =>
      Frame c.X.logging w t ∧
        (x.1.isOk → ∃ steps mem, LogsRecovered c A logs w p t x.2 steps mem) := by
  induction logs generalizing w p with
  | nil => exact sat_pure.mpr fun _ => ⟨.refl w, fun _ => ⟨[], [], .nil w p⟩⟩
  | cons log logs ih =>
    refine (recoverLogFile_sat hX).seq (fun _ _ _ h => h) ?_
    rintro ⟨s, p₁⟩ t - - ⟨hframe, hrec⟩
    dsimp only
    split_ifs with hs
    · obtain ⟨ok, mem, hlog⟩ := hrec hs
      have hq : (Call.markFileNumberUsed log).quiet = true := rfl
      rw [sat_bind]
      refine sat_call (fun _ => hframe) fun a hv => ?_
      have hframe' := hframe.after (.markFileNumberUsed log) a
      have hlog := hlog.after hv hq rfl
      rcases hlog.ending with ⟨hstill, rfl, hsave⟩ | ⟨hhand, hlast, hopt, rfl, hmem⟩
      · refine (ih (p := p₁)).mono (fun _ _ _ h => hframe'.trans h) fun x u _ hu h =>
          ⟨hframe'.trans h.1, fun hx => ?_⟩
        obtain ⟨steps, mem, hrest⟩ := h.2 hx
        exact ⟨_, mem, hlog.cons hu hstill hsave hrest⟩
      · -- only the last log is handed over
        obtain rfl : logs = [] := List.isEmpty_iff.mp hlast
        exact sat_pure.mpr fun _ => ⟨hframe', fun _ => ⟨_, mem, hlog.handedOver hhand hopt hmem⟩⟩
    · exact sat_pure.mpr fun _ => ⟨hframe, fun h => absurd h hs⟩

end

end LevelDb
