import LevelDb.Background.Wakeup
import LevelDb.CompactMemtable

/-!
# The threads and the code they run

Opening and flushing run code that the threads run as well. In `LevelDb.Open` and
`LevelDb.CompactMemtable` that code is a program over the database object, call by call.
In `LevelDb.Background` it is a function of the fields that the threads share, and what
the calls answer is part of the action taken.

The programs refine the functions. From a database object whose shared fields are those
of a state (`LevelDb.Background.Shares`), a program leads to one whose shared fields are
those of the state that the function leads to. A flush looks at `shutting_down_` once
more, and the destructor may have set it by then; in the system of the threads that is a
step of its own, taken while the flush has released `mutex_`
(`LevelDb.Background.compactMemtable_refines`).

Opening, where it returns OK, leaves a database object from which the threads set out
(`LevelDb.Background.dbOpen_opened`).
-/

namespace LevelDb.Background

open CrashLogic

variable {ι : Type} {s : State ι} {c : Context} {A : LowerSet World} {w : World} {i : DBImpl}

/-- **The shared fields** of the database object are those of the state. -/
structure Shares (s : State ι) (i : DBImpl) : Prop where
  shuttingDown : s.shuttingDown = i.shuttingDown
  bgError : s.bgError = i.bgError
  imm : s.imm = i.imm.isSome
  bgCompactionScheduled : s.bgCompactionScheduled = i.bgCompactionScheduled
  manualCompaction : s.manualCompaction.isSome = i.manualCompaction

/-- How many items have been passed to `env_->Schedule`. -/
def scheduledItems (calls : List (Call × Answer)) : ℕ :=
  calls.countP fun x => x.1 = .schedule

theorem scheduledItems_concat {calls : List (Call × Answer)} {what : Call} {a : Answer} :
    scheduledItems (calls ++ [(what, a)]) =
      scheduledItems calls + if what = .schedule then 1 else 0 := by
  rw [scheduledItems, List.countP_append, List.countP_singleton]
  simp [scheduledItems]

/-! ### Scheduling -/

/-- There is work to be done where the state says so. -/
theorem workNeeded_refines (h : Shares s w.impl)
    (hneeds : (c.env w.calls.length .needsCompaction).needsCompaction = s.needsCompaction) :
    Sat A (workNeeded c) w (fun _ => True) fun needed t =>
      needed = !(!s.imm && s.manualCompaction.isNone && !s.needsCompaction) ∧ t.impl = w.impl ∧
        scheduledItems t.calls = scheduledItems w.calls := by
  have hidle : (w.impl.imm.isNone && !w.impl.manualCompaction) =
      (!s.imm && s.manualCompaction.isNone) := by
    rw [h.imm, ← h.manualCompaction, Option.not_isSome, Option.not_isSome]
  rw [workNeeded, sat_bind, sat_get, hidle]
  intro _
  split_ifs with hnone
  · rw [sat_bind]
    refine sat_step.mpr ⟨fun _ => trivial, fun _ => sat_pure.mpr fun _ => ⟨?_, rfl, ?_⟩⟩
    · rw [hneeds, hnone, Bool.true_and, Bool.not_not]
    · exact scheduledItems_concat
  · refine sat_pure.mpr fun _ => ⟨?_, rfl, rfl⟩
    rw [Bool.eq_false_iff.mpr hnone]
    rfl

/-- **`MaybeScheduleCompaction`** schedules an item where the state gets one. -/
theorem maybeScheduleCompaction_refines (h : Shares s w.impl)
    (hneeds : (c.env w.calls.length .needsCompaction).needsCompaction = s.needsCompaction) :
    Sat A (LevelDb.maybeScheduleCompaction c) w (fun _ => True) fun _ t =>
      Shares s.maybeScheduleCompaction t.impl ∧
        scheduledItems t.calls + s.items.length =
          scheduledItems w.calls + s.maybeScheduleCompaction.items.length := by
  rw [LevelDb.maybeScheduleCompaction, sat_bind, sat_get, State.maybeScheduleCompaction,
    ← h.bgCompactionScheduled, ← h.shuttingDown, ← h.bgError]
  intro _
  split_ifs with hflag hdown herror hidle
  -- there is an item, a shutdown or an error: nothing is scheduled
  · exact sat_pure.mpr fun _ => ⟨h, rfl⟩
  · exact sat_pure.mpr fun _ => ⟨h, rfl⟩
  · exact sat_pure.mpr fun _ => ⟨h, rfl⟩
  -- there is no work
  · refine (workNeeded_refines h hneeds).andThen ?_
    rintro _ t - - ⟨rfl, hi, hcalls⟩
    rw [hidle, if_neg (by simp)]
    refine sat_pure.mpr fun _ => ⟨?_, by rw [hcalls]⟩
    rw [hi]
    exact h
  · refine (workNeeded_refines h hneeds).andThen ?_
    rintro _ t - - ⟨rfl, hi, hcalls⟩
    rw [Bool.eq_false_iff.mpr hidle, if_pos (by rfl), sat_bind, sat_modifyImpl]
    intro _
    rw [sat_bind]
    refine sat_call (fun _ => trivial) fun a _ => sat_pure.mpr fun _ => ⟨?_, ?_⟩
    · rw [World.after_impl, hi]
      exact ⟨h.shuttingDown, h.bgError, h.imm, rfl, h.manualCompaction⟩
    · rw [World.after_calls, scheduledItems_concat, if_pos rfl, hcalls, List.length_append,
        List.length_singleton]
      omega

/-- The destructor of a database that could not be opened finds no item, and does not
wait. -/
theorem destroyDB_refines (h : Shares s w.impl) (hflag : s.bgCompactionScheduled = false) :
    s.destroy.destructor = .left ∧
      Sat A (destroyDB c) w (fun _ => True) fun _ t => Shares s.destroy t.impl := by
  have hdown : Shares s.destroy { w.impl with shuttingDown := true } :=
    ⟨rfl, h.bgError, h.imm, h.bgCompactionScheduled, h.manualCompaction⟩
  refine ⟨by rw [State.destroy, hflag]; rfl, ?_⟩
  rw [destroyDB, sat_bind, sat_modifyImpl]
  intro _
  rw [sat_bind, sat_get]
  intro _
  split_ifs
  · rw [sat_bind]
    exact sat_call (fun _ => trivial) fun _ _ => sat_pure.mpr fun _ => hdown
  · exact sat_pure.mpr fun _ => hdown

/-! ### Flushing -/

/-- **`RecordBackgroundError`** keeps the first error. -/
theorem Shares.recordBackgroundError (h : Shares s i) (status : Status) :
    Shares (s.recordBackgroundError status)
      (if i.bgError.isOk then { i with bgError := status } else i) := by
  rw [State.recordBackgroundError, ← h.bgError]
  split_ifs
  · exact ⟨h.shuttingDown, rfl, h.imm, h.bgCompactionScheduled, h.manualCompaction⟩
  · exact h

/-- The state with `shutting_down_` as the database object has it now. -/
def State.lookedAt (s : State ι) (i : DBImpl) : State ι := { s with shuttingDown := i.shuttingDown }

/-- Deleting obsolete files leaves the database object alone. -/
theorem deleteFiles_impl {v : VersionSet} {live : List ℕ} (filenames : List Bytes) :
    Sat A (deleteFiles c v live filenames) w (fun _ => True) fun _ t => t.impl = w.impl := by
  induction filenames generalizing w with
  | nil => exact sat_pure.mpr fun _ => rfl
  | cons name filenames ih =>
    rw [deleteFiles]
    rcases parseFileName c.X.logging name with _ | ⟨number, type⟩
    · exact ih
    · dsimp only
      split_ifs
      · exact ih
      · rw [sat_bind, deleteFile, sat_bind]
        exact sat_call (fun _ => trivial) fun a _ => sat_pure.mpr fun _ => ih

theorem deleteObsoleteFiles_impl :
    Sat A (deleteObsoleteFiles c) w (fun _ => True) fun _ t => t.impl = w.impl := by
  rw [deleteObsoleteFiles, sat_bind, sat_get]
  intro _
  split_ifs
  · rw [sat_bind, getChildren, sat_bind, sat_get]
    intro _
    rw [sat_bind]
    exact sat_call (fun _ => trivial) fun a _ => sat_pure.mpr fun _ => deleteFiles_impl _
  · exact sat_pure.mpr fun _ => rfl

/-- `LogAndApply` may create files, and changes the version set at most. -/
theorem logAndApply_kept {L : Logging} {edit : VersionEdit} :
    Sat A (logAndApply c edit) w (fun _ => True) fun _ t =>
      (∃ v, t.impl = { w.impl with versions := v }) ∧
        (∀ type n, w.disk.Has L type n → t.disk.Has L type n) ∧
        marks t.calls = marks w.calls ++ [.saved edit] := by
  rw [logAndApply, sat_bind, sat_get]
  intro _
  rw [sat_bind]
  refine sat_call (fun _ => trivial) fun a _ => ?_
  generalize ht : w.after (.logAndApply edit) a _ = t
  have himpl : t.impl = w.impl := ht ▸ rfl
  have hmarks : marks t.calls = marks w.calls ++ [.saved edit] := by
    rw [← ht, World.after_calls, marks_append, marks_logAndApply]
  have hkept : ∀ type n, w.disk.Has L type n → t.disk.Has L type n := by
    intro type n h
    rw [← ht, World.after_disk]
    split
    · split_ifs
      -- the new manifest is the only name that may come in
      · exact Disk.has_committed h
      · exact h
    · exact h
  split_ifs
  · rw [sat_bind, sat_modifyImpl]
    exact fun _ => sat_pure.mpr fun _ => ⟨⟨_, by rw [himpl]⟩, hkept, hmarks⟩
  · exact sat_pure.mpr fun _ => ⟨⟨_, himpl⟩, hkept, hmarks⟩

theorem logAndApply_impl {edit : VersionEdit} :
    Sat A (logAndApply c edit) w (fun _ => True) fun _ t =>
      ∃ v, t.impl = { w.impl with versions := v } :=
  (logAndApply_kept (L := c.X.logging)).mono (fun _ _ _ h => h) fun _ _ _ _ h => h.1

/-- The look at `shutting_down_` changes that field at most. -/
theorem checkShutdown_impl {status : Status} :
    Sat A (checkShutdown c status) w (fun _ => True) fun _ t =>
      ∃ b, t.impl = { w.impl with shuttingDown := b } := by
  rw [checkShutdown]
  split_ifs
  · rw [sat_bind, acquireLoadShuttingDown, sat_bind]
    refine sat_call (fun _ => trivial) fun a _ => ?_
    rw [sat_bind, sat_modifyImpl]
    intro _
    rw [sat_bind, sat_get]
    exact fun _ => sat_pure.mpr fun _ => sat_pure.mpr fun _ => ⟨_, rfl⟩
  · exact sat_pure.mpr fun _ => ⟨_, rfl⟩

theorem replaceMemtable_impl {status : Status} {edit : VersionEdit} :
    Sat A (replaceMemtable c status edit) w (fun _ => True) fun _ t =>
      ∃ v, t.impl = { w.impl with versions := v } := by
  rw [replaceMemtable]
  split_ifs
  · rw [sat_bind, sat_get]
    exact fun _ => logAndApply_impl
  · exact sat_pure.mpr fun _ => ⟨_, rfl⟩

/-- **`CompactMemtable`** ends as the threads take it to end, with `shutting_down_` as it
has found it. -/
theorem compactMemtable_refines (hX : c.X.Lawful) (h : Shares s w.impl) (needs : Bool) :
    Sat A (compactMemtable c) w (fun _ => True) fun status t =>
      Shares ((s.lookedAt t.impl).compactMemTable status needs) t.impl := by
  rw [compactMemtable, sat_bind, sat_get]
  intro _
  rcases w.impl.imm with _ | imm
  · exact sat_abort.mpr fun _ => trivial
  refine (writeLevel10Table_sat hX).andThen ?_
  rintro ⟨status, edit⟩ t - - ⟨hquiet, -⟩
  obtain ⟨pending, ht⟩ := hquiet.impl
  refine checkShutdown_impl.andThen fun status t' _ _ ht' => ?_
  refine replaceMemtable_impl.andThen fun status u _ _ hu => ?_
  obtain ⟨b, ht'⟩ := ht'
  obtain ⟨v, hu⟩ := hu
  have hshares : Shares (s.lookedAt u.impl) u.impl := by
    rw [hu, ht', ht]
    exact ⟨rfl, h.bgError, h.imm, h.bgCompactionScheduled, h.manualCompaction⟩
  split_ifs with hs
  · rw [sat_bind, sat_modifyImpl]
    refine fun _ => deleteObsoleteFiles_impl.andThen fun _ x _ _ hx => ?_
    refine sat_pure.mpr fun _ => ?_
    rw [State.compactMemTable, if_pos hs, hx]
    exact ⟨rfl, hshares.bgError, rfl, hshares.bgCompactionScheduled, hshares.manualCompaction⟩
  · rw [sat_bind, recordBackgroundError, sat_modifyImpl]
    refine fun _ => sat_pure.mpr fun _ => ?_
    have hlooked : s.lookedAt (if u.impl.bgError.isOk then { u.impl with bgError := status }
        else u.impl) = s.lookedAt u.impl := by
      split_ifs <;> rfl
    dsimp only
    rw [State.compactMemTable, if_neg hs, hlooked]
    exact hshares.recordBackgroundError status

/-! ### Opening -/

/-- Nothing is going on in the background of the database object. -/
structure Fresh (i : DBImpl) : Prop where
  shuttingDown : i.shuttingDown = false
  bgError : i.bgError = .ok
  imm : i.imm = none
  bgCompactionScheduled : i.bgCompactionScheduled = false
  manualCompaction : i.manualCompaction = false

/-- Recovery leaves the background alone. -/
theorem Fresh.of_recovery {d : Disk} {edit : VersionEdit} {t : World} {p : Progress} {m : Manifest}
    {v : VersionSet} {steps : List Step} {mem : MemTable}
    (h : Recovery c A (.initial d) edit t p m v steps mem) : Fresh t.impl := by
  obtain ⟨_, hlogs⟩ := h.logs
  rcases hlogs.ending with ⟨hs, -⟩ | ⟨_, _, _, _, _, _, _, hh, -⟩
  · obtain ⟨_, hi⟩ := hs.impl
    rw [hi]
    exact ⟨rfl, rfl, rfl, rfl, rfl⟩
  · obtain ⟨_, _, hi⟩ := hh.impl
    rw [hi]
    exact ⟨rfl, rfl, rfl, rfl, rfl⟩

theorem saveManifest_impl {status : Status} {save : Bool} {edit : VersionEdit} :
    Sat A (saveManifest c status save edit) w (fun _ => True) fun s t =>
      (s.isOk → status.isOk) ∧ ∃ v, t.impl = { w.impl with versions := v } := by
  rw [saveManifest, sat_bind, sat_get]
  intro _
  split_ifs with hsave
  · refine logAndApply_impl.mono (fun _ _ _ _ => trivial) fun _ _ _ _ h => ⟨fun _ => ?_, h⟩
    exact (Bool.and_eq_true_iff.mp hsave).1
  · exact sat_pure.mpr fun _ => ⟨id, _, rfl⟩

/-- The end of `DB::Open` leaves what its `MaybeScheduleCompaction` makes of a fresh
database. -/
theorem finishOpen_opened {status : Status} (h : status.isOk → Fresh w.impl) :
    Sat A (finishOpen c status) w (fun _ => True) fun s t =>
      s.isOk → ∃ x : Watch ι, x.Opened ∧ Shares x.state t.impl := by
  rw [finishOpen]
  split_ifs with hok
  · refine deleteObsoleteFiles_impl.andThen fun _ t _ _ ht => ?_
    obtain ⟨hdown, herror, himm, hflag, hmanual⟩ := h hok
    generalize hneeds : (c.env t.calls.length .needsCompaction).needsCompaction = needs
    have hshares : Shares
        ({ request := fun _ => { level := 0 }, needsCompaction := needs } : State ι) t.impl := by
      rw [ht]
      exact ⟨hdown.symm, herror.symm, by rw [himm]; rfl, hflag.symm, by rw [hmanual]; rfl⟩
    refine (maybeScheduleCompaction_refines hshares hneeds).andThen ?_
    intro _ u _ _ hu
    rw [sat_bind, sat_get]
    refine fun _ => Sat.assert (fun _ => trivial) fun _ => sat_pure.mpr fun _ _ => ?_
    exact ⟨_, ⟨{ request := fun _ => { level := 0 } }, _, ⟨_, false, rfl, fun _ => rfl⟩, rfl⟩, hu.1⟩
  · refine Sat.skip fun _ _ => ?_
    exact sat_pure.mpr fun _ hs => absurd hs hok

/-- **`DB::Open`**, where it returns OK, leaves a database object from which the threads
set out. -/
theorem dbOpen_opened (hX : c.X.Lawful) {d : Disk} :
    Sat A (dbOpen c) (.initial d) (fun _ => True) fun s t =>
      s.isOk → ∃ x : Watch ι, x.Opened ∧ Shares x.state t.impl := by
  rw [dbOpen]
  refine (recover_sat hX).andThen ?_
  rintro ⟨s, p⟩ t - - ⟨-, hrec⟩
  refine (createLog_sat hX.logging).andThen ?_
  rintro ⟨s', edit⟩ u - - ⟨-, -, -, -, hlog⟩
  refine saveManifest_impl.andThen fun s'' x _ _ hx => ?_
  obtain ⟨hs'', v, hx⟩ := hx
  refine finishOpen_opened fun hok => ?_
  obtain ⟨hs, hcases⟩ := hlog (hs'' hok)
  obtain ⟨m, v, steps, mem, hrec⟩ := hrec hs
  have hfresh := Fresh.of_recovery hrec
  rw [hx]
  rcases hcases with ⟨-, rfl, -⟩ | ⟨-, n, -, hcreated⟩
  · exact ⟨hfresh.1, hfresh.2, hfresh.3, hfresh.4, hfresh.5⟩
  · rw [hcreated.impl]
    exact ⟨hfresh.1, hfresh.2, hfresh.3, hfresh.4, hfresh.5⟩

end LevelDb.Background
