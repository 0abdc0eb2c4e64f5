import LevelDb.Background.Refinement
import LevelDb.Collect.Outputs

/-!
# The first background error freezes the files

After a manifest write that failed it is unknown which version is on disk, so nothing that
either version needs may go. `bg_error_` is what stops it: whoever schedules, starts or
continues background work looks at it, and so does the deletion of obsolete files.

From a state with an error on, the error stays the first one, nothing is scheduled or
started any more, no call of `TEST_CompactRange` goes on, and `DeleteObsoleteFiles` deletes
nothing (`LevelDb.Background.Frozen`). And the work in which the error came up has left
everything in place: a flush, a trivial move and a compaction record the error before
anything could be deleted (`LevelDb.Background.error_freezes`).
-/

namespace LevelDb.Background

open CrashLogic Transition

/-! ### The ends of the background work -/

/-- The trivial move of `BackgroundCompaction`, whose edit is given. -/
def trivialMove (c : Context) (edit : VersionEdit) : Prog Status := do
  let s ← logAndApply c edit
  if s.isOk then pure s
  else do
    recordBackgroundError s
    pure s

/-- `DBImpl::CleanupCompaction`. -/
def cleanupCompaction (compact : CompactionState) : Prog Unit := do
  -- `assert(compact->outfile == NULL)`, where there is no builder
  Proc.assert (compact.builder || !compact.outfile)
  modifyImpl fun i => { i with
    pendingOutputs := i.pendingOutputs.filter (· ∉ compact.outputs) }

/-- What `BackgroundCompaction` does when `DoCompactionWork` has returned. -/
def afterCompactionWork (c : Context) (compact : CompactionState) (s : Status) : Prog Status := do
  if s.isOk then pure () else recordBackgroundError s
  cleanupCompaction compact
  -- the error was recorded before: nothing is deleted on a failure
  deleteObsoleteFiles c
  pure s

variable {ι : Type} {s t : State ι} {k : ℕ}

/-! ### After an error -/

section

variable (h : s.bgError.isOk = false)
include h

theorem State.maybeScheduleCompaction_of_error : s.maybeScheduleCompaction = s := by
  have herror : (!s.bgError.isOk) = true := by rw [h]; rfl
  rw [State.maybeScheduleCompaction, if_pos herror, ite_self, ite_self]

theorem State.recordBackgroundError_of_error (status : Status) :
    s.recordBackgroundError status = s := by
  rw [State.recordBackgroundError, if_neg (by simp [h])]

theorem State.continues_of_error (i : ι) : s.continues i = false := by
  rw [State.continues, h, Bool.and_false]

theorem State.endBackgroundCall_of_error (k : ℕ) : s.endBackgroundCall k =
    { s with bgCompactionScheduled := false, items := s.items.eraseIdx k, mutexHeld := false } := by
  have hsame : State.maybeScheduleCompaction { s with bgCompactionScheduled := false } =
      { s with bgCompactionScheduled := false } := State.maybeScheduleCompaction_of_error h
  rw [State.endBackgroundCall, hsame]

/-- A flush that ends after an error keeps it. -/
theorem State.compactMemTable_of_error (status : Status) (needs : Bool) :
    (s.compactMemTable status needs).bgError = s.bgError := by
  rw [State.compactMemTable]
  split_ifs
  · rfl
  · rw [State.recordBackgroundError_of_error h]

theorem State.comeBack_of_error (manual : Option ι) (manualEnd : Option InternalKey)
    (status : Status) (needs : Bool) :
    (s.comeBack k manual manualEnd status needs).bgError = s.bgError := by
  rw [State.comeBack]
  split_ifs
  · rfl
  · rw [State.recordBackgroundError_of_error h]
    rfl

/-- An item that ends takes nothing up. -/
theorem State.endBackgroundCall_frozen (k : ℕ) :
    (s.endBackgroundCall k).bgError = s.bgError ∧
      (s.endBackgroundCall k).items.length ≤ s.items.length := by
  rw [State.endBackgroundCall_of_error h]
  exact ⟨rfl, List.length_eraseIdx_le ..⟩

end

variable [DecidableEq ι]

/-- **Every step after an error** keeps it, and schedules nothing. -/
theorem error_step {a : Action ι} (h : s.bgError.isOk = false)
    (hstep : (system ι).step s a = some t) :
    t.bgError = s.bgError ∧ t.items.length ≤ s.items.length := by
  obtain ⟨-, heffect⟩ := effect_of_step hstep
  cases heffect with
  | testCompactRange =>
    -- the call leaves its loop
    rw [State.testCompactRange, State.continues_of_error h, if_neg (by simp)]
    split_ifs
    · exact ⟨rfl, le_rfl⟩
    · exact ⟨rfl, le_rfl⟩
  | @other imm needs schedule _ =>
    have hsame : State.maybeScheduleCompaction
        { s with imm := s.imm || imm, needsCompaction := needs } =
        { s with imm := s.imm || imm, needsCompaction := needs } :=
      State.maybeScheduleCompaction_of_error h
    rw [hsame, ite_self]
    exact ⟨rfl, le_rfl⟩
  | recordBackgroundError =>
    rw [State.recordBackgroundError_of_error h]
    exact ⟨rfl, le_rfl⟩
  | destroy => exact ⟨rfl, le_rfl⟩
  | backgroundCall =>
    rw [State.backgroundCall]
    split_ifs with hflag hdown herror
    · exact ⟨rfl, le_rfl⟩
    -- the item ends without doing anything
    · exact State.endBackgroundCall_frozen h _
    · exact State.endBackgroundCall_frozen h _
    · exact absurd h (by simpa using herror)
  | @flushed k status needs _ _ =>
    have hc := State.compactMemTable_of_error h status needs
    obtain ⟨h1, h2⟩ := State.endBackgroundCall_frozen (s := s.compactMemTable status needs)
      (by rw [hc]; exact h) k
    exact ⟨h1.trans hc, h2.trans (by rw [State.compactMemTable_items])⟩
  | moved =>
    refine ⟨State.comeBack_of_error h _ _ _ _, ?_⟩
    rw [State.comeBack_items, List.length_set]
  | flushedInside =>
    exact ⟨State.compactMemTable_of_error h _ _, by rw [State.compactMemTable_items]⟩
  | worked =>
    refine ⟨State.comeBack_of_error h _ _ _ _, ?_⟩
    rw [State.comeBack_items, List.length_set]
  | lastBlock =>
    unfold State.lastBlock
    split
    · exact State.endBackgroundCall_frozen h _
    · exact ⟨rfl, le_rfl⟩
    · exact State.endBackgroundCall_frozen (s := { State.setRequest s _ _ with
        manualCompaction := none }) h _

/-- **A state is frozen** behind an earlier one: the error is the same, nothing is
scheduled, an item that starts ends at once, no request is waited for, and nothing is
deleted. -/
structure Frozen (s t : State ι) : Prop where
  bgError : t.bgError = s.bgError
  items : t.items.length ≤ s.items.length
  schedules : t.maybeScheduleCompaction = t
  starts : ∀ k c u, (system ι).step t (.backgroundCall k c) = some u →
    u = { t with
      bgCompactionScheduled := false, items := t.items.eraseIdx k, mutexHeld := false }
  continues : ∀ i, t.continues i = false
  deletes : ∀ (c : Context) (w : World), Shares t w.impl →
    (deleteObsoleteFiles c).run w = ⟨[], w, some ()⟩

/-- `DeleteObsoleteFiles` does nothing after an error. -/
theorem deleteObsoleteFiles_of_error {c : Context} {w : World} (h : w.impl.bgError.isOk = false) :
    (deleteObsoleteFiles c).run w = ⟨[], w, some ()⟩ := by
  rw [deleteObsoleteFiles, run_get_bind, if_neg (by simp [h])]
  rfl

/-- **After the first error** every state is frozen. -/
theorem frozen_of_steps (hs : (system ι).Reachable s) (h : s.bgError.isOk = false)
    (hst : (system ι).Steps s t) : Frozen s t := by
  have hkept : t.bgError = s.bgError ∧ t.items.length ≤ s.items.length := by
    refine hst.invariant (P := fun t => t.bgError = s.bgError ∧ t.items.length ≤ s.items.length)
      (fun t a u ht hstep => ?_) ⟨rfl, le_rfl⟩
    obtain ⟨herror, hitems⟩ := error_step (by rw [ht.1]; exact h) hstep
    exact ⟨herror.trans ht.1, hitems.trans ht.2⟩
  have ht : t.bgError.isOk = false := by rw [hkept.1]; exact h
  refine ⟨hkept.1, hkept.2, State.maybeScheduleCompaction_of_error ht, fun k c u hu => ?_,
    State.continues_of_error ht, fun c w hw => deleteObsoleteFiles_of_error ?_⟩
  · obtain ⟨-, heffect⟩ := effect_of_step hu
    cases heffect with
    | backgroundCall _ hk =>
      -- the assertion holds: an item is there, so the flag is set
      have hflag : t.bgCompactionScheduled = true := by
        by_contra hf
        have hcount := (Scheduled.of_reachable (hs.steps hst)).count
        rw [if_neg hf] at hcount
        rw [List.length_eq_zero_iff.mp hcount] at hk
        exact absurd hk (by simp)
      have herror : (!t.bgError.isOk) = true := by rw [ht]; rfl
      rw [State.backgroundCall, hflag, if_neg (by simp), if_pos herror, ite_self,
        State.endBackgroundCall_of_error ht]
  · rw [← hw.bgError]
    exact ht

/-! ### The work in which the error comes up -/

/-- **The work has failed in place**: an error is on, the two fields of the immutable
memtable are as they were, and no file has gone. -/
structure InPlace (L : Logging) (w t : World) : Prop where
  imm : t.impl.imm = w.impl.imm
  hasImm : t.impl.hasImm = w.impl.hasImm
  bgError : t.impl.bgError.isOk = false
  kept : ∀ type n, w.disk.Has L type n → t.disk.Has L type n

section

variable {c : Context} {A : LowerSet World} {w t u : World} {edit : VersionEdit} {L : Logging}

/-- `RecordBackgroundError` leaves everything else as it is. -/
theorem recordBackgroundError_sat {status : Status} (hs : status.isOk = false) :
    Sat A (recordBackgroundError status) w (fun _ => True) fun _ t =>
      t.impl.imm = w.impl.imm ∧ t.impl.hasImm = w.impl.hasImm ∧ t.impl.bgError.isOk = false ∧
        t.disk = w.disk ∧ t.calls = w.calls := by
  rw [recordBackgroundError, sat_modifyImpl]
  intro _
  dsimp only
  split_ifs with h
  · exact ⟨rfl, rfl, hs, rfl, rfl⟩
  · exact ⟨rfl, rfl, Bool.eq_false_iff.mpr h, rfl, rfl⟩

/-- A trivial move whose `LogAndApply` fails. -/
theorem trivialMove_inPlace : Sat A (trivialMove c edit) w (fun _ => True) fun status t =>
    status.isOk = false → InPlace L w t := by
  rw [trivialMove]
  refine (logAndApply_kept (L := L)).andThen fun status t _ _ ht => ?_
  obtain ⟨⟨v, hi⟩, hkept, -⟩ := ht
  split_ifs with hs
  · exact sat_pure.mpr fun _ hs' => absurd hs (by simp [hs'])
  · refine (recordBackgroundError_sat (Bool.eq_false_iff.mpr hs)).andThen ?_
    rintro _ u - - ⟨himm, hhas, herror, hdisk, -⟩
    refine sat_pure.mpr fun _ _ => ⟨?_, ?_, herror, ?_⟩
    · rw [himm, hi]
    · rw [hhas, hi]
    · rw [hdisk]
      exact hkept

/-- A compaction whose `DoCompactionWork` returns an error. -/
theorem afterCompactionWork_inPlace {compact : CompactionState} {status : Status}
    (hs : status.isOk = false) :
    Sat A (afterCompactionWork c compact status) w (fun _ => True) fun _ t => InPlace L w t := by
  rw [afterCompactionWork, if_neg (by simp [hs])]
  refine (recordBackgroundError_sat hs).andThen ?_
  rintro _ t - - ⟨himm, hhas, herror, hdisk, -⟩
  rw [cleanupCompaction, sat_bind]
  refine Sat.assert (fun _ => trivial) fun _ => ?_
  rw [sat_modifyImpl]
  intro _
  rw [sat_bind, deleteObsoleteFiles, sat_bind, sat_get]
  intro _
  rw [if_neg (by simp [herror])]
  refine sat_pure.mpr fun _ => sat_pure.mpr fun _ => ⟨himm, hhas, herror, ?_⟩
  rw [hdisk]
  exact fun _ _ h => h

/-! ### A flush that fails -/

/-- The table was built, where `edit` adds one, and no call of `LogAndApply` was made. -/
structure Built (L : Logging) (w : World) (edit : VersionEdit) (t : World) : Prop where
  frame : Frame L w t
  imm : t.impl.imm = w.impl.imm
  hasImm : t.impl.hasImm = w.impl.hasImm
  marks : marks t.calls = marks w.calls
  tables : ∀ n ∈ edit.newNumbers, t.disk.Has L .kTableFile n

theorem checkShutdown_built {status : Status} (ht : Built L w edit t) :
    Sat A (checkShutdown c status) t (fun _ => True) fun _ u => Built L w edit u := by
  rw [checkShutdown]
  split_ifs with hs
  · rw [sat_bind, acquireLoadShuttingDown, sat_bind]
    refine sat_call (fun _ => trivial) fun a _ => ?_
    rw [sat_bind, sat_modifyImpl]
    intro _
    rw [sat_bind, sat_get]
    refine fun _ => sat_pure.mpr fun _ => sat_pure.mpr fun _ => ?_
    refine ⟨(ht.frame.after .loadShuttingDown a).modify _, ht.imm, ht.hasImm, ?_, ht.tables⟩
    have hq : Call.loadShuttingDown.quiet = true := rfl
    rw [← ht.marks]
    exact (marks_append.trans (by rw [marks_quiet hq, List.append_nil]))
  · exact sat_pure.mpr fun _ => ht

/-- What a flush has left when `LogAndApply` has returned: nothing has gone but a table that
it has numbered itself, and the tables of the edit are there. -/
structure Applied (L : Logging) (w t : World) : Prop where
  imm : t.impl.imm = w.impl.imm
  hasImm : t.impl.hasImm = w.impl.hasImm
  kept : ∀ type n, (type = .kTableFile → n ∉ newly w t) → w.disk.Has L type n →
    t.disk.Has L type n
  saved : ∀ edit, marks t.calls = marks w.calls ++ [.saved edit] → ∀ n ∈ edit.newNumbers,
    t.disk.Has L .kTableFile n

theorem Built.kept (h : Built L w edit t) (htu : t ≤ u) {type : FileType} {n : ℕ}
    (hn : type = .kTableFile → n ∉ newly w u) (hw : w.disk.Has L type n) : t.disk.Has L type n := by
  refine (h.frame.off.has type n fun htype hnew => hn htype ?_).mpr hw
  rw [newly_trans h.frame.le htu]
  exact Or.inl hnew

theorem replaceMemtable_applied {status : Status} (ht : Built L w edit t) :
    Sat A (replaceMemtable c status edit) t (fun _ => True) fun _ u => Applied L w u := by
  rw [replaceMemtable]
  split_ifs
  · rw [sat_bind, sat_get]
    intro _
    refine (logAndApply_kept (L := L)).mono (fun _ _ _ _ => trivial) ?_
    rintro _ u htu - ⟨⟨v, hi⟩, hkept, hmarks⟩
    refine ⟨by rw [hi, ← ht.imm], by rw [hi, ← ht.hasImm],
      fun type n hn hw => hkept type n (ht.kept htu hn hw), fun edit' h n hn => ?_⟩
    -- the edit was passed to `LogAndApply` with two more fields set
    rw [hmarks, ht.marks, List.append_cancel_left_eq, List.cons.injEq, Mark.saved.injEq] at h
    obtain ⟨rfl, -⟩ := h
    exact hkept _ _ (ht.tables n hn)
  · refine sat_pure.mpr fun _ => ⟨ht.imm, ht.hasImm, fun type n hn hw => ht.kept le_rfl hn hw, ?_⟩
    intro edit' h
    rw [ht.marks] at h
    exact absurd h (by simp)

/-- A flush that fails leaves everything in place, the tables of an edit that
`LogAndApply` could not commit among it. -/
theorem compactMemtable_failed (hX : c.X.Lawful) :
    Sat A (compactMemtable c) w (fun _ => True) fun status t => status.isOk = false →
      FlushFailed c.X w t ∧ ∀ edit, marks t.calls = marks w.calls ++ [.saved edit] →
        ∀ n ∈ edit.newNumbers, t.disk.Has c.X.logging .kTableFile n := by
  rw [compactMemtable, sat_bind, sat_get]
  intro _
  rcases w.impl.imm with _ | imm
  · exact sat_abort.mpr fun _ => trivial
  refine (writeLevel10Table_sat hX).andThen ?_
  rintro ⟨status, edit⟩ t - - ⟨hquiet, files, hedit, hfresh, -⟩
  have ht : Built c.X.logging w edit t := by
    obtain ⟨pending, hi⟩ := hquiet.impl
    refine ⟨hquiet.frame, by rw [hi], by rw [hi], hquiet.marks, fun n hn => ?_⟩
    dsimp only at hedit
    subst hedit
    obtain ⟨f, hf, rfl⟩ := List.mem_map.mp hn
    exact (hfresh f hf).2
  -- a shutdown in the meantime is an error of the flush
  refine (checkShutdown_built ht).andThen fun status t _ _ ht => ?_
  refine (replaceMemtable_applied ht).andThen fun status u _ _ hu => ?_
  split_ifs with hs
  · rw [sat_bind, sat_modifyImpl]
    refine fun _ => Sat.skip fun _ _ => ?_
    exact sat_pure.mpr fun _ hs' => absurd hs (by simp [hs'])
  · refine (recordBackgroundError_sat (Bool.eq_false_iff.mpr hs)).andThen ?_
    rintro _ x - - ⟨himm, hhas, herror, hdisk, hcalls⟩
    refine sat_pure.mpr fun _ _ => ⟨⟨himm.trans hu.imm, hhas.trans hu.hasImm, herror, ?_⟩, ?_⟩
    · have hnew : newly w x = newly w u := by rw [newly, newly, hcalls]
      rw [hnew, hdisk]
      exact hu.kept
    · rw [hcalls, hdisk]
      exact hu.saved

end

/-! ### The first error -/

/-- **The first background error freezes the files**: every state behind it is frozen, and
the flush, the trivial move or the compaction in which it came up has left everything in
place. -/
theorem error_freezes : (∀ s t : State ι, (system ι).Reachable s → s.bgError.isOk = false →
      (system ι).Steps s t → Frozen s t) ∧
    ∀ (c : Context) (w : World), c.X.Lawful →
      (∀ status, ((compactMemtable c).run w).result = some status → status.isOk = false →
        FlushFailed c.X w ((compactMemtable c).run w).final ∧
          ∀ edit, marks ((compactMemtable c).run w).final.calls = marks w.calls ++ [.saved edit] →
            ∀ n ∈ edit.newNumbers,
              ((compactMemtable c).run w).final.disk.Has c.X.logging .kTableFile n) ∧
      (∀ edit status, ((trivialMove c edit).run w).result = some status → status.isOk = false →
        InPlace c.X.logging w ((trivialMove c edit).run w).final) ∧
      ∀ compact status, status.isOk = false →
        ((afterCompactionWork c compact status).run w).result.isSome →
          InPlace c.X.logging w ((afterCompactionWork c compact status).run w).final := by
  refine ⟨fun s t hs h hst => frozen_of_steps hs h hst, fun c w hX => ⟨?_, ?_, ?_⟩⟩
  · exact fun status hres => (compactMemtable_failed (A := ⊤) hX).result hres trivial
  · exact fun edit status hres => (trivialMove_inPlace (A := ⊤)).result hres trivial
  · intro compact status hs hsome
    obtain ⟨_, hres⟩ := Option.isSome_iff_exists.mp hsome
    exact (afterCompactionWork_inPlace (A := ⊤) hs).result hres trivial

/-- Every call succeeds but `LogAndApply`. -/
def commitsFail : Context where
  X := documented
  env t
    | .logAndApply _ => { status := .ioError "manifest" }
    | _ => { number := UInt64.ofNat (t + 10), size := 1 }
  options := {}
  dbname := chars "db/"

/-- A flush, a trivial move and a compaction whose commit fails, and a request that comes
after a failed flush. -/
theorem error_freezes_commitsFail :
    (∃ s t : State Unit, s.bgError = .ioError "manifest" ∧ (system Unit).Steps s t ∧
      t.imm = true ∧ Frozen s t) ∧
      FlushFailed documented rotated ((compactMemtable commitsFail).run rotated).final ∧
      InPlace leveldbLogging rotated ((trivialMove commitsFail {}).run rotated).final ∧
      InPlace leveldbLogging rotated
        ((afterCompactionWork commitsFail {} (.ioError "manifest")).run rotated).final := by
  obtain ⟨hfrozen, hwork⟩ := error_freezes (ι := Unit)
  obtain ⟨hflush, hmove, hcompact⟩ := hwork commitsFail rotated documented_lawful
  refine ⟨?_, (hflush (.ioError "manifest") rfl rfl).1, hmove {} (.ioError "manifest") rfl rfl,
    hcompact {} (.ioError "manifest") rfl rfl⟩
  obtain ⟨s, hrun, herror⟩ : ∃ s, (system Unit).run { request := fun _ => { level := 0 } }
      [.other true false true, .backgroundCall 0 none, .flushed 0 (.ioError "manifest") false] =
        some s ∧ s.bgError = .ioError "manifest" := ⟨_, rfl, rfl⟩
  obtain ⟨t, hrun', himm⟩ : ∃ t, (system Unit).run s [.testCompactRange (), .other true true true] =
      some t ∧ t.imm = true := by
    cases hrun
    exact ⟨_, rfl, rfl⟩
  have hreach : (system Unit).Reachable s :=
    ⟨_, ⟨_, false, rfl, fun _ => rfl⟩, System.steps_of_run hrun⟩
  have hst := System.steps_of_run hrun'
  exact ⟨s, t, herror, hst, himm, hfrozen s t hreach (by rw [herror]; rfl) hst⟩

end LevelDb.Background
