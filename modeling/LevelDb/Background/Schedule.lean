import LevelDb.Background

/-!
# Background work is scheduled once at a time

`bg_compaction_scheduled_` says exactly whether there is an item of background work, in
every reachable state: it is set where an item is scheduled and cleared where an item
ends (`LevelDb.Background.Scheduled`). So the assertion at the head of `BackgroundCall`
does not fail, and two items never overlap. The destructor leaves its loop only once
there is no item, and `shutting_down_` keeps new ones away
(`LevelDb.Background.scheduled_once`).
-/

namespace LevelDb.Background

open Transition

variable {ι : Type} {s t : State ι} {k : ℕ}

/-- **There is one item exactly where the flag is set**, and none once the destructor has
left its loop. -/
structure Scheduled (s : State ι) : Prop where
  count : s.items.length = if s.bgCompactionScheduled then 1 else 0
  shuttingDown : s.destructor ≠ .ready → s.shuttingDown = true
  left : s.destructor = .left → s.bgCompactionScheduled = false
  crash : s.crash ≠ some .assertion

/-! ### The operations -/

/-- What keeps the items and the flag, and does not undo a shutdown. -/
theorem Scheduled.congr (h : Scheduled s) (hitems : t.items.length = s.items.length)
    (hflag : t.bgCompactionScheduled = s.bgCompactionScheduled)
    (hdown : t.shuttingDown = s.shuttingDown) (hdestructor : t.destructor = s.destructor)
    (hcrash : t.crash ≠ some .assertion) : Scheduled t where
  count := by rw [hitems, hflag, h.count]
  shuttingDown := by rw [hdestructor, hdown]; exact h.shuttingDown
  left := by rw [hdestructor, hflag]; exact h.left
  crash := hcrash

theorem Scheduled.maybeScheduleCompaction (h : Scheduled s) :
    Scheduled s.maybeScheduleCompaction := by
  rcases s.maybeScheduleCompaction_cases with he | ⟨hflag, hdown, -, he⟩
  · rwa [he]
  · have hready : s.destructor = .ready := by
      by_contra hne
      rw [h.shuttingDown hne] at hdown
      exact Bool.noConfusion hdown
    rw [he]
    refine ⟨?_, fun hne => absurd hready hne, fun hl => ?_, h.crash⟩
    · simp [h.count, hflag]
    · rw [hready] at hl
      exact DestructorPc.noConfusion hl

/-- The end of `BackgroundCall` removes its item, and may schedule another. -/
theorem Scheduled.endBackgroundCall (h : Scheduled s) (hk : k < s.items.length) :
    Scheduled (s.endBackgroundCall k) := by
  have hflag : s.bgCompactionScheduled = true := by
    by_contra hne
    rw [h.count, if_neg hne] at hk
    exact Nat.not_lt_zero k hk
  have hlen : s.items.length = 1 := by rw [h.count, if_pos hflag]
  have hleft : s.destructor ≠ .left := fun hl => by
    rw [h.left hl] at hflag
    exact Bool.noConfusion hflag
  rw [State.endBackgroundCall]
  rcases State.maybeScheduleCompaction_cases { s with bgCompactionScheduled := false } with
    he | ⟨-, -, -, he⟩
  · rw [he]
    refine ⟨?_, h.shuttingDown, fun _ => rfl, h.crash⟩
    simp [List.length_eraseIdx_of_lt hk, hlen]
  · rw [he]
    have hk' : k < (s.items ++ [Pc.scheduled]).length := by
      rw [List.length_append]
      exact Nat.lt_add_right _ hk
    refine ⟨?_, h.shuttingDown, fun hl => absurd hl hleft, h.crash⟩
    simp [List.length_eraseIdx_of_lt hk', hlen]

/-- An item goes on. -/
theorem Scheduled.goto (h : Scheduled s) (pc : Pc ι) : Scheduled (s.goto k pc) :=
  h.congr (List.length_set ..) rfl rfl rfl h.crash

theorem Scheduled.reach (h : Scheduled s) {manual : Option ι} {manualEnd : Option InternalKey}
    {status : Status} : Scheduled (s.reach k manual manualEnd status) :=
  h.congr (List.length_set ..) rfl rfl rfl h.crash

theorem Scheduled.recordBackgroundError (h : Scheduled s) (status : Status) :
    Scheduled (s.recordBackgroundError status) := by
  obtain ⟨e, he⟩ := s.recordBackgroundError_eq status
  rw [he]
  exact h.congr rfl rfl rfl rfl h.crash

theorem Scheduled.compactMemTable (h : Scheduled s) (status : Status) (needs : Bool) :
    Scheduled (s.compactMemTable status needs) := by
  obtain ⟨imm, e, needs', he⟩ := s.compactMemTable_eq status needs
  rw [he]
  exact h.congr rfl rfl rfl rfl h.crash

theorem State.compactMemTable_items (s : State ι) (status : Status) (needs : Bool) :
    (s.compactMemTable status needs).items = s.items := by
  obtain ⟨imm, e, needs', he⟩ := s.compactMemTable_eq status needs
  rw [he]

/-- An item is still there after the flush. -/
theorem State.lt_compactMemTable (hk : k < s.items.length) (status : Status) (needs : Bool) :
    k < (s.compactMemTable status needs).items.length := by
  rw [State.compactMemTable_items]
  exact hk

theorem Scheduled.comeBack (h : Scheduled s) {manual : Option ι} {manualEnd : Option InternalKey}
    (status : Status) (needs : Bool) : Scheduled (s.comeBack k manual manualEnd status needs) := by
  obtain ⟨e, needs', he⟩ := s.comeBack_eq k status needs manual manualEnd
  rw [he]
  refine Scheduled.reach ?_
  exact h.congr rfl rfl rfl rfl h.crash

theorem Scheduled.destroy (h : Scheduled s) : Scheduled s.destroy where
  count := h.count
  shuttingDown _ := rfl
  left hl := by
    by_contra hne
    have hflag : s.bgCompactionScheduled = true := by simpa [State.destroy] using hne
    simp [State.destroy, hflag] at hl
  crash := h.crash

theorem Scheduled.initial (h : State.Initial s) : Scheduled s := by
  obtain ⟨_, _, rfl, -⟩ := h
  exact ⟨rfl, fun h => absurd rfl h, fun _ => rfl, by simp⟩

theorem State.lt_of_getElem? {pc : Pc ι} (h : s.items[k]? = some pc) : k < s.items.length :=
  (List.getElem?_eq_some_iff.mp h).1

variable [DecidableEq ι]

theorem Scheduled.testCompactRange (h : Scheduled s) (i : ι) :
    Scheduled (s.testCompactRange i) := by
  rw [State.testCompactRange]
  split_ifs
  · refine Scheduled.maybeScheduleCompaction ?_
    exact h.congr rfl rfl rfl rfl h.crash
  · exact h.congr rfl rfl rfl rfl h.crash
  · exact h.congr rfl rfl rfl rfl h.crash
  · exact h.congr rfl rfl rfl rfl h.crash

theorem Scheduled.setRequest (h : Scheduled s) (m : ι) (r : ManualCompaction) :
    Scheduled (s.setRequest m r) :=
  h.congr rfl rfl rfl rfl h.crash

theorem Scheduled.backgroundCompaction (h : Scheduled s) (c : Option Compaction) :
    Scheduled (s.backgroundCompaction k c) := by
  obtain ⟨request, pc, held, -, he⟩ := s.backgroundCompaction_eq k c
  rw [he]
  exact h.congr (List.length_set ..) rfl rfl rfl h.crash

/-- An item that runs finds the flag set: the assertion holds. -/
theorem Scheduled.backgroundCall (h : Scheduled s) (hk : k < s.items.length)
    (c : Option Compaction) : Scheduled (s.backgroundCall k c) := by
  rw [State.backgroundCall]
  split_ifs with hflag
  · rw [h.count, if_neg (by simpa using hflag)] at hk
    exact absurd hk (Nat.not_lt_zero k)
  · exact h.endBackgroundCall hk
  · exact h.endBackgroundCall hk
  · exact h.backgroundCompaction c

theorem Scheduled.lastBlock (h : Scheduled s) (hk : k < s.items.length) {manual : Option ι}
    {manualEnd : Option InternalKey} {status : Status} :
    Scheduled (s.lastBlock k manual manualEnd status) := by
  unfold State.lastBlock
  split
  · exact h.endBackgroundCall hk
  · exact h.congr rfl rfl rfl rfl (by simp)
  · refine Scheduled.endBackgroundCall ?_ hk
    exact h.congr rfl rfl rfl rfl h.crash

/-! ### The system -/

/-- **Every step** keeps the flag in line with the items. -/
theorem Scheduled.step {a : Action ι} (h : Scheduled s) (hstep : (system ι).step s a = some t) :
    Scheduled t := by
  obtain ⟨-, heffect⟩ := effect_of_step hstep
  cases heffect with
  | testCompactRange => exact h.testCompactRange _
  | @other imm needs schedule _ =>
    have h : Scheduled { s with imm := s.imm || imm, needsCompaction := needs } :=
      h.congr rfl rfl rfl rfl h.crash
    split_ifs
    · exact h.maybeScheduleCompaction
    · exact h
  | recordBackgroundError => exact h.recordBackgroundError _
  | destroy => exact h.destroy
  | backgroundCall _ hk => exact h.backgroundCall (State.lt_of_getElem? hk) _
  | flushed _ hk =>
    exact (h.compactMemTable _ _).endBackgroundCall
      (State.lt_compactMemTable (State.lt_of_getElem? hk) _ _)
  | moved => exact h.comeBack _ _
  | flushedInside => exact h.compactMemTable _ _
  | worked => exact h.comeBack _ _
  | lastBlock _ hk => exact h.lastBlock (State.lt_of_getElem? hk)

theorem Scheduled.of_reachable (h : (system ι).Reachable s) : Scheduled s :=
  h.invariant (fun _ => .initial) fun _ _ _ h hstep => h.step hstep

/-! ### After the destructor -/

section

variable (s : State ι) (k : ℕ) (status : Status) (needs : Bool)

omit [DecidableEq ι] in
@[simp] theorem State.maybeScheduleCompaction_destructor :
    s.maybeScheduleCompaction.destructor = s.destructor := by
  obtain ⟨flag, items, he⟩ := s.maybeScheduleCompaction_eq
  rw [he]

omit [DecidableEq ι] in
@[simp] theorem State.recordBackgroundError_destructor :
    (s.recordBackgroundError status).destructor = s.destructor := by
  obtain ⟨e, he⟩ := s.recordBackgroundError_eq status
  rw [he]

omit [DecidableEq ι] in
@[simp] theorem State.compactMemTable_destructor :
    (s.compactMemTable status needs).destructor = s.destructor := by
  obtain ⟨imm, e, needs', he⟩ := s.compactMemTable_eq status needs
  rw [he]

omit [DecidableEq ι] in
@[simp] theorem State.endBackgroundCall_destructor :
    (s.endBackgroundCall k).destructor = s.destructor := by
  obtain ⟨flag, items, he⟩ := s.endBackgroundCall_eq k
  rw [he]

omit [DecidableEq ι] in
@[simp] theorem State.comeBack_destructor (manual : Option ι) (manualEnd : Option InternalKey) :
    (s.comeBack k manual manualEnd status needs).destructor = s.destructor := by
  obtain ⟨e, needs', he⟩ := s.comeBack_eq k status needs manual manualEnd
  rw [he]
  rfl

@[simp] theorem State.testCompactRange_destructor (i : ι) :
    (s.testCompactRange i).destructor = s.destructor := by
  rw [State.testCompactRange]
  split_ifs
  · exact State.maybeScheduleCompaction_destructor _
  · rfl
  · rfl
  · rfl

@[simp] theorem State.backgroundCall_destructor (c : Option Compaction) :
    (s.backgroundCall k c).destructor = s.destructor := by
  rw [State.backgroundCall]
  split_ifs
  · rfl
  · exact s.endBackgroundCall_destructor k
  · exact s.endBackgroundCall_destructor k
  · obtain ⟨request, pc, held, -, he⟩ := s.backgroundCompaction_eq k c
    rw [he]

@[simp] theorem State.lastBlock_destructor (manual : Option ι) (manualEnd : Option InternalKey) :
    (s.lastBlock k manual manualEnd status).destructor = s.destructor := by
  unfold State.lastBlock
  split
  · exact s.endBackgroundCall_destructor k
  · rfl
  · exact State.endBackgroundCall_destructor _ k

end

/-- The destructor does not come back once it has left its loop. -/
theorem left_of_step {a : Action ι} (h : s.destructor = .left)
    (hstep : (system ι).step s a = some t) : t.destructor = .left := by
  obtain ⟨-, heffect⟩ := effect_of_step hstep
  cases heffect with
  | destroy _ hleft => exact absurd h hleft
  | @other _ _ schedule => cases schedule <;> simpa using h
  | _ => simpa using h

/-- **Background work is scheduled at most once at a time and never outlives the
database**: in every reachable state there is one item exactly where
`bg_compaction_scheduled_` is set, an item that is about to run finds it set, the
assertion at the head of `BackgroundCall` has not failed, and once the destructor has left
its loop there is no item, now or later. -/
theorem scheduled_once (h : (system ι).Reachable s) :
    s.items.length = (if s.bgCompactionScheduled then 1 else 0) ∧
      (.scheduled ∈ s.items → s.bgCompactionScheduled = true) ∧
      s.crash ≠ some .assertion ∧
      (s.destructor = .left → ∀ t, (system ι).Steps s t → t.items = []) := by
  have hs := Scheduled.of_reachable h
  refine ⟨hs.count, fun hpc => ?_, hs.crash, fun hleft t ht => ?_⟩
  · by_contra hflag
    have hnil : s.items = [] := List.length_eq_zero_iff.mp (by rw [hs.count, if_neg hflag])
    rw [hnil] at hpc
    exact List.not_mem_nil hpc
  · have hleft : t.destructor = .left := ht.invariant (fun _ _ _ => left_of_step) hleft
    have ht := Scheduled.of_reachable (h.steps ht)
    exact List.length_eq_zero_iff.mp (by rw [ht.count, ht.left hleft, if_neg (by simp)])

/-- A run in which the destructor waits for an item, and leaves. -/
theorem scheduled_once_destroyed : ∃ t : State Unit, (system Unit).Reachable t ∧
    t.destructor = .left ∧ t.items = [] := by
  obtain ⟨t, hrun, hleft⟩ : ∃ t, (system Unit).run { request := fun _ => { level := 0 } }
      [.other false true true, .destroy, .backgroundCall 0 none, .destroy] = some t ∧
        t.destructor = .left := ⟨_, rfl, rfl⟩
  have hreach : (system Unit).Reachable t :=
    ⟨_, ⟨_, _, rfl, fun _ => rfl⟩, System.steps_of_run hrun⟩
  obtain ⟨-, -, -, hnone⟩ := scheduled_once hreach
  exact ⟨t, hreach, hleft, hnone hleft t .refl⟩

end LevelDb.Background
