import LevelDb.Background.Wakeup

/-!
# How long a thread waits

Whoever waits on `bg_cv_` waits for the item of background work. The destructor waits until
there is none, and a call of `TEST_CompactMemTable` until the immutable memtable is gone, or
an error was recorded. How often another thread runs in between is of no account: what is
counted is the critical sections by which an item goes on (`LevelDb.Background.Action.ofItem`).
It starts, it comes back to `BackgroundCompaction` from what it does without `mutex_`, and it
ends. How long `DoCompactionWork` takes in between is not for this repository to say, nor how
often it holds `mutex_` to open an output file.

After the shutdown at most three such sections follow, in any run
(`LevelDb.Background.shutdown_bounded`); an item in `DoCompactionWork` may flush memtables
besides. A call of `TEST_CompactMemTable` that waits is left waiting by at most three, where
there is no shutdown, those flushes included (`LevelDb.Background.flush_bounded`): an item may
have to finish a compaction first, and the next one begins with the flush. Both bounds are
measures that the sections counted lower, and no other section raises
(`Transition.System.countP_add_le`).
-/

namespace LevelDb.Background

open Transition

variable {ι : Type} {s t : State ι} {k : ℕ} {a : Action ι} {pc pc' : Pc ι} {rank : Pc ι → ℕ}
  {counts : Action ι → Bool}

/-! ### The measure -/

/-- What the items have to do yet, by what is left to do where each of them is. After a crash
it is nothing. -/
def State.toDo (rank : Pc ι → ℕ) (s : State ι) : ℕ :=
  if s.crash.isSome then 0 else (s.items.map rank).sum

theorem State.toDo_of_item (hcrash : s.crash = none) (hitems : s.items = [pc]) :
    s.toDo rank = rank pc := by
  rw [toDo, hcrash, hitems]
  exact Nat.add_zero _

theorem State.toDo_le_of_item (hitems : s.items = [pc]) : s.toDo rank ≤ rank pc := by
  rw [toDo, hitems]
  split_ifs
  · exact Nat.zero_le _
  · exact (Nat.add_zero _).le

theorem State.toDo_le (hcrash : s.crash = none) (hitems : t.items = s.items) :
    t.toDo rank ≤ s.toDo rank := by
  have hs : s.toDo rank = (s.items.map rank).sum := by
    rw [toDo, hcrash]
    rfl
  rw [hs, toDo, hitems]
  split_ifs
  · exact Nat.zero_le _
  · exact le_rfl

theorem State.toDo_of_no_item (hitems : s.items = []) : s.toDo rank = 0 := by
  rw [toDo, hitems]
  exact ite_self _

/-- **A section of the only item**, which goes on where less is to do. -/
theorem Scheduled.toDo_lt (h : Scheduled s) (hcrash : s.crash = none) (hk : s.items[k]? = some pc)
    (hitems : t.items = s.items.set k pc') (hrank : rank pc' < rank pc) :
    t.toDo rank < s.toDo rank := by
  obtain ⟨rfl, hs⟩ := h.items_eq hk
  rw [hs] at hitems
  exact (State.toDo_le_of_item hitems).trans_lt (by rwa [State.toDo_of_item hcrash hs])

/-- The only item ends. -/
theorem Scheduled.toDo_lt_of_erase (h : Scheduled s) (hcrash : s.crash = none)
    (hk : s.items[k]? = some pc) (hitems : t.items = s.items.eraseIdx k) (hrank : 0 < rank pc) :
    t.toDo rank < s.toDo rank := by
  obtain ⟨rfl, hs⟩ := h.items_eq hk
  rw [hs] at hitems
  rwa [State.toDo_of_no_item hitems, State.toDo_of_item hcrash hs]

theorem State.toDo_lt_of_crash (h : Scheduled s) (hcrash : s.crash = none)
    (hk : s.items[k]? = some pc) (ht : t.crash.isSome = true) (hrank : 0 < rank pc) :
    t.toDo rank < s.toDo rank := by
  rw [State.toDo_of_item hcrash (h.items_eq hk).2, toDo, if_pos ht]
  exact hrank

/-! ### After the shutdown -/

/-- In a shutdown nothing is scheduled. -/
theorem State.maybeScheduleCompaction_of_shutdown (h : s.shuttingDown = true) :
    s.maybeScheduleCompaction = s := by
  rcases s.maybeScheduleCompaction_cases with he | ⟨-, hdown, -, -⟩
  · exact he
  · rw [h] at hdown
    exact absurd hdown (by simp)

theorem State.endBackgroundCall_of_shutdown (h : s.shuttingDown = true) :
    s.endBackgroundCall k = { s with
      bgCompactionScheduled := false, items := s.items.eraseIdx k, mutexHeld := false } := by
  have hsame : State.maybeScheduleCompaction { s with bgCompactionScheduled := false } =
      { s with bgCompactionScheduled := false } := State.maybeScheduleCompaction_of_shutdown h
  rw [State.endBackgroundCall, hsame]

theorem State.compactMemTable_same (s : State ι) (status : Status) (needs : Bool) :
    (s.compactMemTable status needs).items = s.items ∧
      (s.compactMemTable status needs).shuttingDown = s.shuttingDown := by
  obtain ⟨imm, e, needs', he⟩ := s.compactMemTable_eq status needs
  rw [he]
  exact ⟨rfl, rfl⟩

theorem State.comeBack_same (s : State ι) (manual : Option ι) (manualEnd : Option InternalKey)
    (status : Status) (needs : Bool) :
    (s.comeBack k manual manualEnd status needs).shuttingDown = s.shuttingDown := by
  obtain ⟨e, needs', he⟩ := s.comeBack_eq k status needs manual manualEnd
  rw [he]
  rfl

variable [DecidableEq ι]

/-- **What a step does to the measure**: no step raises it, and one that counts lowers it. -/
def Lowers (counts : Action ι → Bool) (rank : Pc ι → ℕ) (s : State ι) (a : Action ι)
    (t : State ι) : Prop :=
  t.toDo rank ≤ s.toDo rank ∧ (counts a = true → t.toDo rank < s.toDo rank)

omit [DecidableEq ι] in
theorem Lowers.of_lt (h : t.toDo rank < s.toDo rank) : Lowers counts rank s a t :=
  ⟨h.le, fun _ => h⟩

omit [DecidableEq ι] in
/-- A section that does not count leaves the items alone. -/
theorem Lowers.of_other (hcrash : s.crash = none) (ha : counts a = false)
    (hitems : t.items = s.items) : Lowers counts rank s a t :=
  ⟨State.toDo_le hcrash hitems, fun h => by simp [ha] at h⟩

omit [DecidableEq ι] in
/-- The only item ends in a shutdown. -/
theorem shutdown_end {u : State ι} (h : Scheduled s) (hcrash : s.crash = none)
    (hk : s.items[k]? = some pc) (hrank : 0 < rank pc) (hdown : u.shuttingDown = true)
    (hitems : u.items = s.items) :
    (u.endBackgroundCall k).shuttingDown = true ∧
      Lowers counts rank s a (u.endBackgroundCall k) := by
  rw [State.endBackgroundCall_of_shutdown hdown]
  refine ⟨hdown, .of_lt (h.toDo_lt_of_erase hcrash hk ?_ hrank)⟩
  exact congrArg (List.eraseIdx · k) hitems

/-- **After the shutdown** every section of the item brings it closer to its end, and no
section makes more to do. -/
theorem shutdown_step (h : Scheduled s) (hdown : s.shuttingDown = true)
    (hstep : (system ι).step s a = some t) :
    t.shuttingDown = true ∧ Lowers Action.ofItem Pc.rank s a t := by
  obtain ⟨hcrash, heffect⟩ := effect_of_step hstep
  cases heffect with
  | @testCompactRange i _ _ =>
    have hleaves : ¬s.continues i = true := by simp [State.continues, hdown]
    rw [State.testCompactRange, if_neg hleaves]
    split_ifs
    · exact ⟨hdown, .of_other hcrash rfl rfl⟩
    · exact ⟨hdown, .of_other hcrash rfl rfl⟩
  | @other imm needs schedule _ =>
    have hsame : State.maybeScheduleCompaction
        { s with imm := s.imm || imm, needsCompaction := needs } =
          { s with imm := s.imm || imm, needsCompaction := needs } :=
      State.maybeScheduleCompaction_of_shutdown hdown
    rw [hsame, ite_self]
    exact ⟨hdown, .of_other hcrash rfl rfl⟩
  | @recordBackgroundError status _ =>
    obtain ⟨e, he⟩ := s.recordBackgroundError_eq status
    rw [he]
    exact ⟨hdown, .of_other hcrash rfl rfl⟩
  | destroy => exact ⟨rfl, .of_other hcrash rfl rfl⟩
  | @backgroundCall k c _ hk =>
    have hend : s.backgroundCall k c = s.endBackgroundCall k := by
      rw [State.backgroundCall, if_neg (by simp [h.flag_of_item hk]), if_pos hdown]
    rw [hend]
    exact shutdown_end h hcrash hk (by simp [Pc.rank]) hdown rfl
  | @flushed k status needs _ hk =>
    obtain ⟨hitems, hd⟩ := s.compactMemTable_same status needs
    exact shutdown_end h hcrash hk (by simp [Pc.rank]) (hd.trans hdown) hitems
  | moved _ hk =>
    refine ⟨(s.comeBack_same _ _ _ _).trans hdown, .of_lt ?_⟩
    exact h.toDo_lt hcrash hk (s.comeBack_items ..) (by simp [Pc.rank])
  | @flushedInside k status needs _ _ _ hk =>
    obtain ⟨hitems, hd⟩ := s.compactMemTable_same status needs
    exact ⟨hd.trans hdown, .of_other hcrash rfl hitems⟩
  | worked _ hk =>
    refine ⟨(s.comeBack_same _ _ _ _).trans hdown, .of_lt ?_⟩
    exact h.toDo_lt hcrash hk (s.comeBack_items ..) (by simp [Pc.rank])
  | lastBlock _ hk =>
    have hpos : ∀ {m : Option ι} {e status}, 0 < Pc.rank (.lastBlock m e status) := Nat.one_pos
    unfold State.lastBlock
    split
    · exact shutdown_end h hcrash hk hpos hdown rfl
    · exact ⟨hdown, .of_lt (State.toDo_lt_of_crash h hcrash hk rfl hpos)⟩
    · refine shutdown_end h hcrash hk hpos ?_ ?_
      · exact hdown
      · rfl

omit [DecidableEq ι] in
/-- The items never have more than three sections to come. -/
theorem Scheduled.toDo_le (h : Scheduled s) : s.toDo Pc.rank ≤ 3 := by
  rcases hitems : s.items with _ | ⟨pc, pcs⟩
  · rw [State.toDo_of_no_item hitems]
    exact Nat.zero_le 3
  · have hk : s.items[0]? = some pc := by rw [hitems]; rfl
    refine (State.toDo_le_of_item (h.items_eq hk).2).trans ?_
    cases pc <;> simp [Pc.rank]

theorem Outstanding.of_reachable (h : (system ι).Reachable s) : Outstanding s :=
  h.invariant (fun _ => .initial) fun _ _ _ h hstep => h.step hstep

/-- **The destructor waits for at most three sections** by which an item goes on: in every run
after the shutdown, those that the items take are paid for by what they had to do before.
While there is an item, and the process has not ended, it can go on; and where there is none,
the destructor that runs leaves its loop. -/
theorem shutdown_bounded (h : (system ι).Reachable s) (hdown : s.shuttingDown = true) :
    s.toDo Pc.rank ≤ 3 ∧
      (∀ as t, (system ι).run s as = some t →
        as.countP Action.ofItem + t.toDo Pc.rank ≤ s.toDo Pc.rank) ∧
      (s.crash = none → s.items ≠ [] →
        ∃ a t, a.ofItem = true ∧ (system ι).step s a = some t) ∧
      (s.items = [] → ∀ t, (system ι).step s .destroy = some t → t.destructor = .left) := by
  have ho := Outstanding.of_reachable h
  refine ⟨ho.scheduled.toDo_le, fun as t hrun => ?_, fun hcrash hitems => ?_,
    fun hnone t hstep => ?_⟩
  · have hsteps : ∀ s a t, Scheduled s ∧ s.shuttingDown = true → (system ι).step s a = some t →
        True → (Scheduled t ∧ t.shuttingDown = true) ∧ Lowers Action.ofItem Pc.rank s a t := by
      rintro s a t ⟨hs, hdown⟩ hstep -
      obtain ⟨hd, hlow⟩ := shutdown_step hs hdown hstep
      exact ⟨⟨hs.step hstep, hd⟩, hlow⟩
    exact System.countP_add_le hsteps ⟨ho.scheduled, hdown⟩ hrun
      (System.along_of_forall (fun _ _ _ => trivial) s as)
  · obtain ⟨pc, pcs, hpc⟩ := List.exists_cons_of_ne_nil hitems
    have hk : s.items[0]? = some pc := by rw [hpc]; rfl
    obtain ⟨a, t, ha, -, hstep⟩ := ho.exists_step hcrash (ho.scheduled.items_eq hk).2
    exact ⟨a, t, ha, hstep⟩
  · obtain ⟨-, heffect⟩ := effect_of_step hstep
    cases heffect with
    | destroy =>
      have hflag : s.bgCompactionScheduled = false := by
        by_contra hflag
        have hcount := ho.scheduled.count
        rw [if_pos (by simpa using hflag), hnone] at hcount
        simp at hcount
      rw [State.destroy, hflag]
      rfl

/-- The destructor starts while an item is scheduled. The item has one section left to run, and
then the destructor leaves its loop. -/
theorem shutdown_bounded_scheduled : ∃ s t u : State Unit, s.destructor = .waiting ∧
    (system Unit).run s [.backgroundCall 0 none] = some t ∧ 1 + t.toDo Pc.rank ≤ s.toDo Pc.rank ∧
    (system Unit).step t .destroy = some u ∧ u.destructor = .left := by
  obtain ⟨s, hrun, hs, hdown, t, hrun', hitems, hdown', u, hu⟩ : ∃ s, (system Unit).run
      { request := fun _ => { level := 0 } } [.other false true true, .destroy] = some s ∧
        s.destructor = .waiting ∧ s.shuttingDown = true ∧
        ∃ t, (system Unit).run s [.backgroundCall 0 none] = some t ∧ t.items = [] ∧
          t.shuttingDown = true ∧ ∃ u, (system Unit).step t .destroy = some u :=
    ⟨_, rfl, rfl, rfl, _, rfl, rfl, rfl, _, rfl⟩
  have hreach : (system Unit).Reachable s :=
    ⟨_, ⟨_, _, rfl, fun _ => rfl⟩, System.steps_of_run hrun⟩
  have hreach' := hreach.steps (System.steps_of_run hrun')
  obtain ⟨-, hbound, -⟩ := shutdown_bounded hreach hdown
  obtain ⟨-, -, -, hleft⟩ := shutdown_bounded hreach' hdown'
  exact ⟨s, t, u, hs, hrun', hbound _ t hrun', hu, hleft hitems u hu⟩

/-! ### Waiting for a flush -/

/-- The loop of `TEST_CompactMemTable`, from where it has `mutex_`: it waits, or returns a
status. -/
def State.testCompactMemTable (s : State ι) : Option Status :=
  if s.imm && s.bgError.isOk then none
  else if s.imm then some s.bgError
  else some .ok

omit [DecidableEq ι] in
theorem State.testCompactMemTable_eq_none :
    s.testCompactMemTable = none ↔ s.imm = true ∧ s.bgError.isOk = true := by
  rw [testCompactMemTable, ← Bool.and_eq_true_iff]
  split_ifs with h himm
  · exact iff_of_true rfl h
  · exact iff_of_false (by simp) h
  · exact iff_of_false (by simp) h

/-- **A call of `TEST_CompactMemTable` waits**, and there is no shutdown. -/
def State.Flushing (s : State ι) : Prop := s.testCompactMemTable = none ∧ s.shuttingDown = false

/-- The sections by which an item goes on, and the flushes of a memtable inside
`DoCompactionWork`. -/
def Action.inBackground : Action ι → Bool
  | .flushedInside .. => true
  | a => a.ofItem

/-- The sections that an item has to go through until it, or the one after it, is about to
flush the memtable. -/
def Pc.sections : Pc ι → ℕ
  | .compactMemTable => 0
  | .scheduled => 1
  | .lastBlock .. => 2
  | .trivialMove | .doCompactionWork .. => 3

omit [DecidableEq ι] in
theorem State.Flushing.flag (h : s.Flushing) (hatt : Attends s) :
    s.bgCompactionScheduled = true := by
  obtain ⟨himm, herror⟩ := State.testCompactMemTable_eq_none.mp h.1
  exact hatt h.2 herror (by rw [State.hasWork, himm]; rfl)

omit [DecidableEq ι] in
/-- **A flush ends the wait**: the memtable is gone, or there is an error. -/
theorem State.Flushing.compactMemTable (h : s.Flushing) (status : Status) (needs : Bool) :
    (s.compactMemTable status needs).testCompactMemTable ≠ none := by
  obtain ⟨-, herror⟩ := State.testCompactMemTable_eq_none.mp h.1
  rw [Ne, State.testCompactMemTable_eq_none, State.compactMemTable]
  split_ifs with hok
  · simp
  · rw [State.recordBackgroundError, if_pos herror]
    exact fun hw => hok hw.2

omit [DecidableEq ι] in
/-- The end of an item leaves a call as it is. -/
theorem State.endBackgroundCall_testCompactMemTable :
    (s.endBackgroundCall k).testCompactMemTable = s.testCompactMemTable := by
  obtain ⟨flag, items, he⟩ := s.endBackgroundCall_eq k
  rw [he]
  rfl

omit [DecidableEq ι] in
/-- An item that ends while a call waits is followed by the next. -/
theorem State.Flushing.endBackgroundCall (h : s.Flushing) (hitems : s.items = [pc]) :
    (s.endBackgroundCall 0).items = [.scheduled] := by
  obtain ⟨himm, herror⟩ := State.testCompactMemTable_eq_none.mp h.1
  have hnext : State.maybeScheduleCompaction { s with bgCompactionScheduled := false } =
      { s with bgCompactionScheduled := true, items := s.items ++ [.scheduled] } := by
    simp [State.maybeScheduleCompaction, h.2, himm, herror]
  rw [State.endBackgroundCall, hnext]
  simp [hitems]

/-- **While a call waits** every section of an item brings the flush closer: a flush inside
`DoCompactionWork` would end the wait. -/
theorem flush_step (h : Scheduled s) (hs : s.Flushing) (hflag : s.bgCompactionScheduled = true)
    (hstep : (system ι).step s a = some t) (ht : t.Flushing) :
    Lowers Action.inBackground Pc.sections s a t := by
  obtain ⟨hcrash, heffect⟩ := effect_of_step hstep
  obtain ⟨himm, herror⟩ := State.testCompactMemTable_eq_none.mp hs.1
  cases heffect with
  | testCompactRange => exact .of_other hcrash rfl (s.testCompactRange_flag hflag _).2.2
  | @other imm needs schedule _ =>
    rw [State.maybeScheduleCompaction_of_flag
      { s with imm := s.imm || imm, needsCompaction := needs } hflag, ite_self]
    exact .of_other hcrash rfl rfl
  | @recordBackgroundError status _ =>
    obtain ⟨e, he⟩ := s.recordBackgroundError_eq status
    rw [he]
    exact .of_other hcrash rfl rfl
  | destroy => exact absurd ht.2 (by simp [State.destroy])
  | @backgroundCall k c _ hk =>
    have hflush : s.backgroundCall k c = s.goto k .compactMemTable := by
      unfold State.backgroundCall State.backgroundCompaction
      rw [hflag, hs.2, herror, himm]
      rfl
    rw [hflush]
    exact .of_lt (h.toDo_lt hcrash hk rfl (by simp [Pc.sections]))
  | flushed _ hk =>
    exact absurd (State.endBackgroundCall_testCompactMemTable.symm.trans ht.1)
      (hs.compactMemTable _ _)
  | flushedInside => exact absurd ht.1 (hs.compactMemTable _ _)
  | moved _ hk => exact .of_lt (h.toDo_lt hcrash hk (s.comeBack_items ..) (by simp [Pc.sections]))
  | worked _ hk => exact .of_lt (h.toDo_lt hcrash hk (s.comeBack_items ..) (by simp [Pc.sections]))
  | @lastBlock k manual manualEnd status _ hk =>
    obtain ⟨rfl, hitems⟩ := h.items_eq hk
    have hend : ∀ {u : State ι}, u.Flushing → u.items = s.items →
        Lowers Action.inBackground Pc.sections s (.lastBlock 0) (u.endBackgroundCall 0) := by
      intro u hu hi
      refine .of_lt ((State.toDo_le_of_item (hu.endBackgroundCall (hi.trans hitems))).trans_lt ?_)
      rw [State.toDo_of_item hcrash hitems]
      exact Nat.lt_succ_self 1
    unfold State.lastBlock
    split
    · exact hend hs rfl
    · exact .of_lt (State.toDo_lt_of_crash h hcrash hk rfl (by simp [Pc.sections]))
    · exact hend hs rfl

/-- Where the flag was set, a section signals, or leaves an item that will. -/
theorem signals_or_flag (hflag : s.bgCompactionScheduled = true)
    (hstep : (system ι).step s a = some t) :
    s.signals a = true ∨ t.bgCompactionScheduled = true := by
  obtain ⟨-, heffect⟩ := effect_of_step hstep
  cases heffect with
  | testCompactRange => exact Or.inr (s.testCompactRange_flag hflag _).1
  | @other imm needs schedule _ =>
    rw [State.maybeScheduleCompaction_of_flag
      { s with imm := s.imm || imm, needsCompaction := needs } hflag, ite_self]
    exact Or.inr hflag
  | @recordBackgroundError status _ =>
    obtain ⟨e, he⟩ := s.recordBackgroundError_eq status
    rw [he]
    exact Or.inr hflag
  | destroy => exact Or.inr hflag
  | @backgroundCall k c _ hk =>
    rcases hs : s.signals (.backgroundCall k c) with _ | _
    · rw [s.backgroundCall_of_not_signals hflag hs]
      exact Or.inr ((s.backgroundCompaction_flag c).trans hflag)
    · exact Or.inl rfl
  | flushed => exact Or.inl rfl
  | moved _ hk => exact Or.inr ((s.comeBack_flag _ _ _ _).trans hflag)
  | flushedInside => exact Or.inr ((s.compactMemTable_flag _ _).trans hflag)
  | worked _ hk => exact Or.inr ((s.comeBack_flag _ _ _ _).trans hflag)
  | lastBlock => exact Or.inl rfl

omit [DecidableEq ι] in
theorem Pc.sections_le (pc : Pc ι) : pc.sections ≤ 3 := by
  cases pc <;> simp [Pc.sections]

/-- **A call of `TEST_CompactMemTable`** that waits is left waiting by at most three sections
of the items, flushes inside `DoCompactionWork` included, where there is no shutdown. It has an
item to wait for, which can go on unless the process has ended; and a section after which it
need not wait has signalled, or leaves an item that will. -/
theorem flush_bounded {w : Watch ι} (h : (watched ι).Reachable w) (hw : w.state.Flushing) :
    w.state.bgCompactionScheduled = true ∧
      (w.state.crash = none → ∃ a u, a.ofItem = true ∧ (watched ι).step w a = some u) ∧
      (∀ a u, (watched ι).step w a = some u →
        w.state.signals a = true ∨ u.state.bgCompactionScheduled = true) ∧
      ∀ as u, (watched ι).run w as = some u →
        (watched ι).along (fun _ _ u => u.state.Flushing) w as →
          as.countP Action.inBackground ≤ 3 := by
  have ha := Attended.of_reachable h
  have hflag := hw.flag ha.attends
  obtain ⟨pc, hpc⟩ := List.length_eq_one_iff.mp
    (ha.outstanding.scheduled.count.trans (if_pos hflag))
  refine ⟨hflag, fun hcrash => ?_, fun a u hstep => ?_, fun as u hrun halong => ?_⟩
  · obtain ⟨a, t, hitem, hd, hstep⟩ := ha.outstanding.exists_step hcrash hpc
    refine ⟨a, ⟨t, w.blockedAfter a t⟩, hitem, System.guard_step.mpr ⟨hd, ?_⟩⟩
    exact Option.map_eq_some_iff.mpr ⟨t, hstep, rfl⟩
  · exact signals_or_flag hflag (watched_step hstep).2.1
  · have hsteps : ∀ (w : Watch ι) a u, Attended w ∧ w.state.Flushing →
        (watched ι).step w a = some u → u.state.Flushing →
          (Attended u ∧ u.state.Flushing) ∧
            Lowers Action.inBackground Pc.sections w.state a u.state := by
      rintro w a u ⟨ha, hw⟩ hstep hu
      refine ⟨⟨ha.step hstep, hu⟩, ?_⟩
      exact flush_step ha.outstanding.scheduled hw (hw.flag ha.attends) (watched_step hstep).2.1 hu
    have hbound := System.countP_add_le hsteps ⟨ha, hw⟩ hrun halong
    exact (Nat.le_of_add_right_le hbound).trans ((State.toDo_le_of_item hpc).trans pc.sections_le)

/-- A memtable is full while an item is in `DoCompactionWork`. Three sections leave a call
waiting, and the fourth is the flush. -/
theorem flush_bounded_compacting : ∃ w u v : Watch Unit, w.state.Flushing ∧
    (watched Unit).run w [.worked 0 .ok true, .lastBlock 0, .backgroundCall 0 none] = some u ∧
    [Action.worked (ι := Unit) 0 .ok true, .lastBlock 0, .backgroundCall 0 none].countP
      Action.inBackground ≤ 3 ∧
    (watched Unit).step u (.flushed 0 .ok false) = some v ∧
    v.state.testCompactMemTable = some .ok := by
  obtain ⟨w, hrun, hw, u, hrun', halong, v, hv, hok⟩ : ∃ w, (watched Unit).run
      { state := State.maybeScheduleCompaction
          { request := fun _ => { level := 0 }, needsCompaction := true } }
      [.backgroundCall 0 (some { largest := ⟨[], 0, .kTypeValue⟩ }), .other true true true] =
        some w ∧ w.state.Flushing ∧ ∃ u, (watched Unit).run w
          [.worked 0 .ok true, .lastBlock 0, .backgroundCall 0 none] = some u ∧
        (watched Unit).along (fun _ _ u => u.state.Flushing) w
          [.worked 0 .ok true, .lastBlock 0, .backgroundCall 0 none] ∧
        ∃ v, (watched Unit).step u (.flushed 0 .ok false) = some v ∧
          v.state.testCompactMemTable = some .ok := by
    refine ⟨_, rfl, ⟨rfl, rfl⟩, _, rfl, ?_, _, rfl, rfl⟩
    intro t ht
    obtain rfl := Option.some.inj ht
    refine ⟨⟨rfl, rfl⟩, fun t ht => ?_⟩
    obtain rfl := Option.some.inj ht
    refine ⟨⟨rfl, rfl⟩, fun t ht => ?_⟩
    obtain rfl := Option.some.inj ht
    exact ⟨⟨rfl, rfl⟩, trivial⟩
  have hreach : (watched Unit).Reachable w :=
    ⟨_, ⟨_, true, ⟨_, false, rfl, fun _ => rfl⟩, rfl⟩, System.steps_of_run hrun⟩
  obtain ⟨-, -, -, hbound⟩ := flush_bounded hreach hw
  exact ⟨w, u, v, hw, hrun', hbound _ u hrun' halong, hv, hok⟩

end LevelDb.Background
