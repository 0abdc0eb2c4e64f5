import LevelDb.Background.Schedule

/-!
# Manual compaction requests

A request lives on the stack of a call of `TEST_CompactRange`, and is shared through
`manual_compaction_`. `BackgroundCompaction` reads the pointer at its start and again in
its last block, and dereferences it there. In between it releases `mutex_`.

That is safe as long as no call gives up the request being worked on
(`LevelDb.Background.manual_safe`). But a call does give up on a shutdown or a background
error, and it does not wait for the background work: then the last block dereferences a
null pointer (`LevelDb.Background.withdrawn_nullPointer`, and
`LevelDb.Background.exists_unsafe` for every step that the condition excludes).
-/

namespace LevelDb.Background

open Transition

variable {ι : Type} {s t : State ι} {k : ℕ}

/-! ### The statement -/

/-- **No withdrawn request is dereferenced.** An item at the last block finds the request
that it read at its start, whose call has not returned; and no call has returned with its
request still pointed to. -/
structure ManualSafe (s : State ι) : Prop where
  lastBlock : ∀ {m manualEnd status}, .lastBlock (some m) manualEnd status ∈ s.items →
    s.manualCompaction = some m ∧ s.call m ≠ .returned
  returned : ∀ i, s.call i = .returned → s.manualCompaction ≠ some i
  crash : s.crash ≠ some .nullPointer

/-- **The step gives a request up** that an item is working on. -/
def State.withdraws [DecidableEq ι] (s : State ι) : Action ι → Bool
  | .testCompactRange i => !s.continues i && s.items.any fun pc => pc.manual = some i
  | _ => false

/-! ### The invariant -/

/-- Where no request is withdrawn, the item that works on a request has it pointed to,
and the call that made it is waiting. -/
structure Working (s : State ι) : Prop where
  scheduled : Scheduled s
  manual : ∀ pc ∈ s.items, ∀ m, pc.manual = some m → s.manualCompaction = some m
  waiting : ∀ m, s.manualCompaction = some m → s.call m = .waiting
  mutexHeld : ∀ {m manualEnd status}, .lastBlock m manualEnd status ∈ s.items → s.mutexHeld = true
  crash : s.crash ≠ some .nullPointer

theorem Working.manualSafe (h : Working s) : ManualSafe s where
  lastBlock hpc := by
    have hm := h.manual _ hpc _ rfl
    refine ⟨hm, ?_⟩
    rw [h.waiting _ hm]
    exact CallPc.noConfusion
  returned i hi hm := by
    rw [h.waiting i hm] at hi
    exact CallPc.noConfusion hi
  crash := h.crash

theorem Working.initial (h : State.Initial s) : Working s := by
  have hs := Scheduled.initial h
  obtain ⟨_, _, rfl, -⟩ := h
  exact ⟨hs, by simp, by simp, by simp, by simp⟩

/-- What leaves the items, the requests pointed to and the calls alone. -/
theorem Working.congr (h : Working s) (hs : Scheduled t) (hitems : t.items = s.items)
    (hmanual : t.manualCompaction = s.manualCompaction) (hcall : t.call = s.call)
    (hmutex : t.mutexHeld = s.mutexHeld) (hcrash : t.crash ≠ some .nullPointer) : Working t where
  scheduled := hs
  manual := by rw [hitems, hmanual]; exact h.manual
  waiting := by rw [hmanual, hcall]; exact h.waiting
  mutexHeld := by rw [hitems, hmutex]; exact h.mutexHeld
  crash := hcrash

/-! ### The operations -/

/-- A new item has read no request. -/
theorem Working.maybeScheduleCompaction (h : Working s) : Working s.maybeScheduleCompaction := by
  have hs := h.scheduled.maybeScheduleCompaction
  rcases s.maybeScheduleCompaction_cases with he | ⟨-, -, -, he⟩
  · rwa [he]
  · rw [he] at hs ⊢
    refine ⟨hs, fun pc hpc m hm => ?_, h.waiting, fun hpc => ?_, h.crash⟩
    · rcases List.mem_append.mp hpc with hpc | hpc
      · exact h.manual pc hpc m hm
      · obtain rfl := List.mem_singleton.mp hpc
        exact absurd hm (by simp [Pc.manual])
    · rcases List.mem_append.mp hpc with hpc | hpc
      · exact h.mutexHeld hpc
      · exact absurd (List.mem_singleton.mp hpc) (by simp)

/-- Where an item has ended, there is at most one that has just been scheduled. -/
theorem Scheduled.eq_scheduled (h : Scheduled s) (hk : k < s.items.length) {pc : Pc ι}
    (hpc : pc ∈ (s.endBackgroundCall k).items) : pc = .scheduled := by
  have hlen : s.items.length = 1 := by
    have hle : s.items.length ≤ 1 := by
      rw [h.count]
      split_ifs <;> decide
    exact le_antisymm hle (Nat.lt_of_le_of_lt (Nat.zero_le k) hk)
  obtain ⟨x, hx⟩ := List.length_eq_one_iff.mp hlen
  obtain rfl : k = 0 := by omega
  rw [State.endBackgroundCall] at hpc
  rcases State.maybeScheduleCompaction_cases { s with bgCompactionScheduled := false } with
    he | ⟨-, -, -, he⟩
  · rw [he] at hpc
    simp [hx] at hpc
  · rw [he] at hpc
    simpa [hx] using hpc

/-- The end of `BackgroundCall` leaves no item that works on a request. -/
theorem Working.endBackgroundCall (hs : Scheduled s) (hk : k < s.items.length)
    (hwaiting : ∀ m, s.manualCompaction = some m → s.call m = .waiting)
    (hcrash : s.crash ≠ some .nullPointer) : Working (s.endBackgroundCall k) where
  scheduled := hs.endBackgroundCall hk
  manual pc hpc m hm := by
    obtain rfl := hs.eq_scheduled hk hpc
    exact absurd hm (by simp [Pc.manual])
  waiting := by
    obtain ⟨flag, items, he⟩ := s.endBackgroundCall_eq k
    rw [he]
    exact hwaiting
  mutexHeld hpc := absurd (hs.eq_scheduled hk hpc) (by simp)
  crash := by
    obtain ⟨flag, items, he⟩ := s.endBackgroundCall_eq k
    rw [he]
    exact hcrash

/-- An item goes on, with the request that is pointed to or with none. -/
theorem Working.goto (h : Working s) {pc : Pc ι}
    (hpc : ∀ m, pc.manual = some m → s.manualCompaction = some m)
    (hlast : ∀ m manualEnd status, pc ≠ .lastBlock m manualEnd status) :
    Working (s.goto k pc) where
  scheduled := h.scheduled.goto pc
  manual x hx m hm := by
    rcases List.mem_or_eq_of_mem_set hx with hx | rfl
    · exact h.manual x hx m hm
    · exact hpc m hm
  waiting := h.waiting
  mutexHeld hx := by
    rcases List.mem_or_eq_of_mem_set hx with hx | hx
    · exact h.mutexHeld hx
    · exact absurd hx.symm (hlast _ _ _)
  crash := h.crash

theorem Working.reach (h : Working s) {manual : Option ι} {manualEnd : Option InternalKey}
    {status : Status} (hm : ∀ m, manual = some m → s.manualCompaction = some m) :
    Working (s.reach k manual manualEnd status) where
  scheduled := h.scheduled.reach
  manual x hx m hxm := by
    rcases List.mem_or_eq_of_mem_set hx with hx | rfl
    · exact h.manual x hx m hxm
    · exact hm m hxm
  waiting := h.waiting
  mutexHeld _ := rfl
  crash := h.crash

theorem Working.recordBackgroundError (h : Working s) (status : Status) :
    Working (s.recordBackgroundError status) := by
  have hs := h.scheduled.recordBackgroundError status
  obtain ⟨e, he⟩ := s.recordBackgroundError_eq status
  rw [he] at hs ⊢
  exact h.congr hs rfl rfl rfl rfl h.crash

theorem Working.compactMemTable (h : Working s) (status : Status) (needs : Bool) :
    Working (s.compactMemTable status needs) := by
  have hs := h.scheduled.compactMemTable status needs
  obtain ⟨imm, e, needs', he⟩ := s.compactMemTable_eq status needs
  rw [he] at hs ⊢
  exact h.congr hs rfl rfl rfl rfl h.crash

theorem Working.comeBack (h : Working s) {manual : Option ι} {manualEnd : Option InternalKey}
    (status : Status) (needs : Bool) (hm : ∀ m, manual = some m → s.manualCompaction = some m) :
    Working (s.comeBack k manual manualEnd status needs) := by
  obtain ⟨e, needs', he⟩ := s.comeBack_eq k status needs manual manualEnd
  have h : Working { s with bgError := e, needsCompaction := needs' } :=
    h.congr (h.scheduled.congr rfl rfl rfl rfl h.scheduled.crash) rfl rfl rfl rfl h.crash
  rw [he]
  exact h.reach hm

theorem Working.destroy (h : Working s) : Working s.destroy :=
  h.congr h.scheduled.destroy rfl rfl rfl rfl h.crash

variable [DecidableEq ι]

/-- **A call** makes a request, waits, or gives a request up that no item works on. -/
theorem Working.testCompactRange (h : Working s) {i : ι}
    (hw : s.withdraws (.testCompactRange i) = false) : Working (s.testCompactRange i) := by
  have hs := h.scheduled.testCompactRange i
  rw [State.testCompactRange] at hs ⊢
  by_cases hcont : s.continues i
  · rw [if_pos hcont] at hs ⊢
    split_ifs at hs ⊢ with hnone
    · have hnone : s.manualCompaction = none := Option.isNone_iff_eq_none.mp hnone
      refine Working.maybeScheduleCompaction ⟨?_, fun pc hpc m hm => ?_, fun m hm => ?_,
        h.mutexHeld, h.crash⟩
      · exact h.scheduled.congr rfl rfl rfl rfl h.scheduled.crash
      · rw [h.manual pc hpc m hm] at hnone
        exact absurd hnone (by simp)
      · obtain rfl : i = m := Option.some.inj hm
        exact Function.update_self _ _ _
    · refine ⟨hs, h.manual, fun m hm => ?_, h.mutexHeld, h.crash⟩
      by_cases hi : m = i
      · subst hi
        exact Function.update_self _ _ _
      · dsimp only
        rw [Function.update_of_ne hi]
        exact h.waiting m hm
  · rw [if_neg hcont] at hs ⊢
    have hfree : ∀ pc ∈ s.items, pc.manual ≠ some i := by
      intro pc hpc hm
      have hany : (s.items.any fun pc => pc.manual = some i) = true :=
        List.any_eq_true.mpr ⟨pc, hpc, by simpa using hm⟩
      rw [State.withdraws, hany] at hw
      exact hcont (by simpa using hw)
    split_ifs at hs ⊢ with hi
    · refine ⟨hs, fun pc hpc m hm => ?_, fun m hm => absurd hm (by simp), h.mutexHeld, h.crash⟩
      obtain rfl : i = m := Option.some.inj (hi.symm.trans (h.manual pc hpc m hm))
      exact absurd hm (hfree pc hpc)
    · refine ⟨hs, h.manual, fun m hm => ?_, h.mutexHeld, h.crash⟩
      have hne : m ≠ i := by
        rintro rfl
        exact hi hm
      dsimp only
      rw [Function.update_of_ne hne]
      exact h.waiting m hm

theorem Working.setRequest (h : Working s) (m : ι) (r : ManualCompaction) :
    Working (s.setRequest m r) :=
  h.congr (h.scheduled.setRequest m r) rfl rfl rfl rfl h.crash

theorem Working.backgroundCompaction (h : Working s) (c : Option Compaction) :
    Working (s.backgroundCompaction k c) := by
  unfold State.backgroundCompaction
  split_ifs
  · exact h.goto (by simp [Pc.manual]) (by simp)
  · split
    · next m hman =>
      refine (h.setRequest _ _).reach fun m' hm' => ?_
      exact hman.trans hm'
    · next m c hman =>
      refine (h.setRequest _ _).goto (fun m' hm' => ?_) (by simp)
      exact hman.trans hm'
    · exact h.reach (by simp)
    · split_ifs
      · exact h.goto (by simp [Pc.manual]) (by simp)
      · exact h.goto (by simp [Pc.manual]) (by simp)

theorem Working.backgroundCall (h : Working s) (hk : k < s.items.length) (c : Option Compaction) :
    Working (s.backgroundCall k c) := by
  have hend := Working.endBackgroundCall h.scheduled hk h.waiting h.crash
  rw [State.backgroundCall]
  split_ifs with hflag
  · have hlen := h.scheduled.count
    rw [if_neg (by simpa using hflag)] at hlen
    rw [hlen] at hk
    exact absurd hk (Nat.not_lt_zero k)
  · exact hend
  · exact hend
  · exact h.backgroundCompaction c

/-- **The last block** finds the request that its item has been working on. -/
theorem Working.lastBlock (h : Working s) {manual : Option ι} {manualEnd : Option InternalKey}
    {status : Status} (hk : s.items[k]? = some (.lastBlock manual manualEnd status)) :
    Working (s.lastBlock k manual manualEnd status) := by
  have hlt := State.lt_of_getElem? hk
  unfold State.lastBlock
  split
  · exact .endBackgroundCall h.scheduled hlt h.waiting h.crash
  · next m hman =>
    have hm := h.manual _ (List.mem_of_getElem? hk) m rfl
    rw [hman] at hm
    exact absurd hm (by simp)
  · refine .endBackgroundCall ?_ hlt (fun m hm => absurd hm (by simp)) h.crash
    exact h.scheduled.congr rfl rfl rfl rfl h.scheduled.crash

/-! ### The system -/

/-- **Every step** but the withdrawal of a request keeps the invariant. -/
theorem Working.step {a : Action ι} (h : Working s) (hw : s.withdraws a = false)
    (hstep : (system ι).step s a = some t) : Working t := by
  obtain ⟨-, heffect⟩ := effect_of_step hstep
  cases heffect with
  | testCompactRange => exact h.testCompactRange hw
  | @other imm needs schedule _ =>
    have h : Working { s with imm := s.imm || imm, needsCompaction := needs } :=
      h.congr (h.scheduled.congr rfl rfl rfl rfl h.scheduled.crash) rfl rfl rfl rfl h.crash
    split_ifs
    · exact h.maybeScheduleCompaction
    · exact h
  | recordBackgroundError => exact h.recordBackgroundError _
  | destroy => exact h.destroy
  | backgroundCall _ hk => exact h.backgroundCall (State.lt_of_getElem? hk) _
  | @flushed k status needs _ hk =>
    have h := h.compactMemTable status needs
    have hlt := State.lt_compactMemTable (State.lt_of_getElem? hk) status needs
    exact .endBackgroundCall h.scheduled hlt h.waiting h.crash
  | moved => exact h.comeBack _ _ (by simp)
  | flushedInside => exact h.compactMemTable _ _
  | worked _ hk =>
    exact h.comeBack _ _ fun m hm => h.manual _ (List.mem_of_getElem? hk) m hm
  | lastBlock _ hk => exact h.lastBlock hk

/-- The system in which no request is withdrawn that an item works on. -/
def patient (ι : Type) [DecidableEq ι] : System (State ι) (Action ι) :=
  (system ι).guard fun s a => s.withdraws a = false

theorem Working.of_reachable (h : (patient ι).Reachable s) : Working s :=
  h.invariant (fun _ => .initial) fun _ _ _ h hstep =>
    h.step (System.guard_step.mp hstep).1 (System.guard_step.mp hstep).2

/-- **No withdrawn request is dereferenced** in any run in which no call gives up a
request that an item is working on. -/
theorem manual_safe (h : (patient ι).Reachable s) : ManualSafe s :=
  (Working.of_reachable h).manualSafe

/-- A run to the last block of a manual compaction whose call waits. -/
theorem manual_safe_waiting : ∃ t : State Unit, t.manualCompaction = some () ∧
    .lastBlock (some ()) (some ⟨[], 0, .kTypeValue⟩) .ok ∈ t.items ∧ ManualSafe t := by
  obtain ⟨t, hrun, hmanual, hitems⟩ : ∃ t, (patient Unit).run { request := fun _ => { level := 0 } }
      [.testCompactRange (), .backgroundCall 0 (some { largest := ⟨[], 0, .kTypeValue⟩ }),
        .worked 0 .ok false] = some t ∧ t.manualCompaction = some () ∧
      .lastBlock (some ()) (some ⟨[], 0, .kTypeValue⟩) .ok ∈ t.items :=
    ⟨_, rfl, rfl, List.mem_singleton.mpr rfl⟩
  exact ⟨t, hmanual, hitems, manual_safe ⟨_, ⟨_, _, rfl, fun _ => rfl⟩, System.steps_of_run hrun⟩⟩

/-- A run in which a call gives its request up: `DoCompactionWork` flushes the immutable
memtable, which fails; the background error wakes the call up, and it returns; then the
item comes to its last block, and finds a null pointer. -/
theorem withdrawn_nullPointer : ∃ t : State Unit, (system Unit).Reachable t ∧
    .lastBlock (some ()) (some ⟨[], 0, .kTypeValue⟩) .ok ∈ t.items ∧
    t.manualCompaction = none ∧ t.call () = .returned ∧ ¬ManualSafe t ∧
    ∃ u, (system Unit).step t (.lastBlock 0) = some u ∧ u.crash = some .nullPointer := by
  obtain ⟨t, hrun, hitems, hmanual, hcall, u, hu, hcrash⟩ :
      ∃ t, (system Unit).run { request := fun _ => { level := 0 } }
        [.testCompactRange (), .backgroundCall 0 (some { largest := ⟨[], 0, .kTypeValue⟩ }),
          .other true false false, .flushedInside 0 (.ioError "") false, .testCompactRange (),
          .worked 0 .ok false] = some t ∧
      .lastBlock (some ()) (some ⟨[], 0, .kTypeValue⟩) .ok ∈ t.items ∧
      t.manualCompaction = none ∧ t.call () = .returned ∧
      ∃ u, (system Unit).step t (.lastBlock 0) = some u ∧ u.crash = some .nullPointer :=
    ⟨_, rfl, List.mem_singleton.mpr rfl, rfl, rfl, _, rfl, rfl⟩
  refine ⟨t, ⟨_, ⟨_, _, rfl, fun _ => rfl⟩, System.steps_of_run hrun⟩, hitems, hmanual, hcall,
    fun h => ?_, u, hu, hcrash⟩
  have hm := (h.lastBlock hitems).1
  rw [hmanual] at hm
  exact absurd hm (by simp)

/-- An item can come back from `DoCompactionWork` whenever `mutex_` is free. -/
theorem step_worked {m : Option ι} {manualEnd : Option InternalKey} {status : Status} {needs : Bool}
    (hcrash : s.crash = none) (hmutex : s.mutexHeld = false)
    (hk : s.items[k]? = some (.doCompactionWork m manualEnd)) :
    (system ι).step s (.worked k status needs) = some (s.comeBack k m manualEnd status needs) := by
  have hstep : (system ι).step s (.worked k status needs) = s.step (.worked k status needs) := rfl
  rw [hstep, State.step, hcrash, hmutex, if_neg (by simp), if_neg (by simp), State.take, hk]

/-- **The condition is exact**: a step that withdraws a request leads to a state in which
the last block finds a null pointer. -/
theorem exists_unsafe {a : Action ι} (h : (patient ι).Reachable s) (hw : s.withdraws a = true)
    (hstep : (system ι).step s a = some t) : ∃ u, (system ι).Steps t u ∧ ¬ManualSafe u := by
  have hs := Working.of_reachable h
  obtain ⟨hcrash, heffect⟩ := effect_of_step hstep
  cases heffect with
  | @testCompactRange i hmutex _ =>
    rw [State.withdraws, Bool.and_eq_true] at hw
    obtain ⟨hcont, hany⟩ := hw
    obtain ⟨pc, hpc, hm⟩ := List.any_eq_true.mp hany
    have hm : pc.manual = some i := by simpa using hm
    have hman := hs.manual pc hpc i hm
    rw [State.testCompactRange, if_neg (by simpa using hcont), if_pos hman]
    generalize ht : ({ s with call := _, manualCompaction := none } : State ι) = t
    have hnone : t.manualCompaction = none := ht ▸ rfl
    have htc : t.crash = none := ht ▸ hcrash
    have htm : t.mutexHeld = false := ht ▸ hmutex
    obtain ⟨k, hk⟩ := List.getElem?_of_mem hpc
    replace hk : t.items[k]? = some pc := ht ▸ hk
    cases pc with
    | doCompactionWork manual manualEnd =>
      obtain rfl : manual = some i := hm
      -- the item comes back while nothing is pointed to
      have hback : (system ι).step t (.worked k .ok false) =
          some (t.comeBack k (some i) manualEnd .ok false) := step_worked htc htm hk
      refine ⟨_, .step .refl hback, fun hsafe => ?_⟩
      have hitem : .lastBlock (some i) manualEnd .ok ∈
          (t.comeBack k (some i) manualEnd .ok false).items :=
        List.mem_set (State.lt_of_getElem? hk) _
      have hi := (hsafe.lastBlock hitem).1
      rw [show (t.comeBack k (some i) manualEnd .ok false).manualCompaction = none from hnone] at hi
      exact absurd hi (by simp)
    | lastBlock manual manualEnd status =>
      rw [hs.mutexHeld hpc] at hmutex
      exact Bool.noConfusion hmutex
    | _ => exact absurd hm (by simp [Pc.manual])
  | _ => exact absurd hw (by simp [State.withdraws])

end LevelDb.Background
