import LevelDb.Background.Manual

/-!
# No compaction work is stranded

Whoever makes work for the background – a request, an immutable memtable, a version set
that needs a compaction – schedules an item before it releases `mutex_`, and an item that
ends schedules the next one where there is work left. So where there is work, and neither
a shutdown nor an error, `bg_compaction_scheduled_` is set
(`LevelDb.Background.Attends`).

A call of `TEST_CompactRange` that waits is *blocked* until `bg_cv_` is signalled. The
transition system knows no signals, as a wait can return at any time; here it is watched
by a system that records them (`LevelDb.Background.watched`). A blocked call has an item
to wait for, which can always go on, has less to do with each of its steps, and signals
when it ends (`LevelDb.Background.no_stranded_work`).
-/

namespace LevelDb.Background

open Transition

variable {ι : Type} {s t : State ι} {k : ℕ} {pc : Pc ι}

/-! ### The only item -/

theorem Scheduled.flag_of_item (h : Scheduled s) (hk : s.items[k]? = some pc) :
    s.bgCompactionScheduled = true := by
  by_contra hflag
  have hlt := State.lt_of_getElem? hk
  rw [h.count, if_neg hflag] at hlt
  exact Nat.not_lt_zero k hlt

/-- An item is the only one. -/
theorem Scheduled.items_eq (h : Scheduled s) (hk : s.items[k]? = some pc) :
    k = 0 ∧ s.items = [pc] := by
  have hlen : s.items.length = 1 := by rw [h.count, if_pos (h.flag_of_item hk)]
  obtain ⟨x, hx⟩ := List.length_eq_one_iff.mp hlen
  have hlt := State.lt_of_getElem? hk
  obtain rfl : k = 0 := by omega
  rw [hx] at hk
  obtain rfl : x = pc := Option.some.inj hk
  exact ⟨rfl, hx⟩

/-! ### Requests that are done -/

/-- An item holds `mutex_` exactly at its last block, and the request pointed to is not
done yet, unless the item at the last block has found so. -/
structure Outstanding (s : State ι) : Prop where
  scheduled : Scheduled s
  held : s.mutexHeld = true → ∃ m e status, .lastBlock m e status ∈ s.items
  lastBlock : ∀ {m e status}, .lastBlock m e status ∈ s.items → s.mutexHeld = true
  done : ∀ j, s.manualCompaction = some j → (s.request j).done = true →
    ∃ e status, .lastBlock (some j) e status ∈ s.items

theorem Outstanding.not_done (h : Outstanding s) (hmutex : s.mutexHeld = false) {j : ι}
    (hj : s.manualCompaction = some j) : (s.request j).done = false := by
  by_contra hdone
  obtain ⟨e, status, hpc⟩ := h.done j hj (by simpa using hdone)
  rw [h.lastBlock hpc] at hmutex
  exact Bool.noConfusion hmutex

theorem Outstanding.initial (h : State.Initial s) : Outstanding s := by
  have hs := Scheduled.initial h
  obtain ⟨_, _, rfl, -⟩ := h
  exact ⟨hs, by simp, by simp, by simp⟩

/-- What leaves the items, the requests and `mutex_` alone. -/
theorem Outstanding.congr (h : Outstanding s) (hs : Scheduled t) (hitems : t.items = s.items)
    (hmanual : t.manualCompaction = s.manualCompaction) (hrequest : t.request = s.request)
    (hmutex : t.mutexHeld = s.mutexHeld) : Outstanding t where
  scheduled := hs
  held := by rw [hitems, hmutex]; exact h.held
  lastBlock := by rw [hitems, hmutex]; exact h.lastBlock
  done := by rw [hitems, hmanual, hrequest]; exact h.done

/-- A new item is not at the last block. -/
theorem Outstanding.maybeScheduleCompaction (h : Outstanding s) :
    Outstanding s.maybeScheduleCompaction := by
  have hs := h.scheduled.maybeScheduleCompaction
  rcases s.maybeScheduleCompaction_cases with he | ⟨-, -, -, he⟩
  · rwa [he]
  · rw [he] at hs ⊢
    refine ⟨hs, fun hm => ?_, fun hpc => ?_, fun j hj hdone => ?_⟩
    · obtain ⟨m, e, status, hpc⟩ := h.held hm
      exact ⟨m, e, status, List.mem_append_left _ hpc⟩
    · refine h.lastBlock ((List.mem_append.mp hpc).resolve_right fun hpc => ?_)
      exact absurd (List.mem_singleton.mp hpc) (by simp)
    · obtain ⟨e, status, hpc⟩ := h.done j hj hdone
      exact ⟨e, status, List.mem_append_left _ hpc⟩

/-- The end of `BackgroundCall`, with no request done. -/
theorem Outstanding.endBackgroundCall (hs : Scheduled s) (hk : k < s.items.length)
    (hdone : ∀ j, s.manualCompaction = some j → (s.request j).done = false) :
    Outstanding (s.endBackgroundCall k) where
  scheduled := hs.endBackgroundCall hk
  held h := by
    obtain ⟨flag, items, he⟩ := s.endBackgroundCall_eq k
    rw [he] at h
    exact Bool.noConfusion h
  lastBlock hpc := absurd (hs.eq_scheduled hk hpc) (by simp)
  done j hj hd := by
    obtain ⟨flag, items, he⟩ := s.endBackgroundCall_eq k
    rw [he] at hj hd
    rw [hdone j hj] at hd
    exact Bool.noConfusion hd

/-- The item goes on, with no request done. -/
theorem Outstanding.goto (hs : Scheduled s) (hmutex : s.mutexHeld = false)
    (hk : s.items[k]? = some pc)
    (hdone : ∀ j, s.manualCompaction = some j → (s.request j).done = false) {pc' : Pc ι}
    (hpc' : ∀ m e status, pc' ≠ .lastBlock m e status) : Outstanding (s.goto k pc') where
  scheduled := hs.goto pc'
  held h := by
    rw [show (s.goto k pc').mutexHeld = s.mutexHeld from rfl, hmutex] at h
    exact Bool.noConfusion h
  lastBlock hpc := by
    obtain ⟨rfl, hitems⟩ := hs.items_eq hk
    rw [State.goto, hitems] at hpc
    exact absurd (List.mem_singleton.mp hpc).symm (hpc' _ _ _)
  done j hj hd := by
    rw [show ((s.goto k pc').request j).done = (s.request j).done from rfl, hdone j hj] at hd
    exact Bool.noConfusion hd

/-- The item reaches its last block, with no request done but its own. -/
theorem Outstanding.reach (hs : Scheduled s) (hk : s.items[k]? = some pc) {manual : Option ι}
    {manualEnd : Option InternalKey} {status : Status}
    (hdone : ∀ j, s.manualCompaction = some j → (s.request j).done = true → manual = some j) :
    Outstanding (s.reach k manual manualEnd status) where
  scheduled := hs.reach
  held _ := ⟨manual, manualEnd, status, List.mem_set (State.lt_of_getElem? hk) _⟩
  lastBlock _ := rfl
  done j hj hd := by
    obtain rfl := hdone j hj hd
    exact ⟨manualEnd, status, List.mem_set (State.lt_of_getElem? hk) _⟩

theorem Outstanding.recordBackgroundError (h : Outstanding s) (status : Status) :
    Outstanding (s.recordBackgroundError status) := by
  have hs := h.scheduled.recordBackgroundError status
  obtain ⟨e, he⟩ := s.recordBackgroundError_eq status
  rw [he] at hs ⊢
  exact h.congr hs rfl rfl rfl rfl

theorem Outstanding.compactMemTable (h : Outstanding s) (status : Status) (needs : Bool) :
    Outstanding (s.compactMemTable status needs) := by
  have hs := h.scheduled.compactMemTable status needs
  obtain ⟨imm, e, needs', he⟩ := s.compactMemTable_eq status needs
  rw [he] at hs ⊢
  exact h.congr hs rfl rfl rfl rfl

theorem Outstanding.comeBack (h : Outstanding s) (hmutex : s.mutexHeld = false)
    (hk : s.items[k]? = some pc) {manual : Option ι} {manualEnd : Option InternalKey}
    (status : Status) (needs : Bool) :
    Outstanding (s.comeBack k manual manualEnd status needs) := by
  have hnot : ∀ j, s.manualCompaction = some j → ¬(s.request j).done = true := fun j hj hd => by
    rw [h.not_done hmutex hj] at hd
    exact Bool.noConfusion hd
  obtain ⟨e, needs', he⟩ := s.comeBack_eq k status needs manual manualEnd
  have hs : Scheduled { s with bgError := e, needsCompaction := needs' } :=
    h.scheduled.congr rfl rfl rfl rfl h.scheduled.crash
  rw [he]
  exact .reach hs hk fun j hj hd => absurd hd (hnot j hj)

variable [DecidableEq ι]

theorem Outstanding.testCompactRange (h : Outstanding s) (i : ι) :
    Outstanding (s.testCompactRange i) := by
  have hs := h.scheduled.testCompactRange i
  rw [State.testCompactRange] at hs ⊢
  split_ifs at hs ⊢ with hcont hnone hi
  · refine Outstanding.maybeScheduleCompaction ⟨?_, h.held, h.lastBlock, fun j hj hd => ?_⟩
    · exact h.scheduled.congr rfl rfl rfl rfl h.scheduled.crash
    · -- the request that has just been made is not done
      obtain rfl : i = j := Option.some.inj hj
      rw [State.continues, show (s.request i).done = true from hd] at hcont
      simp at hcont
  · exact h.congr hs rfl rfl rfl rfl
  · exact ⟨hs, h.held, h.lastBlock, fun j hj => absurd hj (by simp)⟩
  · exact h.congr hs rfl rfl rfl rfl

theorem Outstanding.backgroundCompaction (h : Outstanding s) (hmutex : s.mutexHeld = false)
    (hk : s.items[k]? = some pc) (c : Option Compaction) :
    Outstanding (s.backgroundCompaction k c) := by
  have hnot : ∀ j, s.manualCompaction = some j → (s.request j).done = false :=
    fun j hj => h.not_done hmutex hj
  unfold State.backgroundCompaction
  split_ifs
  · exact .goto h.scheduled hmutex hk hnot (by simp)
  · split
    · next m hman =>
      refine .reach (h.scheduled.setRequest _ _) hk fun j hj _ => ?_
      exact hman.symm.trans hj
    · next m c hman =>
      refine .goto (h.scheduled.setRequest _ _) hmutex hk (fun j hj => ?_) (by simp)
      obtain rfl : m = j := Option.some.inj (hman.symm.trans hj)
      simp [State.setRequest]
    · next hman =>
      refine .reach h.scheduled hk fun j hj _ => ?_
      rw [hman] at hj
      exact absurd hj (by simp)
    · split_ifs
      · exact .goto h.scheduled hmutex hk hnot (by simp)
      · exact .goto h.scheduled hmutex hk hnot (by simp)

theorem Outstanding.lastBlock_step (h : Outstanding s) {manual : Option ι}
    {manualEnd : Option InternalKey} {status : Status}
    (hk : s.items[k]? = some (.lastBlock manual manualEnd status)) :
    Outstanding (s.lastBlock k manual manualEnd status) := by
  have hlt := State.lt_of_getElem? hk
  unfold State.lastBlock
  split
  · refine .endBackgroundCall h.scheduled hlt fun j hj => ?_
    by_contra hd
    obtain ⟨e, st, hpc⟩ := h.done j hj (by simpa using hd)
    rw [(h.scheduled.items_eq hk).2] at hpc
    exact absurd (List.mem_singleton.mp hpc) (by simp)
  · refine ⟨h.scheduled.congr rfl rfl rfl rfl (by simp), h.held, h.lastBlock, h.done⟩
  · refine .endBackgroundCall ?_ hlt fun j hj => absurd hj (by simp)
    exact h.scheduled.congr rfl rfl rfl rfl h.scheduled.crash

/-- **Every step** keeps the requests in order. -/
theorem Outstanding.step {a : Action ι} (h : Outstanding s)
    (hstep : (system ι).step s a = some t) : Outstanding t := by
  obtain ⟨-, heffect⟩ := effect_of_step hstep
  cases heffect with
  | testCompactRange => exact h.testCompactRange _
  | @other imm needs schedule _ =>
    have h : Outstanding { s with imm := s.imm || imm, needsCompaction := needs } :=
      h.congr (h.scheduled.congr rfl rfl rfl rfl h.scheduled.crash) rfl rfl rfl rfl
    split_ifs
    · exact h.maybeScheduleCompaction
    · exact h
  | recordBackgroundError => exact h.recordBackgroundError _
  | destroy => exact h.congr h.scheduled.destroy rfl rfl rfl rfl
  | @backgroundCall k c hmutex hk =>
    have hend := Outstanding.endBackgroundCall h.scheduled (State.lt_of_getElem? hk)
      fun j hj => h.not_done hmutex hj
    rw [State.backgroundCall]
    split_ifs with hflag
    · rw [h.scheduled.flag_of_item hk] at hflag
      exact absurd hflag (by simp)
    · exact hend
    · exact hend
    · exact h.backgroundCompaction hmutex hk c
  | @flushed k status needs hmutex hk =>
    have hc := h.compactMemTable status needs
    have hm : (s.compactMemTable status needs).mutexHeld = false := by
      obtain ⟨imm, e, needs', he⟩ := s.compactMemTable_eq status needs
      rw [he]
      exact hmutex
    have hlt := State.lt_compactMemTable (State.lt_of_getElem? hk) status needs
    exact .endBackgroundCall hc.scheduled hlt fun j hj => hc.not_done hm hj
  | moved hmutex hk => exact h.comeBack hmutex hk _ _
  | flushedInside => exact h.compactMemTable _ _
  | worked hmutex hk => exact h.comeBack hmutex hk _ _
  | lastBlock _ hk => exact h.lastBlock_step hk

/-! ### Work is attended to -/

/-- There is work for the background. -/
def State.hasWork (s : State ι) : Bool :=
  s.imm || s.manualCompaction.isSome || s.needsCompaction

/-- **Work is attended to**: where there is some, and neither a shutdown nor an error, the
flag is set. -/
def Attends (s : State ι) : Prop :=
  s.shuttingDown = false → s.bgError.isOk = true → s.hasWork = true →
    s.bgCompactionScheduled = true

omit [DecidableEq ι] in
theorem attends_of_flag (h : s.bgCompactionScheduled = true) : Attends s := fun _ _ _ => h

omit [DecidableEq ι] in
/-- **`MaybeScheduleCompaction`** attends to the work, whatever the state. -/
theorem attends_maybeScheduleCompaction (s : State ι) : Attends s.maybeScheduleCompaction := by
  rw [State.maybeScheduleCompaction]
  split_ifs with hflag hdown herror hidle
  · exact attends_of_flag hflag
  · exact fun h => absurd (hdown.symm.trans h) (by simp)
  · intro _ h
    rw [h] at herror
    exact absurd herror (by simp)
  · intro _ _ h
    rw [State.hasWork] at h
    rcases hm : s.manualCompaction with _ | _ <;> simp_all
  · exact attends_of_flag rfl

omit [DecidableEq ι] in
theorem attends_endBackgroundCall (s : State ι) (k : ℕ) : Attends (s.endBackgroundCall k) :=
  attends_maybeScheduleCompaction { s with bgCompactionScheduled := false }

omit [DecidableEq ι] in
/-- Less work, and no less of a shutdown or an error. -/
theorem Attends.mono (h : Attends s) (hflag : t.bgCompactionScheduled = s.bgCompactionScheduled)
    (hdown : t.shuttingDown = false → s.shuttingDown = false)
    (herror : t.bgError.isOk = true → s.bgError.isOk = true)
    (hwork : t.hasWork = true → s.hasWork = true) : Attends t := fun h1 h2 h3 => by
  rw [hflag]
  exact h (hdown h1) (herror h2) (hwork h3)

omit [DecidableEq ι] in
theorem Attends.recordBackgroundError (h : Attends s) (status : Status) :
    Attends (s.recordBackgroundError status) := by
  rw [State.recordBackgroundError]
  split_ifs with hok
  · exact h.mono rfl id (fun _ => hok) id
  · exact h

omit [DecidableEq ι] in
theorem State.compactMemTable_flag (s : State ι) (status : Status) (needs : Bool) :
    (s.compactMemTable status needs).bgCompactionScheduled = s.bgCompactionScheduled := by
  obtain ⟨imm, e, needs', he⟩ := s.compactMemTable_eq status needs
  rw [he]

omit [DecidableEq ι] in
theorem State.comeBack_flag (s : State ι) (manual : Option ι) (manualEnd : Option InternalKey)
    (status : Status) (needs : Bool) :
    (s.comeBack k manual manualEnd status needs).bgCompactionScheduled =
      s.bgCompactionScheduled := by
  obtain ⟨e, needs', he⟩ := s.comeBack_eq k status needs manual manualEnd
  rw [he]
  rfl

theorem State.backgroundCompaction_flag (s : State ι) (c : Option Compaction) :
    (s.backgroundCompaction k c).bgCompactionScheduled = s.bgCompactionScheduled := by
  obtain ⟨request, pc, held, -, he⟩ := s.backgroundCompaction_eq k c
  rw [he]

theorem Attends.testCompactRange (h : Attends s) (i : ι) : Attends (s.testCompactRange i) := by
  rw [State.testCompactRange]
  split_ifs
  · exact attends_maybeScheduleCompaction _
  · exact h.mono rfl id id id
  · refine h.mono rfl id id fun hw => ?_
    simp only [State.hasWork, Option.isSome_none, Bool.or_false] at hw
    rw [State.hasWork, Bool.or_right_comm, hw, Bool.true_or]
  · exact h.mono rfl id id id

/-- **The other code** is diligent: where it makes work, it schedules. -/
def State.diligent (s : State ι) : Action ι → Bool
  | .other imm needs schedule => schedule || !(imm && !s.imm || needs && !s.needsCompaction)
  | _ => true

/-- **Every step** of diligent threads attends to the work. -/
theorem Attends.step {a : Action ι} (h : Attends s) (hs : Scheduled s)
    (hd : s.diligent a = true) (hstep : (system ι).step s a = some t) : Attends t := by
  obtain ⟨-, heffect⟩ := effect_of_step hstep
  cases heffect with
  | testCompactRange => exact h.testCompactRange _
  | @other imm needs schedule _ =>
    split_ifs with hsch
    · exact attends_maybeScheduleCompaction _
    -- it has not scheduled, so it has made no work
    · refine h.mono rfl id id fun hw => ?_
      simp only [State.diligent, hsch, Bool.false_or] at hd
      simp only [State.hasWork] at hw ⊢
      revert hd hw
      rcases s.imm <;> rcases s.needsCompaction <;> rcases imm <;> rcases needs <;> simp
  | recordBackgroundError => exact h.recordBackgroundError _
  | destroy => exact fun hdown => absurd hdown (by simp [State.destroy])
  | @backgroundCall k c _ hk =>
    have hflag := hs.flag_of_item hk
    rw [State.backgroundCall, hflag, if_neg (by simp)]
    -- an item that does nothing looks for work again before it ends
    split_ifs
    · exact attends_endBackgroundCall s k
    · exact attends_endBackgroundCall s k
    · exact attends_of_flag ((s.backgroundCompaction_flag c).trans hflag)
  | @flushed k status needs _ _ => exact attends_endBackgroundCall _ k
  | moved _ hk => exact attends_of_flag ((s.comeBack_flag _ _ _ _).trans (hs.flag_of_item hk))
  | flushedInside _ hk =>
    exact attends_of_flag ((s.compactMemTable_flag _ _).trans (hs.flag_of_item hk))
  | worked _ hk => exact attends_of_flag ((s.comeBack_flag _ _ _ _).trans (hs.flag_of_item hk))
  | lastBlock _ hk =>
    unfold State.lastBlock
    split
    · exact attends_endBackgroundCall _ _
    · exact attends_of_flag (hs.flag_of_item hk)
    · exact attends_endBackgroundCall _ _

/-! ### Signals -/

/-- Whether a section signals `bg_cv_`: `RecordBackgroundError` does where it sets the
error, and the end of `BackgroundCall` always does. A last block that dereferences a null
pointer signals nothing, but ends the process. -/
def State.signals (s : State ι) : Action ι → Bool
  | .testCompactRange _ | .other .. | .destroy => false
  | .recordBackgroundError _ => s.bgError.isOk
  | .backgroundCall .. => s.shuttingDown || !s.bgError.isOk
  | .flushed .. | .lastBlock _ => true
  | .moved _ status _ | .flushedInside _ status _ | .worked _ status _ =>
    !status.isOk && s.bgError.isOk

/-- The threads, and the calls of `TEST_CompactRange` that are **blocked**: they wait on
`bg_cv_`, which has not been signalled since. -/
structure Watch (ι : Type) where
  state : State ι
  blocked : ι → Bool := fun _ => false

namespace Watch

/-- Whether a call is blocked after a section that leads to `t`. -/
def blockedAfter (w : Watch ι) (a : Action ι) (t : State ι) (i : ι) : Bool :=
  match a with
  | .testCompactRange j => if i = j then t.call i = .waiting else w.blocked i
  | a => w.blocked i && !w.state.signals a

/-- A call that was not blocked is so after its own section only. -/
theorem waiting_of_blockedAfter (w : Watch ι) {a : Action ι} {t : State ι} {i : ι}
    (h : w.blockedAfter a t i = true) (hi : ¬w.blocked i = true) :
    a = .testCompactRange i ∧ t.call i = .waiting := by
  cases a with
  | testCompactRange j =>
    rw [blockedAfter] at h
    split_ifs at h with hij
    · exact ⟨by rw [hij], of_decide_eq_true h⟩
    · exact absurd h hi
  | _ => exact absurd (Bool.and_eq_true_iff.mp h).1 hi

/-- One step of the threads, watched. -/
def step (w : Watch ι) (a : Action ι) : Option (Watch ι) :=
  (w.state.step a).map fun t => ⟨t, w.blockedAfter a t⟩

/-- The state that `DB::Open` leaves when it returns OK: it has called
`MaybeScheduleCompaction` last. -/
def Opened (w : Watch ι) : Prop :=
  ∃ s needs, State.Initial s ∧
    w = { state := State.maybeScheduleCompaction { s with needsCompaction := needs } }

end Watch

/-- **The watched threads** of a database that was opened, with diligent other code. -/
def watched (ι : Type) [DecidableEq ι] : System (Watch ι) (Action ι) :=
  ({ init := Watch.Opened, step := Watch.step } : System (Watch ι) (Action ι)).guard
    fun w a => w.state.diligent a = true

/-- A step of the watched threads is one of the threads. -/
theorem watched_step {w u : Watch ι} {a : Action ι} (h : (watched ι).step w a = some u) :
    w.state.diligent a = true ∧ (system ι).step w.state a = some u.state ∧
      u.blocked = w.blockedAfter a u.state := by
  obtain ⟨hd, hstep⟩ := System.guard_step.mp h
  obtain ⟨t, ht, rfl⟩ := Option.map_eq_some_iff.mp hstep
  exact ⟨hd, ht, rfl⟩

/-- **Blocked calls are waited upon**: the flag is set, and there is no error. -/
structure Attended (w : Watch ι) : Prop where
  outstanding : Outstanding w.state
  attends : Attends w.state
  flag : ∀ i, w.blocked i = true → w.state.bgCompactionScheduled = true
  error : ∀ i, w.blocked i = true → w.state.bgError.isOk = true

omit [DecidableEq ι] in
theorem Attended.opened {w : Watch ι} (h : w.Opened) : Attended w := by
  obtain ⟨s, needs, hs, rfl⟩ := h
  refine ⟨?_, attends_maybeScheduleCompaction _, by simp, by simp⟩
  have h := Outstanding.initial hs
  have hneeds : Outstanding { s with needsCompaction := needs } :=
    h.congr (h.scheduled.congr rfl rfl rfl rfl h.scheduled.crash) rfl rfl rfl rfl
  exact hneeds.maybeScheduleCompaction

section

omit [DecidableEq ι]

variable (s : State ι) (status : Status) (needs : Bool) (manual : Option ι)
  (manualEnd : Option InternalKey)

/-- Scheduling leaves the error and a shutdown alone. -/
theorem State.maybeScheduleCompaction_error :
    s.maybeScheduleCompaction.bgError = s.bgError ∧
      s.maybeScheduleCompaction.shuttingDown = s.shuttingDown := by
  obtain ⟨flag, items, he⟩ := s.maybeScheduleCompaction_eq
  rw [he]
  exact ⟨rfl, rfl⟩

theorem State.maybeScheduleCompaction_manualCompaction :
    s.maybeScheduleCompaction.manualCompaction = s.manualCompaction := by
  obtain ⟨flag, items, he⟩ := s.maybeScheduleCompaction_eq
  rw [he]

/-- Where the flag is set there is nothing to schedule. -/
theorem State.maybeScheduleCompaction_of_flag (h : s.bgCompactionScheduled = true) :
    s.maybeScheduleCompaction = s := by
  rw [State.maybeScheduleCompaction, if_pos h]

/-- A flush or a compaction whose status is OK records no error. -/
theorem State.compactMemTable_bgError (h : status.isOk = true) :
    (s.compactMemTable status needs).bgError = s.bgError := by
  rw [State.compactMemTable, if_pos h]

theorem State.comeBack_bgError (h : status.isOk = true) :
    (s.comeBack k manual manualEnd status needs).bgError = s.bgError := by
  rw [State.comeBack, if_pos h]
  rfl

theorem State.comeBack_items :
    (s.comeBack k manual manualEnd status needs).items =
      s.items.set k (.lastBlock manual manualEnd status) := by
  obtain ⟨e, needs', he⟩ := s.comeBack_eq k status needs manual manualEnd
  rw [he]
  rfl

end

/-- A call that waits has found work, and neither a shutdown nor an error. -/
theorem State.testCompactRange_waiting {i : ι} (h : (s.testCompactRange i).call i = .waiting) :
    (s.testCompactRange i).shuttingDown = false ∧ (s.testCompactRange i).bgError.isOk = true ∧
      (s.testCompactRange i).hasWork = true := by
  rw [State.testCompactRange] at h ⊢
  split_ifs at h ⊢ with hcont hnone hi
  · obtain ⟨⟨-, hdown⟩, herror⟩ := by simpa [State.continues] using hcont
    obtain ⟨he, hd⟩ := State.maybeScheduleCompaction_error
      { s with call := Function.update s.call i .waiting, manualCompaction := some i }
    have hm := State.maybeScheduleCompaction_manualCompaction
      { s with call := Function.update s.call i .waiting, manualCompaction := some i }
    refine ⟨hd.trans hdown, by rw [he]; exact herror, ?_⟩
    rw [State.hasWork, hm]
    simp
  · obtain ⟨⟨-, hdown⟩, herror⟩ := by simpa [State.continues] using hcont
    refine ⟨hdown, herror, ?_⟩
    rcases hm : s.manualCompaction with _ | _
    · exact absurd (by rw [hm]; rfl) hnone
    · simp [State.hasWork]
  · exact absurd h (by simp)
  · exact absurd h (by simp)

/-- A call leaves the error alone, and a flag that is set. -/
theorem State.testCompactRange_flag (h : s.bgCompactionScheduled = true) (i : ι) :
    (s.testCompactRange i).bgCompactionScheduled = true ∧
      (s.testCompactRange i).bgError = s.bgError ∧ (s.testCompactRange i).items = s.items := by
  rw [State.testCompactRange]
  split_ifs
  · rw [State.maybeScheduleCompaction_of_flag
      { s with call := Function.update s.call i .waiting, manualCompaction := some i } h]
    exact ⟨h, rfl, rfl⟩
  · exact ⟨h, rfl, rfl⟩
  · exact ⟨h, rfl, rfl⟩
  · exact ⟨h, rfl, rfl⟩

theorem State.backgroundCompaction_bgError (s : State ι) (c : Option Compaction) :
    (s.backgroundCompaction k c).bgError = s.bgError := by
  obtain ⟨request, pc, held, -, he⟩ := s.backgroundCompaction_eq k c
  rw [he]

/-- The item that starts with neither a shutdown nor an error goes on. -/
theorem State.backgroundCall_of_not_signals (h : s.bgCompactionScheduled = true)
    {c : Option Compaction} (hs : s.signals (.backgroundCall k c) = false) :
    s.backgroundCall k c = s.backgroundCompaction k c := by
  obtain ⟨hdown, herror⟩ := Bool.or_eq_false_iff.mp hs
  rw [State.backgroundCall, h, hdown, herror]
  rfl

/-! ### What a blocked call waits for -/

/-- The critical sections that an item has to go through before it ends. -/
def Pc.rank : Pc ι → ℕ
  | .scheduled => 3
  | .compactMemTable | .trivialMove | .doCompactionWork .. => 2
  | .lastBlock .. => 1

omit [DecidableEq ι] in
theorem Pc.rank_lt {pc : Pc ι} (h : pc ≠ .scheduled) : pc.rank < 3 := by
  cases pc with
  | scheduled => exact absurd rfl h
  | lastBlock => exact show 1 < 3 by decide
  | _ => exact show 2 < 3 by decide

/-- What is left to do for the items. -/
def State.workLeft (s : State ι) : ℕ := (s.items.map Pc.rank).sum

/-- The sections by which an item goes on: it starts, comes back to `BackgroundCompaction`, or
ends. What is done under `mutex_` from inside `DoCompactionWork`, which is not in the
repository, is not among them: flushing a memtable, and what `OpenCompactionOutputFile` enters
for each output. -/
def Action.ofItem : Action ι → Bool
  | .backgroundCall .. | .flushed .. | .moved .. | .worked .. | .lastBlock _ => true
  | _ => false

omit [DecidableEq ι] in
/-- Putting the only item somewhere else. -/
theorem Scheduled.workLeft_set (h : Scheduled s) (hk : s.items[k]? = some pc) (pc' : Pc ι) :
    ((s.items.set k pc').map Pc.rank).sum = pc'.rank ∧ s.workLeft = pc.rank := by
  obtain ⟨rfl, hitems⟩ := h.items_eq hk
  rw [State.workLeft, hitems]
  exact ⟨Nat.add_zero _, Nat.add_zero _⟩

theorem State.backgroundCompaction_workLeft (h : Scheduled s)
    (hk : s.items[k]? = some .scheduled) (c : Option Compaction) :
    (s.backgroundCompaction k c).workLeft < s.workLeft := by
  obtain ⟨request, pc', held, hpc', he⟩ := s.backgroundCompaction_eq k c
  obtain ⟨h1, h2⟩ := h.workLeft_set hk pc'
  rw [State.workLeft, he, h1, h2]
  exact Pc.rank_lt hpc'

omit [DecidableEq ι] in
theorem State.comeBack_workLeft (h : Scheduled s) (hk : s.items[k]? = some pc)
    (hpc : 2 ≤ pc.rank) (manual : Option ι) (manualEnd : Option InternalKey) (status : Status)
    (needs : Bool) : (s.comeBack k manual manualEnd status needs).workLeft < s.workLeft := by
  obtain ⟨h1, h2⟩ := h.workLeft_set hk (.lastBlock manual manualEnd status)
  rw [State.workLeft, s.comeBack_items, h1, h2]
  exact hpc

/-- **A section that leaves a call blocked** has signalled nothing: the flag, the error
and the items are as they were, or an item has gone on. -/
theorem Attended.blocked_step {w u : Watch ι} {a : Action ι} {i : ι} (h : Attended w)
    (hstep : (system ι).step w.state a = some u.state)
    (hblocked : u.blocked = w.blockedAfter a u.state) (hi : w.blocked i = true)
    (hu : u.blocked i = true) :
    u.state.bgCompactionScheduled = true ∧ u.state.bgError = w.state.bgError ∧
      u.state.workLeft ≤ w.state.workLeft ∧
        (a.ofItem = true → u.state.workLeft < w.state.workLeft) := by
  have hflag := h.flag i hi
  have herror := h.error i hi
  have hquiet : (∀ j, a ≠ .testCompactRange j) → w.state.signals a = false := by
    intro ha
    rw [hblocked, Watch.blockedAfter] at hu
    · simpa [hi] using hu
    · exact ha
  obtain ⟨-, heffect⟩ := effect_of_step hstep
  have hsch := h.outstanding.scheduled
  clear hblocked hu h hi hstep
  generalize w.state = s at heffect hflag herror hquiet hsch ⊢
  generalize u.state = t at heffect ⊢
  have hsame : ∀ {t : State ι}, t.items = s.items → t.workLeft = s.workLeft := fun ht => by
    rw [State.workLeft, State.workLeft, ht]
  cases heffect with
  -- a call can only find the flag set, and wait as well
  | testCompactRange =>
    obtain ⟨hf, he, hitems⟩ := s.testCompactRange_flag hflag _
    exact ⟨hf, he, (hsame hitems).le, fun ha => absurd ha (by simp [Action.ofItem])⟩
  | @other imm needs schedule _ =>
    rw [State.maybeScheduleCompaction_of_flag
      { s with imm := s.imm || imm, needsCompaction := needs } hflag, ite_self]
    exact ⟨hflag, rfl, le_rfl, fun ha => absurd ha (by simp [Action.ofItem])⟩
  | recordBackgroundError =>
    -- the first error wakes every call
    have hq := hquiet (by simp)
    rw [State.signals, herror] at hq
    exact absurd hq (by simp)
  | destroy => exact ⟨hflag, rfl, le_rfl, fun ha => absurd ha (by simp [Action.ofItem])⟩
  | @backgroundCall k c _ hk =>
    rw [s.backgroundCall_of_not_signals hflag (hquiet (by simp))]
    refine ⟨(s.backgroundCompaction_flag c).trans hflag, s.backgroundCompaction_bgError c, ?_⟩
    have hlt := s.backgroundCompaction_workLeft hsch hk c
    exact ⟨hlt.le, fun _ => hlt⟩
  | flushed => exact absurd (hquiet (by simp)) (by simp [State.signals])
  | @moved k status needs _ hk =>
    have hok : status.isOk = true := by simpa [State.signals, herror] using hquiet (by simp)
    refine ⟨(s.comeBack_flag _ _ _ _).trans hflag, s.comeBack_bgError _ _ _ _ hok, ?_⟩
    have hlt := s.comeBack_workLeft hsch hk le_rfl none none status needs
    exact ⟨hlt.le, fun _ => hlt⟩
  | @flushedInside k status needs _ _ _ hk =>
    have hok : status.isOk = true := by simpa [State.signals, herror] using hquiet (by simp)
    refine ⟨(s.compactMemTable_flag _ _).trans hflag, s.compactMemTable_bgError _ _ hok, ?_⟩
    exact ⟨(hsame (s.compactMemTable_items _ _)).le, fun ha => absurd ha (by simp [Action.ofItem])⟩
  | @worked k status needs manual manualEnd _ hk =>
    have hok : status.isOk = true := by simpa [State.signals, herror] using hquiet (by simp)
    refine ⟨(s.comeBack_flag _ _ _ _).trans hflag, s.comeBack_bgError _ _ _ _ hok, ?_⟩
    have hlt := s.comeBack_workLeft hsch hk le_rfl manual manualEnd status needs
    exact ⟨hlt.le, fun _ => hlt⟩
  | lastBlock => exact absurd (hquiet (by simp)) (by simp [State.signals])

/-- **Every step** leaves every blocked call waited upon. -/
theorem Attended.step {w u : Watch ι} {a : Action ι} (h : Attended w)
    (hstep : (watched ι).step w a = some u) : Attended u := by
  obtain ⟨hd, hstep, hblocked⟩ := watched_step hstep
  have hatt := h.attends.step h.outstanding.scheduled hd hstep
  suffices hall : ∀ i, u.blocked i = true →
      u.state.bgCompactionScheduled = true ∧ u.state.bgError.isOk = true from
    ⟨h.outstanding.step hstep, hatt, fun i hi => (hall i hi).1, fun i hi => (hall i hi).2⟩
  intro i hi
  by_cases hw : w.blocked i = true
  -- the call has not been woken
  · obtain ⟨hflag, herror, -, -⟩ := h.blocked_step hstep hblocked hw hi
    exact ⟨hflag, by rw [herror]; exact h.error i hw⟩
  · -- the call has just begun to wait
    obtain ⟨rfl, hcall⟩ := w.waiting_of_blockedAfter (hblocked ▸ hi) hw
    obtain ⟨-, heffect⟩ := effect_of_step hstep
    generalize u.state = t at heffect hcall hatt ⊢
    cases heffect with
    | testCompactRange _ _ =>
      obtain ⟨hdown, herror, hwork⟩ := State.testCompactRange_waiting hcall
      exact ⟨hatt hdown herror hwork, herror⟩

theorem Attended.of_reachable {w : Watch ι} (h : (watched ι).Reachable w) : Attended w :=
  h.invariant (fun _ => .opened) fun _ _ _ h hstep => h.step hstep

/-- **An item can always go on**, unless the process has ended. -/
theorem Outstanding.exists_step (h : Outstanding s) (hcrash : s.crash = none)
    (hitem : s.items = [pc]) : ∃ a t, a.ofItem = true ∧ s.diligent a = true ∧
      (system ι).step s a = some t := by
  have hk : s.items[0]? = some pc := by rw [hitem]; rfl
  have hfree : ∀ {a}, s.mutexHeld = false → (system ι).step s a = s.take a := fun {a} hm => by
    rw [show (system ι).step s a = s.step a from rfl, State.step, hcrash, hm]
    rfl
  have hmutex : (∀ m e status, pc ≠ .lastBlock m e status) → s.mutexHeld = false := fun hpc => by
    by_contra hm
    obtain ⟨m, e, status, hlast⟩ := h.held (by simpa using hm)
    rw [hitem] at hlast
    exact hpc m e status (List.mem_singleton.mp hlast).symm
  cases pc with
  | scheduled =>
    refine ⟨.backgroundCall 0 none, s.backgroundCall 0 none, rfl, rfl,
      (hfree (hmutex (by simp))).trans ?_⟩
    rw [State.take, hk]
  | compactMemTable =>
    refine ⟨.flushed 0 .ok false, (s.compactMemTable .ok false).endBackgroundCall 0, rfl, rfl,
      (hfree (hmutex (by simp))).trans ?_⟩
    rw [State.take, hk]
  | trivialMove =>
    refine ⟨.moved 0 .ok false, s.comeBack 0 none none .ok false, rfl, rfl,
      (hfree (hmutex (by simp))).trans ?_⟩
    rw [State.take, hk]
  | doCompactionWork manual manualEnd =>
    refine ⟨.worked 0 .ok false, s.comeBack 0 manual manualEnd .ok false, rfl, rfl,
      (hfree (hmutex (by simp))).trans ?_⟩
    rw [State.take, hk]
  | lastBlock manual manualEnd status =>
    have hm : s.mutexHeld = true := h.lastBlock (hitem ▸ List.mem_singleton.mpr rfl)
    refine ⟨.lastBlock 0, s.lastBlock 0 manual manualEnd status, rfl, rfl, ?_⟩
    rw [show (system ι).step s (.lastBlock 0) = s.step (.lastBlock 0) from rfl, State.step, hcrash,
      hm, if_neg (by simp), if_pos rfl, State.keep, hk]

omit [DecidableEq ι] in
theorem State.endBackgroundCall_manualCompaction (s : State ι) :
    (s.endBackgroundCall k).manualCompaction = s.manualCompaction := by
  obtain ⟨flag, items, he⟩ := s.endBackgroundCall_eq k
  rw [he]

omit [DecidableEq ι] in
theorem State.compactMemTable_manualCompaction (s : State ι) (status : Status) (needs : Bool) :
    (s.compactMemTable status needs).manualCompaction = s.manualCompaction := by
  obtain ⟨imm, e, needs', he⟩ := s.compactMemTable_eq status needs
  rw [he]

omit [DecidableEq ι] in
theorem State.comeBack_manualCompaction (s : State ι) (manual : Option ι)
    (manualEnd : Option InternalKey) (status : Status) (needs : Bool) :
    (s.comeBack k manual manualEnd status needs).manualCompaction = s.manualCompaction := by
  obtain ⟨e, needs', he⟩ := s.comeBack_eq k status needs manual manualEnd
  rw [he]
  rfl

theorem State.backgroundCall_manualCompaction (s : State ι) (c : Option Compaction) :
    (s.backgroundCall k c).manualCompaction = s.manualCompaction := by
  rw [State.backgroundCall]
  split_ifs
  · rfl
  · exact s.endBackgroundCall_manualCompaction
  · exact s.endBackgroundCall_manualCompaction
  · obtain ⟨request, pc, held, -, he⟩ := s.backgroundCompaction_eq k c
    rw [he]

/-- **The step of a request** – the section in which it is no longer pointed to – signals,
unless its call has given it up on a shutdown. -/
theorem Attended.signalled {w u : Watch ι} {a : Action ι} {j : ι} (h : Attended w)
    (hstep : (watched ι).step w a = some u) (hj : w.state.manualCompaction = some j)
    (hu : u.state.manualCompaction ≠ some j) (hdown : w.state.shuttingDown = false) (i : ι) :
    u.blocked i = false := by
  by_contra hi
  have hi : u.blocked i = true := by simpa using hi
  have herror := (h.step hstep).error i hi
  obtain ⟨-, hstep, hblocked⟩ := watched_step hstep
  have hdone := fun hm => h.outstanding.not_done hm hj
  obtain ⟨-, heffect⟩ := effect_of_step hstep
  rw [hblocked] at hi
  have hsame : u.state.manualCompaction ≠ w.state.manualCompaction := by
    rw [hj]
    exact hu
  clear hstep hblocked hu h
  generalize u.state = t at heffect herror hi hsame
  cases heffect with
  | @testCompactRange i hmutex _ =>
    rw [State.testCompactRange] at hsame herror
    split_ifs at hsame herror with hcont hnone hm
    · rw [hj] at hnone
      exact absurd hnone (by simp)
    · exact hsame rfl
    · -- its request is not done, and there is no shutdown: the call has met an error
      obtain rfl : j = i := Option.some.inj (hj.symm.trans hm)
      refine hcont ?_
      rw [State.continues, hdone hmutex, hdown]
      exact herror
    · exact hsame rfl
  | @other imm needs schedule _ =>
    refine hsame ?_
    split_ifs
    · exact State.maybeScheduleCompaction_manualCompaction _
    · rfl
  | @recordBackgroundError status _ =>
    obtain ⟨e, he⟩ := w.state.recordBackgroundError_eq status
    exact hsame (by rw [he])
  | destroy => exact hsame rfl
  | backgroundCall => exact hsame (w.state.backgroundCall_manualCompaction _)
  | flushed =>
    exact hsame ((State.endBackgroundCall_manualCompaction _).trans
      (w.state.compactMemTable_manualCompaction _ _))
  | moved => exact hsame (w.state.comeBack_manualCompaction _ _ _ _)
  | flushedInside => exact hsame (w.state.compactMemTable_manualCompaction _ _)
  | worked => exact hsame (w.state.comeBack_manualCompaction _ _ _ _)
  | lastBlock =>
    -- the only section that gives a request up as done, and it signals
    rw [Watch.blockedAfter, State.signals] at hi
    · simp at hi
    · simp

/-- **A blocked call** has an item to wait for: it is the only one, it can go on unless the
process has ended, and every section that leaves the call blocked has taken nothing back –
those of the item have brought it closer to its end. -/
structure Awaits (w : Watch ι) (i : ι) : Prop where
  flag : w.state.bgCompactionScheduled = true
  item : ∃ pc, w.state.items = [pc]
  goesOn : w.state.crash = none →
    ∃ a u, a.ofItem = true ∧ (watched ι).step w a = some u
  closer : ∀ a u, (watched ι).step w a = some u → u.blocked i = true →
    u.state.workLeft ≤ w.state.workLeft ∧
      (a.ofItem = true → u.state.workLeft < w.state.workLeft)

/-- **No compaction work is stranded**: in every reachable state work is attended to, every
blocked call has an item to wait for, and the step of a request leaves no call blocked,
where there is no shutdown. -/
theorem no_stranded_work {w : Watch ι} (h : (watched ι).Reachable w) :
    Attends w.state ∧ (∀ i, w.blocked i = true → Awaits w i) ∧
      ∀ a u j, (watched ι).step w a = some u → w.state.manualCompaction = some j →
        u.state.manualCompaction ≠ some j → w.state.shuttingDown = false →
          ∀ i, u.blocked i = false := by
  have hw := Attended.of_reachable h
  refine ⟨hw.attends, fun i hi => ?_, fun a u j hstep hj hu hdown => hw.signalled hstep hj hu hdown⟩
  have hflag := hw.flag i hi
  obtain ⟨pc, hpc⟩ := List.length_eq_one_iff.mp
    (hw.outstanding.scheduled.count.trans (if_pos hflag))
  refine ⟨hflag, ⟨pc, hpc⟩, fun hcrash => ?_, fun a u hstep hu => ?_⟩
  · obtain ⟨a, t, ha, hd, hstep⟩ := hw.outstanding.exists_step hcrash hpc
    refine ⟨a, ⟨t, w.blockedAfter a t⟩, ha, System.guard_step.mpr ⟨hd, ?_⟩⟩
    exact Option.map_eq_some_iff.mpr ⟨t, hstep, rfl⟩
  · obtain ⟨-, hstep, hblocked⟩ := watched_step hstep
    exact (hw.blocked_step hstep hblocked hi hu).2.2

/-- Two calls, of which the second waits for the request of the first. -/
theorem no_stranded_work_waiting : ∃ w : Watch Bool, w.blocked true = true ∧
    w.state.manualCompaction = some false ∧ Attends w.state ∧ Awaits w true := by
  obtain ⟨w, hrun, hblocked, hmanual⟩ : ∃ w, (watched Bool).run
      { state := State.maybeScheduleCompaction { request := fun _ => { level := 0 } } }
      [.testCompactRange false, .testCompactRange true] = some w ∧ w.blocked true = true ∧
        w.state.manualCompaction = some false := ⟨_, rfl, rfl, rfl⟩
  have hreach : (watched Bool).Reachable w :=
    ⟨_, ⟨_, false, ⟨_, false, rfl, fun _ => rfl⟩, rfl⟩, System.steps_of_run hrun⟩
  obtain ⟨hattends, hawaits, -⟩ := no_stranded_work hreach
  exact ⟨w, hblocked, hmanual, hattends, hawaits true hblocked⟩

end LevelDb.Background
