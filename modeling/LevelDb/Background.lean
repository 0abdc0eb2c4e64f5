import LevelDb.Database
import LevelDb.Logic.Transition
import Mathlib.Logic.Function.Basic

/-!
# Background work

The threads of a database: the calls of `TEST_CompactRange`, the items that
`env_->Schedule` runs (`BGWork`, that is `BackgroundCall` and `BackgroundCompaction`),
the destructor, and whatever else holds `mutex_`. They are a transition system
(`LevelDb.Background.system`) whose actions are the critical sections: a thread runs
from where it got `mutex_` to where it gives it back, be it by returning, by waiting on
`bg_cv_`, or by the calls of `LogAndApply`, `BuildTable` and `DoCompactionWork` that
release it. A wait can return at any time.

One section is cut in two. Where `BackgroundCompaction` reaches its last block it still
holds `mutex_`, and that moment is a state of its own (`LevelDb.Background.Pc.lastBlock`).

`DoCompactionWork` and the `VersionSet` are not in the repository. What they decide is
part of the action taken: the compaction picked, the status returned, and whether the
version set asks for a compaction afterwards.
-/

namespace LevelDb.Background

open Transition

/-! ### The state -/

/-- `ManualCompaction`: a request. It lives on the stack of the call of
`TEST_CompactRange` that makes it. -/
structure ManualCompaction where
  level : ℕ
  done : Bool := false
  /-- `NULL` means the beginning of the key range. -/
  begin : Option InternalKey := none
  /-- `NULL` means the end of the key range. -/
  limit : Option InternalKey := none
  deriving DecidableEq, Repr

/-- What the last block of `BackgroundCompaction` makes of a request: it is done after an
error, and what is left of it begins at `manual_end` where it is not. -/
def ManualCompaction.compacted (r : ManualCompaction) (status : Status)
    (manualEnd : Option InternalKey) : ManualCompaction :=
  if !status.isOk then { r with done := true }
  else if !r.done then { r with begin := manualEnd }
  else r

/-- A `Compaction` that the version set has picked. -/
structure Compaction where
  isTrivialMove : Bool := false
  /-- The largest key of its last input file. -/
  largest : InternalKey
  deriving DecidableEq, Repr

/-- Where an item of background work is. The request that `BackgroundCompaction` has
read at its start, if any, is `manual`; `is_manual` says whether there is one. -/
inductive Pc (ι : Type)
  /-- Scheduled, not running yet. -/
  | scheduled
  /-- In `CompactMemTable`, called by `BackgroundCompaction`. -/
  | compactMemTable
  /-- In the `LogAndApply` of a trivial move. -/
  | trivialMove
  /-- In `DoCompactionWork`. -/
  | doCompactionWork (manual : Option ι) (manualEnd : Option InternalKey)
  /-- At the last block of `BackgroundCompaction`, with `mutex_` held. -/
  | lastBlock (manual : Option ι) (manualEnd : Option InternalKey) (status : Status)
  deriving DecidableEq, Repr

/-- The request that is being worked on. -/
def Pc.manual {ι : Type} : Pc ι → Option ι
  | doCompactionWork manual _ | lastBlock manual _ _ => manual
  | _ => none

/-- A call of `TEST_CompactRange`. -/
inductive CallPc
  | ready
  | waiting
  | returned
  deriving DecidableEq, Repr

/-- The destructor. -/
inductive DestructorPc
  | ready
  | waiting
  /-- It has left its wait loop. -/
  | left
  deriving DecidableEq, Repr

/-- How the process can end early. -/
inductive Crash
  /-- The assertion at the head of `BackgroundCall` failed. -/
  | assertion
  /-- A null pointer was dereferenced. -/
  | nullPointer
  deriving DecidableEq, Repr

/-- **The state** that the threads share, for calls of `TEST_CompactRange` named by `ι`,
and where each thread is. -/
structure State (ι : Type) where
  shuttingDown : Bool := false
  bgError : Status := .ok
  /-- Whether `imm_` is set. -/
  imm : Bool := false
  /-- What `versions_->NeedsCompaction()` returns. -/
  needsCompaction : Bool := false
  bgCompactionScheduled : Bool := false
  manualCompaction : Option ι := none
  request : ι → ManualCompaction
  call : ι → CallPc := fun _ => .ready
  items : List (Pc ι) := []
  destructor : DestructorPc := .ready
  /-- Whether an item holds `mutex_` at its last block. -/
  mutexHeld : Bool := false
  crash : Option Crash := none

variable {ι : Type}

namespace State

/-! ### The code -/

/-- `DBImpl::MaybeScheduleCompaction`. -/
def maybeScheduleCompaction (s : State ι) : State ι :=
  if s.bgCompactionScheduled then s
  else if s.shuttingDown then s
  else if !s.bgError.isOk then s
  else if !s.imm && s.manualCompaction.isNone && !s.needsCompaction then s
  else { s with bgCompactionScheduled := true, items := s.items ++ [.scheduled] }

/-- `DBImpl::RecordBackgroundError`. -/
def recordBackgroundError (s : State ι) (status : Status) : State ι :=
  if s.bgError.isOk then { s with bgError := status } else s

/-- The end of `DBImpl::CompactMemTable`, whose status is given. -/
def compactMemTable (s : State ι) (status : Status) (needs : Bool) : State ι :=
  if status.isOk then { s with imm := false, needsCompaction := needs }
  else s.recordBackgroundError status

/-- The condition of the loop of `TEST_CompactRange`. -/
def continues (s : State ι) (i : ι) : Bool :=
  !(s.request i).done && !s.shuttingDown && s.bgError.isOk

/-- `DBImpl::TEST_CompactRange`, from where it has `mutex_` to where it waits or returns.
A request that it has just made is not done: it waits for it. -/
def testCompactRange [DecidableEq ι] (s : State ι) (i : ι) : State ι :=
  if s.continues i then
    if s.manualCompaction.isNone then
      maybeScheduleCompaction
        { s with call := Function.update s.call i .waiting, manualCompaction := some i }
    else { s with call := Function.update s.call i .waiting }
  else if s.manualCompaction = some i then
    { s with call := Function.update s.call i .returned, manualCompaction := none }
  else { s with call := Function.update s.call i .returned }

/-- The item goes on. -/
def goto (s : State ι) (k : ℕ) (pc : Pc ι) : State ι := { s with items := s.items.set k pc }

/-- The item reaches the last block of `BackgroundCompaction`. -/
def reach (s : State ι) (k : ℕ) (manual : Option ι) (manualEnd : Option InternalKey)
    (status : Status) : State ι :=
  { s.goto k (.lastBlock manual manualEnd status) with mutexHeld := true }

/-- Change a request. -/
def setRequest [DecidableEq ι] (s : State ι) (m : ι) (r : ManualCompaction) : State ι :=
  { s with request := Function.update s.request m r }

/-- `DBImpl::BackgroundCompaction`, up to where it first releases `mutex_`, or reaches its
last block. The compaction is what `CompactRange` or `PickCompaction` returns. -/
def backgroundCompaction [DecidableEq ι] (s : State ι) (k : ℕ) (c : Option Compaction) : State ι :=
  if s.imm then s.goto k .compactMemTable
  else
    match s.manualCompaction, c with
    | some m, none =>
      (s.setRequest m { s.request m with done := true }).reach k (some m) none .ok
    | some m, some c =>
      (s.setRequest m { s.request m with done := false }).goto k
        (.doCompactionWork (some m) (some c.largest))
    | none, none => s.reach k none none .ok
    | none, some c =>
      if c.isTrivialMove then s.goto k .trivialMove
      else s.goto k (.doCompactionWork none none)

/-- The end of `DBImpl::BackgroundCall`. -/
def endBackgroundCall (s : State ι) (k : ℕ) : State ι :=
  let s := maybeScheduleCompaction { s with bgCompactionScheduled := false }
  { s with items := s.items.eraseIdx k, mutexHeld := false }

/-- `DBImpl::BackgroundCall`, up to where it first releases `mutex_`, or reaches the last
block of `BackgroundCompaction`. -/
def backgroundCall [DecidableEq ι] (s : State ι) (k : ℕ) (c : Option Compaction) : State ι :=
  if !s.bgCompactionScheduled then { s with crash := some .assertion }
  else if s.shuttingDown then s.endBackgroundCall k
  else if !s.bgError.isOk then s.endBackgroundCall k
  else s.backgroundCompaction k c

/-- The last block of `BackgroundCompaction`, and the end of `BackgroundCall`. -/
def lastBlock [DecidableEq ι] (s : State ι) (k : ℕ) (manual : Option ι)
    (manualEnd : Option InternalKey) (status : Status) : State ι :=
  match manual, s.manualCompaction with
  | none, _ => s.endBackgroundCall k
  | some _, none => { s with crash := some .nullPointer }
  | some _, some m =>
    endBackgroundCall
      { s.setRequest m ((s.request m).compacted status manualEnd) with manualCompaction := none } k

/-- The item comes back from `LogAndApply` or `DoCompactionWork`, on its way to the last
block. -/
def comeBack (s : State ι) (k : ℕ) (manual : Option ι) (manualEnd : Option InternalKey)
    (status : Status) (needs : Bool) : State ι :=
  if status.isOk then
    ({ s with needsCompaction := needs }).reach k manual manualEnd status
  else (s.recordBackgroundError status).reach k manual manualEnd status

/-- `DBImpl::~DBImpl`, up to where it waits, or leaves its loop. -/
def destroy (s : State ι) : State ι :=
  { s with
    shuttingDown := true
    destructor := if s.bgCompactionScheduled then .waiting else .left }

end State

/-! ### The system -/

/-- A critical section, with what the missing code decides in it. -/
inductive Action (ι : Type)
  /-- A call of `TEST_CompactRange` starts, or its wait returns. -/
  | testCompactRange (i : ι)
  /-- Other code: it may set `imm_` or the need for a compaction, and may call
  `MaybeScheduleCompaction`. -/
  | other (imm needs schedule : Bool)
  | recordBackgroundError (status : Status)
  /-- The destructor starts, or its wait returns. -/
  | destroy
  /-- An item starts to run. -/
  | backgroundCall (k : ℕ) (c : Option Compaction)
  /-- An item comes back from its `CompactMemTable`. -/
  | flushed (k : ℕ) (status : Status) (needs : Bool)
  /-- An item comes back from the `LogAndApply` of its trivial move. -/
  | moved (k : ℕ) (status : Status) (needs : Bool)
  /-- `DoCompactionWork` has flushed the immutable memtable. -/
  | flushedInside (k : ℕ) (status : Status) (needs : Bool)
  /-- An item comes back from `DoCompactionWork`. -/
  | worked (k : ℕ) (status : Status) (needs : Bool)
  /-- An item goes through the last block, and ends. -/
  | lastBlock (k : ℕ)
  deriving DecidableEq, Repr

namespace State

/-- The section of a thread that has just got `mutex_`. -/
def take [DecidableEq ι] (s : State ι) : Action ι → Option (State ι)
  | .testCompactRange i => if s.call i = .returned then none else some (s.testCompactRange i)
  | .other imm needs schedule =>
    let s := { s with imm := s.imm || imm, needsCompaction := needs }
    some (if schedule then s.maybeScheduleCompaction else s)
  | .recordBackgroundError status => some (s.recordBackgroundError status)
  | .destroy => if s.destructor = .left then none else some s.destroy
  | .backgroundCall k c =>
    match s.items[k]? with
    | some .scheduled => some (s.backgroundCall k c)
    | _ => none
  | .flushed k status needs =>
    match s.items[k]? with
    | some .compactMemTable => some ((s.compactMemTable status needs).endBackgroundCall k)
    | _ => none
  | .moved k status needs =>
    match s.items[k]? with
    | some .trivialMove => some (s.comeBack k none none status needs)
    | _ => none
  | .flushedInside k status needs =>
    match s.items[k]? with
    | some (.doCompactionWork _ _) => if s.imm then some (s.compactMemTable status needs) else none
    | _ => none
  | .worked k status needs =>
    match s.items[k]? with
    | some (.doCompactionWork manual manualEnd) => some (s.comeBack k manual manualEnd status needs)
    | _ => none
  | .lastBlock _ => none

/-- The section of an item that has `mutex_` already. -/
def keep [DecidableEq ι] (s : State ι) : Action ι → Option (State ι)
  | .lastBlock k =>
    match s.items[k]? with
    | some (.lastBlock manual manualEnd status) => some (s.lastBlock k manual manualEnd status)
    | _ => none
  | _ => none

/-- One step of the threads together. -/
def step [DecidableEq ι] (s : State ι) (a : Action ι) : Option (State ι) :=
  if s.crash.isSome then none
  else if s.mutexHeld then s.keep a
  else s.take a

/-- The state of a database that has just been constructed. -/
def Initial (s : State ι) : Prop := ∃ request imm, s = { request := request, imm := imm } ∧
  ∀ i, (request i).done = false

/-! ### What a section changes -/

section

variable (s : State ι) (k : ℕ) (status : Status) (needs : Bool)

/-- `MaybeScheduleCompaction` does nothing, or schedules an item where there was none and
no shutdown. -/
theorem maybeScheduleCompaction_cases : s.maybeScheduleCompaction = s ∨
    (s.bgCompactionScheduled = false ∧ s.shuttingDown = false ∧ s.bgError.isOk = true ∧
      s.maybeScheduleCompaction =
        { s with bgCompactionScheduled := true, items := s.items ++ [.scheduled] }) := by
  rw [maybeScheduleCompaction]
  split_ifs with h1 h2 h3 h4
  · exact Or.inl rfl
  · exact Or.inl rfl
  · exact Or.inl rfl
  · exact Or.inl rfl
  · exact Or.inr ⟨by simpa using h1, by simpa using h2, by simpa using h3, rfl⟩

theorem maybeScheduleCompaction_eq : ∃ flag items,
    s.maybeScheduleCompaction = { s with bgCompactionScheduled := flag, items := items } := by
  rcases s.maybeScheduleCompaction_cases with he | ⟨-, -, -, he⟩
  · exact ⟨_, _, he⟩
  · exact ⟨_, _, he⟩

theorem endBackgroundCall_eq : ∃ flag items, s.endBackgroundCall k =
    { s with bgCompactionScheduled := flag, items := items, mutexHeld := false } := by
  obtain ⟨flag, items, he⟩ := maybeScheduleCompaction_eq { s with bgCompactionScheduled := false }
  rw [endBackgroundCall, he]
  exact ⟨flag, _, rfl⟩

theorem recordBackgroundError_eq :
    ∃ e, s.recordBackgroundError status = { s with bgError := e } := by
  rw [recordBackgroundError]
  split_ifs
  · exact ⟨_, rfl⟩
  · exact ⟨s.bgError, rfl⟩

theorem compactMemTable_eq : ∃ imm e needs', s.compactMemTable status needs =
    { s with imm := imm, bgError := e, needsCompaction := needs' } := by
  rw [compactMemTable]
  split_ifs
  · exact ⟨_, _, _, rfl⟩
  · obtain ⟨e, he⟩ := s.recordBackgroundError_eq status
    exact ⟨_, e, _, he⟩

theorem comeBack_eq (manual : Option ι) (manualEnd : Option InternalKey) : ∃ e needs',
    s.comeBack k manual manualEnd status needs =
      reach { s with bgError := e, needsCompaction := needs' } k manual manualEnd status := by
  rw [comeBack]
  split_ifs
  · exact ⟨_, _, rfl⟩
  · obtain ⟨e, he⟩ := s.recordBackgroundError_eq status
    rw [he]
    exact ⟨e, _, rfl⟩

/-- `BackgroundCompaction` moves its item on, and may change a request. -/
theorem backgroundCompaction_eq [DecidableEq ι] (c : Option Compaction) :
    ∃ request pc held, pc ≠ .scheduled ∧ s.backgroundCompaction k c =
      { s with request := request, items := s.items.set k pc, mutexHeld := held } := by
  unfold backgroundCompaction
  split_ifs
  · exact ⟨_, _, _, by simp, rfl⟩
  · split
    · exact ⟨_, _, _, by simp, rfl⟩
    · exact ⟨_, _, _, by simp, rfl⟩
    · exact ⟨_, _, _, by simp, rfl⟩
    · split_ifs
      · exact ⟨_, _, _, by simp, rfl⟩
      · exact ⟨_, _, _, by simp, rfl⟩

end

end State

variable [DecidableEq ι]

/-- **The system** of all the threads. -/
def system (ι : Type) [DecidableEq ι] : System (State ι) (Action ι) where
  init := State.Initial
  step := State.step

/-! ### What a step can do -/

/-- **The steps**, one rule for each action. -/
inductive Effect (s : State ι) : Action ι → State ι → Prop
  | testCompactRange {i : ι} : s.mutexHeld = false → s.call i ≠ .returned →
      Effect s (.testCompactRange i) (s.testCompactRange i)
  | other {imm needs schedule : Bool} : s.mutexHeld = false →
      Effect s (.other imm needs schedule)
        (if schedule then
          State.maybeScheduleCompaction { s with imm := s.imm || imm, needsCompaction := needs }
        else { s with imm := s.imm || imm, needsCompaction := needs })
  | recordBackgroundError {status : Status} : s.mutexHeld = false →
      Effect s (.recordBackgroundError status) (s.recordBackgroundError status)
  | destroy : s.mutexHeld = false → s.destructor ≠ .left → Effect s .destroy s.destroy
  | backgroundCall {k : ℕ} {c : Option Compaction} : s.mutexHeld = false →
      s.items[k]? = some .scheduled → Effect s (.backgroundCall k c) (s.backgroundCall k c)
  | flushed {k : ℕ} {status : Status} {needs : Bool} : s.mutexHeld = false →
      s.items[k]? = some .compactMemTable →
      Effect s (.flushed k status needs) ((s.compactMemTable status needs).endBackgroundCall k)
  | moved {k : ℕ} {status : Status} {needs : Bool} : s.mutexHeld = false →
      s.items[k]? = some .trivialMove →
      Effect s (.moved k status needs) (s.comeBack k none none status needs)
  | flushedInside {k : ℕ} {status : Status} {needs : Bool} {manual manualEnd} :
      s.mutexHeld = false → s.items[k]? = some (.doCompactionWork manual manualEnd) →
      s.imm = true → Effect s (.flushedInside k status needs) (s.compactMemTable status needs)
  | worked {k : ℕ} {status : Status} {needs : Bool} {manual manualEnd} : s.mutexHeld = false →
      s.items[k]? = some (.doCompactionWork manual manualEnd) →
      Effect s (.worked k status needs) (s.comeBack k manual manualEnd status needs)
  | lastBlock {k : ℕ} {manual manualEnd} {status : Status} : s.mutexHeld = true →
      s.items[k]? = some (.lastBlock manual manualEnd status) →
      Effect s (.lastBlock k) (s.lastBlock k manual manualEnd status)

/-- **Inversion**: a step is one of the rules, and the process has not crashed before. -/
theorem effect_of_step {s t : State ι} {a : Action ι} (h : (system ι).step s a = some t) :
    s.crash = none ∧ Effect s a t := by
  have h : s.step a = some t := h
  rw [State.step] at h
  split_ifs at h with hc hm
  · refine ⟨by simpa using hc, ?_⟩
    cases a with
    | lastBlock k =>
      rw [State.keep] at h
      split at h
      · next hk =>
        obtain rfl := Option.some.inj h
        exact .lastBlock hm hk
      · exact absurd h (by simp)
    | _ => exact absurd h (by simp [State.keep])
  · refine ⟨by simpa using hc, ?_⟩
    have hm : s.mutexHeld = false := by simpa using hm
    cases a with
    | testCompactRange i =>
      rw [State.take] at h
      split_ifs at h with hret
      obtain rfl := Option.some.inj h
      exact .testCompactRange hm hret
    | other imm needs schedule =>
      obtain rfl := Option.some.inj h
      exact .other hm
    | recordBackgroundError status =>
      obtain rfl := Option.some.inj h
      exact .recordBackgroundError hm
    | destroy =>
      rw [State.take] at h
      split_ifs at h with hleft
      obtain rfl := Option.some.inj h
      exact .destroy hm hleft
    | backgroundCall k c =>
      rw [State.take] at h
      split at h
      · next hk =>
        obtain rfl := Option.some.inj h
        exact .backgroundCall hm hk
      · exact absurd h (by simp)
    | flushed k status needs =>
      rw [State.take] at h
      split at h
      · next hk =>
        obtain rfl := Option.some.inj h
        exact .flushed hm hk
      · exact absurd h (by simp)
    | moved k status needs =>
      rw [State.take] at h
      split at h
      · next hk =>
        obtain rfl := Option.some.inj h
        exact .moved hm hk
      · exact absurd h (by simp)
    | flushedInside k status needs =>
      rw [State.take] at h
      split at h
      · next hk =>
        split_ifs at h with himm
        obtain rfl := Option.some.inj h
        exact .flushedInside hm hk himm
      · exact absurd h (by simp)
    | worked k status needs =>
      rw [State.take] at h
      split at h
      · next hk =>
        obtain rfl := Option.some.inj h
        exact .worked hm hk
      · exact absurd h (by simp)
    | lastBlock k => exact absurd h (by simp [State.take])

end LevelDb.Background
