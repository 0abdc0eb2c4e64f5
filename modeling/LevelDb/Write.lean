import LevelDb.Logic.Transition
import Mathlib.Logic.Function.Basic

/-!
# The queue of the writers

Concurrent calls of `DBImpl::Write`. A call makes a `Writer` on its stack, appends the
address of it to `writers_`, and waits until the writer is done or at the front of the
queue. What follows may give back `mutex_` for a while (`MakeRoomForWrite`), so that it is
the queue, and not `mutex_`, that keeps two writes apart
(`LevelDb.Write.writing_unique`).

The function ends where the group of batches was built. Nothing in the repository takes a
writer from the queue, sets its `done` or signals its `cv`. So the writer that was first
stays at the front when its call has returned, and the calls that can still write are those
whose writer happens to be where the first one was (`LevelDb.Write.passes_iff`): a thread
that writes alone does not notice, and every other one waits without end
(`LevelDb.Write.waiting_of_steps`).

`MakeRoomForWrite` is not in the repository. The system (`LevelDb.Write.system`) lets it give
back `mutex_` and get it again at will. It also lets the call return, which C++ does not
promise of a function that ends without its value.
-/

namespace LevelDb.Write

open Transition

variable {A : Type}

/-- Where a call of `Write` is. -/
inductive Pc
  /-- Its `Writer` is made, and `mutex_` is not taken yet. -/
  | ready
  /-- In `w.cv.wait()`. -/
  | waiting
  /-- Behind the wait loop. -/
  | writing
  deriving DecidableEq, Repr

/-- Who has `mutex_`: the call whose `Writer` is at an address, or another thread. -/
inductive Holder (A : Type)
  | call (w : A)
  | other
  deriving DecidableEq, Repr

/-- **The state** that the calls share. Two of them that run have their writers at two
addresses; once a call has returned, its address may serve again. -/
structure State (A : Type) where
  /-- The call whose `Writer` is at an address, if there is one. -/
  pc : A → Option Pc := fun _ => none
  /-- The `done` of the writer at an address. -/
  done : A → Bool := fun _ => false
  /-- `writers_`. -/
  writers : List A := []
  mutex : Option (Holder A) := none

/-- What a thread can do. -/
inductive Action (A : Type)
  /-- `Writer w(&mutex_)`, and `w.done = false`. -/
  | call (w : A)
  /-- `MutexLock l(&mutex_)`, up to the first `w.cv.wait()` or behind the loop. -/
  | lock (w : A)
  /-- `w.cv.wait()` returns. -/
  | wake (w : A)
  /-- `MakeRoomForWrite` gives back `mutex_`. -/
  | unlock (w : A)
  /-- It has `mutex_` again. -/
  | relock (w : A)
  /-- The end of `Write`. -/
  | leave (w : A)
  /-- Another thread takes `mutex_`. -/
  | otherLock
  /-- It gives `mutex_` back. -/
  | otherUnlock
  deriving DecidableEq, Repr

variable [DecidableEq A]

namespace State

/-- The call returns: `w` and `l` are gone. -/
def leave (s : State A) (w : A) : State A :=
  { s with pc := Function.update s.pc w none, mutex := none }

/-- The test of the wait loop, and what is behind it. The mutex is held. -/
def test (s : State A) (w : A) : State A :=
  if s.done w = false ∧ s.writers.head? ≠ some w then
    { s with pc := Function.update s.pc w (some .waiting), mutex := none }
  else if s.done w then s.leave w
  else { s with pc := Function.update s.pc w (some .writing), mutex := some (.call w) }

/-- When a thread can do it. -/
def Enabled (s : State A) : Action A → Prop
  | .call w => s.pc w = none
  | .lock w => s.pc w = some .ready ∧ s.mutex = none
  | .wake w => s.pc w = some .waiting ∧ s.mutex = none
  | .unlock w | .leave w => s.pc w = some .writing ∧ s.mutex = some (.call w)
  | .relock w => s.pc w = some .writing ∧ s.mutex = none
  | .otherLock => s.mutex = none
  | .otherUnlock => s.mutex = some .other

instance (s : State A) : ∀ a, Decidable (s.Enabled a)
  | .call w => inferInstanceAs (Decidable (s.pc w = none))
  | .lock w => inferInstanceAs (Decidable (s.pc w = some .ready ∧ s.mutex = none))
  | .wake w => inferInstanceAs (Decidable (s.pc w = some .waiting ∧ s.mutex = none))
  | .unlock w | .leave w =>
    inferInstanceAs (Decidable (s.pc w = some .writing ∧ s.mutex = some (.call w)))
  | .relock w => inferInstanceAs (Decidable (s.pc w = some .writing ∧ s.mutex = none))
  | .otherLock => inferInstanceAs (Decidable (s.mutex = none))
  | .otherUnlock => inferInstanceAs (Decidable (s.mutex = some .other))

/-- What it does. -/
def next (s : State A) : Action A → State A
  | .call w =>
    { s with pc := Function.update s.pc w (some .ready), done := Function.update s.done w false }
  | .lock w => { s with writers := s.writers ++ [w] }.test w
  | .wake w => s.test w
  | .unlock _ | .otherUnlock => { s with mutex := none }
  | .relock w => { s with mutex := some (.call w) }
  | .leave w => s.leave w
  | .otherLock => { s with mutex := some .other }

end State

/-- The calls of `Write`. -/
def system (A : Type) [DecidableEq A] : System (State A) (Action A) where
  init s := s = {}
  step s a := if s.Enabled a then some (s.next a) else none

variable {s t : State A} {a : Action A} {v w : A}

theorem step_eq_some : (system A).step s a = some t ↔ s.Enabled a ∧ s.next a = t := by
  rw [show (system A).step s a = if s.Enabled a then some (s.next a) else none from rfl]
  split_ifs with h
  · simp [h]
  · simp [h]

/-! ### One step -/

/-- **The invariant**: who writes is at the front, and who waits is behind another. -/
structure Queued (s : State A) : Prop where
  done : ∀ w, s.done w = false
  writing : ∀ w, s.pc w = some .writing → s.writers.head? = some w
  waiting : ∀ w, s.pc w = some .waiting → ∃ v, s.writers.head? = some v ∧ v ≠ w
  mutex : ∀ w, s.mutex = some (.call w) → s.pc w = some .writing

omit [DecidableEq A] in
theorem Queued.initial : Queued ({} : State A) :=
  ⟨fun _ => rfl, by simp, by simp, by simp⟩

omit [DecidableEq A] in
/-- The front of a queue that is appended to. -/
theorem head?_append_eq {ws vs : List A} (h : ws.head? = some v) :
    (ws ++ vs).head? = some v := by
  rw [List.head?_append, h]
  rfl

theorem State.test_writers : (s.test w).writers = s.writers := by
  unfold State.test State.leave
  split_ifs
  · rfl
  · rfl
  · rfl

/-- The test, where no writer is done: the call writes if its writer is at the front. -/
theorem State.test_eq (h : ∀ w, s.done w = false) :
    s.test w = if s.writers.head? = some w then
      { s with pc := Function.update s.pc w (some .writing), mutex := some (.call w) }
    else { s with pc := Function.update s.pc w (some .waiting), mutex := none } := by
  rw [State.test, h w]
  by_cases hw : s.writers.head? = some w
  · rw [if_pos hw, if_neg (fun hn => hn.2 hw), if_neg Bool.false_ne_true]
  · rw [if_neg hw, if_pos ⟨rfl, hw⟩]

/-- Where one call goes on, the others stay as they are. -/
theorem Queued.goto (h : Queued s) {pc : Option Pc} {m : Option (Holder A)}
    (hwriting : pc = some .writing → s.writers.head? = some w)
    (hwaiting : pc = some .waiting → ∃ v, s.writers.head? = some v ∧ v ≠ w)
    (hm : ∀ v, m = some (.call v) → Function.update s.pc w pc v = some .writing) :
    Queued { s with pc := Function.update s.pc w pc, mutex := m } where
  done := h.done
  writing v hv := by
    rcases eq_or_ne v w with rfl | hne
    · exact hwriting (by simpa using hv)
    · exact h.writing v (by simpa [hne] using hv)
  waiting v hv := by
    rcases eq_or_ne v w with rfl | hne
    · exact hwaiting (by simpa using hv)
    · exact h.waiting v (by simpa [hne] using hv)
  mutex := hm

omit [DecidableEq A] in
/-- The mutex changes hands. -/
theorem Queued.setMutex (h : Queued s) {m : Option (Holder A)}
    (hm : ∀ v, m = some (.call v) → s.pc v = some .writing) : Queued { s with mutex := m } where
  done := h.done
  writing := h.writing
  waiting := h.waiting
  mutex := hm

omit [DecidableEq A] in
/-- A writer more in the queue. -/
theorem Queued.append (h : Queued s) (w : A) : Queued { s with writers := s.writers ++ [w] } where
  done := h.done
  writing v hv := head?_append_eq (h.writing v hv)
  waiting v hv := by
    obtain ⟨u, hu, hne⟩ := h.waiting v hv
    exact ⟨u, head?_append_eq hu, hne⟩
  mutex := h.mutex

theorem Queued.test (h : Queued s) (hw : s.writers ≠ []) : Queued (s.test w) := by
  rw [State.test_eq h.done]
  split_ifs with hfront
  · refine h.goto (fun _ => hfront) (by simp) fun v hv => ?_
    obtain rfl : w = v := by simpa using hv
    exact Function.update_self ..
  · obtain ⟨v, hv⟩ := Option.isSome_iff_exists.mp (List.isSome_head?.mpr hw)
    refine h.goto (by simp) (fun _ => ⟨v, hv, ?_⟩) (by simp)
    rintro rfl
    exact hfront hv

/-- A call begins, where none was. -/
theorem Queued.call (h : Queued s) (hw : s.pc w = none) : Queued (s.next (.call w)) := by
  have hdone : Function.update s.done w false = s.done := by
    rw [← h.done w, Function.update_eq_self]
  rw [State.next, hdone]
  refine h.goto (by simp) (by simp) fun v hv => ?_
  have hpc := h.mutex v hv
  -- who has the mutex is another call
  rwa [Function.update_of_ne]
  rintro rfl
  simp [hw] at hpc

/-- **Every step** keeps the order of the queue. -/
theorem Queued.next (h : Queued s) (ha : s.Enabled a) : Queued (s.next a) := by
  cases a with
  | call w => exact h.call ha
  | lock w => exact (h.append w).test (List.append_ne_nil_of_right_ne_nil _ (List.cons_ne_nil _ _))
  | wake w =>
    obtain ⟨v, hv, -⟩ := h.waiting w ha.1
    exact h.test (List.isSome_head?.mp (Option.isSome_of_eq_some hv))
  | unlock w => exact h.setMutex (by simp)
  | relock w =>
    refine h.setMutex fun v hv => ?_
    obtain rfl : w = v := by simpa using hv
    exact ha.1
  | leave w => exact h.goto (by simp) (by simp) (by simp)
  | otherLock => exact h.setMutex (by simp)
  | otherUnlock => exact h.setMutex (by simp)

theorem Queued.step (h : Queued s) (hstep : (system A).step s a = some t) : Queued t := by
  obtain ⟨ha, rfl⟩ := step_eq_some.mp hstep
  exact h.next ha

/-! ### Runs -/

theorem Queued.of_reachable (h : (system A).Reachable s) : Queued s := by
  refine h.invariant (fun s hs => ?_) fun _ _ _ h hstep => h.step hstep
  obtain rfl : s = {} := hs
  exact .initial

/-- Nothing is taken from the queue. -/
theorem head?_of_steps (h : (system A).Steps s t) (hv : s.writers.head? = some v) :
    t.writers.head? = some v := by
  induction h with
  | refl => exact hv
  | @step t _ a _ hstep ih =>
    obtain ⟨-, rfl⟩ := step_eq_some.mp hstep
    cases a with
    | lock w =>
      rw [State.next, State.test_writers]
      exact head?_append_eq ih
    | wake w =>
      rw [State.next, State.test_writers]
      exact ih
    | call w | unlock w | relock w | leave w | otherLock | otherUnlock => exact ih

/-- **Mutual exclusion**: of all the calls that run, at most one is behind its wait loop,
also while `MakeRoomForWrite` has given back the mutex. -/
theorem writing_unique (h : (system A).Reachable s) (hv : s.pc v = some .writing)
    (hw : s.pc w = some .writing) : v = w := by
  have hq := Queued.of_reachable h
  exact Option.some.inj ((hq.writing v hv).symm.trans (hq.writing w hw))

/-- Two calls: the first has given back the mutex in `MakeRoomForWrite`, and the second, which
took it, does not write. -/
theorem writing_unique_twoCalls : ∃ s : State ℕ, (system ℕ).Reachable s ∧
    s.pc 0 = some .writing ∧ s.writers = [0, 1] ∧ s.mutex = none ∧ s.pc 1 ≠ some .writing := by
  obtain ⟨s, hrun, hpc, hwriters, hmutex⟩ : ∃ s : State ℕ, (system ℕ).run {}
      [.call 0, .lock 0, .call 1, .unlock 0, .lock 1] = some s ∧ s.pc 0 = some .writing ∧
      s.writers = [0, 1] ∧ s.mutex = none := ⟨_, rfl, rfl, rfl, rfl⟩
  have hreach : (system ℕ).Reachable s := ⟨_, rfl, System.steps_of_run hrun⟩
  refine ⟨s, hreach, hpc, hwriters, hmutex, fun h => ?_⟩
  exact absurd (writing_unique hreach hpc h) (by decide)

/-- A call takes the mutex where the queue is empty, or its address at the front. -/
theorem writing_of_lock (hq : Queued s) (hpc : s.pc w = some .ready) (hm : s.mutex = none)
    (hfront : ∀ v, s.writers.head? = some v → v = w) :
    ∃ t, (system A).Steps s t ∧ t.pc w = some .writing := by
  have hstep : (system A).step s (.lock w) = some (s.next (.lock w)) :=
    step_eq_some.mpr ⟨⟨hpc, hm⟩, rfl⟩
  refine ⟨_, System.Steps.refl.step hstep, ?_⟩
  have hhead : (s.writers ++ [w]).head? = some w := by
    cases hws : s.writers with
    | nil => rfl
    | cons v vs =>
      rw [hfront v (by rw [hws]; rfl)]
      rfl
  rw [State.next, State.test_eq (hq.append w).done, if_pos hhead]
  exact Function.update_self ..

/-- A call can begin, and write, where the queue lets it. -/
theorem writing_of_free (hq : Queued s) (hm : s.mutex = none)
    (hfront : ∀ v, s.writers.head? = some v → v = w) :
    ∃ t, (system A).Steps s t ∧ t.pc w = some .writing := by
  rcases hpc : s.pc w with _ | pc
  · have hstep : (system A).step s (.call w) = some (s.next (.call w)) :=
      step_eq_some.mpr ⟨hpc, rfl⟩
    obtain ⟨t, ht, hw⟩ := writing_of_lock (hq.step hstep) (Function.update_self ..) hm hfront
    exact ⟨t, (System.Steps.refl.step hstep).trans ht, hw⟩
  · cases pc with
    | ready => exact writing_of_lock hq hpc hm hfront
    | waiting =>
      obtain ⟨v, hv, hne⟩ := hq.waiting w hpc
      exact absurd (hfront v hv) hne
    | writing => exact ⟨s, .refl, hpc⟩

/-- **Who can still write**: in a run that goes on from here, a call whose writer is at the
address gets behind its wait loop if and only if no writer was queued yet, or the first one
was at the same address. -/
theorem passes_iff (h : (system A).Reachable s) :
    (∃ t, (system A).Steps s t ∧ t.pc w = some .writing) ↔
      s.writers = [] ∨ s.writers.head? = some w := by
  have hq := Queued.of_reachable h
  have hiff : (s.writers = [] ∨ s.writers.head? = some w) ↔
      ∀ v, s.writers.head? = some v → v = w := by
    cases s.writers with
    | nil => simp
    | cons v vs => simp
  rw [hiff]
  constructor
  · rintro ⟨t, ht, hw⟩ v hv
    have hfront := (Queued.of_reachable (h.steps ht)).writing w hw
    exact Option.some.inj ((head?_of_steps ht hv).symm.trans hfront)
  · intro hfront
    rcases hm : s.mutex with _ | holder
    · exact writing_of_free hq hm hfront
    cases holder with
    | call v =>
      -- it writes, so that it is the one at the front
      have hv := hq.mutex v hm
      obtain rfl := hfront v (hq.writing v hv)
      exact ⟨s, .refl, hv⟩
    | other =>
      have hstep : (system A).step s .otherUnlock = some (s.next .otherUnlock) :=
        step_eq_some.mpr ⟨hm, rfl⟩
      obtain ⟨t, ht, hw⟩ := writing_of_free (hq.step hstep) rfl hfront
      exact ⟨t, (System.Steps.refl.step hstep).trans ht, hw⟩

/-- A call has returned. The next one with its writer at the same address writes, and one with
its writer at another never does. -/
theorem passes_iff_returned : ∃ s : State ℕ, (system ℕ).Reachable s ∧ s.pc 0 = none ∧
    (∃ t, (system ℕ).Steps s t ∧ t.pc 0 = some .writing) ∧
    ¬∃ t, (system ℕ).Steps s t ∧ t.pc 1 = some .writing := by
  obtain ⟨s, hrun, hpc, hwriters⟩ : ∃ s : State ℕ, (system ℕ).run {}
      [.call 0, .lock 0, .leave 0] = some s ∧ s.pc 0 = none ∧ s.writers = [0] :=
    ⟨_, rfl, rfl, rfl⟩
  have hreach : (system ℕ).Reachable s := ⟨_, rfl, System.steps_of_run hrun⟩
  refine ⟨s, hreach, hpc, (passes_iff hreach).mpr ?_, fun h => ?_⟩
  · rw [hwriters]
    exact Or.inr rfl
  · have hfront := (passes_iff hreach).mp h
    rw [hwriters] at hfront
    exact absurd hfront (by decide)

/-- A call that waits is where it was after a step of any thread. -/
theorem Queued.waiting_next (h : Queued s) (ha : s.Enabled a) (hw : s.pc w = some .waiting) :
    (s.next a).pc w = some .waiting := by
  have hother : ∀ v pc, s.pc v ≠ some .waiting → Function.update s.pc v pc w = some .waiting :=
    fun v pc hv => by rwa [Function.update_of_ne (by rintro rfl; exact hv hw)]
  cases a with
  | call v => exact hother v _ (by simp [show s.pc v = none from ha])
  | lock v =>
    rw [State.next, State.test_eq (h.append v).done]
    split_ifs
    · exact hother v _ (by simp [ha.1])
    · exact hother v _ (by simp [ha.1])
  | wake v =>
    obtain ⟨u, hu, hne⟩ := h.waiting v ha.1
    rw [State.next, State.test_eq h.done, if_neg (by rw [hu]; simpa using hne)]
    -- whoever waited waits again
    rcases eq_or_ne w v with rfl | hwv
    · exact Function.update_self ..
    · exact (Function.update_of_ne hwv ..).trans hw
  | leave v => exact hother v _ (by simp [ha.1])
  | unlock v | relock v | otherLock | otherUnlock => exact hw

/-- **A call that waits** does so in every state that follows. -/
theorem waiting_of_steps (h : (system A).Reachable s) (hw : s.pc w = some .waiting)
    (ht : (system A).Steps s t) : t.pc w = some .waiting := by
  induction ht with
  | refl => exact hw
  | step hs hstep ih =>
    obtain ⟨ha, rfl⟩ := step_eq_some.mp hstep
    exact (Queued.of_reachable (h.steps hs)).waiting_next ha ih

end LevelDb.Write
