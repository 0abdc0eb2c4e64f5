import Mathlib.Data.List.Basic
import Mathlib.Order.Basic
import Mathlib.Order.UpperLower.CompleteLattice
import Mathlib.Tactic.Common

/-!
# Programs that can be stopped anywhere

A program that talks to a file system can be killed between any two of its calls.
`CrashLogic.Proc σ α` is a program over a state `σ` whose run keeps, besides its
result, the **trace** of the states it could be found in: every call contributes
the state it was made in (`CrashLogic.Proc.step`). A run can also *abort* – an
assertion failed – and then has no result.

States are preordered, and a program only climbs: it carries the proof that every
state of its run is above the one it started from. A state that records the calls
made so far, ordered by extension of that record, is the case in point.

The logic is a weakest precondition with a crash condition and a *rely*.
`CrashLogic.Sat A p s I Q` says of the run of `p` from `s` that every state of its
trace satisfies `I`, that it satisfies `I` where it aborts, and that it satisfies
`Q` where it returns – each time provided the state is in `A`. The rely is a lower
set: once the environment broke it, no later state is in it again. That is what
makes the rules equivalences, so that symbolic execution is rewriting by them.
The one to remember is sequencing, `CrashLogic.sat_bind` – the crash condition is
the same on both sides, and the postcondition of the first half is the whole
statement about the second.

`CrashLogic.Sat` says nothing about a run that aborts. `CrashLogic.Returns` is the
total counterpart, without a crash condition: the run returns, and the postcondition
holds.
-/

namespace CrashLogic

variable {σ α β : Type}

/-- **What a run leaves**: the states it could have been stopped in, the last
state, and the result – none when the run aborted. -/
structure Run (σ α : Type) where
  trace : List σ
  final : σ
  result : Option α

/-- Every state a run could be found in: those of the trace, and the last. -/
def Run.states (r : Run σ α) : List σ := r.trace ++ [r.final]

theorem Run.mem_states {r : Run σ α} {t : σ} : t ∈ r.states ↔ t ∈ r.trace ∨ t = r.final := by
  rw [Run.states, List.mem_append, List.mem_singleton]

/-- **A program** over the state `σ`: its runs, which only climb. -/
structure Proc (σ : Type) [Preorder σ] (α : Type) where
  run : σ → Run σ α
  le_of_mem : ∀ s, ∀ t ∈ (run s).states, s ≤ t

variable [Preorder σ]

namespace Proc

theorem le_final (p : Proc σ α) (s : σ) : s ≤ (p.run s).final :=
  p.le_of_mem s _ (Run.mem_states.mpr (Or.inr rfl))

/-- Return. -/
protected def pure (a : α) : Proc σ α where
  run s := ⟨[], s, some a⟩
  le_of_mem s t ht := by
    obtain rfl := List.mem_singleton.mp ht
    exact le_rfl

/-- One run after another; an abort ends both. -/
def bindRun (r : Run σ α) (f : α → Proc σ β) : Run σ β :=
  match r.result with
  | none => ⟨r.trace, r.final, none⟩
  | some a => ⟨r.trace ++ ((f a).run r.final).trace, ((f a).run r.final).final,
      ((f a).run r.final).result⟩

theorem mem_bindRun {r : Run σ α} {f : α → Proc σ β} {t : σ} (ht : t ∈ (bindRun r f).states) :
    t ∈ r.states ∨ ∃ a, t ∈ ((f a).run r.final).states := by
  rw [bindRun] at ht
  rcases hr : r.result with _ | a
  · rw [hr] at ht
    exact Or.inl ht
  · rw [hr] at ht
    rcases Run.mem_states.mp ht with ht | ht
    · rcases List.mem_append.mp ht with ht | ht
      · exact Or.inl (Run.mem_states.mpr (Or.inl ht))
      · exact Or.inr ⟨a, Run.mem_states.mpr (Or.inl ht)⟩
    · exact Or.inr ⟨a, Run.mem_states.mpr (Or.inr ht)⟩

/-- One program after another. -/
protected def bind (p : Proc σ α) (f : α → Proc σ β) : Proc σ β where
  run s := bindRun (p.run s) f
  le_of_mem s t ht := by
    rcases mem_bindRun ht with ht | ⟨a, ht⟩
    · exact p.le_of_mem s t ht
    · exact (p.le_final s).trans ((f a).le_of_mem _ t ht)

instance : Monad (Proc σ) where
  pure := Proc.pure
  bind := Proc.bind

/-- **One call**: the program can be stopped before it. -/
def step (f : σ → σ × α) (hf : ∀ s, s ≤ (f s).1) : Proc σ α where
  run s := ⟨[s], (f s).1, some (f s).2⟩
  le_of_mem s t ht := by
    rcases Run.mem_states.mp ht with ht | rfl
    · obtain rfl := List.mem_singleton.mp ht
      exact le_rfl
    · exact hf s

/-- Read the state. -/
def get : Proc σ σ where
  run s := ⟨[], s, some s⟩
  le_of_mem s t ht := by
    obtain rfl := List.mem_singleton.mp ht
    exact le_rfl

/-- Change the state between two calls. -/
def modify (f : σ → σ) (hf : ∀ s, s ≤ f s) : Proc σ Unit where
  run s := ⟨[], f s, some ()⟩
  le_of_mem s t ht := by
    obtain rfl := List.mem_singleton.mp ht
    exact hf s

/-- Abort. -/
def abort : Proc σ α where
  run s := ⟨[], s, none⟩
  le_of_mem s t ht := by
    obtain rfl := List.mem_singleton.mp ht
    exact le_rfl

/-- Abort unless the condition holds. -/
def assert (b : Bool) : Proc σ Unit := if b then pure () else abort

end Proc

/-! ### The logic -/

/-- **The run of `p` from `s`**, as long as it is in the rely `A`, goes through
states that satisfy `I`, aborts only where `I` holds, and returns only where `Q`
holds. -/
def Sat (A : LowerSet σ) (p : Proc σ α) (s : σ) (I : σ → Prop) (Q : α → σ → Prop) : Prop :=
  (∀ t ∈ (p.run s).trace, t ∈ A → I t) ∧
    ((p.run s).final ∈ A → (p.run s).result.elim (I (p.run s).final) fun a => Q a (p.run s).final)

variable {A : LowerSet σ} {s : σ} {I : σ → Prop} {Q : α → σ → Prop}

@[simp] theorem sat_pure {a : α} : Sat A (pure a : Proc σ α) s I Q ↔ (s ∈ A → Q a s) := by
  simp [Sat, pure, Proc.pure]

/-- **Sequencing.** -/
@[simp] theorem sat_bind {p : Proc σ β} {f : β → Proc σ α} :
    Sat A (p >>= f) s I Q ↔ Sat A p s I fun b t => Sat A (f b) t I Q := by
  have hb : (p >>= f).run s = Proc.bindRun (p.run s) f := rfl
  rw [Sat, Sat, hb, Proc.bindRun]
  rcases hr : (p.run s).result with _ | b
  · simp
  · simp only [List.mem_append, Option.elim_some, Sat]
    constructor
    · rintro ⟨h1, h2⟩
      exact ⟨fun t ht => h1 t (Or.inl ht), fun _ => ⟨fun t ht => h1 t (Or.inr ht), h2⟩⟩
    · rintro ⟨h1, h2⟩
      -- a state of the second half that is in the rely has the middle one below it
      have hlow : ∀ t ∈ ((f b).run (p.run s).final).states, t ∈ A → (p.run s).final ∈ A :=
        fun t ht => A.lower ((f b).le_of_mem _ t ht)
      refine ⟨?_, fun hA => (h2 (hlow _ (Run.mem_states.mpr (Or.inr rfl)) hA)).2 hA⟩
      rintro t (ht | ht) hA
      · exact h1 t ht hA
      · exact (h2 (hlow t (Run.mem_states.mpr (Or.inl ht)) hA)).1 t ht hA

@[simp] theorem sat_step {f : σ → σ × α} {hf : ∀ s, s ≤ (f s).1} :
    Sat A (Proc.step f hf) s I Q ↔ (s ∈ A → I s) ∧ ((f s).1 ∈ A → Q (f s).2 (f s).1) := by
  simp [Sat, Proc.step]

@[simp] theorem sat_get {Q : σ → σ → Prop} : Sat A Proc.get s I Q ↔ (s ∈ A → Q s s) := by
  simp [Sat, Proc.get]

@[simp] theorem sat_modify {f : σ → σ} {hf : ∀ s, s ≤ f s} {Q : Unit → σ → Prop} :
    Sat A (Proc.modify f hf) s I Q ↔ (f s ∈ A → Q () (f s)) := by
  simp [Sat, Proc.modify]

@[simp] theorem sat_abort : Sat A (Proc.abort : Proc σ α) s I Q ↔ (s ∈ A → I s) := by
  simp [Sat, Proc.abort]

@[simp] theorem sat_assert {b : Bool} {Q : Unit → σ → Prop} :
    Sat A (Proc.assert b) s I Q ↔ (s ∈ A → if b then Q () s else I s) := by
  cases b <;> simp [Proc.assert]

/-- **Consequence.** The states of a run are above its first one and, where there is
something to show, in the rely. -/
theorem Sat.mono {p : Proc σ α} {I' : σ → Prop} {Q' : α → σ → Prop} (h : Sat A p s I Q)
    (hI : ∀ t, s ≤ t → t ∈ A → I t → I' t) (hQ : ∀ a t, s ≤ t → t ∈ A → Q a t → Q' a t) :
    Sat A p s I' Q' := by
  obtain ⟨h1, h2⟩ := h
  refine ⟨fun t ht hA => ?_, fun hA => ?_⟩
  · exact hI t (p.le_of_mem s t (Run.mem_states.mpr (Or.inl ht))) hA (h1 t ht hA)
  · rcases hr : (p.run s).result with _ | a
    · rw [hr] at h2
      exact hI _ (p.le_final s) hA (h2 hA)
    · rw [hr] at h2
      exact hQ a _ (p.le_final s) hA (h2 hA)

/-- **Sequencing through a specification** of the first half. -/
theorem Sat.seq {p : Proc σ β} {f : β → Proc σ α} {J : σ → Prop} {R : β → σ → Prop}
    (h : Sat A p s J R) (hI : ∀ t, s ≤ t → t ∈ A → J t → I t)
    (hf : ∀ b t, s ≤ t → t ∈ A → R b t → Sat A (f b) t I Q) : Sat A (p >>= f) s I Q :=
  sat_bind.mpr (h.mono hI hf)

/-- Behind an assertion the condition holds. -/
theorem Sat.assert {b : Bool} {f : Unit → Proc σ α} (hI : s ∈ A → I s)
    (hf : b = true → Sat A (f ()) s I Q) : Sat A (Proc.assert b >>= f) s I Q := by
  rw [sat_bind, sat_assert]
  intro hs
  split_ifs with h
  · exact hf h
  · exact hI hs

/-- **Soundness, crashes**: where returning implies the crash condition, no state
of the run violates it. -/
theorem Sat.states {p : Proc σ α} (h : Sat A p s I Q) (hQ : ∀ a t, Q a t → I t) :
    ∀ t ∈ (p.run s).states, t ∈ A → I t := by
  obtain ⟨h1, h2⟩ := h
  intro t ht hA
  rcases Run.mem_states.mp ht with ht | rfl
  · exact h1 t ht hA
  · rcases hr : (p.run s).result with _ | a
    · rw [hr] at h2
      exact h2 hA
    · rw [hr] at h2
      exact hQ a _ (h2 hA)

/-- **Soundness, results.** -/
theorem Sat.result {p : Proc σ α} (h : Sat A p s I Q) {a : α} (ha : (p.run s).result = some a)
    (hA : (p.run s).final ∈ A) : Q a (p.run s).final := by
  obtain ⟨-, h2⟩ := h
  rw [ha] at h2
  exact h2 hA

/-- **Conjunction.** -/
theorem Sat.and {p : Proc σ α} {Q' : α → σ → Prop} (h : Sat A p s I Q) (h' : Sat A p s I Q') :
    Sat A p s I fun a t => Q a t ∧ Q' a t := by
  refine ⟨h.1, fun hA => ?_⟩
  have hQ := h.2 hA
  have hQ' := h'.2 hA
  cases hr : (p.run s).result with
  | none =>
    rw [hr] at hQ
    exact hQ
  | some a =>
    rw [hr] at hQ hQ'
    exact ⟨hQ, hQ'⟩

/-- **Conjunction**, of the crash conditions as well. -/
theorem Sat.inter {p : Proc σ α} {I' : σ → Prop} {Q' : α → σ → Prop} (h : Sat A p s I Q)
    (h' : Sat A p s I' Q') : Sat A p s (fun t => I t ∧ I' t) fun a t => Q a t ∧ Q' a t := by
  refine ⟨fun t ht hA => ⟨h.1 t ht hA, h'.1 t ht hA⟩, fun hA => ?_⟩
  have hQ := h.2 hA
  have hQ' := h'.2 hA
  cases hr : (p.run s).result with
  | none =>
    rw [hr] at hQ hQ'
    exact ⟨hQ, hQ'⟩
  | some a =>
    rw [hr] at hQ hQ'
    exact ⟨hQ, hQ'⟩

/-- A program whose crash condition and postcondition say nothing. -/
theorem sat_trivial (p : Proc σ α) : Sat A p s (fun _ => True) fun _ _ => True := by
  refine ⟨fun _ _ _ => trivial, fun _ => ?_⟩
  cases (p.run s).result <;> trivial

/-- One program after another, where both may stop anywhere. -/
theorem Sat.andThen {p : Proc σ β} {f : β → Proc σ α} {J : σ → Prop} {R : β → σ → Prop}
    (h : Sat A p s J R)
    (hf : ∀ b t, s ≤ t → t ∈ A → R b t → Sat A (f b) t (fun _ => True) Q) :
    Sat A (p >>= f) s (fun _ => True) Q :=
  h.seq (fun _ _ _ _ => trivial) hf

/-- What runs first is of no account. -/
theorem Sat.skip {p : Proc σ β} {f : β → Proc σ α}
    (hf : ∀ b t, Sat A (f b) t (fun _ => True) Q) : Sat A (p >>= f) s (fun _ => True) Q :=
  (sat_trivial p).andThen fun b t _ _ _ => hf b t

/-- Reading the state leaves no trace. -/
theorem run_get_bind {f : σ → Proc σ α} : (Proc.get >>= f).run s = (f s).run s := rfl

/-! ### What a program keeps -/

/-- **The program keeps** a value of the state, wherever it is run from. -/
def Keeps {γ : Type*} (f : σ → γ) (p : Proc σ α) : Prop := ∀ s, f (p.run s).final = f s

section

variable {γ : Type*} {f : σ → γ}

theorem keeps_pure (a : α) : Keeps f (pure a : Proc σ α) := fun _ => rfl

theorem keeps_get : Keeps f (Proc.get : Proc σ σ) := fun _ => rfl

theorem keeps_modify {g : σ → σ} {hg : ∀ s, s ≤ g s} (h : ∀ s, f (g s) = f s) :
    Keeps f (Proc.modify g hg) := h

theorem keeps_step {g : σ → σ × α} {hg : ∀ s, s ≤ (g s).1} (h : ∀ s, f (g s).1 = f s) :
    Keeps f (Proc.step g hg) := h

theorem keeps_assert (b : Bool) : Keeps f (Proc.assert b : Proc σ Unit) := fun _ => by
  cases b <;> rfl

/-- **Sequencing.** A run that ends in the first half has kept the value there. -/
theorem Keeps.bind {p : Proc σ β} {g : β → Proc σ α} (hp : Keeps f p) (hg : ∀ b, Keeps f (g b)) :
    Keeps f (p >>= g) := by
  intro s
  have hb : (p >>= g).run s = Proc.bindRun (p.run s) g := rfl
  rw [hb, Proc.bindRun]
  cases hr : (p.run s).result with
  | none => exact hp s
  | some b => exact (hg b _).trans (hp s)

theorem Keeps.ite {P : Prop} [Decidable P] {p q : Proc σ α} (hp : P → Keeps f p)
    (hq : ¬P → Keeps f q) : Keeps f (if P then p else q) := by
  split_ifs with h
  · exact hp h
  · exact hq h

/-- What a program keeps may be added to its postcondition. -/
theorem Sat.keeps {p : Proc σ α} (h : Sat A p s I Q) (hp : Keeps f p) :
    Sat A p s I fun a t => Q a t ∧ f t = f s := by
  refine ⟨h.1, fun hA => ?_⟩
  have hQ := h.2 hA
  cases hr : (p.run s).result with
  | none =>
    rw [hr] at hQ
    exact hQ
  | some a =>
    rw [hr] at hQ
    exact ⟨hQ, hp s⟩

end

/-! ### Outcomes -/

/-- **The outcome of a run**: the last state, and the result. -/
def Proc.outcome (p : Proc σ α) (s : σ) : σ × Option α := ((p.run s).final, (p.run s).result)

section

variable {f : β → Proc σ α}

/-- The second half goes on from the outcome of the first. -/
theorem outcome_bind {p : Proc σ β} {t : σ} {b : β} (h : p.outcome s = (t, some b)) :
    (p >>= f).outcome s = (f b).outcome t := by
  obtain ⟨hfinal, hresult⟩ := Prod.mk.inj h
  have hb : (p >>= f).run s = Proc.bindRun (p.run s) f := rfl
  rw [Proc.outcome, hb, Proc.bindRun, hresult, hfinal]
  rfl

theorem outcome_get_bind {f : σ → Proc σ α} : (Proc.get >>= f).outcome s = (f s).outcome s := rfl

theorem outcome_modify_bind {g : σ → σ} {hg : ∀ s, s ≤ g s} {f : Unit → Proc σ α} :
    (Proc.modify g hg >>= f).outcome s = (f ()).outcome (g s) := rfl

theorem outcome_assert_bind {b : Bool} {f : Unit → Proc σ α} (hb : b = true) :
    (Proc.assert b >>= f).outcome s = (f ()).outcome s := by
  rw [hb]
  rfl

end

/-! ### Total correctness -/

/-- **The run of `p` from `s` returns**, and `Q` holds where it does. -/
def Returns (p : Proc σ α) (s : σ) (Q : α → σ → Prop) : Prop :=
  (p.run s).result.elim False fun a => Q a (p.run s).final

@[simp] theorem returns_pure {a : α} : Returns (pure a : Proc σ α) s Q ↔ Q a s := Iff.rfl

@[simp] theorem returns_step {f : σ → σ × α} {hf : ∀ s, s ≤ (f s).1} :
    Returns (Proc.step f hf) s Q ↔ Q (f s).2 (f s).1 := Iff.rfl

@[simp] theorem returns_get {Q : σ → σ → Prop} : Returns Proc.get s Q ↔ Q s s := Iff.rfl

@[simp] theorem returns_modify {f : σ → σ} {hf : ∀ s, s ≤ f s} {Q : Unit → σ → Prop} :
    Returns (Proc.modify f hf) s Q ↔ Q () (f s) := Iff.rfl

@[simp] theorem returns_assert {b : Bool} {Q : Unit → σ → Prop} :
    Returns (Proc.assert b) s Q ↔ b = true ∧ Q () s := by
  cases b <;> simp [Proc.assert, Returns, Proc.abort, pure, Proc.pure]

/-- **Sequencing.** -/
@[simp] theorem returns_bind {p : Proc σ β} {f : β → Proc σ α} :
    Returns (p >>= f) s Q ↔ Returns p s fun b t => Returns (f b) t Q := by
  have hb : (p >>= f).run s = Proc.bindRun (p.run s) f := rfl
  rw [Returns, Returns, hb, Proc.bindRun]
  rcases (p.run s).result with _ | b
  · exact Iff.rfl
  · exact Iff.rfl

/-- **Consequence.** -/
theorem Returns.mono {p : Proc σ α} {Q' : α → σ → Prop} (h : Returns p s Q)
    (hQ : ∀ a t, s ≤ t → Q a t → Q' a t) : Returns p s Q' := by
  rw [Returns] at h ⊢
  rcases hr : (p.run s).result with _ | a
  · rw [hr] at h
    exact h
  · rw [hr] at h
    exact hQ a _ (p.le_final s) h

/-- **Sequencing through a specification** of the first half. -/
theorem Returns.seq {p : Proc σ β} {f : β → Proc σ α} {R : β → σ → Prop} (h : Returns p s R)
    (hf : ∀ b t, s ≤ t → R b t → Returns (f b) t Q) : Returns (p >>= f) s Q :=
  returns_bind.mpr (h.mono hf)

/-- Runs with the same outcome return alike. -/
theorem returns_congr {p q : Proc σ α} {t : σ} (h : p.outcome s = q.outcome t) :
    Returns p s Q ↔ Returns q t Q := by
  obtain ⟨hfinal, hresult⟩ := Prod.mk.inj h
  rw [Returns, Returns, hfinal, hresult]

/-- **Soundness.** -/
theorem Returns.result {p : Proc σ α} (h : Returns p s Q) :
    ∃ a, (p.run s).result = some a ∧ Q a (p.run s).final := by
  rw [Returns] at h
  rcases hr : (p.run s).result with _ | a
  · rw [hr] at h
    exact h.elim
  · rw [hr] at h
    exact ⟨a, rfl, h⟩

/-- Where a run returns, the last state is above the first. -/
theorem Returns.exists_le {p : Proc σ α} (h : Returns p s Q) : ∃ a t, s ≤ t ∧ Q a t := by
  obtain ⟨a, -, hQ⟩ := h.result
  exact ⟨a, _, p.le_final s, hQ⟩

end CrashLogic
