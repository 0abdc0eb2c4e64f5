import Mathlib.Data.List.Basic
import Mathlib.Tactic.Common

/-!
# Transition systems

A system of several parties is a partial step function over a state and the action
taken (`Transition.System`); the interleavings of the parties are the sequences of
actions. What holds of every reachable state is proved once, by induction on the
run, from what a single step preserves (`Transition.Reachable.invariant`); what
holds of the runs whose steps all meet a guard is the same statement about the
system restricted to it (`Transition.System.guard`). Where a step that does not meet the
guard shows at once, the runs whose steps are all as they should be are exactly those of
the restricted system (`Transition.System.along_iff_guard`). Where what happens is paid for by
a measure, it happens no more often than that (`Transition.System.countP_add_le`).

A machine whose actions may have no result is run along with what they mean
(`Transition.paired`): that it represents the meaning step by step is enough for it never to
get stuck (`Transition.paired_holds`).
-/

namespace Transition

variable {σ α : Type}

/-- **A transition system**: initial states, and the state that an action leads to
where it is possible. -/
structure System (σ α : Type) where
  init : σ → Prop
  step : σ → α → Option σ

namespace System

variable (S : System σ α)

/-- Take the actions of a list, in order. -/
def run (s : σ) : List α → Option σ
  | [] => some s
  | a :: as => (S.step s a).bind fun t => run t as

/-- The state `t` is reached from `s`. -/
inductive Steps (s : σ) : σ → Prop
  | refl : Steps s s
  | step {t u : σ} {a : α} : Steps s t → S.step t a = some u → Steps s u

/-- The state is reached from an initial one. -/
def Reachable (t : σ) : Prop := ∃ s, S.init s ∧ S.Steps s t

/-- The system that only takes the steps a guard allows. -/
def guard (G : σ → α → Prop) [∀ s a, Decidable (G s a)] : System σ α where
  init := S.init
  step s a := if G s a then S.step s a else none

variable {S}

theorem Steps.trans {s t u : σ} (h : S.Steps s t) (h' : S.Steps t u) : S.Steps s u := by
  induction h' with
  | refl => exact h
  | step _ hstep ih => exact ih.step hstep

/-- **Induction on runs**: what every step preserves holds all along a run. -/
theorem Steps.invariant {P : σ → Prop} (hstep : ∀ s a t, P s → S.step s a = some t → P t)
    {s t : σ} (h : S.Steps s t) (hs : P s) : P t := by
  induction h with
  | refl => exact hs
  | step _ hst ih => exact hstep _ _ _ ih hst

/-- **The invariant rule**: what holds initially and is preserved by every step
holds of every reachable state. -/
theorem Reachable.invariant {P : σ → Prop} (hinit : ∀ s, S.init s → P s)
    (hstep : ∀ s a t, P s → S.step s a = some t → P t) {t : σ} (h : S.Reachable t) : P t := by
  obtain ⟨s, hs, hst⟩ := h
  exact hst.invariant hstep (hinit s hs)

theorem Reachable.steps {s t : σ} (h : S.Reachable s) (h' : S.Steps s t) : S.Reachable t := by
  obtain ⟨r, hr, hrs⟩ := h
  exact ⟨r, hr, hrs.trans h'⟩

/-- A list of actions that can be taken is a run. -/
theorem steps_of_run {s t : σ} : ∀ {as : List α}, S.run s as = some t → S.Steps s t
  | [], h => by
    obtain rfl : s = t := by simpa [run] using h
    exact .refl
  | a :: as, h => by
    obtain ⟨u, hu, hrun⟩ := Option.bind_eq_some_iff.mp h
    exact (Steps.refl.step hu).trans (steps_of_run hrun)

/-- A guarded step is a step that the guard allows. -/
theorem guard_step {G : σ → α → Prop} [∀ s a, Decidable (G s a)] {s t : σ} {a : α} :
    (S.guard G).step s a = some t ↔ G s a ∧ S.step s a = some t := by
  simp only [guard]
  split_ifs with h <;> simp [h]

/-- Every step of the run that takes these actions, in order, satisfies `P`. -/
def along (S : System σ α) (P : σ → α → σ → Prop) (s : σ) : List α → Prop
  | [] => True
  | a :: as => ∀ t, S.step s a = some t → P s a t ∧ S.along P t as

/-- **The exact guard**: where a step from a state that satisfies `I` satisfies `P` if it
meets the guard, and only then, and `I` again if it does, the runs all of whose steps
satisfy `P` are the runs of the guarded system. -/
theorem along_iff_guard {G : σ → α → Prop} [∀ s a, Decidable (G s a)] {P : σ → α → σ → Prop}
    {I : σ → Prop}
    (hgood : ∀ s a t, I s → S.step s a = some t → G s a → I t ∧ P s a t)
    (hbad : ∀ s a t, I s → S.step s a = some t → ¬G s a → ¬P s a t) {as : List α} {s t : σ}
    (hs : I s) (hrun : S.run s as = some t) :
    S.along P s as ↔ (S.guard G).run s as = some t := by
  induction as generalizing s with
  | nil => exact iff_of_true trivial hrun
  | cons a as ih =>
    obtain ⟨u, hu, hrun⟩ := Option.bind_eq_some_iff.mp hrun
    by_cases hG : G s a
    · have hguard : (S.guard G).step s a = some u := guard_step.mpr ⟨hG, hu⟩
      obtain ⟨hIu, hP⟩ := hgood s a u hs hu hG
      rw [run, hguard, Option.bind_some, ← ih hIu hrun]
      refine ⟨fun h => (h u hu).2, fun h v hv => ?_⟩
      obtain rfl := Option.some.inj (hu.symm.trans hv)
      exact ⟨hP, h⟩
    · refine iff_of_false (fun h => hbad s a u hs hu hG (h u hu).1) fun h => hG ?_
      obtain ⟨v, hv, -⟩ := Option.bind_eq_some_iff.mp h
      exact (guard_step.mp hv).1

/-- What every step satisfies holds along every run. -/
theorem along_of_forall {P : σ → α → σ → Prop} (h : ∀ s a t, P s a t) :
    ∀ (s : σ) (as : List α), S.along P s as
  | _, [] => trivial
  | s, a :: as => fun t _ => ⟨h s a t, along_of_forall h t as⟩

/-- **A bound on the counted actions** of a run whose steps all satisfy `P`: where such a step
keeps `I` and does not raise the measure, and a counted one lowers it, the counted actions are
paid for by what the measure was at first. -/
theorem countP_add_le {I : σ → Prop} {P : σ → α → σ → Prop} {φ : σ → ℕ} {c : α → Bool}
    (hstep : ∀ s a t, I s → S.step s a = some t → P s a t →
      I t ∧ φ t ≤ φ s ∧ (c a = true → φ t < φ s))
    {as : List α} {s t : σ} (hs : I s) (hrun : S.run s as = some t) (halong : S.along P s as) :
    as.countP c + φ t ≤ φ s := by
  induction as generalizing s with
  | nil =>
    obtain rfl : s = t := by simpa [run] using hrun
    exact Nat.le_of_eq (Nat.zero_add _)
  | cons a as ih =>
    obtain ⟨u, hu, hrun⟩ := Option.bind_eq_some_iff.mp hrun
    obtain ⟨hP, halong⟩ := halong u hu
    obtain ⟨hIu, hle, hlt⟩ := hstep s a u hs hu hP
    have hrest := ih hIu hrun halong
    rw [List.countP_cons]
    split_ifs with hc
    · have := hlt hc
      omega
    · omega

end System

/-! ### A machine and its meaning -/

section Paired

variable {μ ν : Type} {step : μ → α → Option μ} {value : ν → α → Option ν} {G : μ → α → Prop}
  [∀ m a, Decidable (G m a)] {m₀ : μ} {v₀ : ν}

/-- **A machine runs along with its meaning**: the meaning says which actions a program takes,
the guard what surrounds it may choose. The machine is gone once an action had no result. -/
def paired (step : μ → α → Option μ) (value : ν → α → Option ν) (G : μ → α → Prop)
    [∀ m a, Decidable (G m a)] (m₀ : μ) (v₀ : ν) : System (Option μ × ν) α where
  init x := x = (some m₀, v₀)
  step x a :=
    if ∀ m ∈ x.1, G m a then (value x.2 a).map fun v => (x.1.bind (step · a), v) else none

theorem paired_step {x y : Option μ × ν} {a : α}
    (h : (paired step value G m₀ v₀).step x a = some y) :
    (∀ m ∈ x.1, G m a) ∧ value x.2 a = some y.2 ∧ y.1 = x.1.bind (step · a) := by
  have h : (if ∀ m ∈ x.1, G m a then
      (value x.2 a).map fun v => (x.1.bind (step · a), v) else none) = some y := h
  split_ifs at h with ha
  obtain ⟨v, hv, rfl⟩ := Option.map_eq_some_iff.mp h
  exact ⟨ha, hv, rfl⟩

/-- **The machine keeps up**: where a step of the meaning is one of the machine, and leads to
what represents it again, the machine is there after every run. -/
theorem paired_holds {R : μ → ν → Prop} (hinit : R m₀ v₀)
    (hstep : ∀ m v a v', R m v → G m a → value v a = some v' →
      ∃ m', step m a = some m' ∧ R m' v') {x : Option μ} {v : ν}
    (h : (paired step value G m₀ v₀).Reachable (x, v)) : ∃ m, x = some m ∧ R m v := by
  refine h.invariant (P := fun x => ∃ m, x.1 = some m ∧ R m x.2) ?_ ?_
  · rintro _ rfl
    exact ⟨m₀, rfl, hinit⟩
  · rintro ⟨_, v⟩ a ⟨y, v'⟩ ⟨m, rfl, hm⟩ h
    obtain ⟨ha, hv, rfl⟩ := paired_step h
    exact hstep m v a v' hm (ha m rfl) hv

end Paired

end Transition
