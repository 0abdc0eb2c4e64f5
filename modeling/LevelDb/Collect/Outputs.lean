import LevelDb.Logic.Transition
import LevelDb.Table
import Mathlib.Data.List.Perm.Basic

/-!
# The outputs that are still being built

A table file that is being built is in no version yet. What keeps it from being deleted
as obsolete is `pending_outputs_`: `DBImpl::WriteLevel10Table` and
`DBImpl::OpenCompactionOutputFile` enter the number before the file is made, and the
number is erased when the build ends, or in `DBImpl::CleanupCompaction`.

The builds that are under way, any number of them at once, are a transition system
(`LevelDb.Builds.system`) whose actions are the sections of these three functions that
run under `mutex_`, and the making of an output file, which does not. `DoCompactionWork`
is not in the repository: what it does to the file and the builder of its compaction is
part of the action taken. In every reachable state the pending outputs are exactly the
numbers whose build has not ended (`LevelDb.Builds.mem_pendingOutputs`).
-/

namespace LevelDb

open CrashLogic Transition

/-! ### The code -/

/-- `DBImpl::CompactionState`, as far as its files go. -/
structure CompactionState where
  /-- The numbers of the outputs. -/
  outputs : List ℕ := []
  /-- Whether `outfile` is set. -/
  outfile : Bool := false
  /-- Whether `builder` is set. -/
  builder : Bool := false
  /-- `OpenCompactionOutputFile` has entered its output, and is about to make the file. -/
  opening : Bool := false
  deriving DecidableEq, Repr

/-- **The builds under way**, and the numbers that protect them. -/
structure Builds where
  /-- The numbers that `NewFileNumber` has returned. -/
  taken : List ℕ := []
  pendingOutputs : List ℕ := []
  /-- The numbers of the calls of `WriteLevel10Table` that are in `BuildTable`. -/
  tables : List ℕ := []
  /-- The compactions in `DoCompactionWork`. -/
  compactions : List CompactionState := []
  deriving DecidableEq, Repr

namespace Builds

/-- A section of a build, with the number that `NewFileNumber` returns in it. -/
inductive Action
  /-- `WriteLevel10Table`, up to where it releases `mutex_`. -/
  | writeLevel10Table (number : ℕ)
  /-- `WriteLevel10Table`, from where it has `mutex_` again. -/
  | builtTable (k : ℕ)
  /-- A compaction starts. -/
  | newCompactionState
  /-- `OpenCompactionOutputFile`, up to where it releases `mutex_`. -/
  | openCompactionOutputFile (k number : ℕ)
  /-- The rest of `OpenCompactionOutputFile`. -/
  | newWritableFile (k : ℕ) (status : Status)
  /-- `DoCompactionWork` goes on with its output file. -/
  | doCompactionWork (k : ℕ) (outfile builder : Bool)
  | cleanupCompaction (k : ℕ)
  deriving DecidableEq, Repr

/-- The sections. `NewFileNumber` returns no number twice, and a section whose assertion
fails leads nowhere. -/
def step (s : Builds) : Action → Option Builds
  | .writeLevel10Table number =>
    if number ∈ s.taken then none
    -- the number is protected before `BuildTable` makes the file
    else some { s with
      taken := number :: s.taken
      pendingOutputs := number :: s.pendingOutputs
      tables := s.tables ++ [number] }
  | .builtTable k => (s.tables[k]?).map fun number =>
    { s with
      pendingOutputs := s.pendingOutputs.filter (· ≠ number)
      tables := s.tables.eraseIdx k }
  | .newCompactionState => some { s with compactions := s.compactions ++ [{}] }
  | .openCompactionOutputFile k number => (s.compactions[k]?).bind fun compact =>
    -- `assert(compact->builder == NULL)`
    if number ∈ s.taken ∨ compact.opening ∨ compact.builder then none
    else some { s with
      taken := number :: s.taken
      pendingOutputs := number :: s.pendingOutputs
      compactions := s.compactions.set k
        { compact with outputs := compact.outputs ++ [number], opening := true } }
  | .newWritableFile k status => (s.compactions[k]?).bind fun compact =>
    -- an output whose file could not be made stays in the list
    if compact.opening then
      some { s with
        compactions := s.compactions.set k
          { compact with opening := false, outfile := status.isOk, builder := status.isOk } }
    else none
  | .doCompactionWork k outfile builder => (s.compactions[k]?).bind fun compact =>
    if compact.opening then none
    else some { s with
      compactions := s.compactions.set k { compact with outfile := outfile, builder := builder } }
  | .cleanupCompaction k => (s.compactions[k]?).bind fun compact =>
    -- `assert(compact->outfile == NULL)`, where there is no builder
    if compact.opening ∨ (compact.builder = false ∧ compact.outfile) then none
    else some { s with
      pendingOutputs := s.pendingOutputs.filter (· ∉ compact.outputs)
      compactions := s.compactions.eraseIdx k }

/-- **The system** of all the builds. No build is under way initially. -/
def system : System Builds Action where
  init s := ∃ taken, s = { taken := taken }
  step := step

/-- The numbers whose build has not ended. -/
def building (s : Builds) : List ℕ := s.tables ++ s.compactions.flatMap CompactionState.outputs

/-! ### What is protected -/

/-- **The builds are protected**: the numbers are taken and distinct, and they are the
pending outputs. -/
structure Protected (s : Builds) : Prop where
  nodup : s.building.Nodup
  taken : ∀ n ∈ s.building, n ∈ s.taken
  pending : ∀ n, n ∈ s.pendingOutputs ↔ n ∈ s.building

variable {s t : Builds} {n k : ℕ}

/-- A build starts, under a number that was not taken. -/
theorem Protected.start (h : Protected s) (hn : n ∉ s.taken)
    (hb : t.building.Perm (n :: s.building)) (hp : t.pendingOutputs = n :: s.pendingOutputs)
    (ht : t.taken = n :: s.taken) : Protected t where
  nodup := hb.nodup_iff.mpr (List.nodup_cons.mpr ⟨fun hmem => hn (h.taken n hmem), h.nodup⟩)
  taken x hx := by
    rw [ht]
    rcases List.mem_cons.mp (hb.mem_iff.mp hx) with rfl | hx
    · exact List.mem_cons_self
    · exact List.mem_cons_of_mem _ (h.taken x hx)
  pending x := by rw [hp, hb.mem_iff, List.mem_cons, List.mem_cons, h.pending]

/-- Builds end. -/
theorem Protected.stop (h : Protected s) (ended : List ℕ)
    (hb : s.building.Perm (ended ++ t.building))
    (hp : ∀ n, n ∈ t.pendingOutputs ↔ n ∈ s.pendingOutputs ∧ n ∉ ended)
    (ht : t.taken = s.taken) : Protected t := by
  have hnd := List.nodup_append.mp (hb.nodup_iff.mp h.nodup)
  refine ⟨hnd.2.1, fun x hx => ?_, fun x => ?_⟩
  · rw [ht]
    exact h.taken x (hb.mem_iff.mpr (List.mem_append_right _ hx))
  · rw [hp, h.pending, hb.mem_iff, List.mem_append]
    constructor
    · rintro ⟨hx, hne⟩
      exact hx.resolve_left hne
    · exact fun hx => ⟨Or.inr hx, fun hx' => hnd.2.2 x hx' x hx rfl⟩

/-- No build starts or ends. -/
theorem Protected.congr (h : Protected s) (hb : t.building.Perm s.building)
    (hp : t.pendingOutputs = s.pendingOutputs) (ht : t.taken = s.taken) : Protected t where
  nodup := hb.nodup_iff.mpr h.nodup
  taken x hx := by
    rw [ht]
    exact h.taken x (hb.mem_iff.mp hx)
  pending x := by rw [hp, h.pending, hb.mem_iff]

/-- The numbers of all the builds but those of one compaction. -/
def others (s : Builds) (k : ℕ) : List ℕ :=
  s.tables ++ (s.compactions.eraseIdx k).flatMap CompactionState.outputs

theorem building_perm {compact : CompactionState} (hk : s.compactions[k]? = some compact) :
    s.building.Perm (compact.outputs ++ s.others k) := by
  obtain ⟨hlt, rfl⟩ := List.getElem?_eq_some_iff.mp hk
  have hperm := (List.getElem_cons_eraseIdx_perm hlt).symm.flatMap_right CompactionState.outputs
  refine (hperm.append_left s.tables).trans ?_
  rw [List.flatMap_cons, others, ← List.append_assoc, ← List.append_assoc]
  exact List.perm_append_comm.append_right _

theorem building_set_perm (hk : k < s.compactions.length) (compact : CompactionState)
    {taken pending : List ℕ} :
    (Builds.building ⟨taken, pending, s.tables, s.compactions.set k compact⟩).Perm
      (compact.outputs ++ s.others k) := by
  have hperm := (List.set_perm_cons_eraseIdx hk compact).flatMap_right CompactionState.outputs
  refine (hperm.append_left s.tables).trans ?_
  rw [List.flatMap_cons, others, ← List.append_assoc, ← List.append_assoc]
  exact List.perm_append_comm.append_right _

/-- A compaction goes on, and has the outputs that it had. -/
theorem building_goOn {compact compact' : CompactionState}
    (hk : s.compactions[k]? = some compact) (h : compact'.outputs = compact.outputs)
    {taken pending : List ℕ} :
    (Builds.building ⟨taken, pending, s.tables, s.compactions.set k compact'⟩).Perm
      s.building := by
  refine (building_set_perm (List.getElem?_eq_some_iff.mp hk).1 compact').trans ?_
  rw [h]
  exact (building_perm hk).symm

/-- **Every section** leaves the builds protected. -/
theorem Protected.step {a : Action} (h : Protected s) (hstep : system.step s a = some t) :
    Protected t := by
  have hstep : s.step a = some t := hstep
  cases a with
  | writeLevel10Table number =>
    rw [Builds.step] at hstep
    split_ifs at hstep with hn
    obtain rfl := Option.some.inj hstep
    refine h.start hn ?_ rfl rfl
    -- the new build is the last of the tables
    rw [building, List.append_assoc]
    exact List.perm_middle
  | builtTable k =>
    obtain ⟨number, hk, rfl⟩ := Option.map_eq_some_iff.mp hstep
    obtain ⟨hlt, rfl⟩ := List.getElem?_eq_some_iff.mp hk
    refine h.stop [s.tables[k]] ?_ (fun x => ?_) rfl
    · exact (List.getElem_cons_eraseIdx_perm hlt).symm.append_right _
    · simp [List.mem_filter]
  | newCompactionState =>
    obtain rfl := Option.some.inj hstep
    refine h.congr ?_ rfl rfl
    simp [building]
  | openCompactionOutputFile k number =>
    obtain ⟨compact, hk, hstep⟩ := Option.bind_eq_some_iff.mp hstep
    split_ifs at hstep with hn
    obtain rfl := Option.some.inj hstep
    refine h.start (fun hmem => hn (Or.inl hmem)) ?_ rfl rfl
    refine (building_set_perm (List.getElem?_eq_some_iff.mp hk).1 _).trans ?_
    refine List.Perm.trans ?_ ((building_perm hk).symm.cons number)
    rw [List.append_assoc]
    exact List.perm_middle
  | newWritableFile k status =>
    obtain ⟨compact, hk, hstep⟩ := Option.bind_eq_some_iff.mp hstep
    split_ifs at hstep
    obtain rfl := Option.some.inj hstep
    exact h.congr (building_goOn hk (by rfl)) rfl rfl
  | doCompactionWork k outfile builder =>
    obtain ⟨compact, hk, hstep⟩ := Option.bind_eq_some_iff.mp hstep
    split_ifs at hstep
    obtain rfl := Option.some.inj hstep
    exact h.congr (building_goOn hk (by rfl)) rfl rfl
  | cleanupCompaction k =>
    obtain ⟨compact, hk, hstep⟩ := Option.bind_eq_some_iff.mp hstep
    split_ifs at hstep
    obtain rfl := Option.some.inj hstep
    exact h.stop _ (building_perm hk) (fun x => by simp [List.mem_filter]) rfl

theorem Protected.of_reachable (h : system.Reachable s) : Protected s := by
  refine h.invariant ?_ fun _ _ _ h hstep => h.step hstep
  rintro _ ⟨taken, rfl⟩
  exact ⟨List.nodup_nil, fun _ h => absurd h List.not_mem_nil, fun _ => Iff.rfl⟩

/-- **The pending outputs** are the numbers whose build has not ended. -/
theorem mem_pendingOutputs (h : system.Reachable s) : n ∈ s.pendingOutputs ↔ n ∈ s.building :=
  (Protected.of_reachable h).pending n

/-! ### Writing a table -/

/-- **A call of `WriteLevel10Table`** on its way, from the builds `s`: it has not made its
file yet, its build is under way, or its build has ended. -/
inductive Writing (s : Builds) (w t : World) : Prop
  | ready : t.disk = w.disk → t.impl.pendingOutputs = s.pendingOutputs → Writing s w t
  | building {n : ℕ} {u : Builds} : n ∈ newly w t →
      system.step s (.writeLevel10Table n) = some u →
      t.impl.pendingOutputs = u.pendingOutputs → Writing s w t
  | ended {n : ℕ} {u v : Builds} : system.step s (.writeLevel10Table n) = some u →
      system.step u (.builtTable s.tables.length) = some v →
      t.impl.pendingOutputs = v.pendingOutputs → Writing s w t

/-- **The code takes these steps**: the number is entered before the table is made, and
erased when its build ends. -/
theorem writeLevel10Table_writing {c : Context} {A : LowerSet World} {w : World}
    (hX : c.X.Lawful) (hs : w.impl.pendingOutputs = s.pendingOutputs)
    (hfresh : ∀ t ∈ A, ∀ n ∈ newly w t, n ∉ s.taken) {mem : MemTable} {edit : VersionEdit}
    {base : Bool} :
    Sat A (writeLevel10Table c mem edit base) w (Writing s w) fun _ t => Writing s w t := by
  rw [writeLevel10Table, sat_bind, newFileNumber, sat_bind]
  refine sat_call (fun _ => .ready rfl hs) fun a _ => ?_
  rw [sat_pure, sat_bind, sat_modifyImpl]
  intro _ hA
  generalize ht : ({ (w.after .newFileNumber a w.disk) with impl := _ } : World) = t at hA ⊢
  have hwt : w ≤ t := ht ▸ w.le_after .newFileNumber a w.disk
  have hn : a.number.toNat ∈ newly w t := by
    subst ht
    simp [newly]
  have hp : t.impl.pendingOutputs = a.number.toNat :: s.pendingOutputs := by
    subst ht
    exact congrArg _ hs
  have hstep : system.step s (.writeLevel10Table a.number.toNat) = some _ :=
    if_neg (hfresh t hA _ hn)
  have hu : Untouched c.X.logging w t.impl t.calls t :=
    ⟨ht ▸ ((Frame.refl w).after .newFileNumber a).modify _, rfl, rfl, rfl⟩
  -- all the way through `BuildTable` the number is a pending output
  refine (buildTable_sat { number := a.number.toNat } hX.logging
    (UInt64.toNat_lt a.number) hu hn).seq (fun x htx _ h => ?_) ?_
  · refine .building ?_ hstep ((congrArg DBImpl.pendingOutputs h.impl).trans hp)
    rw [newly_trans hwt htx]
    exact Or.inl hn
  rintro ⟨status, file⟩ x - - ⟨hu, hnum, -⟩
  have hended : ∀ {y : World}, y.impl.pendingOutputs =
      x.impl.pendingOutputs.filter (· ≠ file.number) → Writing s w y := by
    intro y hy
    have hk : (s.tables ++ [a.number.toNat])[s.tables.length]? = some a.number.toNat :=
      List.getElem?_concat_length
    refine .ended hstep (Option.map_eq_some_iff.mpr ⟨_, hk, rfl⟩) ?_
    rw [hy, hu.impl, hp, show file.number = a.number.toNat from hnum]
  rw [sat_bind, sat_modifyImpl]
  intro _
  split_ifs
  · rw [sat_bind]
    exact sat_call (fun _ => hended rfl) fun b _ => sat_pure.mpr fun _ => hended rfl
  · exact sat_pure.mpr fun _ => hended rfl
  · exact sat_pure.mpr fun _ => hended rfl

end Builds

end LevelDb
