import LevelDb.Database
import Mathlib.Data.Set.Basic

/-!
# What a run leaves alone

Two things carry the proofs about opening and flushing: the part of the disk that a
stretch of a run cannot have touched, and the part of its calls that the statements
are about.

* `LevelDb.Disk.Off` says that two disks differ at most in the tables of a set of
  numbers. Building a table only touches its own number
  (`LevelDb.Disk.Off.setTable` and its companions).
* `LevelDb.taken` are the numbers that `NewFileNumber` has returned,
  `LevelDb.trail` the logs opened and the records inserted, `LevelDb.marks` the logs
  reopened for appending and the edits saved, all in order.
* `LevelDb.Frame w t` says that what happened between `w` and `t` touched no table
  but those whose number was taken in between. Where no number is taken twice, a
  table that was written before `w` is safe (`LevelDb.Frame.table_of_taken`).
-/

namespace LevelDb

/-! ### Disks that differ in some tables -/

section

variable {L : Logging} {d d' d'' : Disk} {S S' : Set ℕ} {n : ℕ}

/-- `d'` differs from `d` at most in the tables numbered in `S`. -/
structure Disk.Off (L : Logging) (S : Set ℕ) (d d' : Disk) : Prop where
  manifest : d'.manifest = d.manifest
  log : d'.log = d.log
  table : ∀ n ∉ S, d'.table n = d.table n
  has : ∀ type n, (type = .kTableFile → n ∉ S) → (d'.Has L type n ↔ d.Has L type n)

namespace Disk.Off

theorem refl (S : Set ℕ) (d : Disk) : d.Off L S d :=
  ⟨rfl, rfl, fun _ _ => rfl, fun _ _ _ => Iff.rfl⟩

theorem mono (h : d.Off L S d') (hS : S ⊆ S') : d.Off L S' d' :=
  ⟨h.manifest, h.log, fun n hn => h.table n fun hn' => hn (hS hn'),
    fun type n hn => h.has type n fun ht hn' => hn ht (hS hn')⟩

theorem trans (h : d.Off L S d') (h' : d'.Off L S d'') : d.Off L S d'' :=
  ⟨h'.manifest.trans h.manifest, h'.log.trans h.log,
    fun n hn => (h'.table n hn).trans (h.table n hn),
    fun type n hn => (h'.has type n hn).trans (h.has type n hn)⟩

end Disk.Off

/-- What exists after a file was created. -/
theorem Disk.has_create {type : FileType} {name : Bytes} :
    (d.create name).Has L type n ↔ d.Has L type n ∨ parseFileName L name = some (n, type) := by
  have hmem : ∀ x, x ∈ (d.create name).children ↔ x ∈ d.children ∨ x = name := by
    intro x
    rw [create]
    split_ifs with h
    · exact ⟨Or.inl, fun hx => hx.elim id fun hx => hx ▸ h⟩
    · simp
  constructor
  · rintro ⟨x, hx, hp⟩
    rcases (hmem x).mp hx with hx | rfl
    · exact Or.inl ⟨x, hx, hp⟩
    · exact Or.inr hp
  · rintro (⟨x, hx, hp⟩ | hp)
    · exact ⟨x, (hmem x).mpr (Or.inl hx), hp⟩
    · exact ⟨name, (hmem name).mpr (Or.inr rfl), hp⟩

/-- Deleting creates nothing. -/
theorem Disk.has_of_delete {type : FileType} {name : Bytes} (h : (d.delete L name).Has L type n) :
    d.Has L type n := by
  obtain ⟨x, hx, hp⟩ := h
  exact ⟨x, (List.mem_filter.mp hx).1, hp⟩

/-- A file of another number or type survives a deletion. -/
theorem Disk.has_delete {type : FileType} {name : Bytes}
    (hname : parseFileName L name ≠ some (n, type)) :
    (d.delete L name).Has L type n ↔ d.Has L type n := by
  refine ⟨has_of_delete, ?_⟩
  rintro ⟨x, hx, hp⟩
  refine ⟨x, List.mem_filter.mpr ⟨hx, ?_⟩, hp⟩
  simp only [ne_eq, decide_eq_true_eq]
  rintro rfl
  exact hname hp

/-- Deleting anything but the manifest and `CURRENT` leaves the commit alone. -/
theorem Disk.delete_manifest {name : Bytes} (hcur : name ≠ chars "CURRENT")
    (hdesc : ∀ m, d.manifest = some m → parseFileName L name ≠ some (m.number, .kDescriptorFile)) :
    (d.delete L name).manifest = d.manifest := by
  rcases hm : d.manifest with _ | m
  · simp [delete, hm]
  · simp [delete, hm, hcur, hdesc m hm]

namespace Disk.Off

theorem setTable (hn : n ∈ S) (entries : List Entry) : d.Off L S (d.setTable n entries) where
  manifest := rfl
  log := rfl
  table k hk := by
    have hne : k ≠ n := fun h => hk (h ▸ hn)
    exact Function.update_of_ne hne _ _
  has _ _ _ := Iff.rfl

theorem create (hL : L.Lawful) (hlt : n < 2 ^ 64) (hn : n ∈ S) :
    d.Off L S (d.create (tableFileName [] n)) where
  manifest := rfl
  log := rfl
  table _ _ := rfl
  has type k hk := by
    rw [has_create, parseFileName_tableFileName hL hlt, or_iff_left]
    rintro ⟨rfl, rfl⟩
    exact hk rfl hn

theorem delete (hL : L.Lawful) (hlt : n < 2 ^ 64) (hn : n ∈ S) :
    d.Off L S (d.delete L (tableFileName [] n)) where
  manifest := by
    refine delete_manifest ?_ fun m _ => ?_
    · intro h
      have hp := parseFileName_tableFileName hL hlt
      rw [h] at hp
      rw [parseFileName_current] at hp
      simp at hp
    · rw [parseFileName_tableFileName hL hlt]
      simp
  log := rfl
  table _ _ := rfl
  has type k hk := by
    refine has_delete ?_
    rw [parseFileName_tableFileName hL hlt]
    rintro ⟨rfl, rfl⟩
    exact hk rfl hn

end Disk.Off

end

/-! ### The calls that matter -/

/-- The numbers that `NewFileNumber` has returned. -/
def taken (calls : List (Call × Answer)) : List ℕ :=
  calls.filterMap fun
    | (.newFileNumber, a) => some a.number.toNat
    | _ => none

/-- A step of the recovery of logs. -/
inductive Step
  /-- The log was opened, or could not be. -/
  | opened (log : ℕ) (ok : Bool)
  /-- The record was passed to `InsertInto`. -/
  | inserted (log : ℕ) (record : Bytes)
  deriving DecidableEq, Repr

/-- The steps of recovery among the calls. -/
def trail (calls : List (Call × Answer)) : List Step :=
  calls.filterMap fun
    | (.newSequentialFile n, a) => some (.opened n a.status.isOk)
    | (.insertInto n record, _) => some (.inserted n record)
    | _ => none

/-- What opening a database does with the logs it has recovered. -/
inductive Mark
  /-- The log was reopened for appending. -/
  | reopened (log : ℕ)
  /-- The edit was passed to `LogAndApply`. -/
  | saved (edit : VersionEdit)
  deriving DecidableEq, Repr

/-- The marks among the calls. -/
def marks (calls : List (Call × Answer)) : List Mark :=
  calls.filterMap fun
    | (.newAppendableFile n, a) => if a.status.isOk then some (.reopened n) else none
    | (.logAndApply edit, _) => some (.saved edit)
    | _ => none

/-- The call shows in none of the three lists. -/
def Call.quiet : Call → Bool
  | newFileNumber => false
  | newSequentialFile _ => false
  | insertInto _ _ => false
  | newAppendableFile _ => false
  | logAndApply _ => false
  | _ => true

section

variable {calls calls' : List (Call × Answer)} {what : Call} {a : Answer}

@[simp] theorem taken_append : taken (calls ++ calls') = taken calls ++ taken calls' :=
  List.filterMap_append

@[simp] theorem trail_append : trail (calls ++ calls') = trail calls ++ trail calls' :=
  List.filterMap_append

@[simp] theorem marks_append : marks (calls ++ calls') = marks calls ++ marks calls' :=
  List.filterMap_append

theorem taken_quiet (h : what.quiet) : taken [(what, a)] = [] := by
  cases what <;> simp_all [Call.quiet, taken]

theorem trail_quiet (h : what.quiet) : trail [(what, a)] = [] := by
  cases what <;> simp_all [Call.quiet, trail]

theorem marks_quiet (h : what.quiet) : marks [(what, a)] = [] := by
  cases what <;> simp_all [Call.quiet, marks]

@[simp] theorem taken_newFileNumber : taken [(.newFileNumber, a)] = [a.number.toNat] := rfl

@[simp] theorem trail_newFileNumber : trail [(.newFileNumber, a)] = [] := rfl

@[simp] theorem marks_newFileNumber : marks [(.newFileNumber, a)] = [] := rfl

@[simp] theorem trail_logAndApply {edit : VersionEdit} : trail [(.logAndApply edit, a)] = [] := rfl

@[simp] theorem marks_logAndApply {edit : VersionEdit} :
    marks [(.logAndApply edit, a)] = [.saved edit] := rfl

theorem marks_newAppendableFile {n : ℕ} :
    marks [(.newAppendableFile n, a)] = if a.status.isOk then [.reopened n] else [] := by
  by_cases h : a.status.isOk <;> simp [marks, h]

@[simp] theorem trail_newSequentialFile {n : ℕ} :
    trail [(.newSequentialFile n, a)] = [.opened n a.status.isOk] := rfl

@[simp] theorem trail_insertInto {n : ℕ} {record : Bytes} :
    trail [(.insertInto n record, a)] = [.inserted n record] := rfl

end

/-- The numbers taken between two worlds. -/
def newly (w t : World) : Set ℕ := {n | n ∈ taken (t.calls.drop w.calls.length)}

section

variable {w t u : World} {n : ℕ}

/-- What was taken by the end was taken before, or in between. -/
theorem taken_eq_of_le (h : w ≤ t) :
    taken t.calls = taken w.calls ++ taken (t.calls.drop w.calls.length) := by
  obtain ⟨cs, hcs⟩ := h
  rw [← hcs, List.drop_left, taken_append]

theorem taken_mono (h : w ≤ t) : taken w.calls <+: taken t.calls := by
  rw [taken_eq_of_le h]
  exact List.prefix_append _ _

theorem mem_taken_of_newly (h : w ≤ t) (hn : n ∈ newly w t) : n ∈ taken t.calls := by
  rw [taken_eq_of_le h]
  exact List.mem_append_right _ hn

/-- Numbers are not taken twice. -/
theorem not_newly_of_taken (h : w ≤ t) (hnd : (taken t.calls).Nodup) (hn : n ∈ taken w.calls) :
    n ∉ newly w t := by
  rw [taken_eq_of_le h] at hnd
  exact fun hn' => (List.nodup_append.mp hnd).2.2 n hn n hn' rfl

theorem newly_trans (h : w ≤ t) (h' : t ≤ u) : newly w u = newly w t ∪ newly t u := by
  have hdrop : u.calls.drop w.calls.length =
      t.calls.drop w.calls.length ++ u.calls.drop t.calls.length := by
    obtain ⟨cs, hcs⟩ := h'
    rw [← hcs, List.drop_left, List.drop_append_of_le_length h.length_le]
  ext n
  simp only [newly, hdrop, taken_append, List.mem_append, Set.mem_union, Set.mem_ofPred_eq]

/-- The numbers taken after a call were taken before it, or by it. -/
theorem newly_after (h : w ≤ t) {what : Call} {a : Answer} {d : Disk} (hq : what.quiet) :
    newly w (t.after what a d) = newly w t := by
  rw [newly_trans h (t.le_after what a d)]
  simp [newly, taken_quiet hq]

end

/-! ### Frames -/

/-- Between `w` and `t`, only tables whose number was taken in between were touched. -/
structure Frame (L : Logging) (w t : World) : Prop where
  le : w ≤ t
  off : w.disk.Off L (newly w t) t.disk

namespace Frame

variable {L : Logging} {w t u : World} {n : ℕ}

theorem refl (w : World) : Frame L w w := ⟨le_rfl, .refl _ _⟩

theorem trans (h : Frame L w t) (h' : Frame L t u) : Frame L w u := by
  refine ⟨h.le.trans h'.le, ?_⟩
  rw [newly_trans h.le h'.le]
  exact (h.off.mono Set.subset_union_left).trans (h'.off.mono Set.subset_union_right)

/-- A call that leaves the disk alone. -/
theorem after (h : Frame L w t) (what : Call) (a : Answer) : Frame L w (t.after what a t.disk) :=
  h.trans ⟨t.le_after what a _, .refl _ _⟩

/-- A quiet call that touches a table whose number was taken. -/
theorem after_off (h : Frame L w t) {what : Call} {a : Answer} {d : Disk} (hq : what.quiet)
    (hd : t.disk.Off L (newly w t) d) : Frame L w (t.after what a d) := by
  refine ⟨h.le.trans (t.le_after what a d), ?_⟩
  rw [newly_after h.le hq]
  exact h.off.trans hd

/-- Changing the database object. -/
theorem modify (h : Frame L w t) (i : DBImpl) : Frame L w { t with impl := i } := ⟨h.le, h.off⟩

/-- A table whose number had been taken before is as it was. -/
theorem table_of_taken (h : Frame L w t) (hnd : (taken t.calls).Nodup) (hn : n ∈ taken w.calls) :
    t.disk.table n = w.disk.table n :=
  h.off.table n (not_newly_of_taken h.le hnd hn)

/-- A table whose number had been taken before still exists. -/
theorem has_of_taken (h : Frame L w t) (hnd : (taken t.calls).Nodup) (hn : n ∈ taken w.calls) :
    t.disk.Has L .kTableFile n ↔ w.disk.Has L .kTableFile n :=
  h.off.has _ n fun _ => not_newly_of_taken h.le hnd hn

/-- Logs are never touched. -/
theorem has_log (h : Frame L w t) : t.disk.Has L .kLogFile n ↔ w.disk.Has L .kLogFile n :=
  h.off.has _ n fun h => by simp at h

end Frame

/-- Besides building tables since `w`, nothing has happened since the database
object was `impl` and the calls were `calls`. -/
structure Untouched (L : Logging) (w : World) (impl : DBImpl) (calls : List (Call × Answer))
    (t : World) : Prop where
  frame : Frame L w t
  impl : t.impl = impl
  trail : trail t.calls = trail calls
  marks : marks t.calls = marks calls

/-- A quiet call that touches at most tables whose number was taken. -/
theorem Untouched.after {L : Logging} {w t : World} {impl : DBImpl} {calls : List (Call × Answer)}
    (h : Untouched L w impl calls t) {what : Call} {a : Answer} {d : Disk} (hq : what.quiet)
    (hd : t.disk.Off L (newly w t) d) : Untouched L w impl calls (t.after what a d) where
  frame := h.frame.after_off hq hd
  impl := h.impl
  trail := by rw [World.after_calls, trail_append, trail_quiet hq, List.append_nil, h.trail]
  marks := by rw [World.after_calls, marks_append, marks_quiet hq, List.append_nil, h.marks]

end LevelDb
