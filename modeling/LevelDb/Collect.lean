import LevelDb.Recover.Replay

/-!
# Recoverable entries, and the deletion of obsolete files

`LevelDb.Recoverable` is what a database is for: an entry is recoverable from a disk
when it is in a live table that exists, or in an existing log that recovery would
select. It survives every change that spares the live tables and the selected logs
(`LevelDb.Disk.Spares.recoverable`).

`DBImpl::DeleteObsoleteFiles` decides by the numbers that the version set holds, not
by the committed manifest. Where the two agree (`LevelDb.Agrees`), it spares
everything that recoverable entries depend on, whatever the directory holds and
whichever deletions fail (`LevelDb.deleteObsoleteFiles_sat`).
-/

namespace LevelDb

open CrashLogic

/-! ### The code -/

/-- Whether `DeleteObsoleteFiles` keeps a file. -/
def keep (v : VersionSet) (live : List ℕ) (number : ℕ) : FileType → Bool
  | .kLogFile => v.logNumber ≤ number || number == v.prevLogNumber
  | .kDescriptorFile => v.manifestFileNumber ≤ number
  | .kTableFile => number ∈ live
  | .kTempFile => number ∈ live
  | .kCurrentFile | .kDBLockFile | .kInfoLogFile => true

variable (c : Context)

/-- The loop of `DeleteObsoleteFiles`. -/
def deleteFiles (v : VersionSet) (live : List ℕ) : List Bytes → Prog Unit
  | [] => pure ()
  | name :: filenames =>
    match parseFileName c.X.logging name with
    | some (number, type) =>
      if keep v live number type then deleteFiles v live filenames
      else do
        deleteFile c name
        deleteFiles v live filenames
    | none => deleteFiles v live filenames

/-- `DBImpl::DeleteObsoleteFiles`. -/
def deleteObsoleteFiles : Prog Unit := do
  let w ← Proc.get
  if w.impl.bgError.isOk then do
    -- the errors of `GetChildren` are ignored on purpose
    let (_, filenames) ← getChildren c
    deleteFiles c w.impl.versions (w.impl.pendingOutputs ++ w.impl.versions.live) filenames
  else pure ()

/-! ### Recoverable entries -/

/-- The manifest selects the log for recovery. -/
def Manifest.Selects (m : Manifest) (log : ℕ) : Prop := m.logNumber ≤ log ∨ log = m.prevLogNumber

instance (m : Manifest) (log : ℕ) : Decidable (m.Selects log) := by
  unfold Manifest.Selects
  infer_instance

/-- The entries in a log: those of its records that are large enough. -/
def Disk.logEntries (C : Coding) (d : Disk) (log : ℕ) : List Entry :=
  recordEntries C (longRecords (d.log log))

/-- **The entry is recoverable**: it is in a live table that exists, or in an existing
log that the manifest selects. -/
def Recoverable (X : Externals) (d : Disk) (e : Entry) : Prop :=
  ∃ m, d.manifest = some m ∧
    ((∃ n ∈ m.live, d.Has X.logging .kTableFile n ∧ e ∈ d.table n) ∨
      ∃ n, m.Selects n ∧ d.Has X.logging .kLogFile n ∧ e ∈ d.logEntries X.coding n)

/-- `d'` has the manifest and the files in `K` as `d` has them. -/
structure Disk.Spares (L : Logging) (K : FileType → ℕ → Prop) (d d' : Disk) : Prop where
  manifest : d'.manifest = d.manifest
  log : ∀ n, K .kLogFile n → d'.log n = d.log n
  table : ∀ n, K .kTableFile n → d'.table n = d.table n
  has : ∀ type n, K type n → (d'.Has L type n ↔ d.Has L type n)

section

variable {c} {A : LowerSet World} {w t : World} {d d' d'' : Disk} {L : Logging}
  {K K' : FileType → ℕ → Prop} {e : Entry} {X : Externals}

namespace Disk.Spares

theorem refl (K : FileType → ℕ → Prop) (d : Disk) : d.Spares L K d :=
  ⟨rfl, fun _ _ => rfl, fun _ _ => rfl, fun _ _ _ => Iff.rfl⟩

theorem trans (h : d.Spares L K d') (h' : d'.Spares L K d'') : d.Spares L K d'' :=
  ⟨h'.manifest.trans h.manifest, fun n hn => (h'.log n hn).trans (h.log n hn),
    fun n hn => (h'.table n hn).trans (h.table n hn),
    fun type n hn => (h'.has type n hn).trans (h.has type n hn)⟩

/-- Tables under other numbers are spared. -/
theorem of_off {S : Set ℕ} (h : d.Off L S d') (hK : ∀ n, K .kTableFile n → n ∉ S) :
    d.Spares L K d' where
  manifest := h.manifest
  log n _ := by rw [h.log]
  table n hn := h.table n (hK n hn)
  has type n hn := h.has type n fun ht => hK n (ht ▸ hn)

end Disk.Spares

/-- The files that recoverable entries depend on. -/
def Manifest.Needs (m : Manifest) : FileType → ℕ → Prop
  | .kTableFile, n => n ∈ m.live
  | .kLogFile, n => m.Selects n
  | _, _ => False

/-- **Recoverable entries survive** whatever spares the files they depend on. -/
theorem Disk.Spares.recoverable {m : Manifest} (hm : d.manifest = some m)
    (h : d.Spares X.logging K d')
    (hK : ∀ type n, m.Needs type n → d.Has X.logging type n → K type n)
    (he : Recoverable X d e) : Recoverable X d' e := by
  obtain ⟨m', hm', he⟩ := he
  obtain rfl : m = m' := Option.some.inj (hm.symm.trans hm')
  refine ⟨m, h.manifest.trans hm, ?_⟩
  rcases he with ⟨n, hn, hhas, he⟩ | ⟨n, hn, hhas, he⟩
  · have hk := hK .kTableFile n hn hhas
    exact Or.inl ⟨n, hn, (h.has _ n hk).mpr hhas, by rwa [h.table n hk]⟩
  · have hk := hK .kLogFile n hn hhas
    refine Or.inr ⟨n, hn, (h.has _ n hk).mpr hhas, ?_⟩
    rwa [Disk.logEntries, h.log n hk]

/-! ### What the deletion spares -/

/-- The version set agrees with the committed manifest. -/
structure Agrees (v : VersionSet) (m : Manifest) : Prop where
  logNumber : v.logNumber = m.logNumber
  prevLogNumber : v.prevLogNumber = m.prevLogNumber
  manifestFileNumber : v.manifestFileNumber = m.number
  live : v.live = m.live

/-- The files that `DeleteObsoleteFiles` keeps. -/
def Kept (v : VersionSet) (live : List ℕ) (type : FileType) (n : ℕ) : Prop :=
  keep v live n type = true

/-- Files were deleted, but not the kept ones; nothing else happened. -/
structure Collected (L : Logging) (v : VersionSet) (live : List ℕ) (w t : World) : Prop where
  le : w ≤ t
  spares : w.disk.Spares L (Kept v live) t.disk
  has_of : ∀ type n, t.disk.Has L type n → w.disk.Has L type n
  impl : t.impl = w.impl
  trail : trail t.calls = trail w.calls
  marks : marks t.calls = marks w.calls

theorem Collected.refl (v : VersionSet) (live : List ℕ) (w : World) :
    Collected L v live w w :=
  ⟨le_rfl, .refl _ _, fun _ _ h => h, rfl, rfl, rfl⟩

theorem Collected.after {v : VersionSet} {live : List ℕ} (h : Collected L v live w t)
    {what : Call} {a : Answer} (hq : what.quiet) (hd : t.disk.Spares L (Kept v live) d)
    (hhas : ∀ type n, d.Has L type n → t.disk.Has L type n) :
    Collected L v live w (t.after what a d) where
  le := h.le.trans (t.le_after what a d)
  spares := h.spares.trans hd
  has_of type n hn := h.has_of type n (hhas type n hn)
  impl := h.impl
  trail := by rw [World.after_calls, trail_append, trail_quiet hq, List.append_nil, h.trail]
  marks := by rw [World.after_calls, marks_append, marks_quiet hq, List.append_nil, h.marks]

/-- Deleting a file that is not kept spares those that are. -/
theorem Disk.Spares.delete {v : VersionSet} {live : List ℕ} {name : Bytes} {number : ℕ}
    {type : FileType} (hname : parseFileName L name = some (number, type))
    (hkeep : keep v live number type = false)
    (hdesc : ∀ m, d.manifest = some m → v.manifestFileNumber ≤ m.number) :
    d.Spares L (Kept v live) (d.delete L name) where
  manifest := by
    refine delete_manifest ?_ fun m hm hp => ?_
    · rintro rfl
      rw [parseFileName_current] at hname
      obtain ⟨rfl, rfl⟩ : 0 = number ∧ FileType.kCurrentFile = type := by simpa using hname
      simp [keep] at hkeep
    · rw [hname] at hp
      obtain ⟨rfl, rfl⟩ : number = m.number ∧ type = .kDescriptorFile := by simpa using hp
      simp only [keep, decide_eq_false_iff_not] at hkeep
      exact hkeep (hdesc m hm)
  log _ _ := rfl
  table _ _ := rfl
  has k n hk := by
    refine has_delete fun hp => ?_
    rw [hname] at hp
    obtain ⟨rfl, rfl⟩ : number = n ∧ type = k := by simpa using hp
    rw [Kept, hkeep] at hk
    exact Bool.noConfusion hk

/-- **The loop of `DeleteObsoleteFiles`** spares the files it keeps. -/
theorem deleteFiles_sat {v : VersionSet} {live : List ℕ} (filenames : List Bytes)
    (hw : Collected c.X.logging v live w t)
    (hdesc : ∀ m, w.disk.manifest = some m → v.manifestFileNumber ≤ m.number) :
    Sat A (deleteFiles c v live filenames) t (Collected c.X.logging v live w)
      fun _ u => Collected c.X.logging v live w u := by
  induction filenames generalizing t with
  | nil => exact sat_pure.mpr fun _ => hw
  | cons name filenames ih =>
    rw [deleteFiles]
    rcases hp : parseFileName c.X.logging name with _ | ⟨number, type⟩
    · exact ih hw
    · dsimp only
      split_ifs with hkeep
      · exact ih hw
      · rw [sat_bind, deleteFile, sat_bind]
        refine sat_call (fun _ => hw) fun a _ => sat_pure.mpr fun _ => ih (hw.after rfl ?_ ?_)
        · split_ifs
          · exact .delete hp (Bool.eq_false_iff.mpr hkeep) fun m hm =>
              hdesc m (by rw [← hw.spares.manifest]; exact hm)
          · exact .refl _ _
        · split_ifs
          · exact fun _ _ => Disk.has_of_delete
          · exact fun _ _ h => h

/-- **`DeleteObsoleteFiles`** spares, wherever it is stopped, the files of the version
set. -/
theorem deleteObsoleteFiles_sat
    (hdesc : ∀ m, w.disk.manifest = some m → w.impl.versions.manifestFileNumber ≤ m.number) :
    Sat A (deleteObsoleteFiles c) w
      (Collected c.X.logging w.impl.versions (w.impl.pendingOutputs ++ w.impl.versions.live) w)
      fun _ t => Collected c.X.logging w.impl.versions
        (w.impl.pendingOutputs ++ w.impl.versions.live) w t := by
  rw [deleteObsoleteFiles, sat_bind, sat_get]
  intro _
  split_ifs
  · rw [sat_bind, getChildren, sat_bind, sat_get]
    intro _
    rw [sat_bind]
    refine sat_call (fun _ => .refl _ _ w) fun a _ => sat_pure.mpr fun _ => ?_
    exact deleteFiles_sat _ ((Collected.refl _ _ w).after rfl (.refl _ _) fun _ _ h => h) hdesc
  · exact sat_pure.mpr fun _ => .refl _ _ w

/-- Where the version set agrees with the manifest, what it keeps is what recoverable
entries depend on. -/
theorem Collected.recoverable {m : Manifest} {pending : List ℕ} (hm : w.disk.manifest = some m)
    (hv : Agrees w.impl.versions m)
    (h : Collected X.logging w.impl.versions (pending ++ w.impl.versions.live) w t)
    (he : Recoverable X w.disk e) : Recoverable X t.disk e := by
  refine h.spares.recoverable hm (fun type n hn _ => ?_) he
  cases type <;> simp_all [Manifest.Needs, Kept, keep, Manifest.Selects, hv.logNumber,
    hv.prevLogNumber, hv.live]

end

end LevelDb
