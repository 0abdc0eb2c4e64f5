import LevelDb.Open
import LevelDb.Open.SetCurrent

/-!
# What a crash leaves of a new database

In `LevelDb.Recover` the manifest of a new database is there as soon as `CURRENT` is. Here
are the files behind it: `DBImpl::NewDb` and the switch to its manifest
(`LevelDb.Open.SetCurrent`) over the contents of the manifest, of the temporary file and of
`CURRENT`, call by call, with what is synced of each (`Storage.File`). Without a crash the two
agree (`LevelDb.Creation.newDb_refines`).

A `CURRENT` that exists must lead to a manifest that holds its record, whatever the calls
return and wherever the machine crashes (`LevelDb.Creation.SafelyCreates`). The contents of
`CURRENT` are synced before it gets its name, but nothing syncs the manifest: `NewDb` closes
it, and `PosixWritableFile::Close` is an `fclose`. So the code keeps the promise only where
it creates no database at all, because one of the five calls on the way fails
(`LevelDb.Creation.safelyCreates_iff`).
-/

namespace LevelDb.Creation

open CrashLogic Storage

variable (X : Setting)

/-! ### The code -/

/-- The record of a new database. -/
def Setting.record : Bytes :=
  X.encodeTo
    { comparatorName := X.comparatorName, logNumber := 0, nextFile := 2, lastSequence := 0 }

/-- `DBImpl::NewDb`. -/
def newDb : Proc Machine Status := do
  let manifest := descriptorFileName X.dbname 1
  let s ← perform X (.newWritableFile manifest)
  if !s.isOk then pure s
  else do
    let s ← perform X (.addRecord manifest X.record)
    -- no `Sync` of the manifest comes before its `Close`
    let s ← thenPerform X s (.close manifest)
    if s.isOk then setCurrentFile X 1
    else do
      let _ ← perform X (.deleteFile manifest)
      pure s

/-! ### The promise -/

/-- The name of the first manifest. -/
abbrev Setting.manifest : Bytes := descriptorFileName X.dbname 1

/-- The temporary name of `CURRENT`. -/
abbrev Setting.tmp : Bytes := tempFileName X.dbname 1

/-- **`CURRENT` is usable** where it exists: it names the first manifest, which exists and
holds its record. -/
def Usable (fs : Store Bytes UInt8) : Prop :=
  ∀ f, fs X.current = some f → f.contents = chars "MANIFEST-000001\n" ∧
    ∃ g, fs (X.dbname ++ chars "/MANIFEST-000001") = some g ∧ X.framed X.record <+: g.contents

/-- **Creating a database is safe**: after a crash in any state of the run `CURRENT` is
usable, and without one the status is OK where `CURRENT` exists and nowhere else. -/
structure SafelyCreates (m : Machine) : Prop where
  crash : ∀ t ∈ ((newDb X).run m).states, ∀ fs, t.files.Crashed fs → Usable X fs
  returns : ∃ s, ((newDb X).run m).result = some s ∧
    (s.isOk ↔ (((newDb X).run m).final.files X.current).isSome)

/-- The calls of a creation that goes through. -/
def Setting.creation : List FileCall :=
  [.newWritableFile X.manifest, .addRecord X.manifest X.record, .close X.manifest,
    .writeStringToFileSync (chars "MANIFEST-000001\n") X.tmp, .renameFile X.tmp X.current]

/-! ### What the code does -/

section

variable {X} {m t : Machine} {n : Bytes} {what : FileCall} {a : Outcome} {s : Status} {b : Bool}
  {fs : Store Bytes UInt8}

/-- A file that was created, had a record added and was closed has nothing but the record,
and nothing of it is synced. -/
theorem Machine.after_close {fname record : Bytes} (hnew : X.succeeds (.newWritableFile fname))
    (hadd : X.succeeds (.addRecord fname record)) (hclose : X.succeeds (.close fname)) :
    (((m.after X (.newWritableFile fname)).after X (.addRecord fname record)).after X
      (.close fname)).files fname = some (File.empty.append (X.framed record)) := by
  have hclosed : ∀ m : Machine, (m.after X (.close fname)).files = m.files := fun _ => if_pos hclose
  have hcreated : (m.after X (.newWritableFile fname)).files =
      Function.update m.files fname (some .empty) := if_pos hnew
  have hadded : ∀ m : Machine, (m.after X (.addRecord fname record)).files fname =
      (m.files fname).map fun f => f.append (X.framed record) := by
    intro m
    refine (Function.update_self ..).trans ?_
    rw [if_pos hadd]
  rw [hclosed, hadded, hcreated, Function.update_self]
  rfl

theorem descriptorFileName_one (dbname : Bytes) :
    descriptorFileName dbname 1 = dbname ++ chars "/MANIFEST-000001" :=
  congrArg (dbname ++ ·) (by decide)

/-- The three files have three names. -/
theorem Setting.Lawful.names_ne (h : X.Lawful) :
    X.current ≠ X.manifest ∧ X.current ≠ X.tmp ∧ X.manifest ≠ X.tmp := by
  refine ⟨?_, current_ne_tempFileName h.currentFileName_eq, fun heq => ?_⟩
  · rw [Setting.current, Setting.manifest, h.currentFileName_eq, descriptorFileName_one]
    exact fun heq => absurd (List.append_cancel_left heq) (by decide)
  · have hname : Kind.descriptor.fileName X.dbname 1 = Kind.temp.fileName X.dbname 1 := heq
    exact Kind.noConfusion (Kind.fileName_injective hname).1

/-- `CURRENT` does not exist. -/
abbrev NoCurrent (X : Setting) (m : Machine) : Prop := m.files X.current = none

/-- A call that is not about `CURRENT` does not create it. -/
theorem NoCurrent.after (h : NoCurrent X m) (what : FileCall) (hn : X.current ∉ what.names) :
    NoCurrent X (m.after X what) :=
  (Machine.after_of_notMem hn).trans h

/-- **The database was created**: `CURRENT` is synced, and the manifest is not. -/
structure Created (X : Setting) (fs : Store Bytes UInt8) : Prop where
  current : fs X.current = some (.stored (chars "MANIFEST-000001\n"))
  manifest : fs X.manifest = some (File.empty.append (X.framed X.record))

/-- **What creating leaves**, where its calls succeed and where one of them does not. -/
structure Leaves (X : Setting) (succeeds : Bool) (s : Status) (t : Machine) : Prop where
  status : s.isOk = succeeds
  created : succeeds = true → Created X t.files
  failed : succeeds = false → NoCurrent X t

/-- A call fails, and `CURRENT` does not exist. -/
theorem Leaves.of_noCurrent (hs : s.isOk = false) (hb : b = false) (ht : NoCurrent X t) :
    Leaves X b s t :=
  ⟨hs.trans hb.symm, fun h => absurd h (by simp [hb]), fun _ => ht⟩

theorem Leaves.isSome_iff (h : Leaves X b s t) : (t.files X.current).isSome ↔ b = true := by
  rcases b with _ | _
  · rw [h.failed rfl]
    simp
  · rw [(h.created rfl).current]
    simp

theorem manifestLine_one : manifestLine 1 = chars "MANIFEST-000001\n" := by decide

/-- **`SetCurrentFile`** names the manifest that `NewDb` has written, or leaves no
`CURRENT`. -/
theorem setCurrentFile_sat (hX : X.Lawful) (hm : NoCurrent X m)
    (hmanifest : m.files X.manifest = some (File.empty.append (X.framed X.record))) :
    Sat ⊤ (setCurrentFile X 1) m (NoCurrent X) (Leaves X
      (X.succeeds (.writeStringToFileSync (chars "MANIFEST-000001\n") X.tmp) &&
        X.succeeds (.renameFile X.tmp X.current))) := by
  obtain ⟨hcm, hct, hmt⟩ := hX.names_ne
  refine (setCurrentFile_switched hct).mono (fun t _ _ h => (h.files _ hct).trans hm) ?_
  intro s t _ _ h
  have hok := h.isOk_eq
  rw [Setting.writeLine, manifestLine_one] at hok
  refine ⟨hok, fun hall => ⟨?_, (h.intact.others _ hcm.symm hmt).trans hmanifest⟩, fun hall => ?_⟩
  · rw [h.intact.after (h.isOk_iff.mp (hok.trans hall)), manifestLine_one]
  · refine (h.intact.before fun hren => ?_).trans hm
    exact absurd (h.isOk_iff.mpr hren) (Bool.eq_false_iff.mp (hok.trans hall))

theorem creation_all : X.creation.all X.succeeds = (X.succeeds (.newWritableFile X.manifest) &&
    (X.succeeds (.addRecord X.manifest X.record) && (X.succeeds (.close X.manifest) &&
      (X.succeeds (.writeStringToFileSync (chars "MANIFEST-000001\n") X.tmp) &&
        X.succeeds (.renameFile X.tmp X.current))))) := by
  simp [Setting.creation]

/-- The clean-up of `NewDb`. -/
theorem deleteManifest_sat (hX : X.Lawful) (hs : s.isOk = false) (hb : b = false)
    (ht : NoCurrent X t) :
    Sat ⊤ (if s.isOk then setCurrentFile X 1
      else do
        let _ ← perform X (.deleteFile X.manifest)
        pure s) t (NoCurrent X) (Leaves X b) := by
  rw [if_neg (by simp [hs]), sat_bind]
  refine sat_perform ht (sat_pure.mpr fun _ => .of_noCurrent hs hb (ht.after _ ?_))
  simpa [FileCall.names] using hX.names_ne.1

/-- **`NewDb`** creates the database where its calls succeed, and leaves no `CURRENT` where
one of them does not. -/
theorem newDb_sat (hX : X.Lawful) (hm : NoCurrent X m) :
    Sat ⊤ (newDb X) m (NoCurrent X) (Leaves X (X.creation.all X.succeeds)) := by
  have hnot : X.current ∉ [X.manifest] := by simpa using hX.names_ne.1
  rw [creation_all, newDb, sat_bind]
  refine sat_perform hm ?_
  have hnew := hm.after (.newWritableFile X.manifest) hnot
  rcases h1 : X.succeeds (.newWritableFile X.manifest) with _ | _
  · rw [if_pos (by simpa using h1), sat_pure]
    exact fun _ => .of_noCurrent h1 (Bool.false_and _) hnew
  rw [if_neg (by simpa using h1), sat_bind]
  refine sat_perform hnew ?_
  have hadded := hnew.after (.addRecord X.manifest X.record) hnot
  rw [thenPerform]
  rcases h2 : X.succeeds (.addRecord X.manifest X.record) with _ | _
  · rw [if_neg (Bool.eq_false_iff.mp h2), sat_bind, sat_pure]
    exact fun _ => deleteManifest_sat hX h2 (by simp) hadded
  rw [if_pos h2, sat_bind]
  refine sat_perform hadded ?_
  have hclosed := hadded.after (.close X.manifest) hnot
  rcases h3 : X.succeeds (.close X.manifest) with _ | _
  · exact deleteManifest_sat hX h3 (by simp) hclosed
  · rw [if_pos h3, Bool.true_and, Bool.true_and, Bool.true_and]
    exact setCurrentFile_sat hX hclosed (Machine.after_close h1 h2 h3)

/-- `NewDb` returns. -/
theorem newDb_returns : Returns (newDb X) m fun _ _ => True := by
  rw [newDb, returns_bind, returns_perform]
  split_ifs
  · trivial
  · rw [returns_bind, returns_perform, returns_bind]
    refine returns_thenPerform fun s t => ?_
    split_ifs
    · exact setCurrentFile_returns
    · rw [returns_bind, returns_perform]
      trivial

/-- Without a crash `CURRENT` is usable, wherever `NewDb` is stopped. -/
theorem newDb_usable (hX : X.Lawful) (hm : NoCurrent X m) :
    ∀ t ∈ ((newDb X).run m).states, Usable X t.files := by
  have hnone : ∀ t : Machine, NoCurrent X t → Usable X t.files := by
    intro t ht f hf
    rw [show t.files X.current = none from ht] at hf
    exact absurd hf (by simp)
  have hsat : Sat ⊤ (newDb X) m (fun t => Usable X t.files) fun _ t => Usable X t.files := by
    refine (newDb_sat hX hm).mono (fun t _ _ ht => hnone t ht) fun s t _ _ ht => ?_
    rcases hb : X.creation.all X.succeeds with _ | _
    · exact hnone t (ht.failed hb)
    · obtain ⟨hcurrent, hmanifest⟩ := ht.created hb
      intro f hf
      obtain rfl : File.stored (chars "MANIFEST-000001\n") = f :=
        Option.some.inj (hcurrent.symm.trans hf)
      rw [Setting.manifest, descriptorFileName_one] at hmanifest
      exact ⟨rfl, _, hmanifest, List.prefix_refl _⟩
  exact fun t ht => hsat.states (fun _ _ h => h) t ht trivial

/-- **Creating a database is safe exactly where it fails**: with all calls succeeding, a
crash behind the last of them can take the record of the manifest. -/
theorem safelyCreates_iff (hX : X.Lawful) (hm : m.files X.current = none) :
    SafelyCreates X m ↔ ∃ what ∈ X.creation, (X.outcome what).status.isOk = false := by
  obtain ⟨s, hs, -⟩ := newDb_returns (X := X) (m := m).result
  have hleaves := (newDb_sat hX hm).result hs trivial
  constructor
  · intro h
    by_contra hall
    push Not at hall
    have hok : X.creation.all X.succeeds = true :=
      List.all_eq_true.mpr fun what hwhat => by simpa using hall what hwhat
    obtain ⟨hcurrent, hmanifest⟩ := hleaves.created hok
    -- the crash that leaves what is synced
    obtain ⟨-, g, hg, hpre⟩ := h.crash _ (Run.mem_states.mpr (Or.inr rfl)) _
      (Store.crashed_lost _) (.stored (chars "MANIFEST-000001\n")) (by
        rw [Store.lost, hcurrent]
        rfl)
    rw [← descriptorFileName_one, Store.lost, hmanifest] at hg
    obtain rfl : File.stored [] = g := Option.some.inj hg
    exact hX.framed_ne_nil _ (List.prefix_nil.mp hpre)
  · rintro ⟨what, hwhat, hfail⟩
    have hfails : X.creation.all X.succeeds = false :=
      List.all_eq_false.mpr ⟨what, hwhat, by simp [hfail]⟩
    have hsat := newDb_sat hX hm
    rw [hfails] at hsat
    refine ⟨fun t ht fs hfs f hf => ?_, s, hs, ?_⟩
    · have hnone : NoCurrent X t := hsat.states (fun _ _ h => h.failed rfl) t ht trivial
      rw [hfs.eq_none hnone] at hf
      exact absurd hf (by simp)
    · rw [hleaves.status, hleaves.isSome_iff]

/-- A creation that fails. -/
theorem safelyCreates_iff_renameFails : SafelyCreates (leveldb renameFails) emptyMachine :=
  (safelyCreates_iff (leveldb_lawful renameFails) rfl).mpr
    ⟨.renameFile (chars "db000001.dbtmp") (chars "db/CURRENT"), by decide, rfl⟩

/-- **The record is lost**: `NewDb` returns OK, and the crash that follows leaves a `CURRENT`
that names an empty manifest. -/
theorem record_lost :
    ((newDb (leveldb fun _ => {})).run emptyMachine).result = some .ok ∧
    (∃ fs, ((newDb (leveldb fun _ => {})).run emptyMachine).final.files.Crashed fs ∧
      fs (chars "db/CURRENT") = some (.stored (chars "MANIFEST-000001\n")) ∧
      fs (chars "db/MANIFEST-000001") = some (.stored [])) ∧
    ¬SafelyCreates (leveldb fun _ => {}) emptyMachine := by
  have hresult : ((newDb (leveldb fun _ => {})).run emptyMachine).result = some .ok := rfl
  have hcreated := ((newDb_sat (leveldb_lawful fun _ => {}) rfl).result hresult trivial).created rfl
  have hcrashed := Store.crashed_lost ((newDb (leveldb fun _ => {})).run emptyMachine).final.files
  have hcurrent : ((newDb (leveldb fun _ => {})).run emptyMachine).final.files.lost
      (chars "db/CURRENT") = some (.stored (chars "MANIFEST-000001\n")) :=
    congrArg (Option.map File.lost) hcreated.current
  have hmanifest : ((newDb (leveldb fun _ => {})).run emptyMachine).final.files.lost
      (chars "db/MANIFEST-000001") = some (.stored []) :=
    congrArg (Option.map File.lost) hcreated.manifest
  refine ⟨hresult, ⟨_, hcrashed, hcurrent, hmanifest⟩, fun h => ?_⟩
  obtain ⟨-, g, hg, hpre⟩ := h.crash _ (Run.mem_states.mpr (Or.inr rfl)) _ hcrashed _ hcurrent
  obtain rfl : File.stored [] = g := Option.some.inj (hmanifest.symm.trans hg)
  exact (leveldb_lawful _).framed_ne_nil _ (List.prefix_nil.mp hpre)

/-! ### The two models of `NewDb` -/

/-- **The calls have the same outcomes** in the two models. -/
structure SameOutcomes (c : Context) (X : Setting) : Prop where
  newWritableFile : ∀ t, (c.env t (.newWritableFile .kDescriptorFile 1)).status =
    (X.outcome (.newWritableFile X.manifest)).status
  addRecord : ∀ t, (c.env t .addRecord).status = (X.outcome (.addRecord X.manifest X.record)).status
  close : ∀ t, (c.env t .closeManifest).status = (X.outcome (.close X.manifest)).status
  write : ∀ t, (c.env t (.writeStringToFileSync (tempFileName [] 1))).status =
    (X.outcome (.writeStringToFileSync (chars "MANIFEST-000001\n") X.tmp)).status
  rename : ∀ t, (c.env t (.renameToCurrent (tempFileName [] 1))).status =
    (X.outcome (.renameFile X.tmp X.current)).status

/-- `CURRENT` is listed. -/
abbrev ListsCurrent (w : World) : Prop := chars "CURRENT" ∈ w.disk.children

theorem mem_create {d : Disk} {name : Bytes} (h : chars "CURRENT" ≠ name) :
    chars "CURRENT" ∈ (d.create name).children ↔ chars "CURRENT" ∈ d.children := by
  rw [Disk.create]
  split_ifs
  · rfl
  · simp [h]

/-- Deleting a file does not list `CURRENT`. -/
theorem deleteFile_notListed {c : Context} {w : World} {name : Bytes} (h : ¬ListsCurrent w) :
    Returns (deleteFile c name) w fun _ t => ¬ListsCurrent t := by
  rw [deleteFile, returns_bind, returns_call]
  rw [returns_pure, ListsCurrent, World.after_disk]
  refine fun hin => h ?_
  split_ifs at hin
  · exact (List.mem_filter.mp hin).1
  · exact hin

/-- The clean-up after a failure, of either function. -/
theorem cleanUp_lists {c : Context} {w : World} {name : Bytes} (hs : s.isOk = false)
    (hb : b = false) (hw : ¬ListsCurrent w) :
    Returns (deleteFile c name >>= fun _ => pure s) w fun s t =>
      s.isOk = b ∧ (ListsCurrent t ↔ s.isOk = true) := by
  refine (deleteFile_notListed hw).seq fun _ t _ ht => ⟨hs.trans hb.symm, ?_⟩
  rw [hs]
  exact ⟨fun h => absurd h ht, fun h => absurd h (by simp)⟩

theorem setCurrentFile_lists {c : Context} {w : World} (h : SameOutcomes c X)
    (hw : ¬ListsCurrent w) :
    Returns (LevelDb.setCurrentFile c 1) w fun s t =>
      s.isOk = (X.succeeds (.writeStringToFileSync (chars "MANIFEST-000001\n") X.tmp) &&
        X.succeeds (.renameFile X.tmp X.current)) ∧ (ListsCurrent t ↔ s.isOk = true) := by
  rw [LevelDb.setCurrentFile, returns_bind, returns_call, h.write]
  generalize ht : w.after (.writeStringToFileSync (tempFileName [] 1)) _ _ = t
  have hunlisted : ¬ListsCurrent t := by
    rw [← ht, ListsCurrent, World.after_disk]
    split_ifs
    · exact fun hin => hw ((mem_create (by decide)).mp hin)
    · exact hw
  rw [thenCall]
  rcases h1 : X.succeeds (.writeStringToFileSync (chars "MANIFEST-000001\n") X.tmp) with _ | _
  · rw [if_neg (Bool.eq_false_iff.mp h1), returns_bind, returns_pure,
      if_neg (Bool.eq_false_iff.mp h1)]
    exact cleanUp_lists h1 (Bool.false_and _) hunlisted
  · rw [if_pos h1, returns_bind, returns_bind, returns_call, returns_pure, h.rename]
    rcases h2 : X.succeeds (.renameFile X.tmp X.current) with _ | _
    · rw [if_neg (Bool.eq_false_iff.mp h2), if_neg (Bool.eq_false_iff.mp h2)]
      exact cleanUp_lists h2 (Bool.and_false _) hunlisted
    · rw [if_pos h2, if_pos h2]
      exact ⟨h2, fun _ => h2, fun _ => Disk.current _ rfl⟩

theorem newDb_lists {c : Context} {w : World} (h : SameOutcomes c X) (hw : ¬ListsCurrent w) :
    Returns (LevelDb.newDb c) w fun s t =>
      s.isOk = X.creation.all X.succeeds ∧ (ListsCurrent t ↔ s.isOk = true) := by
  rw [creation_all, LevelDb.newDb, returns_bind, returns_call, h.newWritableFile]
  generalize ht : w.after (.newWritableFile .kDescriptorFile 1) _ _ = t
  have hunlisted : ¬ListsCurrent t := by
    rw [← ht, ListsCurrent, World.after_disk]
    split_ifs
    · exact fun hin => hw ((mem_create (by decide)).mp hin)
    · exact hw
  rcases h1 : X.succeeds (.newWritableFile X.manifest) with _ | _
  · rw [if_neg (Bool.eq_false_iff.mp h1), returns_pure]
    exact ⟨h1.trans (Bool.false_and _).symm, fun hin => absurd hin hunlisted,
      fun hok => absurd hok (Bool.eq_false_iff.mp h1)⟩
  rw [if_pos h1, returns_bind, returns_call, h.addRecord, returns_bind, thenCall]
  rcases h2 : X.succeeds (.addRecord X.manifest X.record) with _ | _
  · rw [if_neg (Bool.eq_false_iff.mp h2), returns_pure, if_neg (Bool.eq_false_iff.mp h2)]
    exact cleanUp_lists h2 (by simp) hunlisted
  rw [if_pos h2, returns_bind, returns_call, returns_pure, h.close]
  rcases h3 : X.succeeds (.close X.manifest) with _ | _
  · rw [if_neg (Bool.eq_false_iff.mp h3)]
    exact cleanUp_lists h3 (by simp) hunlisted
  · rw [if_pos h3, Bool.true_and, Bool.true_and, Bool.true_and]
    exact setCurrentFile_lists h hunlisted

/-- **The two models of `NewDb` agree**: where the calls have the same outcomes, both return
OK or neither does, and `CURRENT` is listed in the one where it exists in the other. -/
theorem newDb_refines {c : Context} {w : World} (hX : X.Lawful) (h : SameOutcomes c X)
    (hw : ¬ListsCurrent w) (hm : NoCurrent X m) :
    ∃ s s', ((LevelDb.newDb c).run w).result = some s ∧ ((newDb X).run m).result = some s' ∧
      s.isOk = s'.isOk ∧ (ListsCurrent ((LevelDb.newDb c).run w).final ↔
        (((newDb X).run m).final.files X.current).isSome) := by
  obtain ⟨s, hs, hok, hlists⟩ := (newDb_lists h hw).result
  obtain ⟨s', hs', -⟩ := newDb_returns (X := X) (m := m).result
  have hleaves := (newDb_sat hX hm).result hs' trivial
  refine ⟨s, s', hs, hs', hok.trans hleaves.status.symm, ?_⟩
  rw [hlists, hok, hleaves.isSome_iff]

end

end LevelDb.Creation
