import LevelDb.Open
import LevelDb.Recover.Status

/-!
# `create_if_missing` and `error_if_exists`

What the two options promise to whoever opens a database, and what the code makes of
them. A database that is missing is created and opened where `create_if_missing` is set,
and refused otherwise; one that exists is refused where `error_if_exists` is set, and
opened otherwise; and who is refused finds the disk as it was
(`LevelDb.HonoursOptions`).

The code reports a database that it has just created as missing, looks at
`error_if_exists` only where there is no database, and goes on without one where neither
option is set. So with all calls succeeding it honours the options exactly where there is
a database that may exist, or none and both options say so
(`LevelDb.honoursOptions_iff`).
-/

namespace LevelDb

open CrashLogic WriteBatch

/-! ### The specification -/

/-- `Status::IsInvalidArgument`. -/
def Status.isInvalidArgument : Status → Bool
  | .error .kInvalidArgument _ _ => true
  | _ => false

/-- **Opening honours the two options** on a disk. -/
structure HonoursOptions (c : Context) (d : Disk) : Prop where
  creates : chars "CURRENT" ∉ d.children → c.options.createIfMissing = true →
    ∃ p, ((recover c {} false).run (.initial d)).result = some (.ok, p) ∧
      chars "CURRENT" ∈ ((recover c {} false).run (.initial d)).final.disk.children
  refuses : chars "CURRENT" ∉ d.children → c.options.createIfMissing = false →
    ∃ s p, ((recover c {} false).run (.initial d)).result = some (s, p) ∧
      s.isInvalidArgument = true ∧
      (∀ a, (Call.recoverVersions, a) ∉ ((recover c {} false).run (.initial d)).final.calls) ∧
      ((recover c {} false).run (.initial d)).final.disk = d
  complains : chars "CURRENT" ∈ d.children → c.options.errorIfExists = true →
    ∃ s p, ((recover c {} false).run (.initial d)).result = some (s, p) ∧
      s.isInvalidArgument = true ∧ ((recover c {} false).run (.initial d)).final.disk = d
  /-- What recovers an existing database is the rest of `Recover`, with the lock held. -/
  recovers : chars "CURRENT" ∈ d.children → c.options.errorIfExists = false →
    ∃ u, Idle (.initial d) u ∧ u.impl = { dbLock := true } ∧
      (recover c {} false).outcome (.initial d) = (recoverVersions c {} false).outcome u
  /-- A database that was opened when it was missing is there for who opens it next. -/
  opens : chars "CURRENT" ∉ d.children → c.options.createIfMissing = true →
    ((dbOpen c).run (.initial d)).result = some .ok ∧
    ∀ c', Succeeds c' → c'.options.errorIfExists = true → ∃ s,
      ((dbOpen c').run (.initial ((dbOpen c).run (.initial d)).final.disk)).result = some s ∧
      s.isOk = false ∧
      ((dbOpen c').run (.initial ((dbOpen c).run (.initial d)).final.disk)).final.disk =
        ((dbOpen c).run (.initial d)).final.disk

/-! ### What the code does -/

/-- `DBImpl::Recover`, once it has looked for `CURRENT`. -/
def recoverCurrent (c : Context) (edit : VersionEdit) (saveManifest current : Bool) :
    Prog (Status × Progress) :=
  let p : Progress := { edit := edit, saveManifest := saveManifest }
  if !current then
    if c.options.createIfMissing then do
      let s ← newDb c
      -- the branch for a database that was just created
      if s.isOk then
        pure (.invalidArgument c.dbname.text "does not exist (create_if_missing is false)", p)
      else pure (s, p)
    -- the only place that looks at `error_if_exists`
    else if c.options.errorIfExists then
      pure (.invalidArgument c.dbname.text "exists (error_if_exists is true)", p)
    else recoverVersions c edit saveManifest
  else recoverVersions c edit saveManifest

section

variable {c : Context} {A : LowerSet World} {w u : World} {d : Disk} {edit : VersionEdit}
  {save : Bool}

/-- **`Recover` where the lock is free**: it takes the lock and looks for `CURRENT`. -/
theorem recover_outcome (hlock : ∀ t, (c.env t .lockFile).status.isOk = true)
    (hfree : w.impl.dbLock = false) :
    ∃ u, Idle w u ∧ u.impl = { w.impl with dbLock := true } ∧
      (∀ a, (Call.recoverVersions, a) ∈ u.calls → (Call.recoverVersions, a) ∈ w.calls) ∧
      (recover c edit save).outcome w =
        (recoverCurrent c edit save (w.disk.fileExists (chars "CURRENT"))).outcome u := by
  have hidle := (Idle.refl w).after (c.env w.calls.length .createDir)
    (show Call.createDir.quiet from rfl) rfl
  rw [recover, outcome_call_bind, outcome_get_bind, outcome_assert_bind (by simp [hfree]),
    outcome_call_bind, if_pos (hlock _), modifyImpl, outcome_modify_bind, outcome_get_bind,
    outcome_call_bind]
  generalize ht : w.after .createDir (c.env w.calls.length .createDir) w.disk = t at hidle ⊢
  replace hidle := (hidle.after (c.env t.calls.length .lockFile)
    (show Call.lockFile.quiet from rfl) rfl).modify { w.impl with dbLock := true }
  have hti : t.impl = w.impl := ht ▸ rfl
  dsimp only [World.after_impl, World.after_disk]
  rw [hti]
  generalize hu : ({ (t.after .lockFile _ t.disk) with impl := _ } : World) = u at hidle ⊢
  refine ⟨_, hidle.after (c.env u.calls.length .fileExistsCurrent)
    (show Call.fileExistsCurrent.quiet from rfl) rfl, ?_, ?_, ?_⟩
  · rw [World.after_impl, ← hu]
  · rw [← hu, ← ht]
    simp
  · subst hu
    rw [← hidle.disk]
    rfl

theorem isInvalidArgument_of_isOk {s : Status} (h : s.isOk = true) :
    s.isInvalidArgument = false := by
  cases s with
  | ok => rfl
  | error => exact Bool.noConfusion h

/-- Recovering the files returns no `InvalidArgument` where its calls succeed. -/
theorem recoverFiles_valid (hX : c.X.Lawful) (hc : Succeeds c) {p : Progress} :
    Sat A (recoverFiles c p) w (fun _ => True) fun x _ => x.1.isInvalidArgument = false := by
  have hyields : Yields c w fun s _ => s.isInvalidArgument = false :=
    { mono := fun _ h => h
      ok := fun _ => rfl
      table := fun what _ _ _ => isInvalidArgument_of_isOk (hc.calls _ what)
      iterator := fun mem _ => isInvalidArgument_of_isOk (hc.iterator mem)
      opened := fun _ _ _ _ => isInvalidArgument_of_isOk (hc.calls _ _)
      batch := fun _ _ _ => rfl }
  rw [recoverFiles, sat_bind, sat_get]
  intro _
  rw [getChildren, sat_bind, sat_bind, sat_get]
  intro _
  rw [sat_bind]
  refine sat_env (sat_pure.mpr fun _ => ?_)
  have hle := w.le_after .getChildren (c.env w.calls.length .getChildren) w.disk
  dsimp only
  rw [if_pos (hc.calls _ _)]
  split
  · exact Sat.assert (fun _ => trivial) fun _ => sat_pure.mpr fun _ => rfl
  · refine (recoverLogs_yields hX hyields hle _).seq (fun _ _ _ h => h) ?_
    rintro ⟨s, p⟩ t - - hs
    dsimp only
    split_ifs
    · rw [sat_bind, sat_modifyImpl]
      exact fun _ => sat_pure.mpr fun _ => rfl
    · exact sat_pure.mpr fun _ => hs

/-- **The rest of `Recover`** returns no `InvalidArgument` where its calls succeed. -/
theorem recoverVersions_valid (hX : c.X.Lawful) (hc : Succeeds c) :
    Sat A (recoverVersions c edit save) w (fun _ => True) fun x _ =>
      x.1.isInvalidArgument = false := by
  rw [recoverVersions, sat_bind, versionsRecover, sat_bind, sat_get]
  intro _
  rw [sat_bind]
  refine sat_env ?_
  split
  · rw [if_pos (hc.calls _ _)]
    exact sat_pure.mpr fun _ => sat_pure.mpr fun _ => rfl
  · rw [if_pos (hc.calls _ _), sat_bind, sat_modifyImpl]
    exact fun _ => sat_pure.mpr fun _ => recoverFiles_valid hX hc

/-- Where `Recover` goes on to the rest, it returns no `InvalidArgument`. -/
theorem recover_valid (hX : c.X.Lawful) (hc : Succeeds c)
    (houtcome : (recover c edit save).outcome w = (recoverVersions c edit save).outcome u)
    {s : Status} {p : Progress} (hs : ((recover c edit save).run w).result = some (s, p)) :
    s.isInvalidArgument = false := by
  have hresult : ((recover c edit save).run w).result =
      ((recoverVersions c edit save).run u).result := congrArg Prod.snd houtcome
  rw [hresult] at hs
  exact (recoverVersions_valid (A := ⊤) hX hc).result hs trivial

/-- **An existing database** is recovered, with the lock held, whatever the options are. -/
theorem recover_existing (hc : Succeeds c) (hcur : chars "CURRENT" ∈ d.children) :
    ∃ u, Idle (.initial d) u ∧ u.impl = { dbLock := true } ∧
      (recover c {} false).outcome (.initial d) = (recoverVersions c {} false).outcome u := by
  obtain ⟨u, hidle, hi, -, houtcome⟩ := recover_outcome (c := c) (w := .initial d)
    (fun t => hc.calls t _) rfl
  have hex : (World.initial d).disk.fileExists (chars "CURRENT") = true :=
    Disk.fileExists_iff.mpr hcur
  rw [hex] at houtcome
  exact ⟨u, hidle, hi, houtcome⟩

theorem Disk.not_fileExists {name : Bytes} (h : name ∉ d.children) :
    d.fileExists name = false :=
  Bool.eq_false_iff.mpr fun hex => h (fileExists_iff.mp hex)

/-- **A missing database** is recovered as well, if neither option is set. -/
theorem recover_missing (hc : Succeeds c) (hcur : chars "CURRENT" ∉ d.children)
    (hcreate : c.options.createIfMissing = false) (herr : c.options.errorIfExists = false) :
    ∃ u, (recover c {} false).outcome (.initial d) = (recoverVersions c {} false).outcome u := by
  obtain ⟨u, -, -, -, houtcome⟩ := recover_outcome (c := c) (w := .initial d)
    (fun t => hc.calls t _) rfl
  have hex : (World.initial d).disk.fileExists (chars "CURRENT") = false := d.not_fileExists hcur
  rw [hex, recoverCurrent, hcreate, herr] at houtcome
  exact ⟨u, houtcome⟩

/-- **A missing database is refused** because of `error_if_exists`. -/
theorem recover_refused (hc : Succeeds c) (hcur : chars "CURRENT" ∉ d.children)
    (hcreate : c.options.createIfMissing = false) (herr : c.options.errorIfExists = true) :
    ((recover c {} false).run (.initial d)).result =
        some (.invalidArgument c.dbname.text "exists (error_if_exists is true)", {}) ∧
      (∀ a, (Call.recoverVersions, a) ∉ ((recover c {} false).run (.initial d)).final.calls) ∧
      ((recover c {} false).run (.initial d)).final.disk = d := by
  obtain ⟨u, hidle, -, hcalls, houtcome⟩ := recover_outcome (c := c) (w := .initial d)
    (fun t => hc.calls t _) rfl
  have hex : (World.initial d).disk.fileExists (chars "CURRENT") = false := d.not_fileExists hcur
  rw [hex, recoverCurrent, hcreate, herr] at houtcome
  have hfinal : ((recover c {} false).run (.initial d)).final = u := congrArg Prod.fst houtcome
  refine ⟨congrArg Prod.snd houtcome, fun a ha => ?_, ?_⟩
  · rw [hfinal] at ha
    exact absurd (hcalls a ha) List.not_mem_nil
  · rw [hfinal]
    exact hidle.disk

/-- **`Recover` never returns OK for a missing database**: no manifest was committed to it. -/
theorem recover_missing_fails (hX : c.X.Lawful) (hcur : chars "CURRENT" ∉ d.children)
    {s : Status} {p : Progress}
    (hs : ((recover c {} false).run (.initial d)).result = some (s, p)) : s.isOk = false := by
  rcases hok : s.isOk with _ | _
  · rfl
  have hsat : Sat ⊤ (recover c {} false) (.initial d) _ _ := recover_sat hX
  obtain ⟨m, _, _, _, hrec⟩ := (hsat.result hs trivial).2 hok
  have hm : d.manifest = some m := hrec.manifest
  exact absurd (d.current (by rw [hm]; rfl)) hcur

/-- **Opening honours the two options**, with all calls succeeding, exactly where there is
a database and `error_if_exists` is not set, or there is none, `create_if_missing` is not
set and `error_if_exists` is. -/
theorem honoursOptions_iff (hX : c.X.Lawful) (hc : Succeeds c) :
    HonoursOptions c d ↔
      (chars "CURRENT" ∈ d.children ∧ c.options.errorIfExists = false) ∨
        (chars "CURRENT" ∉ d.children ∧ c.options.createIfMissing = false ∧
          c.options.errorIfExists = true) := by
  constructor
  -- in the other four cases one of the fields is violated
  · intro h
    by_cases hcur : chars "CURRENT" ∈ d.children
    · refine Or.inl ⟨hcur, Bool.eq_false_iff.mpr fun herr => ?_⟩
      obtain ⟨s, p, hs, hinv, -⟩ := h.complains hcur herr
      obtain ⟨u, -, -, houtcome⟩ := recover_existing hc hcur
      exact absurd hinv (by simp [recover_valid hX hc houtcome hs])
    · refine Or.inr ⟨hcur, ?_⟩
      -- with `create_if_missing` the new database is reported as missing
      rcases hcreate : c.options.createIfMissing with _ | _
      · refine ⟨rfl, by_contra fun herr => ?_⟩
        obtain ⟨s, p, hs, hinv, -⟩ := h.refuses hcur hcreate
        obtain ⟨u, houtcome⟩ := recover_missing hc hcur hcreate (by simpa using herr)
        exact absurd hinv (by simp [recover_valid hX hc houtcome hs])
      · obtain ⟨p, hs, -⟩ := h.creates hcur hcreate
        exact absurd (recover_missing_fails hX hcur hs) (by simp)
  · rintro (⟨hcur, herr⟩ | ⟨hcur, hcreate, herr⟩)
    · exact
        { creates := fun hnot => absurd hcur hnot
          refuses := fun hnot => absurd hcur hnot
          complains := fun _ h => absurd h (by simp [herr])
          recovers := fun _ _ => recover_existing hc hcur
          opens := fun hnot => absurd hcur hnot }
    · exact
        { creates := fun _ h => absurd h (by simp [hcreate])
          refuses := fun _ _ => ⟨_, _, (recover_refused hc hcur hcreate herr).1, rfl,
            (recover_refused hc hcur hcreate herr).2⟩
          complains := fun h => absurd h hcur
          recovers := fun h => absurd h hcur
          opens := fun _ h => absurd h (by simp [hcreate]) }

theorem succeeds_healthy (options : Options) : Succeeds (healthy options) :=
  ⟨fun _ _ => rfl, fun _ => rfl⟩

/-- A database that exists, and may. -/
theorem honoursOptions_iff_oneLog : HonoursOptions (healthy {}) (oneLog []) :=
  (honoursOptions_iff documented_lawful (succeeds_healthy {})).mpr (Or.inl ⟨by decide, rfl⟩)

/-- **A missing database** is created, and then reported as missing. -/
theorem created_reported_missing :
    ((recover (healthy { createIfMissing := true }) {} false).run (.initial .missing)).result =
      some (.invalidArgument "db/" "does not exist (create_if_missing is false)", {}) ∧
    ¬∀ c d, c.X.Lawful → Succeeds c → HonoursOptions c d := by
  have hresult : ((recover (healthy { createIfMissing := true }) {} false).run
      (.initial .missing)).result =
        some (.invalidArgument "db/" "does not exist (create_if_missing is false)", {}) := by rfl
  refine ⟨hresult, fun h => ?_⟩
  obtain ⟨p, hp, -⟩ := (h (healthy { createIfMissing := true }) .missing documented_lawful
    (succeeds_healthy _)).creates (by decide) rfl
  rw [hresult] at hp
  exact absurd hp (by simp [Status.invalidArgument])

end

end LevelDb
