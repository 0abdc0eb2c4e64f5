import LevelDb.Recover.Status
import Mathlib.Data.List.Dedup

/-!
# The check for missing tables

Before it replays any log, `DBImpl::Recover` ticks off the live tables of the manifest that
the directory lists, and returns a status with the text "missing files" where some are left.
It ticks off a number whatever the type of the file is: a log, a manifest or a temporary file
stands in for the table of the same number.

So the check does what its text says exactly where no such file does, or where another live
number is not listed at all (`LevelDb.recover_missing_iff`). It does not depend on the order
of the listing (`LevelDb.missingFiles_perm`).
-/

namespace LevelDb

open CrashLogic

/-! ### The specification -/

/-- **The manifest is loaded, and the directory listed**: the calls that `Recover` makes
before the check succeed. -/
structure Loads (c : Context) (w : World) (m : Manifest) : Prop where
  unlocked : w.impl.dbLock = false
  locks : (c.env (w.calls.length + 1) .lockFile).status.isOk = true
  manifest : w.disk.manifest = some m
  recovers : (c.env (w.calls.length + 3) .recoverVersions).status.isOk = true
  lists : (c.env (w.calls.length + 4) .getChildren).status.isOk = true

/-- The calls before the check. -/
def callsToCheck : List Call :=
  [.createDir, .lockFile, .fileExistsCurrent, .recoverVersions, .getChildren]

/-- The status has the text for missing files. -/
def IsMissingFiles (s : Status) : Prop := ∃ (k : ℕ) (name : String),
  s = .corruption (Bytes.text (Codec.decimal k) ++ " missing files; e.g.") name

/-- **`Recover` returns this status from the check**: it makes no call after the listing. -/
def ReturnsFromCheck (c : Context) (edit : VersionEdit) (saveManifest : Bool) (w : World)
    (s : Status) : Prop :=
  Returns (recover c edit saveManifest) w fun x t =>
    x.1 = s ∧ t.calls.map Prod.fst = w.calls.map Prod.fst ++ callsToCheck

/-- **`Recover` reports missing files.** -/
def ReportsMissing (c : Context) (edit : VersionEdit) (saveManifest : Bool) (w : World) : Prop :=
  ∃ s, IsMissingFiles s ∧ ReturnsFromCheck c edit saveManifest w s

/-- No file of this number is listed, of whatever type. -/
def Disk.Unlisted (L : Logging) (d : Disk) (n : ℕ) : Prop := ∀ type, ¬d.Has L type n

/-! ### What the code does -/

section

variable {c : Context} {w : World} {m : Manifest} {edit : VersionEdit} {save : Bool}

/-- `Recover` behind the listing. -/
def recoverListed (c : Context) (v : VersionSet) (filenames : List Bytes) (p : Progress) :
    Prog (Status × Progress) :=
  match (missingFiles c.X.logging v.live filenames).min? with
  | some first => do
    Proc.assert (0 < first)
    let size := (missingFiles c.X.logging v.live filenames).length
    pure (.corruption (Bytes.text (Codec.decimal size) ++ " missing files; e.g.")
      (Bytes.text (tableFileName c.dbname first)), p)
  | none => do
    let logs := sortedLogs c.X.logging v.logNumber v.prevLogNumber filenames
    let (s, p) ← recoverLogs c logs p
    if s.isOk then do
      modifyImpl fun i => { i with versions := { i.versions with
        lastSequence :=
          if i.versions.lastSequence < p.maxSequence then p.maxSequence
          else i.versions.lastSequence } }
      pure (.ok, p)
    else pure (s, p)

theorem outcome_getChildren_bind {α : Type} {f : Status × List Bytes → Prog α} :
    (getChildren c >>= f).outcome w =
      (f ((c.env w.calls.length .getChildren).status,
        if (c.env w.calls.length .getChildren).status.isOk then w.disk.children
        else (c.env w.calls.length .getChildren).names)).outcome
      (w.after .getChildren (c.env w.calls.length .getChildren) w.disk) := rfl

/-- The listing, and what is behind it. -/
theorem recoverFiles_outcome {p : Progress}
    (hlists : (c.env w.calls.length .getChildren).status.isOk = true) :
    (recoverFiles c p).outcome w = (recoverListed c w.impl.versions w.disk.children p).outcome
      (w.after .getChildren (c.env w.calls.length .getChildren) w.disk) := by
  rw [recoverFiles, outcome_get_bind, outcome_getChildren_bind, if_pos hlists]
  dsimp only
  rw [if_pos hlists]
  rfl

variable (edit save)

/-- The way to the manifest: the lock is taken, and `CURRENT` is there. -/
theorem recover_locked (h : Loads c w m) : ∃ u, u.disk = w.disk ∧
    u.calls.map Prod.fst = w.calls.map Prod.fst ++ [.createDir, .lockFile, .fileExistsCurrent] ∧
    (recover c edit save).outcome w = (recoverVersions c edit save).outcome u := by
  have hcurrent : w.disk.fileExists (chars "CURRENT") = true :=
    Disk.fileExists_iff.mpr (w.disk.current (by rw [h.manifest]; rfl))
  have hlock := h.locks
  rw [recover, outcome_call_bind, outcome_get_bind, outcome_assert_bind (by simp [h.unlocked]),
    outcome_call_bind]
  generalize ht : w.after .createDir (c.env w.calls.length .createDir) w.disk = t
  have htcalls : t.calls.length = w.calls.length + 1 := by simp [← ht]
  rw [htcalls, if_pos hlock, modifyImpl, outcome_modify_bind, outcome_get_bind, outcome_call_bind]
  generalize hu : ({ (t.after .lockFile _ t.disk) with impl := _ } : World) = u
  have hudisk : u.disk = w.disk := by simp [← hu, ← ht]
  refine ⟨u.after .fileExistsCurrent (c.env u.calls.length .fileExistsCurrent) u.disk, hudisk,
    ?_, ?_⟩
  · simp [← hu, ← ht]
  · rw [if_neg (by simp [hudisk, hcurrent])]

/-- The way from the manifest to the check. -/
theorem recoverVersions_listed (hm : w.disk.manifest = some m)
    (hrecovers : (c.env w.calls.length .recoverVersions).status.isOk = true)
    (hlists : (c.env (w.calls.length + 1) .getChildren).status.isOk = true) :
    ∃ u p, u.disk = w.disk ∧ u.impl.versions.live = m.live ∧
      u.calls.map Prod.fst = w.calls.map Prod.fst ++ [.recoverVersions, .getChildren] ∧
      (recoverVersions c edit save).outcome w =
        (recoverListed c u.impl.versions w.disk.children p).outcome u := by
  obtain ⟨t, load, hdisk, hlive, hcalls, hload⟩ : ∃ t load, t.disk = w.disk ∧
      t.impl.versions.live = m.live ∧
      t.calls = w.calls ++ [(.recoverVersions, c.env w.calls.length .recoverVersions)] ∧
      (versionsRecover c save).outcome w = (t, some (.ok, load)) := by
    rw [versionsRecover, outcome_get_bind, outcome_call_bind, hm]
    dsimp only
    rw [if_pos hrecovers]
    refine ⟨_, _, ?_, ?_, ?_, rfl⟩ <;> rfl
  have hok : Status.ok.isOk = true := rfl
  rw [recoverVersions, outcome_bind hload]
  dsimp only
  rw [if_pos hok, recoverFiles_outcome (by simpa [hcalls] using hlists), hdisk]
  exact ⟨t.after .getChildren (c.env t.calls.length .getChildren) w.disk, _, rfl, hlive,
    by simp [hcalls], rfl⟩

/-- **The way to the check.** -/
theorem recover_listed (h : Loads c w m) : ∃ u p, u.disk = w.disk ∧
    u.impl.versions.live = m.live ∧
    u.calls.map Prod.fst = w.calls.map Prod.fst ++ callsToCheck ∧
    (recover c edit save).outcome w =
      (recoverListed c u.impl.versions w.disk.children p).outcome u := by
  obtain ⟨t, htdisk, htcalls, htoutcome⟩ := recover_locked edit save h
  have hlength : t.calls.length = w.calls.length + 3 := by
    simpa using congrArg List.length htcalls
  obtain ⟨u, p, hdisk, hlive, hcalls, houtcome⟩ := recoverVersions_listed edit save
    (htdisk ▸ h.manifest) (by rw [hlength]; exact h.recovers) (by rw [hlength]; exact h.lists)
  refine ⟨u, p, hdisk.trans htdisk, hlive, ?_, ?_⟩
  · rw [hcalls, htcalls, List.append_assoc]
    rfl
  · rw [htoutcome, houtcome, htdisk]

/-! ### The check -/

omit edit save in
/-- Some live number is left over. -/
theorem min?_missingFiles {L : Logging} {live : List ℕ} {filenames : List Bytes} {first : ℕ}
    (hmin : (missingFiles L live filenames).min? = some first) :
    0 < first ↔ 0 ∉ missingFiles L live filenames := by
  have hleast := List.min?_eq_some_iff.mp hmin
  constructor
  · intro hpos h0
    exact absurd (hleast.2 0 h0) (by omega)
  · intro h0
    exact Nat.pos_of_ne_zero fun h => h0 (h ▸ hleast.1)

/-- The status of the check, where numbers are left over. -/
def missingStatus (c : Context) (live : List ℕ) (filenames : List Bytes) (first : ℕ) : Status :=
  .corruption (Bytes.text (Codec.decimal (missingFiles c.X.logging live filenames).length) ++
    " missing files; e.g.") (Bytes.text (tableFileName c.dbname first))

/-- **The check reports** exactly where numbers are left over, and 0 is none of them. -/
theorem returnsFromCheck_iff (h : Loads c w m) {s : Status} (hs : IsMissingFiles s) :
    ReturnsFromCheck c edit save w s ↔
      ∃ first, (missingFiles c.X.logging m.live w.disk.children).min? = some first ∧
        0 < first ∧ s = missingStatus c m.live w.disk.children first := by
  obtain ⟨u, p, hdisk, hlive, hcalls, houtcome⟩ := recover_listed edit save h
  rw [ReturnsFromCheck, returns_congr houtcome, recoverListed, hlive]
  cases hmin : (missingFiles c.X.logging m.live w.disk.children).min? with
  | some first =>
    dsimp only
    rw [returns_bind, returns_assert, returns_pure, decide_eq_true_eq]
    constructor
    · rintro ⟨hpos, hstatus, -⟩
      exact ⟨first, rfl, hpos, hstatus.symm⟩
    · rintro ⟨_, heq, hpos, hstatus⟩
      obtain rfl := Option.some.inj heq
      exact ⟨hpos, hstatus.symm, hcalls⟩
  | none =>
    refine iff_of_false (fun hreturns => ?_) (by simp)
    dsimp only at hreturns
    rw [returns_bind] at hreturns
    cases hlogs : sortedLogs c.X.logging u.impl.versions.logNumber
        u.impl.versions.prevLogNumber w.disk.children with
    | nil =>
      -- there is no log, and the status is OK
      rw [hlogs, recoverLogs, returns_pure] at hreturns
      obtain ⟨k, name, rfl⟩ := hs
      exact absurd hreturns.1 (by simp [Status.corruption])
    | cons log logs =>
      -- the first log is opened
      rw [hlogs, recoverLogs, returns_bind, recoverLogFile, returns_bind, returns_assert,
        returns_bind, returns_call] at hreturns
      obtain ⟨a, t, ht, hreturns⟩ := hreturns.2.exists_le
      obtain ⟨b, t', ht', hreturns⟩ := hreturns.exists_le
      obtain ⟨x, t'', ht'', -, hcalls'⟩ := hreturns.exists_le
      have hlong := ((ht.trans ht').trans ht'').length_le
      have hlength := congrArg List.length (hcalls'.trans hcalls.symm)
      simp only [List.length_map, World.after_calls, List.length_append,
        List.length_singleton] at hlong hlength
      omega

/-! ### Live numbers and listed files -/

section

variable {L : Logging} {d : Disk} {n : ℕ}

/-- A number is ticked off where a file of it is listed. -/
theorem mem_missingFiles {live : List ℕ} :
    n ∈ missingFiles L live d.children ↔ n ∈ live ∧ d.Unlisted L n := by
  rw [missingFiles, List.mem_filter, List.mem_dedup, decide_eq_true_eq]
  refine and_congr_right fun _ => ?_
  simp only [parsed, List.mem_map, List.mem_filterMap, Disk.Unlisted, Disk.Has, Prod.exists]
  constructor
  · rintro hnot type ⟨name, hname, hparse⟩
    exact hnot ⟨n, type, ⟨name, hname, hparse⟩, rfl⟩
  · rintro hnot ⟨_, type, ⟨name, hname, hparse⟩, rfl⟩
    exact hnot type ⟨name, hname, hparse⟩

end

/-- **`Recover` reports missing files** exactly where a live number is listed under no type. -/
theorem reportsMissing_iff (h : Loads c w m) : ReportsMissing c edit save w ↔
    (∃ n ∈ m.live, w.disk.Unlisted c.X.logging n) ∧
      ¬(0 ∈ m.live ∧ w.disk.Unlisted c.X.logging 0) := by
  rw [← mem_missingFiles]
  constructor
  · rintro ⟨s, hs, hreturns⟩
    obtain ⟨first, hmin, hpos, -⟩ := (returnsFromCheck_iff edit save h hs).mp hreturns
    have hmem := (List.min?_eq_some_iff.mp hmin).1
    exact ⟨⟨first, mem_missingFiles.mp hmem⟩, (min?_missingFiles hmin).mp hpos⟩
  · rintro ⟨⟨n, hn⟩, h0⟩
    cases hmin : (missingFiles c.X.logging m.live w.disk.children).min? with
    | none =>
      have hnil := List.min?_eq_none_iff.mp hmin
      exact absurd (mem_missingFiles.mpr hn) (by simp [hnil])
    | some first =>
      have hs : IsMissingFiles (missingStatus c m.live w.disk.children first) := ⟨_, _, rfl⟩
      exact ⟨_, hs, (returnsFromCheck_iff edit save h hs).mpr
        ⟨first, hmin, (min?_missingFiles hmin).mpr h0, rfl⟩⟩

/-- **The order of the listing** does not matter to the check. -/
theorem missingFiles_perm {L : Logging} {live : List ℕ} {filenames filenames' : List Bytes}
    (h : filenames.Perm filenames') :
    missingFiles L live filenames = missingFiles L live filenames' := by
  refine List.filter_congr fun n _ => ?_
  exact decide_eq_decide.mpr
    (not_congr ((h.filterMap (parseFileName L)).map Prod.fst).mem_iff)

/-- **When missing tables are detected**: the report is right exactly where every live number
has a table in the listing, or some live number is not listed at all – and 0, for which no
table can be named, is none of these. It does not depend on the order of the listing. -/
theorem recover_missing_iff (h : Loads c w m) :
    ((ReportsMissing c edit save w ↔ ∃ n ∈ m.live, ¬w.disk.Has c.X.logging .kTableFile n) ↔
      (∀ n ∈ m.live, w.disk.Has c.X.logging .kTableFile n) ∨
        (∃ n ∈ m.live, w.disk.Unlisted c.X.logging n) ∧
          ¬(0 ∈ m.live ∧ w.disk.Unlisted c.X.logging 0)) ∧
      ∀ w' s, Loads c w' m → w'.disk.children.Perm w.disk.children → IsMissingFiles s →
        (ReturnsFromCheck c edit save w' s ↔ ReturnsFromCheck c edit save w s) := by
  constructor
  · rw [reportsMissing_iff edit save h]
    constructor
    · intro hiff
      by_cases hall : ∀ n ∈ m.live, w.disk.Has c.X.logging .kTableFile n
      · exact .inl hall
      · push Not at hall
        exact .inr (hiff.mpr hall)
    · rintro (hall | hunlisted)
      · -- what has a table is listed
        refine iff_of_false ?_ ?_
        · rintro ⟨⟨n, hn, hnot⟩, -⟩
          exact hnot .kTableFile (hall n hn)
        · rintro ⟨n, hn, hnot⟩
          exact hnot (hall n hn)
      · obtain ⟨⟨n, hn, hnot⟩, -⟩ := id hunlisted
        exact iff_of_true hunlisted ⟨n, hn, hnot .kTableFile⟩
  · intro w' s h' hperm hs
    have hmissing : missingFiles c.X.logging m.live w'.disk.children =
        missingFiles c.X.logging m.live w.disk.children := missingFiles_perm hperm
    rw [returnsFromCheck_iff edit save h' hs, returnsFromCheck_iff edit save h hs]
    simp only [missingStatus, hmissing]

end

/-! ### A log that stands in for a table -/

/-- A database with the live table 5, and what is listed under that number. -/
def liveFive (name : Bytes) : Disk where
  manifest := some ⟨1, 0, 0, 0, [5]⟩
  children := [chars "CURRENT", chars "MANIFEST-000001", name]
  log _ := []
  table _ := []
  current _ := List.mem_cons_self

theorem liveFive_loads (name : Bytes) :
    Loads (healthy {}) ⟨liveFive name, {}, []⟩ ⟨1, 0, 0, 0, [5]⟩ := ⟨rfl, rfl, rfl, rfl, rfl⟩

/-- **A log is taken for a table**: the table 5 is missing, and is not reported. -/
theorem reportsMissing_log : ¬(ReportsMissing (healthy {}) {} false
      ⟨liveFive (logFileName [] 5), {}, []⟩ ↔
    ∃ n ∈ [5], ¬(liveFive (logFileName [] 5)).Has leveldbLogging .kTableFile n) := by
  rw [reportsMissing_iff _ _ (liveFive_loads _)]
  intro h
  have hlog : (liveFive (logFileName [] 5)).Has leveldbLogging .kLogFile 5 :=
    ⟨logFileName [] 5, by simp [liveFive],
      parseFileName_logFileName leveldbLogging_lawful (by omega)⟩
  have hmissing : ¬(liveFive (logFileName [] 5)).Has leveldbLogging .kTableFile 5 := by
    rintro ⟨name, hname, hparse⟩
    simp only [liveFive, List.mem_cons, List.not_mem_nil, or_false] at hname
    rcases hname with rfl | rfl | rfl <;> exact absurd hparse (by decide)
  obtain ⟨⟨n, hn, hnot⟩, -⟩ := h.mpr ⟨5, List.mem_singleton.mpr rfl, hmissing⟩
  obtain rfl := List.mem_singleton.mp hn
  exact hnot .kLogFile hlog

/-- With the table in its place, nothing is reported, and nothing is missing. -/
theorem recover_missing_iff_five : ReportsMissing (healthy {}) {} false
      ⟨liveFive (tableFileName [] 5), {}, []⟩ ↔
    ∃ n ∈ [5], ¬(liveFive (tableFileName [] 5)).Has leveldbLogging .kTableFile n := by
  refine (recover_missing_iff {} false (liveFive_loads (tableFileName [] 5))).1.mpr (.inl ?_)
  intro n hn
  obtain rfl := List.mem_singleton.mp hn
  exact ⟨tableFileName [] 5, by simp [liveFive],
    parseFileName_tableFileName leveldbLogging_lawful (by omega)⟩

end LevelDb
