import LevelDb.Open

/-!
# Flushing the immutable memtable

`DBImpl::CompactMemtable` of `db/dp_impl.cpp`: write the immutable memtable out as a
table, commit the table together with a log number that makes the older logs garbage,
drop the memtable and delete what is obsolete.

It is crash-safe: whatever was recoverable before is recoverable wherever it is
stopped. And it is all or nothing: either the memtable is dropped and its entries are
in a live table, or everything is as it was but for the background error
(`LevelDb.compactMemtable_safe`). What it starts from is `LevelDb.Rotated`, the state
that switching memtables leaves.
-/

namespace LevelDb

open CrashLogic

variable (c : Context)

/-! ### The code -/

/-- `shutting_down_.Acquire_Load()`. The destructor may have set it since it was last
looked at. -/
def acquireLoadShuttingDown : Prog Bool := do
  let a ← call c .loadShuttingDown
  modifyImpl fun i => { i with shuttingDown := i.shuttingDown || a.shuttingDown }
  let w ← Proc.get
  pure w.impl.shuttingDown

/-- `DBImpl::RecordBackgroundError`. -/
def recordBackgroundError (s : Status) : Prog Unit :=
  modifyImpl fun i => if i.bgError.isOk then { i with bgError := s } else i

/-- The status of `CompactMemtable` behind its look at `shutting_down_`. -/
def checkShutdown (s : Status) : Prog Status :=
  if s.isOk then do
    let shuttingDown ← acquireLoadShuttingDown c
    pure (if shuttingDown then .ioError "Deleting DB during memtable compaction" else s)
  else pure s

/-- "Replace immutable memtable with the generated Table". -/
def replaceMemtable (s : Status) (edit : VersionEdit) : Prog Status :=
  if s.isOk then do
    let w ← Proc.get
    logAndApply c ((edit.setPrevLogNumber 0).setLogNumber w.impl.logfileNumber)
  else pure s

/-- `DBImpl::CompactMemtable`. It returns its status, which the source keeps to itself:
it is OK where the memtable was dropped, and was recorded as the background error where
it is not. -/
def compactMemtable : Prog Status := do
  let w ← Proc.get
  match w.impl.imm with
  | none => Proc.abort
  | some imm => do
    let (s, edit) ← writeLevel10Table c imm {} true
    let s ← checkShutdown c s
    let s ← replaceMemtable c s edit
    if s.isOk then do
      modifyImpl fun i => { i with imm := none, hasImm := false }
      deleteObsoleteFiles c
      pure s
    else do
      recordBackgroundError s
      pure s

/-! ### What a flush starts from -/

/-- The entry is in a live table that exists. -/
def Disk.InLiveTable (L : Logging) (d : Disk) (e : Entry) : Prop :=
  ∃ m, d.manifest = some m ∧ ∃ n ∈ m.live, d.Has L .kTableFile n ∧ e ∈ d.table n

/-- **The memtables were switched**: the entries of the memtable are in the current log,
and those of the immutable one in older logs that recovery selects and that hold nothing
else but entries of live tables. -/
structure Rotated (X : Externals) (w : World) (m : Manifest) (imm : MemTable) : Prop where
  manifest : w.disk.manifest = some m
  agrees : Agrees w.impl.versions m
  immutable : w.impl.imm = some imm
  hasImm : w.impl.hasImm = true
  log : w.disk.Has X.logging .kLogFile w.impl.logfileNumber
  mem : ∀ e ∈ w.impl.mem.getD [], e ∈ w.disk.logEntries X.coding w.impl.logfileNumber
  older : ∀ e ∈ imm, ∃ n, (m.logNumber ≤ n ∧ n < w.impl.logfileNumber ∨ n = m.prevLogNumber) ∧
    w.disk.Has X.logging .kLogFile n ∧ e ∈ w.disk.logEntries X.coding n
  only : ∀ n, (m.logNumber ≤ n ∧ n < w.impl.logfileNumber ∨ n = m.prevLogNumber) →
    w.disk.Has X.logging .kLogFile n → ∀ e ∈ w.disk.logEntries X.coding n,
      e ∈ imm ∨ w.disk.InLiveTable X.logging e

/-- **What flushing relies on**: `NewFileNumber` does not return the number of an existing
log or of a live table. -/
def flushRely (L : Logging) (w : World) : LowerSet World where
  carrier := {t | w ≤ t → ∀ n ∈ newly w t, w.disk.Unused L n}
  lower' := by
    intro t u hut ht hwu n hn
    refine ht (hwu.trans hut) n ?_
    rw [newly_trans hwu hut]
    exact Or.inl hn

/-! ### What a flush keeps -/

/-- **What a flush must not lose**: whatever is recoverable, and what it holds in memory.
An entry of the memtable counts where its log is one that recovery selects. -/
def Held (X : Externals) (w : World) (m : Manifest) (imm : MemTable) (e : Entry) : Prop :=
  Recoverable X w.disk e ∨ e ∈ imm ∨ w.disk.InLiveTable X.logging e ∨
    (m.Selects w.impl.logfileNumber ∧ e ∈ w.impl.mem.getD [])

/-- The memtable was dropped, and its entries are in a live table. -/
structure Flushed (X : Externals) (imm : MemTable) (t : World) : Prop where
  dropped : t.impl.imm = none
  hasImm : t.impl.hasImm = false
  live : ∀ e ∈ imm, t.disk.InLiveTable X.logging e

/-- The immutable memtable is as it was, there is a background error, and no file has
gone but that of a table which the flush has numbered itself. -/
structure FlushFailed (X : Externals) (w t : World) : Prop where
  imm : t.impl.imm = w.impl.imm
  hasImm : t.impl.hasImm = w.impl.hasImm
  bgError : t.impl.bgError.isOk = false
  kept : ∀ type n, (type = .kTableFile → n ∉ newly w t) → w.disk.Has X.logging type n →
    t.disk.Has X.logging type n

section

variable {c} {A : LowerSet World} {w t u : World} {d : Disk} {m : Manifest} {imm : MemTable}
  {e : Entry} {X : Externals} {edit : VersionEdit} {s : Status}

/-- A live table is one way to be recoverable. -/
theorem Disk.InLiveTable.recoverable (h : d.InLiveTable X.logging e) : Recoverable X d e := by
  obtain ⟨m, hm, n, hn, hhas, he⟩ := h
  exact ⟨m, hm, Or.inl ⟨n, hn, hhas, he⟩⟩

/-- What is in a live table stays there where the live tables are spared. -/
theorem Disk.Spares.inLiveTable {L : Logging} {K : FileType → ℕ → Prop} {d' : Disk}
    (h : d.Spares L K d') (hK : ∀ m, d.manifest = some m → ∀ n ∈ m.live, K .kTableFile n)
    (he : d.InLiveTable L e) : d'.InLiveTable L e := by
  obtain ⟨m, hm, n, hn, hhas, he⟩ := he
  have hk := hK m hm n hn
  exact ⟨m, h.manifest.trans hm, n, hn, (h.has _ n hk).mpr hhas, by rwa [h.table n hk]⟩

/-- A commit only adds live tables. -/
theorem Disk.InLiveTable.committed {L : Logging} {v : VersionSet} (hm : d.manifest = some m)
    (he : d.InLiveTable L e) : (d.committed m v edit).InLiveTable L e := by
  obtain ⟨m', hm', n, hn, hhas, he⟩ := he
  obtain rfl : m = m' := Option.some.inj (hm.symm.trans hm')
  exact ⟨_, rfl, n, List.mem_append_left _ hn, has_committed hhas, he⟩

/-- What is in the tables of the edit is in a live table once it is committed. -/
theorem Disk.inLiveTable_of_contents {L : Logging} {v : VersionSet}
    (hhas : ∀ f ∈ edit.newFiles, d.Has L .kTableFile f.2.number)
    (he : e ∈ d.contents edit.newFiles) : (d.committed m v edit).InLiveTable L e := by
  obtain ⟨f, hf, he⟩ := List.mem_flatMap.mp he
  refine ⟨_, rfl, f.2.number, List.mem_append_right _ ?_, has_committed (hhas f hf), he⟩
  exact List.mem_map.mpr ⟨f, hf, rfl⟩

/-- What a flush must not lose is recoverable before it. -/
theorem Rotated.recoverable (h : Rotated X w m imm) (he : Held X w m imm e) :
    Recoverable X w.disk e := by
  rcases he with he | he | he | ⟨hsel, he⟩
  · exact he
  · obtain ⟨n, hn, hhas, he⟩ := h.older e he
    exact ⟨m, h.manifest, Or.inr ⟨n, hn.imp And.left id, hhas, he⟩⟩
  · exact he.recoverable
  · exact ⟨m, h.manifest, Or.inr ⟨_, hsel, h.log, h.mem e he⟩⟩

/-- The table was built, if the status is OK, and `edit` adds it; besides tables under
fresh numbers, nothing has changed but two fields that do not matter here. -/
structure Tabled (X : Externals) (w : World) (imm : MemTable) (s : Status) (edit : VersionEdit)
    (t : World) : Prop where
  frame : Frame X.logging w t
  impl : ∃ pending b, t.impl = { w.impl with pendingOutputs := pending, shuttingDown := b }
  table : s.isOk → ∃ files, edit = VersionEdit.addFiles {} files ∧
    FreshTables X.logging w t files ∧ (t.disk.contents files).Perm imm

/-- The look at `shutting_down_` can only turn the status into an error. -/
theorem checkShutdown_sat {I : World → Prop} (hI : ∀ t, Tabled c.X w imm s edit t → I t)
    (ht : Tabled c.X w imm s edit t) :
    Sat A (checkShutdown c s) t I fun s' u => Tabled c.X w imm s' edit u := by
  rw [checkShutdown]
  split_ifs with hs
  · rw [sat_bind, acquireLoadShuttingDown, sat_bind]
    refine sat_call (fun _ => hI t ht) fun a _ => ?_
    rw [sat_bind, sat_modifyImpl]
    intro _
    rw [sat_bind, sat_get]
    refine fun _ => sat_pure.mpr fun _ => sat_pure.mpr fun _ => ⟨?_, ?_, fun h => ?_⟩
    · exact (ht.frame.after .loadShuttingDown a).modify _
    · obtain ⟨pending, b, hi⟩ := ht.impl
      refine ⟨pending, b || a.shuttingDown, ?_⟩
      rw [World.after_impl, hi]
    · obtain ⟨files, hedit, hfresh, hperm⟩ := ht.table hs
      have hq : Call.loadShuttingDown.quiet = true := rfl
      have hnew : newly w (t.after .loadShuttingDown a t.disk) = newly w t :=
        newly_after ht.frame.le hq
      exact ⟨files, hedit, fun f hf => ⟨hnew ▸ (hfresh f hf).1, (hfresh f hf).2⟩, hperm⟩
  · exact sat_pure.mpr fun _ => ht

/-- The entries of the memtable are in a live table once the edit is committed. -/
theorem Tabled.inLiveTable (ht : Tabled X w imm s edit t) (hs : s.isOk) {n k : ℕ} {v : VersionSet}
    (he : e ∈ imm) : (t.disk.committed m v
      ((edit.setPrevLogNumber k).setLogNumber n)).InLiveTable X.logging e := by
  obtain ⟨files, rfl, hfresh, hperm⟩ := ht.table hs
  exact Disk.inLiveTable_of_contents (fun f hf => (hfresh f hf).2) (hperm.mem_iff.mpr he)

/-- **The commit of a flush** is safe: what the older logs hold is in the new table, or in
a live one. -/
theorem Tabled.safe_commit (h : Rotated X w m imm) (ht : Tabled X w imm s edit t)
    (htA : t ∈ flushRely X.logging w) (hs : s.isOk) (he : Recoverable X w.disk e) :
    Recoverable X (t.disk.committed m t.impl.versions
      ((edit.setPrevLogNumber 0).setLogNumber t.impl.logfileNumber)) e := by
  have hm : t.disk.manifest = some m := ht.frame.off.manifest.trans h.manifest
  have hnum : t.impl.logfileNumber = w.impl.logfileNumber := by
    obtain ⟨_, _, hi⟩ := ht.impl
    rw [hi]
  refine Disk.recoverable_committed hm (ht.frame.safe (htA ht.frame.le) e he) fun n hn hhas he => ?_
  by_cases hcur : w.impl.logfileNumber ≤ n
  · refine ⟨_, rfl, Or.inr ⟨n, Or.inl ?_, Disk.has_committed hhas, he⟩⟩
    rw [hnum]
    exact hcur
  · have hold : m.logNumber ≤ n ∧ n < w.impl.logfileNumber ∨ n = m.prevLogNumber :=
      hn.imp_left fun hle => ⟨hle, not_le.mp hcur⟩
    rw [Disk.logEntries, ht.frame.off.log] at he
    rcases h.only n hold (ht.frame.has_log.mp hhas) e he with himm | hlive
    · exact (ht.inLiveTable hs himm).recoverable
    · have hlive : t.disk.InLiveTable X.logging e :=
        (ht.frame.spares (htA ht.frame.le) h.manifest).inLiveTable (fun m' hm' n hn => by
          obtain rfl : m = m' := Option.some.inj (h.manifest.symm.trans hm')
          exact hn) hlive
      exact (hlive.committed hm).recoverable

/-- The edit was committed: the version set agrees with the manifest again, and the
entries of the immutable memtable are in live tables. -/
structure Replaced (X : Externals) (w : World) (imm : MemTable) (t : World) : Prop where
  safe : Safe X w.disk t
  agrees : ∃ m, t.disk.manifest = some m ∧ Agrees t.impl.versions m
  live : ∀ e ∈ imm, t.disk.InLiveTable X.logging e

/-- The edit was not committed, or may have been: the two fields are as they were, and no
file has gone but tables under fresh numbers. -/
structure Unreplaced (X : Externals) (w t : World) : Prop where
  safe : Safe X w.disk t
  imm : t.impl.imm = w.impl.imm
  hasImm : t.impl.hasImm = w.impl.hasImm
  kept : ∀ type n, (type = .kTableFile → n ∉ newly w t) → w.disk.Has X.logging type n →
    t.disk.Has X.logging type n

/-- **The commit of a flush**, however it ends. -/
theorem replaceMemtable_sat (h : Rotated c.X w m imm) (ht : Tabled c.X w imm s edit t)
    (htA : t ∈ flushRely c.X.logging w) :
    Sat (flushRely c.X.logging w) (replaceMemtable c s edit) t (Safe c.X w.disk) fun s' u =>
      if s'.isOk then Replaced c.X w imm u else Unreplaced c.X w u := by
  have hsafe := ht.frame.safe (htA ht.frame.le)
  have hm : t.disk.manifest = some m := ht.frame.off.manifest.trans h.manifest
  obtain ⟨_, _, hi⟩ := ht.impl
  have himm : t.impl.imm = w.impl.imm := by rw [hi]
  have hhasImm : t.impl.hasImm = w.impl.hasImm := by rw [hi]
  have hkept : ∀ {u : World} type n, t ≤ u → (type = .kTableFile → n ∉ newly w u) →
      w.disk.Has c.X.logging type n → t.disk.Has c.X.logging type n := by
    intro u type n htu hn
    refine (ht.frame.off.has type n fun htype hnew => hn htype ?_).mpr
    rw [newly_trans ht.frame.le htu]
    exact Or.inl hnew
  rw [replaceMemtable]
  split_ifs with hs
  · rw [sat_bind, sat_get]
    intro _
    refine logAndApply_sat hm (fun _ => hsafe) (fun a ha _ => ?_) (fun a ha _ => ?_) ?_
    · rw [if_neg (by simp [ha])]
      exact ⟨hsafe, himm, hhasImm, fun type n hn => hkept type n (t.le_after _ _ _) hn⟩
    · rw [if_neg (by simp [ha])]
      refine ⟨fun e => ht.safe_commit h htA hs, himm, hhasImm, fun type n hn hhas => ?_⟩
      exact Disk.has_committed (hkept type n (t.le_after _ _ _) hn hhas)
    · intro u _ _ hu s' hs'
      rw [if_pos hs']
      refine ⟨fun e he => hu.disk ▸ ht.safe_commit h htA hs he, ⟨_, by rw [hu.disk]; rfl, ?_⟩,
        fun e he => hu.disk ▸ ht.inLiveTable hs he⟩
      rw [hu.impl]
      refine .apply ?_
      rw [hi]
      exact h.agrees.live
  · refine sat_pure.mpr fun _ => ?_
    rw [if_neg hs]
    exact ⟨hsafe, himm, hhasImm, fun type n hn => hkept type n le_rfl hn⟩

/-- Deleting what is obsolete after the commit is safe, and keeps the live tables. -/
theorem Replaced.collected {pending : List ℕ} (h : Replaced X w imm t)
    (hu : Collected X.logging t.impl.versions (pending ++ t.impl.versions.live) t u) :
    Safe X w.disk u ∧ ∀ e ∈ imm, u.disk.InLiveTable X.logging e := by
  obtain ⟨m, hm, hagrees⟩ := h.agrees
  refine ⟨fun e he => hu.recoverable hm hagrees (h.safe e he), fun e he => ?_⟩
  refine hu.spares.inLiveTable (fun m' hm' n hn => ?_) (h.live e he)
  obtain rfl : m = m' := Option.some.inj (hm.symm.trans hm')
  rw [Kept, keep, decide_eq_true_eq, hagrees.live]
  exact List.mem_append_right _ hn

/-- **`CompactMemtable`**: safe wherever it is stopped, and all or nothing. -/
theorem compactMemtable_sat (hX : c.X.Lawful) (h : Rotated c.X w m imm) :
    Sat (flushRely c.X.logging w) (compactMemtable c) w (Safe c.X w.disk) fun s t =>
      Safe c.X w.disk t ∧ if s.isOk then Flushed c.X imm t else FlushFailed c.X w t := by
  rw [compactMemtable, sat_bind, sat_get]
  intro _
  rw [h.immutable]
  refine (writeLevel10Table_sat hX).seq (fun t _ ht hframe => hframe.safe (ht hframe.le)) ?_
  rintro ⟨s, edit⟩ t - - ⟨hquiet, files, hedit, hfresh, hperm⟩
  have ht : Tabled c.X w imm s edit t := by
    obtain ⟨pending, hi⟩ := hquiet.impl
    exact ⟨hquiet.frame, ⟨pending, _, hi⟩, fun hs => ⟨files, hedit, hfresh, hperm hs⟩⟩
  refine (checkShutdown_sat (I := fun t => Tabled c.X w imm s edit t) (fun _ h => h) ht).seq
    (fun t _ htA ht => ht.frame.safe (htA ht.frame.le)) fun s' t _ htA ht => ?_
  refine (replaceMemtable_sat h ht htA).seq (fun _ _ _ h => h) fun s'' u _ _ hu => ?_
  split_ifs at hu with hs
  · rw [if_pos hs, sat_bind, sat_modifyImpl]
    intro _
    generalize hu₁ : ({ u with impl := _ } : World) = u₁
    have hdisk : u₁.disk = u.disk := hu₁ ▸ rfl
    have hversions : u₁.impl.versions = u.impl.versions := hu₁ ▸ rfl
    have hdropped : u₁.impl.imm = none ∧ u₁.impl.hasImm = false := hu₁ ▸ ⟨rfl, rfl⟩
    have hrep : Replaced c.X w imm u₁ := by
      refine ⟨fun e he => hdisk ▸ hu.safe e he, ?_, fun e he => hdisk ▸ hu.live e he⟩
      rw [hdisk, hversions]
      exact hu.agrees
    refine (deleteObsoleteFiles_sat fun m' hm' => ?_).seq
      (fun _ _ _ hcol => (hrep.collected hcol).1) fun _ v _ _ hcol => sat_pure.mpr fun _ => ?_
    · obtain ⟨m, hm, hagrees⟩ := hrep.agrees
      obtain rfl : m = m' := Option.some.inj (hm.symm.trans hm')
      exact hagrees.manifestFileNumber.le
    · obtain ⟨hsafe, hlive⟩ := hrep.collected hcol
      rw [if_pos hs]
      exact ⟨hsafe, by rw [hcol.impl, hdropped.1], by rw [hcol.impl, hdropped.2], hlive⟩
  · rw [if_neg hs, sat_bind, recordBackgroundError, sat_modifyImpl]
    refine fun _ => sat_pure.mpr fun _ => ⟨hu.safe, ?_⟩
    rw [if_neg hs]
    refine ⟨?_, ?_, ?_, hu.kept⟩
    · split_ifs
      · exact hu.imm
      · exact hu.imm
    · split_ifs
      · exact hu.hasImm
      · exact hu.hasImm
    · split_ifs with hbg
      · exact Bool.eq_false_iff.mpr hs
      · exact Bool.eq_false_iff.mpr hbg

/-- **Flushing the immutable memtable is crash-safe and all or nothing**: what it must not
lose is recoverable in every state of its run; where it succeeds the memtable is dropped
and in a live table, and where it fails everything is as it was but for the background
error. -/
theorem compactMemtable_safe (hX : c.X.Lawful) (h : Rotated c.X w m imm) :
    (∀ t ∈ ((compactMemtable c).run w).states, t ∈ flushRely c.X.logging w →
      ∀ e, Held c.X w m imm e → Recoverable c.X t.disk e) ∧
    ∀ s, ((compactMemtable c).run w).result = some s →
      ((compactMemtable c).run w).final ∈ flushRely c.X.logging w →
        if s.isOk then Flushed c.X imm ((compactMemtable c).run w).final
        else FlushFailed c.X w ((compactMemtable c).run w).final := by
  have hsat := compactMemtable_sat hX h
  refine ⟨fun t ht htA e he => ?_, fun s hs hA => (hsat.result hs hA).2⟩
  exact hsat.states (fun _ _ h => h.1) t ht htA e (h.recoverable he)

/-- A database that has just switched memtables: the older log holds one entry, and the
current one nothing yet. -/
def rotated : World where
  disk :=
    { oneLog [WriteBatch.putAB.rep] with
      manifest := some ⟨1, 3, 0, 0, []⟩
      children := [chars "CURRENT", chars "MANIFEST-000001", logFileName [] 3, logFileName [] 5]
      current := fun _ => List.mem_cons_self }
  impl :=
    { mem := some []
      imm := some [⟨7, .kTypeValue, [97], [98]⟩]
      hasImm := true
      logfile := some 5
      logfileNumber := 5
      log := some ⟨5, 0⟩
      versions := { logNumber := 3, manifestFileNumber := 1 } }
  calls := []

theorem rotated_rotated :
    Rotated documented rotated ⟨1, 3, 0, 0, []⟩ [⟨7, .kTypeValue, [97], [98]⟩] where
  manifest := rfl
  agrees := ⟨rfl, rfl, rfl, rfl⟩
  immutable := rfl
  hasImm := rfl
  log := ⟨logFileName [] 5, by decide, by decide⟩
  mem _ he := absurd he List.not_mem_nil
  older e he := by
    obtain rfl := List.mem_singleton.mp he
    exact ⟨3, Or.inl ⟨le_rfl, by decide⟩, ⟨logFileName [] 3, by decide, by decide⟩, by decide⟩
  only n _ _ e he := by
    by_cases hn : n = 3
    · subst hn
      exact Or.inl he
    · have hnil : rotated.disk.logEntries documented.coding n = [] := by
        simp [Disk.logEntries, rotated, oneLog, hn]
        rfl
      rw [hnil] at he
      exact absurd he List.not_mem_nil

/-- A flush that succeeds. -/
theorem compactMemtable_safe_rotated :
    Flushed documented [⟨7, .kTypeValue, [97], [98]⟩]
      ((compactMemtable (healthy {})).run rotated).final := by
  have hunused : ∀ n ∈ taken ((compactMemtable (healthy {})).run rotated).final.calls,
      n ≠ 3 ∧ n ≠ 5 := by decide
  have hall : ∀ name ∈ rotated.disk.children, ∀ x ∈ parseFileName leveldbLogging name,
      x.2 = .kLogFile → x.1 = 3 ∨ x.1 = 5 := by decide
  have hsafe := compactMemtable_safe (c := healthy {}) documented_lawful rotated_rotated
  refine hsafe.2 .ok rfl fun _ n hn => ⟨?_, fun m hm => ?_⟩
  · rintro ⟨name, hname, hp⟩
    obtain ⟨h3, h5⟩ := hunused n hn
    exact (hall name hname _ hp rfl).elim h3 h5
  · obtain rfl : ⟨1, 3, 0, 0, []⟩ = m := Option.some.inj hm
    exact List.not_mem_nil

end

end LevelDb
