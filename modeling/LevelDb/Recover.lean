import LevelDb.Table
import Mathlib.Data.List.Sort

/-!
# Recovering a database

`DBImpl::Recover`, `DBImpl::RecoverLogFile` and what they call in `db/dp_impl.cpp`
and `db/filename.cpp`.

`Recover` reads the committed manifest, lists the directory, and replays the logs it
selects in ascending order. `RecoverLogFile` inserts the records of one log into a
memtable of its own, which it writes out as a table whenever it outgrows the write
buffer, and at the end either hands over to the database – the last log is then
reopened for appending – or writes out too. The pointers `save_manifest`, `edit` and
`max_sequence` that both share are `LevelDb.Progress`.
-/

namespace LevelDb

open CrashLogic

/-- What recovery passes along by pointer. -/
structure Progress where
  edit : VersionEdit := {}
  saveManifest : Bool := false
  maxSequence : UInt64 := 0
  deriving DecidableEq, Repr

/-- The locals of `RecoverLogFile`, with what it passes along. -/
structure Replay extends Progress where
  mem : Option MemTable := none
  compactions : ℕ := 0
  status : Status := .ok
  deriving DecidableEq, Repr

variable (c : Context)

/-- Go on with the value of a function, or abort where an assertion failed. -/
def ofExcept {α : Type} : Except Fault α → Prog α
  | .ok a => pure a
  | .error _ => Proc.abort

/-! ### Replaying a log -/

/-- `DBImpl::MaybeIgnoreError`. -/
def maybeIgnoreError (s : Status) : Status :=
  if s.isOk || c.options.paranoidChecks then s else .ok

/-- The `last_seq` that recovery computes from the header of a batch. The count is
an `int`, and is extended with its sign. -/
def lastSequence (C : Coding) (b : WriteBatch) : UInt64 :=
  WriteBatchInternal.sequence C b + (WriteBatchInternal.count C b).toInt64.toUInt64 - 1

/-- `*max_sequence` after a record: the `last_seq` of its batch, where that is
greater. -/
def raise (C : Coding) (maxSequence : UInt64) (batch : WriteBatch) : UInt64 :=
  let lastSeq := lastSequence C batch
  if maxSequence < lastSeq then lastSeq else maxSequence

/-- The body of the replay loop, for a record that is large enough. -/
def replayRecord (log : ℕ) (record : Bytes) (r : Replay) : Prog Replay := do
  let batch ← ofExcept (WriteBatchInternal.setContents record)
  let mem := r.mem.getD []
  let _ ← call c (.insertInto log record)
  let (status, mem) ← ofExcept (WriteBatchInternal.insertInto c.X.coding batch mem)
  let status := maybeIgnoreError c status
  let r := { r with mem := some mem, status := status }
  if status.isOk then do
    let r := { r with maxSequence := raise c.X.coding r.maxSequence batch }
    if c.options.writeBufferSize < c.X.approximateMemoryUsage mem then do
      let (status, edit) ← writeLevel10Table c mem r.edit false
      pure { r with
        edit := edit
        saveManifest := true
        mem := none
        compactions := r.compactions + 1
        status := status }
    else pure r
  else pure r

/-- The replay loop. The reporter of corruptions only logs: its `status` is never
set. -/
def replayLoop (log : ℕ) : List LogItem → Replay → Prog Replay
  | [], r => pure r
  | .corruption bytes status :: items, r => do
    let _ ← call c (.reportCorruption log bytes status)
    replayLoop log items r
  | .record record :: items, r =>
    if r.status.isOk then
      if record.length < 12 then do
        let _ ← call c (.reportCorruption log record.length
          (.corruption "log record too small"))
        replayLoop log items r
      else do
        let r ← replayRecord c log record r
        if r.status.isOk then replayLoop log items r else pure r
    else pure r

/-- "See if we should keep reusing the last log file": the memtable that is left to
be written. -/
def reuseLog (log : ℕ) (lastLog : Bool) (r : Replay) : Prog (Option MemTable) :=
  if r.status.isOk && c.options.reuseLogs && lastLog && r.compactions == 0 then do
    let w ← Proc.get
    Proc.assert w.impl.logfile.isNone
    Proc.assert w.impl.log.isNone
    Proc.assert w.impl.mem.isNone
    let a ← call c (.getFileSize log)
    if a.status.isOk then do
      let b ← call c (.newAppendableFile log)
      if b.status.isOk then do
        modifyImpl fun i => { i with
          logfile := some log
          log := some ⟨log, a.size⟩
          logfileNumber := log
          mem := some (r.mem.getD []) }
        pure none
      else pure r.mem
    else pure r.mem
  else pure r.mem

/-- The end of `RecoverLogFile`: "mem did not get reused; compact it". -/
def writeLeftover (mem : Option MemTable) (r : Replay) : Prog (Status × Progress) :=
  match mem with
  | none => pure (r.status, r.toProgress)
  | some mem =>
    if r.status.isOk then do
      let (status, edit) ← writeLevel10Table c mem r.edit false
      pure (status, { r.toProgress with edit := edit, saveManifest := true })
    else pure (r.status, r.toProgress)

/-- `DBImpl::RecoverLogFile`. -/
def recoverLogFile (log : ℕ) (lastLog : Bool) (p : Progress) : Prog (Status × Progress) := do
  -- the assertion of `LogFileName`
  Proc.assert (0 < log)
  let a ← call c (.newSequentialFile log)
  if a.status.isOk then do
    let w ← Proc.get
    let r ← replayLoop c log (w.disk.log log) { p with }
    let mem ← reuseLog c log lastLog r
    writeLeftover c mem r
  else pure (maybeIgnoreError c a.status, p)

/-- The loop of `Recover` over the sorted logs. -/
def recoverLogs : List ℕ → Progress → Prog (Status × Progress)
  | [], p => pure (.ok, p)
  | log :: logs, p => do
    let (s, p) ← recoverLogFile c log logs.isEmpty p
    if s.isOk then do
      let _ ← call c (.markFileNumberUsed log)
      recoverLogs logs p
    else pure (s, p)

/-! ### A new database -/

/-- `SetCurrentFile`, for the manifest that `NewDb` has written. -/
def setCurrentFile (descriptorNumber : ℕ) : Prog Status := do
  let tmp := tempFileName [] descriptorNumber
  let a ← call c (.writeStringToFileSync tmp) fun a d =>
    if a.status.isOk then d.create tmp else d
  let s ← thenCall c a.status (.renameToCurrent tmp) fun a d =>
    if a.status.isOk then
      (d.delete c.X.logging tmp).commit ⟨descriptorNumber, 0, 0, 0, []⟩
    else d
  if s.isOk then pure s
  else do
    deleteFile c tmp
    pure s

/-- `DBImpl::NewDb`. -/
def newDb : Prog Status := do
  let manifest := (descriptorFileName [] 1).drop 1
  let a ← call c (.newWritableFile .kDescriptorFile 1) fun a d =>
    if a.status.isOk then d.create manifest else d
  if a.status.isOk then do
    let a ← call c .addRecord
    let s ← thenCall c a.status .closeManifest
    if s.isOk then setCurrentFile c 1
    else do
      deleteFile c manifest
      pure s
  else pure a.status

/-! ### Recovering -/

/-- The version set that a manifest is loaded as. Where `VersionSet::Recover` asks for
a new manifest, it has chosen the number of it. -/
def Manifest.load (m : Manifest) (a : Answer) : VersionSet where
  logNumber := m.logNumber
  prevLogNumber := m.prevLogNumber
  manifestFileNumber := if a.saveManifest then a.number.toNat else m.number
  lastSequence := m.lastSequence
  live := m.live

/-- `versions_->Recover(save_manifest)`: the status, and `*save_manifest`. -/
def versionsRecover (saveManifest : Bool) : Prog (Status × Bool) := do
  let w ← Proc.get
  let a ← call c .recoverVersions
  match w.disk.manifest with
  | none =>
    pure (if a.status.isOk then .corruption "" else a.status, saveManifest)
  | some m =>
    if a.status.isOk then do
      modifyImpl fun i => { i with versions := m.load a }
      pure (.ok, saveManifest || a.saveManifest)
    else pure (a.status, saveManifest)

/-- The numbers and types of the names that parse. -/
def parsed (L : Logging) (filenames : List Bytes) : List (ℕ × FileType) :=
  filenames.filterMap (parseFileName L)

/-- The expected files that are not listed under any type. -/
def missingFiles (L : Logging) (live : List ℕ) (filenames : List Bytes) : List ℕ :=
  live.dedup.filter fun n => n ∉ (parsed L filenames).map Prod.fst

/-- The logs that recovery selects from a listing, in its order. -/
def selectedLogs (L : Logging) (minLog prevLog : ℕ) (filenames : List Bytes) : List ℕ :=
  (parsed L filenames).filterMap fun
    | (number, type) =>
      if type = .kLogFile ∧ (minLog ≤ number ∨ number = prevLog) then some number else none

/-- The logs in the order in which they were generated. -/
def sortedLogs (L : Logging) (minLog prevLog : ℕ) (filenames : List Bytes) : List ℕ :=
  (selectedLogs L minLog prevLog filenames).insertionSort (· ≤ ·)

/-- The part of `Recover` behind `versions_->Recover`. -/
def recoverFiles (p : Progress) : Prog (Status × Progress) := do
  let w ← Proc.get
  let v := w.impl.versions
  let (s, filenames) ← getChildren c
  if s.isOk then
    match (missingFiles c.X.logging v.live filenames).min? with
    | some first => do
      -- the assertion of `TableFileName`
      Proc.assert (0 < first)
      let size := (missingFiles c.X.logging v.live filenames).length
      pure (.corruption (Bytes.text (Codec.decimal size) ++ " missing files; e.g.")
        (Bytes.text (tableFileName c.dbname first)), p)
    | none => do
      let logs := sortedLogs c.X.logging v.logNumber v.prevLogNumber filenames
      let (s, p) ← recoverLogs c logs p
      if s.isOk then do
        modifyImpl fun i => { i with versions := { i.versions with
          lastSequence :=
            if i.versions.lastSequence < p.maxSequence then p.maxSequence
            else i.versions.lastSequence } }
        pure (.ok, p)
      else pure (s, p)
  else pure (s, p)

/-- `Recover` from `versions_->Recover` on. -/
def recoverVersions (edit : VersionEdit) (saveManifest : Bool) : Prog (Status × Progress) := do
  let (s, saveManifest) ← versionsRecover c saveManifest
  if s.isOk then recoverFiles c { edit := edit, saveManifest := saveManifest }
  else pure (s, { edit := edit, saveManifest := saveManifest })

/-- `DBImpl::Recover`. A database that had to be created is reported as missing, and
`error_if_exists` is consulted where there is none. -/
def recover (edit : VersionEdit) (saveManifest : Bool) : Prog (Status × Progress) := do
  let p : Progress := { edit := edit, saveManifest := saveManifest }
  let _ ← call c .createDir
  let w ← Proc.get
  Proc.assert !w.impl.dbLock
  let a ← call c .lockFile
  if a.status.isOk then do
    modifyImpl fun i => { i with dbLock := true }
    let w ← Proc.get
    let _ ← call c .fileExistsCurrent
    if !w.disk.fileExists (chars "CURRENT") then
      if c.options.createIfMissing then do
        let s ← newDb c
        if s.isOk then
          pure (.invalidArgument c.dbname.text "does not exist (create_if_missing is false)", p)
        else pure (s, p)
      else if c.options.errorIfExists then
        pure (.invalidArgument c.dbname.text "exists (error_if_exists is true)", p)
      else recoverVersions c edit saveManifest
    else recoverVersions c edit saveManifest
  else pure (a.status, p)

/-! ### A database to run on -/

/-- The missing functions, as documented: the codecs, the parser, a memory usage that
grows with the entries, and an iterator in the order of insertion. -/
def documented : Externals where
  coding := leveldbCoding
  logging := leveldbLogging
  approximateMemoryUsage mem := (mem.map fun e => e.key.length + e.value.length + 16).sum
  newIterator mem := ⟨mem, .ok⟩

theorem documented_lawful : documented.Lawful :=
  ⟨leveldbCoding_lawful, leveldbLogging_lawful, fun _ => .refl _⟩

/-- An environment in which every call succeeds, and numbers grow with the calls. -/
def healthy (options : Options) : Context where
  X := documented
  env t _ := { number := UInt64.ofNat (t + 10), size := 1 }
  options := options
  dbname := chars "db/"

/-- A directory without a database. -/
def Disk.missing : Disk where
  manifest := none
  children := []
  log _ := []
  table _ := []
  current h := absurd h (by simp)

/-- A database that has only written its first log, with these records. -/
def oneLog (records : List Bytes) : Disk where
  manifest := some ⟨1, 0, 0, 0, []⟩
  children := [chars "CURRENT", chars "MANIFEST-000001", logFileName [] 3]
  log n := if n = 3 then records.map .record else []
  table _ := []
  current _ := List.mem_cons_self

end LevelDb
