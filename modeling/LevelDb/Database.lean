import LevelDb.Filename
import LevelDb.WriteBatch.Insert
import LevelDb.Logic.Crash

/-!
# The state of a database, and its calls

What the code of `db/dp_impl.cpp` runs over: the files on disk, the fields of a
`DBImpl`, and the calls it makes to the `Env`, to the `VersionSet` and to the table
builder.

A program here is a `CrashLogic.Proc` over `LevelDb.World`. Every call is a place
where the process can be killed, and is written down together with the answer it
got (`LevelDb.call`). Answers are arbitrary: `LevelDb.Env` maps the position of a
call in the run, and the call, to the answer, so that a statement for every `Env`
is a statement for every outcome of every call.

The code behind these calls that is not in the repository enters in two ways. Pure
functions are parameters (`LevelDb.Externals`). Effects are those the callers rely
on: a file that is created shows in the listing of the directory and one that is
deleted does not; `FileExists` tells whether the file exists, and `GetChildren`,
where it returns OK, what the directory holds; `VersionSet::LogAndApply` commits its
edit to the manifest, or does not, and never in part.
-/

namespace LevelDb

open CrashLogic

/-! ### Files -/

/-- What reading a log yields, in order: a record that `ReadRecord` returns, or a
corruption that the reader reports. -/
inductive LogItem
  | record (contents : Bytes)
  | corruption (bytes : ℕ) (status : Status)
  deriving DecidableEq, Repr

/-- The manifest that `CURRENT` leads to, as committed. -/
structure Manifest where
  /-- The number of the manifest file. -/
  number : ℕ
  logNumber : ℕ
  prevLogNumber : ℕ
  lastSequence : UInt64
  /-- The numbers of the live tables. -/
  live : List ℕ
  deriving DecidableEq, Repr

/-- **The disk**: the committed manifest that `CURRENT` leads to, where it leads to
one, the names in the directory, and the contents of the logs and of the tables by
number. A numbered file exists when a name in the directory parses to it.

The names are those that `GetChildren` lists, without the directory, and a file is created
under the name that the builder makes for it behind the directory. This is the code where
`dbname_` ends in `/`: `MakeFileName` puts no separator between the two. -/
structure Disk where
  manifest : Option Manifest
  children : List Bytes
  log : ℕ → List LogItem
  table : ℕ → List Entry
  current : manifest.isSome → chars "CURRENT" ∈ children

namespace Disk

/-- The file of this type and number exists. -/
def Has (L : Logging) (d : Disk) (type : FileType) (number : ℕ) : Prop :=
  ∃ name ∈ d.children, parseFileName L name = some (number, type)

/-- `Env::FileExists`: the directory lists the name. -/
def fileExists (d : Disk) (name : Bytes) : Bool := decide (name ∈ d.children)

@[simp]
theorem fileExists_iff {d : Disk} {name : Bytes} : d.fileExists name ↔ name ∈ d.children :=
  decide_eq_true_iff

/-- Create the file of this name, or truncate it: its name is in the directory. -/
def create (d : Disk) (name : Bytes) : Disk where
  manifest := d.manifest
  children := if name ∈ d.children then d.children else d.children ++ [name]
  log := d.log
  table := d.table
  current h := by
    split_ifs
    · exact d.current h
    · exact List.mem_append_left _ (d.current h)

/-- Delete the file of this name. The committed manifest goes with its file, and with
`CURRENT`. -/
def delete (L : Logging) (d : Disk) (name : Bytes) : Disk where
  manifest := d.manifest.filter fun m =>
    name ≠ chars "CURRENT" ∧ parseFileName L name ≠ some (m.number, .kDescriptorFile)
  children := d.children.filter (· ≠ name)
  log := d.log
  table := d.table
  current h := by
    obtain ⟨m, hm⟩ := Option.isSome_iff_exists.mp h
    obtain ⟨hm, hne⟩ := Option.filter_eq_some_iff.mp hm
    simp only [ne_eq, Bool.decide_and, Bool.and_eq_true, decide_eq_true_eq] at hne
    exact List.mem_filter.mpr ⟨d.current (by rw [hm]; rfl), by simpa using fun h => hne.1 h.symm⟩

/-- Set the contents of a table. -/
def setTable (d : Disk) (number : ℕ) (entries : List Entry) : Disk :=
  { d with table := Function.update d.table number entries }

/-- Empty a log. -/
def clearLog (d : Disk) (number : ℕ) : Disk := { d with log := Function.update d.log number [] }

/-- Commit: point `CURRENT` to a manifest. -/
def commit (d : Disk) (m : Manifest) : Disk where
  manifest := some m
  children := (d.create (chars "CURRENT")).children
  log := d.log
  table := d.table
  current _ := by
    rw [create]
    split_ifs with h
    · exact h
    · exact List.mem_append_right _ (List.mem_singleton.mpr rfl)

end Disk

/-! ### Version edits -/

/-- An internal key: a user key, a sequence number and a kind. -/
structure InternalKey where
  userKey : Bytes
  sequence : UInt64
  kind : ValueType
  deriving DecidableEq, Repr

/-- The internal key of an entry. -/
def Entry.internalKey (e : Entry) : InternalKey := ⟨e.key, e.sequence, e.kind⟩

/-- `FileMetaData`. The two keys are unset until a table is built. -/
structure FileMetaData where
  number : ℕ
  fileSize : ℕ := 0
  smallest : Option InternalKey := none
  largest : Option InternalKey := none
  deriving DecidableEq, Repr

/-- `VersionEdit`: the fields that opening and flushing set. A new file comes with
its level. -/
structure VersionEdit where
  logNumber : Option ℕ := none
  prevLogNumber : Option ℕ := none
  newFiles : List (ℕ × FileMetaData) := []
  deriving DecidableEq, Repr

namespace VersionEdit

/-- `VersionEdit::AddFile`. -/
def addFile (edit : VersionEdit) (level : ℕ) (file : FileMetaData) : VersionEdit :=
  { edit with newFiles := edit.newFiles ++ [(level, file)] }

/-- `VersionEdit::SetLogNumber`. -/
def setLogNumber (edit : VersionEdit) (n : ℕ) : VersionEdit := { edit with logNumber := some n }

/-- `VersionEdit::SetPrevLogNumber`. -/
def setPrevLogNumber (edit : VersionEdit) (n : ℕ) : VersionEdit :=
  { edit with prevLogNumber := some n }

/-- The numbers of the files added. -/
def newNumbers (edit : VersionEdit) : List ℕ := edit.newFiles.map fun f => f.2.number

end VersionEdit

/-- The fields of a `VersionSet` that the database reads. -/
structure VersionSet where
  logNumber : ℕ := 0
  prevLogNumber : ℕ := 0
  manifestFileNumber : ℕ := 0
  lastSequence : UInt64 := 0
  /-- What `AddLiveFiles` adds. -/
  live : List ℕ := []
  deriving DecidableEq, Repr

/-- The version set after an edit was applied. -/
def VersionSet.apply (v : VersionSet) (edit : VersionEdit) : VersionSet where
  logNumber := edit.logNumber.getD v.logNumber
  prevLogNumber := edit.prevLogNumber.getD v.prevLogNumber
  manifestFileNumber := v.manifestFileNumber
  lastSequence := v.lastSequence
  live := v.live ++ edit.newNumbers

/-- The manifest after a version set committed an edit to it. -/
def Manifest.apply (m : Manifest) (v : VersionSet) (edit : VersionEdit) : Manifest where
  number := v.manifestFileNumber
  logNumber := edit.logNumber.getD v.logNumber
  prevLogNumber := edit.prevLogNumber.getD v.prevLogNumber
  lastSequence := v.lastSequence
  live := m.live ++ edit.newNumbers

/-! ### The database object -/

/-- A `log::Writer`: the log it appends to, and where. -/
structure LogWriter where
  number : ℕ
  offset : ℕ
  deriving DecidableEq, Repr

/-- The fields of a `DBImpl`. A pointer is an option. The constructor sets neither `imm_` nor
`logfile_`; that they start as null pointers is assumed here. -/
structure DBImpl where
  dbLock : Bool := false
  shuttingDown : Bool := false
  mem : Option MemTable := none
  imm : Option MemTable := none
  hasImm : Bool := false
  /-- The number of the log that `logfile_` appends to. -/
  logfile : Option ℕ := none
  logfileNumber : ℕ := 0
  log : Option LogWriter := none
  bgCompactionScheduled : Bool := false
  manualCompaction : Bool := false
  bgError : Status := .ok
  pendingOutputs : List ℕ := []
  versions : VersionSet := {}
  deriving DecidableEq, Repr

/-! ### Calls -/

/-- A call, with the arguments that matter. -/
inductive Call
  | createDir
  | lockFile
  | unlockFile
  | fileExistsCurrent
  | getChildren
  | newWritableFile (type : FileType) (number : ℕ)
  | newSequentialFile (number : ℕ)
  | newAppendableFile (number : ℕ)
  | getFileSize (number : ℕ)
  | deleteFile (name : Bytes)
  | addRecord
  | closeManifest
  | writeStringToFileSync (name : Bytes)
  | renameToCurrent (name : Bytes)
  | finishTable (number : ℕ)
  | syncTable (number : ℕ)
  | closeTable (number : ℕ)
  | verifyTable (number : ℕ)
  | insertInto (log : ℕ) (record : Bytes)
  | reportCorruption (log : ℕ) (bytes : ℕ) (status : Status)
  | recoverVersions
  | newFileNumber
  | markFileNumberUsed (number : ℕ)
  | pickLevelForMemTableOutput
  | loadShuttingDown
  | logAndApply (edit : VersionEdit)
  | needsCompaction
  | schedule
  deriving DecidableEq, Repr

/-- **The answer to a call.** Each call reads the fields it has a use for. -/
structure Answer where
  /-- The status returned. -/
  status : Status := .ok
  /-- The number that `NewFileNumber` returns, and that of a new manifest. -/
  number : UInt64 := 0
  /-- The size of a log, or of a finished table. -/
  size : ℕ := 0
  /-- Whether `VersionSet::Recover` asks for a new manifest. -/
  saveManifest : Bool := false
  /-- Whether a `LogAndApply` that failed had committed its edit nevertheless. -/
  committed : Bool := false
  needsCompaction : Bool := false
  /-- Whether `shutting_down_` was found set. -/
  shuttingDown : Bool := false
  level : ℕ := 0
  /-- What a `GetChildren` that failed leaves behind. -/
  names : List Bytes := []
  deriving DecidableEq, Repr

/-- **The environment**: the answer to the `t`-th call of a run. -/
abbrev Env := ℕ → Call → Answer

/-- The state of a run. -/
structure World where
  disk : Disk
  impl : DBImpl
  /-- The calls made so far, with their answers. -/
  calls : List (Call × Answer)

/-- A world is above another one when its calls extend the other's. -/
instance : Preorder World where
  le w t := w.calls <+: t.calls
  le_refl w := List.prefix_refl w.calls
  le_trans _ _ _ := List.IsPrefix.trans

/-- The world after a call: the disk it left, and the call written down. -/
def World.after (w : World) (what : Call) (a : Answer) (d : Disk) : World :=
  ⟨d, w.impl, w.calls ++ [(what, a)]⟩

section

variable (w : World) (what : Call) (a : Answer) (d : Disk)

@[simp] theorem World.after_disk : (w.after what a d).disk = d := rfl

@[simp] theorem World.after_impl : (w.after what a d).impl = w.impl := rfl

@[simp] theorem World.after_calls : (w.after what a d).calls = w.calls ++ [(what, a)] := rfl

theorem World.le_after : w ≤ w.after what a d := List.prefix_append _ _

end

/-- An iterator over the entries of a memtable, and its status. -/
structure Iterator where
  entries : List Entry
  status : Status
  deriving DecidableEq, Repr

/-- The functions that the database calls and that are not in the repository:
codecs, the decimal parser, and `MemTable`. -/
structure Externals where
  coding : Coding
  logging : Logging
  approximateMemoryUsage : MemTable → ℕ
  newIterator : MemTable → Iterator

/-- **What the database relies on**: the codecs, the parser, and an iterator that
goes over every entry of its memtable once. -/
structure Externals.Lawful (X : Externals) : Prop where
  coding : X.coding.Lawful
  logging : X.logging.Lawful
  newIterator_perm : ∀ mem, (X.newIterator mem).entries.Perm mem

/-- The options that opening reads. -/
structure Options where
  createIfMissing : Bool := false
  errorIfExists : Bool := false
  paranoidChecks : Bool := false
  reuseLogs : Bool := false
  writeBufferSize : ℕ := 4 * 1024 * 1024
  deriving DecidableEq, Repr

/-- Everything a program runs against: the missing code, the environment, the
options and the name of the database, which ends in `/` (`LevelDb.Disk`). -/
structure Context where
  X : Externals
  env : Env
  options : Options
  dbname : Bytes

/-- A program over the state of a run. -/
abbrev Prog := Proc World

variable (c : Context)

/-- **Make a call**: consult the environment, write the call down, and let the
answer act on the disk. -/
def call (what : Call) (effect : Answer → Disk → Disk := fun _ d => d) : Prog Answer :=
  Proc.step
    (fun w =>
      let a := c.env w.calls.length what
      (w.after what a (effect a w.disk), a))
    fun w => w.le_after _ _ _

/-- Change fields of the database object. -/
def modifyImpl (f : DBImpl → DBImpl) : Prog Unit :=
  Proc.modify (fun w => { w with impl := f w.impl }) fun w => List.prefix_refl w.calls

/-- `if (s.ok()) s = call`. -/
def thenCall (s : Status) (what : Call) (effect : Answer → Disk → Disk := fun _ d => d) :
    Prog Status :=
  if s.isOk then do
    let a ← call c what effect
    pure a.status
  else pure s

/-- `env->GetChildren(dbname_, &filenames)`. -/
def getChildren : Prog (Status × List Bytes) := do
  let w ← Proc.get
  let a ← call c .getChildren
  pure (a.status, if a.status.isOk then w.disk.children else a.names)

/-- `env->DeleteFile`, its status ignored. -/
def deleteFile (name : Bytes) : Prog Unit := do
  let _ ← call c (.deleteFile name) fun a d =>
    if a.status.isOk then d.delete c.X.logging name else d
  pure ()

/-- `versions_->NewFileNumber()`. -/
def newFileNumber : Prog ℕ := do
  let a ← call c .newFileNumber
  pure a.number.toNat

/-- `versions_->LogAndApply(edit, &mutex_)`: where it commits, the manifest named by
the version set has the edit. -/
def logAndApply (edit : VersionEdit) : Prog Status := do
  let w ← Proc.get
  let v := w.impl.versions
  let a ← call c (.logAndApply edit) fun a d =>
    match d.manifest with
    | some m =>
      if a.status.isOk || a.committed then
        (d.create ((descriptorFileName [] v.manifestFileNumber).drop 1)).commit (m.apply v edit)
      else d
    | none => d
  if a.status.isOk then do
    modifyImpl fun i => { i with versions := i.versions.apply edit }
    pure a.status
  else pure a.status

/-! ### The rules of the calls -/

section

variable {c} {A : LowerSet World} {w : World} {I : World → Prop}

/-- A call, whatever the answer. -/
theorem sat_call {what : Call} {effect : Answer → Disk → Disk} {Q : Answer → World → Prop}
    (hI : w ∈ A → I w)
    (hQ : ∀ a, w.after what a (effect a w.disk) ∈ A → Q a (w.after what a (effect a w.disk))) :
    Sat A (call c what effect) w I Q :=
  sat_step.mpr ⟨hI, hQ _⟩

/-- A call, with the answer of the environment. -/
theorem sat_env {what : Call} {effect : Answer → Disk → Disk} {Q : Answer → World → Prop}
    (hQ : Q (c.env w.calls.length what) (w.after what (c.env w.calls.length what)
      (effect (c.env w.calls.length what) w.disk))) :
    Sat A (call c what effect) w (fun _ => True) Q :=
  sat_step.mpr ⟨fun _ => trivial, fun _ => hQ⟩

@[simp] theorem sat_modifyImpl {f : DBImpl → DBImpl} {Q : Unit → World → Prop} :
    Sat A (modifyImpl f) w I Q ↔
      ({ w with impl := f w.impl } ∈ A → Q () { w with impl := f w.impl }) :=
  sat_modify

/-- A call made only after success. -/
theorem sat_thenCall {s : Status} {what : Call} {effect : Answer → Disk → Disk}
    {Q : Status → World → Prop} (hI : w ∈ A → I w) (hs : s.isOk = false → w ∈ A → Q s w)
    (hQ : ∀ a, s.isOk → w.after what a (effect a w.disk) ∈ A →
      Q a.status (w.after what a (effect a w.disk))) :
    Sat A (thenCall c s what effect) w I Q := by
  rw [thenCall]
  split_ifs with h
  · rw [sat_bind]
    exact sat_call hI fun a _ => sat_pure.mpr (hQ a h)
  · exact sat_pure.mpr (hs (by simpa using h))

@[simp] theorem returns_call {what : Call} {effect : Answer → Disk → Disk}
    {Q : Answer → World → Prop} : Returns (call c what effect) w Q ↔
      Q (c.env w.calls.length what) (w.after what (c.env w.calls.length what)
        (effect (c.env w.calls.length what) w.disk)) := Iff.rfl

theorem outcome_call_bind {α : Type} {what : Call} {effect : Answer → Disk → Disk}
    {f : Answer → Prog α} :
    (call c what effect >>= f).outcome w = (f (c.env w.calls.length what)).outcome
      (w.after what (c.env w.calls.length what) (effect (c.env w.calls.length what) w.disk)) := rfl

@[simp] theorem returns_modifyImpl {f : DBImpl → DBImpl} {Q : Unit → World → Prop} :
    Returns (modifyImpl f) w Q ↔ Q () { w with impl := f w.impl } := Iff.rfl

end

end LevelDb
