import LevelDb.Codec.Integer
import LevelDb.Filename.Kinds
import LevelDb.Logic.Crash
import LevelDb.Logic.Storage

/-!
# Switching `CURRENT`

`SetCurrentFile` of `db/filename.cpp` over the contents of files, call by call: the line that
names the manifest goes to a temporary file, which is synced and then renamed to `CURRENT`.
`WriteStringToFileSync`, `RenameFile` and `DeleteFile` may each fail, and the first can be
found half done.

Switching is atomic (`LevelDb.Creation.setCurrentFile_atomic`): `CURRENT` holds what it held
until the temporary file has been renamed, and the new line from then on; no file but these
two changes; and the status is OK where the temporary file has been renamed, and nowhere else. A
crash of the machine does not undo a switch (`LevelDb.Creation.Switched.durable`).

The line is cut out of the path of the manifest, and the parser reads it back as the number
and type of a manifest.
-/

namespace LevelDb.Creation

open CrashLogic Storage Codec

/-! ### The calls -/

/-- The `VersionEdit` of `NewDb`. -/
structure NewDbEdit where
  comparatorName : Bytes
  logNumber : ℕ
  nextFile : ℕ
  lastSequence : ℕ
  deriving DecidableEq, Repr

/-- A call, with its arguments. A file that is written is named by its name. -/
inductive FileCall
  | newWritableFile (fname : Bytes)
  /-- `log::Writer::AddRecord`, on a file that is empty. -/
  | addRecord (fname record : Bytes)
  | close (fname : Bytes)
  /-- `WriteStringToFileSync` has begun. -/
  | writing (fname : Bytes)
  | writeStringToFileSync (data fname : Bytes)
  | renameFile (src target : Bytes)
  | deleteFile (fname : Bytes)
  deriving DecidableEq, Repr

/-- The files that a call is about. -/
def FileCall.names : FileCall → List Bytes
  | newWritableFile fname | addRecord fname _ | close fname | writing fname
  | writeStringToFileSync _ fname | deleteFile fname => [fname]
  | renameFile src target => [src, target]

/-- **The outcome of a call.** Each call reads the fields it has a use for. -/
structure Outcome where
  status : Status := .ok
  /-- How many bytes an `AddRecord` that failed has appended, and how many a `Close` that
  failed has left. -/
  written : ℕ := 0
  /-- What `WriteStringToFileSync` makes of its file on the way, and where it fails. -/
  leftover : Option (File UInt8) := none
  deriving DecidableEq, Repr

/-- The database to be created, the functions that are not in the repository, and the
outcomes of the calls, none of which is made twice. -/
structure Setting where
  dbname : Bytes
  comparatorName : Bytes
  currentFileName : Bytes → Bytes
  /-- `VersionEdit::EncodeTo`. -/
  encodeTo : NewDbEdit → Bytes
  /-- The bytes that `log::Writer` makes of the first record of a file. -/
  framed : Bytes → Bytes
  outcome : FileCall → Outcome

/-- **What creating relies on**: the name of `CURRENT`, and the header of a log record. -/
structure Setting.Lawful (X : Setting) : Prop where
  currentFileName_eq : X.currentFileName X.dbname = X.dbname ++ chars "/CURRENT"
  framed_ne_nil : ∀ record, X.framed record ≠ []

/-- The files, and the calls made so far. -/
structure Machine where
  files : Store Bytes UInt8
  calls : List FileCall

instance : Preorder Machine where
  le m t := m.calls <+: t.calls
  le_refl m := List.prefix_refl m.calls
  le_trans _ _ _ := List.IsPrefix.trans

variable (X : Setting)

/-- **What a call makes of the files.** `AddRecord` and `Close` sync nothing, and a
`RenameFile` that fails leaves both names alone. -/
def FileCall.effect (a : Outcome) (fs : Store Bytes UInt8) : FileCall → Store Bytes UInt8
  | newWritableFile fname =>
    if a.status.isOk then Function.update fs fname (some .empty) else fs
  | addRecord fname record =>
    Function.update fs fname ((fs fname).map fun f => f.append
      (if a.status.isOk then X.framed record else (X.framed record).take a.written))
  | close fname =>
    if a.status.isOk then fs
    else Function.update fs fname ((fs fname).map fun f => f.cut a.written)
  | writing fname => Function.update fs fname a.leftover
  | writeStringToFileSync data fname =>
    Function.update fs fname (if a.status.isOk then some (.stored data) else a.leftover)
  | renameFile src target =>
    if a.status.isOk then Function.update (Function.update fs target (fs src)) src none else fs
  | deleteFile fname => if a.status.isOk then Function.update fs fname none else fs

/-- The files after a call. -/
def Machine.after (m : Machine) (what : FileCall) : Machine where
  files := what.effect X (X.outcome what) m.files
  calls := m.calls ++ [what]

/-- Make a call: its status. -/
def perform (what : FileCall) : Proc Machine Status :=
  Proc.step (fun m => (m.after X what, (X.outcome what).status)) fun _ => List.prefix_append _ _

/-- The call, unless there is an error already. -/
def thenPerform (s : Status) (what : FileCall) : Proc Machine Status :=
  if s.isOk then perform X what else pure s

/-! ### The code -/

/-- `WriteStringToFileSync`. -/
def writeStringToFileSync (data fname : Bytes) : Proc Machine Status := do
  let _ ← perform X (.writing fname)
  perform X (.writeStringToFileSync data fname)

/-- `SetCurrentFile`. -/
def setCurrentFile (descriptorNumber : ℕ) : Proc Machine Status := do
  let manifest := descriptorFileName X.dbname descriptorNumber
  let contents := manifest
  Proc.assert ((X.dbname ++ chars "/").isPrefixOf contents)
  let contents := contents.drop (X.dbname.length + 1)
  let tmp := tempFileName X.dbname descriptorNumber
  let s ← writeStringToFileSync X (contents ++ chars "\n") tmp
  -- `CURRENT` gets its name only when its contents are synced
  let s ← thenPerform X s (.renameFile tmp (X.currentFileName X.dbname))
  if !s.isOk then do
    let _ ← perform X (.deleteFile tmp)
    pure s
  else pure s

/-! ### The promise -/

/-- The name of `CURRENT`. -/
abbrev Setting.current : Bytes := X.currentFileName X.dbname

/-- The call succeeds. -/
abbrev Setting.succeeds (what : FileCall) : Bool := (X.outcome what).status.isOk

/-- The line that names a manifest. -/
def manifestLine (n : ℕ) : Bytes := chars "MANIFEST-" ++ padded 6 n ++ chars "\n"

/-- The call that writes the line. -/
abbrev Setting.writeLine (n : ℕ) : FileCall :=
  .writeStringToFileSync (manifestLine n) (tempFileName X.dbname n)

/-- The call that makes the temporary file `CURRENT`. -/
abbrev Setting.renameTmp (n : ℕ) : FileCall := .renameFile (tempFileName X.dbname n) X.current

/-- The calls made since. -/
def Machine.since (m t : Machine) : List FileCall := t.calls.drop m.calls.length

/-- **The temporary file has been renamed** since. -/
def Renamed (n : ℕ) (m t : Machine) : Prop :=
  X.renameTmp n ∈ m.since t ∧ X.succeeds (X.renameTmp n)

/-- **What holds at every point of a switch**: `CURRENT` is as before, up to the call that
renames the temporary file, and holds the new line from then on. The other files are as
before, all but the temporary one. -/
structure Intact (n : ℕ) (m t : Machine) : Prop where
  before : ¬Renamed X n m t → t.files X.current = m.files X.current
  after : Renamed X n m t → t.files X.current = some (.stored (manifestLine n))
  others : ∀ fname, fname ≠ X.current → fname ≠ tempFileName X.dbname n →
    t.files fname = m.files fname

/-! ### The rules of the calls -/

section

variable {X} {m t : Machine} {n : Bytes} {what : FileCall} {a : Outcome} {s : Status}
  {fs : Store Bytes UInt8}

/-- A call leaves the files alone that it is not about. -/
theorem FileCall.effect_of_notMem (h : n ∉ what.names) : what.effect X a fs n = fs n := by
  cases what with
  | renameFile src target =>
    simp only [names, List.mem_cons, List.not_mem_nil, or_false, not_or] at h
    rw [effect]
    split_ifs
    · rw [Function.update_of_ne h.1, Function.update_of_ne h.2]
    · rfl
  | newWritableFile | close | deleteFile =>
    simp only [names, List.mem_singleton] at h
    rw [effect]
    split_ifs <;> first | rfl | exact Function.update_of_ne h _ _
  | addRecord | writing | writeStringToFileSync =>
    simp only [names, List.mem_singleton] at h
    exact Function.update_of_ne h _ _

theorem Machine.after_of_notMem (h : n ∉ what.names) : (m.after X what).files n = m.files n :=
  FileCall.effect_of_notMem h

/-- A file that was renamed has its new name. -/
theorem Machine.after_renameFile {src target : Bytes} (h : X.succeeds (.renameFile src target))
    (hne : target ≠ src) : (m.after X (.renameFile src target)).files target = m.files src := by
  have hfiles : (m.after X (.renameFile src target)).files =
      Function.update (Function.update m.files target (m.files src)) src none := if_pos h
  rw [hfiles, Function.update_of_ne hne, Function.update_self]

/-- What was written with `WriteStringToFileSync` is synced. -/
theorem Machine.after_writeStringToFileSync {data fname : Bytes}
    (h : X.succeeds (.writeStringToFileSync data fname)) :
    (m.after X (.writeStringToFileSync data fname)).files fname = some (.stored data) :=
  (Function.update_self ..).trans (if_pos h)

/-- A call, in a run without a rely. -/
theorem sat_perform {I : Machine → Prop} {Q : Status → Machine → Prop} (hI : I m)
    (hQ : Q (X.outcome what).status (m.after X what)) : Sat ⊤ (perform X what) m I Q :=
  sat_step.mpr ⟨fun _ => hI, fun _ => hQ⟩

theorem returns_perform {Q : Status → Machine → Prop} :
    Returns (perform X what) m Q ↔ Q (X.outcome what).status (m.after X what) := returns_step

theorem returns_thenPerform {Q : Status → Machine → Prop} (hQ : ∀ s t, Q s t) :
    Returns (thenPerform X s what) m Q := by
  rw [thenPerform]
  split_ifs
  · exact returns_perform.mpr (hQ _ _)
  · exact hQ _ _

end

/-! ### Before the switch -/

section

variable {X} {m t : Machine} {n : ℕ} {what : FileCall} {s : Status}

theorem Machine.since_self : m.since m = [] := List.drop_length

theorem Machine.since_after (h : m ≤ t) : m.since (t.after X what) = m.since t ++ [what] := by
  have hle : m.calls.length ≤ t.calls.length := List.IsPrefix.length_le h
  rw [since, since, ← List.drop_append_of_le_length hle]
  rfl

/-- **The switch is still to come**: nothing but the temporary file has changed. -/
structure Kept (X : Setting) (n : ℕ) (m t : Machine) : Prop where
  le : m ≤ t
  files : ∀ fname, fname ≠ tempFileName X.dbname n → t.files fname = m.files fname
  notRenamed : ¬Renamed X n m t

theorem Kept.refl : Kept X n m m where
  le := le_rfl
  files _ _ := rfl
  notRenamed h := by
    rw [Renamed, Machine.since_self] at h
    exact absurd h.1 List.not_mem_nil

/-- A call that is about the temporary file alone. -/
theorem Kept.after (h : Kept X n m t) (hwhat : what.names = [tempFileName X.dbname n]) :
    Kept X n m (t.after X what) where
  le := h.le.trans (List.prefix_append _ _)
  files fname hne := by
    rw [Machine.after_of_notMem (by simpa [hwhat] using hne), h.files fname hne]
  notRenamed hren := by
    rw [Renamed, Machine.since_after h.le, List.mem_append, List.mem_singleton] at hren
    obtain ⟨hmem | rfl, hok⟩ := hren
    · exact h.notRenamed ⟨hmem, hok⟩
    · simp [FileCall.names] at hwhat

/-- The rename fails. -/
theorem Kept.after_renameTmp (h : Kept X n m t) (hr : X.succeeds (X.renameTmp n) = false) :
    Kept X n m (t.after X (X.renameTmp n)) where
  le := h.le.trans (List.prefix_append _ _)
  files fname hne := by
    have hsame : (t.after X (X.renameTmp n)).files = t.files := if_neg (Bool.eq_false_iff.mp hr)
    rw [hsame, h.files fname hne]
  notRenamed hren := absurd hren.2 (Bool.eq_false_iff.mp hr)

/-! ### The switch -/

/-- The name of the temporary file is not that of `CURRENT`. -/
theorem current_ne_tempFileName (hX : X.currentFileName X.dbname = X.dbname ++ chars "/CURRENT") :
    X.current ≠ tempFileName X.dbname n := by
  intro h
  have hsep : tempFileName X.dbname n ≠ X.dbname ++ chars "/" ++ chars "CURRENT" :=
    Kind.not_separated
  rw [List.append_assoc] at hsep
  exact hsep (h.symm.trans hX)

theorem Kept.intact (hcur : X.current ≠ tempFileName X.dbname n) (h : Kept X n m t) :
    Intact X n m t where
  before _ := h.files _ hcur
  after hren := absurd hren h.notRenamed
  others fname _ hne := h.files fname hne

/-- **What a switch leaves**, and with which status. -/
structure Switched (X : Setting) (n : ℕ) (m : Machine) (s : Status) (t : Machine) : Prop where
  intact : Intact X n m t
  isOk_iff : s.isOk ↔ Renamed X n m t
  isOk_eq : s.isOk = (X.succeeds (X.writeLine n) && X.succeeds (X.renameTmp n))

/-- **A switch lasts**: a crash of the machine does not undo it. -/
theorem Switched.durable {fs : Store Bytes UInt8} (h : Switched X n m s t) (hs : s.isOk)
    (hfs : t.files.Crashed fs) : fs X.current = some (.stored (manifestLine n)) :=
  hfs.stored (h.intact.after (h.isOk_iff.mp hs))

/-- The rename goes through. -/
theorem Kept.switched (hcur : X.current ≠ tempFileName X.dbname n) (h : Kept X n m t)
    (hline : t.files (tempFileName X.dbname n) = some (.stored (manifestLine n)))
    (hw : X.succeeds (X.writeLine n) = true) (hr : X.succeeds (X.renameTmp n) = true) :
    Switched X n m (X.outcome (X.renameTmp n)).status (t.after X (X.renameTmp n)) := by
  have hren : Renamed X n m (t.after X (X.renameTmp n)) := by
    refine ⟨?_, hr⟩
    rw [Machine.since_after h.le]
    exact List.mem_append_right _ List.mem_cons_self
  refine ⟨⟨fun hnot => absurd hren hnot, fun _ => ?_, fun fname hne hne' => ?_⟩,
    iff_of_true hr hren, ?_⟩
  · rw [Machine.after_renameFile hr hcur, hline]
  · rw [Machine.after_of_notMem (by simpa [FileCall.names] using ⟨hne', hne⟩)]
    exact h.files fname hne'
  · rw [hw, hr]
    exact hr

/-- The clean-up: the switch is not made. -/
theorem deleteTmp_sat (hcur : X.current ≠ tempFileName X.dbname n) (h : Kept X n m t)
    (hs : s.isOk = false)
    (hfail : (X.succeeds (X.writeLine n) && X.succeeds (X.renameTmp n)) = false) :
    Sat ⊤ (if !s.isOk then do
        let _ ← perform X (.deleteFile (tempFileName X.dbname n))
        pure s
      else pure s) t (Kept X n m) (Switched X n m) := by
  have hdone : Kept X n m (t.after X (.deleteFile (tempFileName X.dbname n))) := h.after rfl
  rw [if_pos (by rw [hs]; rfl), sat_bind]
  refine sat_perform h (sat_pure.mpr fun _ => ⟨hdone.intact hcur, ?_, hs.trans hfail.symm⟩)
  exact iff_of_false (Bool.eq_false_iff.mp hs) hdone.notRenamed

/-- What is cut out of the path of the manifest. -/
theorem descriptorFileName_drop (dbname : Bytes) :
    (descriptorFileName dbname n).drop (dbname.length + 1) ++ chars "\n" = manifestLine n := by
  rw [descriptorFileName, ← List.drop_drop, List.drop_left]
  rfl

/-- **`SetCurrentFile`**: up to the rename everything is kept, and the rename is the last call
of a switch that goes through. -/
theorem setCurrentFile_switched (hcur : X.current ≠ tempFileName X.dbname n) :
    Sat ⊤ (setCurrentFile X n) m (Kept X n m) (Switched X n m) := by
  rw [setCurrentFile]
  refine Sat.assert (fun _ => .refl) fun _ => ?_
  dsimp only
  rw [descriptorFileName_drop, writeStringToFileSync, sat_bind, sat_bind]
  have hbegun : Kept X n m (m.after X (.writing (tempFileName X.dbname n))) := Kept.refl.after rfl
  refine sat_perform .refl (sat_perform hbegun ?_)
  have hwritten : Kept X n m ((m.after X (.writing (tempFileName X.dbname n))).after X
      (X.writeLine n)) := hbegun.after rfl
  rw [thenPerform]
  cases hw : X.succeeds (X.writeLine n) with
  | false =>
    rw [if_neg (Bool.eq_false_iff.mp hw), sat_bind, sat_pure]
    exact fun _ => deleteTmp_sat hcur hwritten hw (by rw [hw, Bool.false_and])
  | true =>
    rw [if_pos hw, sat_bind]
    refine sat_perform hwritten ?_
    cases hr : X.succeeds (X.renameTmp n) with
    | false =>
      exact deleteTmp_sat hcur (hwritten.after_renameTmp hr) hr (by rw [hr, Bool.and_false])
    | true =>
      rw [if_neg (by rw [show (X.outcome (X.renameTmp n)).status.isOk = true from hr]; decide),
        sat_pure]
      exact fun _ => hwritten.switched hcur (Machine.after_writeStringToFileSync hw) hw hr

/-- `SetCurrentFile` returns: its assertion holds. -/
theorem setCurrentFile_returns : Returns (setCurrentFile X n) m fun _ _ => True := by
  have hpre : (X.dbname ++ chars "/").isPrefixOf (descriptorFileName X.dbname n) = true :=
    List.isPrefixOf_iff_prefix.mpr ((List.prefix_append_right_inj _).mpr
      ((List.prefix_append (chars "/") (chars "MANIFEST-")).trans (List.prefix_append _ _)))
  rw [setCurrentFile, returns_bind, returns_assert]
  refine ⟨hpre, ?_⟩
  dsimp only
  rw [writeStringToFileSync, returns_bind, returns_bind, returns_perform, returns_perform,
    returns_bind]
  refine returns_thenPerform fun s t => ?_
  split_ifs
  · rw [returns_bind, returns_perform]
    trivial
  · trivial

/-- The line without its newline is the name of the manifest. -/
theorem parseFileName_manifestLine {L : Logging} (hL : L.Lawful) (hn : n < 2 ^ 64) :
    parseFileName L (manifestLine n).dropLast = some (n, .kDescriptorFile) := by
  have hline : (manifestLine n).dropLast = chars "MANIFEST-" ++ padded 6 n := List.dropLast_concat
  rw [hline, Kind.parseFileName_manifest hL hn]

/-- **Switching `CURRENT` is atomic**: at every point it is the old file or the new one, and
the new one is there, with OK returned, exactly where the rename has succeeded. -/
theorem setCurrentFile_atomic {L : Logging} (hL : L.Lawful)
    (hX : X.currentFileName X.dbname = X.dbname ++ chars "/CURRENT") (hn : 0 < n ∧ n < 2 ^ 64)
    (m : Machine) :
    (∃ s, ((setCurrentFile X n).run m).result = some s ∧
      (s.isOk ↔ Renamed X n m ((setCurrentFile X n).run m).final)) ∧
    (∀ t ∈ ((setCurrentFile X n).run m).states, Intact X n m t) ∧
    parseFileName L (manifestLine n).dropLast = some (n, .kDescriptorFile) := by
  have hcur := current_ne_tempFileName (n := n) hX
  have hsat := setCurrentFile_switched (m := m) hcur
  refine ⟨?_, fun t ht => ?_, parseFileName_manifestLine hL hn.2⟩
  · obtain ⟨s, hs, -⟩ := setCurrentFile_returns (X := X) (n := n) (m := m).result
    exact ⟨s, hs, (hsat.result hs trivial).isOk_iff⟩
  · have hintact := hsat.mono (fun t _ _ h => Kept.intact hcur h) fun _ _ _ _ h => h
    exact hintact.states (fun _ _ h => h.intact) t ht trivial

end

/-- CRC-32C. -/
def crc32c (bs : Bytes) : UInt32 :=
  let shift (crc : UInt32) : UInt32 :=
    if crc &&& 1 = 1 then (crc >>> 1) ^^^ 0x82f63b78 else crc >>> 1
  bs.foldl (fun crc b => shift^[8] (crc ^^^ b.toUInt32)) 0xffffffff ^^^ 0xffffffff

/-- The missing functions, as documented: the tagged fields of a `VersionEdit`, and a log
record that fits in a block, behind its checksum, its length and its type. -/
def leveldb (outcome : FileCall → Outcome) : Setting where
  dbname := chars "db"
  comparatorName := chars "leveldb.BytewiseComparator"
  currentFileName dbname := dbname ++ chars "/CURRENT"
  encodeTo edit := [1] ++ Codec.encodeLengthPrefixed edit.comparatorName ++
    [2] ++ Codec.encodeVarint 10 edit.logNumber ++ [3] ++ Codec.encodeVarint 10 edit.nextFile ++
    [4] ++ Codec.encodeVarint 10 edit.lastSequence
  framed record :=
    let crc := crc32c (1 :: record)
    Codec.toLE 4 ((crc >>> 15 ||| crc <<< 17) + 0xa282ead8).toNat ++
      (Codec.toLE 2 record.length ++ 1 :: record)
  outcome := outcome

theorem leveldb_lawful (outcome : FileCall → Outcome) : (leveldb outcome).Lawful where
  currentFileName_eq := rfl
  framed_ne_nil record := by simp [leveldb]

/-- A directory without files. -/
def emptyMachine : Machine := ⟨fun _ => none, []⟩

/-- Every call succeeds but `RenameFile`. -/
def renameFails : FileCall → Outcome
  | .renameFile _ _ => { status := .ioError "rename" }
  | _ => {}

/-- The database has a manifest, and a switch to the next one fails. -/
theorem setCurrentFile_atomic_renameFails :
    ((setCurrentFile (leveldb renameFails) 7).run
        ⟨Function.update (fun _ => none) (chars "db/CURRENT")
          (some (.stored (chars "MANIFEST-000005\n"))), []⟩).final.files (chars "db/CURRENT") =
      some (.stored (chars "MANIFEST-000005\n")) ∧
    parseFileName leveldbLogging (manifestLine 7).dropLast = some (7, .kDescriptorFile) := by
  obtain ⟨-, hintact, hparse⟩ := setCurrentFile_atomic (X := leveldb renameFails) (n := 7)
    leveldbLogging_lawful rfl (by decide) ⟨Function.update (fun _ => none) (chars "db/CURRENT")
      (some (.stored (chars "MANIFEST-000005\n"))), []⟩
  refine ⟨?_, hparse⟩
  have hkept := (hintact _ (Run.mem_states.mpr (Or.inr rfl))).before
    fun h => absurd h.2 Bool.false_ne_true
  rw [show (leveldb renameFails).current = chars "db/CURRENT" from by decide] at hkept
  dsimp only at hkept
  rw [hkept, Function.update_self]

/-- The number is filled up to six digits. -/
theorem setCurrentFile_pads :
    ∃ t ∈ ((setCurrentFile (leveldb fun _ => {}) 1).run emptyMachine).states,
      t.files (chars "db/CURRENT") ≠ emptyMachine.files (chars "db/CURRENT") ∧
      ∀ f, t.files (chars "db/CURRENT") = some f →
        f.contents ≠ chars "MANIFEST-" ++ decimal 1 ++ chars "\n" := by
  have hfile : ((setCurrentFile (leveldb fun _ => {}) 1).run emptyMachine).final.files
      (chars "db/CURRENT") = some (.stored (chars "MANIFEST-000001\n")) := by
    have hsat := setCurrentFile_switched (X := leveldb fun _ => {}) (n := 1) (m := emptyMachine)
      (current_ne_tempFileName rfl)
    have hswitched := hsat.result (a := .ok) rfl trivial
    exact (hswitched.intact.after (hswitched.isOk_iff.mp rfl)).trans
      (congrArg (fun l => some (File.stored l)) (by decide))
  refine ⟨_, Run.mem_states.mpr (Or.inr rfl), ?_, fun f hf => ?_⟩
  · rw [hfile]
    exact Option.some_ne_none _
  · obtain rfl := Option.some.inj (hfile.symm.trans hf)
    decide

end LevelDb.Creation
