import LevelDb.Filename
import LevelDb.Logic.Stream
import Mathlib.Algebra.Order.Group.Int
import Mathlib.Data.List.DropRight

/-!
# Writable files

`PosixWritableFile` of `util/env_posix.cpp`: a file that is written through a stream of the
C library. What `Append` has taken may still be in the buffer of the stream
(`Storage.Stream`), and what has left the buffer may still be with the operating system.

A file that is used without an error keeps what `LevelDb.Posix.Promise` says, from its first
call to its last: everything that was appended, and durable – sure to survive a crash –
exactly what was appended before the last `Sync` (`LevelDb.Posix.calls_promise`). `Flush`
and `Close` make nothing durable. And what a `Sync` has made durable stays so whatever
happens later, and whatever has failed before (`LevelDb.Posix.sync_durable`).
-/

namespace LevelDb.Posix

open Storage

/-! ### The code -/

/-- What the calls of the C library and of the system answer in one operation. -/
structure StreamOutcome where
  /-- What `fwrite_unlocked` returns. -/
  wrote : ℕ := 0
  /-- How much of its buffer the stream passes on, where it does not pass it on whole. -/
  passed : ℕ := 0
  /-- What is in the buffer after a call that failed. -/
  left : Bytes := []
  /-- `fflush_unlocked`, or `fclose`, returns 0. -/
  flushed : Bool := true
  /-- What `open` of the directory returns. -/
  dirFd : ℤ := 0
  /-- What `fsync` of the directory returns. -/
  dirSync : ℤ := 0
  /-- `fdatasync` returns 0. -/
  dataSynced : Bool := true
  /-- `strerror(errno)`. -/
  errno : String := ""
  deriving DecidableEq, Repr

/-- A `PosixWritableFile`. The stream `file_` is `NULL` once the file was closed; what is
left of it then is the file. -/
structure WritableFile where
  filename : Bytes
  isOpen : Bool
  stream : Stream UInt8
  deriving DecidableEq, Repr

/-- A file that was just opened: `fopen` has truncated it, or left what was in it. -/
def WritableFile.opened (filename : Bytes) (file : File UInt8) : WritableFile :=
  ⟨filename, true, ⟨file, []⟩⟩

/-- `fwrite_unlocked(data, 1, size, file_)`: the number returned, and the stream. It is not
greater than the size, and smaller only where writing has failed. -/
def fwrite (s : Stream UInt8) (data : Bytes) (o : StreamOutcome) : ℕ × Stream UInt8 :=
  if data.length ≤ o.wrote then (data.length, (s.put data).pass o.passed)
  else (o.wrote, ⟨((s.put (data.take o.wrote)).pass o.passed).file, o.left⟩)

/-- `fflush_unlocked(file_)`, and what `fclose` does before it closes: whether it returns 0,
and the stream. -/
def fflush (s : Stream UInt8) (o : StreamOutcome) : Bool × Stream UInt8 :=
  if o.flushed then (true, s.drain) else (false, ⟨(s.pass o.passed).file, o.left⟩)

/-- The slash. -/
def slash : UInt8 := 47

/-- `c_str()`, up to the first zero. -/
def cString (s : Bytes) : Bytes := s.takeWhile (· ≠ 0)

/-- `PosixWritableFile::SyncDirIfManifest`: the status, and the directory that was synced. -/
def syncDirIfManifest (filename : Bytes) (o : StreamOutcome) : Status × Option Bytes :=
  let f := cString filename
  -- what `strrchr(f, '/')` has found is the end of `front`
  let front := f.rdropWhile (· ≠ slash)
  let (dir, basename) :=
    if front.isEmpty then (chars ".", f) else (front.dropLast, f.rtakeWhile (· ≠ slash))
  if (chars "MANIFEST").isPrefixOf basename then
    if o.dirFd < 0 then (.ioError filename.text o.errno, none)
    else if o.dirSync < 0 then (.ioError dir.text o.errno, none)
    else (.ok, some dir)
  else (.ok, none)

namespace WritableFile

/-- `Append`. The stream of a closed file is not one, and what the library does with it is
undefined. -/
def append (f : WritableFile) (data : Bytes) (o : StreamOutcome) : Option (Status × WritableFile) :=
  if f.isOpen then
    let (r, stream) := fwrite f.stream data o
    if r ≠ data.length then some (.ioError f.filename.text o.errno, { f with stream })
    else some (.ok, { f with stream })
  else none

/-- `Close`. -/
def close (f : WritableFile) (o : StreamOutcome) : Option (Status × WritableFile) :=
  if f.isOpen then
    let (ok, stream) := fflush f.stream o
    let result := if ok then .ok else .ioError f.filename.text o.errno
    some (result, { f with isOpen := false, stream := { stream with buffer := [] } })
  else none

/-- `Flush`. Without a stream, `fflush` is about all streams there are, and not this one. -/
def flush (f : WritableFile) (o : StreamOutcome) : Option (Status × WritableFile) :=
  if f.isOpen then
    let (ok, stream) := fflush f.stream o
    if ok then some (.ok, { f with stream })
    else some (.ioError f.filename.text o.errno, { f with stream })
  else if o.flushed then some (.ok, f)
  else some (.ioError f.filename.text o.errno, f)

/-- `Sync`. -/
def sync (f : WritableFile) (o : StreamOutcome) : Option (Status × WritableFile) :=
  let (s, _) := syncDirIfManifest f.filename o
  if !s.isOk then some (s, f)
  else if f.isOpen then
    let (ok, stream) := fflush f.stream o
    if !ok then some (.ioError f.filename.text o.errno, { f with stream })
    else if o.dataSynced then some (.ok, { f with stream := stream.synced })
    else some (.ioError f.filename.text o.errno, { f with stream })
  else if !o.flushed then some (.ioError f.filename.text o.errno, f)
  -- `fileno` of no stream
  else none

/-- The destructor: a file that was not closed is closed, and errors are ignored. -/
def destroy (f : WritableFile) (o : StreamOutcome) : File UInt8 :=
  if f.isOpen then (fflush f.stream o).2.file else f.stream.file

/-- The operations of a `WritableFile`. -/
inductive Op
  | append (data : Bytes)
  | flush
  | sync
  | close
  deriving DecidableEq, Repr

/-- Make a call. -/
def call (f : WritableFile) : Op → StreamOutcome → Option (Status × WritableFile)
  | .append data, o => f.append data o
  | .flush, o => f.flush o
  | .sync, o => f.sync o
  | .close, o => f.close o

/-- Make calls, one after another: the statuses, and the file. -/
def calls (f : WritableFile) : List (Op × StreamOutcome) → Option (List Status × WritableFile)
  | [] => some ([], f)
  | (op, o) :: rest => do
    let (s, f) ← f.call op o
    let (ss, f) ← f.calls rest
    some (s :: ss, f)

end WritableFile

/-! ### What the library promises -/

section

variable {s : Stream UInt8} {data bs : Bytes} {o : StreamOutcome}

theorem durable_fwrite : (fwrite s data o).2.file.Durable bs ↔ s.file.Durable bs := by
  rw [fwrite]
  split_ifs
  · exact Stream.durable_pass _ _
  · exact Stream.durable_pass _ _

/-- Where all of the data was written, it is in the file, or in the buffer. -/
theorem written_fwrite (h : (fwrite s data o).1 = data.length) :
    (fwrite s data o).2.written = s.written ++ data := by
  rw [fwrite] at h ⊢
  split_ifs at h ⊢ with hle
  · rw [Stream.written_pass, Stream.written_put]
  · exact absurd h.ge hle

theorem durable_fflush : (fflush s o).2.file.Durable bs ↔ s.file.Durable bs := by
  rw [fflush]
  split_ifs
  · exact Stream.durable_drain _
  · exact Stream.durable_pass _ _

/-- Where it succeeds, the buffer has gone into the file. -/
theorem fflush_eq_drain (h : (fflush s o).1 = true) : (fflush s o).2 = s.drain := by
  rw [fflush] at h ⊢
  split_ifs at h ⊢
  rfl

end

/-! ### What a file keeps -/

/-- What is promised of a file: what was written, and what of it is durable. -/
structure Promise where
  written : Bytes
  durable : Bytes

/-- What an operation that has succeeded adds to the promise. -/
def Promise.next (p : Promise) : WritableFile.Op → Promise
  | .append data => { p with written := p.written ++ data }
  | .flush => p
  | .sync => { p with durable := p.written }
  | .close => p

/-- **The file keeps the promise**: what was written is in the file or in the buffer, in
the file where it is closed, and exactly what is promised to be durable is. -/
structure WritableFile.Keeps (f : WritableFile) (p : Promise) : Prop where
  written : f.stream.written = p.written
  closed : f.isOpen = false → f.stream.buffer = []
  durable : ∀ bs, f.stream.file.Durable bs ↔ bs <+: p.durable

/-- The promise of a file that was just opened. -/
def Promise.opened (file : File UInt8) : Promise := ⟨file.contents, file.contents.take file.synced⟩

namespace WritableFile

variable {f g : WritableFile} {p : Promise} {op : Op} {o : StreamOutcome} {s : Status}
  {bs filename : Bytes} {file : File UInt8} {as : List (Op × StreamOutcome)} {ss : List Status}

theorem opened_keeps : (opened filename file).Keeps (.opened file) where
  written := List.append_nil _
  closed _ := rfl
  durable _ := File.durable_iff

/-- What an operation does that succeeds. -/
def Done (f g : WritableFile) : Op → Prop
  | .append data => f.isOpen = true ∧ ∃ o, (fwrite f.stream data o).1 = data.length ∧
      g = { f with stream := (fwrite f.stream data o).2 }
  | .flush => g = { f with stream := f.stream.drain } ∨ g = f
  | .sync => g = { f with stream := f.stream.drain.synced }
  | .close => g = { f with isOpen := false, stream := f.stream.drain }

/-- **What a call does**: what it should, or it fails, and then nothing becomes durable, and
nothing ceases to be. -/
theorem call_cases (hcall : f.call op o = some (s, g)) :
    (s.isOk = true ∧ Done f g op) ∨
      (s.isOk = false ∧ ∀ bs, g.stream.file.Durable bs ↔ f.stream.file.Durable bs) := by
  cases op with
  | append data =>
    simp only [call, append] at hcall
    split_ifs at hcall with hopen hr <;> obtain ⟨rfl, rfl⟩ := Prod.mk.inj (Option.some.inj hcall)
    · exact Or.inr ⟨rfl, fun bs => durable_fwrite⟩
    · exact Or.inl ⟨rfl, hopen, o, not_not.mp hr, rfl⟩
  | flush =>
    simp only [call, flush] at hcall
    split_ifs at hcall with hopen hf hf <;>
      obtain ⟨rfl, rfl⟩ := Prod.mk.inj (Option.some.inj hcall)
    · exact Or.inl ⟨rfl, Or.inl (by rw [fflush_eq_drain hf])⟩
    · exact Or.inr ⟨rfl, fun bs => durable_fflush⟩
    · exact Or.inl ⟨rfl, Or.inr rfl⟩
    · exact Or.inr ⟨rfl, fun bs => Iff.rfl⟩
  | sync =>
    simp only [call, sync] at hcall
    split_ifs at hcall with hdir hopen hf hd hf <;>
      obtain ⟨rfl, rfl⟩ := Prod.mk.inj (Option.some.inj hcall)
    · exact Or.inr ⟨by simpa using hdir, fun bs => Iff.rfl⟩
    · exact Or.inr ⟨rfl, fun bs => durable_fflush⟩
    · exact Or.inl ⟨rfl, by rw [Done, fflush_eq_drain (by simpa using hf)]⟩
    · exact Or.inr ⟨rfl, fun bs => durable_fflush⟩
    · exact Or.inr ⟨rfl, fun bs => Iff.rfl⟩
  | close =>
    simp only [call, close] at hcall
    split_ifs at hcall with hopen hf <;> obtain ⟨rfl, rfl⟩ := Prod.mk.inj (Option.some.inj hcall)
    · refine Or.inl ⟨rfl, ?_⟩
      rw [Done, fflush_eq_drain hf]
      rfl
    · exact Or.inr ⟨rfl, fun bs => durable_fflush⟩

/-- A stream that was drained keeps what it has. -/
theorem Keeps.drain (h : f.Keeps p) (b : Bool) :
    ({ f with isOpen := b, stream := f.stream.drain } : WritableFile).Keeps p where
  written := (Stream.written_drain _).trans h.written
  closed _ := rfl
  durable bs := (Stream.durable_drain _).trans (h.durable bs)

/-- **An operation that succeeds** keeps the promise. -/
theorem Keeps.done (h : f.Keeps p) (hdone : Done f g op) : g.Keeps (p.next op) := by
  cases op with
  | append data =>
    obtain ⟨hopen, o, hall, rfl⟩ := hdone
    refine ⟨?_, fun hclosed => absurd hopen (by simpa using hclosed), fun bs => ?_⟩
    · rw [written_fwrite hall, h.written]
      rfl
    · exact durable_fwrite.trans (h.durable bs)
  | flush =>
    rcases hdone with rfl | rfl
    · exact h.drain f.isOpen
    · exact h
  | sync =>
    subst hdone
    refine ⟨(Stream.written_drain _).trans h.written, fun _ => rfl, fun bs => ?_⟩
    -- by now everything has reached the file
    rw [Stream.synced, File.durable_sync, Stream.contents_drain, h.written]
    rfl
  | close =>
    subst hdone
    exact h.drain false

theorem Keeps.call (h : f.Keeps p) (hcall : f.call op o = some (s, g)) (hs : s.isOk) :
    g.Keeps (p.next op) := by
  rcases call_cases hcall with ⟨-, hdone⟩ | ⟨hfail, -⟩
  · exact h.done hdone
  · exact absurd hs (by simp [hfail])

/-- **No operation takes back what is durable**, whether it succeeds or not. -/
theorem durable_call (hcall : f.call op o = some (s, g)) (h : f.stream.file.Durable bs) :
    g.stream.file.Durable bs := by
  rcases call_cases hcall with ⟨-, hdone⟩ | ⟨-, hsame⟩
  · cases op with
    | append data =>
      obtain ⟨-, o, -, rfl⟩ := hdone
      exact durable_fwrite.mpr h
    | flush =>
      rcases hdone with rfl | rfl
      · exact (Stream.durable_drain _).mpr h
      · exact h
    | sync =>
      subst hdone
      exact File.durable_sync.mpr (h.le_contents.trans (List.prefix_append _ _))
    | close =>
      subst hdone
      exact (Stream.durable_drain _).mpr h
  · exact (hsame bs).mpr h

/-- **What a `Sync` that succeeds makes durable** is all that the file and the buffer have. -/
theorem durable_sync_call (hcall : f.call .sync o = some (s, g)) (hs : s.isOk) :
    g.stream.file.Durable f.stream.written := by
  rcases call_cases hcall with ⟨-, rfl⟩ | ⟨hfail, -⟩
  · exact File.durable_sync.mpr List.prefix_rfl
  · exact absurd hs (by simp [hfail])

/-- The first call of a run, and the others. -/
theorem calls_cons {rest : List (Op × StreamOutcome)} :
    f.calls ((op, o) :: rest) = some (ss, g) ↔
      ∃ s ss' u, f.call op o = some (s, u) ∧ u.calls rest = some (ss', g) ∧ ss = s :: ss' := by
  rw [calls]
  constructor
  · intro h
    obtain ⟨⟨s, u⟩, hcall, h⟩ := Option.bind_eq_some_iff.mp h
    obtain ⟨⟨ss', v⟩, hrest, h⟩ := Option.bind_eq_some_iff.mp h
    obtain ⟨rfl, rfl⟩ := Prod.mk.inj (Option.some.inj h)
    exact ⟨s, ss', u, hcall, hrest, rfl⟩
  · rintro ⟨s, ss', u, hcall, hrest, rfl⟩
    rw [hcall]
    simp [hrest]

/-- **Operations that succeed** keep the promise, one after another. -/
theorem Keeps.calls (h : f.Keeps p) (hcalls : f.calls as = some (ss, g))
    (hok : ∀ s ∈ ss, s.isOk) : g.Keeps ((as.map Prod.fst).foldl Promise.next p) := by
  induction as generalizing f p ss with
  | nil =>
    obtain ⟨-, rfl⟩ := Prod.mk.inj (Option.some.inj hcalls)
    exact h
  | cons a as ih =>
    obtain ⟨s, ss', u, hcall, hrest, rfl⟩ := calls_cons.mp hcalls
    exact ih (h.call hcall (hok s List.mem_cons_self)) hrest
      fun s' hs' => hok s' (List.mem_cons_of_mem _ hs')

theorem durable_calls (hcalls : f.calls as = some (ss, g)) (h : f.stream.file.Durable bs) :
    g.stream.file.Durable bs := by
  induction as generalizing f ss with
  | nil =>
    obtain ⟨-, rfl⟩ := Prod.mk.inj (Option.some.inj hcalls)
    exact h
  | cons a as ih =>
    obtain ⟨s, ss', u, hcall, hrest, -⟩ := calls_cons.mp hcalls
    exact ih hrest (durable_call hcall h)

/-- Nor does the destructor. -/
theorem durable_destroy (h : f.stream.file.Durable bs) : (f.destroy o).Durable bs := by
  rw [destroy]
  split_ifs
  · exact durable_fflush.mpr h
  · exact h

end WritableFile

open WritableFile

section

variable {f g h t : WritableFile} {filename : Bytes} {file : File UInt8} {o : StreamOutcome}
  {as before after : List (Op × StreamOutcome)} {ss ss' : List Status} {s : Status}

/-- **A file that is used without an error keeps its promise**: it has all that was
appended, in the file itself once it is closed, and what is durable is exactly what was
appended before the last `Sync`. -/
theorem calls_promise (hcalls : (opened filename file).calls as = some (ss, g))
    (hok : ∀ s ∈ ss, s.isOk) :
    g.Keeps ((as.map Prod.fst).foldl Promise.next (.opened file)) :=
  opened_keeps.calls hcalls hok

/-- **What `Sync` has made durable stays durable**, whatever happens to the file
afterwards, and whatever had happened to it before: all that was in the file or in the buffer
of its stream at the time. Where every operation before it had succeeded, this is everything
that was appended; an operation that failed may have lost a part of the buffer. -/
theorem sync_durable (hbefore : (opened filename file).calls before = some (ss, g))
    (hsync : g.call .sync o = some (s, h)) (hs : s.isOk)
    (hafter : h.calls after = some (ss', t)) :
    t.stream.file.Durable g.stream.written ∧ (∀ o, (t.destroy o).Durable g.stream.written) ∧
      ((∀ s ∈ ss, s.isOk) → g.stream.written =
        ((before.map Prod.fst).foldl Promise.next (.opened file)).written) := by
  have hlater := durable_calls hafter (durable_sync_call hsync hs)
  exact ⟨hlater, fun _ => durable_destroy hlater,
    fun hok => (opened_keeps.calls hbefore hok).written⟩

/-- Two records of a log, of which the first one was synced before the second one was
appended: both are there, and the first one survives every crash. -/
theorem calls_promise_twoRecords :
    (⟨chars "db/000003.log", false, ⟨⟨[1, 2, 3], 2, by decide⟩, []⟩⟩ : WritableFile).Keeps
      ⟨[1, 2, 3], [1, 2]⟩ := by
  have hcalls : (opened (chars "db/000003.log") .empty).calls [(.append [1, 2], { wrote := 2 }),
      (.sync, {}), (.append [3], { wrote := 1 }), (.close, {})] = some ([.ok, .ok, .ok, .ok],
        ⟨chars "db/000003.log", false, ⟨⟨[1, 2, 3], 2, by decide⟩, []⟩⟩) := by decide
  exact calls_promise hcalls (by decide)

/-- The same where the second record could not be appended, and the file not be closed. And a
file whose buffer was lost in part before it was synced: what it had left survives. -/
theorem sync_durable_twoRecords :
    (⟨[1, 2, 3], 2, by decide⟩ : File UInt8).Durable [1, 2] ∧
      (⟨chars "db/000003.log", true, ⟨.empty, [1, 2]⟩⟩ : WritableFile).stream.written =
        ([.append [1, 2]].foldl Promise.next (.opened .empty)).written ∧
      (File.stored [1] : File UInt8).Durable [1] := by
  have hbefore : (opened (chars "db/000003.log") .empty).calls [(.append [1, 2], { wrote := 2 })] =
      some ([.ok], ⟨chars "db/000003.log", true, ⟨.empty, [1, 2]⟩⟩) := by decide
  have hsync : (⟨chars "db/000003.log", true, ⟨.empty, [1, 2]⟩⟩ : WritableFile).call .sync {} =
      some (.ok, ⟨chars "db/000003.log", true, ⟨.stored [1, 2], []⟩⟩) := by decide
  have hafter : (⟨chars "db/000003.log", true, ⟨.stored [1, 2], []⟩⟩ : WritableFile).calls
      [(.append [3, 4], { wrote := 1, passed := 1, left := [9] }), (.close, { flushed := false })] =
        some ([.ioError "db/000003.log", .ioError "db/000003.log"],
          ⟨chars "db/000003.log", false, ⟨⟨[1, 2, 3], 2, by decide⟩, []⟩⟩) := by decide
  have hlost : (opened (chars "db/000003.log") .empty).calls [(.append [1, 2], { wrote := 2 }),
      (.flush, { flushed := false, passed := 1 })] = some ([.ok, .ioError "db/000003.log"],
        ⟨chars "db/000003.log", true, ⟨⟨[1], 0, by decide⟩, []⟩⟩) := by decide
  have hsync' : (⟨chars "db/000003.log", true, ⟨⟨[1], 0, by decide⟩, []⟩⟩ : WritableFile).call
      .sync {} = some (.ok, ⟨chars "db/000003.log", true, ⟨.stored [1], []⟩⟩) := by decide
  have hnone : (⟨chars "db/000003.log", true, ⟨.stored [1], []⟩⟩ : WritableFile).calls [] =
    some ([], ⟨chars "db/000003.log", true, ⟨.stored [1], []⟩⟩) := rfl
  obtain ⟨hdurable, -, hall⟩ := sync_durable hbefore hsync rfl hafter
  obtain ⟨-, hdestroyed, -⟩ := sync_durable hlost hsync' rfl hnone
  exact ⟨hdurable, hall (by decide), hdestroyed {}⟩

end

end LevelDb.Posix
