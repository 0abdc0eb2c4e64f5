import LevelDb.Posix.Limiter

/-!
# The descriptors of random-access files

A file that `PosixEnv::NewRandomAccessFile` makes is either mapped, or has a descriptor of
its own, or opens its file whenever it is read. Which it is, the two limiters decide, and
so whose task it is to close a descriptor. Here are the operations, one after the other,
over the table of the open descriptors (`LevelDb.Posix.Process`).

The open descriptors should be those of the files that have one, after every operation
(`LevelDb.Posix.Process.Tidy`). `PosixRandomAccessFile::Read` closes the descriptor it has
read from where it succeeds, and does not where it fails. For a descriptor that it has
opened itself that is a leak in the second case; the descriptor of the file itself is lost
in the first, and may be that of another file by the next `Read`. So a run keeps the
descriptors in order exactly where no `Read` takes one of the two ways
(`LevelDb.Posix.keeps_iff`).
-/

namespace LevelDb.Posix

open Accounting Transition

/-! ### The code -/

/-- **The process**: the open descriptors, each with the file that it was opened for, the
limiters, and the files that were not destroyed. -/
structure Process where
  fds : ℤ → Option Bytes := fun _ => none
  limiters : Limit → Limiter
  files : List RandomAccessFile := []

/-- What the system calls of `Read` return. -/
structure ReadOutcome where
  /-- The descriptor that `open` returns. -/
  fd : ℤ := -1
  /-- What `pread` returns. -/
  read : ℤ := 0
  /-- `strerror(errno)`. -/
  errno : String := ""
  deriving DecidableEq, Repr

namespace Process

/-- `open` has returned the descriptor. -/
def opened (p : Process) (fd : ℤ) (fname : Bytes) : Process :=
  { p with fds := Function.update p.fds fd (some fname) }

/-- `close`. -/
def close (p : Process) (fd : ℤ) : Process := { p with fds := Function.update p.fds fd none }

/-- `Acquire` of a limiter. -/
def acquire (p : Process) (limit : Limit) : Bool × Process :=
  ((p.limiters limit).acquire.1,
    { p with limiters := Function.update p.limiters limit (p.limiters limit).acquire.2 })

/-- `Release` of a limiter. -/
def release (p : Process) (limit : Limit) : Process :=
  { p with limiters := Function.update p.limiters limit (p.limiters limit).release }

/-- A file is made. -/
def add (p : Process) (file : RandomAccessFile) : Process := { p with files := p.files ++ [file] }

section

variable (p : Process) (fd : ℤ) (fname : Bytes) (file : RandomAccessFile)

@[simp] theorem opened_fds : (p.opened fd fname).fds = Function.update p.fds fd (some fname) := rfl

@[simp] theorem opened_files : (p.opened fd fname).files = p.files := rfl

@[simp] theorem close_fds : (p.close fd).fds = Function.update p.fds fd none := rfl

@[simp] theorem close_files : (p.close fd).files = p.files := rfl

@[simp] theorem add_fds : (p.add file).fds = p.fds := rfl

@[simp] theorem add_files : (p.add file).files = p.files ++ [file] := rfl

end

/-- `PosixRandomAccessFile::PosixRandomAccessFile`. -/
def randomAccess (p : Process) (filename : Bytes) (fd : ℤ) : Process :=
  let (acquired, p) := p.acquire .fdLimit
  let temporaryFd := !acquired
  -- `close(fd_)`, and `fd_ = -1`: the file is opened on every access
  if temporaryFd then (p.close fd).add (.randomAccess filename temporaryFd (-1))
  else p.add (.randomAccess filename temporaryFd fd)

/-- The part of `NewRandomAccessFile` that maps the file. -/
def mmap (p : Process) (fname : Bytes) (o : Outcome) : Status × Process :=
  if o.sizeStatus.isOk then
    if o.mapped then (.ok, p.add (.mmapReadable fname o.size))
    else (.ioError fname.text o.errno, p)
  else (o.sizeStatus, p)

/-- `PosixEnv::NewRandomAccessFile`. -/
def newRandomAccessFile (p : Process) (fname : Bytes) (o : Outcome) : Status × Process :=
  if o.fd < 0 then (.ioError fname.text o.errno, p)
  else
    let p := p.opened o.fd fname
    let (acquired, p) := p.acquire .mmapLimit
    if acquired then
      let (s, p) := p.mmap fname o
      -- the mapping needs no descriptor
      let p := p.close o.fd
      if !s.isOk then (s, p.release .mmapLimit) else (s, p)
    else (.ok, p.randomAccess fname o.fd)

/-- `PosixRandomAccessFile::Read`, up to its `pread`: the descriptor, where there is one. -/
def readFrom (p : Process) (filename : Bytes) (temporaryFd : Bool) (fd : ℤ) (o : ReadOutcome) :
    Option (ℤ × Process) :=
  if temporaryFd then if o.fd < 0 then none else some (o.fd, p.opened o.fd filename)
  else some (fd, p)

/-- `PosixMmapReadableFile::Read` and `PosixRandomAccessFile::Read`: the status, and the size
of `*result` where it is set. -/
def read (p : Process) (offset n : UInt64) (o : ReadOutcome) :
    RandomAccessFile → (Status × Option ℕ) × Process
  | .mmapReadable filename length =>
    -- the sum may wrap around
    if offset + n > length then ((.ioError filename.text "Invalid argument", some 0), p)
    else ((.ok, some n.toNat), p)
  | .randomAccess filename temporaryFd fd =>
    match p.readFrom filename temporaryFd fd o with
    | none => ((.ioError filename.text o.errno, none), p)
    | some (fd, p) =>
      -- `close(fd)` stands in the branch without an error, whosever descriptor it is
      if o.read < 0 then ((.ioError filename.text o.errno, some 0), p)
      else ((.ok, some o.read.toNat), p.close fd)

/-- `~PosixMmapReadableFile` and `~PosixRandomAccessFile`. -/
def destroy (p : Process) : RandomAccessFile → Process
  | .mmapReadable _ _ => p.release .mmapLimit
  | .randomAccess _ temporaryFd fd =>
    if !temporaryFd then (p.close fd).release .fdLimit else p

/-! ### The system -/

/-- The file that the descriptor is for can be read from: `pread` fails where it is not
open, and `open` returns none that is open. -/
def canRead (p : Process) (o : ReadOutcome) : RandomAccessFile → Bool
  | .mmapReadable _ _ => true
  | .randomAccess _ temporaryFd fd =>
    if temporaryFd then (p.fds o.fd).isNone else o.read < 0 || (p.fds fd).isSome

end Process

/-- An operation. -/
inductive Operation
  | newRandomAccessFile (fname : Bytes) (o : Outcome)
  | read (k : ℕ) (offset n : UInt64) (o : ReadOutcome)
  | destroy (k : ℕ)
  deriving DecidableEq, Repr

/-- One operation, with outcomes that its system calls can have. -/
def Process.step (p : Process) : Operation → Option Process
  | .newRandomAccessFile fname o =>
    if (p.fds o.fd).isNone then some (p.newRandomAccessFile fname o).2 else none
  | .read k offset n o =>
    (p.files[k]?).bind fun file =>
      if p.canRead o file then some (p.read offset n o file).2 else none
  | .destroy k =>
    (p.files[k]?).map fun file => { p with files := p.files.eraseIdx k }.destroy file

/-- **The system** of the operations, from any limits. -/
def operations : System Process Operation where
  init p := ∃ n : Limit → ℤ, p = { limiters := fun limit => ⟨n limit⟩ }
  step := Process.step

/-! ### The promise -/

/-- The descriptor that a file has of its own. -/
def RandomAccessFile.ownFd : RandomAccessFile → Option ℤ
  | randomAccess _ false fd => some fd
  | _ => none

/-- **The open descriptors are in order**: they are those of the files that have one. -/
def Process.Tidy (p : Process) : Prop :=
  ∀ fd, (p.fds fd).isSome ↔ ∃ file ∈ p.files, file.ownFd = some fd

/-- **An operation keeps the descriptors in order**. A `Read` leaves those open that were
open before it, and reads from a descriptor that is open for its own file. -/
structure Keeps (p : Process) (a : Operation) (q : Process) : Prop where
  tidy : q.Tidy
  same : ∀ k offset n o, a = .read k offset n o → ∀ fd, (q.fds fd).isSome ↔ (p.fds fd).isSome
  own : ∀ k offset n o filename temporaryFd fd, a = .read k offset n o →
    p.files[k]? = some (.randomAccess filename temporaryFd fd) → ∀ fd' p',
      p.readFrom filename temporaryFd fd o = some (fd', p') → p'.fds fd' = some filename

/-- **The condition**: a `Read` that opens its file does not fail after that, and one that
has a descriptor fails. -/
def Process.Orderly (p : Process) : Operation → Prop
  | .read k _ _ o =>
    match p.files[k]? with
    | some (.randomAccess _ temporaryFd _) =>
      if temporaryFd then o.fd < 0 ∨ 0 ≤ o.read else o.read < 0
    | _ => True
  | _ => True

instance (p : Process) : ∀ a, Decidable (p.Orderly a)
  | .newRandomAccessFile _ _ | .destroy _ => .isTrue trivial
  | .read k _ _ o =>
    match h : p.files[k]? with
    | some (.randomAccess _ temporaryFd _) =>
      decidable_of_iff (if temporaryFd then o.fd < 0 ∨ 0 ≤ o.read else o.read < 0)
        (by rw [Process.Orderly, h])
    | some (.mmapReadable _ _) | none => .isTrue (by rw [Process.Orderly, h]; trivial)

/-! ### Who owns a descriptor -/

/-- **Every open descriptor has one owner**: a file that has it for its own, and no two files
have the same. -/
structure Process.Owned (p : Process) : Prop where
  refers : ∀ fd fname, p.fds fd = some fname ↔ .randomAccess fname false fd ∈ p.files
  nodup : (p.files.filterMap RandomAccessFile.ownFd).Nodup

section

variable {p q : Process} {file : RandomAccessFile} {fname : Bytes} {fd : ℤ} {k : ℕ}

theorem RandomAccessFile.ownFd_eq_some :
    file.ownFd = some fd ↔ ∃ fname, file = .randomAccess fname false fd := by
  constructor
  · intro h
    cases file with
    | mmapReadable => exact absurd h (by simp [ownFd])
    | randomAccess fname temporaryFd fd' =>
      cases temporaryFd with
      | false => exact ⟨fname, by rw [Option.some.inj h]⟩
      | true => exact absurd h (by simp [ownFd])
  · rintro ⟨fname, rfl⟩
    rfl

namespace Process.Owned

theorem initial {limiters : Limit → Limiter} : Process.Owned { limiters := limiters } :=
  ⟨fun _ _ => iff_of_false (by simp) List.not_mem_nil, List.nodup_nil⟩

theorem tidy (h : p.Owned) : p.Tidy := by
  intro fd
  rw [Option.isSome_iff_exists]
  constructor
  · rintro ⟨fname, hfd⟩
    exact ⟨_, (h.refers fd fname).mp hfd, rfl⟩
  · rintro ⟨file, hfile, hown⟩
    obtain ⟨fname, rfl⟩ := RandomAccessFile.ownFd_eq_some.mp hown
    exact ⟨fname, (h.refers fd fname).mpr hfile⟩

/-- The limiters do not matter. -/
theorem congr (h : p.Owned) (hfds : q.fds = p.fds) (hfiles : q.files = p.files) : q.Owned := by
  obtain ⟨hrefers, hnodup⟩ := h
  exact ⟨by rwa [hfds, hfiles], by rwa [hfiles]⟩

/-- A file without a descriptor is made. -/
theorem add (h : p.Owned) (hfile : file.ownFd = none) : (p.add file).Owned := by
  refine ⟨fun fd fname => ?_, ?_⟩
  · rw [add_fds, add_files, List.mem_append, List.mem_singleton, ← h.refers]
    refine ⟨Or.inl, fun hor => hor.resolve_right ?_⟩
    rintro rfl
    exact absurd hfile (by simp [RandomAccessFile.ownFd])
  · rw [add_files, List.filterMap_append, List.filterMap_cons_none hfile, List.filterMap_nil,
      List.append_nil]
    exact h.nodup

/-- A file is made that keeps the descriptor opened for it. -/
theorem add_own (h : p.Owned) (fname : Bytes) (hfree : p.fds fd = none) :
    ((p.opened fd fname).add (.randomAccess fname false fd)).Owned := by
  have hnot : ∀ fname', RandomAccessFile.randomAccess fname' false fd ∉ p.files := by
    intro fname' hmem
    rw [← h.refers, hfree] at hmem
    exact absurd hmem (by simp)
  refine ⟨fun fd' fname' => ?_, ?_⟩
  · rw [add_fds, opened_fds, add_files, opened_files, List.mem_append, List.mem_singleton]
    by_cases hfd : fd' = fd
    · subst hfd
      rw [Function.update_self, or_iff_right (hnot fname')]
      simp [eq_comm]
    · rw [Function.update_of_ne hfd, h.refers, or_iff_left]
      simp [hfd]
  · rw [add_files, opened_files, List.filterMap_append, List.nodup_append]
    refine ⟨h.nodup, by simp [RandomAccessFile.ownFd], fun x hx y hy hxy => ?_⟩
    obtain rfl : y = fd := by simpa [RandomAccessFile.ownFd] using hy
    obtain ⟨file, hfile, hown⟩ := List.mem_filterMap.mp hx
    obtain ⟨fname', rfl⟩ := RandomAccessFile.ownFd_eq_some.mp (hxy ▸ hown)
    exact hnot fname' hfile

/-- A file without a descriptor goes. -/
theorem remove {files : List RandomAccessFile} (h : p.Owned) (hperm : (file :: files).Perm p.files)
    (hfile : file.ownFd = none) : Process.Owned { p with files := files } := by
  refine ⟨fun fd fname => ?_, ?_⟩
  · rw [h.refers, ← hperm.mem_iff, List.mem_cons, or_iff_right]
    rintro rfl
    exact absurd hfile (by simp [RandomAccessFile.ownFd])
  · have hnodup := (hperm.filterMap RandomAccessFile.ownFd).nodup_iff.mpr h.nodup
    rwa [List.filterMap_cons_none hfile] at hnodup

/-- A file goes, and its descriptor is closed. -/
theorem remove_own {files : List RandomAccessFile} (h : p.Owned)
    (hperm : (.randomAccess fname false fd :: files).Perm p.files) :
    (Process.close { p with files := files } fd).Owned := by
  have hown : (RandomAccessFile.randomAccess fname false fd).ownFd = some fd := rfl
  have hnodup := (hperm.filterMap RandomAccessFile.ownFd).nodup_iff.mpr h.nodup
  rw [List.filterMap_cons_some hown, List.nodup_cons] at hnodup
  refine ⟨fun fd' fname' => ?_, hnodup.2⟩
  rw [close_fds, close_files]
  by_cases hfd : fd' = fd
  · subst hfd
    rw [Function.update_self]
    refine iff_of_false (by simp) fun hmem => hnodup.1 ?_
    exact List.mem_filterMap.mpr ⟨_, hmem, rfl⟩
  · rw [Function.update_of_ne hfd, h.refers, ← hperm.mem_iff, List.mem_cons, or_iff_right]
    simp [hfd]

/-- **A file is destroyed**, and its descriptor closed if it has one. -/
theorem destroy (h : p.Owned) (hk : p.files[k]? = some file) :
    (Process.destroy { p with files := p.files.eraseIdx k } file).Owned := by
  obtain ⟨hlt, rfl⟩ := List.getElem?_eq_some_iff.mp hk
  have hperm := List.getElem_cons_eraseIdx_perm hlt
  generalize p.files[k] = file at hperm ⊢
  cases file with
  | mmapReadable filename length => exact (h.remove hperm rfl).congr rfl rfl
  | randomAccess filename temporaryFd fd =>
    cases temporaryFd with
    | false => exact (h.remove_own hperm).congr rfl rfl
    | true => exact h.remove hperm rfl

/-- A descriptor was opened, and closed again. -/
theorem closed (h : p.Owned) (hfree : p.fds fd = none)
    (hfds : q.fds = Function.update p.fds fd (some fname)) (hfiles : q.files = p.files) :
    (q.close fd).Owned := by
  refine h.congr ?_ hfiles
  rw [close_fds, hfds, Function.update_idem, ← hfree, Function.update_eq_self]

/-- **The constructor** of `PosixRandomAccessFile` keeps the descriptor, or closes it. -/
theorem randomAccess (h : p.Owned) (hfree : p.fds fd = none)
    (hfds : q.fds = Function.update p.fds fd (some fname)) (hfiles : q.files = p.files) :
    (q.randomAccess fname fd).Owned := by
  rw [Process.randomAccess]
  have hq : (q.acquire .fdLimit).2.fds = Function.update p.fds fd (some fname) := hfds
  have hq' : (q.acquire .fdLimit).2.files = p.files := hfiles
  generalize q.acquire .fdLimit = r at hq hq' ⊢
  obtain ⟨b, q⟩ := r
  cases b with
  | false => exact (h.closed hfree hq hq').add rfl
  | true =>
    refine (h.add_own fname hfree).congr hq ?_
    exact congrArg (· ++ [RandomAccessFile.randomAccess fname false fd]) hq'

/-- **`NewRandomAccessFile`** closes the descriptor it has opened, unless a file keeps it. -/
theorem newRandomAccessFile (h : p.Owned) (fname : Bytes) {o : Outcome}
    (hfree : p.fds o.fd = none) :
    (p.newRandomAccessFile fname o).2.Owned := by
  rw [Process.newRandomAccessFile]
  split_ifs
  · exact h
  have hq : ((p.opened o.fd fname).acquire .mmapLimit).2.fds =
      Function.update p.fds o.fd (some fname) := rfl
  have hq' : ((p.opened o.fd fname).acquire .mmapLimit).2.files = p.files := rfl
  dsimp only
  generalize (p.opened o.fd fname).acquire .mmapLimit = r at hq hq' ⊢
  obtain ⟨b, q⟩ := r
  cases b with
  | false => exact h.randomAccess hfree hq hq'
  | true =>
    have hclosed := h.closed hfree hq hq'
    have hmapped : ((q.mmap fname o).2.close o.fd).Owned := by
      rw [Process.mmap]
      split_ifs
      · exact (hclosed.add rfl).congr rfl rfl
      · exact hclosed
      · exact hclosed
    rw [if_pos rfl]
    split_ifs
    · exact hmapped.congr rfl rfl
    · exact hmapped

end Process.Owned

/-! ### What `Read` does to the descriptors -/

/-- A `Read` that meets the condition leaves the process as it is. -/
theorem Process.read_orderly {offset n : UInt64} {o : ReadOutcome} (hk : p.files[k]? = some file)
    (hcan : p.canRead o file) (hord : p.Orderly (.read k offset n o)) :
    (p.read offset n o file).2.fds = p.fds ∧ (p.read offset n o file).2.files = p.files := by
  rw [Orderly, hk] at hord
  cases file with
  | mmapReadable filename length =>
    rw [read]
    split_ifs
    · exact ⟨rfl, rfl⟩
    · exact ⟨rfl, rfl⟩
  | randomAccess filename temporaryFd fd =>
    cases temporaryFd with
    | false =>
      -- `pread` fails, and nothing is closed
      have hread : o.read < 0 := hord
      rw [read, readFrom, if_neg (by simp)]
      dsimp only
      rw [if_pos hread]
      exact ⟨rfl, rfl⟩
    | true =>
      have hfree : p.fds o.fd = none := Option.isNone_iff_eq_none.mp hcan
      rw [read, readFrom, if_pos rfl]
      by_cases hfd : o.fd < 0
      · rw [if_pos hfd]
        exact ⟨rfl, rfl⟩
      -- what was opened is closed again
      · have hread : ¬o.read < 0 := not_lt.mpr (hord.resolve_left hfd)
        rw [if_neg hfd]
        dsimp only
        rw [if_neg hread, close_fds, opened_fds, Function.update_idem, ← hfree,
          Function.update_eq_self]
        exact ⟨rfl, rfl⟩

/-- **A `Read` that does not meet the condition** leaves a descriptor open that no file has, or
has closed one that a file has. -/
theorem Process.read_disorderly {offset n : UInt64} {o : ReadOutcome} (h : p.Owned)
    (hk : p.files[k]? = some file) (hcan : p.canRead o file)
    (hord : ¬p.Orderly (.read k offset n o)) : ¬(p.read offset n o file).2.Tidy := by
  rw [Orderly, hk] at hord
  cases file with
  | mmapReadable filename length => exact absurd trivial hord
  | randomAccess filename temporaryFd fd =>
    cases temporaryFd with
    | false =>
      -- the file still has the descriptor that was closed
      have hread : ¬o.read < 0 := hord
      have hclosed : (p.read offset n o (.randomAccess filename false fd)).2 = p.close fd := by
        rw [read, readFrom, if_neg (by simp)]
        dsimp only
        rw [if_neg hread]
      rw [hclosed]
      intro htidy
      have hopen := (htidy fd).mpr ⟨_, List.mem_of_getElem? hk, rfl⟩
      rw [close_fds, Function.update_self] at hopen
      exact absurd hopen (by simp)
    | true =>
      -- no file has the descriptor that was opened
      have hfree : p.fds o.fd = none := Option.isNone_iff_eq_none.mp hcan
      obtain ⟨hfd, hread⟩ := not_or.mp hord
      have hleak : (p.read offset n o (.randomAccess filename true fd)).2 =
          p.opened o.fd filename := by
        rw [read, readFrom, if_pos rfl, if_neg hfd]
        dsimp only
        rw [if_pos (not_le.mp hread)]
      rw [hleak]
      intro htidy
      obtain ⟨file, hfile, hown⟩ := (htidy o.fd).mp (by rw [opened_fds, Function.update_self]; rfl)
      have hopen := (h.tidy o.fd).mpr ⟨file, hfile, hown⟩
      rw [hfree] at hopen
      exact absurd hopen (by simp)

/-! ### Runs -/

variable {a : Operation}

/-- What the three operations lead to. -/
theorem step_cases (hstep : operations.step p a = some q) :
    (∃ fname o, a = .newRandomAccessFile fname o ∧ p.fds o.fd = none ∧
      q = (p.newRandomAccessFile fname o).2) ∨
    (∃ k offset n o file, a = .read k offset n o ∧ p.files[k]? = some file ∧
      p.canRead o file = true ∧ q = (p.read offset n o file).2) ∨
    ∃ k file, a = .destroy k ∧ p.files[k]? = some file ∧
      q = Process.destroy { p with files := p.files.eraseIdx k } file := by
  have hstep : p.step a = some q := hstep
  cases a with
  | newRandomAccessFile fname o =>
    rw [Process.step] at hstep
    split_ifs at hstep with hfree
    exact Or.inl ⟨fname, o, rfl, Option.isNone_iff_eq_none.mp hfree,
      (Option.some.inj hstep).symm⟩
  | read k offset n o =>
    obtain ⟨file, hk, hstep⟩ := Option.bind_eq_some_iff.mp hstep
    split_ifs at hstep with hcan
    exact Or.inr (Or.inl ⟨k, offset, n, o, file, rfl, hk, hcan, (Option.some.inj hstep).symm⟩)
  | destroy k =>
    obtain ⟨file, hk, rfl⟩ := Option.map_eq_some_iff.mp hstep
    exact Or.inr (Or.inr ⟨k, file, rfl, hk, rfl⟩)

/-- A `Read` reads from a descriptor that is open for its own file. -/
theorem Process.Owned.own (h : p.Owned) {filename : Bytes} {temporaryFd : Bool} {o : ReadOutcome}
    (hk : p.files[k]? = some (.randomAccess filename temporaryFd fd)) {fd' : ℤ}
    (hread : p.readFrom filename temporaryFd fd o = some (fd', q)) : q.fds fd' = some filename := by
  rw [Process.readFrom] at hread
  split_ifs at hread with htemp
  · obtain ⟨rfl, rfl⟩ := Prod.mk.inj (Option.some.inj hread)
    exact Function.update_self ..
  · obtain ⟨rfl, rfl⟩ := Prod.mk.inj (Option.some.inj hread)
    rw [h.refers, ← Bool.eq_false_iff.mpr htemp]
    exact List.mem_of_getElem? hk

theorem keeps_of_orderly (h : p.Owned) (hstep : operations.step p a = some q)
    (hord : p.Orderly a) : q.Owned ∧ Keeps p a q := by
  rcases step_cases hstep with ⟨fname, o, rfl, hfree, rfl⟩ |
    ⟨k, offset, n, o, file, rfl, hk, hcan, rfl⟩ | ⟨k, file, rfl, hk, rfl⟩
  · have hq := h.newRandomAccessFile fname hfree
    exact ⟨hq, hq.tidy, fun _ _ _ _ h => Operation.noConfusion h,
      fun _ _ _ _ _ _ _ h => Operation.noConfusion h⟩
  · obtain ⟨hfds, hfiles⟩ := Process.read_orderly hk hcan hord
    have hq := h.congr hfds hfiles
    refine ⟨hq, hq.tidy, fun _ _ _ _ _ fd => by rw [hfds], ?_⟩
    intro k' offset' n' o' filename temporaryFd fd heq hk' fd' p' hread
    exact h.own hk' hread
  · have hq := h.destroy hk
    exact ⟨hq, hq.tidy, fun _ _ _ _ h => Operation.noConfusion h,
      fun _ _ _ _ _ _ _ h => Operation.noConfusion h⟩

theorem not_keeps_of_not_orderly (h : p.Owned) (hstep : operations.step p a = some q)
    (hord : ¬p.Orderly a) : ¬Keeps p a q := by
  rcases step_cases hstep with ⟨fname, o, rfl, -, -⟩ |
    ⟨k, offset, n, o, file, rfl, hk, hcan, rfl⟩ | ⟨k, file, rfl, -, -⟩
  · exact absurd trivial hord
  · exact fun hkeeps => Process.read_disorderly h hk hcan hord hkeeps.tidy
  · exact absurd trivial hord

/-- **Descriptors are neither leaked nor lost exactly where every `Read` is orderly.** -/
theorem keeps_iff {as : List Operation} (hinit : operations.init p)
    (hrun : operations.run p as = some q) :
    operations.along Keeps p as ↔ (operations.guard Process.Orderly).run p as = some q := by
  have hp : p.Owned := by
    obtain ⟨n, rfl⟩ := hinit
    exact .initial
  exact System.along_iff_guard (fun _ _ _ h hstep hord => keeps_of_orderly h hstep hord)
    (fun _ _ _ h hstep hord => not_keeps_of_not_orderly h hstep hord) hp hrun

/-- A process that allows no mapped files, and this many descriptors. -/
def Process.allowing (n : ℤ) : Process where
  limiters limit := ⟨if limit = .fdLimit then n else 0⟩

/-- One file has a descriptor, and its `Read` fails; another opens its file, and its `Read`
succeeds. -/
theorem keeps_iff_twoFiles : operations.along Keeps (.allowing 1)
    [.newRandomAccessFile [102] { fd := 3 }, .newRandomAccessFile [103] { fd := 4 },
      .read 0 0 10 { read := -1 }, .read 1 0 10 { fd := 4, read := 10 }, .destroy 0] :=
  (keeps_iff ⟨_, rfl⟩ rfl).mpr rfl

/-- **A `Read` that succeeds loses the descriptor**: it is closed, and given to the next file
that is opened, from which the first file then reads. And a `Read` that fails leaks the
descriptor that it has opened. -/
theorem read_loses_descriptor :
    (∃ p, operations.run (.allowing 2) [.newRandomAccessFile [102] { fd := 3 },
        .read 0 0 10 { read := 10 }, .newRandomAccessFile [103] { fd := 3 }] = some p ∧
      p.files = [.randomAccess [102] false 3, .randomAccess [103] false 3] ∧
      p.fds 3 = some [103]) ∧
    ¬operations.along Keeps (.allowing 2)
      [.newRandomAccessFile [102] { fd := 3 }, .read 0 0 10 { read := 10 }] ∧
    ¬operations.along Keeps (.allowing 0)
      [.newRandomAccessFile [102] { fd := 3 }, .read 0 0 10 { fd := 3, read := -1 }] := by
  refine ⟨⟨_, rfl, rfl, rfl⟩, fun h => ?_, fun h => ?_⟩
  · obtain ⟨-, h⟩ := h _ rfl
    obtain ⟨hkeeps, -⟩ := h _ rfl
    have hopen := (hkeeps.tidy 3).mpr ⟨_, List.mem_cons_self, rfl⟩
    exact absurd hopen (by decide)
  · obtain ⟨-, h⟩ := h _ rfl
    obtain ⟨hkeeps, -⟩ := h _ rfl
    obtain ⟨file, hfile, hown⟩ := (hkeeps.tidy 3).mp rfl
    obtain rfl := List.mem_singleton.mp hfile
    exact absurd hown (by decide)

end

/-! ### The operations among the threads -/

/-- The limiters and the files, with no call under way. -/
def Process.pool (p : Process) : Pool where
  limiters := p.limiters
  files := p.files

section

variable {n : Limit → ℤ} {limiters : Limit → Limiter} {files : List RandomAccessFile}
  {p q : Process} {o : Outcome} {fname : Bytes} {fd : ℤ}

/-- The only call under way goes on. -/
theorem steps_next (o : Outcome) {pc : CallPc} (hpc : ∀ s result, pc ≠ .returning s result) :
    (system n).Steps ⟨limiters, [pc], files⟩
      ⟨(pc.next limiters o).2, [(pc.next limiters o).1], files⟩ := by
  refine System.Steps.refl.step (a := Action.goOn 0 o) ?_
  cases pc with
  | returning s result => exact absurd rfl (hpc s result)
  | _ => rfl

/-- The only call under way returns. -/
theorem steps_return {s : Status} {result : Option RandomAccessFile} :
    (system n).Steps ⟨limiters, [.returning s result], files⟩
      ⟨limiters, [], files ++ result.toList⟩ :=
  System.Steps.refl.step (a := Action.goOn 0 {}) rfl

/-- `Acquire`, where no other thread comes in between. -/
theorem steps_acquire {limit : Limit} :
    (system n).Steps ⟨limiters, [.testing limit fname fd], files⟩
      ⟨Function.update limiters limit (limiters limit).acquire.2,
        [.acquired limit (limiters limit).acquire.1 fname fd], files⟩ := by
  have htest : (system n).Steps ⟨limiters, [.testing limit fname fd], files⟩ _ :=
    steps_next {} (by simp)
  rw [Limiter.acquire]
  rw [CallPc.next] at htest
  split_ifs at htest ⊢
  · exact htest.trans (steps_next {} (by simp))
  · rw [Function.update_eq_self]
    exact htest

/-- The constructor of `PosixRandomAccessFile`. -/
theorem steps_randomAccess : (system n).Steps ⟨p.limiters, [.testing .fdLimit fname fd], p.files⟩
    (p.randomAccess fname fd).pool := by
  have hacq : (system n).Steps ⟨p.limiters, [.testing .fdLimit fname fd], p.files⟩ _ :=
    steps_acquire
  rw [Process.randomAccess, Process.acquire]
  generalize (p.limiters .fdLimit).acquire = r at hacq ⊢
  obtain ⟨b, l⟩ := r
  cases b with
  | false => exact hacq.trans steps_return
  | true => exact hacq.trans steps_return

/-- `Release`, and the return of the status, after a failure. -/
theorem steps_release {s : Status} : (system n).Steps ⟨p.limiters, [.releasing s], p.files⟩
    (p.release .mmapLimit).pool := by
  have hreturned : (system n).Steps ⟨p.limiters, [.releasing s], p.files⟩ _ :=
    (steps_next {} (by simp)).trans steps_return
  rw [Option.toList_none, List.append_nil] at hreturned
  exact hreturned

/-- The way of `NewRandomAccessFile` to `mmap`, and from there. -/
theorem steps_mmap : (system n).Steps ⟨p.limiters, [.sizing fname fd], p.files⟩
    (if !(p.mmap fname o).1.isOk then ((p.mmap fname o).2.close fd).release .mmapLimit
      else (p.mmap fname o).2.close fd).pool := by
  have hsized : (system n).Steps ⟨p.limiters, [.sizing fname fd], p.files⟩ _ :=
    steps_next o (by simp)
  rw [CallPc.next] at hsized
  rw [Process.mmap]
  by_cases hsize : o.sizeStatus.isOk
  · rw [if_pos hsize] at hsized
    have hmapped := hsized.trans (steps_next o (by simp))
    rw [CallPc.next] at hmapped
    rw [if_pos hsize]
    by_cases hmap : o.mapped
    · rw [if_pos hmap] at hmapped
      rw [if_pos hmap]
      exact hmapped.trans steps_return
    · rw [if_neg hmap] at hmapped
      rw [if_neg hmap]
      exact hmapped.trans steps_release
  · rw [if_neg hsize] at hsized
    rw [if_neg hsize, if_pos (by simpa using hsize)]
    exact hsized.trans steps_release

/-- **`NewRandomAccessFile`** is a run of the threads, with one call. -/
theorem steps_newRandomAccessFile :
    (system n).Steps p.pool (p.newRandomAccessFile fname o).2.pool := by
  have hstart : (system n).Steps p.pool ⟨p.limiters, [.opening fname], p.files⟩ :=
    System.Steps.refl.step (a := Action.newRandomAccessFile fname) rfl
  have hopened := hstart.trans (steps_next o (by simp))
  rw [CallPc.next] at hopened
  rw [Process.newRandomAccessFile]
  split_ifs at hopened ⊢
  · have hreturned := hopened.trans steps_return
    rw [Option.toList_none, List.append_nil] at hreturned
    exact hreturned
  · have hacq := hopened.trans steps_acquire
    dsimp only [Process.acquire, Process.opened] at hacq ⊢
    generalize (p.limiters .mmapLimit).acquire = r at hacq ⊢
    obtain ⟨b, l⟩ := r
    cases b with
    | false => exact hacq.trans (steps_randomAccess (p := { p with
        fds := Function.update p.fds o.fd (some fname)
        limiters := Function.update p.limiters .mmapLimit l }))
    | true =>
      have hmapped := hacq.trans (steps_mmap (p := { p with
        fds := Function.update p.fds o.fd (some fname)
        limiters := Function.update p.limiters .mmapLimit l }) (o := o))
      dsimp only at hmapped ⊢
      rw [if_pos rfl]
      split_ifs at hmapped ⊢
      · exact hmapped
      · exact hmapped

/-- A `Read` leaves the limiters and the files alone. -/
theorem Process.read_pool {offset m : UInt64} {o : ReadOutcome} {file : RandomAccessFile} :
    (p.read offset m o file).2.pool = p.pool := by
  cases file with
  | mmapReadable filename length =>
    rw [read]
    split_ifs
    · rfl
    · rfl
  | randomAccess filename temporaryFd fd =>
    rw [read, readFrom]
    split_ifs <;> rfl

/-- **The operations are runs of the threads.** -/
theorem steps_operation {a : Operation} (hstep : operations.step p a = some q) :
    (system n).Steps p.pool q.pool := by
  rcases step_cases hstep with ⟨fname, o, rfl, -, rfl⟩ |
    ⟨k, offset, m, o, file, rfl, -, -, rfl⟩ | ⟨k, file, rfl, hk, rfl⟩
  · exact steps_newRandomAccessFile
  · rw [Process.read_pool]
    exact .refl
  · refine System.Steps.refl.step (a := Action.destroy k)
      (Option.map_eq_some_iff.mpr ⟨file, hk, ?_⟩)
    cases file with
    | mmapReadable filename length => rfl
    | randomAccess filename temporaryFd fd => cases temporaryFd <;> rfl

/-- What the files hold of `fd_limit_` are their descriptors. -/
theorem total_holds (files : List RandomAccessFile) :
    total (RandomAccessFile.holds .fdLimit) files =
      (files.filterMap RandomAccessFile.ownFd).length := by
  induction files with
  | nil => rfl
  | cons file files ih =>
    rw [← List.singleton_append, total_append, total_singleton, List.filterMap_append,
      List.length_append, ih]
    cases file with
    | mmapReadable filename length => rfl
    | randomAccess filename temporaryFd fd => cases temporaryFd <;> rfl

/-- **No more descriptors are open** than `fd_limit_` allows, after a run in which every `Read`
is orderly. -/
theorem open_descriptors_le {as : List Operation}
    (hrun : (operations.guard Process.Orderly).run { limiters := fun limit => ⟨n limit⟩ } as =
      some p) :
    (∀ fd, (p.fds fd).isSome ↔ fd ∈ p.files.filterMap RandomAccessFile.ownFd) ∧
      ((p.files.filterMap RandomAccessFile.ownFd).length : ℤ) ≤ max (n .fdLimit) 0 := by
  have hp : p.Owned ∧ (system n).Reachable p.pool := by
    refine (System.steps_of_run hrun).invariant
      (P := fun p => p.Owned ∧ (system n).Reachable p.pool) (fun p a q hp hstep => ?_)
      ⟨.initial, _, rfl, .refl⟩
    obtain ⟨hord, hstep⟩ := System.guard_step.mp hstep
    exact ⟨(keeps_of_orderly hp.1 hstep hord).1, hp.2.steps (steps_operation hstep)⟩
  refine ⟨fun fd => (hp.1.tidy fd).trans List.mem_filterMap.symm, ?_⟩
  obtain ⟨-, -, hheld⟩ := limits_conserved hp.2 .fdLimit
  rw [Pool.held, total_holds] at hheld
  simpa [Process.pool] using hheld

end

end LevelDb.Posix
