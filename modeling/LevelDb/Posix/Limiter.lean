import LevelDb.Logic.Accounting
import LevelDb.Logic.Transition
import LevelDb.Slice

/-!
# The limits on open files

`util/env_posix.cpp` maps a file that it opens for random access, as long as `mmap_limit_`
allows it, and keeps its descriptor open, as long as `fd_limit_` does. A `Limiter` is shared
by all threads: `Limiter::Acquire` looks at the count once without the lock, and what that
look has seen may be old when the lock is taken.

The threads that are in `PosixEnv::NewRandomAccessFile`, any number of them, and the files
that it has returned are a transition system (`LevelDb.Posix.system`). A call goes on one
access to a limiter, or one system call, at a time, and what the system call returns is part
of the action taken.

In every reachable state, the count of each limiter and the acquisitions held of it make up
the initial limit, and the count is never lowered below zero
(`LevelDb.Posix.limits_conserved`).
-/

namespace LevelDb.Posix

open Accounting Transition

/-! ### The code -/

/-- `Limiter`, which holds how many more resources are allowed. -/
structure Limiter where
  allowed : ℤ
  deriving DecidableEq, Repr

namespace Limiter

/-- The first test of `Limiter::Acquire`: whether it goes on. -/
def test (l : Limiter) : Bool := if l.allowed ≤ 0 then false else true

/-- `Limiter::Acquire`, behind its lock: what it returns, and the limiter. -/
def acquireLocked (l : Limiter) : Bool × Limiter :=
  let x := l.allowed
  if x ≤ 0 then (false, l) else (true, { l with allowed := x - 1 })

/-- `Limiter::Acquire`, where no other thread comes in between. -/
def acquire (l : Limiter) : Bool × Limiter := if l.test then l.acquireLocked else (false, l)

/-- `Limiter::Release`. -/
def release (l : Limiter) : Limiter := { l with allowed := l.allowed + 1 }

end Limiter

/-- The two limiters of `PosixEnv`. -/
inductive Limit
  | mmapLimit
  | fdLimit
  deriving DecidableEq, Repr

/-- A file that `NewRandomAccessFile` has made. -/
inductive RandomAccessFile
  /-- `PosixMmapReadableFile`, with `filename_` and `length_`. -/
  | mmapReadable (filename : Bytes) (length : UInt64)
  /-- `PosixRandomAccessFile`, with `filename_`, `temporary_fd_` and `fd_`. -/
  | randomAccess (filename : Bytes) (temporaryFd : Bool) (fd : ℤ)
  deriving DecidableEq, Repr

/-- What the system calls of `NewRandomAccessFile` return. -/
structure Outcome where
  /-- The descriptor that `open` returns. -/
  fd : ℤ := -1
  /-- The status of `GetFileSize`. -/
  sizeStatus : Status := .ok
  size : UInt64 := 0
  /-- Whether `mmap` returns a region. -/
  mapped : Bool := false
  /-- `strerror(errno)`. -/
  errno : String := ""
  deriving DecidableEq, Repr

/-- Where a call of `NewRandomAccessFile` is. -/
inductive CallPc
  /-- At `open`. -/
  | opening (fname : Bytes)
  /-- At the first test of `Acquire`. -/
  | testing (limit : Limit) (fname : Bytes) (fd : ℤ)
  /-- Behind that test, at the lock. -/
  | locking (limit : Limit) (fname : Bytes) (fd : ℤ)
  /-- At `GetFileSize`. -/
  | sizing (fname : Bytes) (fd : ℤ)
  /-- At `mmap`. -/
  | mapping (fname : Bytes) (fd : ℤ) (size : UInt64)
  /-- At `mmap_limit_.Release()`, after a failure. -/
  | releasing (s : Status)
  | returning (s : Status) (result : Option RandomAccessFile)
  deriving DecidableEq, Repr

namespace CallPc

/-- Where `NewRandomAccessFile` goes on when `Acquire` has returned: on the way to `mmap`, or
in the constructor of `PosixRandomAccessFile`, and then out of that. -/
def acquired : Limit → Bool → Bytes → ℤ → CallPc
  | .mmapLimit, true, fname, fd => sizing fname fd
  | .mmapLimit, false, fname, fd => testing .fdLimit fname fd
  | .fdLimit, true, fname, fd => returning .ok (some (.randomAccess fname false fd))
  | .fdLimit, false, fname, _ => returning .ok (some (.randomAccess fname true (-1)))

/-- The next section of `PosixEnv::NewRandomAccessFile`, and the limiters after it. -/
def next (limiters : Limit → Limiter) (o : Outcome) : CallPc → CallPc × (Limit → Limiter)
  | opening fname =>
    -- nothing was opened, and `*result` stays `NULL`
    if o.fd < 0 then (returning (.ioError fname.text o.errno) none, limiters)
    else (testing .mmapLimit fname o.fd, limiters)
  | testing limit fname fd =>
    -- without the lock: by the time it is taken the count may be another one
    if (limiters limit).test then (locking limit fname fd, limiters)
    else (acquired limit false fname fd, limiters)
  | locking limit fname fd =>
    let (b, l) := (limiters limit).acquireLocked
    (acquired limit b fname fd, Function.update limiters limit l)
  | sizing fname fd =>
    if o.sizeStatus.isOk then (mapping fname fd o.size, limiters)
    else (releasing o.sizeStatus, limiters)
  | mapping fname _ size =>
    -- the file takes the acquisition over, and its destructor releases it
    if o.mapped then (returning .ok (some (.mmapReadable fname size)), limiters)
    else (releasing (.ioError fname.text o.errno), limiters)
  | releasing s =>
    (returning s none, Function.update limiters .mmapLimit (limiters .mmapLimit).release)
  | returning s result => (returning s result, limiters)

end CallPc

/-- The limiters after `~PosixMmapReadableFile`, or `~PosixRandomAccessFile`. -/
def RandomAccessFile.destroy (limiters : Limit → Limiter) : RandomAccessFile → Limit → Limiter
  | mmapReadable _ _ => Function.update limiters .mmapLimit (limiters .mmapLimit).release
  | randomAccess _ temporaryFd _ =>
    if !temporaryFd then Function.update limiters .fdLimit (limiters .fdLimit).release
    else limiters

/-! ### The system -/

/-- **The threads and the files**: the limiters, the calls under way, and the files that
were returned and not destroyed. -/
structure Pool where
  limiters : Limit → Limiter
  calls : List CallPc := []
  files : List RandomAccessFile := []

/-- A section of a thread. -/
inductive Action
  /-- A call of `NewRandomAccessFile` starts. -/
  | newRandomAccessFile (fname : Bytes)
  /-- A call goes on, or returns. -/
  | goOn (k : ℕ) (o : Outcome)
  /-- A file is destroyed. -/
  | destroy (k : ℕ)
  deriving DecidableEq, Repr

/-- One step of the threads together. -/
def Pool.step (s : Pool) : Action → Option Pool
  | .newRandomAccessFile fname => some { s with calls := s.calls ++ [.opening fname] }
  | .goOn k o =>
    match s.calls[k]? with
    | none => none
    | some (.returning _ result) =>
      -- the caller has the file from here on
      some { s with calls := s.calls.eraseIdx k, files := s.files ++ result.toList }
    | some pc =>
      some { s with
        limiters := (pc.next s.limiters o).2
        calls := s.calls.set k (pc.next s.limiters o).1 }
  | .destroy k =>
    (s.files[k]?).map fun file =>
      { s with limiters := file.destroy s.limiters, files := s.files.eraseIdx k }

/-- **The system** of all the threads, from the limits `n`. -/
def system (n : Limit → ℤ) : System Pool Action where
  init s := s = { limiters := fun limit => ⟨n limit⟩ }
  step := Pool.step

/-! ### What is held -/

/-- What a file holds of a limit. -/
def RandomAccessFile.holds (limit : Limit) : RandomAccessFile → ℕ
  | mmapReadable _ _ => if limit = .mmapLimit then 1 else 0
  | randomAccess _ temporaryFd _ => if limit = .fdLimit ∧ temporaryFd = false then 1 else 0

/-- What a call holds of a limit: between `Acquire` and `Release` it holds one, and in the end
what the file holds that it returns. -/
def CallPc.holds (limit : Limit) : CallPc → ℕ
  | sizing _ _ | mapping _ _ _ | releasing _ => if limit = .mmapLimit then 1 else 0
  | returning _ result => total (RandomAccessFile.holds limit) result.toList
  | _ => 0

/-- **The acquisitions held** of a limit. -/
def Pool.held (s : Pool) (limit : Limit) : ℕ :=
  total (CallPc.holds limit) s.calls + total (RandomAccessFile.holds limit) s.files

section

variable {limit l : Limit} {limiters : Limit → Limiter} {rest : ℕ} {m : ℤ}

/-- What `Acquire` has returned is what is held behind it. -/
theorem CallPc.holds_acquired {b : Bool} {fname : Bytes} {fd : ℤ} :
    (acquired l b fname fd).holds limit = if limit = l ∧ b = true then 1 else 0 := by
  cases l <;> cases b <;> simp [acquired, holds, RandomAccessFile.holds]

/-- **`Limiter::Acquire`** takes a unit where it returns true. -/
theorem acquireLocked_balanced (h : Balanced m (limiters limit).allowed rest) :
    Balanced m (Function.update limiters l (limiters l).acquireLocked.2 limit).allowed
      ((if limit = l ∧ (limiters l).acquireLocked.1 = true then 1 else 0) + rest) := by
  rw [Limiter.acquireLocked]
  by_cases hl : limit = l
  · subst hl
    rw [Function.update_self]
    split_ifs with hnone h' h'
    -- it returns false, and leaves the count as it is
    · exact absurd h'.2 (by simp)
    · rw [Nat.zero_add]
      exact h
    · rw [Nat.add_comm]
      exact h.take (not_le.mp hnone)
    · exact absurd ⟨rfl, rfl⟩ h'
  · rw [Function.update_of_ne hl, if_neg fun h => hl h.1, Nat.zero_add]
    exact h

/-- **`Limiter::Release`** gives one back. -/
theorem release_balanced
    (h : Balanced m (limiters limit).allowed ((if limit = l then 1 else 0) + rest)) :
    Balanced m (Function.update limiters l (limiters l).release limit).allowed rest := by
  by_cases hl : limit = l
  · subst hl
    rw [Function.update_self, Limiter.release]
    rw [if_pos rfl, Nat.add_comm] at h
    exact h.give
  · rw [Function.update_of_ne hl]
    rw [if_neg hl, Nat.zero_add] at h
    exact h

/-- **A section of a call** keeps the account. -/
theorem CallPc.next_balanced {pc : CallPc} {o : Outcome}
    (h : Balanced m (limiters limit).allowed (pc.holds limit + rest)) :
    Balanced m ((pc.next limiters o).2 limit).allowed
      ((pc.next limiters o).1.holds limit + rest) := by
  cases pc with
  | opening fname =>
    rw [next]
    split_ifs
    · exact h
    · exact h
  | testing l fname fd =>
    rw [next]
    split_ifs
    · exact h
    · rw [holds_acquired, if_neg (by simp)]
      exact h
  | locking l fname fd =>
    have hrest : Balanced m (limiters limit).allowed rest := by
      rw [← Nat.zero_add rest]
      exact h
    have hnext := acquireLocked_balanced (l := l) hrest
    exact (holds_acquired ..).symm ▸ hnext
  | sizing fname fd =>
    rw [next]
    split_ifs
    · exact h
    · exact h
  | mapping fname fd size =>
    rw [next]
    split_ifs
    · exact h
    · exact h
  | releasing s =>
    have hrest : Balanced m (limiters limit).allowed
        ((if limit = .mmapLimit then 1 else 0) + rest) := h
    have hnext := release_balanced hrest
    rw [← Nat.zero_add rest] at hnext
    exact hnext
  | returning s result => exact h

/-- **A destructor** gives back what the file has held. -/
theorem RandomAccessFile.destroy_balanced {file : RandomAccessFile}
    (h : Balanced m (limiters limit).allowed (file.holds limit + rest)) :
    Balanced m (file.destroy limiters limit).allowed rest := by
  cases file with
  | mmapReadable filename length => exact release_balanced h
  | randomAccess filename temporaryFd fd =>
    cases temporaryFd with
    | false =>
      simp only [holds, and_true] at h
      exact release_balanced h
    | true =>
      simp only [holds, Bool.true_eq_false, and_false, if_false, Nat.zero_add] at h
      exact h

end

/-! ### The account -/

variable {s t : Pool} {n : Limit → ℤ} {a : Action}

/-- **The account of every limit balances.** -/
def Pool.Conserved (n : Limit → ℤ) (s : Pool) : Prop :=
  ∀ limit, Balanced (n limit) (s.limiters limit).allowed (s.held limit)

theorem Pool.Conserved.step (h : s.Conserved n) (hstep : (system n).step s a = some t) :
    t.Conserved n := by
  intro limit
  have h := h limit
  have hstep : s.step a = some t := hstep
  rw [Pool.held] at h
  cases a with
  | newRandomAccessFile fname =>
    obtain rfl := Option.some.inj hstep
    rw [Pool.held, total_append, total_singleton]
    exact h
  | goOn k o =>
    rw [Pool.step] at hstep
    split at hstep
    · exact absurd hstep (by simp)
    · next s' result hk =>
      -- the call hands over what it holds
      obtain rfl := Option.some.inj hstep
      rw [total_eq hk, CallPc.holds] at h
      rw [Pool.held, total_append]
      convert h using 1
      dsimp only
      omega
    · next pc hne hk =>
      obtain rfl := Option.some.inj hstep
      obtain ⟨hlt, -⟩ := List.getElem?_eq_some_iff.mp hk
      rw [total_eq hk, Nat.add_assoc] at h
      rw [Pool.held, total_set hlt, Nat.add_assoc]
      exact CallPc.next_balanced h
  | destroy k =>
    obtain ⟨file, hk, rfl⟩ := Option.map_eq_some_iff.mp hstep
    rw [total_eq hk, Nat.add_left_comm] at h
    exact file.destroy_balanced h

/-- **The limits are conserved**: in every reachable state the count of a limit and the
acquisitions held of it make up the initial limit, the count is at least what it was or zero,
and no more is held than the limit allows. -/
theorem limits_conserved (h : (system n).Reachable s) (limit : Limit) :
    (s.limiters limit).allowed + s.held limit = n limit ∧
      min (n limit) 0 ≤ (s.limiters limit).allowed ∧ (s.held limit : ℤ) ≤ max (n limit) 0 := by
  have hs : s.Conserved n := h.invariant (fun s hs limit => by
    obtain rfl : s = _ := hs
    exact .initial _) fun _ _ _ hs hstep => hs.step hstep
  exact ⟨(hs limit).sum, (hs limit).floor, (hs limit).held_le⟩

/-- One file is mapped and another has kept its descriptor, where each limit is one, and a
third opens its file at every access. -/
theorem limits_conserved_three : ∃ s, (system fun _ => 1).Reachable s ∧
    s.files = [.mmapReadable [1] 0, .randomAccess [2] false 5, .randomAccess [3] true (-1)] ∧
    s.held .fdLimit = 1 ∧ (s.limiters .fdLimit).allowed = 0 := by
  obtain ⟨s, hrun, hfiles, hheld⟩ : ∃ s, (system fun _ => 1).run { limiters := fun _ => ⟨1⟩ }
      ([.newRandomAccessFile [1], .newRandomAccessFile [2], .newRandomAccessFile [3]] ++
        List.replicate 6 (.goOn 0 { fd := 4, mapped := true }) ++
        List.replicate 5 (.goOn 0 { fd := 5 }) ++ List.replicate 4 (.goOn 0 { fd := 6 })) = some s ∧
      s.files = [.mmapReadable [1] 0, .randomAccess [2] false 5, .randomAccess [3] true (-1)] ∧
      s.held .fdLimit = 1 := ⟨_, rfl, rfl, rfl⟩
  have hreach : (system fun _ => 1).Reachable s := ⟨_, rfl, System.steps_of_run hrun⟩
  obtain ⟨hsum, -⟩ := limits_conserved hreach .fdLimit
  rw [hheld] at hsum
  exact ⟨s, hreach, hfiles, hheld, by simpa using hsum⟩

end LevelDb.Posix
