import Mathlib.Data.List.Basic
import Mathlib.Tactic.Common

/-!
# Slices and statuses

The two value types every other file passes around: `LevelDb.Bytes`, the bytes a
`Slice` or a `std::string` refers to, with the two operations of `Slice` that
carry an `assert`, and `LevelDb.Status`.

An assertion that fails is an outcome of its own (`LevelDb.Fault.assertion`), so
that a function which never trips one is a function that never returns it. The
other fault, `LevelDb.Fault.fuel`, is the mark of a loop whose bound ran out.
-/

namespace LevelDb

/-- The bytes of a `Slice` or of a `std::string`. -/
abbrev Bytes := List UInt8

/-- The text of a string of bytes. -/
def Bytes.text (s : Bytes) : String := String.ofList (s.map fun b => Char.ofNat b.toNat)

/-- How a function can end other than by returning. -/
inductive Fault
  /-- An `assert` failed. -/
  | assertion
  /-- A loop was cut off by its bound. -/
  | fuel
  deriving DecidableEq, Repr

@[simp] theorem Fault.ok_bind {α β : Type} (a : α) (f : α → Except Fault β) :
    (Except.ok a >>= f) = f a := rfl

/-- `Slice::operator[]`. -/
def Slice.get (s : Bytes) (n : ℕ) : Except Fault UInt8 :=
  match s[n]? with
  | some b => .ok b
  | none => .error .assertion

/-- `Slice::remove_prefix`. -/
def Slice.removePrefix (s : Bytes) (n : ℕ) : Except Fault Bytes :=
  if n ≤ s.length then .ok (s.drop n) else .error .assertion

theorem Slice.removePrefix_of_le {s : Bytes} {n : ℕ} (h : n ≤ s.length) :
    Slice.removePrefix s n = .ok (s.drop n) := if_pos h

@[simp] theorem Slice.get_cons_zero (b : UInt8) (s : Bytes) : Slice.get (b :: s) 0 = .ok b := rfl

@[simp] theorem Slice.removePrefix_cons_one (b : UInt8) (s : Bytes) :
    Slice.removePrefix (b :: s) 1 = .ok s :=
  Slice.removePrefix_of_le (by simp)

/-- `Status::Code`, without `kOk`. -/
inductive Code
  | kNotFound
  | kCorruption
  | kNotSupported
  | kInvalidArgument
  | kIOError
  deriving DecidableEq, Repr

/-- A `Status`: OK, or an error with its code and its two messages. -/
inductive Status
  /-- `Status::OK()`, the null state. -/
  | ok
  /-- An error. -/
  | error (code : Code) (msg msg2 : String)
  deriving DecidableEq, Repr

namespace Status

/-- `Status::ok()`. -/
def isOk : Status → Bool
  | ok => true
  | error .. => false

/-- `Status::Corruption`. -/
def corruption (msg : String) (msg2 : String := "") : Status := error .kCorruption msg msg2

/-- `Status::InvalidArgument`. -/
def invalidArgument (msg : String) (msg2 : String := "") : Status :=
  error .kInvalidArgument msg msg2

/-- `Status::IOError`. -/
def ioError (msg : String) (msg2 : String := "") : Status := error .kIOError msg msg2

@[simp] theorem isOk_ok : isOk ok = true := rfl

@[simp] theorem isOk_error (c : Code) (m m' : String) : isOk (error c m m') = false := rfl

@[simp] theorem isOk_corruption (m m' : String) : isOk (corruption m m') = false := rfl

@[simp] theorem isOk_ioError (m m' : String) : isOk (ioError m m') = false := rfl

@[simp] theorem isOk_invalidArgument (m m' : String) : isOk (invalidArgument m m') = false := rfl

end Status

end LevelDb
