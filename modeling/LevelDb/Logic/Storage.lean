import Mathlib.Data.List.Basic
import Mathlib.Data.Option.Basic
import Mathlib.Order.Lattice
import Mathlib.Tactic.Common

/-!
# Files that a crash of the machine shortens

What a program appends to a file is there for whoever reads the file, but until it is
synced it is not on disk. A file (`Storage.File`) is its contents and how much of them is
synced; a crash keeps that much and any part of the rest (`Storage.File.Crashed`). Names
are not at stake: what was created is there after a crash, what was deleted is not, and a
file that was renamed has its new name (`Storage.Store.Crashed`).

A file that is synced to its end is the same after every crash
(`Storage.Store.Crashed.stored`), and there is always a crash that leaves of every file
what was synced, and no more (`Storage.Store.crashed_lost`).
-/

namespace Storage

variable {N B : Type}

/-- **A file**: what it holds, and how much of that is synced. -/
structure File (B : Type) where
  contents : List B
  synced : ℕ
  synced_le : synced ≤ contents.length
  deriving DecidableEq, Repr

namespace File

/-- A file that is synced to its end. -/
def stored (bs : List B) : File B := ⟨bs, bs.length, le_rfl⟩

/-- A file that was just created, or truncated. -/
def empty : File B := ⟨[], 0, le_rfl⟩

/-- Append, without a sync. -/
def append (f : File B) (bs : List B) : File B where
  contents := f.contents ++ bs
  synced := f.synced
  synced_le := by
    rw [List.length_append]
    exact f.synced_le.trans (Nat.le_add_right ..)

/-- Keep the first `n` bytes at most, and what is synced. -/
def cut (f : File B) (n : ℕ) : File B where
  contents := f.contents.take (max f.synced n)
  synced := f.synced
  synced_le := by
    rw [List.length_take]
    exact le_min (le_max_left ..) f.synced_le

/-- **What a crash leaves of a file**: what is synced, and any part of the rest. -/
def Crashed (f g : File B) : Prop :=
  ∃ rest, rest.Sublist (f.contents.drop f.synced) ∧
    g = stored (f.contents.take f.synced ++ rest)

/-- What is synced of the file. -/
def lost (f : File B) : File B := stored (f.contents.take f.synced)

theorem crashed_lost (f : File B) : f.Crashed f.lost :=
  ⟨[], List.nil_sublist _, by rw [List.append_nil, lost]⟩

/-- A file that is synced to its end is the same after a crash. -/
theorem Crashed.eq_stored {bs : List B} {g : File B} (h : (stored bs).Crashed g) :
    g = stored bs := by
  obtain ⟨rest, hrest, rfl⟩ := h
  have hnil : rest = [] := by
    rw [stored, List.drop_length] at hrest
    exact List.sublist_nil.mp hrest
  have hkept : (stored bs).contents.take (stored bs).synced = bs := List.take_length
  rw [hnil, hkept, List.append_nil]

end File

/-- **The files**, by name. -/
abbrev Store (N B : Type) : Type := N → Option (File B)

namespace Store

/-- **What a crash leaves of the files.** -/
def Crashed (fs gs : Store N B) : Prop := ∀ n, Option.Rel File.Crashed (fs n) (gs n)

/-- What is synced of the files. -/
def lost (fs : Store N B) : Store N B := fun n => (fs n).map File.lost

/-- A crash may leave what is synced, and no more. -/
theorem crashed_lost (fs : Store N B) : fs.Crashed fs.lost := by
  intro n
  rw [lost]
  rcases fs n with _ | f
  · exact .none
  · exact .some f.crashed_lost

variable {fs gs : Store N B} {n : N}

/-- A crash creates no file. -/
theorem Crashed.eq_none (h : fs.Crashed gs) (hn : fs n = none) : gs n = none := by
  have hrel := h n
  rw [hn] at hrel
  generalize gs n = g at hrel
  cases hrel
  rfl

/-- A file that is synced to its end is the same after a crash. -/
theorem Crashed.stored {bs : List B} (h : fs.Crashed gs) (hn : fs n = some (.stored bs)) :
    gs n = some (.stored bs) := by
  have hrel := h n
  rw [hn] at hrel
  generalize gs n = g at hrel
  cases hrel with
  | some hg => rw [hg.eq_stored]

end Store

end Storage
