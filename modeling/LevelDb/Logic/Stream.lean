import LevelDb.Logic.Storage

/-!
# Files that are written through a buffer

A stream (`Storage.Stream`) is a file and a buffer in front of it. What is written goes into
the buffer, and from there into the file, a part of it at a time; only what is in the file
can be synced, and only what is synced is sure to survive a crash.

What survives every crash is told by the contents of the file alone
(`Storage.File.durable_iff`), grows with every sync, and never shrinks.
-/

namespace Storage

variable {B : Type}

namespace File

variable {f : File B} {bs cs : List B}

/-- **These bytes survive**: the file starts with them after every crash. -/
def Durable (f : File B) (bs : List B) : Prop := ∀ g, f.Crashed g → bs <+: g.contents

/-- What survives is what is synced. -/
theorem durable_iff : f.Durable bs ↔ bs <+: f.contents.take f.synced := by
  constructor
  · exact fun h => h _ f.crashed_lost
  · rintro h g ⟨rest, -, rfl⟩
    exact h.trans (List.prefix_append _ _)

/-- The file, synced to its end. -/
def sync (f : File B) : File B := stored f.contents

@[simp] theorem contents_append : (f.append bs).contents = f.contents ++ bs := rfl

/-- Appending makes nothing durable, and takes nothing back. -/
@[simp] theorem durable_append : (f.append cs).Durable bs ↔ f.Durable bs := by
  rw [durable_iff, durable_iff]
  exact iff_of_eq (congrArg _ (List.take_append_of_le_length f.synced_le))

/-- A sync makes everything durable. -/
@[simp] theorem durable_sync : f.sync.Durable bs ↔ bs <+: f.contents := by
  rw [durable_iff]
  exact iff_of_eq (congrArg _ List.take_length)

theorem Durable.le_contents (h : f.Durable bs) : bs <+: f.contents :=
  (durable_iff.mp h).trans (List.take_prefix _ _)

end File

/-- **A file, and the buffer through which it is written.** -/
structure Stream (B : Type) where
  file : File B
  buffer : List B
  deriving DecidableEq, Repr

namespace Stream

variable (s : Stream B) (bs : List B) (n : ℕ)

/-- All that was written, whether it has reached the file or not. -/
def written : List B := s.file.contents ++ s.buffer

/-- Write to the buffer. -/
def put : Stream B := ⟨s.file, s.buffer ++ bs⟩

/-- Let the file have the first bytes of the buffer. -/
def pass : Stream B := ⟨s.file.append (s.buffer.take n), s.buffer.drop n⟩

/-- Let the file have the whole buffer. -/
def drain : Stream B := ⟨s.file.append s.buffer, []⟩

/-- Sync the file. The buffer is not part of it. -/
def synced : Stream B := ⟨s.file.sync, s.buffer⟩

@[simp] theorem written_put : (s.put bs).written = s.written ++ bs :=
  (List.append_assoc _ _ _).symm

@[simp] theorem written_pass : (s.pass n).written = s.written := by
  rw [written, pass, File.contents_append, List.append_assoc, List.take_append_drop, written]

@[simp] theorem contents_drain : s.drain.file.contents = s.written := rfl

@[simp] theorem written_drain : s.drain.written = s.written := by
  rw [written, contents_drain, drain, List.append_nil]

@[simp] theorem durable_pass {cs : List B} :
    (s.pass n).file.Durable cs ↔ s.file.Durable cs := File.durable_append

@[simp] theorem durable_drain {cs : List B} : s.drain.file.Durable cs ↔ s.file.Durable cs :=
  File.durable_append

end Stream

end Storage
