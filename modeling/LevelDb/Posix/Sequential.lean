import LevelDb.Logic.Transition
import LevelDb.Slice
import Mathlib.Algebra.Order.Ring.Int

/-!
# Reading a file from front to back

`PosixSequentialFile` reads through a stream. A `Read` that comes back short tells by `feof`
whether it was the end of the file or an error. The end-of-file indicator of a stream stays set
until the stream is positioned; still a short `Read` whose status is OK has always reached the
end, since the indicator is set only there.

`Skip` hands a 64-bit count to `fseek`, which takes a `long`. From `2 ^ 63` on the count is
negative there, and a `Skip` that succeeds goes back. Apart from that, the bytes of a run are
those of the file in order (`LevelDb.Posix.advances_iff`).
-/

namespace LevelDb.Posix

open Transition

/-- A `PosixSequentialFile`: its name, what is in the file, where the stream is, and whether
`feof` of it is set. -/
structure SequentialFile where
  filename : Bytes
  contents : Bytes
  pos : ℕ := 0
  eof : Bool := false
  deriving DecidableEq, Repr

/-- A call, and what the library does in it. -/
inductive SequentialOp
  /-- `Read`. If `fread_unlocked` fails, it does so after some bytes. -/
  | read (n : UInt64) (failed : Option ℕ) (errno : String)
  /-- `Skip`. `fseek` can fail. -/
  | skip (n : UInt64) (failed : Bool) (errno : String)
  deriving DecidableEq, Repr

/-- A count, as a `long`. -/
def toLong (n : UInt64) : ℤ := n.toBitVec.toInt

namespace SequentialFile

/-- What is left of the file. -/
def rest (f : SequentialFile) : Bytes := f.contents.drop f.pos

/-- `fread_unlocked`: the bytes, and the stream. It comes back short at the end of the file,
where it sets the indicator, or on an error. -/
def fread (f : SequentialFile) (n : UInt64) : Option ℕ → Bytes × SequentialFile
  | none =>
    let data := f.rest.take n.toNat
    (data, { f with pos := f.pos + data.length, eof := f.eof || data.length < n.toNat })
  | some k =>
    let data := f.rest.take (min k n.toNat)
    (data, { f with pos := f.pos + data.length })

/-- `Read`: the status, the bytes, and the file. -/
def read (f : SequentialFile) (n : UInt64) (failed : Option ℕ) (errno : String) :
    Status × Bytes × SequentialFile :=
  let (data, g) := f.fread n failed
  if data.length < n.toNat then
    if g.eof then (.ok, data, g) else (.ioError f.filename.text errno, data, g)
  else (.ok, data, g)

/-- `fseek` from where the stream is. It does not go before the beginning. -/
def fseek (f : SequentialFile) (offset : ℤ) (failed : Bool) : Option SequentialFile :=
  if failed ∨ f.pos + offset < 0 then none
  else some { f with pos := (f.pos + offset).toNat, eof := false }

/-- `Skip`: the status, and the file. -/
def skip (f : SequentialFile) (n : UInt64) (failed : Bool) (errno : String) :
    Status × SequentialFile :=
  match f.fseek (toLong n) failed with
  | some g => (.ok, g)
  | none => (.ioError f.filename.text errno, f)

/-- A call. -/
def step (f : SequentialFile) : SequentialOp → SequentialFile
  | .read n failed errno => (f.read n failed errno).2.2
  | .skip n failed errno => (f.skip n failed errno).2

/-- **A call goes forward**: a `Read` by the bytes it returns, which are those of the file
there, and it has come to the end if it is short and OK; a `Skip` by its count, or not at all
if it fails. -/
def Advances (f : SequentialFile) : SequentialOp → SequentialFile → Prop
  | .read n failed errno, g =>
    let r := f.read n failed errno
    r.2.1 <+: f.rest ∧ g.pos = f.pos + r.2.1.length ∧
      (r.1.isOk = true → r.2.1.length < n.toNat → g.rest = [])
  | .skip n failed errno, g =>
    g.pos = if (f.skip n failed errno).1.isOk then f.pos + n.toNat else f.pos

/-- **The condition**: a `Skip` of `2 ^ 63` bytes or more fails. -/
def Forward (f : SequentialFile) : SequentialOp → Prop
  | .read .. => True
  | .skip n failed errno => (f.skip n failed errno).1.isOk = true → n.toNat < 2 ^ 63

instance (f : SequentialFile) : ∀ a, Decidable (f.Forward a)
  | .read .. => .isTrue trivial
  | .skip n failed errno =>
    inferInstanceAs (Decidable ((f.skip n failed errno).1.isOk = true → n.toNat < 2 ^ 63))

/-- The calls on a file that was opened. -/
def calls : System SequentialFile SequentialOp where
  init f := f.pos = 0 ∧ f.eof = false
  step f a := some (f.step a)

/-! ### One call -/

variable {f g : SequentialFile} {n : UInt64} {failed : Option ℕ} {errno : String}

/-- The indicator is set at the end only. -/
def Honest (f : SequentialFile) : Prop := f.eof = true → f.rest = []

theorem toLong_eq (n : UInt64) :
    toLong n = if n.toNat < 2 ^ 63 then (n.toNat : ℤ) else n.toNat - 2 ^ 64 := by
  have hcond := BitVec.toInt_eq_toNat_cond n.toBitVec
  have hsame : n.toBitVec.toNat = n.toNat := rfl
  rw [toLong, hcond, hsame]
  split_ifs
  · rfl
  · omega
  · omega
  · rfl

/-- What is left after some of it was read. -/
theorem rest_of_pos {k : ℕ} (hcontents : g.contents = f.contents)
    (hpos : g.pos = f.pos + (f.rest.take k).length) :
    g.rest = f.rest.drop (f.rest.take k).length := by
  rw [rest, hcontents, hpos, ← List.drop_drop]
  rfl

theorem rest_of_short {k : ℕ} (h : (f.rest.take k).length < k) :
    f.rest.drop (f.rest.take k).length = [] := by
  rw [List.length_take] at h ⊢
  exact List.drop_eq_nil_of_le (by omega)

/-- What `fread` does to the stream, and what the indicator says after it. -/
theorem fread_spec (h : f.Honest) (n : UInt64) (failed : Option ℕ) :
    ∃ k, (f.fread n failed).1 = f.rest.take k ∧
    (f.fread n failed).2.pos = f.pos + (f.rest.take k).length ∧
    (f.fread n failed).2.Honest := by
  cases failed with
  | none =>
    refine ⟨n.toNat, rfl, rfl, fun heof => ?_⟩
    have hrest : (f.fread n none).2.rest = f.rest.drop (f.rest.take n.toNat).length :=
      rest_of_pos rfl rfl
    rw [hrest]
    -- either it was set before, and nothing was left, or the read was short
    rcases Bool.or_eq_true_iff.mp heof with heof | hshort
    · rw [h heof, List.drop_nil]
    · exact rest_of_short (of_decide_eq_true hshort)
  | some k =>
    refine ⟨min k n.toNat, rfl, rfl, fun heof => ?_⟩
    have hrest : (f.fread n (some k)).2.rest = f.rest.drop (f.rest.take (min k n.toNat)).length :=
      rest_of_pos rfl rfl
    rw [hrest, h heof, List.drop_nil]

theorem read_spec (f : SequentialFile) (n : UInt64) (failed : Option ℕ) (errno : String) :
    (f.read n failed errno).2 = f.fread n failed ∧
    ((f.read n failed errno).1.isOk = true → (f.fread n failed).1.length < n.toNat →
      (f.fread n failed).2.eof = true) := by
  simp only [read]
  split_ifs with hshort heof
  · exact ⟨rfl, fun _ _ => heof⟩
  · exact ⟨rfl, fun hok => absurd hok (by simp)⟩
  · exact ⟨rfl, fun _ h => absurd h hshort⟩

/-- A `Read` goes forward, since the indicator can be relied on. -/
theorem read_advances (h : f.Honest) :
    (f.step (.read n failed errno)).Honest ∧
      f.Advances (.read n failed errno) (f.step (.read n failed errno)) := by
  obtain ⟨k, hdata, hpos, hhonest⟩ := fread_spec h n failed
  obtain ⟨hread, hshort⟩ := f.read_spec n failed errno
  have hstep : f.step (.read n failed errno) = (f.fread n failed).2 := congrArg Prod.snd hread
  rw [hstep]
  simp only [Advances, hread, hdata] at hshort ⊢
  exact ⟨hhonest, List.take_prefix _ _, hpos, fun hok hlt => hhonest (hshort hok hlt)⟩

/-- **What `Skip` does**: it fails and stays where it is, or goes by the count as a `long`. -/
theorem skip_spec (f : SequentialFile) (n : UInt64) (failed : Bool) (errno : String) :
    ((f.skip n failed errno).1.isOk = false ∧ (f.skip n failed errno).2 = f) ∨
    ((f.skip n failed errno).1.isOk = true ∧ 0 ≤ f.pos + toLong n ∧
      (f.skip n failed errno).2 = { f with pos := (f.pos + toLong n).toNat, eof := false }) := by
  by_cases hfail : failed = true ∨ f.pos + toLong n < 0
  · exact .inl (by simp [skip, fseek, hfail])
  · have := not_or.mp hfail
    exact .inr ⟨by simp [skip, fseek, hfail], by omega, by simp [skip, fseek, hfail]⟩

theorem skip_honest {failed : Bool} (h : f.Honest) :
    (f.step (.skip n failed errno)).Honest := by
  rcases f.skip_spec n failed errno with ⟨-, hskip⟩ | ⟨-, -, hskip⟩
  · rwa [step, hskip]
  · rw [step, hskip]
    exact fun heof => absurd heof (by simp)

/-- A `Skip` goes forward if and only if it fails, or its count is the same as a `long`. -/
theorem skip_advances_iff {failed : Bool} :
    f.Advances (.skip n failed errno) (f.step (.skip n failed errno)) ↔
      f.Forward (.skip n failed errno) := by
  have hlong := toLong_eq n
  have hn : n.toNat < 2 ^ 64 := n.toNat_lt
  rcases f.skip_spec n failed errno with ⟨hok, hskip⟩ | ⟨hok, hpos, hskip⟩
  · simp [Advances, Forward, step, hok, hskip]
  · simp only [Advances, Forward, step, hok, hskip, if_true, true_implies]
    split_ifs at hlong <;> omega

end SequentialFile

open SequentialFile in
/-- **A sequential file goes forward**: along a run of calls on it, every call goes forward by
the bytes of the file that it returns or skips, and a short `Read` whose status is OK has come
to the end, if and only if no `Skip` of `2 ^ 63` bytes or more succeeds in the run. -/
theorem advances_iff (f g : SequentialFile) (as : List SequentialOp) (hf : calls.init f)
    (hrun : calls.run f as = some g) :
    calls.along Advances f as ↔ (calls.guard Forward).run f as = some g := by
  refine System.along_iff_guard (I := Honest) ?_ ?_ (fun heof => ?_) hrun
  · rintro s (⟨n, failed, errno⟩ | ⟨n, failed, errno⟩) _ hs ⟨⟩ hforward
    · exact read_advances hs
    · exact ⟨skip_honest hs, skip_advances_iff.mpr hforward⟩
  · rintro s (⟨n, failed, errno⟩ | ⟨n, failed, errno⟩) _ hs ⟨⟩ hforward
    · exact absurd trivial hforward
    · exact fun h => hforward (skip_advances_iff.mp h)
  · exact absurd (hf.2.symm.trans heof) (by simp)

open SequentialFile in
/-- Three bytes, read to the end, and read again after a `Skip` of `2 ^ 64 - 1` bytes, which
goes back by one. -/
theorem advances_iff_backwards :
    calls.along Advances { filename := [102], contents := [1, 2, 3] }
      [.read 2 none "", .skip 1 false "", .read 4 none ""] ∧
    ¬calls.along Advances { filename := [102], contents := [1, 2, 3] }
      [.read 2 none "", .skip (-1) false "", .read 4 none ""] := by
  let f : SequentialFile := { filename := [102], contents := [1, 2, 3] }
  let g : SequentialFile := { f with pos := 3, eof := true }
  have hforward := advances_iff f g [.read 2 none "", .skip 1 false "", .read 4 none ""]
    ⟨rfl, rfl⟩ (by decide)
  have hback := advances_iff f g [.read 2 none "", .skip (-1) false "", .read 4 none ""]
    ⟨rfl, rfl⟩ (by decide)
  exact ⟨hforward.mpr (by decide), fun h => absurd (hback.mp h) (by decide)⟩

end LevelDb.Posix
