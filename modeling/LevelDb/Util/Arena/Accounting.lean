import LevelDb.Logic.Accounting
import LevelDb.Util.Arena

/-!
# What an arena uses, and what it wastes

`Arena::MemoryUsage` says how much an arena has taken from `new char[]`, with the pointers of
`blocks_`. It is the sum over the blocks (`LevelDb.Arena.History.Accounted.usage`), as long as
that sum is a `size_t`.

A block is left for a new one only where a small request does not fit, so that not much of it
is left (`LevelDb.Arena.remaining_le`); the blocks that were current have served most of their
bytes, and the number of them is bounded by what was requested
(`LevelDb.Arena.arena_accounting`). Nothing here needs `new char[]` to be honest.
-/

namespace LevelDb.Arena

open Accounting Transition

/-- The request got a block of its own. -/
def Served.Own (e : Served) : Prop := e.made = [e.region]
  deriving Decidable

namespace History

/-- What the blocks take, each with its pointer. -/
def blockTotal (h : History) : ℕ := total (fun b => b.size + 8) h.arena.blocks

/-- What was requested. -/
def requested (h : History) : ℕ := total (fun e => e.request.bytes.toNat) h.served

/-- What the requests that got no block of their own may have used, with the bytes that they
skip. -/
def shared (h : History) : ℕ :=
  total (fun e => e.request.bytes.toNat + 7) (h.served.filter fun e => ¬e.Own)

/-- How many blocks were opened as the current one. -/
def opened (h : History) : ℕ := (h.served.filter fun e => e.Opens).length

/-- **The accounts of an arena.** -/
structure Accounted (h : History) : Prop where
  usage : h.arena.memoryUsage.toNat = h.blockTotal % 2 ^ 64
  requested : h.requested + h.arena.allocBytesRemaining.toNat ≤ total Region.size h.arena.blocks
  room : h.arena.allocBytesRemaining.toNat ≤ 4096
  /-- What was opened and is used up was used by the requests, but for 1030 bytes a block. -/
  used : h.opened = 0 ∧ h.arena.allocBytesRemaining = 0 ∨
    3066 * (h.opened - 1) + 4096 ≤ h.shared + h.arena.allocBytesRemaining.toNat

end History

section

variable {h h' : History} {r : Request} {a a' : Arena} {result : ℕ}

/-- Where a small request does not fit, not much is left. -/
theorem remaining_le (hfit : ¬a.Fits r) (hsmall : r.bytes.toNat ≤ 1024) :
    a.allocBytesRemaining.toNat ≤ 1030 := by
  have hskip := a.skip_le r
  rw [Fits] at hfit
  omega

/-- The totals, for one more request. -/
theorem requested_concat (e : Served) : History.requested ⟨a, h.served ++ [e]⟩ =
    h.requested + e.request.bytes.toNat := by
  simp [History.requested]

theorem shared_concat (e : Served) : History.shared ⟨a, h.served ++ [e]⟩ =
    h.shared + if e.Own then 0 else e.request.bytes.toNat + 7 := by
  by_cases he : e.Own <;> simp [History.shared, List.filter_append, he]

theorem opened_concat (e : Served) : History.opened ⟨a, h.served ++ [e]⟩ =
    h.opened + if e.Opens then 1 else 0 := by
  by_cases he : e.Opens <;> simp [History.opened, List.filter_append, he]

theorem History.Accounted.new : History.Accounted ⟨Arena.new, []⟩ :=
  ⟨rfl, le_rfl, Nat.zero_le _, .inl ⟨rfl, rfl⟩⟩

/-- The memory usage after a block of `n` bytes more. -/
theorem usage_concat (hs : h.Accounted) {n : UInt64} {b : Region} (hb : b.size = n.toNat)
    (hblocks : a.blocks = h.arena.blocks ++ [b])
    (husage : a.memoryUsage = h.arena.memoryUsage + n + 8) (l : List Served) :
    a.memoryUsage.toNat = History.blockTotal ⟨a, l⟩ % 2 ^ 64 := by
  have hold := hs.usage
  rw [husage, UInt64.toNat_add, UInt64.toNat_add, hold, History.blockTotal, History.blockTotal,
    hblocks, total_append, total_singleton, hb]
  simp only [UInt64.reduceToNat]
  omega

/-- **One step** keeps the accounts. -/
theorem History.Accounted.step (hs : h.Accounted) (hr : r.Sized) (hstep : step h r = some h') :
    h'.Accounted := by
  obtain ⟨result, a, hserve, rfl⟩ := step_eq_some.mp hstep
  have hrequested := hs.requested
  have hroom := hs.room
  have hused := hs.used
  have hskip := h.arena.skip_le r
  cases serve_effect hr hserve with
  | bump hfit hresult hfree hblocks husage =>
    have hmade : h.arena.made a = [] := made_of_append (by rw [hblocks, List.append_nil])
    have hleft : a.allocBytesRemaining.toNat =
        h.arena.allocBytesRemaining.toNat - (h.arena.skip r + r.bytes.toNat) :=
      congrArg Region.size hfree
    have hpos : 0 < r.bytes.toNat := UInt64.lt_iff_toNat_lt.mp hr.1
    rw [Fits] at hfit
    rw [hmade]
    constructor
    · rw [husage, hs.usage, blockTotal, blockTotal, hblocks]
    · rw [requested_concat, hblocks, hleft]
      simp only
      omega
    · exact hleft ▸ (Nat.sub_le _ _).trans hroom
    · -- the bytes taken from the current block are those requested and those skipped
      have hown : ¬Served.Own ⟨r, result, []⟩ := by simp [Served.Own]
      have hopens : ¬Served.Opens ⟨r, result, []⟩ := by simp [Served.Opens]
      rw [shared_concat, opened_concat, hleft, if_neg hown, if_neg hopens]
      rcases hused with ⟨-, hempty⟩ | hused
      · rw [hempty] at hfit
        simp only [UInt64.toNat_zero] at hfit
        omega
      · right
        simp only
        omega
  | own hfit hlarge hresult hfree hblocks husage =>
    have hmade : h.arena.made a = [⟨result, r.bytes.toNat⟩] := made_of_append hblocks
    have hleft : a.allocBytesRemaining = h.arena.allocBytesRemaining :=
      UInt64.toNat_inj.mp (congrArg Region.size hfree)
    rw [hmade]
    constructor
    · exact usage_concat hs rfl hblocks husage _
    · rw [requested_concat, hblocks, total_append, total_singleton, hleft]
      simp only
      omega
    · exact hleft ▸ hroom
    · have hown : Served.Own ⟨r, result, [⟨result, r.bytes.toNat⟩]⟩ := rfl
      have hopens : ¬Served.Opens ⟨r, result, [⟨result, r.bytes.toNat⟩]⟩ := fun ho => ho.2 hown
      rw [shared_concat, opened_concat, hleft, if_pos hown, if_neg hopens]
      exact hused
  | current hfit hsmall hresult hfree hblocks husage =>
    have hmade : h.arena.made a = [⟨result, 4096⟩] := made_of_append hblocks
    have hleft : a.allocBytesRemaining.toNat = 4096 - r.bytes.toNat :=
      congrArg Region.size hfree
    have hwaste := remaining_le hfit hsmall
    have hne : 4096 ≠ r.bytes.toNat := by omega
    rw [hmade]
    constructor
    · exact usage_concat (n := 4096) hs rfl hblocks husage _
    · rw [requested_concat, hblocks, total_append, total_singleton, hleft]
      simp only
      omega
    · exact hleft ▸ Nat.sub_le _ _
    · -- the block that is left has served all but 1030 of its bytes
      have hown : ¬Served.Own ⟨r, result, [⟨result, 4096⟩]⟩ := by
        simp [Served.Own, Served.region, hne]
      have hopens : Served.Opens ⟨r, result, [⟨result, 4096⟩]⟩ := ⟨by simp, hown⟩
      rw [shared_concat, opened_concat, hleft, if_neg hown, if_pos hopens]
      right
      change 3066 * (h.opened + 1 - 1) + 4096 ≤
        h.shared + (r.bytes.toNat + 7) + (4096 - r.bytes.toNat)
      rcases hused with ⟨hopened, -⟩ | hused
      · omega
      · omega

end

end LevelDb.Arena
