import LevelDb.Logic.Region
import LevelDb.Logic.Transition
import LevelDb.Slice
import Mathlib.Algebra.Group.Nat.Defs

/-!
# The arena

`util/arena.cpp` serves many small requests from blocks of 4096 bytes. A request is served
from what is left of the current block, where it fits (`Arena::Allocate`); where not, it gets
a block of its own if it is large, and else a new current block (`Arena::AllocateFallback`).
`Arena::AllocateAlignement` skips the bytes up to the next aligned address.

An address is a number, a `size_t` is a `UInt64`, and what `new char[n]` returns is part of
the request, which may make at most one block. The requests that an arena serves, one after
the other, are a transition system (`LevelDb.Arena.system`); a request whose assertion fails
is one that cannot be taken.

What a request does is one of three things (`LevelDb.Arena.Effect`), and every invariant is
read off them. What is handed out never overlaps (`LevelDb.Arena.arena_safe`).
-/

namespace LevelDb

/-! ### The code -/

/-- `Arena`. Each pointer of `blocks_` comes with the size that the block was made with. -/
structure Arena where
  allocPtr : ℕ
  allocBytesRemaining : UInt64
  blocks : List Region
  memoryUsage : UInt64
  deriving DecidableEq, Repr

namespace Arena

/-- `kBlockSize`. -/
def kBlockSize : UInt64 := 4096

/-- The `align` of `AllocateAlignement`, where pointers have 8 bytes. -/
def align : ℕ := 8

/-- `sizeof(char*)`. -/
def sizeofPtr : UInt64 := 8

/-- `Arena::Arena`. -/
def new : Arena := ⟨0, 0, [], 0⟩

/-- A call of `Allocate`, or of `AllocateAlignement` where it is `aligned`; `fresh` is what
`new char[]` returns in it, if it is reached. -/
structure Request where
  aligned : Bool
  bytes : UInt64
  fresh : ℕ
  deriving DecidableEq, Repr

/-- `Arena::AllocateNewBlock`. -/
def allocateNewBlock (fresh : ℕ) (blockBytes : UInt64) (a : Arena) : ℕ × Arena :=
  let result := fresh
  (result, { a with
    blocks := a.blocks ++ [⟨result, blockBytes.toNat⟩]
    memoryUsage := a.memoryUsage + blockBytes + sizeofPtr })

/-- `Arena::AllocateFallback`. -/
def allocateFallback (fresh : ℕ) (bytes : UInt64) (a : Arena) : ℕ × Arena :=
  if bytes > kBlockSize / 4 then
    allocateNewBlock fresh bytes a
  else
    -- what is left of the current block is wasted
    let (block, a) := allocateNewBlock fresh kBlockSize a
    (block, { a with
      allocPtr := block + bytes.toNat
      allocBytesRemaining := kBlockSize - bytes })

/-- `Arena::Allocate`. -/
def allocate (fresh : ℕ) (bytes : UInt64) (a : Arena) : Except Fault (ℕ × Arena) :=
  if bytes > 0 then
    if bytes ≤ a.allocBytesRemaining then
      .ok (a.allocPtr, { a with
        allocPtr := a.allocPtr + bytes.toNat
        allocBytesRemaining := a.allocBytesRemaining - bytes })
    else
      .ok (allocateFallback fresh bytes a)
  else
    .error .assertion

/-- The `slop` of `AllocateAlignement`: how many bytes it skips. -/
def slop (a : Arena) : ℕ :=
  let currentMod := a.allocPtr &&& (align - 1)
  if currentMod = 0 then 0 else align - currentMod

/-- `Arena::AllocateAlignement`. -/
def allocateAlignement (fresh : ℕ) (bytes : UInt64) (a : Arena) : Except Fault (ℕ × Arena) :=
  let needed := bytes + a.slop.toUInt64
  let (result, a) :=
    if needed ≤ a.allocBytesRemaining then
      (a.allocPtr + a.slop, { a with
        allocPtr := a.allocPtr + needed.toNat
        allocBytesRemaining := a.allocBytesRemaining - needed })
    else
      allocateFallback fresh bytes a
  if result &&& (align - 1) = 0 then .ok (result, a) else .error .assertion

/-- The request as the call that it is. -/
def serve (a : Arena) (r : Request) : Except Fault (ℕ × Arena) :=
  if r.aligned then a.allocateAlignement r.fresh r.bytes else a.allocate r.fresh r.bytes

/-! ### The runs -/

/-- A request that has been served: its result, and the blocks that `new char[]` made. -/
structure Served where
  request : Request
  result : ℕ
  made : List Region
  deriving DecidableEq, Repr

/-- What the request has been handed. -/
def Served.region (e : Served) : Region := ⟨e.result, e.request.bytes.toNat⟩

/-- The arena and the requests that it has served, in order. -/
structure History where
  arena : Arena
  served : List Served
  deriving DecidableEq, Repr

/-- The free part of the current block. -/
def free (a : Arena) : Region := ⟨a.allocPtr, a.allocBytesRemaining.toNat⟩

/-- The blocks of an arena that another one, from which it is made, does not have. -/
def made (a a' : Arena) : List Region := a'.blocks.drop a.blocks.length

/-- One request. -/
def step (h : History) (r : Request) : Option History :=
  match h.arena.serve r with
  | .ok (result, a) => some ⟨a, h.served ++ [⟨r, result, h.arena.made a⟩]⟩
  | .error _ => none

/-- **The system**: a fresh arena serves requests. -/
def system : Transition.System History Request where
  init h := h = ⟨new, []⟩
  step := step

/-- The size can be rounded up to the next aligned one. -/
def Request.Sized (r : Request) : Prop := 0 < r.bytes ∧ r.bytes.toNat + 7 < 2 ^ 64
  deriving Decidable

/-- The bytes that the request skips. -/
def skip (a : Arena) (r : Request) : ℕ := if r.aligned then a.slop else 0

/-- The request fits in what is left of the current block. -/
def Fits (a : Arena) (r : Request) : Prop :=
  a.skip r + r.bytes.toNat ≤ a.allocBytesRemaining.toNat
  deriving Decidable

/-- The size of the block that the request makes where it does not fit. -/
def Request.blockBytes (r : Request) : UInt64 :=
  if r.bytes > kBlockSize / 4 then r.bytes else kBlockSize

/-- What `new char[]` promises where the request makes a block: it is aligned, and disjoint
from those made before. -/
def Honest (a : Arena) (r : Request) : Prop :=
  ¬a.Fits r → r.fresh % 8 = 0 ∧ ∀ c ∈ a.blocks, Region.Disjoint ⟨r.fresh, r.blockBytes.toNat⟩ c
  deriving Decidable

/-! ### What a request does -/

/-- **What a request does.** -/
inductive Effect (a : Arena) (r : Request) (result : ℕ) (a' : Arena) : Prop
  /-- It is served from the current block. -/
  | bump (hfit : a.Fits r) (hresult : result = a.allocPtr + a.skip r)
      (hfree : a'.free = ⟨result + r.bytes.toNat,
        a.allocBytesRemaining.toNat - (a.skip r + r.bytes.toNat)⟩)
      (hblocks : a'.blocks = a.blocks) (husage : a'.memoryUsage = a.memoryUsage)
  /-- It is large, and gets a block of its own. -/
  | own (hfit : ¬a.Fits r) (hlarge : 1024 < r.bytes.toNat) (hresult : result = r.fresh)
      (hfree : a'.free = a.free) (hblocks : a'.blocks = a.blocks ++ [⟨result, r.bytes.toNat⟩])
      (husage : a'.memoryUsage = a.memoryUsage + r.bytes + 8)
  /-- It gets a new current block. -/
  | current (hfit : ¬a.Fits r) (hsmall : r.bytes.toNat ≤ 1024) (hresult : result = r.fresh)
      (hfree : a'.free = ⟨result + r.bytes.toNat, 4096 - r.bytes.toNat⟩)
      (hblocks : a'.blocks = a.blocks ++ [⟨result, 4096⟩])
      (husage : a'.memoryUsage = a.memoryUsage + 4096 + 8)

section Effect

variable {a a' : Arena} {r : Request} {result : ℕ}

theorem slop_eq (a : Arena) : a.slop = (8 - a.allocPtr % 8) % 8 := by
  have hmod : a.allocPtr &&& (align - 1) = a.allocPtr % 8 :=
    Nat.and_two_pow_sub_one_eq_mod a.allocPtr 3
  rw [slop, hmod, align]
  split_ifs <;> omega

theorem slop_le (a : Arena) : a.slop ≤ 7 := by
  rw [slop_eq]
  omega

theorem skip_le (a : Arena) (r : Request) : a.skip r ≤ 7 := by
  rw [skip]
  split_ifs
  · exact a.slop_le
  · omega

theorem aligned_iff {p : ℕ} : p &&& (align - 1) = 0 ↔ p % 8 = 0 := by
  rw [show p &&& (align - 1) = p % 8 from Nat.and_two_pow_sub_one_eq_mod p 3]

/-- `needed` does not wrap around. -/
theorem needed_toNat (hr : r.Sized) :
    (r.bytes + a.slop.toUInt64).toNat = r.bytes.toNat + a.slop := by
  have hslop := a.slop_le
  have hsize := hr.2
  rw [UInt64.toNat_add, Nat.toUInt64_eq, UInt64.toNat_ofNat', Nat.mod_eq_of_lt (a := a.slop)]
  · exact Nat.mod_eq_of_lt (by omega)
  · omega

/-- The test of `Allocate`. -/
theorem fits_false_iff {bytes : UInt64} {fresh : ℕ} :
    a.Fits ⟨false, bytes, fresh⟩ ↔ bytes ≤ a.allocBytesRemaining := by
  rw [Fits, skip, if_neg Bool.false_ne_true, Nat.zero_add, UInt64.le_iff_toNat_le]

/-- The test of `AllocateAlignement`. -/
theorem fits_true_iff {bytes : UInt64} {fresh : ℕ} (hr : Request.Sized ⟨true, bytes, fresh⟩) :
    a.Fits ⟨true, bytes, fresh⟩ ↔ bytes + a.slop.toUInt64 ≤ a.allocBytesRemaining := by
  have hneeded : (bytes + a.slop.toUInt64).toNat = bytes.toNat + a.slop := needed_toNat hr
  rw [Fits, skip, if_pos rfl, UInt64.le_iff_toNat_le, hneeded, Nat.add_comm]

/-- The fallback makes a block. -/
theorem allocateFallback_effect (hfit : ¬a.Fits r)
    (h : allocateFallback r.fresh r.bytes a = (result, a')) : Effect a r result a' := by
  rw [allocateFallback] at h
  split_ifs at h with hlarge
  · rw [gt_iff_lt, UInt64.lt_iff_toNat_lt] at hlarge
    cases h
    exact .own hfit hlarge rfl rfl rfl rfl
  · rw [gt_iff_lt, UInt64.lt_iff_toNat_lt, Nat.not_lt] at hlarge
    have hle : r.bytes ≤ kBlockSize := UInt64.le_iff_toNat_le.mpr (hlarge.trans (by decide))
    cases h
    refine .current hfit hlarge rfl ?_ rfl rfl
    simp only [free, UInt64.toNat_sub_of_le _ _ hle]
    rfl

/-- **The calls, one effect each.** -/
theorem serve_effect (hr : r.Sized) (h : a.serve r = .ok (result, a')) :
    Effect a r result a' := by
  obtain ⟨aligned, bytes, fresh⟩ := r
  have hsize := hr.2
  cases aligned with
  | false =>
    simp only [serve, allocate, Bool.false_eq_true, ↓reduceIte, if_pos hr.1] at h
    split_ifs at h with hfit
    · cases h
      refine .bump (fits_false_iff.mpr hfit) (by simp [skip]) ?_ rfl rfl
      simp only [free, UInt64.toNat_sub_of_le _ _ hfit, skip, Bool.false_eq_true, ↓reduceIte,
        Nat.zero_add]
    · exact allocateFallback_effect (mt fits_false_iff.mp hfit) (Except.ok.inj h)
  | true =>
    have hneeded : (bytes + a.slop.toUInt64).toNat = bytes.toNat + a.slop := needed_toNat hr
    simp only [serve, allocateAlignement, ↓reduceIte] at h
    split_ifs at h with hfit hmod hmod
    · cases h
      refine .bump ((fits_true_iff hr).mpr hfit) rfl ?_ rfl rfl
      simp only [free, UInt64.toNat_sub_of_le _ _ hfit, hneeded, skip, ↓reduceIte]
      congr 1 <;> omega
    · exact allocateFallback_effect (mt (fits_true_iff hr).mp hfit) (Except.ok.inj h)

/-- The closing assertion of `AllocateAlignement` says that its result is aligned. -/
theorem serve_aligned (hal : r.aligned) (h : a.serve r = .ok (result, a')) : result % 8 = 0 := by
  simp only [serve, if_pos hal, allocateAlignement] at h
  split_ifs at h with hfit hmod hmod <;> cases h <;> exact aligned_iff.mp hmod

/-- **No assertion fails.** -/
theorem exists_serve (hr : r.Sized) (hnew : Honest a r) : ∃ p, a.serve r = .ok p := by
  obtain ⟨aligned, bytes, fresh⟩ := r
  cases aligned with
  | false =>
    simp only [serve, allocate, Bool.false_eq_true, ↓reduceIte, if_pos hr.1]
    split_ifs <;> exact ⟨_, rfl⟩
  | true =>
    simp only [serve, allocateAlignement, ↓reduceIte]
    split_ifs with hfit hmod hmod
    · exact ⟨_, rfl⟩
    · -- the bytes skipped lead to an aligned address
      have hslop := a.slop_eq
      exact absurd (aligned_iff.mpr (by omega)) hmod
    · exact ⟨_, rfl⟩
    · -- the fallback returns what `new char[]` does
      have hn : ¬a.Fits ⟨true, bytes, fresh⟩ := mt (fits_true_iff hr).mp hfit
      refine absurd (aligned_iff.mpr ?_) hmod
      rw [allocateFallback]
      split_ifs <;> exact (hnew hn).1

theorem made_of_append {bs : List Region} (h : a'.blocks = a.blocks ++ bs) : a.made a' = bs := by
  rw [made, h, List.drop_left]

end Effect

/-! ### What is handed out never overlaps -/

section Safe

variable {h h' : History} {r : Request}

theorem step_eq_some : step h r = some h' ↔ ∃ result a, h.arena.serve r = .ok (result, a) ∧
    h' = ⟨a, h.served ++ [⟨r, result, h.arena.made a⟩]⟩ := by
  rw [step]
  constructor
  · intro hstep
    cases hserve : h.arena.serve r with
    | ok p =>
      rw [hserve] at hstep
      exact ⟨p.1, p.2, rfl, (Option.some.inj hstep).symm⟩
    | error f => simp [hserve] at hstep
  · rintro ⟨result, a, hserve, rfl⟩
    rw [hserve]

/-- The request opened a new current block: it made a block that is not its own. -/
def Served.Opens (e : Served) : Prop := e.made ≠ [] ∧ e.made ≠ [e.region]
  deriving Decidable

/-- **The arena is safe**: what it has handed out is disjoint, aligned where it was asked for,
and within its blocks, and so is what it hands out next from its current block. -/
structure History.Safe (h : History) : Prop where
  disjoint : (h.served.map Served.region).Pairwise Region.Disjoint
  within : ∀ e ∈ h.served, ∃ b ∈ h.arena.blocks, e.region.Within b
  aligned : ∀ e ∈ h.served, e.request.aligned → e.result % 8 = 0
  free_disjoint : ∀ e ∈ h.served, h.arena.free.Disjoint e.region
  free_within : (∃ b ∈ h.arena.blocks, b.size = 4096 ∧ h.arena.free.Within b) ∨
    h.arena.free = ⟨0, 0⟩ ∧ ∀ e ∈ h.served, ¬e.Opens

theorem History.Safe.new : History.Safe ⟨Arena.new, []⟩ := by
  refine ⟨.nil, ?_, ?_, ?_, .inr ⟨rfl, ?_⟩⟩ <;> simp

/-- One more request. -/
theorem History.Safe.concat (hs : h.Safe) {a : Arena} {e : Served}
    (hblocks : ∀ b ∈ h.arena.blocks, b ∈ a.blocks)
    (hregion : ∀ d ∈ h.served, e.region.Disjoint d.region)
    (hwithin : ∃ b ∈ a.blocks, e.region.Within b)
    (haligned : e.request.aligned → e.result % 8 = 0)
    (hfree : ∀ d ∈ h.served ++ [e], a.free.Disjoint d.region)
    (hcurrent : (∃ b ∈ a.blocks, b.size = 4096 ∧ a.free.Within b) ∨
      a.free = ⟨0, 0⟩ ∧ ∀ d ∈ h.served ++ [e], ¬d.Opens) : History.Safe ⟨a, h.served ++ [e]⟩ := by
  constructor
  · rw [List.map_append]
    refine Region.pairwise_concat hs.disjoint fun s hmem => ?_
    obtain ⟨d, hd, rfl⟩ := List.mem_map.mp hmem
    exact hregion d hd
  · intro d hd
    rcases List.mem_append.mp hd with hd | hd
    · obtain ⟨b, hb, hd⟩ := hs.within d hd
      exact ⟨b, hblocks b hb, hd⟩
    · rwa [List.mem_singleton.mp hd]
  · intro d hd
    rcases List.mem_append.mp hd with hd | hd
    · exact hs.aligned d hd
    · rwa [List.mem_singleton.mp hd]
  · exact hfree
  · exact hcurrent

/-- **One step** keeps the arena safe. -/
theorem History.Safe.step (hs : h.Safe) (hr : r.Sized) (hnew : Honest h.arena r)
    (hstep : step h r = some h') : h'.Safe := by
  obtain ⟨result, a, hserve, rfl⟩ := step_eq_some.mp hstep
  have haligned : r.aligned → result % 8 = 0 := fun hal => serve_aligned hal hserve
  cases serve_effect hr hserve with
  | bump hfit hresult hfree hblocks husage =>
    -- the region and what is left after it are parts of what was free
    have hpart : Region.Within ⟨result, r.bytes.toNat⟩ h.arena.free := by
      constructor
      · simp only [free]; omega
      · simp only [free, Fits] at hfit ⊢; omega
    have hleft : a.free.Within h.arena.free := by
      rw [hfree]
      constructor
      · simp only [free]; omega
      · simp only [free, Fits] at hfit ⊢; omega
    have hcurrent : ∃ b ∈ a.blocks, b.size = 4096 ∧ h.arena.free.Within b := by
      rw [hblocks]
      refine hs.free_within.resolve_right fun hempty => ?_
      have hsize : h.arena.allocBytesRemaining.toNat = 0 := congrArg Region.size hempty.1
      have hpos : 0 < r.bytes.toNat := UInt64.lt_iff_toNat_lt.mp hr.1
      rw [Fits] at hfit
      omega
    obtain ⟨b, hb, hsize, hin⟩ := hcurrent
    refine hs.concat (by simp [hblocks]) (fun d hd => ?_) ⟨b, hb, hpart.trans hin⟩ haligned
      (fun d hd => ?_) (.inl ⟨b, hb, hsize, hleft.trans hin⟩)
    · exact (hs.free_disjoint d hd).mono hpart (.refl _)
    · rcases List.mem_append.mp hd with hd | hd
      · exact (hs.free_disjoint d hd).mono hleft (.refl _)
      · rw [List.mem_singleton.mp hd, hfree]
        exact .inr le_rfl
  | own hfit hlarge hresult hfree hblocks husage =>
    obtain ⟨-, hfresh⟩ := hnew hfit
    have hlt : kBlockSize / 4 < r.bytes := UInt64.lt_iff_toNat_lt.mpr hlarge
    rw [Request.blockBytes, if_pos hlt, ← hresult] at hfresh
    have hmade : h.arena.made a = [⟨result, r.bytes.toNat⟩] := made_of_append hblocks
    refine hs.concat (by simp +contextual [hblocks]) (fun d hd => ?_)
      ⟨⟨result, r.bytes.toNat⟩, by simp [hblocks], .refl _⟩ haligned (fun d hd => ?_) ?_
    · exact Region.disjoint_of_within hfresh (.refl _) (hs.within d hd)
    · rw [hfree]
      rcases List.mem_append.mp hd with hd | hd
      · exact hs.free_disjoint d hd
      · rw [List.mem_singleton.mp hd]
        rcases hs.free_within with ⟨b, hb, -, hin⟩ | ⟨hempty, -⟩
        · exact (Region.disjoint_of_within hfresh (.refl _) ⟨b, hb, hin⟩).symm
        · exact .inl (by simp [hempty])
    · rcases hs.free_within with ⟨b, hb, hsize, hin⟩ | ⟨hempty, hopens⟩
      · exact .inl ⟨b, by simp [hblocks, hb], hsize, hfree ▸ hin⟩
      · refine .inr ⟨hfree.trans hempty, fun d hd => ?_⟩
        rcases List.mem_append.mp hd with hd | hd
        · exact hopens d hd
        · rw [List.mem_singleton.mp hd]
          exact fun hopen => hopen.2 hmade
  | current hfit hsmall hresult hfree hblocks husage =>
    obtain ⟨-, hfresh⟩ := hnew hfit
    have hle : ¬kBlockSize / 4 < r.bytes := fun hlt =>
      absurd (UInt64.lt_iff_toNat_lt.mp hlt) (Nat.not_lt.mpr hsmall)
    rw [Request.blockBytes, if_neg hle, ← hresult] at hfresh
    have hpart : Region.Within ⟨result, r.bytes.toNat⟩ ⟨result, 4096⟩ :=
      ⟨le_rfl, by simp only; omega⟩
    have hleft : a.free.Within ⟨result, 4096⟩ := by
      rw [hfree]
      exact ⟨by simp only; omega, by simp only; omega⟩
    have hmem : (⟨result, 4096⟩ : Region) ∈ a.blocks := by simp [hblocks]
    refine hs.concat (by simp +contextual [hblocks]) (fun d hd => ?_) ⟨_, hmem, hpart⟩ haligned
      (fun d hd => ?_) (.inl ⟨_, hmem, rfl, hleft⟩)
    · exact Region.disjoint_of_within hfresh hpart (hs.within d hd)
    · rcases List.mem_append.mp hd with hd | hd
      · exact Region.disjoint_of_within hfresh hleft (hs.within d hd)
      · rw [List.mem_singleton.mp hd, hfree]
        exact .inr le_rfl

/-- What the callers and `new char[]` promise of a request. -/
def Lawful (h : History) (r : Request) : Prop := r.Sized ∧ Honest h.arena r
  deriving Decidable

/-- **The arena never hands out overlapping or misaligned memory**, whatever is requested in
whatever order, and none of its assertions fails. -/
theorem arena_safe (hreach : (system.guard Lawful).Reachable h) :
    h.Safe ∧ ∀ r, Lawful h r → ∃ h', system.step h r = some h' := by
  constructor
  · refine hreach.invariant (P := History.Safe) ?_ ?_
    · rintro h rfl
      exact .new
    · intro h r h' hs hstep
      obtain ⟨⟨hr, hnew⟩, hstep⟩ := Transition.System.guard_step.mp hstep
      exact hs.step hr hnew hstep
  · intro r hlaw
    obtain ⟨p, hp⟩ := exists_serve hlaw.1 hlaw.2
    exact ⟨_, step_eq_some.mpr ⟨p.1, p.2, hp, rfl⟩⟩

/-- A request that opens the first block, an aligned one, and a large one. -/
theorem arena_safe_three :
    History.Safe ⟨⟨4128, 4064, [⟨4096, 4096⟩, ⟨16384, 5000⟩], 9112⟩,
      [⟨⟨false, 10, 4096⟩, 4096, [⟨4096, 4096⟩]⟩, ⟨⟨true, 16, 0⟩, 4112, []⟩,
        ⟨⟨true, 5000, 16384⟩, 16384, [⟨16384, 5000⟩]⟩]⟩ := by
  have hrun : ∀ h, (system.guard Lawful).run ⟨.new, []⟩
      [⟨false, 10, 4096⟩, ⟨true, 16, 0⟩, ⟨true, 5000, 16384⟩] = some h → h.Safe := fun h hrun =>
    (arena_safe ⟨_, rfl, Transition.System.steps_of_run hrun⟩).1
  exact hrun _ (by decide)

end Safe

end Arena

end LevelDb
