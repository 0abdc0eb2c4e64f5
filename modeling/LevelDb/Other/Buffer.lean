import LevelDb.Logic.Owned
import LevelDb.Logic.Transition
import LevelDb.Slice
import Mathlib.Algebra.Group.Nat.Defs

/-!
# String buffers

`other/buffer.cpp` keeps strings in blocks that grow in steps of 64 bytes. A `buffer` is a
pointer, the number of bytes used and the size of its block. This file says what a buffer is
for: it holds bytes, and has room for some (`LevelDb.Buffers.Text`). In any run of the
operations, over any number of buffers, no block is freed twice, used after it was freed or
lost, the two numbers are those of the block, and the bytes are what the operations mean
(`LevelDb.Buffers.own_their_blocks`).

A buffer is rounded up to a size that is no smaller than what was asked for, also where the sum
wraps around (`LevelDb.Buffers.le_alignSize`). `buffer_move` of a buffer to itself empties it.

The functions that put bytes in a buffer are not in the repository, apart from
`buffer_append_string_len`, which leaves that to them. They are an operation
(`LevelDb.Buffers.Op.store`) that puts bytes where there is room. `BUFFER_MAX_REUSE_SIZE` is a
parameter.
-/

namespace LevelDb.Buffers

open Transition Function

/-- `buffer_align_size`. -/
def alignSize (size : UInt64) : UInt64 :=
  let align := 64 - size % 64
  if size + align < size then size else size + align

/-- `buffer`. -/
structure Buffer (P : Type) where
  ptr : Option P := none
  used : UInt64 := 0
  size : UInt64 := 0
  deriving DecidableEq, Repr

/-- **The memory**: the buffers, by name, and the blocks. -/
structure Memory (ι P : Type) where
  buffer : ι → Option (Buffer P) := fun _ => none
  blocks : P → Option Bytes := fun _ => none

/-- What is done to the buffers. Where a block is allocated, it is put at the address, and is
filled with the bytes. -/
inductive Op (ι P : Type)
  /-- `buffer_init`. -/
  | init (i : ι)
  /-- `buffer_free`. -/
  | free (i : ι)
  /-- `buffer_reset`. -/
  | reset (i : ι)
  /-- `buffer_move`. -/
  | move (i src : ι)
  /-- `buffer_alloc`. -/
  | alloc (i : ι) (size : UInt64) (p : P) (fill : Bytes)
  /-- `buffer_realloc`. -/
  | realloc (i : ι) (size : UInt64) (p : P) (fill : Bytes)
  /-- What puts bytes in a buffer. -/
  | store (i : ι) (data : Bytes)
  deriving DecidableEq, Repr

variable {ι P : Type} [DecidableEq ι] [DecidableEq P]

/-- What is asked for: one byte at least. -/
def atLeastOne (size : UInt64) : UInt64 := if 0 = size then 1 else size

namespace Memory

/-! ### The code -/

/-- Change a buffer. -/
def set (m : Memory ι P) (i : ι) (b : Buffer P) : Memory ι P :=
  { m with buffer := update m.buffer i (some b) }

/-- `buffer_reset`. -/
def reset (maxReuse : UInt64) (m : Memory ι P) (i : ι) : Option (Memory ι P) :=
  (m.buffer i).bind fun b =>
    if b.size > maxReuse then
      (Heap.delete m.blocks b.ptr).map fun blocks => { m with blocks := blocks }.set i {}
    else if b.size > 0 then
      b.ptr.bind fun p => (m.blocks p).map fun bs =>
        { m with blocks := update m.blocks p (some (bs.set 0 0)) }.set i { b with used := 0 }
    else some (m.set i { b with used := 0 })

/-- `buffer_move`. -/
def move (maxReuse : UInt64) (m : Memory ι P) (i src : ι) : Option (Memory ι P) :=
  (m.reset maxReuse i).map fun m => { m with buffer := m.buffer ∘ Equiv.swap i src }

/-- The block of a buffer is freed, and there is another one. -/
def replace (m : Memory ι P) (i : ι) (b : Buffer P) (used size : UInt64) (p : P) (bs : Bytes) :
    Option (Memory ι P) :=
  (Heap.delete m.blocks b.ptr).map fun blocks =>
    { m with blocks := update blocks p (some bs) }.set i ⟨some p, used, size⟩

/-- `buffer_alloc`. -/
def alloc (m : Memory ι P) (i : ι) (size : UInt64) (p : P) (fill : Bytes) :
    Option (Memory ι P) :=
  (m.buffer i).bind fun b =>
    if atLeastOne size ≤ b.size then some m
    else m.replace i b 0 (alignSize (atLeastOne size)) p fill

/-- `buffer_realloc`, with a `realloc` that keeps the bytes of the old block. -/
def realloc (m : Memory ι P) (i : ι) (size : UInt64) (p : P) (fill : Bytes) :
    Option (Memory ι P) :=
  (m.buffer i).bind fun b =>
    if atLeastOne size < b.size then some m
    else
      match b.ptr with
      | none => m.replace i b b.used (alignSize (atLeastOne size)) p fill
      | some q => (m.blocks q).bind fun bs =>
        m.replace i b b.used (alignSize (atLeastOne size)) p (bs ++ fill.drop bs.length)

/-- Put bytes in a buffer, as far as its block has room. -/
def store (m : Memory ι P) (i : ι) (data : Bytes) : Option (Memory ι P) :=
  (m.buffer i).bind fun b =>
    match b.ptr with
    | none => if data = [] then some (m.set i { b with used := 0 }) else none
    | some p => (m.blocks p).bind fun bs =>
      if data.length ≤ bs.length then
        some ({ m with blocks := update m.blocks p (some (data ++ bs.drop data.length)) }.set i
          { b with used := data.length.toUInt64 })
      else none

/-- An operation. There is no result where a block is used that is not there. -/
def step (maxReuse : UInt64) (m : Memory ι P) : Op ι P → Option (Memory ι P)
  | .init i => some (m.set i {})
  | .free i => (m.buffer i).bind fun b => (Heap.delete m.blocks b.ptr).map fun blocks =>
    { buffer := update m.buffer i none, blocks := blocks }
  | .reset i => m.reset maxReuse i
  | .move i src => m.move maxReuse i src
  | .alloc i size p fill => m.alloc i size p fill
  | .realloc i size p fill => m.realloc i size p fill
  | .store i data => m.store i data

/-- **The allocator is honest**: it makes a block of the size asked for, where none is by
then. -/
def Honest (m : Memory ι P) : Op ι P → Prop
  | .alloc i size p fill | .realloc i size p fill =>
    (m.blocks p = none ∨ (m.buffer i).bind Buffer.ptr = some p) ∧
      fill.length = (alignSize (atLeastOne size)).toNat
  | _ => True

instance (m : Memory ι P) : ∀ a, Decidable (m.Honest a)
  | .alloc i size p fill | .realloc i size p fill =>
    inferInstanceAs (Decidable ((m.blocks p = none ∨ (m.buffer i).bind Buffer.ptr = some p) ∧
      fill.length = (alignSize (atLeastOne size)).toNat))
  | .init _ | .free _ | .reset _ | .move _ _ | .store _ _ => .isTrue trivial

end Memory

/-! ### What a buffer is for -/

/-- The bytes in a buffer, and the room there is for them. -/
structure Text where
  data : Bytes := []
  room : ℕ := 0
  deriving DecidableEq, Repr

/-- The texts in the buffers. -/
abbrev Texts (ι : Type) := ι → Option Text

/-- An empty text. A large block is not kept for it. -/
def Text.reset (maxReuse : UInt64) (t : Text) : Text :=
  { room := if t.room > maxReuse.toNat then 0 else t.room }

/-- More room where there is too little, at the cost of the bytes. -/
def Text.alloc (t : Text) (size : UInt64) : Text :=
  if (atLeastOne size).toNat ≤ t.room then t
  else { room := (alignSize (atLeastOne size)).toNat }

/-- More room where there is too little, or just enough. -/
def Text.realloc (t : Text) (size : UInt64) : Text :=
  if (atLeastOne size).toNat < t.room then t
  else { t with room := (alignSize (atLeastOne size)).toNat }

/-- An operation on texts. A buffer is made where there was none, the others are there, and
what is stored has room. -/
def Op.value (maxReuse : UInt64) (v : Texts ι) : Op ι P → Option (Texts ι)
  | .init i => if (v i).isNone then some (update v i (some {})) else none
  | .free i => (v i).map fun _ => update v i none
  | .reset i => (v i).map fun t => update v i (some (t.reset maxReuse))
  | .move i src => (v i).bind fun t => (v src).map fun _ =>
    update v i (some (t.reset maxReuse)) ∘ Equiv.swap i src
  | .alloc i size _ _ => (v i).map fun t => update v i (some (t.alloc size))
  | .realloc i size _ _ => (v i).map fun t => update v i (some (t.realloc size))
  | .store i data => (v i).bind fun t =>
    if data.length ≤ t.room then some (update v i (some { t with data := data })) else none

/-- **The two together.** -/
def system (maxReuse : UInt64) : System (Option (Memory ι P) × Texts ι) (Op ι P) :=
  paired (Memory.step maxReuse) (Op.value maxReuse) Memory.Honest {} fun _ => none

/-! ### The size -/

/-- **A size is rounded up**, and where it cannot be it stays as it is. -/
theorem alignSize_toNat (size : UInt64) : (alignSize size).toNat =
    if size.toNat + 64 - size.toNat % 64 < 2 ^ 64 then size.toNat + 64 - size.toNat % 64
    else size.toNat := by
  have hlt := size.toNat_lt
  have hmod : (size % 64).toNat = size.toNat % 64 := UInt64.toNat_mod ..
  have hle : size % 64 ≤ 64 := by
    rw [UInt64.le_iff_toNat_le, hmod]
    exact Nat.le_of_lt (Nat.mod_lt _ (by decide : 0 < 64))
  have halign : (64 - size % 64).toNat = 64 - size.toNat % 64 := by
    rw [UInt64.toNat_sub_of_le _ _ hle, hmod]
    rfl
  have hsum : (size + (64 - size % 64)).toNat = (size.toNat + (64 - size.toNat % 64)) % 2 ^ 64 := by
    rw [UInt64.toNat_add, halign]
  have hm := Nat.mod_lt size.toNat (show 0 < 64 by decide)
  simp only [alignSize, UInt64.lt_iff_toNat_lt]
  rw [hsum]
  split_ifs with h1 h2 h2
  · omega
  · rfl
  · rw [hsum]
    omega
  · omega

theorem le_alignSize (size : UInt64) : size.toNat ≤ (alignSize size).toNat := by
  rw [alignSize_toNat]
  split_ifs
  · have := Nat.mod_lt size.toNat (show 0 < 64 by decide)
    omega
  · exact Nat.le_refl _

/-! ### The memory holds the texts -/

/-- The pointers. -/
def Memory.pointers (m : Memory ι P) (i : ι) : Option P := (m.buffer i).bind Buffer.ptr

/-- A buffer, with what it points to, and the text in it. -/
structure Buffer.Shows (b : Buffer P) (c : Option Bytes) (t : Text) : Prop where
  size : b.size.toNat = t.room
  used : b.used.toNat = t.data.length
  null : c = none → t = {}
  block : ∀ bs, c = some bs → bs.length = t.room ∧ t.data <+: bs

/-- **The memory holds the texts.** -/
structure Memory.Holds (m : Memory ι P) (v : Texts ι) : Prop where
  live : ∀ i, (m.buffer i).isSome = (v i).isSome
  owns : Heap.Owns m.pointers m.blocks
  shows : ∀ i b t, m.buffer i = some b → v i = some t →
    b.Shows (Heap.content m.pointers m.blocks i) t

variable {m : Memory ι P} {v v' : Texts ι} {i j : ι} {p : P} {a : Op ι P} {b : Buffer P}
  {t : Text} {maxReuse : UInt64} {blocks : P → Option Bytes}

omit [DecidableEq ι] [DecidableEq P] in
theorem Buffer.Shows.empty (size : b.size.toNat = t.room) (used : b.used.toNat = t.data.length)
    (h : t = {}) : b.Shows none t :=
  ⟨size, used, fun _ => h, by simp⟩

omit [DecidableEq ι] [DecidableEq P] in
/-- A buffer that is not empty has a block. -/
theorem Buffer.Shows.exists_block (h : b.Shows (Heap.content m.pointers m.blocks i) t)
    (howns : Heap.Owns m.pointers m.blocks) (hptr : m.pointers i = b.ptr) (hpos : b.size > 0) :
    ∃ p bs, b.ptr = some p ∧ m.blocks p = some bs ∧
      Heap.content m.pointers m.blocks i = some bs := by
  rcases hp : b.ptr with _ | p
  · obtain rfl : t = {} := h.null (by rw [Heap.content, hptr, hp]; rfl)
    have hsize : b.size.toNat = 0 := h.size
    have hlt := UInt64.lt_iff_toNat_lt.mp hpos
    rw [hsize] at hlt
    exact absurd hlt (Nat.not_lt_zero _)
  · obtain ⟨bs, hbs, hc⟩ := howns.exists_content (hptr.trans hp)
    exact ⟨p, bs, rfl, hbs, hc⟩

namespace Memory.Holds

omit [DecidableEq P] in
/-- One buffer is changed, made or freed. -/
theorem set (h : m.Holds v) {x : Option (Buffer P)} {s : Option Text} (c : Option Bytes)
    (hlive : x.isSome = s.isSome)
    (howns : Heap.Owns (update m.pointers i (x.bind Buffer.ptr)) blocks)
    (hcontent : Heap.content (update m.pointers i (x.bind Buffer.ptr)) blocks =
      update (Heap.content m.pointers m.blocks) i c)
    (hshows : ∀ b t, x = some b → s = some t → b.Shows c t) :
    Holds ⟨update m.buffer i x, blocks⟩ (update v i s) := by
  have hpointers : (⟨update m.buffer i x, blocks⟩ : Memory ι P).pointers =
      update m.pointers i (x.bind Buffer.ptr) :=
    Function.comp_update (Option.bind · Buffer.ptr) m.buffer i x
  refine ⟨fun j => ?_, by rwa [hpointers], fun j b t hb ht => ?_⟩
  · rcases eq_or_ne j i with rfl | hne
    · simpa using hlive
    · simpa [hne] using h.live j
  · have hb : update m.buffer i x j = some b := hb
    rw [hpointers, hcontent]
    rcases eq_or_ne j i with rfl | hne
    · rw [update_self] at hb ht ⊢
      exact hshows b t hb ht
    · rw [update_of_ne hne] at hb ht ⊢
      exact h.shows j b t hb ht

omit [DecidableEq ι] [DecidableEq P] in
/-- A name with a text is that of a buffer. -/
theorem exists_buffer (h : m.Holds v) (hi : v i = some t) :
    ∃ b, m.buffer i = some b ∧ m.pointers i = b.ptr ∧
      b.Shows (Heap.content m.pointers m.blocks i) t := by
  obtain ⟨b, hb⟩ := Option.isSome_iff_exists.mp ((h.live i).trans (by rw [hi]; rfl))
  exact ⟨b, hb, by rw [Memory.pointers, hb]; rfl, h.shows i b t hb hi⟩

omit [DecidableEq P] in
/-- The block of a buffer stays. -/
theorem keep (h : m.Holds v) (hb : m.pointers i = b.ptr)
    (hshows : b.Shows (Heap.content m.pointers m.blocks i) t) :
    (m.set i b).Holds (update v i (some t)) := by
  have hsame : update m.pointers i b.ptr = m.pointers := by rw [← hb, update_eq_self]
  refine h.set (Heap.content m.pointers m.blocks i) rfl ?_ ?_ fun b' t' hb' ht' => ?_
  · rw [Option.bind_some, hsame]
    exact h.owns
  · rw [Option.bind_some, hsame, update_eq_self]
  · obtain rfl := Option.some.inj hb'
    obtain rfl := Option.some.inj ht'
    exact hshows

/-- The block of a buffer is written to. -/
theorem write (h : m.Holds v) (hb : m.pointers i = b.ptr) (hp : b.ptr = some p) {bs : Bytes}
    (hshows : b.Shows (some bs) t) :
    Holds ({ m with blocks := update m.blocks p (some bs) }.set i b) (update v i (some t)) := by
  have hsame : update m.pointers i b.ptr = m.pointers := by rw [← hb, update_eq_self]
  refine h.set (some bs) rfl ?_ ?_ fun b' t' hb' ht' => ?_
  · rw [Option.bind_some, hsame]
    exact h.owns.write (hb.trans hp) bs
  · rw [Option.bind_some, hsame]
    exact h.owns.content_write (hb.trans hp) bs
  · obtain rfl := Option.some.inj hb'
    obtain rfl := Option.some.inj ht'
    exact hshows

/-- The block of a buffer is replaced. -/
theorem replace (h : m.Holds v) (hb : m.pointers i = b.ptr)
    (hp : m.blocks p = none ∨ m.pointers i = some p) {used size : UInt64} {bs : Bytes}
    (hshows : (⟨some p, used, size⟩ : Buffer P).Shows (some bs) t) :
    ∃ m', m.replace i b used size p bs = some m' ∧ m'.Holds (update v i (some t)) := by
  obtain ⟨blocks, hdelete, howns, hcontent⟩ := h.owns.replace hp bs
  rw [hb] at hdelete
  refine ⟨_, by rw [Memory.replace, hdelete]; rfl, ?_⟩
  refine h.set (some bs) rfl howns hcontent fun b' t' hb' ht' => ?_
  obtain rfl := Option.some.inj hb'
  obtain rfl := Option.some.inj ht'
  exact hshows

omit [DecidableEq ι] [DecidableEq P] in
/-- The buffers trade names. -/
theorem comp (h : m.Holds v) (e : ι ≃ ι) :
    Holds { m with buffer := m.buffer ∘ e } (v ∘ e) where
  live i := h.live (e i)
  owns := h.owns.comp e
  shows i b t := h.shows (e i) b t

/-! ### The operations -/

omit [DecidableEq P] in
/-- `buffer_init`. -/
theorem init (h : m.Holds v) (hi : (v i).isNone = true) :
    (m.set i {}).Holds (update v i (some {})) := by
  have hnone : m.buffer i = none := by
    rw [← Option.not_isSome_iff_eq_none, h.live i, Option.isNone_iff_eq_none.mp hi]
    simp
  have hpointer : m.pointers i = none := by rw [Memory.pointers, hnone]; rfl
  refine h.keep hpointer ?_
  rw [Heap.content, hpointer]
  exact .empty rfl rfl rfl

/-- `buffer_free`. -/
theorem free (h : m.Holds v) (hi : v i = some t) :
    ∃ m', m.step maxReuse (.free i) = some m' ∧ m'.Holds (update v i none) := by
  obtain ⟨b, hb, hptr, -⟩ := h.exists_buffer hi
  obtain ⟨blocks, hdelete, howns, hcontent⟩ := h.owns.delete i
  rw [hptr] at hdelete
  refine ⟨_, by rw [Memory.step, hb, Option.bind_some, hdelete]; rfl, ?_⟩
  exact h.set none rfl howns hcontent (by simp)

/-- `buffer_reset`. -/
theorem reset (h : m.Holds v) (hi : v i = some t) :
    ∃ m', m.reset maxReuse i = some m' ∧ m'.Holds (update v i (some (t.reset maxReuse))) := by
  obtain ⟨b, hb, hptr, hshows⟩ := h.exists_buffer hi
  have hempty : ∀ {c}, b.Shows c t → ({ b with used := 0 } : Buffer P).Shows c { room := t.room } :=
    fun hc => ⟨hc.size, rfl, fun h0 => by rw [hc.null h0], fun bs hbs =>
      ⟨(hc.block bs hbs).1, List.nil_prefix⟩⟩
  have hiff : t.room > maxReuse.toNat ↔ b.size > maxReuse := by
    rw [← hshows.size]
    exact UInt64.lt_iff_toNat_lt.symm
  rw [Memory.reset, hb, Option.bind_some, Text.reset, if_congr hiff rfl rfl]
  split_ifs with hlarge hpos
  · obtain ⟨blocks, hdelete, howns, hcontent⟩ := h.owns.delete i
    rw [hptr] at hdelete
    have hset := h.set (x := some ({} : Buffer P)) (s := some {}) none rfl howns hcontent
      fun b t hb ht => by
        obtain rfl := Option.some.inj hb
        obtain rfl := Option.some.inj ht
        exact .empty rfl rfl rfl
    exact ⟨_, by rw [hdelete]; rfl, hset⟩
  · obtain ⟨p, bs, hp, hbs, hc⟩ := hshows.exists_block h.owns hptr hpos
    rw [hp, Option.bind_some, hbs]
    refine ⟨_, rfl, h.write (hptr.trans hp) rfl ?_⟩
    refine ⟨hshows.size, rfl, by simp, fun bs' hbs' => ?_⟩
    obtain rfl := Option.some.inj hbs'
    exact ⟨(List.length_set ..).trans (hshows.block bs hc).1, List.nil_prefix⟩
  · exact ⟨_, rfl, h.keep hptr (hempty hshows)⟩

/-- `buffer_alloc`. -/
theorem alloc (h : m.Holds v) (hi : v i = some t) {size : UInt64} {fill : Bytes}
    (ha : m.Honest (.alloc i size p fill)) :
    ∃ m', m.alloc i size p fill = some m' ∧ m'.Holds (update v i (some (t.alloc size))) := by
  obtain ⟨b, hb, hptr, hshows⟩ := h.exists_buffer hi
  obtain ⟨hp, hfill⟩ := ha
  have hiff : (atLeastOne size).toNat ≤ t.room ↔ atLeastOne size ≤ b.size := by
    rw [← hshows.size]
    exact UInt64.le_iff_toNat_le.symm
  rw [Memory.alloc, hb, Option.bind_some, Text.alloc, if_congr hiff rfl rfl]
  split_ifs
  · exact ⟨m, rfl, by rwa [← hi, update_eq_self]⟩
  · refine h.replace hptr hp ⟨rfl, rfl, by simp, fun bs hbs => ?_⟩
    obtain rfl := Option.some.inj hbs
    exact ⟨hfill, List.nil_prefix⟩

/-- `buffer_realloc`. -/
theorem realloc (h : m.Holds v) (hi : v i = some t) {size : UInt64} {fill : Bytes}
    (ha : m.Honest (.realloc i size p fill)) :
    ∃ m', m.realloc i size p fill = some m' ∧ m'.Holds (update v i (some (t.realloc size))) := by
  obtain ⟨b, hb, hptr, hshows⟩ := h.exists_buffer hi
  obtain ⟨hp, hfill⟩ := ha
  have hiff : (atLeastOne size).toNat < t.room ↔ atLeastOne size < b.size := by
    rw [← hshows.size]
    exact UInt64.lt_iff_toNat_lt.symm
  rw [Memory.realloc, hb, Option.bind_some, Text.realloc, if_congr hiff rfl rfl]
  split_ifs with hroom
  · exact ⟨m, rfl, by rwa [← hi, update_eq_self]⟩
  have hle : t.room ≤ (alignSize (atLeastOne size)).toNat :=
    Nat.le_trans (Nat.not_lt.mp (mt hiff.mp hroom)) (le_alignSize _)
  rcases hq : b.ptr with _ | q
  · rw [hq] at hptr
    obtain rfl : t = {} := hshows.null (by rw [Heap.content, hptr]; rfl)
    refine h.replace (hptr.trans hq.symm) hp ⟨rfl, hshows.used, by simp, fun bs hbs => ?_⟩
    obtain rfl := Option.some.inj hbs
    exact ⟨hfill, List.nil_prefix⟩
  · obtain ⟨bs, hbs, hc⟩ := h.owns.exists_content (hptr.trans hq)
    obtain ⟨hlen, hdata⟩ := hshows.block bs hc
    simp only [hbs, Option.bind_some]
    refine h.replace hptr hp ⟨rfl, hshows.used, by simp, fun bs' hbs' => ?_⟩
    obtain rfl := Option.some.inj hbs'
    refine ⟨?_, hdata.trans (List.prefix_append _ _)⟩
    rw [List.length_append, List.length_drop, hfill, hlen]
    exact Nat.add_sub_cancel' hle

/-- Bytes are put in a buffer. -/
theorem store (h : m.Holds v) (hi : v i = some t) {data : Bytes} (hroom : data.length ≤ t.room) :
    ∃ m', m.store i data = some m' ∧ m'.Holds (update v i (some { t with data := data })) := by
  obtain ⟨b, hb, hptr, hshows⟩ := h.exists_buffer hi
  rw [Memory.store, hb, Option.bind_some]
  rcases hq : b.ptr with _ | q
  · rw [hq] at hptr
    obtain rfl : t = {} := hshows.null (by rw [Heap.content, hptr]; rfl)
    obtain rfl := List.length_eq_zero_iff.mp (Nat.le_zero.mp hroom)
    refine ⟨_, if_pos rfl, h.keep hptr ?_⟩
    exact ⟨hshows.size, rfl, fun _ => rfl, hshows.block⟩
  · obtain ⟨bs, hbs, hc⟩ := h.owns.exists_content (hptr.trans hq)
    obtain ⟨hlen, -⟩ := hshows.block bs hc
    have hused : data.length.toUInt64.toNat = data.length := by
      have hlt := b.size.toNat_lt
      rw [hshows.size] at hlt
      exact UInt64.toNat_ofNat_of_lt' (Nat.lt_of_le_of_lt hroom hlt)
    simp only [hbs, Option.bind_some]
    rw [if_pos (by rwa [hlen])]
    refine ⟨_, rfl, h.write (hptr.trans hq) rfl ?_⟩
    refine ⟨hshows.size, hused, by simp, fun bs' hbs' => ?_⟩
    obtain rfl := Option.some.inj hbs'
    refine ⟨?_, List.prefix_append _ _⟩
    rw [List.length_append, List.length_drop, hlen]
    exact Nat.add_sub_cancel' hroom

/-- **One operation** has a result, and that holds the texts again. -/
theorem step (h : m.Holds v) (ha : m.Honest a) (hv : Op.value maxReuse v a = some v') :
    ∃ m', m.step maxReuse a = some m' ∧ m'.Holds v' := by
  cases a with
  | init i =>
    rw [Op.value] at hv
    split_ifs at hv with hi
    obtain rfl := Option.some.inj hv
    exact ⟨_, rfl, h.init hi⟩
  | free i =>
    obtain ⟨t, hi, rfl⟩ := Option.map_eq_some_iff.mp hv
    exact h.free hi
  | reset i =>
    obtain ⟨t, hi, rfl⟩ := Option.map_eq_some_iff.mp hv
    exact h.reset hi
  | move i src =>
    obtain ⟨t, hi, hv⟩ := Option.bind_eq_some_iff.mp hv
    obtain ⟨-, -, rfl⟩ := Option.map_eq_some_iff.mp hv
    obtain ⟨m', hreset, hm'⟩ : ∃ m', m.reset maxReuse i = some m' ∧
        m'.Holds (update v i (some (t.reset maxReuse))) := h.reset hi
    exact ⟨_, by rw [Memory.step, Memory.move, hreset]; rfl, hm'.comp _⟩
  | alloc i size p fill =>
    obtain ⟨t, hi, rfl⟩ := Option.map_eq_some_iff.mp hv
    exact h.alloc hi ha
  | realloc i size p fill =>
    obtain ⟨t, hi, rfl⟩ := Option.map_eq_some_iff.mp hv
    exact h.realloc hi ha
  | store i data =>
    obtain ⟨t, hi, hv⟩ := Option.bind_eq_some_iff.mp hv
    split_ifs at hv with hroom
    obtain rfl := Option.some.inj hv
    exact h.store hi hroom

end Memory.Holds

/-! ### Runs -/

theorem atLeastOne_ge (size : UInt64) : size.toNat ≤ (atLeastOne size).toNat := by
  rw [atLeastOne]
  split_ifs with h
  · rw [← h]
    exact Nat.zero_le _
  · exact Nat.le_refl _

/-- **There is room for what was asked for**, also where the size wraps around. -/
theorem Text.le_room (t : Text) (size : UInt64) :
    size.toNat ≤ (t.alloc size).room ∧ size.toNat ≤ (t.realloc size).room := by
  have hge := atLeastOne_ge size
  have halign := Nat.le_trans hge (le_alignSize (atLeastOne size))
  rw [Text.alloc, Text.realloc]
  constructor
  · split_ifs with h
    · exact Nat.le_trans hge h
    · exact halign
  · split_ifs with h
    · exact Nat.le_trans hge (Nat.le_of_lt h)
    · exact halign

omit [DecidableEq ι] [DecidableEq P] in
theorem Buffer.Shows.length_le {c : Option Bytes} (h : b.Shows c t) :
    t.data.length ≤ t.room := by
  cases c with
  | none =>
    rw [h.null rfl]
    exact Nat.le_refl _
  | some bs =>
    obtain ⟨hlen, hdata⟩ := h.block bs rfl
    rw [← hlen]
    exact hdata.length_le

/-- **Buffers own their blocks**: in every run the memory is still there, so that no block was
freed twice, or used after it was freed. Each buffer has the bytes and the room it is meant to
have, in a block of that size if it has one, and room for what it is asked for; and every block
is that of one buffer. -/
theorem own_their_blocks {x : Option (Memory ι P)} (h : (system maxReuse).Reachable (x, v)) :
    ∃ m, x = some m ∧
      (∀ i t, v i = some t → ∃ b, m.buffer i = some b ∧ b.used.toNat = t.data.length ∧
        b.size.toNat = t.room ∧ t.data.length ≤ t.room ∧
        (∀ p, b.ptr = some p → ∃ bs, m.blocks p = some bs ∧ bs.length = t.room ∧ t.data <+: bs) ∧
        ∀ size, size.toNat ≤ (t.alloc size).room ∧ size.toNat ≤ (t.realloc size).room) ∧
      ∀ p, (m.blocks p).isSome = true → ∃! i, ∃ b, m.buffer i = some b ∧ b.ptr = some p := by
  have hinit : Memory.Holds ({} : Memory ι P) fun _ => none :=
    ⟨fun _ => rfl, .initial, by simp⟩
  have hstep : ∀ (m : Memory ι P) v a v', m.Holds v → m.Honest a →
      Op.value maxReuse v a = some v' → ∃ m', Memory.step maxReuse m a = some m' ∧ m'.Holds v' :=
    fun _ _ _ _ hm => hm.step
  have hholds : ∃ m, x = some m ∧ m.Holds v := paired_holds hinit hstep h
  obtain ⟨m, rfl, hm⟩ := hholds
  refine ⟨m, rfl, fun i t hi => ?_, fun p hp => ?_⟩
  · obtain ⟨b, hb, hptr, hshows⟩ := hm.exists_buffer hi
    refine ⟨b, hb, hshows.used, hshows.size, hshows.length_le, fun p hp => ?_, t.le_room⟩
    obtain ⟨bs, hbs, hc⟩ := hm.owns.exists_content (hptr.trans hp)
    exact ⟨bs, hbs, hshows.block bs hc⟩
  · obtain ⟨i, hi⟩ := hm.owns.owned hp
    refine ⟨i, Option.bind_eq_some_iff.mp hi, fun j hj => ?_⟩
    exact hm.owns.unique (Option.bind_eq_some_iff.mpr hj) hi

/-- Three bytes are stored, and moved to another buffer, which is then moved to itself: it has
the block, and is empty. -/
theorem own_their_blocks_moved : ∃ (m : Memory ℕ ℕ) (v : Texts ℕ),
    (system 1024).run (some {}, fun _ => none) [.init 0, .alloc 0 5 100 (List.replicate 64 7),
      .store 0 [1, 2, 3], .init 1, .move 1 0, .move 1 1] = some (some m, v) ∧
      v 1 = some { room := 64 } ∧ ∃ b, m.buffer 1 = some b ∧ b.used.toNat = 0 := by
  obtain ⟨x, v, hrun, hv⟩ : ∃ x v, (system 1024).run (some {}, fun _ => none) [.init 0,
      .alloc 0 5 100 (List.replicate 64 7), .store 0 [1, 2, 3], .init 1, .move 1 0, .move 1 1] =
        some ((x : Option (Memory ℕ ℕ)), v) ∧ v 1 = some { room := 64 } := by
    exact ⟨_, _, rfl, rfl⟩
  obtain ⟨m, rfl, htexts, -⟩ := own_their_blocks ⟨_, rfl, System.steps_of_run hrun⟩
  obtain ⟨b, hb, hused, -⟩ := htexts 1 _ hv
  exact ⟨m, v, hrun, hv, b, hb, hused⟩

end LevelDb.Buffers
