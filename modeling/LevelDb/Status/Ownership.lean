import LevelDb.Logic.Owned
import LevelDb.Logic.Transition
import LevelDb.Slice

/-!
# Statuses on the heap

A `Status` is a pointer, `state_`: null for OK, and else to a block with the code and the
messages. Statuses are constructed, copied, assigned and destroyed all over the program, and
everything else here takes them for values (`LevelDb.Status`). This file says why one may.

In any run of these operations, over any number of statuses, and wherever the allocator puts
the blocks, no block is freed twice or read after it was freed; the statuses are as they would
be if each held its own value; and there is one block for each status that is an error, and no
other (`LevelDb.StatusHeap.own_their_states`). `operator=` compares the pointers first. As no
two errors share a block, that finds two nulls, or a status that is assigned to itself.

The private constructor and `CopyState` are declared in `include/status.hpp`, and have no body
in the repository. They are parameters (`LevelDb.StatusHeap.Externals`), and what the others
rely on is a hypothesis (`LevelDb.StatusHeap.Externals.Lawful`): the constructor makes a new
block with the code in its fifth byte, which is where `code()` finds it, and `CopyState` makes
a new block with the same bytes.
-/

namespace LevelDb

/-- A `Status::Code` as a number. -/
def Code.number : Code → UInt8
  | .kNotFound => 1
  | .kCorruption => 2
  | .kNotSupported => 3
  | .kInvalidArgument => 4
  | .kIOError => 5

namespace StatusHeap

open Transition Function

/-- The bytes in the block of an error. -/
abbrev Encoding : Type := Code → String → String → Bytes

variable {ι P : Type} [DecidableEq ι] [DecidableEq P]

/-- The functions without a body, on the heap as it is before. Each is told an address that the
allocator has for it, and returns a pointer and the heap that it leaves. -/
structure Externals (P : Type) where
  /-- `Status(Code code, const Slice& msg, const Slice& msg2)`, with what it puts in `state_`. -/
  construct : Code → String → String → (P → Option Bytes) → P → P × (P → Option Bytes)
  /-- `CopyState`. There is no result where it reads a block that is not there. -/
  copyState : P → (P → Option Bytes) → P → Option (P × (P → Option Bytes))

/-- **What the statuses rely on**: where the allocator has an address without a block, an error
is put there, and a copy of an error. Nothing else on the heap changes. -/
structure Externals.Lawful (X : Externals P) (encode : Encoding) : Prop where
  construct : ∀ code msg msg2 blocks p, blocks p = none →
    X.construct code msg msg2 blocks p = (p, update blocks p (some (encode code msg msg2)))
  copyState : ∀ code msg msg2 blocks p q, blocks q = some (encode code msg msg2) →
    blocks p = none →
      X.copyState q blocks p = some (p, update blocks p (some (encode code msg msg2)))
  code : ∀ code msg msg2, (encode code msg msg2)[4]? = some code.number

/-- What is in the block of a status, if it has one. -/
def block (encode : Encoding) : Status → Option Bytes
  | .ok => none
  | .error code msg msg2 => some (encode code msg msg2)

/-- What `code()` is of a status. -/
def codeOf : Status → UInt8
  | .ok => 0
  | .error code _ _ => code.number

/-- **The memory**: the field `state_` of the status in a variable, if there is one, and the
blocks. -/
structure Memory (ι P : Type) where
  state : ι → Option (Option P) := fun _ => none
  blocks : P → Option Bytes := fun _ => none

/-- What is done to the statuses in variables. Where a block is made, the allocator has the
address for it. -/
inductive Op (ι P : Type)
  /-- `Status()`. -/
  | ok (i : ι)
  /-- `Status(code, msg, msg2)`. -/
  | error (i : ι) (code : Code) (msg msg2 : String) (p : P)
  /-- `Status(const Status& s)`. -/
  | copy (i j : ι) (p : P)
  /-- `operator=`. -/
  | assign (i j : ι) (p : P)
  /-- `~Status`. -/
  | destroy (i : ι)
  deriving DecidableEq, Repr

namespace Memory

/-! ### The code -/

/-- Set `state_`. -/
def setState (m : Memory ι P) (i : ι) (s : Option P) : Memory ι P :=
  { m with state := update m.state i (some s) }

/-- `(s.state_ == NULL) ? NULL : CopyState(s.state_)`, stored in `state_`. -/
def copyState (X : Externals P) (m : Memory ι P) (i : ι) (s : Option P) (p : P) :
    Option (Memory ι P) :=
  match s with
  | none => some (m.setState i none)
  | some q => (X.copyState q m.blocks p).map fun (p, blocks) =>
    { m with blocks := blocks }.setState i (some p)

/-- `operator=`. -/
def assign (X : Externals P) (m : Memory ι P) (i j : ι) (p : P) : Option (Memory ι P) :=
  (m.state i).bind fun a => (m.state j).bind fun s =>
    if a ≠ s then
      (Heap.delete m.blocks a).bind fun blocks => copyState X { m with blocks := blocks } i s p
    else some m

/-- `~Status`. -/
def destroy (m : Memory ι P) (i : ι) : Option (Memory ι P) :=
  (m.state i).bind fun a => (Heap.delete m.blocks a).map fun blocks =>
    { state := update m.state i none, blocks := blocks }

/-- An operation. There is no result where a block is used that is not there. -/
def step (X : Externals P) (m : Memory ι P) : Op ι P → Option (Memory ι P)
  | .ok i => some (m.setState i none)
  | .error i code msg msg2 p =>
    let (p, blocks) := X.construct code msg msg2 m.blocks p
    some ({ m with blocks := blocks }.setState i (some p))
  | .copy i j p => (m.state j).bind fun s => m.copyState X i s p
  | .assign i j p => m.assign X i j p
  | .destroy i => m.destroy i

/-- `code()`. -/
def code (m : Memory ι P) (i : ι) : Option UInt8 :=
  match m.state i with
  | some none => some 0
  | some (some p) => (m.blocks p).bind fun bs => bs[4]?
  | none => none

/-- **The allocator is honest**: it has an address where no block is by then. -/
def Honest (m : Memory ι P) : Op ι P → Prop
  | .error _ _ _ _ p | .copy _ _ p => m.blocks p = none
  | .assign i _ p => m.blocks p = none ∨ m.state i = some (some p)
  | _ => True

instance (m : Memory ι P) : ∀ a, Decidable (m.Honest a)
  | .error _ _ _ _ p | .copy _ _ p => inferInstanceAs (Decidable (m.blocks p = none))
  | .assign i _ p => inferInstanceAs (Decidable (m.blocks p = none ∨ m.state i = some (some p)))
  | .ok _ | .destroy _ => .isTrue trivial

end Memory

/-! ### The values -/

/-- The statuses in the variables, each with its value. -/
abbrev Values (ι : Type) := ι → Option Status

/-- An operation on values. A status is constructed where there was none, and the others
are there. -/
def Op.value (v : Values ι) : Op ι P → Option (Values ι)
  | .ok i => if (v i).isNone then some (update v i (some .ok)) else none
  | .error i code msg msg2 _ =>
    if (v i).isNone then some (update v i (some (.error code msg msg2))) else none
  | .copy i j _ => if (v i).isNone then (v j).map fun s => update v i (some s) else none
  | .assign i j _ => if (v i).isSome then (v j).map fun s => update v i (some s) else none
  | .destroy i => if (v i).isSome then some (update v i none) else none

/-- **The two together**: a program that constructs before it uses, with an honest
allocator. -/
def system (X : Externals P) : System (Option (Memory ι P) × Values ι) (Op ι P) :=
  paired (Memory.step X) Op.value Memory.Honest {} fun _ => none

/-! ### The memory holds the values -/

/-- The pointers. -/
def Memory.pointers (m : Memory ι P) (i : ι) : Option P := (m.state i).join

/-- **The memory holds the values.** -/
structure Memory.Holds (encode : Encoding) (m : Memory ι P) (v : Values ι) : Prop where
  live : ∀ i, (m.state i).isSome = (v i).isSome
  owns : Heap.Owns m.pointers m.blocks
  content : ∀ i, Heap.content m.pointers m.blocks i = (v i).bind (block encode)

variable {X : Externals P} {encode : Encoding} {m : Memory ι P} {v v' : Values ι}
  {i j : ι} {p : P} {a : Op ι P}

namespace Memory.Holds

omit [DecidableEq P] in
/-- One variable is set. -/
theorem set (h : m.Holds encode v) {x : Option (Option P)} {s : Option Status}
    {blocks : P → Option Bytes} (hlive : x.isSome = s.isSome)
    (howns : Heap.Owns (update m.pointers i x.join) blocks)
    (hcontent : Heap.content (update m.pointers i x.join) blocks =
      update (Heap.content m.pointers m.blocks) i (s.bind (block encode))) :
    Holds encode ⟨update m.state i x, blocks⟩ (update v i s) := by
  have hpointers : (⟨update m.state i x, blocks⟩ : Memory ι P).pointers =
      update m.pointers i x.join := Function.comp_update Option.join m.state i x
  refine ⟨fun j => ?_, by rwa [hpointers], fun j => ?_⟩
  · rcases eq_or_ne j i with rfl | hne
    · simpa using hlive
    · simpa [hne] using h.live j
  · rw [hpointers, hcontent]
    rcases eq_or_ne j i with rfl | hne
    · simp
    · simpa [hne] using h.content j

omit [DecidableEq ι] [DecidableEq P] in
theorem pointers_of_none (h : m.Holds encode v) (hi : (v i).isNone = true) :
    m.pointers i = none := by
  have hlive := h.live i
  rw [Option.isNone_iff_eq_none.mp hi, Option.isSome_none, Bool.eq_false_iff, Ne,
    Option.not_isSome_iff_eq_none] at hlive
  rw [Memory.pointers, hlive]
  rfl

omit [DecidableEq ι] [DecidableEq P] in
/-- A variable with a status has the field. -/
theorem exists_state (h : m.Holds encode v) (hi : (v i).isSome = true) :
    m.state i = some (m.pointers i) := by
  obtain ⟨x, hx⟩ := Option.isSome_iff_exists.mp ((h.live i).trans hi)
  rw [Memory.pointers, hx]
  rfl

omit [DecidableEq P] [DecidableEq ι] in
theorem content_eq (h : m.Holds encode v) {s : Status} (hi : v i = some s) :
    (m.pointers i).bind m.blocks = block encode s := by
  rw [show (m.pointers i).bind m.blocks = _ from h.content i, hi]
  rfl

omit [DecidableEq P] [DecidableEq ι] in
/-- The status is OK where the pointer is null. -/
theorem eq_ok (h : m.Holds encode v) {s : Status} (hi : v i = some s)
    (hnull : m.pointers i = none) : s = .ok := by
  have hc := h.content_eq hi
  rw [hnull] at hc
  cases s with
  | ok => rfl
  | error => exact absurd hc (by simp [block])

omit [DecidableEq P] in
/-- `Status()`. -/
theorem ok (h : m.Holds encode v) (hi : (v i).isNone = true) :
    (m.setState i none).Holds encode (update v i (some .ok)) := by
  have hnull := h.pointers_of_none hi
  have hsame : update m.pointers i none = m.pointers := by rw [← hnull, update_eq_self]
  refine h.set rfl ?_ ?_
  · rw [Option.join_some, hsame]
    exact h.owns
  · rw [Option.join_some, hsame, Option.bind_some, eq_comm, update_eq_self_iff]
    rw [block, Heap.content, hnull]
    rfl

/-- A status with a block of its own. -/
theorem alloc (h : m.Holds encode v) (hi : (v i).isNone = true) (hp : m.blocks p = none)
    {s : Status} {bs : Bytes} (hs : block encode s = some bs) :
    ({ m with blocks := update m.blocks p (some bs) }.setState i (some p)).Holds encode
      (update v i (some s)) := by
  have hnull := h.pointers_of_none hi
  refine h.set rfl ?_ ?_
  · exact h.owns.alloc hnull hp bs
  · rw [Option.bind_some, hs]
    exact h.owns.content_alloc hnull hp bs

/-- **A copy** of a status. -/
theorem copyState (hX : X.Lawful encode) (h : m.Holds encode v) (hi : (v i).isNone = true)
    {s : Status} (hj : v j = some s) (hp : m.blocks p = none) :
    ∃ m', m.copyState X i (m.pointers j) p = some m' ∧ m'.Holds encode (update v i (some s)) := by
  have hc := h.content_eq hj
  rcases hq : m.pointers j with _ | q
  · obtain rfl := h.eq_ok hj hq
    exact ⟨_, rfl, h.ok hi⟩
  · rw [hq, Option.bind_some] at hc
    cases s with
    | ok =>
      have hvalid := h.owns.valid hq
      simp [hc, block] at hvalid
    | error code msg msg2 =>
      refine ⟨_, ?_, h.alloc hi hp rfl⟩
      rw [Memory.copyState, hX.copyState code msg msg2 m.blocks p q hc hp]
      rfl

/-- `~Status`. -/
theorem destroy (h : m.Holds encode v) (i : ι) :
    ∃ blocks, Heap.delete m.blocks (m.pointers i) = some blocks ∧
      Memory.Holds encode ⟨update m.state i none, blocks⟩ (update v i none) := by
  obtain ⟨blocks, hdelete, howns, hcontent⟩ := h.owns.delete i
  exact ⟨blocks, hdelete, h.set rfl howns hcontent⟩

omit [DecidableEq P] in
/-- What was in the field does not matter. -/
theorem copyState_update {x : Option (Option P)} {q : Option P} {blocks : P → Option Bytes} :
    ({ m with blocks := blocks } : Memory ι P).copyState X i q p =
      (⟨update m.state i x, blocks⟩ : Memory ι P).copyState X i q p := by
  cases q <;> simp [Memory.copyState, setState]

/-- `operator=`, which does nothing where the pointers are equal. -/
theorem assign (hX : X.Lawful encode) (h : m.Holds encode v) (hi : (v i).isSome = true)
    {s : Status} (hj : v j = some s) (hp : m.blocks p = none ∨ m.state i = some (some p)) :
    ∃ m', m.assign X i j p = some m' ∧ m'.Holds encode (update v i (some s)) := by
  have hj' : (v j).isSome = true := by rw [hj]; rfl
  rw [h.exists_state hi, Option.some_inj] at hp
  rw [Memory.assign, h.exists_state hi, h.exists_state hj', Option.bind_some, Option.bind_some]
  split_ifs with hne
  · have hji : j ≠ i := by
      rintro rfl
      exact hne rfl
    -- the status is destroyed, and constructed again as a copy
    obtain ⟨blocks, hdelete, hdestroyed⟩ := h.destroy i
    have hfree : blocks p = none := Heap.delete_free hdelete hp
    have hpointer : (⟨update m.state i none, blocks⟩ : Memory ι P).pointers j = m.pointers j := by
      exact congrArg Option.join (update_of_ne hji ..)
    have hi' : (update v i none i).isNone = true := by rw [update_self]; rfl
    obtain ⟨m', hcopy, hm'⟩ := hdestroyed.copyState hX hi' ((update_of_ne hji ..).trans hj) hfree
    rw [hpointer] at hcopy
    refine ⟨m', ?_, by rwa [update_idem] at hm'⟩
    rw [hdelete, Option.bind_some, copyState_update]
    exact hcopy
  · refine ⟨m, rfl, ?_⟩
    have hsame : v i = some s := by
      rcases hq : m.pointers j with _ | q
      · obtain ⟨s', hs'⟩ := Option.isSome_iff_exists.mp hi
        rw [h.eq_ok hj hq, hs', h.eq_ok hs' ((not_not.mp hne).trans hq)]
      -- a block has one owner, so that it is one status
      · rw [h.owns.unique ((not_not.mp hne).trans hq) hq, hj]
    rwa [← hsame, update_eq_self]

/-- **One operation** has a result, and that holds the values again. -/
theorem step (hX : X.Lawful encode) (h : m.Holds encode v) (ha : m.Honest a)
    (hv : Op.value v a = some v') : ∃ m', m.step X a = some m' ∧ m'.Holds encode v' := by
  cases a with
  | ok i =>
    rw [Op.value] at hv
    split_ifs at hv with hi
    obtain rfl := Option.some.inj hv
    exact ⟨_, rfl, h.ok hi⟩
  | error i code msg msg2 p =>
    rw [Op.value] at hv
    split_ifs at hv with hi
    obtain rfl := Option.some.inj hv
    refine ⟨_, ?_, h.alloc hi ha rfl⟩
    rw [Memory.step, hX.construct code msg msg2 m.blocks p ha]
  | copy i j p =>
    rw [Op.value] at hv
    split_ifs at hv with hi
    obtain ⟨s, hj, rfl⟩ := Option.map_eq_some_iff.mp hv
    rw [Memory.step, h.exists_state (by rw [hj]; rfl), Option.bind_some]
    exact h.copyState hX hi hj ha
  | assign i j p =>
    rw [Op.value] at hv
    split_ifs at hv with hi
    obtain ⟨s, hj, rfl⟩ := Option.map_eq_some_iff.mp hv
    exact h.assign hX hi hj ha
  | destroy i =>
    rw [Op.value] at hv
    split_ifs at hv with hi
    obtain rfl := Option.some.inj hv
    obtain ⟨blocks, hdelete, hm'⟩ := h.destroy i
    refine ⟨_, ?_, hm'⟩
    rw [Memory.step, Memory.destroy, h.exists_state hi, Option.bind_some, hdelete]
    rfl

omit [DecidableEq ι] [DecidableEq P] in
/-- `code()` is that of the value. -/
theorem code_eq (h : m.Holds encode v)
    (hcode : ∀ code msg msg2, (encode code msg msg2)[4]? = some code.number) {s : Status}
    (hi : v i = some s) : m.code i = some (codeOf s) := by
  have hc := h.content_eq hi
  rw [Memory.code, h.exists_state (by rw [hi]; rfl)]
  rcases hq : m.pointers i with _ | q
  · rw [h.eq_ok hi hq]
    rfl
  · rw [hq, Option.bind_some] at hc
    cases s with
    | ok =>
      have := h.owns.valid hq
      simp [hc, block] at this
    | error c msg msg2 =>
      change (m.blocks q).bind (fun bs => bs[4]?) = _
      rw [hc, block, Option.bind_some, hcode]
      rfl

end Memory.Holds

/-- **Statuses own their states**: in every run the memory is still there, so that nothing was
freed twice, or read after it was freed. Of every status `code()` is that of its value, and an
error has a block; and every block is that of one status. -/
theorem own_their_states (hX : X.Lawful encode) {x : Option (Memory ι P)}
    (h : (system X).Reachable (x, v)) :
    ∃ m, x = some m ∧ (∀ i s, v i = some s → m.code i = some (codeOf s)) ∧
      (∀ i c msg msg2, v i = some (.error c msg msg2) →
        ∃ p, m.state i = some (some p) ∧ m.blocks p = some (encode c msg msg2)) ∧
      ∀ p, (m.blocks p).isSome = true → ∃! i, (v i).isSome = true ∧ m.state i = some (some p) := by
  have hinit : Memory.Holds encode ({} : Memory ι P) fun _ => none :=
    ⟨fun _ => rfl, .initial, fun _ => rfl⟩
  have hstep : ∀ (m : Memory ι P) v a v', m.Holds encode v → m.Honest a → Op.value v a = some v' →
      ∃ m', Memory.step X m a = some m' ∧ m'.Holds encode v' := fun _ _ _ _ hm => hm.step hX
  have hholds : ∃ m, x = some m ∧ m.Holds encode v := paired_holds hinit hstep h
  obtain ⟨m, rfl, hm⟩ := hholds
  refine ⟨m, rfl, fun i s hi => hm.code_eq hX.code hi, fun i c msg msg2 hi => ?_, fun p hp => ?_⟩
  · have hc := hm.content_eq hi
    obtain ⟨p, hp, hb⟩ := Option.bind_eq_some_iff.mp hc
    exact ⟨p, by rw [hm.exists_state (by rw [hi]; rfl), hp], hb⟩
  · obtain ⟨i, hi⟩ := hm.owns.owned hp
    have hstate : m.state i = some (some p) := Option.join_eq_some_iff.mp hi
    refine ⟨i, ⟨?_, hstate⟩, fun j hj => hm.owns.unique ?_ hi⟩
    · rw [← hm.live, hstate]
      rfl
    · rw [Memory.pointers, hj.2]
      rfl

/-- A block of a status: the length of the message, the code, and the message. -/
def statusBlock : Encoding := fun code msg _ =>
  [msg.utf8ByteSize.toUInt8, 0, 0, 0, code.number] ++ msg.toUTF8.toList

/-- The missing functions, over that block: `CopyState` copies what it reads. -/
def blockExternals : Externals P where
  construct code msg msg2 blocks p := (p, update blocks p (statusBlock code msg msg2))
  copyState q blocks p := (blocks q).map fun bs => (p, update blocks p (some bs))

omit [DecidableEq ι] in
theorem blockExternals_lawful : (blockExternals : Externals P).Lawful statusBlock where
  construct _ _ _ _ _ _ := rfl
  copyState _ _ _ blocks p _ hq _ :=
    congrArg (Option.map fun bs => (p, update blocks p (some bs))) hq
  code _ _ _ := rfl

/-- An error, a copy of it, and the error assigned to itself and destroyed. The copy is as the
error was. -/
theorem own_their_states_copied : ∃ (m : Memory Bool ℕ) (v : Values Bool),
    (system blockExternals).run (some {}, fun _ => none) [.error false .kIOError "a" "" 0,
      .copy true false 1, .assign false false 2, .destroy false] = some (some m, v) ∧
      v true = some (.error .kIOError "a" "") ∧ m.code true = some 5 := by
  obtain ⟨x, v, hrun, hv⟩ : ∃ x v, (system blockExternals).run (some {}, fun _ => none)
      [.error false .kIOError "a" "" 0, .copy true false 1, .assign false false 2,
        .destroy false] = some ((x : Option (Memory Bool ℕ)), v) ∧
      v true = some (.error .kIOError "a" "") := ⟨_, _, rfl, rfl⟩
  obtain ⟨m, rfl, hcode, -⟩ :=
    own_their_states blockExternals_lawful ⟨_, rfl, System.steps_of_run hrun⟩
  exact ⟨m, v, hrun, hv, hcode true _ hv⟩

end StatusHeap

end LevelDb
