import Mathlib.Logic.Equiv.Basic
import Mathlib.Tactic.Common

/-!
# Blocks with one owner

A heap is a partial function from addresses to the contents of the blocks there. A family of
variables holds pointers into it. Where every block has exactly one owner
(`Heap.Owns`), what a variable points to is its own value: allocating for one of them,
deleting what one of them points to, writing through one of them, or swapping two of them
changes the values of these variables and of no other. So the heap can be forgotten, and the
variables read as if each held its value (`Heap.content`).

Deleting what is not a block is undefined (`Heap.delete`). For the pointer of an owner it
never is (`Heap.Owns.delete`).

One that keeps a list of its blocks puts them on top of a heap (`Heap.Adds`), and has the heap
back as it was when it has deleted them (`Heap.Adds.deleteAll`).
-/

namespace Heap

variable {ι P β : Type}

/-- What a variable points to, if it holds a pointer. -/
def content (own : ι → Option P) (blocks : P → Option β) (i : ι) : Option β :=
  (own i).bind blocks

/-- **Every block has one owner**, and every owner has a block. -/
structure Owns (own : ι → Option P) (blocks : P → Option β) : Prop where
  valid : ∀ {i p}, own i = some p → (blocks p).isSome = true
  unique : ∀ {i j p}, own i = some p → own j = some p → i = j
  owned : ∀ {p}, (blocks p).isSome = true → ∃ i, own i = some p

variable {own : ι → Option P} {blocks : P → Option β} {i j : ι} {p : P} {b : β}

theorem Owns.initial : Owns (fun _ : ι => (none : Option P)) (fun _ => (none : Option β)) :=
  ⟨by simp, by simp, by simp⟩

theorem Owns.exists_content (h : Owns own blocks) (hi : own i = some p) :
    ∃ b, blocks p = some b ∧ content own blocks i = some b := by
  obtain ⟨b, hb⟩ := Option.isSome_iff_exists.mp (h.valid hi)
  exact ⟨b, hb, by rw [content, hi, Option.bind_some, hb]⟩

/-- The variables trade places. -/
theorem Owns.comp (h : Owns own blocks) (e : ι ≃ ι) : Owns (own ∘ e) blocks where
  valid hi := h.valid hi
  unique hi hj := e.injective (h.unique hi hj)
  owned hp := by
    obtain ⟨i, hi⟩ := h.owned hp
    exact ⟨e.symm i, by rw [Function.comp_apply, e.apply_symm_apply, hi]⟩

variable [DecidableEq P]

/-- `delete` of a pointer, which does nothing where it is null. -/
def delete (blocks : P → Option β) : Option P → Option (P → Option β)
  | none => some blocks
  | some p => if (blocks p).isSome then some (Function.update blocks p none) else none

/-- After a `delete` an address is free that was so before, or that was deleted. -/
theorem delete_free {blocks' : P → Option β} {x : Option P} (h : delete blocks x = some blocks')
    (hp : blocks p = none ∨ x = some p) : blocks' p = none := by
  cases x with
  | none =>
    obtain rfl := Option.some.inj h
    exact hp.resolve_right (Option.some_ne_none p).symm
  | some q =>
    rw [delete] at h
    split_ifs at h
    obtain rfl := Option.some.inj h
    rcases eq_or_ne p q with rfl | hne
    · exact Function.update_self ..
    · rw [Function.update_of_ne hne]
      exact hp.resolve_right fun hq => hne (Option.some.inj hq).symm

/-- Writing through a pointer. -/
theorem Owns.write (h : Owns own blocks) (hi : own i = some p) (b : β) :
    Owns own (Function.update blocks p (some b)) where
  valid {j q} hj := by
    rcases eq_or_ne q p with rfl | hne
    · rw [Function.update_self]
      rfl
    · rw [Function.update_of_ne hne]
      exact h.valid hj
  unique := h.unique
  owned {q} hq := by
    rcases eq_or_ne q p with rfl | hne
    · exact ⟨i, hi⟩
    · rw [Function.update_of_ne hne] at hq
      exact h.owned hq

variable [DecidableEq ι]

theorem Owns.content_write (h : Owns own blocks) (hi : own i = some p) (b : β) :
    content own (Function.update blocks p (some b)) =
      Function.update (content own blocks) i (some b) := by
  funext j
  rcases eq_or_ne j i with rfl | hne
  · rw [content, hi, Option.bind_some, Function.update_self, Function.update_self]
  · rw [Function.update_of_ne hne, content, content]
    rcases hj : own j with _ | q
    · rfl
    · have hq : q ≠ p := by
        rintro rfl
        exact hne (h.unique hj hi)
      rw [Option.bind_some, Option.bind_some, Function.update_of_ne hq]

/-- **Allocating** a block for a variable that has none. -/
theorem Owns.alloc (h : Owns own blocks) (hi : own i = none) (hp : blocks p = none) (b : β) :
    Owns (Function.update own i (some p)) (Function.update blocks p (some b)) := by
  have hfree : ∀ {j}, own j ≠ some p := fun hj => by
    have := h.valid hj
    simp [hp] at this
  refine ⟨fun {j q} hj => ?_, fun {j k q} hj hk => ?_, fun {q} hq => ?_⟩
  · rcases eq_or_ne q p with rfl | hne
    · rw [Function.update_self]
      rfl
    · rcases eq_or_ne j i with rfl | hji
      · rw [Function.update_self] at hj
        exact absurd (Option.some.inj hj).symm hne
      · rw [Function.update_of_ne hji] at hj
        rw [Function.update_of_ne hne]
        exact h.valid hj
  · rcases eq_or_ne j i with rfl | hji
    · rcases eq_or_ne k j with rfl | hkj
      · rfl
      · rw [Function.update_self] at hj
        rw [Function.update_of_ne hkj, ← Option.some.inj hj] at hk
        exact absurd hk hfree
    · rw [Function.update_of_ne hji] at hj
      rcases eq_or_ne k i with rfl | hki
      · rw [Function.update_self] at hk
        rw [← Option.some.inj hk] at hj
        exact absurd hj hfree
      · rw [Function.update_of_ne hki] at hk
        exact h.unique hj hk
  · rcases eq_or_ne q p with rfl | hne
    · exact ⟨i, Function.update_self ..⟩
    · rw [Function.update_of_ne hne] at hq
      obtain ⟨j, hj⟩ := h.owned hq
      refine ⟨j, ?_⟩
      rw [Function.update_of_ne, hj]
      rintro rfl
      exact Option.some_ne_none q (hj.symm.trans hi)

theorem Owns.content_alloc (h : Owns own blocks) (hi : own i = none) (hp : blocks p = none)
    (b : β) : content (Function.update own i (some p)) (Function.update blocks p (some b)) =
      Function.update (content own blocks) i (some b) := by
  funext j
  rcases eq_or_ne j i with rfl | hne
  · rw [content, Function.update_self, Option.bind_some, Function.update_self,
      Function.update_self]
  · rw [Function.update_of_ne hne, content, content, Function.update_of_ne hne]
    rcases hj : own j with _ | q
    · rfl
    · have hq : q ≠ p := by
        rintro rfl
        have := h.valid hj
        simp [hp] at this
      rw [Option.bind_some, Option.bind_some, Function.update_of_ne hq]

/-- **Deleting** what a variable points to is defined, and takes the block and the value of
the variable away, and nothing else. -/
theorem Owns.delete (h : Owns own blocks) (i : ι) : ∃ blocks',
    Heap.delete blocks (own i) = some blocks' ∧ Owns (Function.update own i none) blocks' ∧
      content (Function.update own i none) blocks' =
        Function.update (content own blocks) i none := by
  rcases hi : own i with _ | p
  · have hsame : Function.update own i none = own := by rw [← hi, Function.update_eq_self]
    refine ⟨blocks, rfl, by rwa [hsame], ?_⟩
    rw [hsame, ← show content own blocks i = none by rw [content, hi]; rfl,
      Function.update_eq_self]
  · have hother : ∀ {j q}, j ≠ i → own j = some q → q ≠ p := fun hne hj hq =>
      hne (h.unique hj (hq ▸ hi))
    refine ⟨Function.update blocks p none, if_pos (h.valid hi), ⟨fun {j q} hj => ?_,
      fun {j k q} hj hk => ?_, fun {q} hq => ?_⟩, ?_⟩
    · rcases eq_or_ne j i with rfl | hne
      · simp at hj
      · rw [Function.update_of_ne hne] at hj
        rw [Function.update_of_ne (hother hne hj)]
        exact h.valid hj
    · rcases eq_or_ne j i with rfl | hji
      · simp at hj
      · rcases eq_or_ne k i with rfl | hki
        · simp at hk
        · rw [Function.update_of_ne hji] at hj
          rw [Function.update_of_ne hki] at hk
          exact h.unique hj hk
    · rcases eq_or_ne q p with rfl | hne
      · simp at hq
      · rw [Function.update_of_ne hne] at hq
        obtain ⟨j, hj⟩ := h.owned hq
        refine ⟨j, ?_⟩
        rw [Function.update_of_ne, hj]
        rintro rfl
        exact hne (Option.some.inj (hj.symm.trans hi))
    · funext j
      rcases eq_or_ne j i with rfl | hne
      · rw [content, Function.update_self, Function.update_self]
        rfl
      · rw [Function.update_of_ne hne, content, content, Function.update_of_ne hne]
        rcases hj : own j with _ | q
        · rfl
        · rw [Option.bind_some, Option.bind_some, Function.update_of_ne (hother hne hj)]

/-- **Replacing** the block of a variable: the old one is deleted, if there was one, and a new
one allocated, which may be at the same address. -/
theorem Owns.replace (h : Owns own blocks) (hp : blocks p = none ∨ own i = some p) (b : β) :
    ∃ blocks', Heap.delete blocks (own i) = some blocks' ∧
      Owns (Function.update own i (some p)) (Function.update blocks' p (some b)) ∧
      content (Function.update own i (some p)) (Function.update blocks' p (some b)) =
        Function.update (content own blocks) i (some b) := by
  obtain ⟨blocks', hdelete, howns, hcontent⟩ := h.delete i
  have hfree := delete_free hdelete hp
  have hnone : Function.update own i none i = none := Function.update_self ..
  refine ⟨blocks', hdelete, ?_, ?_⟩
  · have halloc := howns.alloc hnone hfree b
    rwa [Function.update_idem] at halloc
  · have halloc := howns.content_alloc hnone hfree b
    rwa [Function.update_idem, hcontent, Function.update_idem] at halloc

/-! ### A list of blocks -/

omit [DecidableEq ι]

/-- **The blocks of a list are on top of the heap**: each has an address of its own, which was
free, and all else is as it was. -/
structure Adds (heap : P → Option β) (bs : List (P × β)) (heap' : P → Option β) : Prop where
  nodup : (bs.map Prod.fst).Nodup
  free : ∀ c ∈ bs, heap c.1 = none
  block : ∀ c ∈ bs, heap' c.1 = some c.2
  rest : ∀ p ∉ bs.map Prod.fst, heap' p = heap p

/-- `delete` of one pointer after another. -/
def deleteAll (blocks : P → Option β) (ps : List P) : Option (P → Option β) :=
  ps.foldlM (fun blocks p => delete blocks (some p)) blocks

variable {heap heap' : P → Option β} {bs : List (P × β)}

omit [DecidableEq P] in
theorem Adds.refl (heap : P → Option β) : Adds heap [] heap :=
  ⟨.nil, by simp, by simp, fun _ _ => rfl⟩

/-- A block more. -/
theorem Adds.concat (h : Adds heap bs heap') (hp : heap' p = none) (b : β) :
    Adds heap (bs ++ [(p, b)]) (Function.update heap' p (some b)) := by
  have hnew : p ∉ bs.map Prod.fst := by
    intro hmem
    obtain ⟨c, hc, rfl⟩ := List.mem_map.mp hmem
    exact Option.some_ne_none _ ((h.block c hc).symm.trans hp)
  have hmap : (bs ++ [(p, b)]).map Prod.fst = bs.map Prod.fst ++ [p] := by simp
  refine ⟨?_, fun c hc => ?_, fun c hc => ?_, fun q hq => ?_⟩
  · rw [hmap]
    refine List.nodup_append.mpr ⟨h.nodup, by simp, ?_⟩
    rintro q hq _ hp rfl
    exact hnew (List.mem_singleton.mp hp ▸ hq)
  · rcases List.mem_append.mp hc with hc | hc
    · exact h.free c hc
    · rw [List.mem_singleton.mp hc, ← h.rest p hnew, hp]
  · rcases List.mem_append.mp hc with hold | hc
    · rw [Function.update_of_ne, h.block c hold]
      intro heq
      exact hnew (heq ▸ List.mem_map_of_mem hold)
    · rw [List.mem_singleton.mp hc]
      exact Function.update_self ..
  · rw [hmap, List.mem_append, not_or] at hq
    rw [Function.update_of_ne (fun h => hq.2 (List.mem_singleton.mpr h)), h.rest q hq.1]

/-- **Deleting the blocks of the list** gives the heap back. -/
theorem Adds.deleteAll (h : Adds heap bs heap') :
    Heap.deleteAll heap' (bs.map Prod.fst) = some heap := by
  induction bs generalizing heap' with
  | nil =>
    refine congrArg some ?_
    funext p
    exact h.rest p List.not_mem_nil
  | cons b bs ih =>
    obtain ⟨hnot, hnodup⟩ := List.nodup_cons.mp h.nodup
    have hdelete : delete heap' (some b.1) = some (Function.update heap' b.1 none) :=
      if_pos (by rw [h.block b List.mem_cons_self]; rfl)
    rw [List.map_cons, Heap.deleteAll, List.foldlM_cons, hdelete]
    refine ih ⟨hnodup, fun c hc => h.free c (List.mem_cons_of_mem _ hc), fun c hc => ?_,
      fun p hp => ?_⟩
    · rw [Function.update_of_ne, h.block c (List.mem_cons_of_mem _ hc)]
      intro heq
      exact hnot (heq ▸ List.mem_map_of_mem hc)
    · rcases eq_or_ne p b.1 with rfl | hne
      · rw [Function.update_self, h.free b List.mem_cons_self]
      · rw [Function.update_of_ne hne]
        refine h.rest p fun hmem => ?_
        rcases List.mem_cons.mp hmem with heq | hmem
        · exact hne heq
        · exact hp hmem

end Heap
