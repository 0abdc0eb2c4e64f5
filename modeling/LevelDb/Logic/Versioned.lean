import Mathlib.Data.Set.Insert

/-!
# Versioned maps

A map that is kept as its versions: a write adds a version under a number of its own, and
what the map holds under a key is the value of the newest version of it
(`Versioned.Denotes`). Nothing is ever overwritten, so that the map as it was when the
numbers stood at `n` is still there, in the versions numbered below `n`
(`Versioned.asOf`).

Writing is what it should be as long as the numbers grow. The version of a write changes the
map at its key (`Versioned.Denotes.insert`), consecutively numbered writes act one after
another (`Versioned.Denotes.writes`), and so do batches of them, each of which starts
behind the one before (`Versioned.Denotes.batches`).
-/

namespace Versioned

variable {K V : Type}

/-- **A version** of what is under a key: a value, or nothing where it was deleted. -/
@[ext] structure Version (K V : Type) where
  key : K
  number : ℕ
  value : Option V

/-- A write to a map: the key, and the value to put under it, if any. -/
abbrev Write (K V : Type) : Type := K × Option V

/-- **The versions denote the map**: under every key, it has what the newest version of the
key has, or nothing where there is no version. -/
def Denotes (E : Set (Version K V)) (m : K → Option V) : Prop :=
  ∀ k, (∃ v ∈ E, v.key = k ∧ v.value = m k ∧ ∀ u ∈ E, u.key = k → u.number ≤ v.number) ∨
    (m k = none ∧ ∀ v ∈ E, v.key ≠ k)

/-- The versions numbered below `n`. -/
def asOf (E : Set (Version K V)) (n : ℕ) : Set (Version K V) := {v ∈ E | v.number < n}

variable {E F : Set (Version K V)} {m : K → Option V} {n : ℕ}

/-- No versions denote the map that holds nothing. -/
theorem denotes_empty : Denotes (∅ : Set (Version K V)) fun _ => none :=
  fun _ => Or.inr ⟨rfl, fun _ hv => absurd hv (Set.notMem_empty _)⟩

theorem mem_asOf {v : Version K V} : v ∈ asOf E n ↔ v ∈ E ∧ v.number < n := Iff.rfl

/-- All versions are below a bound on their numbers. -/
theorem asOf_eq_self (h : ∀ v ∈ E, v.number < n) : asOf E n = E := by
  ext v
  exact ⟨And.left, fun hv => ⟨hv, h v hv⟩⟩

/-- Versions that are not below the bound do not show. -/
theorem asOf_union_of_le (h : ∀ v ∈ F, n ≤ v.number) : asOf (E ∪ F) n = asOf E n := by
  ext v
  constructor
  · rintro ⟨hv | hv, hlt⟩
    · exact ⟨hv, hlt⟩
    · exact absurd hlt (not_lt.mpr (h v hv))
  · rintro ⟨hv, hlt⟩
    exact ⟨Or.inl hv, hlt⟩

/-! ### Writing -/

variable [DecidableEq K]

/-- Make a write to a map. -/
def put (m : K → Option V) (w : Write K V) : K → Option V := Function.update m w.1 w.2

/-- **A new version** changes the map at its key. -/
theorem Denotes.insert {v : Version K V} (h : Denotes E m)
    (hv : ∀ u ∈ E, u.key = v.key → u.number < v.number) :
    Denotes (insert v E) (put m (v.key, v.value)) := by
  intro k
  by_cases hk : v.key = k
  · subst hk
    have hself : put m (v.key, v.value) v.key = v.value := Function.update_self _ _ _
    refine Or.inl ⟨v, Set.mem_insert _ _, rfl, hself.symm, ?_⟩
    rintro u (rfl | hu) huk
    · exact le_rfl
    · exact (hv u hu huk).le
  · rw [put, Function.update_of_ne (Ne.symm hk)]
    rcases h k with ⟨u, hu, huk, hx, hmax⟩ | ⟨hx, hnone⟩
    · refine Or.inl ⟨u, Set.mem_insert_of_mem _ hu, huk, hx, ?_⟩
      rintro u' (rfl | hu') huk'
      · exact absurd huk' hk
      · exact hmax u' hu' huk'
    · refine Or.inr ⟨hx, ?_⟩
      rintro u (rfl | hu)
      · exact hk
      · exact hnone u hu

/-- The versions of writes that are numbered from `n` on. -/
def numbered : ℕ → List (Write K V) → List (Version K V)
  | _, [] => []
  | n, w :: ws => ⟨w.1, n, w.2⟩ :: numbered (n + 1) ws

omit [DecidableEq K] in
theorem le_of_mem_numbered {ws : List (Write K V)} {v : Version K V} (h : v ∈ numbered n ws) :
    n ≤ v.number ∧ v.number < n + ws.length := by
  induction ws generalizing n with
  | nil => exact absurd h List.not_mem_nil
  | cons w ws ih =>
    rw [List.length_cons]
    rcases List.mem_cons.mp h with rfl | h
    · dsimp only
      omega
    · have hrec := ih h
      omega

/-- **Consecutive writes** act one after another. -/
theorem Denotes.writes {ws : List (Write K V)} (h : Denotes E m)
    (hE : ∀ u ∈ E, u.number < n) :
    Denotes (E ∪ {v | v ∈ numbered n ws}) (ws.foldl put m) := by
  induction ws generalizing n E m with
  | nil =>
    have hnil : E ∪ {v | v ∈ numbered n ([] : List (Write K V))} = E := by
      ext v
      simp [numbered]
    rwa [hnil]
  | cons w ws ih =>
    have hfirst : Denotes (Insert.insert ⟨w.1, n, w.2⟩ E) (put m w) :=
      h.insert fun u hu _ => hE u hu
    have hsplit : E ∪ {v | v ∈ numbered n (w :: ws)} =
        Insert.insert ⟨w.1, n, w.2⟩ E ∪ {v | v ∈ numbered (n + 1) ws} := by
      ext v
      simp only [numbered, Set.mem_union, Set.mem_insert_iff, Set.mem_ofPred_eq,
        List.mem_cons]
      exact or_left_comm.trans or_assoc.symm
    rw [hsplit, List.foldl_cons]
    refine ih hfirst ?_
    rintro u (rfl | hu)
    · exact Nat.lt_succ_self n
    · exact (hE u hu).trans (Nat.lt_succ_self n)

omit [DecidableEq K] in
/-- As of `n + i`, the first `i` of the writes numbered from `n` on are there. -/
theorem asOf_numbered (hE : ∀ u ∈ E, u.number < n) (ws : List (Write K V)) (i : ℕ) :
    asOf (E ∪ {v | v ∈ numbered n ws}) (n + i) = E ∪ {v | v ∈ numbered n (ws.take i)} := by
  have hnum : ∀ {v : Version K V},
      v ∈ numbered n ws ∧ v.number < n + i ↔ v ∈ numbered n (ws.take i) := by
    intro v
    induction ws generalizing n i with
    | nil => simp [numbered]
    | cons w ws ih =>
      cases i with
      | zero =>
        refine iff_of_false (fun h => ?_) List.not_mem_nil
        exact absurd h.2 (not_lt.mpr (le_of_mem_numbered h.1).1)
      | succ i =>
        rw [List.take_succ_cons, numbered, numbered, List.mem_cons, List.mem_cons, or_and_right,
          ← ih (fun u hu => (hE u hu).trans (Nat.lt_succ_self n)) i,
          Nat.add_right_comm n 1 i, Nat.add_assoc n i 1]
        refine or_congr_left ⟨And.left, fun h => ⟨h, ?_⟩⟩
        subst h
        dsimp only
        omega
  ext v
  rw [mem_asOf, Set.mem_union, Set.mem_union, or_and_right]
  exact or_congr ⟨And.left, fun h => ⟨h, (hE v h).trans_le (Nat.le_add_right n i)⟩⟩ hnum

/-! ### Journals -/

/-- A batch of writes, and the number of its first one. -/
abbrev Batch (K V : Type) : Type := ℕ × List (Write K V)

/-- **Every batch starts behind the one before**, and the first one at `n` or later. -/
def Ordered : ℕ → List (Batch K V) → Prop
  | _, [] => True
  | n, b :: bs => n ≤ b.1 ∧ Ordered (b.1 + b.2.length) bs

/-- The versions of the writes in a journal. -/
def journal (bs : List (Batch K V)) : List (Version K V) :=
  bs.flatMap fun b => numbered b.1 b.2

/-- **The batches of a journal** act one after another. -/
theorem Denotes.batches {bs : List (Batch K V)} (h : Denotes E m)
    (hE : ∀ u ∈ E, u.number < n) (hbs : Ordered n bs) :
    Denotes (E ∪ {v | v ∈ journal bs}) ((bs.flatMap Prod.snd).foldl put m) := by
  induction bs generalizing n E m with
  | nil =>
    have hnil : E ∪ {v | v ∈ journal ([] : List (Batch K V))} = E := by
      ext v
      simp [journal]
    rwa [hnil]
  | cons b bs ih =>
    obtain ⟨hn, hbs⟩ := hbs
    have hfirst : Denotes (E ∪ {v | v ∈ numbered b.1 b.2}) (b.2.foldl put m) :=
      h.writes fun u hu => (hE u hu).trans_le hn
    have hsplit : E ∪ {v | v ∈ journal (b :: bs)} =
        E ∪ {v | v ∈ numbered b.1 b.2} ∪ {v | v ∈ journal bs} := by
      ext v
      simp [journal, or_assoc]
    rw [hsplit, List.flatMap_cons, List.foldl_append]
    refine ih hfirst ?_ hbs
    rintro u (hu | hu)
    · exact (hE u hu).trans_le (hn.trans (Nat.le_add_right _ _))
    · exact (le_of_mem_numbered hu).2

/-- **Reading a journal again does no harm**: where the versions from `n` on that are there
already are among those of the journal, it acts on the map as of `n`. -/
theorem Denotes.replay {bs : List (Batch K V)} (h : Denotes (asOf E n) m)
    (hbs : Ordered n bs) (hE : ∀ u ∈ E, n ≤ u.number → u ∈ journal bs) :
    Denotes (E ∪ {v | v ∈ journal bs}) ((bs.flatMap Prod.snd).foldl put m) := by
  have hsplit : E ∪ {v | v ∈ journal bs} =
      asOf E n ∪ {v | v ∈ journal bs} := by
    ext v
    constructor
    · rintro (hv | hv)
      · rcases lt_or_ge v.number n with hlt | hge
        · exact Or.inl ⟨hv, hlt⟩
        · exact Or.inr (hE v hv hge)
      · exact Or.inr hv
    · rintro (⟨hv, -⟩ | hv)
      · exact Or.inl hv
      · exact Or.inr hv
  rw [hsplit]
  exact h.batches (fun u hu => hu.2) hbs

end Versioned
