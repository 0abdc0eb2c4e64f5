import LevelDb.Logic.Owned
import LevelDb.Util.Arena

/-!
# The lifetime of an arena

What an arena hands out is never given back one by one. The destructor deletes the blocks in
`blocks_`, and with them everything that lies in them. Until then it is all there, and
afterwards the heap is as it was before the arena was made, so that no block is deleted twice,
forgotten, or taken from somebody else (`LevelDb.Arena.destroy_restores`).

The heap has the size of each block, by its address (`LevelDb.Arena.Life`).
-/

namespace LevelDb.Arena

open Transition

/-- `Arena::~Arena`. -/
def destroy (a : Arena) (heap : ℕ → Option ℕ) : Option (ℕ → Option ℕ) :=
  Heap.deleteAll heap (a.blocks.map Region.base)

/-- A block that `new char[]` has made is on the heap. -/
def putBlock (heap : ℕ → Option ℕ) (b : Region) : ℕ → Option ℕ :=
  Function.update heap b.base (some b.size)

/-- The arena with what it has served, and the heap. -/
structure Life where
  history : History
  heap : ℕ → Option ℕ

namespace Life

variable {heap : ℕ → Option ℕ} {l l' : Life} {r : Request}

/-- One request, and the blocks that are made in it. -/
def step (l : Life) (r : Request) : Option Life :=
  (Arena.step l.history r).map fun h =>
    ⟨h, (l.history.arena.made h.arena).foldl putBlock l.heap⟩

/-- What is promised of a request, and that `new char[]` puts a block where none is. -/
def Lawful (l : Life) (r : Request) : Prop :=
  Arena.Lawful l.history r ∧ (¬l.history.arena.Fits r → l.heap r.fresh = none)
  deriving Decidable

/-- **The system**: an arena is made where there is some heap already. -/
def system (heap : ℕ → Option ℕ) : System Life Request where
  init l := l = ⟨⟨.new, []⟩, heap⟩
  step := step

/-- The blocks of the arena, with their addresses. -/
def entries (a : Arena) : List (ℕ × ℕ) := a.blocks.map fun b => (b.base, b.size)

/-- **The invariant**: the arena is safe, and its blocks are on top of the heap that was there
before. -/
structure Kept (heap : ℕ → Option ℕ) (l : Life) : Prop where
  safe : l.history.Safe
  adds : Heap.Adds heap (entries l.history.arena) l.heap

/-- A request makes no block, or one at the address that `new char[]` returns. -/
theorem made_cases {a a' : Arena} {result : ℕ} (h : Effect a r result a') :
    a'.blocks = a.blocks ∨ ∃ b : Region, ¬a.Fits r ∧ b.base = r.fresh ∧
      a'.blocks = a.blocks ++ [b] := by
  cases h with
  | bump _ _ _ hblocks _ => exact .inl hblocks
  | own hfit _ hresult _ hblocks _ => exact .inr ⟨_, hfit, hresult, hblocks⟩
  | current hfit _ hresult _ hblocks _ => exact .inr ⟨_, hfit, hresult, hblocks⟩

/-- **One request** keeps the arena's blocks on the heap. -/
theorem Kept.step (h : Kept heap l) (hlaw : l.Lawful r) (hstep : l.step r = some l') :
    Kept heap l' := by
  obtain ⟨⟨hr, hnew⟩, hfree⟩ := hlaw
  obtain ⟨h', hserved, rfl⟩ := Option.map_eq_some_iff.mp hstep
  refine ⟨h.safe.step hr hnew hserved, ?_⟩
  obtain ⟨result, a, hserve, rfl⟩ := step_eq_some.mp hserved
  rcases made_cases (serve_effect hr hserve) with hblocks | ⟨b, hfit, hbase, hblocks⟩
  · have hmade : l.history.arena.made a = [] :=
      made_of_append (hblocks.trans (List.append_nil _).symm)
    have hentries : entries a = entries l.history.arena := congrArg (List.map _) hblocks
    simp only [hmade, List.foldl_nil, hentries]
    exact h.adds
  · have hentries : entries a = entries l.history.arena ++ [(b.base, b.size)] := by
      rw [entries, hblocks, List.map_append]
      rfl
    simp only [made_of_append hblocks, List.foldl_cons, List.foldl_nil, hentries]
    exact h.adds.concat (hbase ▸ hfree hfit) b.size

theorem Kept.of_reachable (h : ((system heap).guard Lawful).Reachable l) : Kept heap l := by
  refine h.invariant ?_ fun l r l' hl hstep => ?_
  · rintro _ rfl
    exact ⟨.new, .refl heap⟩
  · obtain ⟨hlaw, hstep⟩ := System.guard_step.mp hstep
    exact hl.step hlaw hstep

end Life

/-- **The destructor gives the heap back** as it was before the arena was made, whatever was
requested from it of sizes that can be rounded up; and until then all that was handed out lies
in blocks that are there. -/
theorem destroy_restores {heap : ℕ → Option ℕ} {l : Life}
    (h : ((Life.system heap).guard Life.Lawful).Reachable l) :
    (∀ e ∈ l.history.served, ∃ b ∈ l.history.arena.blocks,
      e.region.Within b ∧ l.heap b.base = some b.size) ∧
      l.history.arena.destroy l.heap = some heap := by
  have hkept := Life.Kept.of_reachable h
  constructor
  · intro e he
    obtain ⟨b, hb, hin⟩ := hkept.safe.within e he
    exact ⟨b, hb, hin, hkept.adds.block _ (List.mem_map.mpr ⟨b, hb, rfl⟩)⟩
  · have hbases : l.history.arena.blocks.map Region.base =
        (Life.entries l.history.arena).map Prod.fst := by
      rw [Life.entries, List.map_map]
      rfl
    rw [destroy, hbases]
    exact hkept.adds.deleteAll

/-- Three requests, two of which make a block, on a heap with a block of another owner. -/
theorem destroy_restores_three : ∃ l : Life,
    l.history.arena.blocks = [⟨4096, 4096⟩, ⟨16384, 5000⟩] ∧
    l.history.arena.destroy l.heap = some (Function.update (fun _ => none) 64 (some 32)) := by
  obtain ⟨l, hrun, hblocks⟩ : ∃ l, ((Life.system (Function.update (fun _ => none) 64
      (some 32))).guard Life.Lawful).run ⟨⟨.new, []⟩, Function.update (fun _ => none) 64 (some 32)⟩
        [⟨false, 10, 4096⟩, ⟨true, 16, 0⟩, ⟨true, 5000, 16384⟩] = some l ∧
      l.history.arena.blocks = [⟨4096, 4096⟩, ⟨16384, 5000⟩] := ⟨_, rfl, rfl⟩
  exact ⟨l, hblocks, (destroy_restores ⟨_, rfl, System.steps_of_run hrun⟩).2⟩

end LevelDb.Arena
