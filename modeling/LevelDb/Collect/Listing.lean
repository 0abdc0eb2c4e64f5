import LevelDb.Collect.Outputs
import LevelDb.Collect
import LevelDb.Recover.Recovery

/-!
# What the deletion of obsolete files leaves in the directory

`DBImpl::DeleteObsoleteFiles` decides about every name of a listing on its own. Here its
run is followed name by name: the directory it leaves is the one it found, without some
names that it was right to delete (`LevelDb.Swept`).

What is right to delete is said without the code (`LevelDb.Garbage`): a log that recovery
would not select, a manifest below the current one, a table or a temporary file whose
number is neither live nor pending. The collector deletes nothing else, so that recovery
selects the same logs before and after; and where its deletions succeed nothing that it
could delete is left, so that a second run finds nothing to do
(`LevelDb.deleteObsoleteFiles_spares`).
-/

namespace LevelDb

open CrashLogic

/-! ### Garbage -/

/-- **The name is one of garbage**, for a version set and the outputs that are pending. -/
inductive Garbage (L : Logging) (v : VersionSet) (pending : List ℕ) (name : Bytes) : Prop
  | log {n : ℕ} : parseFileName L name = some (n, .kLogFile) →
      ¬(v.logNumber ≤ n ∨ n = v.prevLogNumber) → Garbage L v pending name
  | manifest {n : ℕ} : parseFileName L name = some (n, .kDescriptorFile) →
      n < v.manifestFileNumber → Garbage L v pending name
  | table {n : ℕ} : parseFileName L name = some (n, .kTableFile) → n ∉ v.live → n ∉ pending →
      Garbage L v pending name
  | temp {n : ℕ} : parseFileName L name = some (n, .kTempFile) → n ∉ v.live → n ∉ pending →
      Garbage L v pending name

section

variable {c : Context} {A : LowerSet World} {w t u : World} {L : Logging} {v : VersionSet}
  {pending : List ℕ} {name : Bytes} {filenames : List Bytes}

/-- **The code decides so**: what `DeleteObsoleteFiles` does not keep is garbage. -/
theorem garbage_iff {n : ℕ} {type : FileType} (hp : parseFileName L name = some (n, type)) :
    Garbage L v pending name ↔ keep v (pending ++ v.live) n type = false := by
  constructor
  · rintro (⟨hp', h⟩ | ⟨hp', h⟩ | ⟨hp', h1, h2⟩ | ⟨hp', h1, h2⟩)
    all_goals
      rw [hp] at hp'
      obtain ⟨rfl, rfl⟩ := Prod.mk.inj (Option.some.inj hp')
    · simpa [keep] using h
    · simpa [keep] using h
    · simp [keep, h1, h2]
    · simp [keep, h1, h2]
  · intro h
    cases type with
    | kLogFile => exact .log hp (by simpa [keep] using h)
    | kDescriptorFile => exact .manifest hp (by simpa [keep] using h)
    | kTableFile =>
      obtain ⟨h1, h2⟩ : n ∉ pending ∧ n ∉ v.live := by simpa [keep] using h
      exact .table hp h2 h1
    | kTempFile =>
      obtain ⟨h1, h2⟩ : n ∉ pending ∧ n ∉ v.live := by simpa [keep] using h
      exact .temp hp h2 h1
    | kDBLockFile => exact absurd h (by simp [keep])
    | kCurrentFile => exact absurd h (by simp [keep])
    | kInfoLogFile => exact absurd h (by simp [keep])

/-- What is garbage parses. -/
theorem Garbage.parses (h : Garbage L v pending name) :
    ∃ n type, parseFileName L name = some (n, type) := by
  rcases h with ⟨hp, -⟩ | ⟨hp, -⟩ | ⟨hp, -⟩ | ⟨hp, -⟩
  · exact ⟨_, _, hp⟩
  · exact ⟨_, _, hp⟩
  · exact ⟨_, _, hp⟩
  · exact ⟨_, _, hp⟩

/-! ### The run -/

/-- **Names were deleted** between `w` and `t`, all of them garbage from the listing, and
nothing else happened. -/
structure Swept (L : Logging) (v : VersionSet) (pending : List ℕ) (filenames : List Bytes)
    (w t : World) : Prop where
  children : ∃ p : Bytes → Bool, t.disk.children = w.disk.children.filter p ∧
    ∀ name, p name = false → Garbage L v pending name
  calls : ∃ calls, t.calls = w.calls ++ calls ∧ ∀ name a, (Call.deleteFile name, a) ∈ calls →
    name ∈ filenames ∧ Garbage L v pending name
  impl : t.impl = w.impl

namespace Swept

theorem refl (v : VersionSet) (pending : List ℕ) (filenames : List Bytes) (w : World) :
    Swept L v pending filenames w w where
  children :=
    ⟨fun _ => true, (List.filter_eq_self.mpr fun _ _ => rfl).symm, fun _ h => Bool.noConfusion h⟩
  calls := ⟨[], (List.append_nil _).symm, fun _ _ h => absurd h List.not_mem_nil⟩
  impl := rfl

theorem trans (h : Swept L v pending filenames w t) (h' : Swept L v pending filenames t u) :
    Swept L v pending filenames w u := by
  obtain ⟨⟨p, hp, hpg⟩, ⟨calls, hcalls, hg⟩, hi⟩ := h
  obtain ⟨⟨q, hq, hqg⟩, ⟨calls', hcalls', hg'⟩, hi'⟩ := h'
  refine ⟨⟨fun name => q name && p name, ?_, fun name hn => ?_⟩,
    ⟨calls ++ calls', ?_, fun name a ha => ?_⟩, hi'.trans hi⟩
  · rw [hq, hp, List.filter_filter]
  · exact (Bool.and_eq_false_iff.mp hn).elim (hqg name) (hpg name)
  · rw [hcalls', hcalls, List.append_assoc]
  · exact (List.mem_append.mp ha).elim (hg name a) (hg' name a)

theorem mono {filenames' : List Bytes} (h : Swept L v pending filenames w t)
    (hsub : filenames ⊆ filenames') : Swept L v pending filenames' w t := by
  obtain ⟨hchildren, ⟨calls, hcalls, hg⟩, hi⟩ := h
  exact ⟨hchildren, ⟨calls, hcalls, fun name a ha => ⟨hsub (hg name a ha).1, (hg name a ha).2⟩⟩, hi⟩

theorem subset (h : Swept L v pending filenames w t) : t.disk.children ⊆ w.disk.children := by
  obtain ⟨p, hp, -⟩ := h.children
  rw [hp]
  exact List.filter_subset_self _

/-- What is no garbage stays. -/
theorem mem_of_not_garbage (h : Swept L v pending filenames w t) (hn : name ∈ w.disk.children)
    (hg : ¬Garbage L v pending name) : name ∈ t.disk.children := by
  obtain ⟨p, hp, hpg⟩ := h.children
  rw [hp]
  refine List.mem_filter.mpr ⟨hn, ?_⟩
  by_contra hfalse
  exact hg (hpg name (by simpa using hfalse))

end Swept

/-- The deletions made between `w` and `t` have succeeded. -/
def DeletionsSucceed (w t : World) : Prop :=
  ∀ name a, (Call.deleteFile name, a) ∈ t.calls.drop w.calls.length → a.status.isOk = true

theorem DeletionsSucceed.tail (h : DeletionsSucceed w u) (hwt : w ≤ t) :
    DeletionsSucceed t u := by
  intro name a ha
  refine h name a (List.mem_of_mem_drop (i := t.calls.length - w.calls.length) ?_)
  rw [List.drop_drop, Nat.add_sub_cancel' hwt.length_le]
  exact ha

/-- A deletion that is called sweeps its name, and leaves no such name where it
succeeds. -/
theorem swept_deleteFile (hg : Garbage L v pending name) (a : Answer) :
    Swept L v pending [name] w (w.after (.deleteFile name) a
      (if a.status.isOk then w.disk.delete L name else w.disk)) := by
  refine ⟨?_, ⟨[(.deleteFile name, a)], rfl, fun name' a' ha => ?_⟩, rfl⟩
  · rw [World.after_disk]
    split_ifs
    · exact ⟨_, rfl, fun name' hn => by
        obtain rfl : name' = name := by simpa using hn
        exact hg⟩
    · exact (Swept.refl v pending [] w).children
  · obtain ⟨h1, -⟩ := Prod.mk.inj (List.mem_singleton.mp ha)
    obtain rfl := Call.deleteFile.inj h1
    exact ⟨List.mem_singleton.mpr rfl, hg⟩

/-- **The names were gone through** between `w` and `t`: where the deletions have succeeded,
what was garbage among them has gone. -/
structure SweptAll (L : Logging) (v : VersionSet) (pending : List ℕ) (filenames : List Bytes)
    (w t : World) : Prop extends Swept L v pending filenames w t where
  gone : DeletionsSucceed w t → ∀ name ∈ filenames, Garbage L v pending name →
    name ∉ t.disk.children

/-- A name is passed over that is no garbage. -/
theorem SweptAll.pass (h : SweptAll L v pending filenames w t)
    (hne : ¬Garbage L v pending name) : SweptAll L v pending (name :: filenames) w t where
  toSwept := h.toSwept.mono (List.subset_cons_self _ _)
  gone hdel name' hn hg := by
    rcases List.mem_cons.mp hn with rfl | hn
    · exact absurd hg hne
    · exact h.gone hdel name' hn hg

/-- A name is garbage, and is deleted first. -/
theorem SweptAll.delete (hg : Garbage L v pending name) {a : Answer}
    (ht : w.after (.deleteFile name) a
      (if a.status.isOk then w.disk.delete L name else w.disk) = t) (htu : t ≤ u)
    (h : SweptAll L v pending filenames t u) :
    SweptAll L v pending (name :: filenames) w u where
  toSwept := by
    have hfirst : Swept L v pending [name] w t := ht ▸ swept_deleteFile hg a
    exact (hfirst.mono (by simp)).trans (h.toSwept.mono (List.subset_cons_self _ _))
  gone hdel name' hn hg' := by
    -- the names behind it are the business of the rest of the loop
    have hwt : w ≤ t := ht ▸ w.le_after _ _ _
    rcases List.mem_cons.mp hn with rfl | hn
    · -- it has gone with its own deletion
      have ha : a.status.isOk = true := by
        refine hdel name' a ?_
        obtain ⟨calls, hcalls⟩ := htu
        rw [← hcalls, ← ht, World.after_calls, List.append_assoc, List.drop_left]
        exact List.mem_append_left _ (List.mem_singleton.mpr rfl)
      intro hmem
      have hmem' := h.toSwept.subset hmem
      rw [← ht, World.after_disk, if_pos ha] at hmem'
      simpa using (List.mem_filter.mp hmem').2
    · exact h.gone (hdel.tail hwt) name' hn hg'

/-- **The loop of `DeleteObsoleteFiles`** sweeps garbage, and all of the listing where its
deletions succeed. -/
theorem deleteFiles_swept (filenames : List Bytes) :
    Sat A (deleteFiles c v (pending ++ v.live) filenames) w
      (Swept c.X.logging v pending filenames w) fun _ t =>
        SweptAll c.X.logging v pending filenames w t := by
  induction filenames generalizing w with
  | nil =>
    exact sat_pure.mpr fun _ => ⟨.refl _ _ _ w, fun _ _ h => absurd h List.not_mem_nil⟩
  | cons name filenames ih =>
    have hpass : ¬Garbage c.X.logging v pending name →
        Sat A (deleteFiles c v (pending ++ v.live) filenames) w
          (Swept c.X.logging v pending (name :: filenames) w) fun _ t =>
            SweptAll c.X.logging v pending (name :: filenames) w t := fun hne =>
      ih.mono (fun _ _ _ h => h.mono (List.subset_cons_self _ _)) fun _ _ _ _ h => h.pass hne
    rw [deleteFiles]
    rcases hp : parseFileName c.X.logging name with _ | ⟨number, type⟩
    -- a name that does not parse is passed over
    · refine hpass fun hg => ?_
      obtain ⟨n, type, hp'⟩ := hg.parses
      rw [hp] at hp'
      exact absurd hp' (by simp)
    · dsimp only
      split_ifs with hkeep
      · refine hpass fun hg => ?_
        rw [(garbage_iff hp).mp hg] at hkeep
        exact Bool.noConfusion hkeep
      · have hg := (garbage_iff hp).mpr (by simpa using hkeep)
        rw [sat_bind, deleteFile, sat_bind]
        refine sat_call (fun _ => .refl _ _ _ w) fun a _ => sat_pure.mpr fun _ => ?_
        have hfirst : Swept c.X.logging v pending (name :: filenames) w _ :=
          (swept_deleteFile hg a).mono (by simp)
        exact ih.mono (fun _ _ _ h => hfirst.trans (h.mono (List.subset_cons_self _ _)))
          fun _ _ htu _ h => h.delete hg rfl htu

/-- What `DeleteObsoleteFiles` has in its listing. -/
def listing (c : Context) (w : World) : List Bytes :=
  let a := c.env w.calls.length .getChildren
  if a.status.isOk then w.disk.children else a.names

theorem getChildren_sat {I : World → Prop} {Q : Status × List Bytes → World → Prop}
    (hI : w ∈ A → I w)
    (hQ : ∀ a, Q (a.status, listing c w) (w.after .getChildren a w.disk)) :
    Sat A (getChildren c) w I Q := by
  rw [getChildren, sat_bind, sat_get]
  intro _
  rw [sat_bind]
  exact sat_step.mpr ⟨hI, fun _ => sat_pure.mpr fun _ => hQ _⟩

/-- **`DeleteObsoleteFiles`** sweeps garbage, and all of its listing where there is no
background error and its deletions succeed. -/
theorem deleteObsoleteFiles_swept :
    Sat A (deleteObsoleteFiles c) w
      (Swept c.X.logging w.impl.versions w.impl.pendingOutputs (listing c w) w) fun _ t =>
        Swept c.X.logging w.impl.versions w.impl.pendingOutputs (listing c w) w t ∧
          (w.impl.bgError.isOk → DeletionsSucceed w t → ∀ name ∈ listing c w,
            Garbage c.X.logging w.impl.versions w.impl.pendingOutputs name →
              name ∉ t.disk.children) := by
  rw [deleteObsoleteFiles, sat_bind, sat_get]
  intro _
  split_ifs with hbg
  · rw [sat_bind]
    refine getChildren_sat (fun _ => .refl _ _ _ w) fun a => ?_
    dsimp only
    generalize ht : w.after .getChildren a w.disk = t
    have hlisted : Swept c.X.logging w.impl.versions w.impl.pendingOutputs (listing c w) w t := by
      subst ht
      refine ⟨(Swept.refl _ _ [] w).children, ⟨_, rfl, fun name a ha => ?_⟩, rfl⟩
      exact absurd (List.mem_singleton.mp ha) (by simp)
    have hwt : w ≤ t := ht ▸ w.le_after _ _ _
    refine (deleteFiles_swept (listing c w)).mono (fun u _ _ h => hlisted.trans h)
      fun _ u _ _ h => ⟨hlisted.trans h.toSwept, fun _ hdel => h.gone (hdel.tail hwt)⟩
  · exact sat_pure.mpr fun _ => ⟨.refl _ _ _ w, fun h => absurd h hbg⟩

/-- The deletion never aborts. -/
theorem returns_deleteObsoleteFiles : Returns (deleteObsoleteFiles c) w fun _ _ => True := by
  have hloop : ∀ {w v live filenames}, Returns (deleteFiles c v live filenames) w
      fun _ _ => True := by
    intro w v live filenames
    induction filenames generalizing w with
    | nil => trivial
    | cons name filenames ih =>
      rw [deleteFiles]
      rcases parseFileName c.X.logging name with _ | ⟨number, type⟩
      · exact ih
      · dsimp only
        split_ifs
        · exact ih
        · rw [returns_bind, deleteFile, returns_bind, call, returns_step, returns_pure]
          exact ih
  rw [deleteObsoleteFiles, returns_bind, returns_get]
  split_ifs
  · rw [getChildren, returns_bind, returns_bind, returns_get, returns_bind, call, returns_step,
      returns_pure]
    exact hloop
  · trivial

/-! ### What is spared -/

/-- Without garbage, recovery selects the same logs. -/
theorem Swept.sortedLogs_eq (h : Swept L v pending filenames w t) :
    sortedLogs L v.logNumber v.prevLogNumber t.disk.children =
      sortedLogs L v.logNumber v.prevLogNumber w.disk.children := by
  obtain ⟨p, hp, hpg⟩ := h.children
  rw [sortedLogs, sortedLogs, hp]
  congr 1
  induction w.disk.children with
  | nil => rfl
  | cons name names ih =>
    rcases hname : p name with _ | _
    · -- a name that has gone is not selected
      rw [List.filter_cons_of_neg (by simp [hname]), ih]
      obtain ⟨n, type, hparse⟩ := (hpg name hname).parses
      have hkeep := (garbage_iff hparse).mp (hpg name hname)
      have hnot : ¬(type = .kLogFile ∧ (v.logNumber ≤ n ∨ n = v.prevLogNumber)) := by
        rintro ⟨rfl, hsel⟩
        simp only [keep, Bool.or_eq_false_iff, decide_eq_false_iff_not, beq_eq_false_iff_ne]
          at hkeep
        exact hsel.elim hkeep.1 hkeep.2
      rw [selectedLogs, selectedLogs, parsed, parsed, List.filterMap_cons, hparse]
      dsimp only
      rw [List.filterMap_cons, if_neg hnot]
    · rw [List.filter_cons_of_pos hname]
      rw [selectedLogs, parsed, List.filterMap_cons, selectedLogs, parsed, List.filterMap_cons]
      rcases parseFileName L name with _ | ⟨n, type⟩
      · exact ih
      · dsimp only
        rw [List.filterMap_cons, List.filterMap_cons]
        split
        · exact ih
        · exact congrArg _ ih

/-- **What is needed is spared** between `w` and `t`: the names that the parser rejects,
the four fixed names, the tables that are live or being built, the logs that recovery would
replay, and the manifests from the current one on. -/
structure Spared (L : Logging) (building : List ℕ) (w t : World) : Prop where
  rejected : ∀ name ∈ w.disk.children, parseFileName L name = none → name ∈ t.disk.children
  fixed : ∀ name ∈ [chars "CURRENT", chars "LOCK", chars "LOG", chars "LOG.old"],
    name ∈ w.disk.children → name ∈ t.disk.children
  table : ∀ name ∈ w.disk.children, ∀ n, parseFileName L name = some (n, .kTableFile) →
    n ∈ w.impl.versions.live ∨ n ∈ building → name ∈ t.disk.children
  log : ∀ name ∈ w.disk.children, ∀ n, parseFileName L name = some (n, .kLogFile) →
    n ∈ sortedLogs L w.impl.versions.logNumber w.impl.versions.prevLogNumber w.disk.children →
      name ∈ t.disk.children
  manifest : ∀ name ∈ w.disk.children, ∀ n, parseFileName L name = some (n, .kDescriptorFile) →
    w.impl.versions.manifestFileNumber ≤ n → name ∈ t.disk.children
  logs : sortedLogs L w.impl.versions.logNumber w.impl.versions.prevLogNumber t.disk.children =
    sortedLogs L w.impl.versions.logNumber w.impl.versions.prevLogNumber w.disk.children
  /-- The calls spare it as well, whatever the directory holds by then. -/
  calls : ∀ name a, (Call.deleteFile name, a) ∈ t.calls.drop w.calls.length →
    Garbage L w.impl.versions building name

/-- Names that parse to another type or number are no garbage. -/
theorem not_garbage_of_keep {n : ℕ} {type : FileType}
    (hp : parseFileName L name = some (n, type))
    (hkeep : keep v (pending ++ v.live) n type = true) :
    ¬Garbage L v pending name := fun hg => by
  rw [(garbage_iff hp).mp hg] at hkeep
  exact Bool.noConfusion hkeep

theorem Garbage.congr {pending' : List ℕ} (h : ∀ n, n ∈ pending' → n ∈ pending)
    (hg : Garbage L v pending name) : Garbage L v pending' name := by
  rcases hg with ⟨hp, h1⟩ | ⟨hp, h1⟩ | ⟨hp, h1, h2⟩ | ⟨hp, h1, h2⟩
  · exact .log hp h1
  · exact .manifest hp h1
  · exact .table hp h1 fun h' => h2 (h _ h')
  · exact .temp hp h1 fun h' => h2 (h _ h')

/-- Sweeping garbage spares what is needed. -/
theorem Swept.spared {building : List ℕ}
    (h : Swept L w.impl.versions pending filenames w t)
    (hpending : ∀ n, n ∈ building → n ∈ pending) : Spared L building w t where
  rejected name hn hp := h.mem_of_not_garbage hn fun hg => by
    obtain ⟨n, type, hp'⟩ := hg.parses
    rw [hp] at hp'
    exact absurd hp' (by simp)
  fixed name hfix hn := by
    refine h.mem_of_not_garbage hn ?_
    simp only [List.mem_cons, List.not_mem_nil, or_false] at hfix
    rcases hfix with rfl | rfl | rfl | rfl
    · exact not_garbage_of_keep parseFileName_current rfl
    · exact not_garbage_of_keep (show parseFileName L _ = some (0, .kDBLockFile) from rfl) rfl
    · exact not_garbage_of_keep (show parseFileName L _ = some (0, .kInfoLogFile) from rfl) rfl
    · exact not_garbage_of_keep (show parseFileName L _ = some (0, .kInfoLogFile) from rfl) rfl
  table name hn n hp hneed := h.mem_of_not_garbage hn <| not_garbage_of_keep hp <| by
    have hmem := hneed.symm.imp_left (hpending n)
    simpa [keep] using hmem
  log name hn n hp hlog := h.mem_of_not_garbage hn <| not_garbage_of_keep hp <| by
    obtain ⟨-, hsel⟩ := mem_sortedLogs.mp hlog
    simpa [keep] using hsel
  manifest name hn n hp hle := h.mem_of_not_garbage hn <| not_garbage_of_keep hp <| by
    simpa [keep] using hle
  logs := h.sortedLogs_eq
  calls name a ha := by
    obtain ⟨calls, hcalls, hg⟩ := h.calls
    rw [hcalls, List.drop_left] at ha
    exact (hg name a ha).2.congr hpending

/-- **Garbage collection never removes a file that is still needed, and leaves no
garbage.** Wherever it is stopped it has spared what is needed; where there is no
background error and its deletions succeed, the garbage of its listing has gone, and
if that was the directory a second run deletes nothing. -/
theorem deleteObsoleteFiles_spares {builds : Builds} (hbuilds : Builds.system.Reachable builds)
    (hpending : w.impl.pendingOutputs = builds.pendingOutputs) :
    (∀ t ∈ ((deleteObsoleteFiles c).run w).states, Spared c.X.logging builds.building w t) ∧
    (w.impl.bgError.isOk → DeletionsSucceed w ((deleteObsoleteFiles c).run w).final →
      (∀ name ∈ listing c w,
        Garbage c.X.logging w.impl.versions builds.pendingOutputs name →
          name ∉ ((deleteObsoleteFiles c).run w).final.disk.children) ∧
      (listing c w = w.disk.children → ∀ env : Env,
        let w' := ((deleteObsoleteFiles c).run w).final
        (env w'.calls.length .getChildren).status.isOk →
          ∀ t ∈ ((deleteObsoleteFiles { c with env := env }).run w').states, ∀ name a,
            (Call.deleteFile name, a) ∉ t.calls.drop w'.calls.length)) := by
  have hmem : ∀ n, n ∈ builds.building → n ∈ w.impl.pendingOutputs := fun n hn => by
    rw [hpending]
    exact (Builds.mem_pendingOutputs hbuilds).mpr hn
  have hsat := deleteObsoleteFiles_swept (c := c) (A := ⊤) (w := w)
  refine ⟨fun t ht => (hsat.states (fun _ _ h => h.1) t ht trivial).spared hmem, ?_⟩
  intro hbg hdel
  obtain ⟨_, hresult, -⟩ := (returns_deleteObsoleteFiles (c := c) (w := w)).result
  obtain ⟨hswept, hgone⟩ := hsat.result hresult trivial
  rw [← hpending]
  refine ⟨hgone hbg hdel, fun hlisting env => ?_⟩
  intro w' henv t ht name a ha
  have hsecond := (deleteObsoleteFiles_swept (c := { c with env := env }) (A := ⊤) (w := w')).states
    (fun _ _ h => h.1) t ht trivial
  obtain ⟨calls, hcalls, hg⟩ := hsecond.calls
  rw [hcalls, List.drop_left] at ha
  obtain ⟨hlisted, hgarbage⟩ := hg name a ha
  have hlisting' : listing { c with env := env } w' = w'.disk.children := if_pos henv
  rw [hlisting'] at hlisted
  rw [hswept.impl] at hgarbage
  refine hgone hbg hdel name ?_ hgarbage hlisted
  rw [hlisting]
  exact hswept.subset hlisted

/-- A database with a table that is being built, and one that was left behind. -/
def collecting : World where
  disk :=
    { oneLog [] with
      children := [chars "CURRENT", chars "MANIFEST-000001", logFileName [] 3, tableFileName [] 7,
        tableFileName [] 8]
      current := fun _ => List.mem_cons_self }
  impl := { pendingOutputs := [7], versions := { logNumber := 3, manifestFileNumber := 1 } }
  calls := []

/-- The one is spared, and the other is not. -/
theorem deleteObsoleteFiles_spares_collecting :
    tableFileName [] 7 ∈ ((deleteObsoleteFiles (healthy {})).run collecting).final.disk.children ∧
      tableFileName [] 8 ∉
        ((deleteObsoleteFiles (healthy {})).run collecting).final.disk.children := by
  have hbuilds : Builds.system.Reachable ⟨[7], [7], [7], []⟩ :=
    ⟨_, ⟨[], rfl⟩, .step (a := .writeLevel10Table 7) .refl rfl⟩
  obtain ⟨hspared, hgone⟩ :=
    deleteObsoleteFiles_spares (c := healthy {}) (w := collecting) hbuilds rfl
  refine ⟨(hspared _ (Run.mem_states.mpr (Or.inr rfl))).table _ (by decide) 7 (by decide)
    (Or.inr (by decide)), ?_⟩
  refine (hgone rfl ?_).1 _ (by decide) (.table (n := 8) (by decide) (by decide) (by decide))
  intro name a ha
  have hok : ∀ x ∈ ((deleteObsoleteFiles (healthy {})).run collecting).final.calls,
      x.2.status.isOk = true := by decide
  exact hok _ (List.mem_of_mem_drop ha)

end

end LevelDb
