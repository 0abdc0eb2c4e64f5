import LevelDb.Filename.Kinds
import LevelDb.Posix.Writable

/-!
# Whether the names of files survive

A file that was created has a name in its directory, and the name survives a crash only once
the directory was synced. `PosixWritableFile::Sync` syncs it where the file is a manifest:
"ensure new files referred to by the manifest are in the filesystem". It takes the directory
from the path of the manifest, up to the last slash.

Which names survive in a run, then, is a matter of where the names lie
(`LevelDb.Posix.Names.mem_durable_run`). For the numbered files of a database that is not
where the manifest is: `MakeFileName` writes no slash behind the name of the database, so
that the manifests are in the directory `db`, and the logs and the tables beside it. Their
names are never synced, unless the name of the database ends in a slash, or in `.`
(`LevelDb.Posix.durable_fileName_iff`).
-/

namespace LevelDb.Posix

open Codec

/-! ### Paths -/

/-- The names on a path. -/
def components (path : Bytes) : List Bytes :=
  (path.splitOn slash).filter fun name => name ≠ [] ∧ name ≠ chars "."

/-- Where a path leads, symbolic links and `..` apart: two paths with the same names on
them lead to one place. -/
structure Place where
  absolute : Bool
  names : List Bytes
  deriving DecidableEq, Repr

/-- Follow a path. The empty one leads nowhere. -/
def resolve (path : Bytes) : Option Place :=
  if path = [] then none else some ⟨path.head? = some slash, components path⟩

/-- The directory of a file. -/
def Place.parent (p : Place) : Place := { p with names := p.names.dropLast }

/-- **The file has its name in the directory.** -/
def InDirectory (dir fname : Bytes) : Prop :=
  resolve dir ≠ none ∧ (resolve fname).map Place.parent = resolve dir

instance (dir fname : Bytes) : Decidable (InDirectory dir fname) :=
  inferInstanceAs (Decidable (_ ∧ _))

/-- What stands behind the last slash of a path. -/
def lastName (path : Bytes) : Bytes := path.rtakeWhile (· ≠ slash)

/-! ### Creating and syncing -/

/-- The names that were given to files, and those of them that survive a crash. -/
structure Names where
  created : List Bytes := []
  durable : List Bytes := []

/-- What is done to a file: `NewWritableFile` or `NewAppendableFile` creates it, and `Sync`
syncs it. -/
inductive NameAction
  | create (fname : Bytes)
  | sync (fname : Bytes) (o : StreamOutcome)
  deriving DecidableEq, Repr

/-- The path of the file. -/
def NameAction.fname : NameAction → Bytes
  | create fname => fname
  | sync fname _ => fname

namespace Names

/-- One action. The directory that `Sync` has synced, if any, has all its names on disk. -/
def step (t : Names) : NameAction → Names
  | .create fname => { t with created := t.created ++ [fname] }
  | .sync fname o =>
    match (syncDirIfManifest fname o).2 with
    | some dir => { t with durable := t.durable ++ t.created.filter fun n => InDirectory dir n }
    | none => t

/-- A run. -/
def run (as : List NameAction) : Names := as.foldl step {}

theorem run_concat (as : List NameAction) (a : NameAction) : run (as ++ [a]) = (run as).step a :=
  List.foldl_append

theorem mem_created_run {as : List NameAction} {fname : Bytes} :
    fname ∈ (run as).created ↔ .create fname ∈ as := by
  induction as using List.reverseRecOn with
  | nil => exact iff_of_false List.not_mem_nil List.not_mem_nil
  | append_singleton as a ih =>
    rw [run_concat, List.mem_append, List.mem_singleton, ← ih]
    cases a with
    | create name =>
      rw [step, List.mem_append, List.mem_singleton, NameAction.create.injEq]
    | sync name o =>
      rw [step, or_iff_left NameAction.noConfusion]
      split
      · exact Iff.rfl
      · exact Iff.rfl

/-- Two actions of a run that goes on by one. -/
theorem pair_sublist_concat {as : List NameAction} {a x y : NameAction} :
    [x, y].Sublist (as ++ [a]) ↔ [x, y].Sublist as ∨ (x ∈ as ∧ a = y) := by
  rw [← List.reverse_sublist, List.reverse_append, ← @List.reverse_sublist _ [x, y]]
  change [y, x].Sublist (a :: as.reverse) ↔ [y, x].Sublist as.reverse ∨ _
  constructor
  · intro h
    cases h with
    | cons _ h => exact Or.inl h
    | cons_cons _ h => exact Or.inr ⟨List.mem_reverse.mp (List.singleton_sublist.mp h), rfl⟩
  · rintro (h | ⟨hx, rfl⟩)
    · exact h.cons a
    · exact (List.singleton_sublist.mpr (List.mem_reverse.mpr hx)).cons_cons a

/-- **Which names survive**: those that were created before the directory they lie in was
synced. -/
theorem mem_durable_run {as : List NameAction} {fname : Bytes} :
    fname ∈ (run as).durable ↔ ∃ name o dir, [.create fname, .sync name o].Sublist as ∧
      (syncDirIfManifest name o).2 = some dir ∧ InDirectory dir fname := by
  induction as using List.reverseRecOn with
  | nil =>
    refine iff_of_false List.not_mem_nil ?_
    rintro ⟨name, o, dir, h, -⟩
    exact absurd (List.sublist_nil.mp h) (List.cons_ne_nil _ _)
  | append_singleton as a ih =>
    simp only [pair_sublist_concat, or_and_right, exists_or]
    rw [run_concat, ← ih]
    cases a with
    | create name =>
      rw [step, or_iff_left]
      rintro ⟨_, _, _, ⟨-, h⟩, -⟩
      exact NameAction.noConfusion h
    | sync name o =>
      rw [step]
      rcases hdir : (syncDirIfManifest name o).2 with _ | dir
      · rw [or_iff_left]
        rintro ⟨_, _, dir, ⟨-, h⟩, hdir', -⟩
        obtain ⟨rfl, rfl⟩ := NameAction.sync.inj h
        rw [hdir] at hdir'
        simp at hdir'
      · rw [List.mem_append, List.mem_filter, mem_created_run, decide_eq_true_eq]
        refine or_congr_right ⟨fun h => ⟨name, o, dir, ⟨h.1, rfl⟩, hdir, h.2⟩, ?_⟩
        rintro ⟨_, _, dir', ⟨hmem, h⟩, hdir', hin⟩
        obtain ⟨rfl, rfl⟩ := NameAction.sync.inj h
        rw [hdir] at hdir'
        exact ⟨hmem, Option.some.inj hdir' ▸ hin⟩

end Names

/-! ### Where the numbered files lie -/

section

variable {dbname front base : Bytes} {o : StreamOutcome} {k : Kind} {n : ℕ}

/-- The front of a path ends in a slash, if there is one. -/
def IsFront (front : Bytes) : Prop := front = [] ∨ ∃ dir, front = dir ++ [slash]

/-- **A path, cut behind its last slash.** -/
theorem cut_path (hfront : IsFront front) (hbase : slash ∉ base) :
    (front ++ base).rdropWhile (· ≠ slash) = front ∧ lastName (front ++ base) = base := by
  induction base using List.reverseRecOn with
  | nil =>
    rw [List.append_nil]
    rcases hfront with rfl | ⟨dir, rfl⟩
    · exact ⟨rfl, rfl⟩
    · exact ⟨List.rdropWhile_concat_neg _ _ _ (by simp), List.rtakeWhile_concat_neg _ _ _ (by simp)⟩
  | append_singleton base b ih =>
    simp only [List.mem_append, List.mem_singleton, not_or] at hbase
    obtain ⟨hdrop, htake⟩ := ih hbase.1
    have hb : decide (b ≠ slash) = true := decide_eq_true (Ne.symm hbase.2)
    rw [← List.append_assoc, lastName]
    constructor
    · refine (List.rdropWhile_concat_pos _ _ _ ?_).trans hdrop
      exact hb
    · refine (List.rtakeWhile_concat_pos _ _ _ ?_).trans (congrArg (· ++ [b]) htake)
      exact hb

theorem not_mem_lastName (path : Bytes) : slash ∉ lastName path := fun h => by
  have := List.mem_rtakeWhile_imp h
  simp at this

theorem exists_front (path : Bytes) : ∃ front, IsFront front ∧ path = front ++ lastName path := by
  induction path using List.reverseRecOn with
  | nil => exact ⟨[], Or.inl rfl, rfl⟩
  | append_singleton path b ih =>
    by_cases hb : b = slash
    · subst hb
      refine ⟨path ++ [slash], Or.inr ⟨path, rfl⟩, ?_⟩
      rw [lastName, List.rtakeWhile_concat_neg _ _ _ (by simp), List.append_nil]
    · obtain ⟨front, hfront, hpath⟩ := ih
      refine ⟨front, hfront, ?_⟩
      rw [lastName, List.rtakeWhile_concat_pos _ _ _ (by simpa using hb), ← List.append_assoc]
      exact congrArg (· ++ [b]) hpath

theorem components_append_slash (dir base : Bytes) :
    components (dir ++ slash :: base) = components dir ++ components base := by
  rw [components, List.splitOn_append_cons_self, List.filter_append]
  rfl

/-- The name of nothing but the directory itself. -/
def IsSelf (name : Bytes) : Prop := name = [] ∨ name = chars "."

instance (name : Bytes) : Decidable (IsSelf name) := inferInstanceAs (Decidable (_ ∨ _))

theorem components_of_not_mem (hbase : slash ∉ base) :
    components base = if IsSelf base then [] else [base] := by
  rw [components, List.splitOn_eq_singleton hbase]
  split_ifs with h
  · rcases h with rfl | rfl
    · rfl
    · decide
  · obtain ⟨hnil, hdot⟩ := not_or.mp h
    simp [hnil, hdot]

/-- The names on the front of a path, and what is behind them. -/
theorem components_front (hfront : IsFront front) (base : Bytes) :
    components (front ++ base) = components front ++ components base := by
  rcases hfront with rfl | ⟨dir, rfl⟩
  · rw [List.nil_append]
    rfl
  · have hself : components [] = [] := rfl
    rw [List.append_assoc, List.singleton_append, components_append_slash,
      components_append_slash, hself, List.append_nil]

/-- What a numbered file is called in its directory is a name. -/
theorem not_isSelf_padded {rest : Bytes} : ¬IsSelf (base ++ (padded 6 n ++ rest)) := by
  obtain ⟨d, ds, hd, hdigit⟩ := exists_padded (n := n)
  rw [hd]
  rintro (h | h)
  · simp at h
  · have hmem : d ∈ base ++ (d :: ds ++ rest) := by simp
    rw [h] at hmem
    obtain rfl : d = 46 := by simpa [chars] using hmem
    exact absurd hdigit (by decide)

/-- What a manifest is called in its directory. -/
def manifestName (n : ℕ) : Bytes := chars "MANIFEST-" ++ padded 6 n

theorem descriptorFileName_eq : descriptorFileName dbname n = dbname ++ slash :: manifestName n :=
  rfl

/-- Digits are neither zero bytes nor slashes. -/
theorem not_mem_padded {b : UInt8} (hb : isDigit b = false) : b ∉ padded 6 n := fun h => by
  rw [isDigit_of_mem_padded h] at hb
  exact Bool.noConfusion hb

theorem not_mem_manifestName {b : UInt8} (hb : isDigit b = false) (hb' : b ∉ chars "MANIFEST-") :
    b ∉ manifestName n := by
  rw [manifestName, List.mem_append, not_or]
  exact ⟨hb', not_mem_padded hb⟩

/-- The names of the other kinds go on where the name of the database ends. -/
theorem fileName_eq_append (hk : k ≠ .descriptor) :
    ∃ rest, k.fileName dbname n = dbname ++ (padded 6 n ++ rest) ∧ slash ∉ rest ∧ 0 ∉ rest := by
  refine ⟨chars "." ++ chars k.suffix, ?_, ?_, ?_⟩
  · rw [Kind.fileName_eq hk, makeFileName, List.append_assoc]
  · cases k <;> decide
  · cases k <;> decide

/-- **Where the numbered files lie**: the manifests in the directory of the database, and the
others only where the path of the database ends in the directory itself. -/
theorem inDirectory_fileName :
    InDirectory dbname (k.fileName dbname n) ↔
      dbname ≠ [] ∧ (k = .descriptor ∨ IsSelf (lastName dbname)) := by
  by_cases hnil : dbname = []
  · exact iff_of_false (fun h => h.1 (by rw [resolve, if_pos hnil])) fun h => h.1 hnil
  have hhead : ∀ rest, (dbname ++ rest).head? = dbname.head? := fun rest => by
    cases dbname with
    | nil => exact absurd rfl hnil
    | cons b bs => rfl
  have hplace : ∀ rest, InDirectory dbname (dbname ++ rest) ↔
      (components (dbname ++ rest)).dropLast = components dbname := fun rest => by
    rw [InDirectory, resolve, resolve, if_neg hnil, if_neg (by simp [hnil]), hhead]
    simp [Place.parent]
  rw [and_iff_right hnil]
  by_cases hk : k = .descriptor
  · subst hk
    rw [Kind.fileName, descriptorFileName_eq, hplace, components_append_slash,
      components_of_not_mem (not_mem_manifestName (by decide) (by decide)), if_neg]
    · exact iff_of_true (List.dropLast_concat) (Or.inl rfl)
    · have hname := @not_isSelf_padded (chars "MANIFEST-") n []
      rwa [List.append_nil] at hname
  · obtain ⟨rest, hname, hslash, -⟩ := @fileName_eq_append dbname k n hk
    obtain ⟨front, hfront, hpath⟩ := exists_front dbname
    have hbase : slash ∉ lastName dbname ++ (padded 6 n ++ rest) := by
      simp only [List.mem_append, not_or]
      exact ⟨not_mem_lastName dbname, not_mem_padded (by decide), hslash⟩
    -- the last name of the database is a part of the name of the file
    have hfile : components (dbname ++ (padded 6 n ++ rest)) =
        components front ++ [lastName dbname ++ (padded 6 n ++ rest)] := by
      conv_lhs => rw [hpath]
      rw [List.append_assoc, components_front hfront, components_of_not_mem hbase,
        if_neg not_isSelf_padded]
    have hself : components dbname = components front ++ components (lastName dbname) := by
      conv_lhs => rw [hpath]
      rw [components_front hfront]
    rw [hname, hplace, hfile, hself, List.dropLast_concat, or_iff_right hk,
      components_of_not_mem (not_mem_lastName dbname)]
    split_ifs with h
    · simp [h]
    · simp [h]

/-! ### What a `Sync` covers -/

theorem cString_eq_self {path : Bytes} (h : 0 ∉ path) : cString path = path :=
  List.takeWhile_eq_self_iff.mpr fun _ hb => decide_eq_true fun h0 => h (h0 ▸ hb)

/-- **The `Sync` of a manifest** syncs the directory that the database is named after. -/
theorem syncDirIfManifest_descriptor (h0 : 0 ∉ dbname) :
    (syncDirIfManifest (descriptorFileName dbname n) o).2 =
      if 0 ≤ o.dirFd ∧ 0 ≤ o.dirSync then some dbname else none := by
  have hzero : 0 ∉ descriptorFileName dbname n := by
    rw [descriptorFileName_eq, List.mem_append, List.mem_cons, not_or, not_or]
    exact ⟨h0, by decide, not_mem_manifestName (by decide) (by decide)⟩
  have hname : descriptorFileName dbname n = dbname ++ [slash] ++ manifestName n := by
    rw [descriptorFileName_eq, List.append_assoc, List.singleton_append]
  have hslash : slash ∉ manifestName n := not_mem_manifestName (by decide) (by decide)
  obtain ⟨hfront, hbase⟩ := cut_path (Or.inr ⟨dbname, rfl⟩ : IsFront (dbname ++ [slash])) hslash
  have hpre : (chars "MANIFEST").isPrefixOf (manifestName n) = true :=
    List.isPrefixOf_iff_prefix.mpr ⟨chars "-" ++ padded 6 n, rfl⟩
  rw [syncDirIfManifest, cString_eq_self hzero, hname]
  rw [lastName] at hbase
  simp only [hfront, hbase, List.isEmpty_iff, List.append_eq_nil_iff, List.cons_ne_nil, and_false,
    if_false, hpre, if_true, List.dropLast_concat]
  by_cases hfd : o.dirFd < 0
  · rw [if_pos hfd, if_neg (by omega)]
  · rw [if_neg hfd]
    by_cases hsync : o.dirSync < 0
    · rw [if_pos hsync, if_neg (by omega)]
    · rw [if_neg hsync, if_pos (by omega)]

/-- A word without digits opens a name where it opens what is in front of the number. -/
theorem prefix_of_prefix_padded {word rest : Bytes}
    (hword : word.all (fun b => !isDigit b) = true)
    (h : word <+: base ++ (padded 6 n ++ rest)) : word <+: base := by
  rcases le_or_gt word.length base.length with hle | hlt
  · exact List.prefix_of_prefix_length_le h (List.prefix_append _ _) hle
  · obtain ⟨d, ds, hd, hdigit⟩ := exists_padded (n := n)
    have hdpre : base ++ [d] <+: base ++ (padded 6 n ++ rest) := by
      rw [hd]
      exact ⟨ds ++ rest, by simp⟩
    have hmem : base ++ [d] <+: word :=
      List.prefix_of_prefix_length_le hdpre h (by rw [List.length_append]; exact hlt)
    have hno := List.all_eq_true.mp hword d (hmem.subset (by simp))
    rw [hdigit] at hno
    exact Bool.noConfusion hno

/-- **The `Sync` of another file** syncs no directory, unless the database is named like a
manifest. -/
theorem syncDirIfManifest_other (h0 : 0 ∉ dbname) (hk : k ≠ .descriptor)
    (hpre : ¬chars "MANIFEST" <+: lastName dbname) :
    (syncDirIfManifest (k.fileName dbname n) o).2 = none := by
  obtain ⟨rest, hname, hslash, hzero⟩ := @fileName_eq_append dbname k n hk
  obtain ⟨front, hfront, hpath⟩ := exists_front dbname
  have hzero : 0 ∉ dbname ++ (padded 6 n ++ rest) := by
    simp only [List.mem_append, not_or]
    exact ⟨h0, not_mem_padded (by decide), hzero⟩
  have hbase : slash ∉ lastName dbname ++ (padded 6 n ++ rest) := by
    simp only [List.mem_append, not_or]
    exact ⟨not_mem_lastName dbname, not_mem_padded (by decide), hslash⟩
  have hfile : dbname ++ (padded 6 n ++ rest) =
      front ++ (lastName dbname ++ (padded 6 n ++ rest)) := by
    conv_lhs => rw [hpath]
    rw [List.append_assoc]
  have hno : (chars "MANIFEST").isPrefixOf (lastName dbname ++ (padded 6 n ++ rest)) = false := by
    refine Bool.eq_false_iff.mpr fun h => hpre ?_
    exact prefix_of_prefix_padded (by decide) (List.isPrefixOf_iff_prefix.mp h)
  obtain ⟨hdrop, htake⟩ := cut_path hfront hbase
  rw [syncDirIfManifest, hname, cString_eq_self hzero, hfile]
  rw [lastName] at htake
  simp only [hdrop, htake]
  rcases hfront with rfl | ⟨dir, rfl⟩
  · simp only [List.isEmpty_nil, if_true, List.nil_append, hno, Bool.false_eq_true, if_false]
  · simp only [List.isEmpty_iff, List.append_eq_nil_iff, List.cons_ne_nil, and_false, if_false, hno,
      Bool.false_eq_true]

/-- **Which names of numbered files survive**: those of manifests, and the others only where
the path of the database ends in the directory itself; and of these, the ones that were
created before a manifest was synced, and its directory with it. A database whose own name
begins with `MANIFEST` is left out: all of its files would pass for manifests. -/
theorem durable_fileName_iff (h0 : 0 ∉ dbname) (hpre : ¬chars "MANIFEST" <+: lastName dbname)
    {as : List NameAction} (hown : ∀ a ∈ as, ∃ k n, a.fname = Kind.fileName k dbname n) :
    k.fileName dbname n ∈ (Names.run as).durable ↔
      (dbname ≠ [] ∧ (k = .descriptor ∨ IsSelf (lastName dbname))) ∧
        ∃ n' o, [.create (k.fileName dbname n), .sync (descriptorFileName dbname n') o].Sublist as ∧
          0 ≤ o.dirFd ∧ 0 ≤ o.dirSync := by
  rw [Names.mem_durable_run, ← inDirectory_fileName (n := n)]
  constructor
  · rintro ⟨name, o, dir, hsub, hdir, hin⟩
    obtain ⟨k', n', hname⟩ := hown _ (hsub.subset (List.mem_cons_of_mem _ List.mem_cons_self))
    obtain rfl : name = k'.fileName dbname n' := hname
    obtain rfl : k' = .descriptor := by
      by_contra hk
      rw [syncDirIfManifest_other h0 hk hpre] at hdir
      simp at hdir
    rw [Kind.fileName, syncDirIfManifest_descriptor h0] at hdir
    split_ifs at hdir with hok
    obtain rfl := Option.some.inj hdir
    exact ⟨hin, n', o, hsub, hok⟩
  · rintro ⟨hin, n', o, hsub, hok⟩
    exact ⟨_, o, dbname, hsub, by rw [syncDirIfManifest_descriptor h0, if_pos hok], hin⟩

/-- A table and a manifest of the database `db`, and then the `Sync` of the manifest: its own
name survives, and that of the table does not. -/
theorem durable_fileName_iff_twoFiles :
    descriptorFileName (chars "db") 2 ∈ (Names.run [.create (tableFileName (chars "db") 1),
        .create (descriptorFileName (chars "db") 2),
        .sync (descriptorFileName (chars "db") 2) {}]).durable ∧
      tableFileName (chars "db") 1 ∉ (Names.run [.create (tableFileName (chars "db") 1),
        .create (descriptorFileName (chars "db") 2),
        .sync (descriptorFileName (chars "db") 2) {}]).durable := by
  have hown : ∀ a ∈ [NameAction.create (tableFileName (chars "db") 1),
      .create (descriptorFileName (chars "db") 2), .sync (descriptorFileName (chars "db") 2) {}],
      ∃ k n, a.fname = Kind.fileName k (chars "db") n := by
    simp only [List.forall_mem_cons]
    exact ⟨⟨.table, 1, rfl⟩, ⟨.descriptor, 2, rfl⟩, ⟨.descriptor, 2, rfl⟩, by simp⟩
  have hpre : ¬chars "MANIFEST" <+: lastName (chars "db") := by decide
  constructor
  · refine (@durable_fileName_iff (chars "db") .descriptor 2 (by decide) hpre _ hown).mpr ?_
    exact ⟨⟨by decide, Or.inl rfl⟩, 2, {}, List.Sublist.cons _ (List.Sublist.refl _), by decide⟩
  · intro h
    have hlies := (@durable_fileName_iff (chars "db") .table 1 (by decide) hpre _ hown).mp h
    exact absurd hlies.1.2 (by decide)

end

end LevelDb.Posix
