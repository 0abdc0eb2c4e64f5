import LevelDb.Open.CurrentLog
import LevelDb.Open.Settled
import LevelDb.WriteBatch.Meaning

/-!
# What a database reads once it is open

A database object reads its memtables and the live tables of its version set. After a
successful open that is exactly what was recoverable from the disk
(`LevelDb.dbOpen_reads_iff`): the tables that recovery has written are in the version set by
then, and the memtable has what was in a log that was taken over.

What is recoverable is a set of entries; what it means is a map. Where the batches in the
logs are numbered one behind the other, opening makes their operations in that order on the
map that the tables held before (`LevelDb.dbOpen_denotes`). A table may hold entries of the
logs already, as it does where an earlier open was stopped behind its commit.
-/

namespace LevelDb

open CrashLogic Versioned

/-- **The database object reads the entry**: it is in a memtable, or in a live table of the
version set. -/
def World.Reads (X : Externals) (t : World) (e : Entry) : Prop :=
  e ∈ t.impl.mem.getD [] ∨ e ∈ t.impl.imm.getD [] ∨
    ∃ n ∈ t.impl.versions.live, t.disk.Has X.logging .kTableFile n ∧ e ∈ t.disk.table n

section

variable {c : Context} {A : LowerSet World} {w t u : World} {d : Disk} {L : Logging}
  {X : Externals} {e : Entry} {m : Manifest} {v : VersionSet} {edit : VersionEdit} {s : Status}
  {p : Progress} {files : List (ℕ × FileMetaData)} {steps : List Step} {mem : MemTable}

/-! ### What opening restores -/

/-- **The logs were restored**: their entries are in these files and in the memtable, and
the tables that were live before are as they were. -/
structure Restored (X : Externals) (d : Disk) (m : Manifest) (files : List (ℕ × FileMetaData))
    (t : World) : Prop where
  imm : t.impl.imm = none
  old : ∀ n ∈ m.live, (t.disk.Has X.logging .kTableFile n ↔ d.Has X.logging .kTableFile n) ∧
    t.disk.table n = d.table n
  has : ∀ f ∈ files, t.disk.Has X.logging .kTableFile f.2.number
  entries : ∀ e, e ∈ t.disk.contents files ++ t.impl.mem.getD [] ↔
    ∃ n, m.Selects n ∧ d.Has X.logging .kLogFile n ∧ e ∈ d.logEntries X.coding n

/-- The tables of the version set were live before, or hold what was restored. -/
def Restored.Live (m : Manifest) (files : List (ℕ × FileMetaData)) (t : World) : Prop :=
  t.impl.versions.live = m.live ++ files.map fun f => f.2.number

/-- What spares the tables, and the memtables. -/
theorem Restored.next (h : Restored X d m files t)
    (hmem : u.impl.mem.getD [] = t.impl.mem.getD []) (himm : u.impl.imm = t.impl.imm)
    (htable : ∀ n ∈ m.live ++ files.map fun f => f.2.number,
      (u.disk.Has X.logging .kTableFile n ↔ t.disk.Has X.logging .kTableFile n) ∧
        u.disk.table n = t.disk.table n) : Restored X d m files u where
  imm := himm.trans h.imm
  old n hn := by
    obtain ⟨hhas, htab⟩ := htable n (List.mem_append_left _ hn)
    obtain ⟨hhas', htab'⟩ := h.old n hn
    exact ⟨hhas.trans hhas', htab.trans htab'⟩
  has f hf :=
    (htable _ (List.mem_append_right _ (List.mem_map.mpr ⟨f, hf, rfl⟩))).1.mpr (h.has f hf)
  entries e := by
    have hcontents : u.disk.contents files = t.disk.contents files :=
      List.flatMap_congr fun f hf =>
        (htable _ (List.mem_append_right _ (List.mem_map.mpr ⟨f, hf, rfl⟩))).2
    rw [hcontents, hmem, h.entries]

/-- What was restored is read, and nothing else but the old tables. -/
theorem Restored.reads_iff (h : Restored X d m files t) (hlive : Restored.Live m files t)
    (hm : d.manifest = some m) : t.Reads X e ↔ Recoverable X d e := by
  have hlogs := h.entries e
  rw [List.mem_append] at hlogs
  constructor
  · rintro (he | he | ⟨n, hn, hhas, he⟩)
    · exact ⟨m, hm, Or.inr (hlogs.mp (Or.inr he))⟩
    · rw [h.imm] at he
      exact absurd he List.not_mem_nil
    · rw [hlive] at hn
      rcases List.mem_append.mp hn with hn | hn
      · obtain ⟨hhas', htab⟩ := h.old n hn
        exact ⟨m, hm, Or.inl ⟨n, hn, hhas'.mp hhas, htab ▸ he⟩⟩
      · obtain ⟨f, hf, rfl⟩ := List.mem_map.mp hn
        exact ⟨m, hm, Or.inr (hlogs.mp (Or.inl (List.mem_flatMap.mpr ⟨f, hf, he⟩)))⟩
  · rintro ⟨m', hm', he⟩
    obtain rfl : m = m' := Option.some.inj (hm.symm.trans hm')
    rcases he with ⟨n, hn, hhas, he⟩ | he
    · obtain ⟨hhas', htab⟩ := h.old n hn
      refine Or.inr (Or.inr ⟨n, ?_, hhas'.mpr hhas, htab ▸ he⟩)
      rw [hlive]
      exact List.mem_append_left _ hn
    · rcases hlogs.mpr he with he | he
      · obtain ⟨f, hf, he⟩ := List.mem_flatMap.mp he
        refine Or.inr (Or.inr ⟨f.2.number, ?_, h.has f hf, he⟩)
        rw [hlive]
        exact List.mem_append_right _ (List.mem_map.mpr ⟨f, hf, rfl⟩)
      · exact Or.inl he

/-- **Recovery restores the logs.** -/
theorem Recovery.restored
    (h : Recovery c (openRely c.X.logging d) (.initial d) {} t p m v steps mem)
    (hframe : Frame c.X.logging (.initial d) t) (ht : t ∈ openRely c.X.logging d) :
    Restored c.X d m p.edit.newFiles t ∧ (p.saveManifest = false → p.edit.newFiles = []) := by
  obtain ⟨save, hlogs⟩ := h.logs
  obtain ⟨files, hfiles, -, hsave, hperm⟩ := hlogs.replays.received
  obtain ⟨hhas, hperm⟩ := hperm distinct_openRely
  have hedit : p.edit.newFiles = files := by
    rw [hfiles]
    rfl
  have hsteps := steps_eq_of_opened hlogs.segments fun n hn =>
    ht.2.2 n (by rw [hlogs.replays.trail]; exact List.mem_append_right _ hn)
  rw [hedit]
  refine ⟨⟨?_, fun n hn => ?_, hhas, fun e => ?_⟩, fun hp => ?_⟩
  · rcases hlogs.ending with ⟨hs, -⟩ | ⟨_, _, _, _, _, _, _, hh, -⟩
    · obtain ⟨_, hi⟩ := hs.impl
      rw [hi]
      rfl
    · obtain ⟨_, _, hi⟩ := hh.impl
      rw [hi]
      rfl
  · have hold : n ∉ newly (.initial d) t := fun hnew =>
      (ht.2.1 n (mem_taken_of_newly hframe.le hnew)).2 m h.manifest hn
    exact ⟨hframe.off.has _ n fun _ => hold, hframe.off.table n hold⟩
  · rw [hlogs.mem_final rfl, hperm.mem_iff, List.nil_append, hsteps,
      insertedRecords_flatMap_segment, recordEntries, List.flatMap_assoc, List.mem_flatMap]
    constructor
    · rintro ⟨n, hn, he⟩
      obtain ⟨hhas, hsel⟩ := mem_sortedLogs.mp hn
      exact ⟨n, hsel, hhas, he⟩
    · rintro ⟨n, hsel, hhas, he⟩
      exact ⟨n, mem_sortedLogs.mpr ⟨hhas, hsel⟩, he⟩
  · by_contra hne
    rw [hsave hne] at hp
    exact Bool.noConfusion hp

/-- Creating the log leaves the memtable empty where it was. -/
theorem Restored.createLog {S : Set ℕ} (h : Restored X d m files t)
    (hsp : t.disk.Spares X.logging (OtherLogs S) u.disk)
    (hcases : (t.impl.mem.isSome ∧ u = t ∧ edit = p.edit) ∨
      (t.impl.mem = none ∧ ∃ n, edit = p.edit.setLogNumber n ∧ CreatedLog X.logging t u n)) :
    Restored X d m files u ∧ u.impl.versions = t.impl.versions ∧
      edit.newFiles = p.edit.newFiles := by
  have htable : ∀ n ∈ m.live ++ files.map fun f => f.2.number,
      (u.disk.Has X.logging .kTableFile n ↔ t.disk.Has X.logging .kTableFile n) ∧
        u.disk.table n = t.disk.table n := fun n _ =>
    ⟨hsp.has _ n fun h => FileType.noConfusion h, hsp.table n fun h => FileType.noConfusion h⟩
  rcases hcases with ⟨-, rfl, rfl⟩ | ⟨hmem, n, rfl, hlog⟩
  · exact ⟨h, rfl, rfl⟩
  · refine ⟨h.next ?_ ?_ htable, ?_, rfl⟩
    · rw [hlog.impl, hmem]
      rfl
    · rw [hlog.impl]
    · rw [hlog.impl]

/-- A commit of the restored files. -/
theorem Restored.saved {n k : ℕ} {m' : Manifest} (h : Restored X d m edit.newFiles t)
    (hlive : t.impl.versions.live = m.live)
    (hs : Saved m' ((edit.setPrevLogNumber k).setLogNumber n) t u) :
    Restored X d m edit.newFiles u ∧ Restored.Live m edit.newFiles u := by
  refine ⟨h.next ?_ ?_ fun n _ => ?_, ?_⟩
  · rw [hs.impl]
  · rw [hs.impl]
  · rw [hs.disk]
    exact ⟨⟨Disk.has_table_of_committed, Disk.has_committed⟩, rfl⟩
  · rw [Restored.Live, hs.impl, ← hlive]
    rfl

/-- The deletion of obsolete files spares the tables of the version set. -/
theorem Restored.collected {pending : List ℕ} (h : Restored X d m files t)
    (hlive : Restored.Live m files t)
    (hcol : Collected X.logging t.impl.versions (pending ++ t.impl.versions.live) t w)
    (hidle : Idle w u) (himpl : ∃ b, u.impl = { t.impl with bgCompactionScheduled := b }) :
    Restored X d m files u ∧ Restored.Live m files u := by
  obtain ⟨b, hi⟩ := himpl
  refine ⟨h.next (by rw [hi]) (by rw [hi]) fun n hn => ?_, by rw [Restored.Live, hi]; exact hlive⟩
  have hkept : Kept t.impl.versions (pending ++ t.impl.versions.live) .kTableFile n := by
    rw [Kept, keep, decide_eq_true_eq, hlive]
    exact List.mem_append_right _ hn
  rw [hidle.disk]
  exact ⟨hcol.spares.has _ n hkept, hcol.spares.table n hkept⟩

/-- **A successful open** restores the logs, and makes the restored tables live. -/
theorem dbOpen_restores (hX : c.X.Lawful) (hm : d.manifest = some m) :
    Sat (openRely c.X.logging d) (dbOpen c) (.initial d) (fun _ => True) fun s t => s.isOk →
      ∃ files, Restored c.X d m files t ∧ Restored.Live m files t := by
  have hsome : (World.initial d).disk.manifest.isSome := by
    rw [show (World.initial d).disk.manifest = some m from hm]
    rfl
  rw [dbOpen]
  refine (recover_sat hX).andThen ?_
  rintro ⟨s, p⟩ t - ht ⟨hframe, hrec⟩
  replace hframe := hframe hsome
  refine (createLog_sat hX.logging).andThen ?_
  rintro ⟨s₁, edit⟩ u - - ⟨-, hsp, -, -, hok⟩
  have hmu : u.disk.manifest = some m := hsp.manifest.trans (hframe.off.manifest.trans hm)
  have hrestored : s₁.isOk → Restored c.X d m edit.newFiles u ∧
      u.impl.versions.live = m.live ∧
      (p.saveManifest = false → edit.newFiles = [] ∧ Agrees u.impl.versions m) := by
    intro hs₁
    obtain ⟨hs, hcases⟩ := hok hs₁
    obtain ⟨m', v, steps, mem, hrec⟩ := hrec hs
    obtain rfl : m = m' := Option.some.inj (hm.symm.trans hrec.manifest)
    obtain ⟨hres, hsave⟩ := hrec.restored hframe ht
    obtain ⟨hres, hversions, hedit⟩ := hres.createLog hsp hcases
    rw [hversions, hrec.versions, hedit]
    exact ⟨hres, hrec.live, fun hp => ⟨hsave hp, hrec.agrees hp⟩⟩
  refine (saveManifest_sat fun _ => ⟨m, hmu⟩).andThen fun s₂ u' _ _ hsaved => ?_
  have hlive : s₂.isOk → Restored c.X d m edit.newFiles u' ∧ Restored.Live m edit.newFiles u' := by
    intro hs₂
    obtain ⟨hs₁, hsaved⟩ := hsaved hs₂
    obtain ⟨hres, hlive, hnone⟩ := hrestored hs₁
    rcases hsaved with ⟨hsave, rfl⟩ | ⟨m₀, -, hsaved⟩
    · refine ⟨hres, ?_⟩
      rw [Restored.Live, hlive, (hnone hsave).1]
      exact (List.append_nil _).symm
    · exact hres.saved hlive hsaved
  refine (finishOpen_sat fun hs₂ m' hm' => ?_).mono (fun _ _ _ _ => trivial) ?_
  · obtain ⟨hs₁, hsaved⟩ := hsaved hs₂
    obtain ⟨-, -, hnone⟩ := hrestored hs₁
    rcases hsaved with ⟨hsave, rfl⟩ | ⟨m₀, -, hsaved⟩
    · obtain rfl : m = m' := Option.some.inj (hmu.symm.trans hm')
      exact (hnone hsave).2.manifestFileNumber.le
    · rw [hsaved.disk] at hm'
      obtain rfl := Option.some.inj hm'
      rw [hsaved.impl]
      exact le_rfl
  · intro s₃ t' _ _ hfin hs₃
    obtain ⟨hs₂, u'', hcol, hidle, himpl, -⟩ := hfin hs₃
    obtain ⟨hres, hlive⟩ := hlive hs₂
    exact ⟨_, hres.collected hlive hcol hidle himpl⟩

/-- **A database that was opened reads exactly what was recoverable**, where there was a
manifest, every selected log opened and the file numbers were new. -/
theorem dbOpen_reads_iff (hX : c.X.Lawful) (hm : d.manifest.isSome)
    (hfinal : ((dbOpen c).run (.initial d)).final = t)
    (hok : ((dbOpen c).run (.initial d)).result = some s) (hs : s.isOk)
    (hrely : t ∈ openRely c.X.logging d) : t.Reads c.X e ↔ Recoverable c.X d e := by
  subst hfinal
  obtain ⟨m, hm⟩ := Option.isSome_iff_exists.mp hm
  obtain ⟨files, hres, hlive⟩ := (dbOpen_restores hX hm).result hok hrely hs
  exact hres.reads_iff hlive hm

/-- The sample database, once it is open, reads what was recoverable. -/
theorem dbOpen_reads_iff_oneLog :
    opened.Reads documented ⟨7, .kTypeValue, [97], [98]⟩ ↔
      Recoverable documented (oneLog [WriteBatch.putAB.rep]) ⟨7, .kTypeValue, [97], [98]⟩ :=
  dbOpen_reads_iff (c := healthy {}) (s := .ok) documented_lawful rfl rfl rfl rfl
    opened_mem_openRely

/-! ### What it means -/

/-- The batch that a record of a log is. -/
def recordBatch (C : Coding) (record : Bytes) : Batch Bytes Bytes :=
  ((WriteBatchInternal.sequence C ⟨record⟩).toNat,
    ((⟨record⟩ : WriteBatch).delivered C).map Op.write)

/-- The batches in the logs that the manifest selects, in the order of recovery. -/
def Disk.journal (X : Externals) (d : Disk) (m : Manifest) : List (Batch Bytes Bytes) :=
  ((sortedLogs X.logging m.logNumber m.prevLogNumber d.children).flatMap fun n =>
    longRecords (d.log n)).map (recordBatch X.coding)

/-- The numbers of a batch do not wrap around. -/
def NoWrap (b : Batch Bytes Bytes) : Prop := b.1 + b.2.length ≤ 2 ^ 64

/-- The entries of records are the versions of their batches. -/
theorem map_version_recordEntries {C : Coding} {records : List Bytes}
    (hfit : ∀ r ∈ records, NoWrap (recordBatch C r)) :
    (recordEntries C records).map Entry.version =
      Versioned.journal (records.map (recordBatch C)) := by
  rw [recordEntries, List.map_flatMap, Versioned.journal, List.flatMap_map]
  refine List.flatMap_congr fun r hr => map_version_stamp ?_
  have h := hfit r hr
  rw [NoWrap, recordBatch, List.length_map] at h
  exact h

/-- The versions in the selected logs are those of the journal. -/
theorem Disk.mem_journal (hfit : ∀ b ∈ d.journal X m, NoWrap b) {v : Version Bytes Bytes} :
    v ∈ Versioned.journal (d.journal X m) ↔
      ∃ e, (∃ n, m.Selects n ∧ d.Has X.logging .kLogFile n ∧ e ∈ d.logEntries X.coding n) ∧
        e.version = v := by
  rw [journal, ← map_version_recordEntries fun r hr => hfit _ (List.mem_map.mpr ⟨r, hr, rfl⟩),
    recordEntries, List.flatMap_assoc, List.mem_map]
  refine exists_congr fun e => and_congr_left' ?_
  rw [List.mem_flatMap]
  constructor
  · rintro ⟨n, hn, he⟩
    obtain ⟨hhas, hsel⟩ := mem_sortedLogs.mp hn
    exact ⟨n, hsel, hhas, he⟩
  · rintro ⟨n, hsel, hhas, he⟩
    exact ⟨n, mem_sortedLogs.mpr ⟨hhas, hsel⟩, he⟩

/-- What is recoverable, as versions: the live tables, and the journal. -/
theorem versions_recoverable (hm : d.manifest = some m)
    (hfit : ∀ b ∈ d.journal X m, NoWrap b) :
    versions {e | Recoverable X d e} =
      versions {e | d.InLiveTable X.logging e} ∪ {v | v ∈ Versioned.journal (d.journal X m)} := by
  ext v
  rw [Set.mem_union, Set.mem_ofPred_eq, Disk.mem_journal hfit]
  constructor
  · rintro ⟨e, ⟨m', hm', he⟩, rfl⟩
    obtain rfl : m = m' := Option.some.inj (hm.symm.trans hm')
    rcases he with he | he
    · exact Or.inl ⟨e, ⟨m, hm, he⟩, rfl⟩
    · exact Or.inr ⟨e, he, rfl⟩
  · rintro (⟨e, he, rfl⟩ | ⟨e, he, rfl⟩)
    · exact ⟨e, he.recoverable, rfl⟩
    · exact ⟨e, ⟨m, hm, Or.inr he⟩, rfl⟩

/-- **Opening a database makes the operations in its logs**, in their order, on the map that
its tables held before; this relies on what `dbOpen_reads_iff` relies on, and on batches
whose numbers follow each other and do not wrap around. -/
theorem dbOpen_denotes (hX : c.X.Lawful) (hm : d.manifest = some m)
    (hfinal : ((dbOpen c).run (.initial d)).final = t)
    (hok : ((dbOpen c).run (.initial d)).result = some s) (hs : s.isOk)
    (hrely : t ∈ openRely c.X.logging d) {n : ℕ} {held : Bytes → Option Bytes}
    (hheld : Denotes (asOf (versions {e | d.InLiveTable c.X.logging e}) n) held)
    (horder : Ordered n (d.journal c.X m)) (hfit : ∀ b ∈ d.journal c.X m, NoWrap b)
    (hagain : ∀ v ∈ versions {e | d.InLiveTable c.X.logging e}, n ≤ v.number →
      v ∈ Versioned.journal (d.journal c.X m)) :
    Denotes (versions {e | t.Reads c.X e})
      (((d.journal c.X m).flatMap Prod.snd).foldl put held) := by
  subst hfinal
  obtain ⟨files, hres, hlive⟩ := (dbOpen_restores hX hm).result hok hrely hs
  have hread : versions {e | ((dbOpen c).run (.initial d)).final.Reads c.X e} =
      versions {e | Recoverable c.X d e} :=
    congrArg versions (Set.ext fun e => hres.reads_iff hlive hm)
  rw [hread, versions_recoverable hm hfit]
  exact hheld.replay horder hagain

/-- The sample database, once it is open, has a value under one key. -/
theorem dbOpen_denotes_oneLog :
    Denotes (versions {e | opened.Reads documented e})
      (Function.update (fun _ => none) [97] (some [98])) := by
  have hnone : versions {e | (oneLog [WriteBatch.putAB.rep]).InLiveTable leveldbLogging e} = ∅ := by
    refine Set.eq_empty_of_forall_notMem ?_
    rintro _ ⟨e, ⟨m, hm, n, hn, -⟩, -⟩
    obtain rfl : ⟨1, 0, 0, 0, []⟩ = m := Option.some.inj hm
    exact absurd hn List.not_mem_nil
  have hheld : Denotes (asOf (versions
      {e | (oneLog [WriteBatch.putAB.rep]).InLiveTable leveldbLogging e}) 0) fun _ => none := by
    rw [hnone, asOf_eq_self fun v hv => absurd hv (Set.notMem_empty v)]
    exact denotes_empty
  have hjournal : (oneLog [WriteBatch.putAB.rep]).journal documented ⟨1, 0, 0, 0, []⟩ =
      [(7, [([97], some [98])])] := by decide
  have hden := dbOpen_denotes (c := healthy {}) (s := .ok) documented_lawful rfl rfl rfl rfl
    opened_mem_openRely hheld ?_ ?_ ?_
  · rw [show (healthy {}).X = documented from rfl, hjournal] at hden
    exact hden
  · rw [show (healthy {}).X = documented from rfl, hjournal]
    exact ⟨Nat.zero_le _, trivial⟩
  · rw [show (healthy {}).X = documented from rfl, hjournal]
    intro b hb
    obtain rfl := List.mem_singleton.mp hb
    rw [NoWrap]
    decide
  · exact fun v hv => absurd (hnone ▸ hv) (Set.notMem_empty v)

end

end LevelDb
