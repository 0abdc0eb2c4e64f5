import LevelDb.Recover.Recovery
import LevelDb.Recover.Status

/-!
# `paranoid_checks`

With `paranoid_checks` set, a log that is damaged should not be recovered silently: where
`RecoverLogFile` returns OK, no corruption was reported and every batch was accepted.
Without it no damage should make recovery fail (`LevelDb.NeverSilent`).

Errors reach the status by two routes. The one through `InsertInto` is filtered by
`MaybeIgnoreError`, and works. The one through the reporter is not connected:
`LogReporter::Corruption` only logs, although it holds the pointer to the status that is
set up for it where `paranoid_checks` is set. So what is reported gets lost, unless a
batch of the same log is rejected (`LevelDb.neverSilent_iff`).
-/

namespace LevelDb

open CrashLogic WriteBatch

/-! ### The specification -/

/-- The item is no damage by itself: a record that is large enough. -/
def LogItem.Clean : LogItem → Prop
  | .record contents => kHeader ≤ contents.length
  | .corruption _ _ => False

/-- **A damaged log is never recovered silently** where `paranoid_checks` is set, and
never makes recovery fail where it is not, but for a table that could not be written. -/
def NeverSilent (X : Externals) (options : Options) (items : List LogItem) : Prop :=
  ∀ c : Context, c.X = X → c.options = options → ∀ w log, w.disk.log log = items →
    ∀ lastLog p s p', ((recoverLogFile c log lastLog p).run w).result = some (s, p') →
      (options.paranoidChecks = true → s.isOk = true →
        (∀ bytes status a, (Call.reportCorruption log bytes status, a) ∉
          ((recoverLogFile c log lastLog p).run w).final.calls.drop w.calls.length) ∧
        ∀ record, .record record ∈ items → Accepted X.coding ⟨record⟩) ∧
      (options.paranoidChecks = false → s.isOk = false →
        ∃ x ∈ ((recoverLogFile c log lastLog p).run w).final.calls.drop w.calls.length,
          x.1.writesTable = true ∧ x.2.status.isOk = false)

/-! ### Without paranoid checks -/

section

variable {c : Context} {A : LowerSet World} {w t u : World} {log : ℕ} {items : List LogItem}
  {r : Replay} {p : Progress} {lastLog : Bool}

/-- **Without `paranoid_checks`**, only a table that could not be written makes recovery
fail. -/
theorem recoverLogFile_fails (hX : c.X.Lawful)
    (hiter : ∀ mem, (c.X.newIterator mem).status.isOk = true)
    (hp : c.options.paranoidChecks = false) :
    Sat A (recoverLogFile c log lastLog p) w (fun _ => True) fun x t => x.1.isOk = true ∨
      ∃ y ∈ t.calls.drop w.calls.length, y.1.writesTable = true ∧ y.2.status.isOk = false := by
  have hno : c.options.paranoidChecks ≠ true := by simp [hp]
  suffices h : Yields c w fun s t => s.isOk = true ∨
      ∃ y ∈ t.calls.drop w.calls.length, y.1.writesTable = true ∧ y.2.status.isOk = false from
    recoverLogFile_yields hX h le_rfl
  refine { mono := ?_, ok := fun _ => Or.inl rfl, table := ?_
           iterator := fun mem _ => Or.inl (hiter mem)
           opened := fun h => absurd h hno, batch := fun h => absurd h hno }
  · rintro s u v ⟨calls, hcalls⟩ (hok | ⟨y, hy, hw⟩)
    · exact Or.inl hok
    · refine Or.inr ⟨y, ?_, hw⟩
      rw [← hcalls, List.drop_append]
      exact List.mem_append_left _ hy
  · intro u what d hu hwhat
    by_cases hok : (c.env u.calls.length what).status.isOk = true
    · exact Or.inl hok
    · refine Or.inr ⟨(what, c.env u.calls.length what), ?_, hwhat, by simpa using hok⟩
      rw [World.after_calls, List.drop_append_of_le_length hu.length_le]
      exact List.mem_append_right _ (List.mem_singleton.mpr rfl)

/-! ### With paranoid checks -/

/-- The call reports no corruption. -/
def Call.silent : Call → Bool
  | reportCorruption .. => false
  | _ => true

theorem Call.silent_of_ofFlush (what : Call) (h : what.ofFlush = true) : what.silent = true := by
  cases what <;> first | rfl | exact Bool.noConfusion h

/-- Writing out a memtable reports nothing. -/
theorem writeLevel10Table_silent {mem : MemTable} {edit : VersionEdit} {base : Bool} :
    Sat A (writeLevel10Table c mem edit base) w (fun _ => True) fun _ t =>
      MakesOnly Call.silent w t :=
  (writeLevel10Table_yields (P := fun _ _ => True) ⟨fun _ _ => trivial, fun _ => trivial,
    fun _ _ _ _ => trivial, fun _ _ => trivial, fun _ _ _ _ => trivial, fun _ _ _ => trivial⟩
    le_rfl).mono (fun _ _ _ h => h) fun _ _ _ _ h => h.2.mono Call.silent_of_ofFlush

/-- What a stretch of the replay that returns OK says about the records it has gone
through. -/
structure Unharmed (c : Context) (items : List LogItem) (w t : World) : Prop where
  accepted : c.options.paranoidChecks = true → ∀ record, .record record ∈ items →
    kHeader ≤ record.length → Accepted c.X.coding ⟨record⟩
  silent : (∀ item ∈ items, item.Clean) → MakesOnly Call.silent w t

/-- An item is skipped that is not clean. -/
theorem Unharmed.skip {item : LogItem} (hitem : ¬item.Clean) (h : Unharmed c items t u) :
    Unharmed c (item :: items) w u where
  accepted hp record hmem hlen := by
    rcases List.mem_cons.mp hmem with rfl | hmem
    · exact absurd hlen hitem
    · exact h.accepted hp record hmem hlen
  silent hclean := absurd (hclean item List.mem_cons_self) hitem

/-- A record is replayed. -/
theorem Unharmed.replay {record : Bytes}
    (hacc : c.options.paranoidChecks = true → Accepted c.X.coding ⟨record⟩)
    (hwt : MakesOnly Call.silent w t) (h : Unharmed c items t u) :
    Unharmed c (.record record :: items) w u where
  accepted hp record' hmem hlen := by
    rcases List.mem_cons.mp hmem with hrecord | hmem
    · obtain rfl := LogItem.record.inj hrecord
      exact hacc hp
    · exact h.accepted hp record' hmem hlen
  silent hclean :=
    hwt.trans (h.silent fun item hitem => hclean item (List.mem_cons_of_mem _ hitem))

theorem replayRecord_unharmed (hX : c.X.Lawful) {record : Bytes}
    (hlen : kHeader ≤ record.length) :
    Sat A (replayRecord c log record r) w (fun _ => True) fun r' t => r'.status.isOk = true →
      (c.options.paranoidChecks = true → Accepted c.X.coding ⟨record⟩) ∧
        MakesOnly Call.silent w t := by
  have hcontents : WriteBatchInternal.setContents record = .ok ⟨record⟩ := if_pos hlen
  have hinsert := WriteBatchInternal.insertInto_eq hX.coding (b := ⟨record⟩) hlen (r.mem.getD [])
  rw [replayRecord, hcontents]
  simp only [ofExcept, sat_bind, sat_pure, hinsert]
  refine fun _ => sat_call (fun _ => trivial) fun a _ _ => ?_
  have hwt : MakesOnly Call.silent w (w.after (.insertInto log record) a w.disk) :=
    makesOnly_after rfl
  generalize hst : maybeIgnoreError c _ = status
  have haccepted : status.isOk = true → c.options.paranoidChecks = true →
      Accepted c.X.coding ⟨record⟩ := by
    intro hok hp
    rw [← hst, maybeIgnoreError, hp, Bool.or_true, if_pos rfl] at hok
    refine (verdict_split_eq_ok hX.coding hlen).mp ?_
    generalize verdict _ _ _ _ = s at hok ⊢
    cases s with
    | ok => rfl
    | error => exact Bool.noConfusion hok
  by_cases hok : status.isOk = true
  · rw [if_pos hok]
    split_ifs
    -- the memtable has grown too large, and is written out
    · refine writeLevel10Table_silent.seq (fun _ _ _ h => h) ?_
      rintro ⟨s, edit⟩ u - - htu
      exact sat_pure.mpr fun _ _ => ⟨haccepted hok, hwt.trans htu⟩
    · exact sat_pure.mpr fun _ _ => ⟨haccepted hok, hwt⟩
  · rw [if_neg hok]
    exact sat_pure.mpr fun _ h => absurd h hok

theorem replayLoop_unharmed (hX : c.X.Lawful) (items : List LogItem) :
    Sat A (replayLoop c log items r) w (fun _ => True) fun r' t =>
      r'.status.isOk = true → Unharmed c items w t := by
  induction items generalizing w r with
  | nil =>
    exact sat_pure.mpr fun _ _ => ⟨fun _ _ h => absurd h List.not_mem_nil, fun _ => .refl _ w⟩
  | cons item items ih =>
    -- an item that is skipped is not clean
    have hskip : ∀ what : Call, ¬item.Clean →
        Sat A (do let _ ← call c what; replayLoop c log items r) w (fun _ => True)
          fun r' t => r'.status.isOk = true → Unharmed c (item :: items) w t := by
      intro what hitem
      rw [sat_bind]
      exact sat_call (fun _ => trivial) fun a _ =>
        ih.mono (fun _ _ _ h => h) fun _ _ _ _ h hok => (h hok).skip hitem
    cases item with
    | corruption bytes status => exact hskip _ id
    | record record =>
      rw [replayLoop]
      split_ifs with hok hlen
      -- a record below the header size is reported, and skipped
      · refine hskip _ fun hclean => ?_
        rw [LogItem.Clean, kHeader] at hclean
        omega
      · have hle : kHeader ≤ record.length := by simpa [kHeader] using hlen
        refine (replayRecord_unharmed hX hle).seq (fun _ _ _ h => h) fun r₁ t _ _ hrec => ?_
        split_ifs with hok₁
        · obtain ⟨hacc, hwt⟩ := hrec hok₁
          exact ih.mono (fun _ _ _ h => h) fun _ _ _ _ h hok' => (h hok').replay hacc hwt
        · exact sat_pure.mpr fun _ h => absurd h hok₁
      · exact sat_pure.mpr fun _ h => absurd h hok

theorem reuseLog_silent :
    Sat A (reuseLog c log lastLog r) w (fun _ => True) fun _ t => MakesOnly Call.silent w t := by
  rw [reuseLog]
  split_ifs
  · rw [sat_bind, sat_get]
    intro _
    refine Sat.assert (fun _ => trivial) fun _ => ?_
    refine Sat.assert (fun _ => trivial) fun _ => ?_
    refine Sat.assert (fun _ => trivial) fun _ => ?_
    rw [sat_bind]
    refine sat_call (fun _ => trivial) fun a _ => ?_
    have ha : MakesOnly Call.silent w (w.after (.getFileSize log) a w.disk) := makesOnly_after rfl
    split_ifs
    · rw [sat_bind]
      refine sat_call (fun _ => trivial) fun b _ => ?_
      have hb : MakesOnly Call.silent w ((w.after (.getFileSize log) a w.disk).after
          (.newAppendableFile log) b w.disk) := ha.trans (makesOnly_after rfl)
      split_ifs
      · rw [sat_bind, sat_modifyImpl]
        exact fun _ => sat_pure.mpr fun _ => hb
      · exact sat_pure.mpr fun _ => hb
    · exact sat_pure.mpr fun _ => ha
  · exact sat_pure.mpr fun _ => .refl _ w

/-- **With `paranoid_checks`**, recovery returns OK only where every batch was accepted,
and has reported nothing where the log is clean. -/
theorem recoverLogFile_unharmed (hX : c.X.Lawful) (hp : c.options.paranoidChecks = true) :
    Sat A (recoverLogFile c log lastLog p) w (fun _ => True) fun x t =>
      x.1.isOk = true → Unharmed c (w.disk.log log) w t := by
  rw [recoverLogFile]
  refine Sat.assert (fun _ => trivial) fun _ => ?_
  rw [sat_bind]
  refine sat_call (fun _ => trivial) fun a _ => ?_
  have hopen : MakesOnly Call.silent w (w.after (.newSequentialFile log) a w.disk) :=
    makesOnly_after rfl
  split_ifs with ha
  · rw [sat_bind, sat_get]
    intro _
    refine (replayLoop_unharmed hX (w.disk.log log)).seq (fun _ _ _ h => h) fun r t _ _ hr => ?_
    refine reuseLog_silent.seq (fun _ _ _ h => h) fun mem u _ _ htu => ?_
    have hdone : ∀ {v : World}, MakesOnly Call.silent u v → r.status.isOk = true →
        Unharmed c (w.disk.log log) w v := fun huv hok =>
      ⟨(hr hok).accepted, fun hclean =>
        ((hopen.trans ((hr hok).silent hclean)).trans htu).trans huv⟩
    rcases mem with _ | mem
    · exact sat_pure.mpr fun _ hok => hdone (.refl _ u) hok
    · rw [writeLeftover]
      split_ifs with hok
      · refine writeLevel10Table_silent.seq (fun _ _ _ h => h) ?_
        rintro ⟨s, edit⟩ v - - huv
        exact sat_pure.mpr fun _ _ => hdone huv hok
      · exact sat_pure.mpr fun _ h => absurd h hok
  · refine sat_pure.mpr fun _ h => ?_
    rw [maybeIgnoreError, hp, Bool.or_true, if_pos rfl] at h
    exact absurd h ha

/-! ### A run in which all goes well -/

/-- **All goes well**: the calls succeed, numbers are positive and so are sizes. -/
structure Prospers (c : Context) : Prop extends Succeeds c where
  number : ∀ t what, 0 < (c.env t what).number.toNat
  size : ∀ t what, 0 < (c.env t what).size

theorem thenCall_returns (hc : Prospers c) {s : Status} (hs : s.isOk = true) {what : Call} :
    Returns (thenCall c s what) w fun s' _ => s'.isOk = true := by
  rw [thenCall, if_pos hs, returns_bind, returns_call]
  exact hc.calls _ what

theorem buildTableEnd_returns {iter : Iterator} (hiter : iter.status.isOk = true) {fname : Bytes}
    {s : Status} (hs : s.isOk = true) {file : FileMetaData} :
    Returns (buildTableEnd c iter fname s file) w fun x _ => x.1.isOk = true := by
  rw [buildTableEnd]
  simp only [hiter, if_true]
  split_ifs
  · exact hs
  · rw [returns_bind, deleteFile, returns_bind, returns_call]
    exact hs

theorem buildTable_returns (hc : Prospers c) {iter : Iterator} (hiter : iter.status.isOk = true)
    {file : FileMetaData} (hfile : 0 < file.number) :
    Returns (buildTable c iter file) w fun x _ => x.1.isOk = true := by
  rw [buildTable, returns_bind, returns_assert]
  refine ⟨decide_eq_true hfile, ?_⟩
  dsimp only
  split_ifs
  · exact buildTableEnd_returns hiter rfl
  · rw [returns_bind, returns_call, if_pos (hc.calls _ _), returns_bind, returns_call,
      buildTableFinished, if_pos (hc.calls _ _), returns_bind, returns_assert]
    refine ⟨decide_eq_true (hc.size _ _), ?_⟩
    refine (thenCall_returns hc rfl).seq fun s _ _ hs => ?_
    refine (thenCall_returns hc hs).seq fun s _ _ hs => ?_
    refine (thenCall_returns hc hs).seq fun s _ _ hs => ?_
    exact buildTableEnd_returns hiter hs

theorem writeLevel10Table_returns (hc : Prospers c) {mem : MemTable} {edit : VersionEdit}
    {base : Bool} :
    Returns (writeLevel10Table c mem edit base) w fun x _ => x.1.isOk = true := by
  rw [writeLevel10Table, returns_bind, newFileNumber, returns_bind, returns_call, returns_pure,
    returns_bind, returns_modifyImpl]
  refine (buildTable_returns hc (hc.iterator mem) (hc.number _ _)).seq ?_
  rintro ⟨s, file⟩ t - hs
  rw [returns_bind, returns_modifyImpl]
  split_ifs
  · rw [returns_bind, returns_call]
    exact hs
  · exact hs
  · exact hs

theorem replayRecord_returns (hX : c.X.Lawful) (hc : Prospers c) {record : Bytes}
    (hacc : Accepted c.X.coding ⟨record⟩) :
    Returns (replayRecord c log record r) w fun r' _ => r'.status.isOk = true := by
  have hlen : kHeader ≤ record.length := hacc.1
  have hcontents : WriteBatchInternal.setContents record = .ok ⟨record⟩ := if_pos hlen
  have hinsert := WriteBatchInternal.insertInto_eq hX.coding (b := ⟨record⟩) hlen (r.mem.getD [])
  rw [(verdict_split_eq_ok hX.coding hlen).mpr hacc] at hinsert
  have hok : (maybeIgnoreError c .ok).isOk = true := by
    rw [maybeIgnoreError]
    split_ifs <;> rfl
  rw [replayRecord, hcontents]
  simp only [ofExcept, returns_bind, returns_pure, hinsert, returns_call, hok, if_true]
  split_ifs
  · refine (writeLevel10Table_returns hc).seq ?_
    rintro ⟨s, edit⟩ t - hs
    exact hs
  · exact hok

/-- The corruption was reported. -/
def Reported (log : ℕ) (t : World) : Prop :=
  ∃ bytes status a, (Call.reportCorruption log bytes status, a) ∈ t.calls

theorem Reported.mono (h : Reported log t) (htu : t ≤ u) : Reported log u := by
  obtain ⟨bytes, status, a, ha⟩ := h
  exact ⟨bytes, status, a, (show t.calls <+: u.calls from htu).subset ha⟩

theorem replayLoop_returns (hX : c.X.Lawful) (hc : Prospers c) (hr : r.status.isOk = true)
    (hacc : ∀ record, .record record ∈ items → kHeader ≤ record.length →
      Accepted c.X.coding ⟨record⟩) :
    Returns (replayLoop c log items r) w fun r' t => r'.status.isOk = true ∧
      ((∃ item ∈ items, ¬item.Clean) → Reported log t) := by
  induction items generalizing w r with
  | nil =>
    refine ⟨hr, ?_⟩
    rintro ⟨_, h, -⟩
    exact absurd h List.not_mem_nil
  | cons item items ih =>
    replace ih := fun {w r} hr => ih (w := w) (r := r) hr fun record hmem =>
      hacc record (List.mem_cons_of_mem _ hmem)
    have hreport : ∀ bytes status,
        Returns (do let _ ← call c (.reportCorruption log bytes status); replayLoop c log items r) w
          fun r' t => r'.status.isOk = true ∧
            ((∃ x ∈ item :: items, ¬x.Clean) → Reported log t) := by
      intro bytes status
      rw [returns_bind, returns_call]
      refine (ih hr).mono fun r' t hwt h => ⟨h.1, fun _ => Reported.mono ?_ hwt⟩
      exact ⟨bytes, status, _, List.mem_append_right _ (List.mem_singleton.mpr rfl)⟩
    cases item with
    | corruption bytes status => exact hreport bytes status
    | record record =>
      rw [replayLoop, if_pos hr]
      split_ifs with hlen
      · exact hreport _ _
      · have hle : kHeader ≤ record.length := by simpa [kHeader] using hlen
        refine (replayRecord_returns hX hc (hacc record List.mem_cons_self hle)).seq ?_
        intro r' t _ hr'
        rw [if_pos hr']
        refine (ih hr').mono fun _ _ _ h => ⟨h.1, ?_⟩
        rintro ⟨x, hx, hdirty⟩
        rcases List.mem_cons.mp hx with rfl | hx
        · exact absurd hle hdirty
        · exact h.2 ⟨x, hx, hdirty⟩

/-- **All goes well**: the log is recovered, whatever was reported about it. -/
theorem recoverLogFile_returns (hX : c.X.Lawful) (hc : Prospers c) (hlog : 0 < log)
    (hacc : ∀ record, .record record ∈ w.disk.log log → kHeader ≤ record.length →
      Accepted c.X.coding ⟨record⟩) :
    Returns (recoverLogFile c log false p) w fun x t => x.1.isOk = true ∧
      ((∃ item ∈ w.disk.log log, ¬item.Clean) → Reported log t) := by
  rw [recoverLogFile, returns_bind, returns_assert]
  refine ⟨decide_eq_true hlog, ?_⟩
  rw [returns_bind, returns_call, if_pos (hc.calls _ _), returns_bind, returns_get]
  refine (replayLoop_returns hX hc rfl hacc).seq ?_
  rintro r t - ⟨hr, hreported⟩
  rw [reuseLog, if_neg (by simp), returns_bind, returns_pure]
  rcases r.mem with _ | mem
  · exact ⟨hr, hreported⟩
  · rw [writeLeftover, if_pos hr]
    refine (writeLevel10Table_returns hc).seq ?_
    intro x u htu hx
    exact ⟨hx, fun hdirty => (hreported hdirty).mono htu⟩

/-! ### The condition -/

/-- A database with one log. -/
def World.withLog (items : List LogItem) : World :=
  .initial { Disk.missing with log := fun _ => items }

/-- **A damaged log is never recovered silently**, and never makes recovery fail without
`paranoid_checks`, exactly where `paranoid_checks` is off, or the log is clean, or one of
its batches is rejected. -/
theorem neverSilent_iff {X : Externals} {options : Options} {items : List LogItem}
    (hX : X.Lawful) (hiter : ∀ mem, (X.newIterator mem).status.isOk = true) :
    NeverSilent X options items ↔
      options.paranoidChecks = false ∨ (∀ item ∈ items, item.Clean) ∨
        ∃ record, .record record ∈ items ∧ kHeader ≤ record.length ∧
          ¬Accepted X.coding ⟨record⟩ := by
  constructor
  · intro h
    by_contra hnot
    obtain ⟨hp, hdirty, hacc⟩ := by simpa only [not_or, Bool.not_eq_false] using hnot
    push Not at hdirty hacc
    -- an environment in which all goes well recovers the log, and reports the damage
    have hc : Prospers ⟨X, fun _ _ => { number := 1, size := 1 }, options, []⟩ :=
      { calls := fun _ _ => rfl, iterator := hiter, number := fun _ _ => Nat.one_pos
        size := fun _ _ => Nat.one_pos }
    obtain ⟨⟨s, p'⟩, hrun, hs, hreported⟩ := (recoverLogFile_returns (w := .withLog items)
      (p := {}) hX hc Nat.one_pos hacc).result
    obtain ⟨bytes, status, a, ha⟩ := hreported hdirty
    exact ((h _ rfl rfl (.withLog items) 1 rfl false {} s p' hrun).1 hp hs).1 bytes status a ha
  · rintro hcond c rfl rfl w log rfl lastLog p s p' hrun
    -- a rejected batch reaches the status, a report does not
    refine ⟨fun hp hs => ?_, fun hp hs => ?_⟩
    · have hun := (recoverLogFile_unharmed (A := ⊤) hX hp).result hrun trivial hs
      have hclean : ∀ item ∈ w.disk.log log, item.Clean := by
        rcases hcond with hp' | hclean | ⟨record, hmem, hlen, hrej⟩
        · rw [hp] at hp'
          exact Bool.noConfusion hp'
        · exact hclean
        · exact absurd (hun.accepted hp record hmem hlen) hrej
      refine ⟨fun bytes status a ha => ?_, fun record hmem =>
        hun.accepted hp record hmem (hclean _ hmem)⟩
      obtain ⟨calls, hcalls, hsilent⟩ := hun.silent hclean
      rw [hcalls, List.drop_left] at ha
      exact Bool.noConfusion (hsilent _ ha)
    · refine ((recoverLogFile_fails (A := ⊤) hX hiter hp).result hrun trivial).resolve_left ?_
      rw [show s.isOk = false from hs]
      exact Bool.noConfusion

/-- A batch of a clean log. -/
theorem neverSilent_iff_putAB :
    NeverSilent documented { paranoidChecks := true } [.record WriteBatch.putAB.rep] :=
  (neverSilent_iff documented_lawful fun _ => rfl).mpr (Or.inr (Or.inl (by
    intro item hitem
    obtain rfl := List.mem_singleton.mp hitem
    exact show kHeader ≤ WriteBatch.putAB.rep.length by decide)))

/-- **A corruption is reported**, and recovery returns OK. -/
theorem corruption_recovered_silently :
    (∃ p', ((recoverLogFile (healthy { paranoidChecks := true }) 1 false {}).run
      (.withLog [.corruption 7 (.corruption "checksum mismatch")])).result = some (.ok, p')) ∧
    ¬∀ X options items, X.Lawful → NeverSilent X options items := by
  refine ⟨⟨{}, by rfl⟩, fun h => ?_⟩
  have hsilent := h documented { paranoidChecks := true }
    [.corruption 7 (.corruption "checksum mismatch")] documented_lawful
    (healthy { paranoidChecks := true }) rfl rfl (.withLog _) 1 rfl false {} .ok {} (by rfl)
  refine (hsilent.1 rfl rfl).1 7 (.corruption "checksum mismatch") { number := 11, size := 1 } ?_
  decide

end

end LevelDb
