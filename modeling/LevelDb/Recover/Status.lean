import LevelDb.Recover.Replay

/-!
# Where the status of a recovery comes from

A status that recovery returns is OK, or it was handed up from somewhere: from a call
that writes a table, from the iterator over a memtable, or – where `paranoid_checks` is
set – from opening a log or decoding a batch. So what holds of all these statuses holds
of the one returned (`LevelDb.recoverLogFile_yields`). The predicate may speak about the
world as well: "if it is an error, then a call that writes a table has failed" is one.

Along the way the calls are collected that each function makes
(`LevelDb.MakesOnly`).
-/

namespace LevelDb

open CrashLogic WriteBatch

/-! ### The calls made -/

/-- The call writes a table. -/
def Call.writesTable : Call → Bool
  | newWritableFile .kTableFile _ => true
  | finishTable _ | syncTable _ | closeTable _ | verifyTable _ => true
  | _ => false

/-- The call is one of writing out a memtable. -/
def Call.ofFlush : Call → Bool
  | newFileNumber | deleteFile _ | pickLevelForMemTableOutput => true
  | what => what.writesTable

/-- Between `w` and `t` only calls of this kind were made. -/
def MakesOnly (kind : Call → Bool) (w t : World) : Prop :=
  ∃ calls, t.calls = w.calls ++ calls ∧ ∀ x ∈ calls, kind x.1 = true

section

variable {kind kind' : Call → Bool} {w t u : World}

theorem MakesOnly.refl (kind : Call → Bool) (w : World) : MakesOnly kind w w :=
  ⟨[], (List.append_nil _).symm, fun _ h => absurd h List.not_mem_nil⟩

theorem MakesOnly.trans (h : MakesOnly kind w t) (h' : MakesOnly kind t u) :
    MakesOnly kind w u := by
  obtain ⟨calls, hcalls, hk⟩ := h
  obtain ⟨calls', hcalls', hk'⟩ := h'
  refine ⟨calls ++ calls', ?_, fun x hx => (List.mem_append.mp hx).elim (hk x) (hk' x)⟩
  rw [hcalls', hcalls, List.append_assoc]

theorem makesOnly_after {what : Call} {a : Answer} {d : Disk} (h : kind what = true) :
    MakesOnly kind w (w.after what a d) :=
  ⟨[(what, a)], rfl, fun x hx => by rw [List.mem_singleton.mp hx]; exact h⟩

theorem MakesOnly.le (h : MakesOnly kind w t) : w ≤ t := by
  obtain ⟨calls, hcalls, -⟩ := h
  exact ⟨calls, hcalls.symm⟩

theorem MakesOnly.mono (h : MakesOnly kind w t)
    (hk : ∀ what, kind what = true → kind' what = true) : MakesOnly kind' w t := by
  obtain ⟨calls, hcalls, h⟩ := h
  exact ⟨calls, hcalls, fun x hx => hk _ (h x hx)⟩

theorem Call.ofFlush_of_writesTable {what : Call} (h : what.writesTable = true) :
    what.ofFlush = true := by
  cases what <;> first | exact h | rfl

end

/-! ### Statuses -/

/-- **The calls succeed**, and so do the iterators over memtables. -/
structure Succeeds (c : Context) : Prop where
  calls : ∀ t what, (c.env t what).status.isOk = true
  iterator : ∀ mem, (c.X.newIterator mem).status.isOk = true

variable (c : Context) (w₀ : World) (P : Status → World → Prop)

/-- **What holds of the statuses** that recovery hands up from `w₀` on, at the moment it
gets them, and does not get lost. -/
structure Yields : Prop where
  mono : ∀ {s w t}, w ≤ t → P s w → P s t
  ok : ∀ w, P .ok w
  table : ∀ {w : World} (what : Call) (d : Disk), w₀ ≤ w → what.writesTable = true →
    P (c.env w.calls.length what).status (w.after what (c.env w.calls.length what) d)
  iterator : ∀ mem w, P (c.X.newIterator mem).status w
  opened : c.options.paranoidChecks = true → ∀ {w : World} (log : ℕ), w₀ ≤ w →
    P (c.env w.calls.length (.newSequentialFile log)).status
      (w.after (.newSequentialFile log) (c.env w.calls.length (.newSequentialFile log)) w.disk)
  batch : c.options.paranoidChecks = true → ∀ msg w, P (.corruption msg) w

section

variable {c w₀ P} {A : LowerSet World} {w t : World} {iter : Iterator} {file : FileMetaData}

/-- What a function that writes out a memtable returns and calls. -/
abbrev FlushPost (P : Status → World → Prop) (w : World) (s : Status) (t : World) : Prop :=
  P s t ∧ MakesOnly Call.ofFlush w t

theorem thenCall_yields (h : Yields c w₀ P) (hw : w₀ ≤ w) {s : Status} {what : Call}
    (hwhat : what.writesTable) (hs : FlushPost P w s t) :
    Sat A (thenCall c s what) t (fun _ => True) (FlushPost P w) := by
  rw [thenCall]
  split_ifs
  · rw [sat_bind]
    refine sat_env (sat_pure.mpr fun _ => ⟨h.table _ _ (hw.trans hs.2.le) hwhat, hs.2.trans ?_⟩)
    exact makesOnly_after (Call.ofFlush_of_writesTable hwhat)
  · exact sat_pure.mpr fun _ => hs

theorem buildTableEnd_yields (h : Yields c w₀ P) (hiter : ∀ w, P iter.status w) {fname : Bytes}
    {s : Status} (hs : FlushPost P w s t) :
    Sat A (buildTableEnd c iter fname s file) t (fun _ => True) fun x u =>
      FlushPost P w x.1 u := by
  rw [buildTableEnd]
  generalize hs' : (if iter.status.isOk then s else iter.status) = s'
  replace hs' : FlushPost P w s' t := by
    rw [← hs']
    split_ifs
    · exact hs
    · exact ⟨hiter _, hs.2⟩
  by_cases hkeep : s'.isOk && decide (0 < file.fileSize)
  · rw [if_pos hkeep]
    exact sat_pure.mpr fun _ => hs'
  -- the file is deleted, and the status of that ignored
  · rw [if_neg hkeep, sat_bind, deleteFile, sat_bind]
    refine sat_env (sat_pure.mpr fun _ => sat_pure.mpr fun _ => ⟨?_, hs'.2.trans ?_⟩)
    · exact h.mono (World.le_after ..) hs'.1
    · exact makesOnly_after rfl

theorem buildTableFinished_yields (h : Yields c w₀ P) (hw : w₀ ≤ w) (hiter : ∀ w, P iter.status w)
    {fname : Bytes} {a : Answer} (hs : FlushPost P w a.status t) :
    Sat A (buildTableFinished c iter fname a file) t (fun _ => True) fun x u =>
      FlushPost P w x.1 u := by
  rw [buildTableFinished]
  split_ifs
  · refine Sat.assert (fun _ => trivial) fun _ => ?_
    have hok : FlushPost P w .ok t := ⟨h.ok t, hs.2⟩
    refine (thenCall_yields h hw rfl hok).seq (fun _ _ _ h => h) fun _ _ _ _ hs => ?_
    refine (thenCall_yields h hw rfl hs).seq (fun _ _ _ h => h) fun _ _ _ _ hs => ?_
    refine (thenCall_yields h hw rfl hs).seq (fun _ _ _ h => h) fun _ _ _ _ hs => ?_
    exact buildTableEnd_yields h hiter hs
  · exact buildTableEnd_yields h hiter hs

theorem buildTable_yields (h : Yields c w₀ P) (hw : w₀ ≤ w) (hiter : ∀ w, P iter.status w) :
    Sat A (buildTable c iter file) w (fun _ => True) fun x t => FlushPost P w x.1 t := by
  rw [buildTable]
  refine Sat.assert (fun _ => trivial) fun _ => ?_
  split_ifs
  · exact buildTableEnd_yields h hiter ⟨h.ok w, .refl _ w⟩
  · rw [sat_bind]
    refine sat_env ?_
    have hnew : Call.writesTable (.newWritableFile .kTableFile file.number) = true := rfl
    generalize ha : c.env w.calls.length (.newWritableFile .kTableFile file.number) = a
    have hs : ∀ d, FlushPost P w a.status
        (w.after (.newWritableFile .kTableFile file.number) a d) := fun d =>
      ⟨ha ▸ h.table _ d hw hnew, makesOnly_after (Call.ofFlush_of_writesTable hnew)⟩
    split_ifs with hok
    · rw [sat_bind]
      refine sat_env (buildTableFinished_yields h hw hiter
        ⟨h.table _ _ (hw.trans (hs _).2.le) rfl, ?_⟩)
      exact (hs _).2.trans (makesOnly_after rfl)
    · exact sat_pure.mpr fun _ => hs _

/-- **Writing out a memtable.** -/
theorem writeLevel10Table_yields (h : Yields c w₀ P) (hw : w₀ ≤ w) {mem : MemTable}
    {edit : VersionEdit}
    {base : Bool} :
    Sat A (writeLevel10Table c mem edit base) w (fun _ => True) fun x t =>
      FlushPost P w x.1 t := by
  rw [writeLevel10Table, sat_bind, newFileNumber, sat_bind]
  refine sat_env (sat_pure.mpr fun _ => ?_)
  rw [sat_bind, sat_modifyImpl]
  intro _
  generalize ht : ({ (w.after .newFileNumber _ w.disk : World) with impl := _ } : World) = t
  have hwt : MakesOnly Call.ofFlush w t := by
    obtain ⟨calls, hcalls, hk⟩ : MakesOnly Call.ofFlush w (w.after .newFileNumber
      (c.env w.calls.length .newFileNumber) w.disk) := makesOnly_after rfl
    exact ⟨calls, ht ▸ hcalls, hk⟩
  refine (buildTable_yields h (hw.trans hwt.le) fun w => h.iterator mem w).seq (fun _ _ _ h => h) ?_
  rintro ⟨s, file⟩ u - - ⟨hs, htu⟩
  rw [sat_bind, sat_modifyImpl]
  intro _
  have hdone : ∀ i, FlushPost P w s { u with impl := i } := fun i =>
    ⟨h.mono (w := u) (List.prefix_refl u.calls) hs, by
      obtain ⟨calls, hcalls, hk⟩ := hwt.trans htu
      exact ⟨calls, hcalls, hk⟩⟩
  split_ifs
  · rw [sat_bind]
    refine sat_env (sat_pure.mpr fun _ => ⟨?_, (hdone _).2.trans (makesOnly_after rfl)⟩)
    exact h.mono (World.le_after ..) (hdone _).1
  · exact sat_pure.mpr fun _ => hdone _
  · exact sat_pure.mpr fun _ => hdone _

/-! ### The replay of a log -/

/-- Without `paranoid_checks`, an error of a batch or of a log that does not open is
ignored. -/
theorem maybeIgnoreError_yields (h : Yields c w₀ P) {s : Status}
    (hs : c.options.paranoidChecks = true → P s w) : P (maybeIgnoreError c s) w := by
  rw [maybeIgnoreError]
  split_ifs with hp
  -- the status is handed up as it is
  · rcases Bool.or_eq_true_iff.mp hp with hok | hp
    · cases s with
      | ok => exact h.ok w
      | error => exact Bool.noConfusion hok
    · exact hs hp
  · exact h.ok w

/-- The status of a batch is OK or a corruption. -/
theorem verdict_eq (C : Coding) (b : WriteBatch) (found : ℕ) (rest : Bytes) :
    verdict C b found rest = .ok ∨ ∃ msg, verdict C b found rest = .corruption msg := by
  rcases rest with _ | ⟨tag, rest⟩
  · rw [verdict]
    split_ifs
    · exact Or.inr ⟨_, rfl⟩
    · exact Or.inl rfl
  · rw [verdict]
    split_ifs
    · exact Or.inr ⟨_, rfl⟩
    · exact Or.inr ⟨_, rfl⟩
    · exact Or.inr ⟨_, rfl⟩

theorem replayRecord_yields (hX : c.X.Lawful) (h : Yields c w₀ P) (hw : w₀ ≤ w) {log : ℕ}
    {record : Bytes}
    {r : Replay} (hlen : kHeader ≤ record.length) :
    Sat A (replayRecord c log record r) w (fun _ => True) fun r' t => P r'.status t := by
  have hcontents : WriteBatchInternal.setContents record = .ok ⟨record⟩ := if_pos hlen
  have hinsert := WriteBatchInternal.insertInto_eq hX.coding (b := ⟨record⟩) hlen (r.mem.getD [])
  rw [replayRecord, hcontents]
  simp only [ofExcept, sat_bind, sat_pure, hinsert]
  refine fun _ => sat_env fun _ => ?_
  generalize ht : w.after (.insertInto log record) _ w.disk = t
  have hwt : w ≤ t := ht ▸ w.le_after _ _ _
  generalize hst : maybeIgnoreError c _ = status
  have hs : P status t := by
    rw [← hst]
    refine maybeIgnoreError_yields h fun hp => ?_
    rcases verdict_eq c.X.coding ⟨record⟩ ((WriteBatch.mk record).split c.X.coding).1.length
      ((WriteBatch.mk record).split c.X.coding).2 with hv | ⟨msg, hv⟩
    · rw [hv]
      exact h.ok t
    · rw [hv]
      exact h.batch hp msg t
  by_cases hok : status.isOk
  · rw [if_pos hok]
    split_ifs
    · refine (writeLevel10Table_yields h (hw.trans hwt)).seq (fun _ _ _ h => h) ?_
      rintro ⟨s, edit⟩ u - - ⟨hs, -⟩
      exact sat_pure.mpr fun _ => hs
    · exact sat_pure.mpr fun _ => hs
  · rw [if_neg hok]
    exact sat_pure.mpr fun _ => hs

theorem replayLoop_yields (hX : c.X.Lawful) (h : Yields c w₀ P) (hw : w₀ ≤ w) {log : ℕ}
    (items : List LogItem)
    {r : Replay} (hr : P r.status w) :
    Sat A (replayLoop c log items r) w (fun _ => True) fun r' t => P r'.status t := by
  induction items generalizing w r with
  | nil => exact sat_pure.mpr fun _ => hr
  | cons item items ih =>
    have hskip : ∀ what : Call,
        Sat A (do let _ ← call c what; replayLoop c log items r) w (fun _ => True)
          fun r' t => P r'.status t := fun what => by
      rw [sat_bind]
      exact sat_env (ih (hw.trans (World.le_after ..)) (h.mono (World.le_after ..) hr))
    cases item with
    | corruption bytes status => exact hskip _
    | record record =>
      rw [replayLoop]
      split_ifs with hok hlen
      · exact hskip _
      · have hle : kHeader ≤ record.length := by simpa [kHeader] using hlen
        refine (replayRecord_yields hX h hw hle).seq (fun _ _ _ h => h) fun r' t hwt _ hr' => ?_
        split_ifs
        · exact ih (hw.trans hwt) hr'
        · exact sat_pure.mpr fun _ => hr'
      · exact sat_pure.mpr fun _ => hr

theorem reuseLog_le {log : ℕ} {lastLog : Bool} {r : Replay} :
    Sat A (reuseLog c log lastLog r) w (fun _ => True) fun _ t => w ≤ t :=
  (reuseLog_sat).mono (fun _ _ _ _ => trivial) fun _ _ hwt _ _ => hwt

/-- **`RecoverLogFile`** returns a status that was handed up. -/
theorem recoverLogFile_yields (hX : c.X.Lawful) (h : Yields c w₀ P) (hw : w₀ ≤ w) {log : ℕ}
    {lastLog : Bool} {p : Progress} :
    Sat A (recoverLogFile c log lastLog p) w (fun _ => True) fun x t => P x.1 t := by
  rw [recoverLogFile]
  refine Sat.assert (fun _ => trivial) fun _ => ?_
  rw [sat_bind]
  refine sat_env ?_
  split_ifs
  · rw [sat_bind, sat_get]
    intro _
    have hwv := hw.trans (w.le_after (.newSequentialFile log)
      (c.env w.calls.length (.newSequentialFile log)) w.disk)
    refine (replayLoop_yields hX h hwv _ (h.ok _)).seq (fun _ _ _ h => h) fun r t hvt _ hr => ?_
    refine reuseLog_le.seq (fun _ _ _ h => h) fun mem u _ _ htu => ?_
    have hr : P r.status u := h.mono htu hr
    rcases mem with _ | mem
    · exact sat_pure.mpr fun _ => hr
    · rw [writeLeftover]
      split_ifs
      · refine (writeLevel10Table_yields h (hwv.trans (hvt.trans htu))).seq (fun _ _ _ h => h) ?_
        rintro ⟨s, edit⟩ x - - ⟨hs, -⟩
        exact sat_pure.mpr fun _ => hs
      · exact sat_pure.mpr fun _ => hr
  · exact sat_pure.mpr fun _ => maybeIgnoreError_yields h fun hp => h.opened hp log hw

theorem recoverLogs_yields (hX : c.X.Lawful) (h : Yields c w₀ P) (hw : w₀ ≤ w) (logs : List ℕ)
    {p : Progress} :
    Sat A (recoverLogs c logs p) w (fun _ => True) fun x t => P x.1 t := by
  induction logs generalizing w p with
  | nil => exact sat_pure.mpr fun _ => h.ok w
  | cons log logs ih =>
    refine (recoverLogFile_yields hX h hw).seq (fun _ _ _ h => h) ?_
    rintro ⟨s, p'⟩ t hwt - hs
    dsimp only
    split_ifs
    · rw [sat_bind]
      exact sat_env (ih (hw.trans (hwt.trans (World.le_after ..))))
    · exact sat_pure.mpr fun _ => hs

end

end LevelDb
