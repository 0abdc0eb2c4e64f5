import LevelDb.Background.Wakeup

/-!
# What a manual compaction has compacted

A call of `TEST_CompactRange` asks for a range of keys to be compacted at a level. The
background work does so in parts: `CompactRange` picks one from the beginning of what is left,
`DoCompactionWork` compacts it, and the last block puts the largest key of it in the place of
the beginning. The request is done where `CompactRange` finds nothing more.

What is done for each request is kept beside the state (`LevelDb.Background.Tracked`). When a
call has returned, and there was neither an error nor a shutdown, the parts make up its range
without a gap, whatever the other calls and the memtable flushes in between
(`LevelDb.Background.covered_of_returned`). `CompactRange` makes such calls, from the first
level on; it leaves out no level above one that has an overlap with the range
(`LevelDb.Background.compactRange_covered`).
-/

namespace LevelDb.Background

open Transition

variable {ι : Type} {s t : State ι} {k : ℕ}

/-! ### The statement -/

/-- What is done for a request. -/
inductive Event
  /-- `versions_->CompactRange`, and the largest key of the part it has picked, if any. -/
  | compactRange (level : ℕ) (begin limit largest : Option InternalKey)
  /-- `DoCompactionWork` returns. -/
  | doCompactionWork (status : Status)
  deriving DecidableEq, Repr

/-- **Parts of the range** were compacted, each of which begins where the one before ended. The
key is where the last one ended. -/
inductive Parts (r : ManualCompaction) : List Event → Option InternalKey → Prop
  | nil : Parts r [] r.begin
  | concat {es : List Event} {b : Option InternalKey} {largest : InternalKey} : Parts r es b →
      Parts r (es ++ [.compactRange r.level b r.limit (some largest), .doCompactionWork .ok])
        (some largest)

/-- **The range was compacted**: in parts, and there was nothing left behind the last one. -/
def Covered (r : ManualCompaction) (es : List Event) : Prop :=
  ∃ parts b, Parts r parts b ∧ es = parts ++ [.compactRange r.level b r.limit none]

/-- What a section does for a request. -/
def State.event (s : State ι) : Action ι → Option (ι × Event)
  | .backgroundCall _ c =>
    -- the branches that do not come to a request
    if !s.bgCompactionScheduled || s.shuttingDown || !s.bgError.isOk || s.imm then none
    else s.manualCompaction.map fun m => (m, .compactRange (s.request m).level
      (s.request m).begin (s.request m).limit (c.map Compaction.largest))
  | .worked k status _ =>
    match s.items[k]? with
    | some (.doCompactionWork (some m) _) => some (m, .doCompactionWork status)
    | _ => none
  | _ => none

/-- The threads, the requests as they were at first, and what was done for each of them. -/
structure Tracked (ι : Type) where
  state : State ι
  origin : ι → ManualCompaction
  log : ι → List Event := fun _ => []

/-- Neither an error nor a shutdown. -/
def State.Undisturbed (s : State ι) : Prop := s.shuttingDown = false ∧ s.bgError.isOk = true

section

variable [DecidableEq ι]

/-- Write down what was done. -/
def record (log : ι → List Event) : Option (ι × Event) → ι → List Event
  | none => log
  | some (i, e) => Function.update log i (log i ++ [e])

/-- One step of the threads, tracked. -/
def Tracked.step (x : Tracked ι) (a : Action ι) : Option (Tracked ι) :=
  (x.state.step a).map fun t => { x with state := t, log := record x.log (x.state.event a) }

/-- **The tracked threads** of a database that has just been constructed. -/
def tracked (ι : Type) [DecidableEq ι] : System (Tracked ι) (Action ι) where
  init x := State.Initial x.state ∧ x.origin = x.state.request ∧ x.log = fun _ => []
  step := Tracked.step

end

/-! ### Errors and shutdowns -/

theorem State.recordBackgroundError_isOk {status : Status}
    (h : (s.recordBackgroundError status).bgError.isOk = true) : s.bgError.isOk = true := by
  rw [recordBackgroundError] at h
  split_ifs at h with hok
  · exact hok
  · exact h

theorem State.compactMemTable_isOk {status : Status} {needs : Bool}
    (h : (s.compactMemTable status needs).bgError.isOk = true) : s.bgError.isOk = true := by
  rw [compactMemTable] at h
  split_ifs at h
  · exact h
  · exact recordBackgroundError_isOk h

/-- An item that comes back without an error being recorded has none. -/
theorem State.comeBack_isOk {manual : Option ι} {manualEnd : Option InternalKey} {status : Status}
    {needs : Bool} (h : (s.comeBack k manual manualEnd status needs).bgError.isOk = true) :
    status.isOk = true ∧ s.bgError.isOk = true := by
  rw [comeBack] at h
  split_ifs at h with hok
  · exact ⟨hok, h⟩
  · have hs : s.bgError.isOk = true := recordBackgroundError_isOk h
    have herror : (s.recordBackgroundError status).bgError = status := by
      rw [recordBackgroundError, if_pos hs]
    exact absurd (herror ▸ h) hok

theorem State.Undisturbed.congr (h : t.Undisturbed) (hdown : t.shuttingDown = s.shuttingDown)
    (herror : t.bgError = s.bgError) : s.Undisturbed :=
  ⟨hdown ▸ h.1, herror ▸ h.2⟩

theorem State.Undisturbed.of_endBackgroundCall (h : (s.endBackgroundCall k).Undisturbed) :
    s.Undisturbed := by
  obtain ⟨flag, items, he⟩ := s.endBackgroundCall_eq k
  exact h.congr (by rw [he]) (by rw [he])

theorem State.Undisturbed.of_compactMemTable {status : Status} {needs : Bool}
    (h : (s.compactMemTable status needs).Undisturbed) : s.Undisturbed := by
  obtain ⟨imm, e, needs', he⟩ := s.compactMemTable_eq status needs
  have hdown := h.1
  rw [he] at hdown
  exact ⟨hdown, compactMemTable_isOk h.2⟩

theorem State.Undisturbed.of_comeBack {manual : Option ι} {manualEnd : Option InternalKey}
    {status : Status} {needs : Bool}
    (h : (s.comeBack k manual manualEnd status needs).Undisturbed) : s.Undisturbed := by
  obtain ⟨e, needs', he⟩ := s.comeBack_eq k status needs manual manualEnd
  have hdown := h.1
  rw [he] at hdown
  exact ⟨hdown, (comeBack_isOk h.2).2⟩

variable [DecidableEq ι] {x : Tracked ι} {a : Action ι} {pc : Pc ι} {i m : ι}

/-- **Nothing takes an error or a shutdown back.** -/
theorem State.Undisturbed.of_step (h : t.Undisturbed) (hstep : (system ι).step s a = some t) :
    s.Undisturbed := by
  obtain ⟨-, heffect⟩ := effect_of_step hstep
  cases heffect with
  | testCompactRange =>
    rw [State.testCompactRange] at h
    split_ifs at h
    · obtain ⟨flag, items, he⟩ := State.maybeScheduleCompaction_eq _
      rw [he] at h
      exact h
    · exact h
    · exact h
    · exact h
  | @other imm needs schedule _ =>
    split_ifs at h
    · obtain ⟨flag, items, he⟩ := State.maybeScheduleCompaction_eq
        { s with imm := s.imm || imm, needsCompaction := needs }
      rw [he] at h
      exact h
    · exact h
  | @recordBackgroundError status _ =>
    obtain ⟨e, he⟩ := s.recordBackgroundError_eq status
    have hdown := h.1
    rw [he] at hdown
    exact ⟨hdown, recordBackgroundError_isOk h.2⟩
  | destroy => exact absurd h.1 (by simp [State.destroy])
  | @backgroundCall k c _ _ =>
    rw [State.backgroundCall] at h
    split_ifs at h
    · exact h
    · exact h.of_endBackgroundCall
    · exact h.of_endBackgroundCall
    · obtain ⟨request, pc, held, -, he⟩ := s.backgroundCompaction_eq k c
      rw [he] at h
      exact h
  | flushed => exact h.of_endBackgroundCall.of_compactMemTable
  | moved => exact h.of_comeBack
  | flushedInside => exact h.of_compactMemTable
  | worked => exact h.of_comeBack
  | lastBlock =>
    unfold State.lastBlock at h
    split at h
    · exact h.of_endBackgroundCall
    · exact h
    · exact h.of_endBackgroundCall

/-! ### The invariant -/

/-- The item that works on a request. -/
def State.itemOf (s : State ι) (i : ι) : Option (Pc ι) :=
  s.items.find? fun pc => pc.manual = some i

/-- **How far a request is**: `r` is what it was at first, `q` what it is now. -/
def Stage (r q : ManualCompaction) (es : List Event) : Option (Pc ι) → Prop
  | some (.doCompactionWork _ manualEnd) => q.done = false ∧ ∃ parts b largest, Parts r parts b ∧
      manualEnd = some largest ∧ es = parts ++ [.compactRange r.level b r.limit (some largest)]
  | some (.lastBlock _ manualEnd status) => status.isOk = true ∧
      if q.done then Covered r es else Parts r es manualEnd
  | _ => if q.done then Covered r es else Parts r es q.begin

/-- **The invariant** of the runs without an error and a shutdown. -/
structure Tracks (x : Tracked ι) : Prop where
  working : Working x.state
  outstanding : Outstanding x.state
  level : ∀ i, (x.state.request i).level = (x.origin i).level
  limit : ∀ i, (x.state.request i).limit = (x.origin i).limit
  stage : ∀ i, Stage (x.origin i) (x.state.request i) (x.log i) (x.state.itemOf i)
  returned : ∀ i, x.state.call i = .returned → (x.state.request i).done = true

theorem State.itemOf_eq_none (h : ∀ pc ∈ s.items, pc.manual = none) (i : ι) :
    s.itemOf i = none := by
  refine List.find?_eq_none.mpr fun pc hpc => ?_
  simp [h pc hpc]

/-- The only item works on its request. -/
theorem Scheduled.itemOf_eq (h : Scheduled s) (hk : s.items[k]? = some pc)
    (hpc : pc.manual = some m) : s.itemOf m = some pc := by
  rw [State.itemOf, (h.items_eq hk).2, List.find?_singleton]
  simp [hpc]

/-- The only item works on no other request. -/
theorem Scheduled.itemOf_eq_none (h : Scheduled s) (hk : s.items[k]? = some pc)
    (hpc : pc.manual ≠ some i) : s.itemOf i = none := by
  rw [State.itemOf, (h.items_eq hk).2, List.find?_singleton]
  simp [hpc]

omit [DecidableEq ι] in
theorem State.getElem?_goto (hk : k < s.items.length) (pc : Pc ι) :
    (s.goto k pc).items[k]? = some pc :=
  List.getElem?_set_self hk

omit [DecidableEq ι] in
theorem State.getElem?_reach (hk : k < s.items.length) (manual : Option ι)
    (manualEnd : Option InternalKey) (status : Status) :
    (s.reach k manual manualEnd status).items[k]? = some (.lastBlock manual manualEnd status) :=
  List.getElem?_set_self hk

/-- A new item works on no request. -/
theorem State.itemOf_maybeScheduleCompaction (i : ι) :
    s.maybeScheduleCompaction.itemOf i = s.itemOf i := by
  rcases s.maybeScheduleCompaction_cases with he | ⟨-, -, -, he⟩
  · rw [he]
  · rw [he, itemOf, itemOf, List.find?_append]
    simp [Pc.manual]

/-- An item that has ended leaves none that works on a request. -/
theorem Scheduled.itemOf_endBackgroundCall (h : Scheduled s) (hk : k < s.items.length) (i : ι) :
    (s.endBackgroundCall k).itemOf i = none := by
  refine State.itemOf_eq_none (fun pc hpc => ?_) i
  rw [h.eq_scheduled hk hpc]
  rfl

theorem Tracks.initial (h : State.Initial x.state) (horigin : x.origin = x.state.request)
    (hlog : x.log = fun _ => []) : Tracks x := by
  have hw := Working.initial h
  have ho := Outstanding.initial h
  obtain ⟨request, imm, hs, hdone⟩ := h
  refine ⟨hw, ho, fun i => by rw [horigin], fun i => by rw [horigin], fun i => ?_, fun i hi => ?_⟩
  · rw [hs] at horigin
    rw [horigin, hlog, hs]
    simp only [State.itemOf, List.find?_nil, Stage, hdone i, Bool.false_eq_true, if_false]
    exact .nil
  · rw [hs] at hi
    exact absurd hi (by simp)

/-- A section that leaves the requests, and the items that work on them, alone. -/
theorem Tracks.congr (h : Tracks x) (hw : Working t) (ho : Outstanding t)
    (hrequest : t.request = x.state.request) (hitem : ∀ i, t.itemOf i = x.state.itemOf i)
    (hreturned : ∀ i, t.call i = .returned → (x.state.request i).done = true) :
    Tracks { x with state := t } where
  working := hw
  outstanding := ho
  level i := by rw [hrequest]; exact h.level i
  limit i := by rw [hrequest]; exact h.limit i
  stage i := by rw [hrequest, hitem]; exact h.stage i
  returned i hi := by rw [hrequest]; exact hreturned i hi

/-- A section that works on a request. -/
theorem Tracks.change {q : ManualCompaction} {es : List Event} (h : Tracks x) (hw : Working t)
    (ho : Outstanding t) (hrequest : t.request = Function.update x.state.request m q)
    (hcall : t.call = x.state.call) (hm : x.state.manualCompaction = some m)
    (hitem : ∀ i, i ≠ m → t.itemOf i = x.state.itemOf i)
    (hlevel : q.level = (x.state.request m).level) (hlimit : q.limit = (x.state.request m).limit)
    (hstage : Stage (x.origin m) q es (t.itemOf m)) :
    Tracks { x with state := t, log := Function.update x.log m es } where
  working := hw
  outstanding := ho
  level i := by
    rcases eq_or_ne i m with rfl | hne
    · simpa [hrequest, hlevel] using h.level i
    · simpa [hrequest, hne] using h.level i
  limit i := by
    rcases eq_or_ne i m with rfl | hne
    · simpa [hrequest, hlimit] using h.limit i
    · simpa [hrequest, hne] using h.limit i
  stage i := by
    rcases eq_or_ne i m with rfl | hne
    · simpa [hrequest] using hstage
    · simpa [hrequest, hne, hitem i hne] using h.stage i
  returned i hi := by
    -- the call that made the request waits
    rw [show t.call i = x.state.call i from congrFun hcall i] at hi
    rcases eq_or_ne i m with rfl | hne
    · exact absurd hi (by simp [h.working.waiting i hm])
    · simpa [hrequest, hne] using h.returned i hi

/-! ### The operations -/

/-- A request that an item works on makes its call go on. -/
theorem Tracks.continues (h : Tracks x) (hu : x.state.Undisturbed)
    (hmutex : x.state.mutexHeld = false) (hpc : pc ∈ x.state.items) (hm : pc.manual = some i) :
    x.state.continues i = true := by
  obtain ⟨k, hk⟩ := List.getElem?_of_mem hpc
  have hstage := h.stage i
  rw [h.working.scheduled.itemOf_eq hk hm] at hstage
  cases pc with
  | doCompactionWork _ _ =>
    rw [State.continues, hstage.1, hu.1, hu.2]
    rfl
  | lastBlock _ _ _ =>
    rw [h.outstanding.lastBlock hpc] at hmutex
    exact Bool.noConfusion hmutex
  | _ => exact absurd hm (by simp [Pc.manual])

/-- So no request is withdrawn. -/
theorem Tracks.withdraws (h : Tracks x) (hu : x.state.Undisturbed)
    (hstep : (system ι).step x.state a = some t) : x.state.withdraws a = false := by
  obtain ⟨-, heffect⟩ := effect_of_step hstep
  cases heffect with
  | @testCompactRange i hmutex _ =>
    by_contra hw
    rw [State.withdraws, Bool.not_eq_false, Bool.and_eq_true] at hw
    obtain ⟨hcont, hany⟩ := hw
    obtain ⟨pc, hpc, hm⟩ := List.any_eq_true.mp hany
    rw [h.continues hu hmutex hpc (by simpa using hm)] at hcont
    exact Bool.noConfusion hcont
  | _ => rfl

/-- What a call of `TEST_CompactRange` leaves alone; it returns where its loop ends. -/
theorem State.testCompactRange_spec (s : State ι) (i : ι) :
    (s.testCompactRange i).request = s.request ∧
      (∀ j, (s.testCompactRange i).itemOf j = s.itemOf j) ∧
      ∀ j, (s.testCompactRange i).call j = .returned →
        s.call j = .returned ∨ (j = i ∧ s.continues i = false) := by
  have hcall : ∀ (pc : CallPc) j, Function.update s.call i pc j = .returned →
      s.call j = .returned ∨ (j = i ∧ pc = .returned) := by
    intro pc j hj
    rcases eq_or_ne j i with rfl | hne
    · exact .inr ⟨rfl, by simpa using hj⟩
    · exact .inl (by simpa [hne] using hj)
  rw [testCompactRange]
  split_ifs with hcont
  · obtain ⟨flag, items, he⟩ := State.maybeScheduleCompaction_eq
      { s with call := Function.update s.call i .waiting, manualCompaction := some i }
    refine ⟨by rw [he], fun j => State.itemOf_maybeScheduleCompaction j, fun j hj => ?_⟩
    rw [he] at hj
    exact (hcall _ j hj).imp_right fun h => absurd h.2 (by simp)
  · exact ⟨rfl, fun _ => rfl, fun j hj => (hcall _ j hj).imp_right fun h => absurd h.2 (by simp)⟩
  · exact ⟨rfl, fun _ => rfl, fun j hj => (hcall _ j hj).imp_right fun h =>
      ⟨h.1, by simpa using hcont⟩⟩
  · exact ⟨rfl, fun _ => rfl, fun j hj => (hcall _ j hj).imp_right fun h =>
      ⟨h.1, by simpa using hcont⟩⟩

omit [DecidableEq ι] in
theorem stage_none {r q : ManualCompaction} {es : List Event} :
    Stage r q es (none : Option (Pc ι)) ↔ if q.done then Covered r es else Parts r es q.begin :=
  Iff.rfl

/-- A request that is pointed to, and that no item works on, has parts up to where it begins. -/
theorem Tracks.parts (h : Tracks x) (hmutex : x.state.mutexHeld = false)
    (hm : x.state.manualCompaction = some m) (hitem : x.state.itemOf m = none) :
    Parts (x.origin m) (x.log m) (x.state.request m).begin := by
  have hstage := h.stage m
  rw [hitem, stage_none, h.outstanding.not_done hmutex hm] at hstage
  exact hstage

/-- What `BackgroundCompaction` asks the version set for. -/
def State.asks (s : State ι) (m : ι) (c : Option Compaction) : Event :=
  .compactRange (s.request m).level (s.request m).begin (s.request m).limit
    (c.map Compaction.largest)

theorem State.backgroundCompaction_of_imm (himm : s.imm = true) (c : Option Compaction) :
    s.backgroundCompaction k c = s.goto k .compactMemTable := by
  unfold backgroundCompaction
  rw [if_pos himm]

/-- An item that finds no request works on none. -/
theorem State.backgroundCompaction_of_none (hm : s.manualCompaction = none)
    (c : Option Compaction) : ∃ pc held, pc.manual = none ∧ s.backgroundCompaction k c =
      { s with items := s.items.set k pc, mutexHeld := held } := by
  unfold backgroundCompaction
  split_ifs
  · exact ⟨.compactMemTable, s.mutexHeld, rfl, rfl⟩
  · split
    · next hsome => exact absurd (hm.symm.trans hsome) (by simp)
    · next hsome => exact absurd (hm.symm.trans hsome) (by simp)
    · exact ⟨.lastBlock none none .ok, true, rfl, rfl⟩
    · split_ifs
      · exact ⟨.trivialMove, s.mutexHeld, rfl, rfl⟩
      · exact ⟨.doCompactionWork none none, s.mutexHeld, rfl, rfl⟩

/-- An item that finds a request works on it, or has found that it is done. -/
theorem State.backgroundCompaction_of_some (himm : s.imm = false)
    (hm : s.manualCompaction = some m) (c : Option Compaction) :
    s.backgroundCompaction k c = match c with
      | none => (s.setRequest m { s.request m with done := true }).reach k (some m) none .ok
      | some c => (s.setRequest m { s.request m with done := false }).goto k
          (.doCompactionWork (some m) (some c.largest)) := by
  unfold backgroundCompaction
  rw [if_neg (by simp [himm]), hm]
  cases c <;> rfl

/-- **An item starts**, and works on no request. -/
theorem Tracks.backgroundCompaction (h : Tracks x) (hmutex : x.state.mutexHeld = false)
    (hk : x.state.items[k]? = some .scheduled) (c : Option Compaction)
    (hcases : x.state.imm = true ∨ x.state.manualCompaction = none) :
    Tracks { x with state := x.state.backgroundCompaction k c } := by
  have hw := h.working.backgroundCompaction (k := k) c
  have ho := h.outstanding.backgroundCompaction hmutex hk c
  obtain ⟨pc, held, hpc, he⟩ : ∃ pc held, pc.manual = none ∧ x.state.backgroundCompaction k c =
      { x.state with items := x.state.items.set k pc, mutexHeld := held } := by
    rcases hcases with himm | hm
    · exact ⟨.compactMemTable, x.state.mutexHeld, rfl, x.state.backgroundCompaction_of_imm himm c⟩
    · exact x.state.backgroundCompaction_of_none hm c
  rw [he] at hw ho ⊢
  refine h.congr hw ho rfl (fun i => ?_) h.returned
  have hafter := List.getElem?_set_self (a := pc) (State.lt_of_getElem? hk)
  rw [hw.scheduled.itemOf_eq_none hafter (by simp [hpc]),
    h.working.scheduled.itemOf_eq_none hk (by simp [Pc.manual])]

/-- **An item starts**, and reads a request. -/
theorem Tracks.backgroundCompaction_request (h : Tracks x) (hmutex : x.state.mutexHeld = false)
    (hk : x.state.items[k]? = some .scheduled) (c : Option Compaction) (himm : x.state.imm = false)
    (hm : x.state.manualCompaction = some m) :
    Tracks { x with
      state := x.state.backgroundCompaction k c
      log := Function.update x.log m (x.log m ++ [x.state.asks m c]) } := by
  have hw := h.working.backgroundCompaction (k := k) c
  have ho := h.outstanding.backgroundCompaction hmutex hk c
  have hlt := State.lt_of_getElem? hk
  have hnone : ∀ i, x.state.itemOf i = none := fun i =>
    h.working.scheduled.itemOf_eq_none hk (by simp [Pc.manual])
  have hparts := h.parts hmutex hm (hnone m)
  have hasks : x.state.asks m c = .compactRange (x.origin m).level (x.state.request m).begin
      (x.origin m).limit (c.map Compaction.largest) := by
    rw [State.asks, h.level, h.limit]
  rw [x.state.backgroundCompaction_of_some himm hm] at hw ho ⊢
  -- only the request that is read has an item afterwards
  cases c with
  | none =>
    have hafter := State.getElem?_reach (s := x.state.setRequest m
      { x.state.request m with done := true }) hlt (some m) none .ok
    refine h.change hw ho rfl rfl hm (fun i hi => ?_) rfl rfl ?_
    · rw [hnone]
      exact hw.scheduled.itemOf_eq_none hafter fun h => hi (Option.some.inj h).symm
    · rw [hw.scheduled.itemOf_eq hafter rfl, hasks]
      exact ⟨rfl, _, _, hparts, rfl⟩
  | some c =>
    have hafter := State.getElem?_goto (s := x.state.setRequest m
      { x.state.request m with done := false }) hlt (.doCompactionWork (some m) (some c.largest))
    refine h.change hw ho rfl rfl hm (fun i hi => ?_) rfl rfl ?_
    · rw [hnone]
      exact hw.scheduled.itemOf_eq_none hafter fun h => hi (Option.some.inj h).symm
    · rw [hw.scheduled.itemOf_eq hafter rfl, hasks]
      exact ⟨rfl, _, _, _, hparts, rfl, rfl⟩

/-- **An item comes back** that works on no request. -/
theorem Tracks.comeBack (h : Tracks x) (hmutex : x.state.mutexHeld = false)
    (hk : x.state.items[k]? = some pc) (hpc : pc.manual = none) {manualEnd : Option InternalKey}
    (status : Status) (needs : Bool) :
    Tracks { x with state := x.state.comeBack k none manualEnd status needs } := by
  have hw : Working (x.state.comeBack k none manualEnd status needs) :=
    h.working.comeBack status needs (by simp)
  have ho : Outstanding (x.state.comeBack k none manualEnd status needs) :=
    h.outstanding.comeBack hmutex hk status needs
  obtain ⟨e, needs', he⟩ := x.state.comeBack_eq k status needs none manualEnd
  rw [he] at hw ho ⊢
  refine h.congr hw ho rfl (fun i => ?_) h.returned
  have hafter := State.getElem?_reach (s := { x.state with
    bgError := e, needsCompaction := needs' }) (State.lt_of_getElem? hk) none manualEnd status
  rw [hw.scheduled.itemOf_eq_none hafter (by simp [Pc.manual]),
    h.working.scheduled.itemOf_eq_none hk (by simp [hpc])]

/-- **An item comes back** from the compaction of a part. -/
theorem Tracks.worked (h : Tracks x) (hmutex : x.state.mutexHeld = false)
    {manualEnd : Option InternalKey} {status : Status} (needs : Bool)
    (hk : x.state.items[k]? = some (.doCompactionWork (some m) manualEnd))
    (hok : status.isOk = true) :
    Tracks { x with
      state := x.state.comeBack k (some m) manualEnd status needs
      log := Function.update x.log m (x.log m ++ [.doCompactionWork status]) } := by
  have hm : x.state.manualCompaction = some m := h.working.manual _ (List.mem_of_getElem? hk) m rfl
  have hw : Working (x.state.comeBack k (some m) manualEnd status needs) :=
    h.working.comeBack status needs fun i hi => Option.some.inj hi ▸ hm
  have ho : Outstanding (x.state.comeBack k (some m) manualEnd status needs) :=
    h.outstanding.comeBack hmutex hk status needs
  have hstage := h.stage m
  rw [h.working.scheduled.itemOf_eq hk rfl] at hstage
  obtain ⟨hdone, parts, b, largest, hparts, hend, hlog⟩ := hstage
  obtain rfl : status = .ok := by
    cases status with
    | ok => rfl
    | error => exact absurd hok (by simp)
  obtain ⟨e, needs', he⟩ := x.state.comeBack_eq k .ok needs (some m) manualEnd
  rw [he] at hw ho ⊢
  have hafter := State.getElem?_reach (s := { x.state with
    bgError := e, needsCompaction := needs' }) (State.lt_of_getElem? hk) (some m) manualEnd .ok
  refine h.change (q := x.state.request m) hw ho (Function.update_eq_self _ _).symm rfl hm
    (fun i hi => ?_) rfl rfl ?_
  · have hne : (some m : Option ι) ≠ some i := fun h => hi (Option.some.inj h).symm
    rw [h.working.scheduled.itemOf_eq_none hk hne]
    exact hw.scheduled.itemOf_eq_none hafter hne
  · rw [hw.scheduled.itemOf_eq hafter rfl, hlog, List.append_assoc, hend, Stage, hdone]
    exact ⟨rfl, hparts.concat⟩

theorem ManualCompaction.compacted_level (r : ManualCompaction) (status : Status)
    (manualEnd : Option InternalKey) : (r.compacted status manualEnd).level = r.level := by
  rw [compacted]
  split_ifs <;> rfl

theorem ManualCompaction.compacted_limit (r : ManualCompaction) (status : Status)
    (manualEnd : Option InternalKey) : (r.compacted status manualEnd).limit = r.limit := by
  rw [compacted]
  split_ifs <;> rfl

omit [DecidableEq ι] in
/-- What is left of a request behind the last block. -/
theorem Stage.compacted {r q : ManualCompaction} {es : List Event} {manual : Option ι}
    {manualEnd : Option InternalKey} {status : Status}
    (h : Stage r q es (some (.lastBlock manual manualEnd status))) :
    Stage r (q.compacted status manualEnd) es (none : Option (Pc ι)) := by
  obtain ⟨hok, h⟩ := h
  rw [ManualCompaction.compacted, if_neg (by simp [hok]), stage_none]
  cases hdone : q.done with
  | true =>
    rw [hdone, if_pos rfl] at h
    simpa [hdone] using h
  | false =>
    rw [hdone, if_neg (by simp)] at h
    simpa [hdone] using h

/-- The last block finds the request that its item works on. -/
theorem State.lastBlock_of_some (hm : s.manualCompaction = some m)
    (manualEnd : Option InternalKey) (status : Status) :
    s.lastBlock k (some m) manualEnd status = endBackgroundCall
      { s with
        request := Function.update s.request m ((s.request m).compacted status manualEnd)
        manualCompaction := none } k := by
  unfold lastBlock
  rw [hm]
  rfl

/-- **The last block** says what is left of the request. -/
theorem Tracks.lastBlock (h : Tracks x) {manual : Option ι} {manualEnd : Option InternalKey}
    {status : Status} (hk : x.state.items[k]? = some (.lastBlock manual manualEnd status)) :
    Tracks { x with state := x.state.lastBlock k manual manualEnd status } := by
  have hw := h.working.lastBlock hk
  have ho := h.outstanding.lastBlock_step hk
  have hlt := State.lt_of_getElem? hk
  cases manual with
  | none =>
    rw [State.lastBlock] at hw ho ⊢
    have hend := h.working.scheduled.itemOf_endBackgroundCall hlt
    obtain ⟨flag, items, he⟩ := x.state.endBackgroundCall_eq k
    rw [he] at hw ho hend ⊢
    refine h.congr hw ho rfl (fun i => (hend i).trans ?_) h.returned
    exact (h.working.scheduled.itemOf_eq_none hk (by simp [Pc.manual])).symm
  | some m =>
    have hm : x.state.manualCompaction = some m :=
      h.working.manual _ (List.mem_of_getElem? hk) m rfl
    have hstage := h.stage m
    rw [h.working.scheduled.itemOf_eq hk rfl] at hstage
    rw [x.state.lastBlock_of_some hm] at hw ho ⊢
    generalize ht : ({ x.state with
      request := Function.update x.state.request m ((x.state.request m).compacted status manualEnd)
      manualCompaction := none } : State ι) = t at hw ho ⊢
    have hscheduled : Scheduled t :=
      ht ▸ h.working.scheduled.congr rfl rfl rfl rfl h.working.scheduled.crash
    have hend := hscheduled.itemOf_endBackgroundCall (k := k) (ht ▸ hlt)
    obtain ⟨flag, items, he⟩ := t.endBackgroundCall_eq k
    rw [he] at hw ho hend ⊢
    -- nothing is written down here
    rw [← Function.update_eq_self m x.log]
    refine h.change hw ho (congrArg State.request ht).symm (congrArg State.call ht).symm hm
      (fun i hi => ?_) (ManualCompaction.compacted_level ..)
      (ManualCompaction.compacted_limit ..) ?_
    · refine (hend i).trans (h.working.scheduled.itemOf_eq_none hk fun h => ?_).symm
      exact hi (Option.some.inj h).symm
    · rw [hend]
      exact hstage.compacted

/-! ### The system -/

/-- **Every step** without an error and a shutdown keeps the invariant. -/
theorem Tracks.step {y : Tracked ι} (h : Tracks x) (hu : y.state.Undisturbed)
    (hstep : (tracked ι).step x a = some y) : Tracks y := by
  obtain ⟨t, ht, rfl⟩ := Option.map_eq_some_iff.mp hstep
  have hstep : (system ι).step x.state a = some t := ht
  have hbefore : x.state.Undisturbed := State.Undisturbed.of_step hu hstep
  have hw := h.working.step (h.withdraws hbefore hstep) hstep
  have ho := h.outstanding.step hstep
  obtain ⟨-, heffect⟩ := effect_of_step hstep
  cases heffect with
  | @testCompactRange i hmutex _ =>
    obtain ⟨hrequest, hitem, hreturned⟩ := x.state.testCompactRange_spec i
    refine h.congr hw ho hrequest hitem fun j hj => ?_
    rcases hreturned j hj with hj | ⟨rfl, hcont⟩
    · exact h.returned j hj
    · -- neither a shutdown nor an error has ended its loop
      simpa [State.continues, hbefore.1, hbefore.2] using hcont
  | @other imm needs schedule _ =>
    cases schedule with
    | false => exact h.congr hw ho rfl (fun _ => rfl) h.returned
    | true =>
      obtain ⟨flag, items, he⟩ := State.maybeScheduleCompaction_eq
        { x.state with imm := x.state.imm || imm, needsCompaction := needs }
      refine h.congr hw ho ?_ State.itemOf_maybeScheduleCompaction ?_
      · rw [if_pos rfl, he]
      · rw [if_pos rfl, he]
        exact h.returned
  | @recordBackgroundError status _ =>
    obtain ⟨e, he⟩ := x.state.recordBackgroundError_eq status
    rw [he] at hw ho ⊢
    exact h.congr hw ho rfl (fun _ => rfl) h.returned
  | destroy => exact absurd hu.1 (by simp [State.destroy])
  | @backgroundCall k c hmutex hk =>
    have hcall : x.state.backgroundCall k c = x.state.backgroundCompaction k c := by
      rw [State.backgroundCall, h.working.scheduled.flag_of_item hk, hbefore.1, hbefore.2]
      rfl
    have hevent : x.state.event (.backgroundCall k c) = if x.state.imm then none else
        x.state.manualCompaction.map fun m => (m, x.state.asks m c) := by
      rw [State.event, h.working.scheduled.flag_of_item hk, hbefore.1, hbefore.2]
      rfl
    rw [hcall, hevent]
    by_cases himm : x.state.imm = true
    · rw [if_pos himm]
      exact h.backgroundCompaction hmutex hk c (.inl himm)
    · rw [if_neg himm]
      cases hm : x.state.manualCompaction with
      | none => exact h.backgroundCompaction hmutex hk c (.inr hm)
      | some m => exact h.backgroundCompaction_request hmutex hk c (by simpa using himm) hm
  | @flushed k status needs _ hk =>
    have hend := (h.working.scheduled.compactMemTable status needs).itemOf_endBackgroundCall
      (State.lt_compactMemTable (State.lt_of_getElem? hk) status needs)
    obtain ⟨flag, items, he⟩ := (x.state.compactMemTable status needs).endBackgroundCall_eq k
    obtain ⟨imm, e, needs', hc⟩ := x.state.compactMemTable_eq status needs
    rw [he, hc] at hw ho hend ⊢
    refine h.congr hw ho rfl (fun i => (hend i).trans ?_) h.returned
    exact (h.working.scheduled.itemOf_eq_none hk (by simp [Pc.manual])).symm
  | @moved k status needs hmutex hk => exact h.comeBack hmutex hk rfl status needs
  | @flushedInside k status needs manual manualEnd _ _ _ =>
    obtain ⟨imm, e, needs', he⟩ := x.state.compactMemTable_eq status needs
    rw [he] at hw ho ⊢
    exact h.congr hw ho rfl (fun _ => rfl) h.returned
  | @worked k status needs manual manualEnd hmutex hk =>
    rw [State.event, hk]
    cases manual with
    | none => exact h.comeBack hmutex hk rfl status needs
    | some m => exact h.worked hmutex needs hk (State.comeBack_isOk hu.2).1
  | @lastBlock k manual manualEnd status hmutex hk => exact h.lastBlock hk

/-- Where there has been neither an error nor a shutdown, every request is on its way. -/
theorem Tracks.of_reachable (h : (tracked ι).Reachable x) : x.state.Undisturbed → Tracks x := by
  refine h.invariant (P := fun x => x.state.Undisturbed → Tracks x) ?_ ?_
  · rintro x ⟨hstate, horigin, hlog⟩ -
    exact .initial hstate horigin hlog
  · intro x a y hx hstep hu
    obtain ⟨t, ht, rfl⟩ := Option.map_eq_some_iff.mp hstep
    exact (hx (State.Undisturbed.of_step hu ht)).step hu hstep

/-- **A call that has returned has had its range compacted**, in every run without an error and
a shutdown: in parts, each of which begins where the one before ended, until there was nothing
left of it. -/
theorem covered_of_returned (h : (tracked ι).Reachable x) (hi : x.state.call i = .returned)
    (hu : x.state.Undisturbed) : Covered (x.origin i) (x.log i) := by
  have ht := Tracks.of_reachable h hu
  have hnone : x.state.itemOf i = none := by
    refine List.find?_eq_none.mpr fun pc hpc hm => ?_
    have hwait := ht.working.waiting i (ht.working.manual pc hpc i (by simpa using hm))
    rw [hi] at hwait
    exact CallPc.noConfusion hwait
  have hstage := ht.stage i
  rwa [hnone, stage_none, if_pos (ht.returned i hi)] at hstage

/-- A run in which a range is compacted in one part, and found to be done. -/
theorem covered_of_returned_part : ∃ x : Tracked Unit, x.state.call () = .returned ∧
    Covered (x.origin ()) (x.log ()) := by
  obtain ⟨x, hrun, hcall, hu⟩ : ∃ x, (tracked Unit).run
      { state := { request := fun _ => { level := 0 } }, origin := fun _ => { level := 0 } }
      [.testCompactRange (), .backgroundCall 0 (some { largest := ⟨[], 0, .kTypeValue⟩ }),
        .worked 0 .ok false, .lastBlock 0, .testCompactRange (), .backgroundCall 0 none,
        .lastBlock 0, .testCompactRange ()] = some x ∧ x.state.call () = .returned ∧
      x.state.Undisturbed := ⟨_, rfl, rfl, rfl, rfl⟩
  exact ⟨x, hcall, covered_of_returned
    ⟨_, ⟨⟨_, _, rfl, fun _ => rfl⟩, rfl, rfl⟩, System.steps_of_run hrun⟩ hcall hu⟩

/-! ### All the levels -/

/-- The loop of `DBImpl::CompactRange` over the levels of a version, which answers
`OverlapInLevel`: the last level that has an overlap with the range. -/
def maxLevelWithFiles (numLevels : ℕ) (overlapInLevel : ℕ → Bool) : ℕ :=
  (List.range' 1 (numLevels - 1)).foldl
    (fun maxLevel level => if overlapInLevel level then level else maxLevel) 1

/-- `DBImpl::CompactRange`: the calls of `TEST_CompactRange` it makes, in order. -/
def compactRange (numLevels : ℕ) (overlapInLevel : ℕ → Bool) (begin limit : Option InternalKey) :
    List ManualCompaction :=
  (List.range (maxLevelWithFiles numLevels overlapInLevel)).map fun level =>
    { level := level, begin := begin, limit := limit }

theorem maxLevelWithFiles_succ (n : ℕ) (overlapInLevel : ℕ → Bool) :
    maxLevelWithFiles (n + 2) overlapInLevel = if overlapInLevel (n + 1) then n + 1
      else maxLevelWithFiles (n + 1) overlapInLevel := by
  rw [maxLevelWithFiles, show n + 2 - 1 = n + 1 from rfl, List.range'_concat, List.foldl_append]
  simp [maxLevelWithFiles, Nat.add_comm]

/-- A level with an overlap is not behind the last one that the loop has found. -/
theorem le_maxLevelWithFiles {overlapInLevel : ℕ → Bool} {level : ℕ}
    (hover : overlapInLevel level = true) : ∀ {numLevels : ℕ}, level < numLevels →
      level ≤ maxLevelWithFiles numLevels overlapInLevel
  | 0, hlt => absurd hlt (Nat.not_lt_zero level)
  | 1, hlt => by omega
  | n + 2, hlt => by
    rw [maxLevelWithFiles_succ]
    split_ifs with hlast
    · exact Nat.le_of_lt_succ hlt
    · have hne : level ≠ n + 1 := by
        rintro rfl
        exact hlast hover
      exact le_maxLevelWithFiles hover (by omega)

/-- **What `CompactRange` has compacted** once its calls have returned, in every run without an
error and a shutdown: the range, at every level above one that has an overlap with it. The
calls are named by their levels. -/
theorem compactRange_covered {x : Tracked (ℕ ⊕ ι)} (h : (tracked (ℕ ⊕ ι)).Reachable x)
    {numLevels : ℕ} {overlapInLevel : ℕ → Bool} {begin limit : Option InternalKey}
    (hcalls : ∀ level r, (compactRange numLevels overlapInLevel begin limit)[level]? = some r →
      x.origin (.inl level) = r ∧ x.state.call (.inl level) = .returned)
    (hu : x.state.Undisturbed) {level deeper : ℕ} (hlt : level < deeper)
    (hdeeper : deeper < numLevels) (hover : overlapInLevel deeper = true) :
    Covered { level := level, begin := begin, limit := limit } (x.log (.inl level)) := by
  have hlevel : level < maxLevelWithFiles numLevels overlapInLevel :=
    lt_of_lt_of_le hlt (le_maxLevelWithFiles hover hdeeper)
  obtain ⟨horigin, hreturned⟩ := hcalls level { level := level, begin := begin, limit := limit }
    (by simp [compactRange, hlevel])
  exact horigin ▸ covered_of_returned h hreturned hu

end LevelDb.Background
