import UbsMem.LeaseRecovery

/-! # Emptying the lease cache

`MLSManager::DeleteAllBufferedMem` gives the leases of the cache back to the engine.  It
is guarded by the switch of the configuration, but `RecoverFromRecord` fills the cache
whatever the switch says, and the code it returns is always zero.
-/
namespace UbsMem

open List Function

/-! ### One call -/

section Drop

open MlsManager

variable {S : Type} {view : S → Name → Option LeaseRecord} {rs : LeaseRecords S}
  {fits : Name → Prop} {ok : S → Prop} {store : S} {m : MlsManager S}

/-- The answers of `LeaseFree` after which the engine has the lease no more. -/
def Frees (reply : Int) : Prop := reply = 0 ∨ reply = mxmErrLeaseNotExist

instance (reply : Int) : Decidable (Frees reply) := inferInstanceAs (Decidable (_ ∨ _))

section Log

variable (rs)

/-- The record store, next to the list of the leases that are gone from the engine:
`LeaseFree` is called once a record is marked for it. -/
def LeaseRecords.logged (reply : Name → Int) : LeaseRecords (S × List Name) where
  addMemLeaseInput input s := (rs.addMemLeaseInput input s.1).map id (·, s.2)
  addMemLeaseResult name result s := (rs.addMemLeaseResult name result s.1).map id (·, s.2)
  updateMemLeaseRecordState name state s :=
    let (ret, store) := rs.updateMemLeaseRecordState name state s.1
    (ret, store, if state = .preDel ∧ ret = 0 ∧ Frees (reply name) then s.2 ++ [name] else s.2)
  updateMemLeaseRecord name context size s :=
    (rs.updateMemLeaseRecord name context size s.1).map id (·, s.2)
  delMemLeaseRecord name s := (rs.delMemLeaseRecord name s.1).map id (·, s.2)

/-- The manager with the list, which is empty at first. -/
def MlsManager.logged (m : MlsManager S) : MlsManager (S × List Name) :=
  { m with store := (m.store, []) }

/-- The leases that are gone from the engine after `DeleteAllBufferedMem`. -/
def freedByDeleteAll (reply : Name → Int) (m : MlsManager S) : List Name :=
  (m.logged.deleteAllBufferedMem (rs.logged reply) reply).2.store.2

variable (reply : Name → Int) (log : List Name)

theorem leaseFreeMemory_logged (name : Name) (store : S) :
    let res := leaseFreeMemory (rs.logged reply) name (reply name) (store, log)
    (res.1, res.2.1) = leaseFreeMemory rs name (reply name) store := by
  unfold leaseFreeMemory
  dsimp only [LeaseRecords.logged, Prod.map, id]
  split_ifs <;> rfl

theorem freeBuffered_logged (rest : List MlsMemInfo) (store : S) :
    let res := freeBuffered (rs.logged reply) reply rest (store, log)
    (res.1, res.2.1) = freeBuffered rs reply rest store := by
  induction rest generalizing store log with
  | nil => rfl
  | cons info rest ih =>
    have hfree := leaseFreeMemory_logged rs reply log info.name store
    unfold freeBuffered
    dsimp only at hfree ih ⊢
    rw [← hfree, ← ih]

theorem deleteAllBufferedMem_logged (m : MlsManager S) :
    let res := m.logged.deleteAllBufferedMem (rs.logged reply) reply
    (res.1, { res.2 with store := res.2.store.1 }) = m.deleteAllBufferedMem rs reply := by
  have hnuma := freeBuffered_logged rs reply [] m.numaBufferedMemory m.store
  have hfd := freeBuffered_logged rs reply
    (freeBuffered (rs.logged reply) reply m.numaBufferedMemory (m.store, [])).2.2
    m.fdBufferedMemory (freeBuffered rs reply m.numaBufferedMemory m.store).2
  unfold deleteAllBufferedMem MlsManager.logged
  dsimp only at hnuma hfd ⊢
  rw [← hfd, ← hnuma]
  split_ifs <;> rfl

end Log

theorem leaseFreeMemory_frees (hlaw : rs.Lawful view fits ok) (log : List Name) (hok : ok store)
    {name : Name} {r : LeaseRecord} (hrecord : view store name = some r) {reply : Name → Int}
    (hreply : Frees (reply name)) :
    ∃ store', leaseFreeMemory (rs.logged reply) name (reply name) (store, log) =
      (0, store', log ++ [name]) ∧ ok store' ∧ view store' = update (view store) name none := by
  have hmark := (hlaw.found name r store hrecord).1 .preDel
  obtain ⟨hok', hcases⟩ := hlaw.mark name .preDel store hok
  obtain ⟨-, r', -, hview⟩ := hcases.resolve_left fun hfailed => hfailed.1 hmark
  have hmarked : view (rs.updateMemLeaseRecordState name .preDel store).2 name =
      some { r' with state := .preDel } := by
    rw [hview, update_self]
  have hdelete := (hlaw.found name _ _ hmarked).2
  obtain ⟨hok'', hcases'⟩ := hlaw.delete name _ hok'
  obtain ⟨-, _, -, hview'⟩ := hcases'.resolve_left fun hfailed => hfailed.1 hdelete
  refine ⟨_, ?_, hok'', by rw [hview', hview, update_idem]⟩
  have hfrees : ¬(reply name ≠ 0 ∧ reply name ≠ mxmErrLeaseNotExist) := by
    rintro ⟨hne, hne'⟩
    exact hreply.elim hne hne'
  unfold leaseFreeMemory
  dsimp only [LeaseRecords.logged, Prod.map, id]
  rw [if_neg (not_not.mpr hmark), if_neg hfrees, if_neg (not_not.mpr hdelete), hdelete,
    if_pos ⟨rfl, hmark, hreply⟩]

/-- **A loop frees every lease of its list**, if each has a record and the engine frees it;
the records of other names stay. -/
theorem freeBuffered_frees (hlaw : rs.Lawful view fits ok) (reply : Name → Int)
    (rest : List MlsMemInfo) (log : List Name) (hok : ok store)
    (hnodup : (rest.map MlsMemInfo.name).Nodup)
    (hrecord : ∀ info ∈ rest, ∃ r, view store info.name = some r)
    (hreply : ∀ info ∈ rest, Frees (reply info.name)) :
    let res := freeBuffered (rs.logged reply) reply rest (store, log)
    res.1 = [] ∧ ok res.2.1 ∧ res.2.2 = log ++ rest.map MlsMemInfo.name ∧
      ∀ n, n ∉ rest.map MlsMemInfo.name → view res.2.1 n = view store n := by
  induction rest generalizing store log with
  | nil => exact ⟨rfl, hok, (append_nil log).symm, fun _ _ => rfl⟩
  | cons info rest ih =>
    obtain ⟨hnew, hnodup⟩ := nodup_cons.mp hnodup
    obtain ⟨r, hr⟩ := hrecord info (mem_cons_self ..)
    obtain ⟨store', hfree, hok', hview⟩ :=
      leaseFreeMemory_frees hlaw log hok hr (hreply info (mem_cons_self ..))
    have hrecord' : ∀ x ∈ rest, ∃ r, view store' x.name = some r := by
      intro x hx
      have hne : x.name ≠ info.name := fun heq => hnew (heq ▸ mem_map_of_mem hx)
      rw [hview, update_of_ne hne]
      exact hrecord x (mem_cons_of_mem _ hx)
    obtain ⟨hnil, hok'', hfreed, hothers⟩ :=
      ih (log ++ [info.name]) hok' hnodup hrecord' fun x hx =>
      hreply x (mem_cons_of_mem _ hx)
    unfold freeBuffered
    dsimp only
    rw [hfree]
    refine ⟨hnil, hok'', ?_, fun n hn => ?_⟩
    · rw [hfreed, append_assoc]
      rfl
    · rw [map_cons, mem_cons, not_or] at hn
      rw [hothers n hn.2, hview, update_of_ne hn.1]

theorem Kept.cache_names_nodup (h : Kept view ok m) (kind : Bool) :
    ((m.cache kind).map MlsMemInfo.name).Nodup := by
  refine List.Nodup.map_on (fun x hx y hy heq => ?_) (h.cache.nodup kind)
  obtain ⟨-, -, -, -, -, -, honly⟩ := h.booked.of_cached hy
  exact ((honly kind x).mp ⟨hx, heq⟩).2

/-- **The cache is emptied**, in the store and in the engine, if the switch is on or there
is nothing in it. -/
theorem Kept.cache_dropped (hlaw : rs.Lawful view fits ok) (h : Kept view ok m)
    (hon : m.isEnableLeaseBuffered = true ∨ m.buffered = []) {reply : Name → Int}
    (hreply : ∀ info ∈ m.buffered, Frees (reply info.name)) :
    (m.deleteAllBufferedMem rs reply).1 = 0 ∧
      (∀ n r, view (m.deleteAllBufferedMem rs reply).2.store n = some r → r.appContext.pid ≠ 0) ∧
      ∀ info ∈ m.buffered, info.name ∈ freedByDeleteAll rs reply m := by
  have hrecord : ∀ kind, ∀ info ∈ m.cache kind, ∃ r, view m.store info.name = some r := by
    intro kind info hinfo
    obtain ⟨r, hr, -⟩ := h.booked.of_cached hinfo
    exact ⟨r, hr⟩
  obtain ⟨hnuma, hok, hfreed, hothers⟩ := freeBuffered_frees hlaw reply m.numaBufferedMemory []
    h.ok (h.cache_names_nodup true) (hrecord true) fun info hinfo =>
      hreply info (mem_append_left _ hinfo)
  -- no lease of one kind has the name of one of the other
  have hrecord' : ∀ info ∈ m.fdBufferedMemory, ∃ r, view
      (MlsManager.freeBuffered (rs.logged reply) reply m.numaBufferedMemory (m.store, [])).2.1
        info.name = some r := by
    intro info hinfo
    rw [hothers]
    · exact hrecord false info hinfo
    · intro hname
      obtain ⟨x, hx, heq⟩ := mem_map.mp hname
      exact h.booked.mapsAgree.numaNotFd x hx info hinfo heq
  obtain ⟨hfd, -, hfreed', -⟩ := freeBuffered_frees hlaw reply m.fdBufferedMemory
    _ hok (h.cache_names_nodup false) hrecord' fun info hinfo =>
      hreply info (mem_append_right _ hinfo)
  have hres : (m.logged.deleteAllBufferedMem (rs.logged reply) reply).1 = 0 ∧
      (m.logged.deleteAllBufferedMem (rs.logged reply) reply).2.cachedNames = [] ∧
      (m.logged.deleteAllBufferedMem (rs.logged reply) reply).2.store.2 =
        m.buffered.map MlsMemInfo.name := by
    unfold MlsManager.deleteAllBufferedMem cachedNames buffered MlsManager.logged
    unfold buffered at hon
    split_ifs with hoff hnone
    · simp_all
    · simp_all
    · dsimp only
      rw [hnuma, hfd, hfreed', hfreed]
      exact ⟨rfl, rfl, map_append.symm⟩
  have hafter := (h.deleteAllBufferedMem hlaw reply).booked.mapsAgree
  rw [← deleteAllBufferedMem_logged] at hafter ⊢
  refine ⟨hres.1, fun n r hr hpid => ?_, fun info hinfo => ?_⟩
  · have hcached : n ∈ (m.logged.deleteAllBufferedMem (rs.logged reply) reply).2.cachedNames :=
      (hafter.pid n r hr).mpr hpid
    rw [hres.2.1] at hcached
    cases hcached
  · rw [freedByDeleteAll, hres.2.2]
    exact mem_map_of_mem hinfo

end Drop

/-! ### Runs with restarts -/

section Restarts

variable {S : Type} {view : S → Name → Option LeaseRecord} {rs : LeaseRecords S}
  {fits : Name → Prop} {ok : S → Prop} {store : S}

/-- The store when the daemon stops inside `LeaseFreeMemory`: records were marked with a
state, or deleted. -/
def cutStore (rs : LeaseRecords S) (cut : List (Name × Option RecordState)) (store : S) : S :=
  cut.foldl (fun store change => match change.2 with
    | some state => (rs.updateMemLeaseRecordState change.1 state store).2
    | none => (rs.delMemLeaseRecord change.1 store).2) store

theorem RecordChange.sized {res : Int × S} {name : Name} {f : LeaseRecord → Option LeaseRecord}
    (h : RecordChange view store res name f)
    (hf : ∀ r r', SizedRecord r → f r = some r' → SizedRecord r')
    (hsized : ∀ n r, view store n = some r → SizedRecord r) :
    ∀ n r, view res.2 n = some r → SizedRecord r := by
  intro n r hr
  rcases h with ⟨-, hview⟩ | ⟨-, old, hold, hview⟩
  · exact hsized n r (hview ▸ hr)
  · rw [hview] at hr
    by_cases hn : n = name
    · subst hn
      rw [update_self] at hr
      exact hf old r (hsized n old hold) hr
    · rw [update_of_ne hn] at hr
      exact hsized n r hr

theorem sized_cutStore (hlaw : rs.Lawful view fits ok) (cut : List (Name × Option RecordState))
    (hok : ok store) (hsized : ∀ n r, view store n = some r → SizedRecord r) :
    ok (cutStore rs cut store) ∧ ∀ n r, view (cutStore rs cut store) n = some r →
    SizedRecord r := by
  induction cut generalizing store with
  | nil => exact ⟨hok, hsized⟩
  | cons change cut ih =>
    obtain ⟨name, _ | state⟩ := change
    · obtain ⟨hok', hchange⟩ := hlaw.delete name store hok
      exact ih hok' (hchange.sized nofun hsized)
    · obtain ⟨hok', hchange⟩ := hlaw.mark name state store hok
      refine ih hok' (hchange.sized (fun r r' hr heq => ?_) hsized)
      obtain rfl := Option.some.inj heq
      exact hr

/-- The records without a process are those of the cache, which have its size. -/
theorem Kept.sized {m : MlsManager S} (h : Kept view ok m) :
    ∀ n r, view m.store n = some r → SizedRecord r := by
  intro n r hr hpid
  cases h.booked n with
  | absent hrecord => rw [hrecord] at hr; cases hr
  | used info r' hrecord _ _ _ hlive =>
    obtain rfl : r' = r := Option.some.inj (hrecord.symm.trans hr)
    exact absurd hpid hlive
  | buffered info r' hrecord _ _ hmatches _ honly =>
    obtain rfl : r' = r := Option.some.inj (hrecord.symm.trans hr)
    have hsize := h.cache.sizes _ info ((honly _ info).mpr ⟨rfl, rfl⟩).1
    rwa [hmatches.size, bufferedSize, hmatches.unitSize, hmatches.memIds] at hsize

end Restarts

/-- The manager of a daemon that starts again on the records of `store`. -/
def restartedManager (config : StoreConfig) (alive : UInt32 → Bool) (now : Name → Nat)
    (stage : Name → Int × MemStage) (leaseCachedSwitch : Bool) (maxBufferedMemNum : Nat)
    (store : RecordStore) : MlsManager RecordStore :=
  let store := initializeStore config alive store.mem
  (MlsManager.recoverFromRecord (storeLeaseRecords config) now stage leaseCachedSwitch
    (listMemLeaseRecord store) (.start true maxBufferedMemNum store, .empty)).2.1

/-- **The managers that operations and restarts reach**, with the switch set either way at
each start.  Callers have a pid, names are names of records, and the engine answers about
the records that a restart asks about. -/
inductive LeaseRuns (config : StoreConfig) : MlsManager RecordStore → Prop
  | start (alive : UInt32 → Bool) (isEnableLeaseBuffered : Bool) (maxBufferedMemNum : Nat) :
      LeaseRuns config (.start isEnableLeaseBuffered maxBufferedMemNum (.start config alive))
  | step {m : MlsManager RecordStore} (op : MlsOp) (hrun : LeaseRuns config m) (hpid : op.HasPid)
      (hnames : ∀ name ∈ op.adds, NameOk name) :
      LeaseRuns config (m.step (storeLeaseRecords config) op)
  | restart {m : MlsManager RecordStore} (cut : List (Name × Option RecordState))
      (alive : UInt32 → Bool) (now : Name → Nat) (stage : Name → Int × MemStage)
      (leaseCachedSwitch : Bool) (maxBufferedMemNum : Nat) (hrun : LeaseRuns config m)
      (hanswered : ∀ record ∈ listMemLeaseRecord (initializeStore config alive
        (cutStore (storeLeaseRecords config) cut m.store).mem),
        Answered record (stage record.1.name)) :
      LeaseRuns config (restartedManager config alive now stage leaseCachedSwitch
        maxBufferedMemNum (cutStore (storeLeaseRecords config) cut m.store))

theorem LeaseRuns.kept {config : StoreConfig} {m : MlsManager RecordStore}
    (h : LeaseRuns config m) : Kept leaseRecord (StoreSound config) m := by
  induction h with
  | start alive isEnableLeaseBuffered maxBufferedMemNum =>
    exact .start _ _ (storeSound_start config alive) (leaseRecord_start config alive)
  | step op _ hpid hnames ih => exact ih.step (storeLeaseRecords_sound config) hpid hnames
  | restart cut alive now stage leaseCachedSwitch maxBufferedMemNum _ hanswered ih =>
    obtain ⟨hsound, hsized⟩ := sized_cutStore (storeLeaseRecords_sound config) cut ih.ok ih.sized
    have hnew := hsound.restart alive
    obtain ⟨hok, hbooked, hcache⟩ := booked_recoverFromRecord hnew now stage leaseCachedSwitch true
      maxBufferedMemNum .empty
    refine ⟨fun name => hbooked name ?_, hcache fun record hmem => ?_, hok⟩
    · rintro record hmem rfl
      exact hanswered record hmem
    · have hrecord := leaseRecord_of_listed hnew hmem
      rw [hsound.leaseRecord_restart] at hrecord
      exact hsized _ _ hrecord

/-- **Maps and records agree in every such run.** -/
theorem lease_maps_agree {config : StoreConfig} {m : MlsManager RecordStore}
    (hrun : LeaseRuns config m) : MapsAgree (leaseRecord m.store) m :=
  hrun.kept.booked.mapsAgree

/-- **`DeleteAllBufferedMem` empties the cache** of any manager that operations and
restarts reach, if the switch is on or nothing is buffered and the engine frees the leases:
no record without a process is left, and no lease that was in the cache exists in the engine. -/
theorem lease_cache_dropped (config : StoreConfig) (m : MlsManager RecordStore)
    (hrun : LeaseRuns config m) (hon : m.isEnableLeaseBuffered = true ∨ m.buffered = [])
    (reply : Name → Int)
    (hreply : ∀ info ∈ m.buffered, Frees (reply info.name)) :
    let res := m.deleteAllBufferedMem (storeLeaseRecords config) reply
    res.1 = 0 ∧ (∀ n r, leaseRecord res.2.store n = some r → r.appContext.pid ≠ 0) ∧
      ∀ info ∈ m.buffered, info.name ∈ freedByDeleteAll (storeLeaseRecords config) reply m :=
  hrun.kept.cache_dropped (storeLeaseRecords_sound config) hon hreply

theorem leaseRuns_bufferRun : LeaseRuns smallStoreConfig (bufferRun 4096) := by
  have hname : NameOk [97] := ⟨by decide, by decide⟩
  have hstart : LeaseRuns smallStoreConfig _ := .start (fun _ => true) true 2
  have hadded := hstart.step (.preAddUsedMem [97] 4096 ⟨10, 0, 0⟩ true 0) (by simp [MlsOp.HasPid])
    (forall_mem_singleton.mpr hname)
  have hmade := hadded.step (.finishAddUsedMem [97] 1 4096 0 [7, 8]) trivial (forall_mem_nil _)
  exact hmade.step (.preDeleteUsedMem [97]) trivial (forall_mem_nil _)

/-- The manager of that run after a restart with the switch off. -/
def restartedRun : MlsManager RecordStore :=
  restartedManager smallStoreConfig (fun _ => true) (fun _ => 0) (fun _ => (0, .exist)) false 2
    (bufferRun 4096).store

theorem leaseRuns_restartedRun : LeaseRuns smallStoreConfig restartedRun :=
  .restart [] _ _ _ _ _ leaseRuns_bufferRun fun _ _ _ => .inl rfl

theorem lease_maps_agree_buffered : restartedRun.cachedNames = [[97]] ∧
    MapsAgree (leaseRecord restartedRun.store) restartedRun :=
  ⟨by decide, lease_maps_agree leaseRuns_restartedRun⟩

theorem lease_cache_dropped_numa :
    let res := (bufferRun 4096).deleteAllBufferedMem (storeLeaseRecords smallStoreConfig) fun _ => 0
    (bufferRun 4096).cachedNames = [[97]] ∧
      ∀ n r, leaseRecord res.2.store n = some r → r.appContext.pid ≠ 0 :=
  ⟨by decide, (lease_cache_dropped smallStoreConfig (bufferRun 4096) leaseRuns_bufferRun
    (.inl (by decide)) (fun _ => 0) fun _ _ => .inl rfl).2.1⟩

/-- **The cache survives the switch**: the daemon starts again with the switch off, the
lease is in its cache, and `DeleteAllBufferedMem` returns zero and leaves the record and
the lease.  With the switch on it does so when the engine refuses. -/
theorem lease_cache_not_dropped :
    (let res := restartedRun.deleteAllBufferedMem (storeLeaseRecords smallStoreConfig) fun _ => 0;
      LeaseRuns smallStoreConfig restartedRun ∧ restartedRun.cachedNames = [[97]] ∧ res.1 = 0 ∧
        (leaseRecord res.2.store [97]).map (·.appContext.pid) = some 0 ∧
        freedByDeleteAll (storeLeaseRecords smallStoreConfig) (fun _ => 0) restartedRun = []) ∧
      (let res := (bufferRun 4096).deleteAllBufferedMem (storeLeaseRecords smallStoreConfig)
          fun _ => mxmErrUbseInner;
      res.1 = 0 ∧ (leaseRecord res.2.store [97]).map (·.appContext.pid) = some 0) :=
  ⟨⟨leaseRuns_restartedRun, by decide⟩, by decide⟩

end UbsMem
