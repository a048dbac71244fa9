import UbsMem.LeaseBook
import UbsMem.Monitor

/-! # Leases after a restart

`MLSManager::RecoverFromRecord` fills the three maps from the lease records.  A record
that says that its lease was being made or given back is settled by asking the engine
how far it is: the record is deleted, or it is kept and the maps get its lease.  When
the question itself fails, the record stays and no map gets the lease.
-/
namespace UbsMem

open List Function

/-- `MemLeaseInfo`: a record as the store lists it. -/
abbrev MemLeaseInfo := LeaseMallocInput × LeaseMallocResult

namespace MlsManager

variable {S : Type} (rs : LeaseRecords S)

/-- `RemovePreAddRecord`, when `GetLeaseMemoryStage` answers `reply`: the code, and whether
the record was to be deleted.  The clock shows `now`. -/
def removePreAddRecord (now : Nat) (reply : Int × MemStage) (record : MemLeaseInfo) (store : S)
    (monitor : Monitor) : (Int × Bool) × S × Monitor :=
  let name := record.1.name
  if reply.1 = mxmErrLeaseNotExist then
    ((ubsmOk, true), (rs.delMemLeaseRecord name store).2, monitor)
  else if reply.1 ≠ 0 then ((reply.1, false), store, monitor)
  else if reply.2 = .notExist ∨ reply.2 = .deleting then
    ((ubsmOk, true), (rs.delMemLeaseRecord name store).2, monitor)
  else
    ((ubsmOk, false), store, monitor.addDelayRemoveRecord
      (.make now name oneMinuteMs true record.1.appContext true (!record.1.fdMode) true))

/-- `RollbackPreDeleteRecord`: the code, and the new state of the record. -/
def rollbackPreDeleteRecord (reply : Int × MemStage) (record : MemLeaseInfo) (store : S) :
    (Int × RecordState) × S :=
  let name := record.1.name
  if reply.1 = mxmErrLeaseNotExist then
    ((ubsmOk, .deleted), (rs.updateMemLeaseRecordState name .deleted store).2)
  else if reply.1 ≠ 0 then ((reply.1, record.1.state), store)
  else if reply.2 = .notExist ∨ reply.2 = .deleting ∨ reply.2 = .errWaitUnexport then
    ((ubsmOk, .deleted), (rs.updateMemLeaseRecordState name .deleted store).2)
  else ((ubsmOk, .finish), (rs.updateMemLeaseRecordState name .finish store).2)

/-- The entry of a record. -/
def infoOfRecord (record : MemLeaseInfo) (state : RecordState) : MlsMemInfo where
  name := record.1.name
  appContext := record.1.appContext
  size := record.1.size
  numaId := record.2.numaId
  memIds := record.2.memIds
  unitSize := record.2.unitSize
  perflevel := record.1.distance.toNat
  slotId := record.2.slotId
  isNuma := !record.1.fdMode
  state := state

/-- A lease without a process goes to the cache, one with a process is in use. -/
def addRecovered (info : MlsMemInfo) (m : MlsManager S) : MlsManager S :=
  if info.appContext.pid = 0 then
    m.setCache info.isNuma (setInsert mlsMemKeyLt info (m.cache info.isNuma))
  else m.emplace info.name info

/-- The end of the loop of `RecoverFromRecord`, once the record is settled in `state`. -/
def finishRecord (record : MemLeaseInfo) (state : RecordState) (m : MlsManager S) : MlsManager S :=
  if state = .deleted then m.withStore (rs.delMemLeaseRecord record.1.name m.store).2
  else m.addRecovered (infoOfRecord record state)

/-- The loop of `RecoverFromRecord` for one record, when the engine answers `reply` if it
is asked. -/
def recoverRecord (now : Nat) (reply : Int × MemStage) (record : MemLeaseInfo)
    (s : MlsManager S × Monitor) : MlsManager S × Monitor :=
  let (m, monitor) := s
  match record.1.state with
  | .preAdd =>
    let ((ret, needToDelete), store, monitor) :=
      removePreAddRecord rs now reply record m.store monitor
    if ret ≠ 0 ∨ needToDelete then (m.withStore store, monitor)
    else ((m.withStore store).addRecovered (infoOfRecord record .preAdd), monitor)
  | .preDel =>
    let ((ret, state), store) := rollbackPreDeleteRecord rs reply record m.store
    if ret ≠ 0 then (m.withStore store, monitor)
    else ((m.withStore store).finishRecord rs record state, monitor)
  | state => (m.finishRecord rs record state, monitor)

/-- `RecoverFromRecord`: the records that the store lists, the clock and the answer of the
engine for each name, and the switch of the configuration. -/
def recoverFromRecord (now : Name → Nat) (stage : Name → Int × MemStage)
    (leaseCachedSwitch : Bool) (records : List MemLeaseInfo) (s : MlsManager S × Monitor) :
    Int × MlsManager S × Monitor :=
  let (m, monitor) := records.foldl
    (fun s record => recoverRecord rs (now record.1.name) (stage record.1.name) record s) s
  (0, { m with isEnableLeaseBuffered := leaseCachedSwitch }, monitor)

end MlsManager

/-! ### One record -/

/-- What a listed record says of its lease. -/
def recordOf (record : MemLeaseInfo) : LeaseRecord where
  fdMode := record.1.fdMode
  size := record.1.size
  appContext := record.1.appContext
  state := record.1.state
  distance := record.1.distance
  memIds := record.2.memIds
  numaId := record.2.numaId
  unitSize := record.2.unitSize
  slotId := record.2.slotId

/-- The engine need not be asked about the record, or it answers. -/
def Answered (record : MemLeaseInfo) (reply : Int × MemStage) : Prop :=
  record.1.state = .preAdd ∨ record.1.state = .preDel →
    reply.1 = 0 ∨ reply.1 = mxmErrLeaseNotExist

section Recovery

open MlsManager

variable {S : Type} {view : S → Name → Option LeaseRecord} {rs : LeaseRecords S}
  {fits : Name → Prop} {ok : S → Prop} {m : MlsManager S} {record : MemLeaseInfo}

variable (view) in
/-- A record that the loop has not come to. -/
structure Pending (m : MlsManager S) (name : Name) (r : LeaseRecord) : Prop where
  recorded : view m.store name = some r
  used : m.used name = none
  cached : NotCached m name

/-- A record without a process has the size under which its lease was cached. -/
def SizedRecord (r : LeaseRecord) : Prop :=
  r.appContext.pid = 0 → r.size = r.unitSize * r.memIds.length % 2 ^ 64

variable (view ok) in
/-- What the loop does for the record of a name: the name is settled, if `answered`, and
the others are left alone.  The cache stays in order if the record is `sized`. -/
structure Settles (answered sized : Prop) (name : Name) (m m' : MlsManager S) : Prop where
  ok : ok m'.store
  others : ∀ n, n ≠ name → SameAt view m m' n
  booked : answered → BookedAt view m' name
  cache : sized → CacheOk m → CacheOk m'

theorem settles_addRecovered (hok : ok m.store) {state state' : RecordState}
    (h : Pending view m record.1.name { recordOf record with state := state' }) {answered : Prop} :
    Settles view ok answered (SizedRecord (recordOf record)) record.1.name m
      (m.addRecovered (infoOfRecord record state)) := by
  have hmatches : MatchesRecord (infoOfRecord record state)
      { recordOf record with state := state' } :=
    ⟨rfl, rfl, rfl, rfl, rfl, rfl⟩
  unfold addRecovered
  split_ifs with hpid
  · have hmem := mem_cache_insert (infoOfRecord record state) h.cached
    refine ⟨by rwa [store_setCache], fun n hn => ⟨by rw [used_setCache], fun kind x hx => ?_, ?_⟩,
      fun _ => ?_, fun hsized hcache => hcache.insert _ h.cached (hsized hpid)⟩
    · rw [hmem, or_iff_left]
      rintro ⟨-, rfl⟩
      exact hn hx.symm
    · rw [store_setCache]
    · refine .buffered (infoOfRecord record state) _ ?_ ?_ rfl hmatches hpid fun kind x => ?_
      · rw [store_setCache]
        exact h.recorded
      · rw [used_setCache]
        exact h.used
      · rw [hmem]
        constructor
        · rintro ⟨hx | hx, hname⟩
          · exact absurd hname (h.cached kind x hx)
          · exact hx
        · rintro ⟨rfl, rfl⟩
          exact ⟨.inr ⟨rfl, rfl⟩, rfl⟩
  · have hfree : m.used (infoOfRecord record state).name = none := h.used
    rw [emplace_eq hfree]
    refine ⟨hok, fun n hn => ⟨?_, fun _ _ _ => Iff.rfl, rfl⟩, fun _ => ?_,
      fun _ hcache => { hcache with }⟩
    · rw [used_put]
      exact update_of_ne hn _ _
    · refine .used (infoOfRecord record state) _ h.recorded ?_ rfl hmatches hpid h.cached
      rw [used_put]
      exact update_self _ _ _

variable {name : Name} {r : LeaseRecord} {answered sized : Prop}

section

variable (hlaw : rs.Lawful view fits ok) (hok : ok m.store)

include hlaw hok

theorem settles_delete (h : Pending view m name r) :
    Settles view ok answered sized name m (m.withStore (rs.delMemLeaseRecord name m.store).2) := by
  obtain ⟨hok', hcases⟩ := hlaw.delete name m.store hok
  have hzero := (hlaw.found name r m.store h.recorded).2
  obtain ⟨-, _, -, hview⟩ := hcases.resolve_left fun hfailed => hfailed.1 hzero
  refine ⟨hok', fun n hn => ⟨rfl, fun _ _ _ => Iff.rfl, ?_⟩, fun _ => .absent ?_ h.used h.cached,
    fun _ hcache => hcache.withStore _⟩
  · rw [store_withStore, hview, update_of_ne hn]
  · rw [store_withStore, hview, update_self]

theorem pending_mark (h : Pending view m name r) (state : RecordState) :
    let m₁ := m.withStore (rs.updateMemLeaseRecordState name state m.store).2
    ok m₁.store ∧ Pending view m₁ name { r with state } ∧
      ∀ n, n ≠ name → SameAt view m m₁ n := by
  obtain ⟨hok', hcases⟩ := hlaw.mark name state m.store hok
  have hzero := (hlaw.found name r m.store h.recorded).1 state
  obtain ⟨-, r', hr', hview⟩ := hcases.resolve_left fun hfailed => hfailed.1 hzero
  obtain rfl : r' = r := Option.some.inj (hr'.symm.trans h.recorded)
  refine ⟨hok', ⟨?_, h.used, h.cached⟩, fun n hn => ⟨rfl, fun _ _ _ => Iff.rfl, ?_⟩⟩
  · rw [store_withStore, hview, update_self]
  · rw [store_withStore, hview, update_of_ne hn]

theorem settles_finishRecord {state' : RecordState} (state : RecordState)
    (h : Pending view m record.1.name { recordOf record with state := state' }) {answered : Prop} :
    Settles view ok answered (SizedRecord (recordOf record)) record.1.name m
      (m.finishRecord rs record state) := by
  unfold finishRecord
  split_ifs
  · exact settles_delete hlaw hok h
  · exact settles_addRecovered hok h

end

theorem Settles.after {m₁ m₂ : MlsManager S} (h : Settles view ok answered sized name m₁ m₂)
    (hothers : ∀ n, n ≠ name → SameAt view m m₁ n) (hcache : CacheOk m → CacheOk m₁) :
    Settles view ok answered sized name m m₂ := by
  refine ⟨h.ok, fun n hn => ?_, h.booked, fun hsized hold => h.cache hsized (hcache hold)⟩
  have h₁ := hothers n hn
  have h₂ := h.others n hn
  exact ⟨h₂.used.trans h₁.used, fun kind x hx => (h₂.cached kind x hx).trans (h₁.cached kind x hx),
    h₂.record.trans h₁.record⟩

theorem settles_skip (hok : ok m.store) (hnot : ¬answered) :
    Settles view ok answered sized name m m :=
  ⟨hok, fun _ _ => ⟨rfl, fun _ _ _ => Iff.rfl, rfl⟩, fun h => absurd h hnot, fun _ hcache => hcache⟩

theorem not_answered {reply : Int × MemStage}
    (hasked : record.1.state = .preAdd ∨ record.1.state = .preDel)
    (hexist : ¬reply.1 = mxmErrLeaseNotExist) (hret : reply.1 ≠ 0) : ¬Answered record reply := by
  intro hanswered
  rcases hanswered hasked with hzero | hgone
  · exact hret hzero
  · exact hexist hgone

/-- The record is deleted, or the question fails, or a removal is queued. -/
theorem removePreAddRecord_cases (rs : LeaseRecords S) (now : Nat) (reply : Int × MemStage)
    (record : MemLeaseInfo) (store : S) (monitor : Monitor) :
    (removePreAddRecord rs now reply record store monitor =
        ((ubsmOk, true), (rs.delMemLeaseRecord record.1.name store).2, monitor)) ∨
      (removePreAddRecord rs now reply record store monitor = ((reply.1, false), store, monitor) ∧
        ¬reply.1 = mxmErrLeaseNotExist ∧ reply.1 ≠ 0) ∨
      ∃ monitor', removePreAddRecord rs now reply record store monitor =
        ((ubsmOk, false), store, monitor') := by
  unfold removePreAddRecord
  split_ifs with hexist hret hgone
  · exact .inl rfl
  · exact .inr (.inl ⟨rfl, hexist, hret⟩)
  · exact .inl rfl
  · exact .inr (.inr ⟨_, rfl⟩)

theorem rollbackPreDeleteRecord_cases (rs : LeaseRecords S) (reply : Int × MemStage)
    (record : MemLeaseInfo) (store : S) :
    (rollbackPreDeleteRecord rs reply record store = ((reply.1, record.1.state), store) ∧
        ¬reply.1 = mxmErrLeaseNotExist ∧ reply.1 ≠ 0) ∨
      ∃ state, rollbackPreDeleteRecord rs reply record store =
        ((ubsmOk, state), (rs.updateMemLeaseRecordState record.1.name state store).2) := by
  unfold rollbackPreDeleteRecord
  split_ifs with hexist hret hgone
  · exact .inr ⟨_, rfl⟩
  · exact .inl ⟨rfl, hexist, hret⟩
  · exact .inr ⟨_, rfl⟩
  · exact .inr ⟨_, rfl⟩

/-- **One record**: whatever the engine answers, other names are left alone; if it
answers at all, the record and the maps agree on the name. -/
theorem settles_recoverRecord (hlaw : rs.Lawful view fits ok) (hok : ok m.store)
    (h : Pending view m record.1.name (recordOf record)) (now : Nat) (reply : Int × MemStage)
    (monitor : Monitor) :
    Settles view ok (Answered record reply) (SizedRecord (recordOf record)) record.1.name m
      (recoverRecord rs now reply record (m, monitor)).1 := by
  cases hstate : record.1.state with
  | preAdd =>
    simp only [recoverRecord, hstate]
    rcases removePreAddRecord_cases rs now reply record m.store monitor with
      heq | ⟨heq, hexist, hret⟩ | ⟨monitor', heq⟩
    · simp only [heq]
      exact settles_delete hlaw hok h
    · simp only [heq, hret, ne_eq]
      exact settles_skip hok (not_answered (.inl hstate) hexist hret)
    · simp only [heq]
      exact settles_addRecovered hok h
  | preDel =>
    simp only [recoverRecord, hstate]
    rcases rollbackPreDeleteRecord_cases rs reply record m.store with
      ⟨heq, hexist, hret⟩ | ⟨state, heq⟩
    · simp only [heq, hret, ne_eq]
      exact settles_skip hok (not_answered (.inr hstate) hexist hret)
    · obtain ⟨hok', hpending, hothers⟩ := pending_mark hlaw hok h state
      simp only [heq]
      exact (settles_finishRecord hlaw hok' state hpending).after hothers fun hcache =>
        hcache.withStore _
  | finish =>
    simp only [recoverRecord, hstate]
    exact settles_finishRecord hlaw hok .finish h
  | deleted =>
    simp only [recoverRecord, hstate]
    exact settles_finishRecord hlaw hok .deleted h

theorem Pending.of_sameAt {m' : MlsManager S} (h : Pending view m name r)
    (hsame : SameAt view m m' name) : Pending view m' name r := by
  refine ⟨hsame.record.trans h.recorded, hsame.used.trans h.used, fun kind x hx heq => ?_⟩
  exact h.cached kind x ((hsame.cached kind x heq).mp hx) heq

/-- **The loop**: names whose records are still to come are as they were, and of the
others those about which the engine `answered` are settled. -/
theorem booked_recoverRecords (hlaw : rs.Lawful view fits ok) (now : Name → Nat)
    (stage : Name → Int × MemStage) (answered : Name → Prop) (records : List MemLeaseInfo)
    (hnodup : (records.map fun record => record.1.name).Nodup)
    (hanswered : ∀ record ∈ records, answered record.1.name →
      Answered record (stage record.1.name)) (s : MlsManager S × Monitor) (hok : ok s.1.store)
    (hpending : ∀ record ∈ records, Pending view s.1 record.1.name (recordOf record))
    (hdone : ∀ n, n ∉ records.map (fun record => record.1.name) → answered n →
      BookedAt view s.1 n) :
    let s' := records.foldl
      (fun s record => recoverRecord rs (now record.1.name) (stage record.1.name) record s) s
    ok s'.1.store ∧ (∀ n, answered n → BookedAt view s'.1 n) ∧
      ((∀ record ∈ records, SizedRecord (recordOf record)) → CacheOk s.1 → CacheOk s'.1) := by
  induction records generalizing s with
  | nil => exact ⟨hok, fun n => hdone n (not_mem_nil), fun _ hcache => hcache⟩
  | cons record records ih =>
    obtain ⟨hnew, hnodup⟩ := nodup_cons.mp hnodup
    have hsettles := settles_recoverRecord hlaw hok (hpending record (mem_cons_self ..))
      (now record.1.name) (stage record.1.name) s.2
    have hpending' : ∀ record' ∈ records, Pending view
        (recoverRecord rs (now record.1.name) (stage record.1.name) record s).1 record'.1.name
        (recordOf record') := by
      intro record' hmem
      have hne : record'.1.name ≠ record.1.name := fun heq =>
        hnew (mem_map.mpr ⟨record', hmem, heq⟩)
      exact (hpending record' (mem_cons_of_mem _ hmem)).of_sameAt (hsettles.others _ hne)
    obtain ⟨hok', hbooked, hcache'⟩ := ih hnodup
      (fun record' hmem => hanswered record' (mem_cons_of_mem _ hmem)) _ hsettles.ok hpending'
      fun n hn hanswer => by
        by_cases heq : n = record.1.name
        · subst heq
          exact hsettles.booked (hanswered record (mem_cons_self ..) hanswer)
        · refine (hdone n ?_ hanswer).of_sameAt (hsettles.others n heq)
          rw [map_cons, mem_cons, not_or]
          exact ⟨heq, hn⟩
    refine ⟨hok', hbooked, fun hsized hcache => hcache' ?_ ?_⟩
    · exact fun record' hmem => hsized record' (mem_cons_of_mem _ hmem)
    · exact hsettles.cache (hsized record (mem_cons_self ..)) hcache

end Recovery

/-! ### The store after a restart -/

section Restart

variable {config : StoreConfig} {s : RecordStore}

section

variable (h : StoreSound config s)

include h

theorem names_listMemLeaseRecord : (listMemLeaseRecord s).map (fun record => record.1.name) =
      s.cache.cachedLeaseRecords.entries.map Sigma.fst := by
  obtain ⟨lines, ids, h⟩ := h
  rw [listMemLeaseRecord, map_map]
  refine map_congr_left fun x hx => ?_
  have hfound : s.cache.cachedLeaseRecords.lookup x.1 = some x.2 := AList.mem_lookup_iff.mpr hx
  exact ((h.leases.cached x.1 x.2).mp hfound).2.2.1

theorem nodup_listMemLeaseRecord :
    ((listMemLeaseRecord s).map fun record => record.1.name).Nodup := by
  rw [names_listMemLeaseRecord h]
  exact s.cache.cachedLeaseRecords.nodupKeys

theorem leaseRecord_of_listed {record : MemLeaseInfo} (hmem : record ∈ listMemLeaseRecord s) :
    leaseRecord s record.1.name = some (recordOf record) := by
  obtain ⟨lines, ids, h⟩ := h
  obtain ⟨x, hx, rfl⟩ := mem_map.mp hmem
  have hfound : s.cache.cachedLeaseRecords.lookup x.1 = some x.2 := AList.mem_lookup_iff.mpr hx
  have hname : cString (s.mem.leases x.2.slot).name = x.1 :=
    ((h.leases.cached x.1 x.2).mp hfound).2.2.1
  simp only [convertMemLease, hname]
  exact leaseRecord_of_lookup hfound

theorem leaseRecord_of_not_listed {name : Name}
    (hname : name ∉ (listMemLeaseRecord s).map fun record => record.1.name) :
    leaseRecord s name = none := by
  rw [names_listMemLeaseRecord h] at hname
  have hnone : s.cache.cachedLeaseRecords.lookup name = none := AList.lookup_eq_none.mpr hname
  simp [leaseRecord, tableView, hnone]

end

end Restart

open MlsManager in
/-- **Recovery of any sound store**: the maps and the records agree on every name about
which the engine answered, and on the names about which it need not be asked.  The cache is
in order if the records are. -/
theorem booked_recoverFromRecord {config : StoreConfig} {store : RecordStore}
    (h : StoreSound config store) (now : Name → Nat) (stage : Name → Int × MemStage)
    (leaseCachedSwitch isEnableLeaseBuffered : Bool) (maxBufferedMemNum : Nat) (monitor : Monitor) :
    let m := (recoverFromRecord (storeLeaseRecords config) now stage leaseCachedSwitch
      (listMemLeaseRecord store) (.start isEnableLeaseBuffered maxBufferedMemNum store,
      monitor)).2.1
    StoreSound config m.store ∧
      (∀ name, (∀ record ∈ listMemLeaseRecord store, record.1.name = name →
        Answered record (stage name)) → BookedAt leaseRecord m name) ∧
      ((∀ record ∈ listMemLeaseRecord store, SizedRecord (recordOf record)) → CacheOk m) := by
  have hnot := notCached_start isEnableLeaseBuffered maxBufferedMemNum store
  have hloop := booked_recoverRecords (storeLeaseRecords_sound config) now stage
    (fun name => ∀ record ∈ listMemLeaseRecord store, record.1.name = name →
      Answered record (stage name))
    (listMemLeaseRecord store) (nodup_listMemLeaseRecord h)
    (fun record hmem hanswered => hanswered record hmem rfl)
    (.start isEnableLeaseBuffered maxBufferedMemNum store, monitor) h
    (fun record hmem => ⟨leaseRecord_of_listed h hmem, rfl, hnot _⟩)
    fun name hname _ => .absent (leaseRecord_of_not_listed h hname) rfl (hnot name)
  obtain ⟨hsound, hbooked, hordered⟩ := hloop
  -- only the switch is set after the loop
  refine ⟨hsound, fun name hanswered => ?_, fun hsized => ?_⟩
  · refine BookedAt.of_sameAt ?_ (hbooked name hanswered)
    exact ⟨rfl, fun _ _ _ => Iff.rfl, rfl⟩
  · have hempty : CacheOk (MlsManager.start isEnableLeaseBuffered maxBufferedMemNum store) :=
      cacheOk_start isEnableLeaseBuffered maxBufferedMemNum store
    obtain ⟨hnodup, hsizes⟩ := hordered hsized hempty
    exact ⟨hnodup, hsizes⟩

/-- The store of a daemon that starts again after the operations `ops`. -/
def restartedStore (config : StoreConfig) (alive alive' : UInt32 → Bool) (ops : List StoreOp) :
    RecordStore :=
  initializeStore config alive' ((RecordStore.start config alive).run config ops).mem

theorem storeSound_restarted (config : StoreConfig) (alive alive' : UInt32 → Bool)
    {ops : List StoreOp} (hnames : ∀ op ∈ ops, op.NamesOk) :
    StoreSound config (restartedStore config alive alive' ops) := by
  have hrun : StoreSound config ((RecordStore.start config alive).run config ops) :=
    storeInv_run ((memInv_zero config).restore alive) hnames
  exact hrun.restart alive'

/-- The manager after `RecoverFromRecord` on the store of a daemon that starts again. -/
def recoveredManager (config : StoreConfig) (alive alive' : UInt32 → Bool) (ops : List StoreOp)
    (now : Name → Nat) (stage : Name → Int × MemStage) (leaseCachedSwitch : Bool)
    (maxBufferedMemNum : Nat) : MlsManager RecordStore :=
  let store := restartedStore config alive alive' ops
  (MlsManager.recoverFromRecord (storeLeaseRecords config) now stage leaseCachedSwitch
    (listMemLeaseRecord store) (.start true maxBufferedMemNum store, .empty)).2.1

/-- **Recovery puts every lease record in its map**, whatever the operations before the
crash, if the engine answers about the records that it is asked about: zero, or that
the lease does not exist.  The store is still the one of its file. -/
theorem recovered_maps_agree (config : StoreConfig) (alive alive' : UInt32 → Bool)
    (ops : List StoreOp) (hnames : ∀ op ∈ ops, op.NamesOk) (now : Name → Nat)
    (stage : Name → Int × MemStage) (leaseCachedSwitch : Bool) (maxBufferedMemNum : Nat)
    (hanswered : ∀ record ∈ listMemLeaseRecord (restartedStore config alive alive' ops),
      Answered record (stage record.1.name)) :
    let m := recoveredManager config alive alive' ops now stage leaseCachedSwitch maxBufferedMemNum
    MapsAgree (leaseRecord m.store) m ∧ StoreSound config m.store := by
  have hsound := storeSound_restarted config alive alive' hnames
  obtain ⟨hsound', hbooked, -⟩ := booked_recoverFromRecord hsound now stage leaseCachedSwitch true
    maxBufferedMemNum .empty
  refine ⟨Booked.mapsAgree fun name => hbooked name ?_, hsound'⟩
  rintro record hmem rfl
  exact hanswered record hmem

/-- The daemon crashes while the engine makes a lease. -/
def preAddOps : List StoreOp := [.addMemLeaseInput ⟨false, [97], 4096, 0, ⟨10, 0, 0⟩, .preAdd⟩]

theorem preAddOps_namesOk : ∀ op ∈ preAddOps, op.NamesOk := by
  simp [preAddOps, StoreOp.NamesOk, StoreOp.names]

/-- The engine says that the lease exists. -/
theorem recovered_maps_agree_preAdd :
    let m := recoveredManager smallStoreConfig (fun _ => true) (fun _ => true) preAddOps
      (fun _ => 0) (fun _ => (0, .exist)) true 2
    MapsAgree (leaseRecord m.store) m ∧ StoreSound smallStoreConfig m.store ∧
      (m.used [97]).map MlsMemInfo.state = some .preAdd :=
  have h := recovered_maps_agree smallStoreConfig (fun _ => true) (fun _ => true) preAddOps
    preAddOps_namesOk (fun _ => 0) (fun _ => (0, .exist)) true 2 fun _ _ _ => .inl rfl
  ⟨h.1, h.2, by decide⟩

/-- **A lease that cannot be asked about is lost**: its record stays in the store, and no
map has it. -/
theorem unanswered_record_in_no_map :
    let m := recoveredManager smallStoreConfig (fun _ => true) (fun _ => true) preAddOps
      (fun _ => 0) (fun _ => (mxmErrUbseInner, .endMark)) true 2
    (leaseRecord m.store [97]).map LeaseRecord.state = some .preAdd ∧ m.used [97] = none ∧
      m.cachedNames = [] := by
  decide

end UbsMem
