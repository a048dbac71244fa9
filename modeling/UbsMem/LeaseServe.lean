import UbsMem.LeaseHandlers
import UbsMem.LeaseReuse

/-! # From the application to the cache and back

The two handlers that lease memory record a unit size and memory ids, and the size under
which the lease is kept in the cache, once it is given back, is computed from these.
`LeaseCovers` says that it is at least the size that was asked for; a later request for as much
memory then finds a lease in the cache.
-/
namespace UbsMem

open MlsManager Function
open Prog hiding ret call

/-- A request for memory. -/
inductive LeaseRequest
  | malloc (req : AppMallocMemoryRequest)
  | mallocWithLoc (req : AppMallocMemoryWithLocRequest)

namespace LeaseRequest

/-- The size that is asked for. -/
def size : LeaseRequest → UInt64
  | .malloc req => req.size
  | .mallocWithLoc req => req.size

/-- The kind of memory that is asked for. -/
def isNuma : LeaseRequest → Bool
  | .malloc req => req.isNuma
  | .mallocWithLoc req => req.isNuma

/-- The handler of the request. -/
def handler (uds : AppContext) : LeaseRequest → LeaseProg (Int × AppMallocMemoryResponse)
  | .malloc req => appMallocMemory req uds
  | .mallocWithLoc req => appMallocMemoryWithLoc req uds

/-- The handler records a unit size: `AppMallocMemoryWithLoc` does not for NUMA memory. -/
def RecordsUnit : LeaseRequest → Prop
  | .malloc _ => True
  | .mallocWithLoc req => req.isNuma = false

end LeaseRequest

/-- The units of a lease hold the size that was asked for, in 64 bits. -/
def FdHolds (size : Nat) (isNuma : Bool) (r : Int × LeaseMallocResult) : Prop :=
  isNuma = false → r.1 = 0 → size ≤ r.2.unitSize * r.2.memIds.length % 2 ^ 64

/-- What is assumed of the engine's replies. -/
def EngineHolds : (c : LeaseCall) → c.Reply → Prop
  | .leaseMalloc param, r => FdHolds param.size param.isNuma r
  | .leaseMallocWithLoc param, r => FdHolds param.size param.isNuma r
  | _, _ => True

/-- What each call does, with an engine whose leases hold the size that was asked for. -/
def serveSem (config : StoreConfig) (t : Nat) (c : LeaseCall) (s : LeaseWorld RecordStore)
    (r : c.Reply) (s' : LeaseWorld RecordStore) : Prop :=
  LeaseWorld.sem (storeLeaseRecords config) t c s r s' ∧ EngineHolds c r

/-- A manager after operations whose callers have a pid. -/
def LeaseReached (config : StoreConfig) (m : MlsManager RecordStore) : Prop :=
  ∃ alive isEnableLeaseBuffered maxBufferedMemNum ops, (∀ op ∈ ops, MlsOp.HasPid op) ∧
    m = (MlsManager.start isEnableLeaseBuffered maxBufferedMemNum
      (RecordStore.start config alive)).run (storeLeaseRecords config) ops

theorem LeaseReached.step {config : StoreConfig} {m : MlsManager RecordStore}
    (h : LeaseReached config m) (op : MlsOp) (hop : op.HasPid) :
    LeaseReached config (m.step (storeLeaseRecords config) op) := by
  obtain ⟨alive, isEnableLeaseBuffered, maxBufferedMemNum, ops, hpid, rfl⟩ := h
  refine ⟨alive, isEnableLeaseBuffered, maxBufferedMemNum, ops ++ [op], fun x hx => ?_, ?_⟩
  · rcases List.mem_append.mp hx with hx | hx
    · exact hpid x hx
    · rwa [List.mem_singleton.mp hx]
  · rw [MlsManager.run, MlsManager.run, List.foldl_append]
    rfl

theorem LeaseReached.kept {config : StoreConfig} {m : MlsManager RecordStore}
    (h : LeaseReached config m) : Kept leaseRecord LeaseSlots m ∧ CacheSorted m := by
  obtain ⟨alive, isEnableLeaseBuffered, maxBufferedMemNum, ops, hpid, rfl⟩ := h
  refine ⟨?_, cacheSorted_run _ _ _ _ _⟩
  exact (Kept.start isEnableLeaseBuffered maxBufferedMemNum
    (storeSound_start config alive).leaseSlots
    (leaseRecord_start config alive)).run (storeLeaseRecords_lawful config) hpid
    fun _ _ _ _ => trivial

/-! ### What the handlers record -/

/-- The lease that is handed out would be kept under at least the size that was asked
for. -/
def LeaseCovers (size : UInt64) (isNuma : Bool) (res : Int × AppMallocMemoryResponse)
    (s : LeaseWorld RecordStore) : Prop :=
  res.1 = ubsmOk → ∃ info, s.manager.used res.2.name = some info ∧ info.isNuma = isNuma ∧
    info.name = res.2.name ∧ size.toNat ≤ bufferedSize info

section Handlers

variable {config : StoreConfig} {t perfLevel : Nat} {s : LeaseWorld RecordStore}
  {rs : LeaseRecords RecordStore} {m : MlsManager RecordStore} {name : Name} {size : UInt64}
  {isNuma : Bool} {usr : AppContext} {unitSizeOf : LeaseMallocResult → Nat}
  {replies : LeaseMallocReplies}

theorem used_preAddUsedMem {size : Nat}
    (h : (m.preAddUsedMem rs name size usr isNuma perfLevel).1 = 0) :
    ∃ info, (m.preAddUsedMem rs name size usr isNuma perfLevel).2.used name = some info ∧
      info.isNuma = isNuma ∧ info.name = name := by
  unfold MlsManager.preAddUsedMem at h ⊢
  cases hused : m.used name with
  | some info =>
    simp only [hused] at h
    exact absurd h mxmErrShmAlreadyExist_ne
  | none =>
    simp only [hused] at h ⊢
    split_ifs at h ⊢ with hret
    · exact absurd h mxmErrRecordAdd_ne
    · rw [emplace_eq (by simpa using hused), used_put, update_self]
      exact ⟨_, rfl, rfl, rfl⟩

theorem used_finishAddUsedMem {numaId : Int} {unitSize slotId : Nat} {memIds : List UInt64}
    {info : MlsMemInfo} (hused : m.used name = some info)
    (h : (m.finishAddUsedMem rs name numaId unitSize slotId memIds).1 = 0) :
    (m.finishAddUsedMem rs name numaId unitSize slotId memIds).2.used name =
      some { info with
        numaId, memIds, unitSize, slotId := slotId
        state := .finish } := by
  unfold MlsManager.finishAddUsedMem at h ⊢
  simp only [hused] at h ⊢
  split_ifs at h ⊢ with hret
  · exact absurd h mxmErrRecordAdd_ne
  · rw [used_put, update_self]

/-- A create call leaves the manager alone, and what is recorded for its result covers the
request. -/
def CreateCovers (config : StoreConfig) (t : Nat) (size : UInt64)
    (create : LeaseProg (Int × LeaseMallocResult)) (unitSizeOf : LeaseMallocResult → Nat) : Prop :=
  ∀ s, create.wp (serveSem config t) (fun r s' => s'.manager = s.manager ∧
    (r.1 = 0 → size.toNat ≤ unitSizeOf r.2 * r.2.memIds.length % 2 ^ 64)) s

theorem wp_finishBorrow {create : LeaseProg (Int × LeaseMallocResult)}
    (hcreate : CreateCovers config t size create unitSizeOf) (response : AppMallocMemoryResponse)
    (hused : ∃ info, s.manager.used name = some info ∧ info.isNuma = isNuma ∧ info.name = name) :
    (finishBorrow name size isNuma create unitSizeOf response).wp (serveSem config t)
      (LeaseCovers size isNuma) s := by
  obtain ⟨info, hinfo, hkind, hname⟩ := hused
  refine wp_bind.mpr (wp_mono ?_ (hcreate s))
  rintro ⟨hr, result⟩ s₁ ⟨hmanager, hcovers⟩
  by_cases hret : hr = 0
  swap
  · -- the lease could not be made
    simp only [ne_eq, hret]
    rintro _ _ -
    exact fun hok => absurd hok hret
  simp only [ne_eq, hret, askLease_eq, call_bind, ret_bind]
  rintro hr' s₂ ⟨⟨hreply, rfl⟩, -⟩
  by_cases hfinish : hr' = 0
  · simp only [hfinish]
    intro _
    rw [← hmanager] at hinfo
    exact ⟨_, used_finishAddUsedMem hinfo (hreply.symm.trans hfinish), hkind, hname, hcovers hret⟩
  · simp only [hfinish]
    refine wp_bind.mpr ((yields_of_forall _ fun _ => trivial).wp ?_)
    exact fun _ _ _ hok => absurd hok hfinish

/-- A lease of NUMA memory that the engine has made has one memory id. -/
theorem memIds_leaseCreate {appContext : AppContext}
    (h : (leaseCreate name true appContext replies).code = 0) :
    (leaseCreate name true appContext replies).result.memIds = [0] := by
  unfold leaseCreate at h ⊢
  simp only [Bool.not_true, Bool.false_and, Bool.false_eq_true, if_false, if_true] at h ⊢
  by_cases hfailed : replies.create ≠ ubsSuccess ∧ replies.create ≠ ubsErrTimedOut
  · rw [if_pos hfailed] at h
    by_cases hsupported : replies.create = ubsErrNotSupported
    · rw [if_pos hsupported] at h
      exact absurd h mxmErrUbseNotSupported_ne
    · rw [if_neg hsupported] at h
      exact absurd h mxmErrUbseInner_ne
  · rw [if_neg hfailed] at h ⊢
    by_cases htimeout : replies.create = ubsErrTimedOut
    · rw [if_pos htimeout] at h
      exact absurd h ubsErrTimedOut_ne
    · rw [if_neg htimeout]

/-- A check of `LeaseMalloc` that has been passed. -/
theorem passed_early {c : Prop} [Decidable c] {code : Int} {o : LeaseMallocOutcome}
    (hcode : c → code ≠ 0) (h : (if c then .early code else o).code = 0) :
    (if c then LeaseMallocOutcome.early code else o) = o := by
  by_cases hc : c
  · rw [if_pos hc] at h
    exact absurd h (hcode hc)
  · exact if_neg hc

theorem memIds_leaseMalloc {param : LeaseMallocParam} (hnuma : param.isNuma = true)
    (h : (leaseMalloc param replies).code = 0) :
    (leaseMalloc param replies).result.memIds = [0] := by
  unfold leaseMalloc at h ⊢
  have hinit := passed_early (fun _ => by decide) h
  rw [hinit] at h ⊢
  have hregion := passed_early id h
  rw [hregion] at h ⊢
  have halloc := passed_early (fun _ => by decide) h
  rw [halloc] at h ⊢
  have hlocal := passed_early (fun _ => by decide) h
  rw [hlocal, hnuma] at h ⊢
  exact memIds_leaseCreate h

/-- `BorrowNewMemory` records the size of the request as the unit size of NUMA memory. -/
theorem createCovers_leaseMalloc (param : LeaseMallocParam) (hsize : param.size = size.toNat) :
    CreateCovers config t size (askLease (.leaseMalloc param))
      fun result => if param.isNuma then size.toNat else result.unitSize := by
  rintro s ⟨code, result⟩ s' ⟨⟨replies, hreply, rfl⟩, hholds⟩
  refine ⟨rfl, fun hzero => ?_⟩
  cases hkind : param.isNuma with
  | false =>
    have hfd := hholds hkind hzero
    rw [hsize] at hfd
    simpa using hfd
  | true =>
    cases hreply
    simp only [memIds_leaseMalloc hkind hzero, List.length_singleton, Nat.mul_one]
    exact Nat.le_of_eq (Nat.mod_eq_of_lt size.toNat_lt).symm

/-- `BorrowMemoryWithLender` records what the engine says. -/
theorem createCovers_leaseMallocWithLoc (param : LeaseMallocWithLocParam)
    (hsize : param.size = size.toNat) (hkind : param.isNuma = false) :
    CreateCovers config t size (askLease (.leaseMallocWithLoc param))
      fun result => result.unitSize := by
  rintro s ⟨code, result⟩ s' ⟨⟨replies, hreply, rfl⟩, hholds⟩
  refine ⟨rfl, fun hzero => ?_⟩
  have hfd := hholds hkind hzero
  rwa [hsize] at hfd

theorem wp_respond {p : LeaseProg (Int × AppMallocMemoryResponse)}
    (h : p.wp (serveSem config t) (LeaseCovers size isNuma) s) :
    (do let res ← p; askLease .respond; return res : LeaseProg _).wp (serveSem config t)
      (LeaseCovers size isNuma) s := by
  refine wp_bind.mpr (wp_mono ?_ h)
  rintro res s₁ hcovers _ s₂ ⟨rfl, -⟩
  exact hcovers

/-- What `ReuseBufferedMem` hands out is in use, with the unit size and the memory ids that
it had in the cache. -/
theorem covers_reuseBufferedMem (hs : LeaseReached config m) (size : Nat) (isNuma : Bool)
    (region : Int × List Nat) (user : AppContext) :
    let res := m.reuseBufferedMem (storeLeaseRecords config) size isNuma region user
    res.1.1 ≠ 0 ∧ res.1.2 = none ∨ ∃ lease info, res.1 = (0, some lease) ∧
      res.2.used lease.name = some info ∧ info.isNuma = isNuma ∧ info.name = lease.name ∧
      size ≤ bufferedSize info := by
  obtain ⟨hkept, hsorted⟩ := hs.kept
  rcases reuseBufferedMem_cases (storeLeaseRecords config) m size isNuma region user with
    ⟨hret, hnone, -⟩ | ⟨old, -, hfind, -, heq⟩
  · exact .inl ⟨hret, hnone⟩
  have hfit := bestFit_of_findBuffered (hsorted.ascending isNuma) hfind
  obtain ⟨-, -, hfree, -⟩ := hkept.booked.of_cached hfit.mem
  dsimp only
  rw [heq, emplace_eq (by simpa using hfree), used_put]
  unfold handOut
  split_ifs
  · exact .inl ⟨by simp, rfl⟩
  · exact .inl ⟨by simp, rfl⟩
  · refine .inr ⟨_, reusedInfo size isNuma user old, rfl, update_self .., rfl, rfl, ?_⟩
    exact le_of_le_of_eq hfit.enough (hsorted.sizes isNuma old hfit.mem)

theorem wp_reuseCachedLeaseMemory (req : AppMallocMemoryRequest) (user : AppContext)
    (response : AppMallocMemoryResponse) (hs : LeaseReached config s.manager) :
    (reuseCachedLeaseMemory req user response).wp (serveSem config t)
      (LeaseCovers req.size req.isNuma) s := by
  unfold reuseCachedLeaseMemory
  simp only [askLease_eq, call_bind, ret_bind]
  rintro ⟨ret, reply⟩ s₁ ⟨⟨region, hreply, rfl⟩, -⟩
  rcases covers_reuseBufferedMem hs req.size.toNat req.isNuma region user with
    ⟨hret, hnone⟩ | ⟨lease, info, hres, hinfo⟩
  · rw [← hreply] at hret hnone
    obtain rfl : reply = none := hnone
    exact fun hok => absurd hok hret
  · rw [← hreply] at hres
    cases hres
    have hcovers : ∀ response : AppMallocMemoryResponse, response.name = lease.name →
        ∃ info, (s.manager.reuseBufferedMem (storeLeaseRecords config) req.size.toNat req.isNuma
          region user).2.used response.name = some info ∧ info.isNuma = req.isNuma ∧
          info.name = response.name ∧ req.size.toNat ≤ bufferedSize info := by
      intro response hname
      rw [hname]
      exact ⟨info, hinfo⟩
    split_ifs
    · exact fun _ => hcovers _ rfl
    rintro hr s₂ ⟨⟨initialized, code, -, rfl⟩, -⟩
    by_cases hchange : hr = 0
    · simp only [hchange]
      exact fun _ => hcovers _ rfl
    · simp only [hchange, ne_eq]
      refine wp_bind.mpr ((yields_of_forall _ fun _ => trivial).wp ?_)
      exact fun _ _ _ hok => absurd hok hchange

/-- `BorrowNewMemory` and `BorrowMemoryWithLender`. -/
theorem wp_preAdd {response : AppMallocMemoryResponse}
    {create : Name → LeaseProg (Int × LeaseMallocResult)}
    (hcreate : ∀ name, CreateCovers config t size (create name) unitSizeOf) :
    (do
      let name ← askLease (.generateMemName size)
      let hr ← askLease (.preAddUsedMem name size.toNat usr isNuma perfLevel)
      if hr ≠ 0 then return (hr, { response with errCode := hr })
      finishBorrow name size isNuma (create name) unitSizeOf response : LeaseProg _).wp
        (serveSem config t) (LeaseCovers size isNuma) s := by
  simp only [askLease_eq, call_bind, ret_bind]
  rintro name s₁ - hr s₂ ⟨⟨hreply, rfl⟩, -⟩
  by_cases hret : hr = 0
  · simp only [hret]
    refine wp_finishBorrow (hcreate name) response ?_
    exact used_preAddUsedMem (hreply.symm.trans hret)
  · simp only [hret, ne_eq]
    exact fun hok => absurd hok hret

/-- **What a handler hands out covers the request**, if it records a unit size. -/
theorem wp_handler (req : LeaseRequest) (hunit : req.RecordsUnit) (uds : AppContext)
    (hs : LeaseReached config s.manager) :
    (req.handler uds).wp (serveSem config t) (LeaseCovers req.size req.isNuma) s := by
  have hinvalid : ∀ {size isNuma}, (do
      askLease .respond
      return (mxmErrParamInvalid, .error mxmErrParamInvalid) : LeaseProg _).wp (serveSem config t)
        (LeaseCovers size isNuma) s := by
    rintro size isNuma _ _ -
    exact fun hok => absurd hok mxmErrParamInvalid_ne
  cases req with
  | malloc req =>
    simp only [LeaseRequest.handler, appMallocMemory]
    split_ifs
    · exact hinvalid
    refine wp_respond ?_
    refine wp_bind.mpr (wp_mono ?_ (wp_reuseCachedLeaseMemory req uds .empty hs))
    rintro ⟨ret, response⟩ s₁ hcovers
    dsimp only
    split_ifs with hret
    · exact hcovers
    · exact wp_preAdd fun name => createCovers_leaseMalloc ⟨name, _, _, _, _, _⟩ rfl
  | mallocWithLoc req =>
    simp only [LeaseRequest.handler, appMallocMemoryWithLoc]
    split_ifs
    · exact hinvalid
    refine wp_respond ?_
    exact wp_preAdd fun name => createCovers_leaseMallocWithLoc ⟨name, _, _, _, _, _, _, _, _⟩ rfl
      hunit

end Handlers

/-! ### Back to the cache, and out of it again -/

section Cache

variable {config : StoreConfig} {m : MlsManager RecordStore} {info : MlsMemInfo}

theorem cached_bufferUsedMemory (hcached : NotCached m info.name)
    (hret : (m.bufferUsedMemory (storeLeaseRecords config) info).1 = 1) :
    bufferedInfo info ∈ (m.bufferUsedMemory (storeLeaseRecords config) info).2.cache
    info.isNuma := by
  have hassign := (storeLeaseRecords_lawful config).assign_ne_one info.name
    { info.appContext with pid := 0 } (bufferedSize info) m.store
  unfold bufferUsedMemory at hret ⊢
  dsimp only at hret ⊢
  by_cases hroom : (m.cache info.isNuma).length < m.maxBufferedMemNum
  swap
  · simp [hroom] at hret
  split_ifs at hret ⊢ with hrefused
  · exact absurd hret hassign
  · have hin : ∀ store, bufferedInfo info ∈ ((m.withStore store).setCache info.isNuma
        (setInsert mlsMemKeyLt (bufferedInfo info) (m.cache info.isNuma))).cache info.isNuma :=
      fun store => (mem_cache_insert (m := m.withStore store) (bufferedInfo info) hcached _ _).mpr
        (.inr ⟨rfl, rfl⟩)
    exact hin _

/-- `PreDeleteUsedMem` returns 1 when it has put the lease into the cache. -/
theorem cached_preDeleteUsedMem (hs : LeaseReached config m) {name : Name}
    (hused : m.used name = some info)
    (hret : (m.preDeleteUsedMem (storeLeaseRecords config) name).1 = 1) :
    bufferedInfo info ∈
      (m.preDeleteUsedMem (storeLeaseRecords config) name).2.cache info.isNuma := by
  obtain ⟨-, -, rfl, -, -, hcached⟩ := hs.kept.1.booked.of_used hused
  have hmark : ∀ m' : MlsManager RecordStore,
      (markPreDel (storeLeaseRecords config) info.name m').1 ≠ 1 := by
    intro m'
    show (updateMemLeaseRecordState m'.store info.name .preDel).ret ≠ 1
    unfold updateMemLeaseRecordState
    split <;> simp [Plan.refuse]
  unfold preDeleteUsedMem at hret ⊢
  simp only [hused] at hret ⊢
  by_cases henabled : m.isEnableLeaseBuffered = true
  swap
  · simp only [henabled] at hret
    exact absurd hret (hmark m)
  by_cases hbuffer : (m.bufferUsedMemory (storeLeaseRecords config) info).1 = 1
  · simp only [henabled, hbuffer]
    exact cached_bufferUsedMemory hcached hbuffer
  · simp only [henabled, if_true] at hret
    split_ifs at hret
    · exact absurd hret hbuffer
    · exact absurd hret (hmark _)

/-- A lease in the cache serves a request for no more memory than it holds. -/
theorem served_of_cached (hs : LeaseReached config m) {isNuma : Bool} (hmem : info ∈ m.cache isNuma)
    {size : Nat} (hpos : 0 < size) (hsize : size ≤ info.size)
    (henabled : m.isEnableLeaseBuffered = true) {region : Int × List Nat} (hregion : region.1 = 0)
    (hslot : info.slotId ∈ region.2) (context : AppContext)
    (hroom : ∀ old, BestFit (m.cache isNuma) size region.2 old → size + old.unitSize < 2 ^ 64) :
    (m.reuseBufferedMem (storeLeaseRecords config) size isNuma region context).1.1 = 0 := by
  obtain ⟨hkept, hsorted⟩ := hs.kept
  obtain ⟨old, hfind⟩ := exists_findBuffered hmem hsize hslot
  have hfit := bestFit_of_findBuffered (hsorted.ascending isNuma) hfind
  obtain ⟨r, hrecord, -⟩ := hkept.booked.of_cached hfit.mem
  have hassign : ((storeLeaseRecords config).updateMemLeaseRecord old.name context size m.store).1
      = 0 := by
    obtain ⟨e, hfound, -⟩ := Option.map_eq_some_iff.mp hrecord
    show (updateMemLeaseRecord m.store old.name context size).ret = 0
    simp [updateMemLeaseRecord, hfound]
  rcases reuseBufferedMem_cases (storeLeaseRecords config) m size isNuma region context with
    ⟨-, -, ⟨hnone, -⟩ | ⟨old', hfind', hret, -⟩⟩ | ⟨old', -, hfind', -, heq⟩
  · rw [hnone henabled hregion] at hfind
    cases hfind
  · rw [hfind] at hfind'
    cases hfind'
    exact absurd hassign hret
  · rw [hfind] at hfind'
    cases hfind'
    rw [heq]
    exact (handOut_of_bestFit hsorted hpos hfit context).1 (hroom old hfit)

/-- **A lease that is given back serves the next request for as much memory**: what a
handler hands out is kept in the cache under at least the size that was asked for, and
while it is there a request of that size and kind, in a region that has its slot, is
served from the cache, if the size and a unit of the lease that fits best stay below 2⁶⁴.
`AppMallocMemoryWithLoc` does so only for memory that is not NUMA memory. -/
theorem cached_lease_serves (config : StoreConfig) (t : Nat) (req : LeaseRequest)
    (hpos : 0 < req.size.toNat) (hunit : req.RecordsUnit) (uds : AppContext)
    {s s' : LeaseWorld RecordStore} (hs : LeaseReached config s.manager)
    {res : Int × AppMallocMemoryResponse}
    (hrun : Prog.Runs (serveSem config t) (req.handler uds) s res s') (hok : res.1 = ubsmOk) :
    ∃ info, s'.manager.used res.2.name = some info ∧
      ∀ m, LeaseReached config m → m.used res.2.name = some info →
        let freed := m.preDeleteUsedMem (storeLeaseRecords config) res.2.name
        freed.1 = 1 → ∃ cached ∈ freed.2.cache req.isNuma,
          cached.name = res.2.name ∧ cached.slotId = info.slotId ∧ req.size.toNat ≤ cached.size ∧
          ∀ m', LeaseReached config m' → cached ∈ m'.cache req.isNuma →
            m'.isEnableLeaseBuffered = true → ∀ (region : Int × List Nat) (context : AppContext),
              region.1 = 0 → cached.slotId ∈ region.2 →
              (∀ old, BestFit (m'.cache req.isNuma) req.size.toNat region.2 old →
                req.size.toNat + old.unitSize < 2 ^ 64) →
              (m'.reuseBufferedMem (storeLeaseRecords config) req.size.toNat req.isNuma region
                context).1.1 = 0 := by
  obtain ⟨info, hinfo, hkind, hname, hsize⟩ := hrun.of_wp (wp_handler req hunit uds hs) hok
  refine ⟨info, hinfo, ?_⟩
  intro m hm hused freed hret
  refine ⟨bufferedInfo info, ?_, hname, rfl, hsize, ?_⟩
  · rw [← hkind]
    exact cached_preDeleteUsedMem hm hused hret
  · intro m' hm' hmem henabled region context hregion hslot hroom
    exact served_of_cached hm' hmem hpos hsize henabled hregion hslot context hroom

end Cache

/-- A daemon without leases that keeps two in each part of its cache. -/
def emptyDaemon : LeaseWorld RecordStore where
  manager := .start true 2 (RecordStore.start smallStoreConfig fun _ => true)
  monitor := .empty
  ubse _ := false
  generated _ := false
  creating _ := none
  reusing _ := none

/-- The engine makes a lease of NUMA memory on slot 0. -/
def numaReplies : LeaseMallocReplies := ⟨true, (0, [0]), true, 0, true, 0, 1, [], 0, 0, 0⟩

/-- The answers to the calls of a thread that leases NUMA memory. -/
def numaAnswer (t : Nat) : (c : LeaseCall) → LeaseWorld RecordStore →
    Option (c.Reply × LeaseWorld RecordStore)
  | .generateMemName size, s =>
    let name := generateMemName size.toNat 0 0
    if s.generated name then none
    else some (name, { s with
      generated := update s.generated name true
      creating := update s.creating name (some t) })
  | .reuseBufferedMem size isNuma _ context, s =>
    let res := s.manager.reuseBufferedMem (storeLeaseRecords smallStoreConfig) size.toNat isNuma
      (0, [0]) context
    match res.1.2 with
    | none => some (res.1, { s with manager := res.2 })
    | some _ => none
  | .preAddUsedMem name size usr isNuma perfLevel, s =>
    let res := s.manager.preAddUsedMem (storeLeaseRecords smallStoreConfig) name size usr isNuma
      perfLevel
    some (res.1, { s with manager := res.2 })
  | .finishAddUsedMem name numaId unitSize slotId memIds, s =>
    let res := s.manager.finishAddUsedMem (storeLeaseRecords smallStoreConfig) name numaId unitSize
      slotId memIds
    some (res.1, { s with manager := res.2 })
  | .leaseMalloc param, s =>
    let outcome := leaseMalloc param numaReplies
    if param.isNuma then some ((outcome.code, outcome.result), s.created param.name outcome)
      else none
  | .leaseMallocWithLoc param, s =>
    let outcome := leaseMallocWithLoc param numaReplies
    if param.isNuma then some ((outcome.code, outcome.result), s.created param.name outcome)
      else none
  | .respond, s => some ((), s.answered t)
  | _, _ => none

theorem serveSem_of_numaAnswer (t : Nat) (c : LeaseCall) (s : LeaseWorld RecordStore) (r : c.Reply)
    (s' : LeaseWorld RecordStore) (h : numaAnswer t c s = some (r, s')) :
    serveSem smallStoreConfig t c s r s' := by
  cases c with
  | generateMemName size =>
    simp only [numaAnswer] at h
    split_ifs at h with hgenerated
    cases h
    exact ⟨⟨0, by decide, 0, by decide, rfl, by simpa using hgenerated, rfl⟩, trivial⟩
  | reuseBufferedMem size isNuma regionName context =>
    simp only [numaAnswer] at h
    split at h
    · next hnone =>
      cases h
      refine ⟨⟨(0, [0]), rfl, ?_⟩, trivial⟩
      rw [hnone]
    · cases h
  | preAddUsedMem | finishAddUsedMem =>
    cases h
    exact ⟨⟨rfl, rfl⟩, trivial⟩
  | leaseMalloc param =>
    simp only [numaAnswer] at h
    split_ifs at h with hkind
    cases h
    exact ⟨⟨numaReplies, rfl, rfl⟩, fun hfd => absurd hkind (by simp [hfd])⟩
  | leaseMallocWithLoc param =>
    simp only [numaAnswer] at h
    split_ifs at h with hkind
    cases h
    exact ⟨⟨numaReplies, rfl, rfl⟩, fun hfd => absurd hkind (by simp [hfd])⟩
  | respond =>
    cases h
    exact ⟨rfl, trivial⟩
  | _ => cases h

/-- A page of NUMA memory from anywhere, and from a place. -/
def numaPage : LeaseRequest := .malloc ⟨4096, 0, true, []⟩

@[inherit_doc numaPage]
def numaPageAt : LeaseRequest := .mallocWithLoc ⟨4096, true, 0, 0, 0, 0⟩

/-- What the first request does to the manager. -/
def numaOps : List MlsOp :=
  [.reuseBufferedMem 4096 true (0, [0]) ⟨10, 0, 0⟩,
    .preAddUsedMem (generateMemName 4096 0 0) 4096 ⟨10, 0, 0⟩ true 0,
    .finishAddUsedMem (generateMemName 4096 0 0) 1 4096 0 [0]]

/-- The lease is given back and serves the next request. -/
theorem cached_lease_serves_numa : ∃ res s',
    Prog.Runs (serveSem smallStoreConfig 0) (numaPage.handler ⟨10, 0, 0⟩) emptyDaemon res s' ∧
      res.1 = ubsmOk ∧
      let freed := s'.manager.preDeleteUsedMem (storeLeaseRecords smallStoreConfig) res.2.name
      freed.1 = 1 ∧ (freed.2.reuseBufferedMem (storeLeaseRecords smallStoreConfig) 4096 true
        (0, [0]) ⟨11, 0, 0⟩).1.1 = 0 := by
  let rs := storeLeaseRecords smallStoreConfig
  let name := generateMemName 4096 0 0
  let m := emptyDaemon.manager.run rs numaOps
  have hrun : ((numaPage.handler ⟨10, 0, 0⟩).exec (numaAnswer 0) emptyDaemon).map
      (fun x => (x.1.1, x.1.2.name, x.2.manager)) = some (ubsmOk, name, m) := rfl
  have hm : LeaseReached smallStoreConfig m :=
    ⟨fun _ => true, true, 2, numaOps, by simp [numaOps, MlsOp.HasPid], rfl⟩
  have hslots : (m.used name).map (·.slotId) = some 0 := rfl
  have hfreed : (m.preDeleteUsedMem rs name).1 = 1 := rfl
  have henabled : (m.preDeleteUsedMem rs name).2.isEnableLeaseBuffered = true := rfl
  have hunits :
      ((m.preDeleteUsedMem rs name).2.cache true).all (fun x => x.unitSize = 4096) = true :=
    rfl
  clear_value m
  obtain ⟨⟨⟨code, response⟩, s'⟩, hexec, hres⟩ := Option.map_eq_some_iff.mp hrun
  simp only [Prod.mk.injEq] at hres
  obtain ⟨hok, hname, rfl⟩ := hres
  have hruns := Prog.Runs.of_exec (serveSem_of_numaAnswer 0) hexec
  obtain ⟨info, hinfo, hserves⟩ := cached_lease_serves smallStoreConfig 0 numaPage (by decide)
    trivial ⟨10, 0, 0⟩ ⟨fun _ => true, true, 2, [], by simp, rfl⟩ hruns hok
  refine ⟨_, s', hruns, hok, ?_⟩
  dsimp only at hinfo hserves ⊢
  rw [hname] at hinfo hserves ⊢
  have hzero : info.slotId = 0 := by simpa [hinfo] using hslots
  obtain ⟨cached, hmem, -, hslot, -, hserved⟩ := hserves s'.manager hm hinfo hfreed
  refine ⟨hfreed, hserved _ (hm.step (.preDeleteUsedMem name) trivial) hmem henabled (0, [0])
    ⟨11, 0, 0⟩ rfl ?_ fun old hfit => ?_⟩
  · rw [hslot, hzero]
    exact List.mem_singleton_self 0
  · rw [of_decide_eq_true (List.all_eq_true.mp hunits old hfit.mem)]
    decide

/-- **NUMA memory from a place is kept under the size zero**: its unit size is not
recorded, so the next request for a page does not find it. -/
theorem numa_lease_not_found : ∃ res s',
    Prog.Runs (serveSem smallStoreConfig 0) (numaPageAt.handler ⟨10, 0, 0⟩) emptyDaemon res s' ∧
      res.1 = ubsmOk ∧
      let freed := s'.manager.preDeleteUsedMem (storeLeaseRecords smallStoreConfig) res.2.name
      freed.1 = 1 ∧ freed.2.numaBufferedMemory.map MlsMemInfo.size = [0] ∧
      (freed.2.reuseBufferedMem (storeLeaseRecords smallStoreConfig) 4096 true (0, [0])
        ⟨11, 0, 0⟩).1 = (-1, none) := by
  have hrun : ((numaPageAt.handler ⟨10, 0, 0⟩).exec (numaAnswer 0) emptyDaemon).map (fun x =>
      let freed := x.2.manager.preDeleteUsedMem (storeLeaseRecords smallStoreConfig) x.1.2.name
      (x.1.1, freed.1, freed.2.numaBufferedMemory.map MlsMemInfo.size,
        (freed.2.reuseBufferedMem (storeLeaseRecords smallStoreConfig) 4096 true (0, [0])
          ⟨11, 0, 0⟩).1)) = some (ubsmOk, 1, [0], (-1, none)) := by
    decide +kernel
  obtain ⟨⟨res, s'⟩, hexec, hfound⟩ := Option.map_eq_some_iff.mp hrun
  simp only [Prod.mk.injEq] at hfound
  obtain ⟨hok, hret, hsizes, hreuse⟩ := hfound
  exact ⟨res, s', Prog.Runs.of_exec (serveSem_of_numaAnswer 0) hexec, hok, hret, hsizes,
    hreuse⟩

end UbsMem
