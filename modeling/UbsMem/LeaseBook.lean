import UbsMem.LeaseRecordView

/-! # The maps and the records of the leases

The manager moves a lease between three maps and writes its record in separate steps,
each of which may fail.  What holds between any two operations is a fact about each
name for itself (`BookedAt`): it has no record and no entry, or a record with a process
and an entry in use, or a record without a process and one entry in the cache.  An
operation is about one name, so it is enough to look at that name.
-/
namespace UbsMem

open Function Option List

/-! ### `DeleteAllBufferedMem` -/

namespace MlsManager

variable {S : Type} (rs : LeaseRecords S)

/-- `LeaseFreeMemory`, when the engine answers `reply`. -/
def leaseFreeMemory (name : Name) (reply : Int) (store : S) : Int × S :=
  let (ret, store) := rs.updateMemLeaseRecordState name .preDel store
  if ret ≠ 0 then (ret, store)
  else if reply ≠ 0 ∧ reply ≠ mxmErrLeaseNotExist then
    (reply, (rs.updateMemLeaseRecordState name .finish store).2)
  else
    let (ret, store) := rs.delMemLeaseRecord name store
    if ret ≠ 0 then (mxmErrRecordDelete, store) else (ret, store)

/-- A loop of `DeleteAllBufferedMem`: the leases that stay in the cache. -/
def freeBuffered (reply : Name → Int) : List MlsMemInfo → S → List MlsMemInfo × S
  | [], store => ([], store)
  | info :: rest, store =>
    let (ret, store) := leaseFreeMemory rs info.name (reply info.name) store
    let (kept, store) := freeBuffered reply rest store
    (if ret ≠ 0 then info :: kept else kept, store)

/-- `DeleteAllBufferedMem`, when the engine answers `reply` for each name. -/
def deleteAllBufferedMem (reply : Name → Int) (m : MlsManager S) : Int × MlsManager S :=
  if !m.isEnableLeaseBuffered then (0, m)
  else if m.numaBufferedMemory.isEmpty ∧ m.fdBufferedMemory.isEmpty then (0, m)
  else
    let (numa, store) := freeBuffered rs reply m.numaBufferedMemory m.store
    let (fd, store) := freeBuffered rs reply m.fdBufferedMemory store
    (0, { m with numaBufferedMemory := numa, fdBufferedMemory := fd, store := store })

/-! ### The cache by kinds -/

section Cache

variable {S : Type} {m : MlsManager S} {name : Name}

@[simp] theorem cache_setCache (isNuma kind : Bool) (entries : List MlsMemInfo) :
    (m.setCache isNuma entries).cache kind = if kind = isNuma then entries else m.cache kind := by
  cases isNuma <;> cases kind <;> rfl

theorem setCache_cache (isNuma : Bool) : m.setCache isNuma (m.cache isNuma) = m := by
  cases isNuma <;> rfl

@[simp] theorem withStore_withStore (store store' : S) :
    (m.withStore store).withStore store' = m.withStore store' := rfl

@[simp] theorem setCache_withStore_setCache (isNuma : Bool) (old new : List MlsMemInfo)
    (store : S) : ((m.setCache isNuma old).withStore store).setCache isNuma new =
      (m.withStore store).setCache isNuma new := by
  cases isNuma <;> rfl

@[simp] theorem cache_put (info : MlsMemInfo) (kind : Bool) :
    (m.put name info).cache kind = m.cache kind := rfl

@[simp] theorem cache_erase (kind : Bool) : (m.erase name).cache kind = m.cache kind := rfl

@[simp] theorem cache_withStore (store : S) (kind : Bool) :
    (m.withStore store).cache kind = m.cache kind := rfl

@[simp] theorem store_setCache (isNuma : Bool) (entries : List MlsMemInfo) :
    (m.setCache isNuma entries).store = m.store := by
  cases isNuma <;> rfl

@[simp] theorem store_put (info : MlsMemInfo) : (m.put name info).store = m.store := rfl

@[simp] theorem store_erase : (m.erase name).store = m.store := rfl

@[simp] theorem store_withStore (store : S) : (m.withStore store).store = store := rfl

theorem emplace_eq {info : MlsMemInfo} (h : m.used name = none) :
    m.emplace name info = m.put name info := by
  simp [emplace, h]

end Cache

end MlsManager

/-! ### A name and its record -/

/-- An entry and a record agree. -/
structure MatchesRecord (info : MlsMemInfo) (r : LeaseRecord) : Prop where
  size : info.size = r.size
  owner : info.appContext = r.appContext
  kind : info.isNuma = !r.fdMode
  memIds : info.memIds = r.memIds
  unitSize : info.unitSize = r.unitSize
  slotId : info.slotId = r.slotId

section Booked

open MlsManager

variable {S : Type} {view : S → Name → Option LeaseRecord} {rs : LeaseRecords S}
  {fits : Name → Prop} {ok : S → Prop} {m m' : MlsManager S} {name : Name} {store : S}
  {r : LeaseRecord} {info : MlsMemInfo} {isNuma : Bool} {context : AppContext}

/-- No entry of the cache has the name. -/
def NotCached (m : MlsManager S) (name : Name) : Prop :=
  ∀ kind, ∀ info ∈ m.cache kind, info.name ≠ name

/-- The entry is the only one in the cache with its name, in the part for its kind. -/
def OnlyCached (m : MlsManager S) (info : MlsMemInfo) : Prop :=
  ∀ kind x, x ∈ m.cache kind ∧ x.name = info.name ↔ kind = info.isNuma ∧ x = info

variable (view) in
/-- **A name is where its record says.** -/
inductive BookedAt (m : MlsManager S) (name : Name) : Prop
  | absent (hrecord : view m.store name = none) (hused : m.used name = none)
      (hcached : NotCached m name)
  | used (info : MlsMemInfo) (r : LeaseRecord) (hrecord : view m.store name = some r)
      (hused : m.used name = some info) (hname : info.name = name) (hmatches : MatchesRecord info r)
      (hpid : r.appContext.pid ≠ 0) (hcached : NotCached m name)
  | buffered (info : MlsMemInfo) (r : LeaseRecord) (hrecord : view m.store name = some r)
      (hused : m.used name = none) (hname : info.name = name) (hmatches : MatchesRecord info r)
      (hpid : r.appContext.pid = 0) (hcached : OnlyCached m info)

variable (view) in
/-- **The maps and the records belong together.** -/
def Booked (m : MlsManager S) : Prop := ∀ name, BookedAt view m name

variable (view) in
/-- A name is left alone. -/
structure SameAt (m m' : MlsManager S) (name : Name) : Prop where
  used : m'.used name = m.used name
  cached : ∀ kind x, x.name = name → (x ∈ m'.cache kind ↔ x ∈ m.cache kind)
  record : view m'.store name = view m.store name

theorem BookedAt.of_sameAt (hsame : SameAt view m m' name) (h : BookedAt view m name) :
    BookedAt view m' name := by
  have hnot : NotCached m name → NotCached m' name := by
    intro hcached kind x hx heq
    exact hcached kind x ((hsame.cached kind x heq).mp hx) heq
  cases h with
  | absent hrecord hused hcached =>
    exact .absent (hsame.record.trans hrecord) (hsame.used.trans hused) (hnot hcached)
  | used info r hrecord hused hname hmatches hpid hcached =>
    exact .used info r (hsame.record.trans hrecord) (hsame.used.trans hused) hname hmatches hpid
      (hnot hcached)
  | buffered info r hrecord hused hname hmatches hpid hcached =>
    refine .buffered info r (hsame.record.trans hrecord) (hsame.used.trans hused) hname hmatches
      hpid fun kind x => ?_
    rw [← hcached kind x]
    exact and_congr_left fun hx => hsame.cached kind x (hx.trans hname)

section

variable (h : Booked view m) {info : MlsMemInfo}

include h

theorem Booked.of_others (name : Name) (hothers : ∀ n, n ≠ name → SameAt view m m' n)
    (hname : BookedAt view m' name) : Booked view m' := by
  intro n
  by_cases hn : n = name
  · exact hn ▸ hname
  · exact (h n).of_sameAt (hothers n hn)

theorem Booked.of_same (hused : m'.used = m.used) (hcache : ∀ kind, m'.cache kind = m.cache kind)
    (hview : view m'.store = view m.store) : Booked view m' := fun n =>
  (h n).of_sameAt ⟨by rw [hused], fun kind x _ => by rw [hcache], by rw [hview]⟩

theorem Booked.of_used (hinfo : m.used name = some info) :
    ∃ r, view m.store name = some r ∧ info.name = name ∧ MatchesRecord info r ∧
    r.appContext.pid ≠ 0 ∧
      NotCached m name := by
  cases h name with
  | absent _ hused _ => rw [hused] at hinfo; cases hinfo
  | used info' r hrecord hused hname hmatches hpid hcached =>
    obtain rfl : info' = info := some.inj (hused.symm.trans hinfo)
    exact ⟨r, hrecord, hname, hmatches, hpid, hcached⟩
  | buffered _ _ _ hused => rw [hused] at hinfo; cases hinfo

theorem Booked.of_cached {kind : Bool} (hinfo : info ∈ m.cache kind) :
    ∃ r, view m.store info.name = some r ∧ m.used info.name = none ∧ MatchesRecord info r ∧
      r.appContext.pid = 0 ∧ kind = info.isNuma ∧ OnlyCached m info := by
  cases h info.name with
  | absent _ _ hcached => exact absurd rfl (hcached kind info hinfo)
  | used _ _ _ _ _ _ _ hcached => exact absurd rfl (hcached kind info hinfo)
  | buffered info' r hrecord hused hname hmatches hpid hcached =>
    obtain ⟨hkind, rfl⟩ := (hcached kind info).mp ⟨hinfo, hname.symm⟩
    exact ⟨r, hrecord, hused, hmatches, hpid, hkind, hcached⟩

theorem Booked.notCached_of_absent (hrecord : view m.store name = none) : NotCached m name := by
  intro kind x hx heq
  obtain ⟨r, hr, -⟩ := h.of_cached hx
  rw [heq, hrecord] at hr
  cases hr

/-- The entry in use and the record of a name change, and nothing else. -/
theorem Booked.of_update {entry : Option MlsMemInfo} {record : Option LeaseRecord}
    (hused : m'.used = update m.used name entry) (hcache : ∀ kind, m'.cache kind = m.cache kind)
    (hview : view m'.store = update (view m.store) name record) (hname : BookedAt view m' name) :
    Booked view m' := by
  refine h.of_others name (fun n hn => ⟨?_, fun kind x _ => by rw [hcache], ?_⟩) hname
  · rw [hused, update_of_ne hn]
  · rw [hview, update_of_ne hn]

end

/-! ### The operations -/

/-- The size under which a lease is kept in the cache; the product is taken in 64 bits. -/
def bufferedSize (info : MlsMemInfo) : Nat := info.unitSize * info.memIds.length % 2 ^ 64

/-- The leases in the cache are different, each under the size of its memory ids. -/
structure CacheOk (m : MlsManager S) : Prop where
  nodup : ∀ kind, (m.cache kind).Nodup
  sizes : ∀ kind, ∀ info ∈ m.cache kind, info.size = bufferedSize info

theorem CacheOk.withStore (h : CacheOk m) (store : S) : CacheOk (m.withStore store) :=
  { h with }

variable (view ok) in
/-- The maps and the records belong together, in a store that is well formed. -/
structure Kept (m : MlsManager S) : Prop where
  booked : Booked view m
  cache : CacheOk m
  ok : ok m.store

theorem Kept.refused (h : Kept view ok m) (hok : ok store) (hview : view store = view m.store) :
    Kept view ok (m.withStore store) :=
  ⟨h.booked.of_same rfl (fun _ => rfl) hview, { h.cache with }, hok⟩

theorem Kept.put (h : Kept view ok m) (hok : ok store) {info' : MlsMemInfo} {r' : LeaseRecord}
    (hused : m.used name = some info) (hrecord : view m.store name = some r)
    (hview : view store = update (view m.store) name (some r')) (hname : info'.name = info.name)
    (hmatches : MatchesRecord info r → MatchesRecord info' r')
    (hpid : r'.appContext = r.appContext) : Kept view ok ((m.withStore store).put name info') := by
  obtain ⟨old, hold, hinfo, hagree, hlive, hcached⟩ := h.booked.of_used hused
  obtain rfl : old = r := some.inj (hold.symm.trans hrecord)
  refine ⟨h.booked.of_update (used_put info') (fun _ => rfl) hview ?_, { h.cache with }, hok⟩
  refine .used info' r' ?_ ?_ (hname.trans hinfo) (hmatches hagree) (hpid ▸ hlive) hcached
  · rw [store_put, store_withStore, hview, update_self]
  · rw [used_put, update_self]

section

variable (hlaw : rs.Lawful view fits ok)

include hlaw

section

variable (h : Kept view ok m)

include h

theorem Kept.preAddUsedMem (hname : fits name) (size : Nat) {usr : AppContext} (husr : usr.pid ≠ 0)
    (isNuma : Bool) (perfLevel : Nat) :
    Kept view ok (m.preAddUsedMem rs name size usr isNuma perfLevel).2 := by
  unfold MlsManager.preAddUsedMem
  split
  · exact h
  · next hused =>
    obtain ⟨hok, hcases⟩ := hlaw.add ⟨!isNuma, name, size, UInt8.ofNat perfLevel, usr, .preAdd⟩
      m.store hname h.ok
    dsimp only
    rcases hcases with ⟨hret, hview⟩ | ⟨hret, hnew, hview⟩
    · rw [if_pos hret]
      exact h.refused hok hview
    · rw [if_neg (not_not.mpr hret)]
      -- the name is not in use, so the entry is put there
      simp only [emplace_eq, used_withStore, hused]
      have hrecord := congrFun hview name
      rw [update_self] at hrecord
      refine ⟨h.booked.of_update (used_put _) (fun _ => rfl) hview ?_, { h.cache with }, hok⟩
      refine .used _ _ hrecord (by rw [used_put, update_self]) rfl ?_ husr
        (h.booked.notCached_of_absent hnew)
      exact ⟨rfl, rfl, (Bool.not_not _).symm, rfl, rfl, rfl⟩

theorem Kept.finishAddUsedMem (numaId : Int) (unitSize slotId : Nat) (memIds : List UInt64) :
    Kept view ok (m.finishAddUsedMem rs name numaId unitSize slotId memIds).2 := by
  unfold MlsManager.finishAddUsedMem
  split
  · exact h
  · next info hused =>
    obtain ⟨hok, hcases⟩ := hlaw.result name ⟨memIds, numaId, unitSize, slotId⟩ m.store h.ok
    dsimp only
    rcases hcases with ⟨hret, hview⟩ | ⟨hret, r, hrecord, hview⟩
    · rw [if_pos hret]
      exact h.refused hok hview
    · rw [if_neg (not_not.mpr hret)]
      refine h.put hok hused hrecord hview rfl (fun hagree => ?_) rfl
      exact ⟨hagree.size, hagree.owner, hagree.kind, rfl, rfl, rfl⟩

theorem Kept.updateMemRecordState (state : RecordState) :
    Kept view ok (m.updateMemRecordState rs name state).2 := by
  unfold MlsManager.updateMemRecordState
  split
  · exact h
  · next info hused =>
    obtain ⟨hok, hcases⟩ := hlaw.mark name state m.store h.ok
    dsimp only
    rcases hcases with ⟨hret, hview⟩ | ⟨hret, r, hrecord, hview⟩
    · rw [if_pos hret]
      exact h.refused hok hview
    · rw [if_neg (not_not.mpr hret)]
      refine h.put hok hused hrecord hview rfl (fun hagree => ?_) rfl
      exact { hagree with }

theorem Kept.deleteUsedMem : Kept view ok (m.deleteUsedMem rs name).2 := by
  unfold MlsManager.deleteUsedMem
  split
  · exact h
  · next info hused =>
    obtain ⟨hok, hcases⟩ := hlaw.delete name m.store h.ok
    dsimp only
    rcases hcases with ⟨hret, hview⟩ | ⟨hret, r, hrecord, hview⟩
    · rw [if_pos hret]
      exact h.refused hok hview
    · rw [if_neg (not_not.mpr hret)]
      obtain ⟨-, -, -, -, -, hcached⟩ := h.booked.of_used hused
      refine ⟨h.booked.of_update used_erase (fun _ => rfl) hview ?_, { h.cache with }, hok⟩
      refine .absent ?_ (by rw [used_erase, update_self]) hcached
      rw [store_erase, store_withStore, hview, update_self]

theorem Kept.mark (name : Name) (state : RecordState) :
    Kept view ok (m.withStore (rs.updateMemLeaseRecordState name state m.store).2) := by
  obtain ⟨hok, hcases⟩ := hlaw.mark name state m.store h.ok
  rcases hcases with ⟨-, hview⟩ | ⟨-, r, hrecord, hview⟩
  · exact h.refused hok hview
  have hnew : view (rs.updateMemLeaseRecordState name state m.store).2 name =
      some { r with state } := by
    rw [hview, update_self]
  have hagree : ∀ {info}, MatchesRecord info r → MatchesRecord info { r with state } := fun hold =>
    { hold with }
  refine ⟨h.booked.of_others name (fun n hn => ⟨rfl, fun _ _ _ => Iff.rfl, ?_⟩) ?_,
    { h.cache with }, hok⟩
  · rw [store_withStore, hview, update_of_ne hn]
  · cases h.booked name with
    | absent hnone => rw [hnone] at hrecord; cases hrecord
    | used info r' hr' hused hname hmatches hpid hcached =>
      obtain rfl : r' = r := some.inj (hr'.symm.trans hrecord)
      exact .used info _ hnew hused hname (hagree hmatches) hpid hcached
    | buffered info r' hr' hused hname hmatches hpid hcached =>
      obtain rfl : r' = r := some.inj (hr'.symm.trans hrecord)
      exact .buffered info _ hnew hused hname (hagree hmatches) hpid hcached

end

end

/-! ### Into the cache -/

theorem mem_cache_insert (info : MlsMemInfo) (hcached : NotCached m info.name) (kind : Bool)
    (x : MlsMemInfo) :
    x ∈ (m.setCache info.isNuma (setInsert mlsMemKeyLt info (m.cache info.isNuma))).cache kind ↔
      x ∈ m.cache kind ∨ kind = info.isNuma ∧ x = info := by
  have hnew : ∀ y ∈ m.cache info.isNuma, equivKeys mlsMemKeyLt info y = false := by
    intro y hy
    by_contra heq
    exact hcached _ y hy (name_eq_of_equivKeys (by simpa using heq)).symm
  rw [cache_setCache]
  split_ifs with hkind
  · rw [mem_setInsert, hkind]
    exact ⟨Or.imp_right fun hx => ⟨rfl, hx.1⟩, Or.imp_right fun hx => ⟨hx.2, hnew⟩⟩
  · exact ⟨.inl, fun hx => hx.resolve_right fun h => hkind h.1⟩

theorem CacheOk.insert (h : CacheOk m) (info : MlsMemInfo) (hcached : NotCached m info.name)
    (hsize : info.size = bufferedSize info) :
    CacheOk (m.setCache info.isNuma (setInsert mlsMemKeyLt info (m.cache info.isNuma))) := by
  refine ⟨fun kind => ?_, fun kind x hx => ?_⟩
  · rw [cache_setCache]
    split_ifs
    · refine pairwise_setInsert mlsMemKeyLt (fun x y => Ne.symm) (h.nodup _) fun y hy heq => ?_
      exact hcached _ y hy (congrArg MlsMemInfo.name heq.symm)
    · exact h.nodup kind
  · rcases (mem_cache_insert info hcached kind x).mp hx with hx | ⟨-, rfl⟩
    · exact h.sizes kind x hx
    · exact hsize

/-- The entry that `BufferUsedMemory` makes. -/
def bufferedInfo (info : MlsMemInfo) : MlsMemInfo :=
  { info with appContext := { info.appContext with pid := 0 }, size := bufferedSize info }

theorem Booked.buffer (h : Booked view m) (hinfo : m.used name = some info)
    (hused : m'.used = update m.used name none) (hcache : ∀ kind x, x ∈ m'.cache kind ↔
      x ∈ m.cache kind ∨ kind = info.isNuma ∧ x = bufferedInfo info)
    (hrecord : view m.store name = some r)
    (hview : view m'.store = update (view m.store) name (some { r with
      appContext := { info.appContext with pid := 0 }, size := bufferedSize info })) :
    Booked view m' := by
  obtain ⟨old, hold, hname, hagree, -, hcached⟩ := h.of_used hinfo
  obtain rfl : old = r := some.inj (hold.symm.trans hrecord)
  refine h.of_others name (fun n hn => ⟨?_, fun kind x hx => ?_, ?_⟩) ?_
  · rw [hused, update_of_ne hn]
  · rw [hcache]
    refine ⟨fun hin => hin.resolve_right ?_, .inl⟩
    rintro ⟨-, rfl⟩
    exact hn (hx.symm.trans hname)
  · rw [hview, update_of_ne hn]
  · have hnew := congrFun hview name
    rw [update_self] at hnew
    refine .buffered (bufferedInfo info) _ hnew ?_ hname ?_ rfl fun kind x => ?_
    · rw [hused, update_self]
    · exact { hagree with size := rfl, owner := rfl }
    · rw [hcache]
      constructor
      · rintro ⟨hx | hx, hxname⟩
        · exact absurd (hxname.trans hname) (hcached kind x hx)
        · exact hx
      · rintro ⟨rfl, rfl⟩
        exact ⟨.inr ⟨rfl, rfl⟩, rfl⟩

/-- A lease in use is kept in the cache, where there is room, or its record is marked. -/
theorem Kept.preDeleteUsedMem (hlaw : rs.Lawful view fits ok) (h : Kept view ok m) :
    Kept view ok (m.preDeleteUsedMem rs name).2 := by
  unfold MlsManager.preDeleteUsedMem
  split
  · exact h
  next info hused =>
  obtain ⟨-, -, rfl, -, -, hcached⟩ := h.booked.of_used hused
  have hmark := h.mark hlaw info.name .preDel
  split_ifs
  swap
  · exact hmark
  unfold bufferUsedMemory
  by_cases hroom : (m.cache info.isNuma).length < m.maxBufferedMemNum
  swap
  · simp only [hroom]
    exact hmark
  obtain ⟨hok, hcases⟩ := hlaw.assign info.name { info.appContext with pid := 0 }
    (bufferedSize info) m.store h.ok
  have hone := hlaw.assign_ne_one info.name { info.appContext with pid := 0 } (bufferedSize info)
    m.store
  unfold bufferedSize at hok hcases hone
  simp only [hroom]
  rcases hcases with ⟨hret, hview⟩ | ⟨hret, r, hrecord, hview⟩
  · simp only [hret, hone, ne_eq, not_false_eq_true, if_true]
    exact h.refused hok hview
  · simp only [hret, ne_eq, not_true_eq_false, if_true, if_false]
    refine ⟨h.booked.buffer hused (by simp) (fun kind x => ?_) hrecord ?_, ?_, ?_⟩
    · refine mem_cache_insert (bufferedInfo info) ?_ kind x
      exact hcached
    · rw [store_erase, store_setCache]
      exact hview
    · have hcache := (h.cache.withStore (rs.updateMemLeaseRecord info.name
        { info.appContext with pid := 0 } (bufferedSize info) m.store).2).insert (bufferedInfo info)
        hcached rfl
      exact { hcache with }
    · rw [store_erase, store_setCache]
      exact hok

/-! ### Out of the cache -/

theorem mem_cache_erase (info : MlsMemInfo) (honly : OnlyCached m info) (kind : Bool)
    (x : MlsMemInfo) :
    x ∈ (m.setCache info.isNuma (setErase mlsMemKeyLt info (m.cache info.isNuma))).cache kind ↔
      x ∈ m.cache kind ∧ x.name ≠ info.name := by
  rw [cache_setCache]
  split_ifs with hkind
  · rw [mem_setErase, hkind]
    refine and_congr_right fun hx => ⟨fun hne heq => ?_, fun hne => ?_⟩
    · obtain ⟨-, rfl⟩ := (honly _ x).mp ⟨hx, heq⟩
      rw [equivKeys_self] at hne
      cases hne
    · by_contra heq
      exact hne (name_eq_of_equivKeys (by simpa using heq)).symm
  · exact ⟨fun hx => ⟨hx, fun heq => hkind ((honly kind x).mp ⟨hx, heq⟩).1⟩, And.left⟩

theorem CacheOk.shrink (h : CacheOk m) {entries : List MlsMemInfo}
    (hsub : entries.Sublist (m.cache isNuma)) : CacheOk (m.setCache isNuma entries) := by
  refine ⟨fun kind => ?_, fun kind x hx => ?_⟩
  · rw [cache_setCache]
    split_ifs
    · exact (h.nodup isNuma).sublist hsub
    · exact h.nodup kind
  · rw [cache_setCache] at hx
    split_ifs at hx
    · exact h.sizes isNuma x (hsub.subset hx)
    · exact h.sizes kind x hx

theorem CacheOk.erase (h : CacheOk m) (info : MlsMemInfo) (isNuma : Bool) :
    CacheOk (m.setCache isNuma (setErase mlsMemKeyLt info (m.cache isNuma))) :=
  h.shrink filter_sublist

theorem Booked.reuse (h : Booked view m) (hmem : info ∈ m.cache isNuma) (hcontext : context.pid ≠ 0)
    (size : Nat) (hused : m'.used = update m.used info.name
      (some { info with appContext := context, size, isNuma }))
    (hcache : ∀ kind x, x ∈ m'.cache kind ↔ x ∈ m.cache kind ∧ x.name ≠ info.name)
    (hrecord : view m.store info.name = some r)
    (hview : view m'.store = update (view m.store) info.name
      (some { r with appContext := context, size })) : Booked view m' := by
  obtain ⟨old, hold, -, hagree, -, rfl, -⟩ := h.of_cached hmem
  obtain rfl : old = r := some.inj (hold.symm.trans hrecord)
  refine h.of_others info.name (fun n hn => ⟨?_, fun kind x hx => ?_, ?_⟩) ?_
  · rw [hused, update_of_ne hn]
  · rw [hcache, hx, and_iff_left hn]
  · rw [hview, update_of_ne hn]
  · have hnew := congrFun hview info.name
    have hentry := congrFun hused info.name
    rw [update_self] at hnew hentry
    refine .used _ _ hnew hentry rfl ?_ hcontext fun kind x hx => ((hcache kind x).mp hx).2
    exact { hagree with size := rfl, owner := rfl }

/-- `ReuseBufferedMem` keeps the maps also where it takes a lease and reports an error. -/
theorem Kept.reuseBufferedMem (hlaw : rs.Lawful view fits ok) (h : Kept view ok m) (size : Nat)
    (isNuma : Bool) (region : Int × List Nat) (hcontext : context.pid ≠ 0) :
    Kept view ok (m.reuseBufferedMem rs size isNuma region context).2 := by
  unfold MlsManager.reuseBufferedMem reuseMemInSlotId
  split_ifs
  · exact h
  · exact h
  cases hfind : findBuffered (m.cache isNuma) size region.2 with
  | none => exact h
  | some info =>
    have hmem : info ∈ m.cache isNuma := (dropWhile_sublist _).subset (mem_of_find?_eq_some hfind)
    obtain ⟨-, -, hfree, -, -, rfl, honly⟩ := h.booked.of_cached hmem
    obtain ⟨hok, hcases⟩ := hlaw.assign info.name context size m.store h.ok
    dsimp only
    rcases hcases with ⟨hret, hview⟩ | ⟨hret, r, hrecord, hview⟩
    · rw [if_pos hret]
      exact h.refused hok hview
    · rw [if_neg (not_not.mpr hret)]
      dsimp only
      rw [emplace_eq (by simpa using hfree)]
      have hkept : Kept view ok (((m.withStore (rs.updateMemLeaseRecord info.name context size
          m.store).2).setCache info.isNuma (setErase mlsMemKeyLt info (m.cache info.isNuma))).put
            info.name { info with appContext := context, size }) := by
        refine ⟨h.booked.reuse hmem hcontext size (by simp) (fun kind x => ?_) hrecord ?_, ?_, ?_⟩
        · refine mem_cache_erase info ?_ kind x
          exact honly
        · rw [store_put, store_setCache]
          exact hview
        · have hcache := (h.cache.withStore (rs.updateMemLeaseRecord info.name context size
            m.store).2).erase info info.isNuma
          exact { hcache with }
        · rw [store_put, store_setCache]
          exact hok
      split_ifs <;> exact hkept

/-! ### The cache is emptied -/

theorem leaseFreeMemory_cases (hlaw : rs.Lawful view fits ok) (h : Kept view ok m) (name : Name)
    (reply : Int) : let res := leaseFreeMemory rs name reply m.store
    ok res.2 ∧ (res.1 ≠ 0 ∧ Kept view ok (m.withStore res.2) ∨
      res.1 = 0 ∧ (∃ r, view m.store name = some r) ∧
        view res.2 = update (view m.store) name none) := by
  have hmark := h.mark hlaw name .preDel
  obtain ⟨hok, hcases⟩ := hlaw.mark name .preDel m.store h.ok
  unfold leaseFreeMemory
  dsimp only
  split_ifs with hret hreply hdel
  · exact ⟨hok, .inl ⟨hret, hmark⟩⟩
  · have hback := hmark.mark hlaw name .finish
    exact ⟨hback.ok, .inl ⟨hreply.1, hback⟩⟩
  · obtain ⟨hok', hcases'⟩ := hlaw.delete name _ hok
    have hview := hcases'.resolve_right fun hdone => hdel hdone.1
    exact ⟨hok', .inl ⟨mxmErrRecordDelete_ne, hmark.refused hok' hview.2⟩⟩
  · obtain ⟨hok', hcases'⟩ := hlaw.delete name _ hok
    obtain ⟨hzero, _, -, hview'⟩ := hcases'.resolve_left fun hfailed => hdel hfailed.1
    obtain ⟨-, r, hrecord, hview⟩ := hcases.resolve_left fun hfailed => hret hfailed.1
    refine ⟨hok', .inr ⟨hzero, ⟨r, hrecord⟩, ?_⟩⟩
    rw [hview', hview, update_idem]

theorem Booked.free (h : Booked view m) {kind : Bool} (hmem : info ∈ m.cache kind)
    (hused : m'.used = m.used)
    (hcache : ∀ kind x, x ∈ m'.cache kind ↔ x ∈ m.cache kind ∧ x.name ≠ info.name)
    (hview : view m'.store = update (view m.store) info.name none) : Booked view m' := by
  obtain ⟨-, -, hfree, -⟩ := h.of_cached hmem
  refine h.of_others info.name (fun n hn => ⟨by rw [hused], fun kind x hx => ?_, ?_⟩) ?_
  · rw [hcache, hx, and_iff_left hn]
  · rw [hview, update_of_ne hn]
  · refine .absent ?_ (by rw [hused, hfree]) fun kind x hx => ((hcache kind x).mp hx).2
    rw [hview, update_self]

/-- A loop of `DeleteAllBufferedMem`: the leases before it in the list have stayed. -/
theorem Kept.freeBuffered (hlaw : rs.Lawful view fits ok) (reply : Name → Int) (isNuma : Bool)
    (kept rest : List MlsMemInfo) (h : Kept view ok m) (hcache : m.cache isNuma = kept ++ rest) :
    let res := MlsManager.freeBuffered rs reply rest m.store
    Kept view ok ((m.withStore res.2).setCache isNuma (kept ++ res.1)) := by
  induction rest generalizing m kept with
  | nil =>
    have hsame : (m.withStore m.store).setCache isNuma (kept ++ []) = m := by
      rw [← hcache]
      exact setCache_cache isNuma
    show Kept view ok ((m.withStore m.store).setCache isNuma (kept ++ []))
    rw [hsame]
    exact h
  | cons info rest ih =>
    have hmem : info ∈ m.cache isNuma := by simp [hcache]
    obtain ⟨hok, hcases⟩ := leaseFreeMemory_cases hlaw h info.name (reply info.name)
    unfold MlsManager.freeBuffered
    dsimp only
    rcases hcases with ⟨hret, hkept⟩ | ⟨hret, -, hview⟩
    · rw [if_pos hret]
      have hstays := ih (kept ++ [info]) hkept (by simpa using hcache)
      simpa using hstays
    · rw [if_neg (not_not.mpr hret)]
      have hfreed : Kept view ok ((m.withStore (leaseFreeMemory rs info.name (reply info.name)
          m.store).2).setCache isNuma (kept ++ rest)) := by
        have hnodup := h.cache.nodup isNuma
        rw [hcache] at hnodup
        have hsub : (kept ++ rest).Sublist (m.cache isNuma) := by
          rw [hcache]
          exact List.Sublist.append_left (sublist_cons_self _ _) _
        obtain ⟨-, -, -, -, -, rfl, honly⟩ := h.booked.of_cached hmem
        refine ⟨h.booked.free hmem (by simp) (fun kind x => ?_) (by simpa using hview),
          (h.cache.withStore _).shrink hsub, by simpa using hok⟩
        · rw [cache_setCache]
          split_ifs with hkind
          · have hout : info ∉ kept ++ rest := (nodup_cons.mp (nodup_middle.mp hnodup)).1
            rw [hkind]
            refine ⟨fun hx => ?_, fun hx => ?_⟩
            · have hin : x ∈ m.cache info.isNuma := hsub.subset hx
              refine ⟨hin, fun heq => hout ?_⟩
              obtain ⟨-, rfl⟩ := (honly _ x).mp ⟨hin, heq⟩
              exact hx
            · rw [hcache, mem_append, mem_cons] at hx
              rcases hx with ⟨hx | rfl | hx, hne⟩
              · exact mem_append_left _ hx
              · exact absurd rfl hne
              · exact mem_append_right _ hx
          · exact ⟨fun hx => ⟨hx, fun heq => hkind ((honly kind x).mp ⟨hx, heq⟩).1⟩, And.left⟩
      simpa using ih kept hfreed (by simp)

theorem Kept.deleteAllBufferedMem (hlaw : rs.Lawful view fits ok) (h : Kept view ok m)
    (reply : Name → Int) : Kept view ok (m.deleteAllBufferedMem rs reply).2 := by
  unfold MlsManager.deleteAllBufferedMem
  split_ifs
  · exact h
  · exact h
  · have hnuma := Kept.freeBuffered hlaw reply true [] m.numaBufferedMemory h rfl
    exact Kept.freeBuffered hlaw reply false [] m.fdBufferedMemory hnuma rfl

end Booked

/-! ### Runs -/

/-- The operations of the manager that change a lease. -/
inductive MlsOp
  | preAddUsedMem (name : Name) (size : Nat) (usr : AppContext) (isNuma : Bool) (perfLevel : Nat)
  | finishAddUsedMem (name : Name) (numaId : Int) (unitSize slotId : Nat) (memIds : List UInt64)
  | updateMemRecordState (name : Name) (state : RecordState)
  | preDeleteUsedMem (name : Name)
  | deleteUsedMem (name : Name)
  | reuseBufferedMem (size : Nat) (isNuma : Bool) (region : Int × List Nat) (context : AppContext)
  | deleteAllBufferedMem (reply : Name → Int)

/-- The process that calls has a pid. -/
def MlsOp.HasPid : MlsOp → Prop
  | .preAddUsedMem _ _ usr _ _ => usr.pid ≠ 0
  | .reuseBufferedMem _ _ _ context => context.pid ≠ 0
  | _ => True

/-- The name that an operation adds. -/
def MlsOp.adds : MlsOp → List Name
  | .preAddUsedMem name _ _ _ _ => [name]
  | _ => []

namespace MlsManager

variable {S : Type}

/-- The manager after an operation. -/
def step (rs : LeaseRecords S) (m : MlsManager S) : MlsOp → MlsManager S
  | .preAddUsedMem name size usr isNuma perfLevel =>
    (m.preAddUsedMem rs name size usr isNuma perfLevel).2
  | .finishAddUsedMem name numaId unitSize slotId memIds =>
    (m.finishAddUsedMem rs name numaId unitSize slotId memIds).2
  | .updateMemRecordState name state => (m.updateMemRecordState rs name state).2
  | .preDeleteUsedMem name => (m.preDeleteUsedMem rs name).2
  | .deleteUsedMem name => (m.deleteUsedMem rs name).2
  | .reuseBufferedMem size isNuma region context =>
    (m.reuseBufferedMem rs size isNuma region context).2
  | .deleteAllBufferedMem reply => (m.deleteAllBufferedMem rs reply).2

/-- The manager after a sequence of operations. -/
def run (rs : LeaseRecords S) (m : MlsManager S) (ops : List MlsOp) : MlsManager S :=
  ops.foldl (step rs) m

/-- A manager without leases. -/
def start (isEnableLeaseBuffered : Bool) (maxBufferedMemNum : Nat) (store : S) : MlsManager S :=
  ⟨∅, [], [], isEnableLeaseBuffered, maxBufferedMemNum, store⟩

end MlsManager

section Runs

variable {S : Type} {view : S → Name → Option LeaseRecord} {rs : LeaseRecords S}
  {fits : Name → Prop} {ok : S → Prop} {m : MlsManager S}

theorem Kept.step (hlaw : rs.Lawful view fits ok) (h : Kept view ok m) {op : MlsOp}
    (hpid : op.HasPid) (hfits : ∀ name ∈ op.adds, fits name) : Kept view ok (m.step rs op) := by
  cases op with
  | preAddUsedMem name size usr isNuma perfLevel =>
    exact h.preAddUsedMem hlaw (hfits name (mem_singleton_self _)) size hpid isNuma perfLevel
  | finishAddUsedMem name numaId unitSize slotId memIds =>
    exact h.finishAddUsedMem hlaw numaId unitSize slotId memIds
  | updateMemRecordState name state => exact h.updateMemRecordState hlaw state
  | preDeleteUsedMem name => exact h.preDeleteUsedMem hlaw
  | deleteUsedMem name => exact h.deleteUsedMem hlaw
  | reuseBufferedMem size isNuma region context =>
    exact h.reuseBufferedMem hlaw size isNuma region hpid
  | deleteAllBufferedMem reply => exact h.deleteAllBufferedMem hlaw reply

theorem Kept.run (hlaw : rs.Lawful view fits ok) (h : Kept view ok m) {ops : List MlsOp}
    (hpid : ∀ op ∈ ops, op.HasPid) (hfits : ∀ op ∈ ops, ∀ name ∈ op.adds, fits name) :
    Kept view ok (m.run rs ops) := by
  induction ops generalizing m with
  | nil => exact h
  | cons op ops ih =>
    have hstep := h.step hlaw (hpid op (mem_cons_self ..)) (hfits op (mem_cons_self ..))
    exact ih hstep (fun op' hop' => hpid op' (mem_cons_of_mem _ hop'))
      fun op' hop' => hfits op' (mem_cons_of_mem _ hop')

section

variable (isEnableLeaseBuffered : Bool) (maxBufferedMemNum : Nat)

theorem cache_start (store : S) (kind : Bool) :
    (MlsManager.start isEnableLeaseBuffered maxBufferedMemNum store).cache kind = [] := by
  cases kind <;> rfl

theorem notCached_start (store : S) (name : Name) :
    NotCached (MlsManager.start isEnableLeaseBuffered maxBufferedMemNum store) name := by
  intro kind x hx
  rw [cache_start] at hx
  cases hx

theorem cacheOk_start (store : S) :
    CacheOk (MlsManager.start isEnableLeaseBuffered maxBufferedMemNum store) := by
  refine ⟨fun kind => ?_, fun kind x hx => ?_⟩
  · rw [cache_start]
    exact nodup_nil
  · rw [cache_start] at hx
    cases hx

theorem Kept.start {store : S} (hok : ok store) (hempty : ∀ name, view store name = none) :
    Kept view ok (MlsManager.start isEnableLeaseBuffered maxBufferedMemNum store) :=
  ⟨fun name => .absent (hempty name) rfl (notCached_start _ _ store name), cacheOk_start _ _ store,
    hok⟩

end

/-- **Maps and records agree**: no name is in two of the three maps, together they have
the names of the records, an entry says what its record says, and it is in the cache when
the record has no process. -/
structure MapsAgree (records : Name → Option LeaseRecord) (m : MlsManager S) : Prop where
  usedName : ∀ n info, m.used n = some info → info.name = n
  usedNotBuffered : ∀ n info, m.used n = some info → n ∉ m.cachedNames
  numaNotFd : ∀ x ∈ m.numaBufferedMemory, ∀ y ∈ m.fdBufferedMemory, x.name ≠ y.name
  recorded : ∀ n, (∃ r, records n = some r) ↔
    (∃ info, m.used n = some info) ∨ n ∈ m.cachedNames
  used : ∀ n info, m.used n = some info → ∃ r, records n = some r ∧ MatchesRecord info r
  buffered : ∀ info ∈ m.buffered, ∃ r, records info.name = some r ∧ MatchesRecord info r
  kind : ∀ isNuma, ∀ info ∈ m.cache isNuma, info.isNuma = isNuma
  pid : ∀ n r, records n = some r → (n ∈ m.cachedNames ↔ r.appContext.pid = 0)

theorem exists_kind_of_buffered {info : MlsMemInfo} (h : info ∈ m.buffered) :
    ∃ kind, info ∈ m.cache kind := by
  rcases (MlsManager.mem_buffered true).mp h with hmem | hmem
  · exact ⟨true, hmem⟩
  · exact ⟨false, hmem⟩

theorem mem_cachedNames_iff {n : Name} :
    n ∈ m.cachedNames ↔ ∃ kind, ∃ info ∈ m.cache kind, info.name = n := by
  rw [MlsManager.mem_cachedNames]
  constructor
  · rintro ⟨info, hinfo, rfl⟩
    obtain ⟨kind, hmem⟩ := exists_kind_of_buffered hinfo
    exact ⟨kind, info, hmem, rfl⟩
  · rintro ⟨kind, info, hinfo, rfl⟩
    exact ⟨info, (MlsManager.mem_buffered kind).mpr (.inl hinfo), rfl⟩

theorem Booked.mapsAgree (h : Booked view m) : MapsAgree (view m.store) m := by
  have hnot : ∀ {n}, NotCached m n → n ∉ m.cachedNames := by
    intro n hcached hn
    obtain ⟨kind, info, hinfo, hname⟩ := mem_cachedNames_iff.mp hn
    exact hcached kind info hinfo hname
  have hin : ∀ {info}, OnlyCached m info → info.name ∈ m.cachedNames := by
    intro info honly
    exact mem_cachedNames_iff.mpr ⟨_, info, ((honly _ info).mpr ⟨rfl, rfl⟩).1, rfl⟩
  refine ⟨fun n info hinfo => ?_, fun n info hinfo => ?_, fun x hx y hy heq => ?_, fun n => ?_,
    fun n info hinfo => ?_, fun info hinfo => ?_, fun kind info hinfo => ?_, fun n r hr => ?_⟩
  · obtain ⟨-, -, hname, -⟩ := h.of_used hinfo
    exact hname
  · obtain ⟨-, -, -, -, -, hcached⟩ := h.of_used hinfo
    exact hnot hcached
  · -- an entry of the other part with the same name would be the same entry
    obtain ⟨-, -, -, -, -, hkind, honly⟩ := h.of_cached (show x ∈ m.cache true from hx)
    obtain ⟨hkind', -⟩ := (honly false y).mp ⟨hy, heq.symm⟩
    exact absurd (hkind.trans hkind'.symm) (by decide)
  · cases h n with
    | absent hrecord hused hcached => simp [hrecord, hused, hnot hcached]
    | used info r hrecord hused => simp [hrecord, hused]
    | buffered info r hrecord _ hname _ _ hcached =>
      exact ⟨fun _ => .inr (hname ▸ hin hcached), fun _ => ⟨r, hrecord⟩⟩
  · obtain ⟨r, hr, -, hmatches, -⟩ := h.of_used hinfo
    exact ⟨r, hr, hmatches⟩
  · obtain ⟨kind, hmem⟩ := exists_kind_of_buffered hinfo
    obtain ⟨r, hr, -, hmatches, -⟩ := h.of_cached hmem
    exact ⟨r, hr, hmatches⟩
  · obtain ⟨-, -, -, -, -, hkind, -⟩ := h.of_cached hinfo
    exact hkind.symm
  · cases h n with
    | absent hrecord => rw [hrecord] at hr; cases hr
    | used info r' hrecord hused hname hmatches hpid hcached =>
      obtain rfl : r' = r := some.inj (hrecord.symm.trans hr)
      exact ⟨fun hn => absurd hn (hnot hcached), fun hzero => absurd hzero hpid⟩
    | buffered info r' hrecord hused hname hmatches hpid hcached =>
      obtain rfl : r' = r := some.inj (hrecord.symm.trans hr)
      exact ⟨fun _ => hpid, fun _ => hname ▸ hin hcached⟩

end Runs

/-- **The three maps are the lease records**, after any operations whose callers have a
pid, whatever the store and the engine answer; a lease in the cache is kept under the
size of its memory ids.  If the names are names of records, a restart finds the same
records. -/
theorem maps_agree_with_records (config : StoreConfig) (alive alive' : UInt32 → Bool)
    (isEnableLeaseBuffered : Bool) (maxBufferedMemNum : Nat) (ops : List MlsOp)
    (hpid : ∀ op ∈ ops, op.HasPid) :
    let m := (MlsManager.start isEnableLeaseBuffered maxBufferedMemNum
      (RecordStore.start config alive)).run (storeLeaseRecords config) ops
    MapsAgree (leaseRecord m.store) m ∧
      (∀ info ∈ m.buffered, info.size = info.unitSize * info.memIds.length % 2 ^ 64) ∧
      ((∀ op ∈ ops, ∀ name ∈ op.adds, NameOk name) →
        leaseRecord (initializeStore config alive' m.store.mem) = leaseRecord m.store) := by
  have hempty := leaseRecord_start config alive
  have hsound := storeSound_start config alive
  have hkept := (Kept.start isEnableLeaseBuffered maxBufferedMemNum hsound.leaseSlots hempty).run
    (storeLeaseRecords_lawful config) hpid fun _ _ _ _ => trivial
  refine ⟨hkept.booked.mapsAgree, fun info hinfo => ?_, fun hnames => ?_⟩
  · obtain ⟨kind, hmem⟩ := exists_kind_of_buffered hinfo
    exact hkept.cache.sizes kind info hmem
  · have hstart := Kept.start isEnableLeaseBuffered maxBufferedMemNum hsound hempty
    exact (hstart.run (storeLeaseRecords_sound config) hpid hnames).ok.leaseRecord_restart alive'

/-- A lease of units of `unitSize` bytes with two memory ids is given back, with room in
the cache. -/
def bufferOps (unitSize : Nat) : List MlsOp :=
  [.preAddUsedMem [97] 4096 ⟨10, 0, 0⟩ true 0, .finishAddUsedMem [97] 1 unitSize 0 [7, 8],
    .preDeleteUsedMem [97]]

/-- The manager after it. -/
def bufferRun (unitSize : Nat) : MlsManager RecordStore :=
  (MlsManager.start true 2 (RecordStore.start smallStoreConfig fun _ => true)).run
    (storeLeaseRecords smallStoreConfig) (bufferOps unitSize)

theorem bufferOps_hasPid (unitSize : Nat) : ∀ op ∈ bufferOps unitSize, op.HasPid := by
  simp [bufferOps, MlsOp.HasPid]

theorem maps_agree_with_records_buffered :
    MapsAgree (leaseRecord (bufferRun 4096).store) (bufferRun 4096) ∧
      (bufferRun 4096).numaBufferedMemory.map MlsMemInfo.size = [8192] :=
  ⟨(maps_agree_with_records smallStoreConfig _ (fun _ => true) true 2 (bufferOps 4096)
    (bufferOps_hasPid 4096)).1, by decide⟩

/-- The product of the unit size and the number of memory ids is taken in 64 bits, so a
lease of two units of 2⁶³ bytes is kept under the size zero. -/
theorem buffered_size_wraps :
    (∀ op ∈ bufferOps (2 ^ 63), op.HasPid) ∧
      ∃ info ∈ (bufferRun (2 ^ 63)).numaBufferedMemory,
        info.size = 0 ∧ info.unitSize * info.memIds.length = 2 ^ 64 :=
  ⟨bufferOps_hasPid _, by decide⟩

end UbsMem
