import UbsMem.LeaseBook

/-! # Leases from the cache

`ReuseBufferedMem` looks for the smallest lease that is large enough, on one of the slots
of a region, and hands out as many of its memory ids as the request needs.  It finds the
smallest one because the cache is in the order of the sizes, and has the memory ids
because the size under which a lease is kept is that of its memory ids (`CacheSorted`).
-/
namespace UbsMem

open MlsManager List

/-! ### The cache is in order -/

section Sorted

variable {S : Type} {rs : LeaseRecords S} {m : MlsManager S} {old : MlsMemInfo}
  {cache : List MlsMemInfo} {slotIds : List Nat} {size : Nat}

/-- **The cache**: each part is in the order of the sizes and holds leases of its kind,
each under the size of its memory ids. -/
structure CacheSorted (m : MlsManager S) : Prop where
  ascending : ∀ kind, (m.cache kind).Pairwise fun x y => x.size ≤ y.size
  kinds : ∀ kind, ∀ info ∈ m.cache kind, info.isNuma = kind
  sizes : ∀ kind, ∀ info ∈ m.cache kind, info.size = bufferedSize info

@[simp] theorem cache_emplace (name : Name) (info : MlsMemInfo) (kind : Bool) :
    (m.emplace name info).cache kind = m.cache kind := by
  unfold MlsManager.emplace
  split <;> rfl

theorem freeBuffered_sublist (reply : Name → Int) (infos : List MlsMemInfo) (store : S) :
    (freeBuffered rs reply infos store).1.Sublist infos := by
  induction infos generalizing store with
  | nil => exact .slnil
  | cons info infos ih =>
    unfold freeBuffered
    dsimp only
    split_ifs
    · exact (ih _).cons_cons info
    · exact (ih _).cons info

theorem cache_bufferUsedMemory (rs : LeaseRecords S) (m : MlsManager S) (info : MlsMemInfo)
    (kind : Bool) :
    (m.bufferUsedMemory rs info).2.cache kind = m.cache kind ∨ info.isNuma = kind ∧
      (m.bufferUsedMemory rs info).2.cache kind =
        setInsert mlsMemKeyLt (bufferedInfo info) (m.cache kind) := by
  unfold bufferUsedMemory
  dsimp only
  split_ifs
  · exact .inl rfl
  · by_cases hkind : info.isNuma = kind
    · subst hkind
      refine .inr ⟨rfl, ?_⟩
      rw [cache_setCache, if_pos rfl]
      rfl
    · rw [cache_setCache, if_neg (Ne.symm hkind)]
      exact .inl rfl
  · exact .inl rfl

/-- `PreDeleteUsedMem` puts at most the lease of its name into the cache. -/
theorem cache_preDeleteUsedMem (rs : LeaseRecords S) (m : MlsManager S) (name : Name)
    (kind : Bool) :
    (m.preDeleteUsedMem rs name).2.cache kind = m.cache kind ∨
      ∃ info, m.used name = some info ∧ info.isNuma = kind ∧
        (m.preDeleteUsedMem rs name).2.cache kind =
          setInsert mlsMemKeyLt (bufferedInfo info) (m.cache kind) := by
  unfold preDeleteUsedMem
  split
  · exact .inl rfl
  next info hused =>
  have hbuffer : ∀ {m' : MlsManager S}, m'.cache kind = (m.bufferUsedMemory rs info).2.cache kind →
      m'.cache kind = m.cache kind ∨ ∃ info, m.used name = some info ∧ info.isNuma = kind ∧
        m'.cache kind = setInsert mlsMemKeyLt (bufferedInfo info) (m.cache kind) := by
    intro m' h
    rw [h]
    exact (cache_bufferUsedMemory rs m info kind).imp_right fun h => ⟨info, hused, h⟩
  dsimp only
  split_ifs
  · exact hbuffer rfl
  · exact hbuffer rfl
  · exact hbuffer rfl
  · exact .inl rfl

/-- The entry of a lease that is taken from the cache. -/
def reusedInfo (size : Nat) (isNuma : Bool) (context : AppContext) (old : MlsMemInfo) :
    MlsMemInfo :=
  { old with appContext := context, size := size, isNuma := isNuma }

/-- The end of `ReuseBufferedMem`, once the lease is taken. -/
def handOut (size : Nat) (info : MlsMemInfo) : Int × Option MlsMemInfo :=
  if info.unitSize = 0 then (-1, none)
  else if size > 2 ^ 64 - 1 - info.unitSize then (-1, none)
  else (0, some { info with
    memIds := resizeIds info.memIds ((size + info.unitSize - 1) / info.unitSize) })

/-- `ReuseBufferedMem` finds no lease, or the store refuses, or a lease is taken from the
cache; then it may still report an error. -/
theorem reuseBufferedMem_cases (rs : LeaseRecords S) (m : MlsManager S) (size : Nat)
    (isNuma : Bool) (region : Int × List Nat) (context : AppContext) :
    let res := m.reuseBufferedMem rs size isNuma region context
    (res.1.1 ≠ 0 ∧ res.1.2 = none ∧ ((m.isEnableLeaseBuffered = true → region.1 = 0 →
            findBuffered (m.cache isNuma) size region.2 = none) ∧ res.2 = m ∨
          ∃ old, findBuffered (m.cache isNuma) size region.2 = some old ∧
            (rs.updateMemLeaseRecord old.name context size m.store).1 ≠ 0 ∧
            res.2 = m.withStore (rs.updateMemLeaseRecord old.name context size m.store).2)) ∨
      ∃ old, (m.isEnableLeaseBuffered = true ∧ region.1 = 0) ∧
        findBuffered (m.cache isNuma) size region.2 = some old ∧
        (rs.updateMemLeaseRecord old.name context size m.store).1 = 0 ∧
        res = (handOut size (reusedInfo size isNuma context old),
          ((m.withStore (rs.updateMemLeaseRecord old.name context size m.store).2).setCache isNuma
            (setErase mlsMemKeyLt old (m.cache isNuma))).emplace old.name
            (reusedInfo size isNuma context old)) := by
  unfold MlsManager.reuseBufferedMem reuseMemInSlotId
  by_cases henabled : m.isEnableLeaseBuffered = true
  swap
  · simp [henabled]
  by_cases hregion : region.1 = 0
  swap
  · simp [henabled, hregion]
  simp only [henabled, hregion, Bool.not_true, Bool.false_eq_true, if_false, ne_eq,
    not_true_eq_false]
  cases hfind : findBuffered (m.cache isNuma) size region.2 with
  | none => exact .inl ⟨by simp, rfl, .inl ⟨fun _ _ => rfl, rfl⟩⟩
  | some old =>
    dsimp only
    by_cases hret : (rs.updateMemLeaseRecord old.name context size m.store).1 = 0
    · rw [if_neg (not_not.mpr hret)]
      refine .inr ⟨old, ⟨trivial, trivial⟩, rfl, hret, ?_⟩
      by_cases hzero : old.unitSize = 0
      · simp only [handOut, reusedInfo, hzero, if_true]
      by_cases hlarge : size > 2 ^ 64 - 1 - old.unitSize
      · simp only [handOut, reusedInfo, hzero, hlarge, if_false, if_true]
      · simp only [handOut, reusedInfo, hzero, hlarge, if_false]
    · rw [if_pos hret]
      exact .inl ⟨by simp, rfl, .inr ⟨old, rfl, hret, rfl⟩⟩

/-- What an operation does to a part of the cache: leases leave it, or `PreDeleteUsedMem`
puts one there. -/
theorem cache_step (rs : LeaseRecords S) (m : MlsManager S) (op : MlsOp) (kind : Bool) :
    ((m.step rs op).cache kind).Sublist (m.cache kind) ∨ ∃ info, info.isNuma = kind ∧
        (m.step rs op).cache kind = setInsert mlsMemKeyLt (bufferedInfo info) (m.cache kind) := by
  have hsame : ∀ {m' : MlsManager S}, m'.cache kind = m.cache kind →
      (m'.cache kind).Sublist (m.cache kind) := fun h => h ▸ List.Sublist.refl _
  cases op with
  | preAddUsedMem name size usr isNuma perfLevel =>
    refine .inl (hsame ?_)
    simp only [MlsManager.step, preAddUsedMem]
    split
    · rfl
    · split_ifs <;> simp
  | finishAddUsedMem name numaId unitSize slotId memIds =>
    refine .inl (hsame ?_)
    simp only [MlsManager.step, finishAddUsedMem]
    split
    · rfl
    · split_ifs <;> rfl
  | updateMemRecordState name state =>
    refine .inl (hsame ?_)
    simp only [MlsManager.step, updateMemRecordState]
    split
    · rfl
    · split_ifs <;> rfl
  | preDeleteUsedMem name =>
    refine (cache_preDeleteUsedMem rs m name kind).imp hsame ?_
    rintro ⟨info, -, h⟩
    exact ⟨info, h⟩
  | deleteUsedMem name =>
    refine .inl (hsame ?_)
    simp only [MlsManager.step, deleteUsedMem]
    split
    · rfl
    · split_ifs <;> rfl
  | reuseBufferedMem size isNuma region context =>
    rcases reuseBufferedMem_cases rs m size isNuma region context with
      ⟨-, -, ⟨-, h⟩ | ⟨old, -, -, h⟩⟩ | ⟨old, -, -, -, h⟩
    · exact .inl (hsame (by rw [MlsManager.step, h]))
    · exact .inl (hsame (by rw [MlsManager.step, h, cache_withStore]))
    · rw [MlsManager.step, h, cache_emplace, cache_setCache]
      split_ifs with hkind
      · exact .inl (hkind ▸ filter_sublist)
      · exact .inl (hsame rfl)
  | deleteAllBufferedMem reply =>
    left
    simp only [MlsManager.step, deleteAllBufferedMem]
    split_ifs
    · exact hsame rfl
    · exact hsame rfl
    · cases kind
      · exact freeBuffered_sublist reply _ _
      · exact freeBuffered_sublist reply _ _

theorem CacheSorted.step (h : CacheSorted m) (op : MlsOp) : CacheSorted (m.step rs op) := by
  have hmem : ∀ kind, ∀ x ∈ (m.step rs op).cache kind, x ∈ m.cache kind ∨
      x.isNuma = kind ∧ x.size = bufferedSize x := by
    intro kind x hx
    rcases cache_step rs m op kind with hsub | ⟨info, hkind, heq⟩
    · exact .inl (hsub.subset hx)
    · rw [heq, mem_setInsert] at hx
      refine hx.imp_right ?_
      rintro ⟨rfl, -⟩
      exact ⟨hkind, rfl⟩
  refine ⟨fun kind => ?_, fun kind x hx => ?_, fun kind x hx => ?_⟩
  · rcases cache_step rs m op kind with hsub | ⟨info, -, heq⟩
    · exact (h.ascending kind).sublist hsub
    · rw [heq]
      refine sorted_setInsert mlsMemKeyLt
        (fun _ _ _ => le_trans) (fun x hlt => ?_) (fun x hlt => ?_) (h.ascending kind)
      · unfold mlsMemKeyLt at hlt
        split_ifs at hlt with hsize
        · exact le_of_lt (of_decide_eq_true hlt)
        · exact le_of_eq (not_not.mp hsize)
      · unfold mlsMemKeyLt at hlt
        split_ifs at hlt with hsize
        · exact not_lt.mp (of_decide_eq_false hlt)
        · exact ge_of_eq (not_not.mp hsize)
  · exact (hmem kind x hx).elim (h.kinds kind x) And.left
  · exact (hmem kind x hx).elim (h.sizes kind x) And.right

theorem cacheSorted_run (rs : LeaseRecords S) (isEnableLeaseBuffered : Bool)
    (maxBufferedMemNum : Nat) (store : S) (ops : List MlsOp) :
    CacheSorted ((MlsManager.start isEnableLeaseBuffered maxBufferedMemNum store).run rs ops) := by
  have hstart : CacheSorted (MlsManager.start isEnableLeaseBuffered maxBufferedMemNum store) := by
    refine ⟨fun kind => ?_, fun kind => ?_, fun kind => ?_⟩ <;> cases kind <;> simp [start, cache]
  have hrun : ∀ (ops : List MlsOp) (m : MlsManager S), CacheSorted m →
      CacheSorted (m.run rs ops) := by
    intro ops
    induction ops with
    | nil => exact fun _ h => h
    | cons op ops ih => exact fun m h => ih _ (h.step op)
  exact hrun ops _ hstart

/-! ### The search -/

/-- The lease is the smallest one that is large enough, on one of the slots. -/
structure BestFit (cache : List MlsMemInfo) (size : Nat) (slotIds : List Nat)
    (old : MlsMemInfo) : Prop where
  mem : old ∈ cache
  slot : old.slotId ∈ slotIds
  enough : size ≤ old.size
  least : ∀ x ∈ cache, x.slotId ∈ slotIds → size ≤ x.size → old.size ≤ x.size

theorem bestFit_of_findBuffered (hsorted : cache.Pairwise fun x y => x.size ≤ y.size)
    (hfind : findBuffered cache size slotIds = some old) : BestFit cache size slotIds old := by
  induction hsorted with
  | nil => cases hfind
  | @cons x xs hx hxs ih =>
    unfold findBuffered at hfind
    by_cases hsmall : x.size < size
    · rw [dropWhile_cons_of_pos (by simpa using hsmall)] at hfind
      obtain ⟨hmem, hslot, henough, hleast⟩ := ih hfind
      refine ⟨mem_cons_of_mem _ hmem, hslot, henough, fun y hy hslot' hsize => ?_⟩
      rcases mem_cons.mp hy with rfl | hy
      · omega
      · exact hleast y hy hslot' hsize
    · rw [dropWhile_cons_of_neg (by simpa using hsmall)] at hfind
      have hmem := mem_of_find?_eq_some hfind
      have hxsize : ∀ y ∈ x :: xs, size ≤ y.size := by
        intro y hy
        rcases mem_cons.mp hy with rfl | hy
        · omega
        · exact le_trans (not_lt.mp hsmall) (hx y hy)
      obtain ⟨hslot, before, after, heq, hbefore⟩ := List.find?_eq_some_iff_append.mp hfind
      refine ⟨hmem, of_decide_eq_true hslot, hxsize old hmem, fun y hy hslot' _ => ?_⟩
      -- before the lease that is found none is on the slots, and behind it none is smaller
      rw [heq, mem_append, mem_cons] at hy
      have hpair := pairwise_cons.mpr ⟨hx, hxs⟩
      rw [heq] at hpair
      rcases hy with hy | rfl | hy
      · simpa [hslot'] using hbefore y hy
      · exact le_refl _
      · exact (pairwise_cons.mp (pairwise_append.mp hpair).2.1).1 y hy

theorem exists_findBuffered {info : MlsMemInfo} (hmem : info ∈ cache) (hsize : size ≤ info.size)
    (hslot : info.slotId ∈ slotIds) : ∃ old, findBuffered cache size slotIds = some old := by
  unfold findBuffered
  have hdrop : info ∈ cache.dropWhile fun x => x.size < size := by
    rw [← takeWhile_append_dropWhile (l := cache), mem_append] at hmem
    refine hmem.resolve_left fun h => ?_
    have := mem_takeWhile_imp h
    simp only [decide_eq_true_eq] at this
    omega
  rw [← Option.isSome_iff_exists, List.find?_isSome]
  exact ⟨info, hdrop, by simpa using hslot⟩

/-! ### What is handed out -/

/-- The units that are handed out hold the request, and the lease has them. -/
theorem unitCount_bounds {unitSize count : Nat} (hunit : 0 < unitSize)
    (hsize : size ≤ unitSize * count) :
    size ≤ unitSize * ((size + unitSize - 1) / unitSize) ∧
      (size + unitSize - 1) / unitSize ≤ count := by
  constructor
  · have := Nat.lt_mul_div_succ (size + unitSize - 1) hunit
    rw [Nat.mul_add, Nat.mul_one] at this
    omega
  · rw [Nat.div_le_iff_le_mul_add_pred hunit]
    omega

theorem handOut_of_bestFit (hsorted : CacheSorted m) (hsize : 0 < size) {isNuma : Bool}
    (hfit : BestFit (m.cache isNuma) size slotIds old) (context : AppContext) :
    (size + old.unitSize < 2 ^ 64 → (handOut size (reusedInfo size isNuma context old)).1 = 0) ∧
      ((handOut size (reusedInfo size isNuma context old)).1 = 0 →
        ∃ memIds, memIds <+: old.memIds ∧ size ≤ old.unitSize * memIds.length ∧
          (handOut size (reusedInfo size isNuma context old)).2 =
            some { reusedInfo size isNuma context old with memIds }) := by
  have hold : size ≤ old.unitSize * old.memIds.length := by
    have hbuffered := hsorted.sizes isNuma old hfit.mem
    have henough := hfit.enough
    rw [hbuffered] at henough
    exact le_trans henough (Nat.mod_le _ _)
  have hunit : 0 < old.unitSize := by
    rcases Nat.eq_zero_or_pos old.unitSize with hzero | hpos
    · rw [hzero, Nat.zero_mul] at hold
      omega
    · exact hpos
  obtain ⟨hcovers, hcount⟩ := unitCount_bounds hunit hold
  have hids : resizeIds old.memIds ((size + old.unitSize - 1) / old.unitSize) =
      old.memIds.take ((size + old.unitSize - 1) / old.unitSize) := by
    rw [resizeIds, Nat.sub_eq_zero_of_le hcount, replicate_zero, append_nil]
  unfold handOut
  rw [if_neg (by exact Nat.pos_iff_ne_zero.mp hunit)]
  split_ifs with hlarge
  · refine ⟨fun hroom => ?_, fun h => absurd h (by decide)⟩
    change size > 2 ^ 64 - 1 - old.unitSize at hlarge
    omega
  · refine ⟨fun _ => rfl, fun _ =>
      ⟨resizeIds old.memIds ((size + old.unitSize - 1) / old.unitSize), ?_, ?_, rfl⟩⟩
    · rw [hids]
      exact take_prefix _ _
    · rw [hids, length_take, Nat.min_eq_left hcount]
      exact hcovers

end Sorted

/-- The store is as it was when it refuses to give a record another owner. -/
theorem updateMemLeaseRecord_refused (config : StoreConfig) (name : Name) (context : AppContext)
    (size : Nat) (s : RecordStore)
    (h : ((storeLeaseRecords config).updateMemLeaseRecord name context size s).1 ≠ 0) :
    ((storeLeaseRecords config).updateMemLeaseRecord name context size s).2 = s := by
  change (updateMemLeaseRecord s name context size).ret ≠ 0 at h
  change (updateMemLeaseRecord s name context size).after s = s
  cases hfound : s.cache.cachedLeaseRecords.lookup name with
  | none =>
    simp only [updateMemLeaseRecord, hfound]
    rfl
  | some e =>
    simp only [updateMemLeaseRecord, hfound] at h
    exact absurd rfl h

theorem ne_of_taken {S : Type} {m : MlsManager S} {old : MlsMemInfo} {isNuma : Bool}
    (hold : old ∈ m.cache isNuma) (store : S) (info : MlsMemInfo) :
    ((m.withStore store).setCache isNuma (setErase mlsMemKeyLt old (m.cache isNuma))).emplace
      old.name info ≠ m := by
  intro heq
  have hcache := congrArg (·.cache isNuma) heq
  simp only [cache_emplace, cache_setCache, if_true] at hcache
  rw [← hcache, mem_setErase] at hold
  simp [equivKeys, mlsMemKeyLt] at hold
  exact List.lt_irrefl _ hold.2

/-- **A request is served by the smallest lease that is large enough**, of its kind and on
a slot of the region, with memory ids of that lease that hold the request; otherwise
nothing has changed, exactly if the size of the request and a unit of the lease that is
found, and whose record is given to the process, together stay below 2⁶⁴. -/
theorem reuse_best_fit (config : StoreConfig) (alive : UInt32 → Bool)
    (isEnableLeaseBuffered : Bool) (maxBufferedMemNum : Nat) (ops : List MlsOp) (size : Nat)
    (hsize : 0 < size) (isNuma : Bool) (region : Int × List Nat) (context : AppContext) :
    let m := (MlsManager.start isEnableLeaseBuffered maxBufferedMemNum
      (RecordStore.start config alive)).run (storeLeaseRecords config) ops
    let res := m.reuseBufferedMem (storeLeaseRecords config) size isNuma region context
    (res.1.1 = 0 → ∃ old memIds, BestFit (m.cache isNuma) size region.2 old ∧
        old.isNuma = isNuma ∧ memIds <+: old.memIds ∧ size ≤ old.unitSize * memIds.length ∧
        res.1.2 = some { old with appContext := context, size := size, memIds := memIds }) ∧
      (res.1.1 ≠ 0 → (res.2 = m ↔ (m.isEnableLeaseBuffered = true → region.1 = 0 →
        ∀ old, findBuffered (m.cache isNuma) size region.2 = some old →
          ((storeLeaseRecords config).updateMemLeaseRecord old.name context size m.store).1 = 0 →
          size + old.unitSize < 2 ^ 64))) := by
  intro m res
  have hsorted : CacheSorted m := cacheSorted_run _ _ _ _ _
  rcases reuseBufferedMem_cases (storeLeaseRecords config) m size isNuma region context with
    ⟨hret, -, hsame⟩ | ⟨old, ⟨hon, hregion⟩, hfind, hzero, heq⟩
  · refine ⟨fun h => absurd h hret, fun _ => ?_⟩
    rcases hsame with ⟨hnone, hsame⟩ | ⟨old, hfind, hrefused, hsame⟩
    · refine ⟨fun _ hon hregion old hfind => ?_, fun _ => hsame⟩
      rw [hnone hon hregion] at hfind
      cases hfind
    · refine ⟨fun _ _ _ old' hfind' hzero => ?_, fun _ => ?_⟩
      · rw [hfind] at hfind'
        cases hfind'
        exact absurd hzero hrefused
      · rwa [updateMemLeaseRecord_refused config old.name context size m.store hrefused] at hsame
  · have hfit := bestFit_of_findBuffered (hsorted.ascending isNuma) hfind
    have hkind := hsorted.kinds isNuma old hfit.mem
    obtain ⟨hserved, hhanded⟩ := handOut_of_bestFit hsorted hsize hfit context
    have hres : res.1 = handOut size (reusedInfo size isNuma context old) := congrArg Prod.fst heq
    rw [hres]
    refine ⟨fun h => ?_, fun hret => ⟨fun hsame => ?_, fun hroom => ?_⟩⟩
    · obtain ⟨memIds, hfirst, hcovers, hinfo⟩ := hhanded h
      refine ⟨old, memIds, hfit, hkind, hfirst, hcovers, ?_⟩
      rw [hinfo, reusedInfo, hkind]
    · exact absurd ((congrArg Prod.snd heq).symm.trans hsame) (ne_of_taken hfit.mem _ _)
    · exact absurd (hserved (hroom hon hregion old hfind hzero)) hret

/-- A lease of one unit of `unitSize` bytes goes to the cache. -/
def bufferOne (unitSize : Nat) : MlsManager RecordStore :=
  (MlsManager.start true 2 (RecordStore.start smallStoreConfig fun _ => true)).run
    (storeLeaseRecords smallStoreConfig)
    [.preAddUsedMem [97] 4096 ⟨10, 0, 0⟩ true 0, .finishAddUsedMem [97] 1 unitSize 0 [7],
      .preDeleteUsedMem [97]]

/-- Leases of 8192 and of 4096 bytes go to the cache. -/
def bufferTwo : MlsManager RecordStore :=
  (bufferOne 8192).run (storeLeaseRecords smallStoreConfig)
    [.preAddUsedMem [98] 4096 ⟨10, 0, 0⟩ true 0, .finishAddUsedMem [98] 1 4096 0 [8],
      .preDeleteUsedMem [98]]

/-- The smaller one serves a request; a request that is too large changes nothing. -/
theorem reuse_best_fit_one :
    (bufferTwo.cache true).map (·.size) = [4096, 8192] ∧
    (∃ old memIds, BestFit (bufferTwo.cache true) 100 [0] old ∧ old.size = 4096 ∧
      memIds <+: old.memIds ∧ 100 ≤ old.unitSize * memIds.length) ∧
    (bufferTwo.reuseBufferedMem (storeLeaseRecords smallStoreConfig) 9000 true (0, [0])
      ⟨11, 0, 0⟩).2 = bufferTwo := by
  have hsizes : (bufferTwo.cache true).map (·.size) = [4096, 8192] := by decide
  have hbest := fun size hsize => reuse_best_fit smallStoreConfig (fun _ => true) true 2
    [.preAddUsedMem [97] 4096 ⟨10, 0, 0⟩ true 0, .finishAddUsedMem [97] 1 8192 0 [7],
      .preDeleteUsedMem [97], .preAddUsedMem [98] 4096 ⟨10, 0, 0⟩ true 0,
      .finishAddUsedMem [98] 1 4096 0 [8], .preDeleteUsedMem [98]] size hsize true (0, [0])
      ⟨11, 0, 0⟩
  refine ⟨hsizes, ?_, ?_⟩
  · obtain ⟨old, memIds, hfit, -, hfirst, hcovers, -⟩ := (hbest 100 (by decide)).1
      (show (bufferTwo.reuseBufferedMem (storeLeaseRecords smallStoreConfig) 100 true (0, [0])
        ⟨11, 0, 0⟩).1.1 = 0 by decide)
    refine ⟨old, memIds, hfit, ?_, hfirst, hcovers⟩
    have hmem : old.size ∈ [4096, 8192] := hsizes ▸ mem_map_of_mem hfit.mem
    have hsmall : 4096 ∈ (bufferTwo.cache true).map (·.size) := hsizes ▸ mem_cons_self
    obtain ⟨x, hx, hsize⟩ := mem_map.mp hsmall
    have hslots : ∀ x ∈ bufferTwo.cache true, x.slotId ∈ [0] := by decide
    have hle := hfit.least x hx (hslots x hx) (by omega)
    simp only [mem_cons, not_mem_nil, or_false] at hmem
    omega
  · have hnone : findBuffered (bufferTwo.cache true) 9000 [0] = none := by decide
    exact ((hbest 9000 (by decide)).2 (show (bufferTwo.reuseBufferedMem
      (storeLeaseRecords smallStoreConfig) 9000 true (0, [0]) ⟨11, 0, 0⟩).1.1 ≠ 0 by decide)).mpr
        fun _ _ old hfind => nomatch hnone.symm.trans hfind

/-- **A request that fails takes the lease**: with a unit of 2⁶³ bytes in the cache, a
request for as much is refused, and the lease is then in use by the process that asked,
in the maps and in its record. -/
theorem reuse_fails_changed : let m := bufferOne (2 ^ 63)
    let res := m.reuseBufferedMem (storeLeaseRecords smallStoreConfig) (2 ^ 63) true (0, [0])
      ⟨11, 0, 0⟩
    res.1 = (-1, none) ∧ m.cachedNames = [[97]] ∧ res.2.cachedNames = [] ∧
      (m.used [97]).isNone ∧ (res.2.used [97]).map (·.appContext.pid) = some 11 ∧
      (leaseRecord m.store [97]).map (·.appContext.pid) = some 0 ∧
      (leaseRecord res.2.store [97]).map (·.appContext.pid) = some 11 := by
  decide

end UbsMem
