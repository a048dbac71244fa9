import UbsMem.RegionManager

/-! # Region records as a map

A region record keeps its nodes in a bitmap.  What is listed of it has every node once, in
increasing order, with affinity if it was given with affinity at least once; so the record
has the pairs of node and affinity that were given, unless a node was given with both
affinities (`Unambiguous`).  The records of the store are a map from names to what is listed,
which `AddRegionRecord` and `DelRegionRecord` change at one name and the other operations of
the store not at all.
-/
namespace UbsMem

open Function StoreMem List

/-! ### Bitmaps -/

/-- The bit of a node. -/
def hasNode (bitmap : Nat → UInt64) (n : Nat) : Bool := (bitmap (n / 64)).toNat.testBit (n % 64)

theorem testBit_shiftLeft_one {bit : Nat} (hbit : bit < 64) (i : Nat) :
    (1 <<< UInt64.ofNat bit : UInt64).toNat.testBit i = decide (bit = i) := by
  have hpow : 2 ^ bit < 2 ^ 64 := Nat.pow_lt_pow_right (by omega) hbit
  rw [UInt64.toNat_shiftLeft, UInt64.toNat_ofNat', Nat.mod_eq_of_lt (show bit < 2 ^ 64 by omega),
    Nat.mod_eq_of_lt hbit, UInt64.toNat_one, Nat.one_shiftLeft, Nat.mod_eq_of_lt hpow,
    Nat.testBit_two_pow]

theorem hasNode_setNodeBit (bitmap : Nat → UInt64) (node n : Nat) :
    hasNode (setNodeBit bitmap node) n = (decide (n = node) || hasNode bitmap n) := by
  unfold hasNode setNodeBit
  by_cases hword : n / 64 = node / 64
  · have hsame : (decide (node % 64 = n % 64)) = decide (n = node) := by
      rw [decide_eq_decide]
      omega
    rw [hword, update_self, UInt64.toNat_or, Nat.testBit_or,
      testBit_shiftLeft_one (Nat.mod_lt _ (by omega)), hsame, Bool.or_comm]
  · have hne : n ≠ node := fun h => hword (by rw [h])
    rw [update_of_ne hword]
    simp [hne]

theorem mem_bitmapNodes (bitmap : Nat → UInt64) (n : Nat) :
    n ∈ bitmapNodes bitmap ↔ n < regionNodeBitmapCount ∧ hasNode bitmap n = true := by
  unfold bitmapNodes hasNode regionNodeBitmapU64Size regionNodeBitmapCount
  simp only [mem_flatMap, mem_map, mem_filter, mem_range]
  constructor
  · rintro ⟨index, hindex, bit, ⟨hbit, htest⟩, rfl⟩
    have hdiv : (index * 64 + bit) / 64 = index := by omega
    have hmod : (index * 64 + bit) % 64 = bit := by omega
    rw [hdiv, hmod]
    exact ⟨by omega, htest⟩
  · rintro ⟨hn, htest⟩
    exact ⟨n / 64, by omega, n % 64, ⟨by omega, htest⟩, by omega⟩

theorem sorted_bitmapNodes (bitmap : Nat → UInt64) : (bitmapNodes bitmap).Pairwise (· < ·) := by
  unfold bitmapNodes
  rw [pairwise_flatMap]
  constructor
  · intro index _
    exact pairwise_map.mpr ((pairwise_lt_range.filter _).imp fun h => by omega)
  · refine pairwise_lt_range.imp fun {i j} hlt => ?_
    intro n hi n' hj
    obtain ⟨a, ha, rfl⟩ := mem_map.mp hi
    obtain ⟨b, hb, rfl⟩ := mem_map.mp hj
    have ha' := mem_range.mp (mem_of_mem_filter ha)
    omega

theorem applyFields_clear {F : Type} (get : F → Nat → UInt64) (set : (Nat → UInt64) → F → F)
    (hget : ∀ w f, get (set w f) = w) (hset : ∀ w w' f, set w (set w' f) = set w f)
    (hself : ∀ f, set (get f) f = f) (f : F) (k : Nat) :
    applyFields f ((List.range k).map fun i f => set (update (get f) i 0) f) =
      set (fun i => if i < k then 0 else get f i) f := by
  induction k with
  | zero =>
    exact (hself f).symm
  | succ k ih =>
    rw [range_succ, map_append, applyFields_append, ih]
    simp only [applyFields, map_cons, map_nil, foldl_cons, foldl_nil, hget, hset]
    congr 1
    funext i
    by_cases hi : i = k
    · simp [hi]
    · rw [update_of_ne hi]
      simp only [show i < k + 1 ↔ i < k by omega]

/-- The bits of nodes are set, in the second bitmap of those with affinity. -/
theorem hasNode_nodeFields (pairs : List (UInt32 × Bool)) (f : RegionFields) (n : Nat) :
    let g := applyFields f (pairs.flatMap fun p =>
      (fun f => { f with bitmap := setNodeBit f.bitmap p.1.toNat }) ::
        if p.2 then [fun f => { f with bitmapAffinity := setNodeBit f.bitmapAffinity p.1.toNat }]
        else [])
    g.size = f.size ∧
      (hasNode g.bitmap n = true ↔ hasNode f.bitmap n = true ∨ ∃ p ∈ pairs, p.1.toNat = n) ∧
      (hasNode g.bitmapAffinity n = true ↔
        hasNode f.bitmapAffinity n = true ∨ ∃ p ∈ pairs, p.1.toNat = n ∧ p.2 = true) := by
  induction pairs generalizing f with
  | nil => simp [applyFields]
  | cons p pairs ih =>
    simp only [flatMap_cons, applyFields_append]
    obtain ⟨hsize, hbitmap, haffinity⟩ := ih (applyFields f
      ((fun f : RegionFields => { f with bitmap := setNodeBit f.bitmap p.1.toNat }) ::
        if p.2 then [fun f => { f with bitmapAffinity := setNodeBit f.bitmapAffinity p.1.toNat }]
        else []))
    rw [hsize, hbitmap, haffinity]
    have hfirst : ∀ (w : Nat → UInt64), hasNode (setNodeBit w p.1.toNat) n = true ↔
        hasNode w n = true ∨ p.1.toNat = n := by
      intro w
      rw [hasNode_setNodeBit, Bool.or_eq_true, decide_eq_true_eq]
      exact or_comm.trans (or_congr_right eq_comm)
    cases haff : p.2 with
    | false | true => simp [applyFields, hfirst, haff, or_assoc]

/-- What `AddRegionRecord` writes: the bits are those of the nodes given. -/
theorem hasNode_regionInputFields (input : CreateRegionInput) (f : RegionFields) {n : Nat}
    (hn : n < regionNodeBitmapCount) : let g := applyFields f (regionInputFields input)
    g.size = input.size ∧
      (hasNode g.bitmap n = true ↔ ∃ p ∈ input.nodeIds.zip input.affinity, p.1.toNat = n) ∧
      (hasNode g.bitmapAffinity n = true ↔
        ∃ p ∈ input.nodeIds.zip input.affinity, p.1.toNat = n ∧ p.2 = true) := by
  have hword : n / 64 < regionNodeBitmapU64Size := by
    unfold regionNodeBitmapCount at hn
    unfold regionNodeBitmapU64Size
    omega
  unfold regionInputFields
  have hclear := applyFields_clear RegionFields.bitmap (fun w f => { f with bitmap := w })
    (fun _ _ => rfl) (fun _ _ _ => rfl) (fun _ => rfl)
  have hclear' := applyFields_clear RegionFields.bitmapAffinity
    (fun w f => { f with bitmapAffinity := w }) (fun _ _ => rfl) (fun _ _ _ => rfl) (fun _ => rfl)
  rw [applyFields_append, applyFields_append, applyFields_append, hclear, hclear']
  obtain ⟨hsize, hbitmap, haffinity⟩ := hasNode_nodeFields (input.nodeIds.zip input.affinity) _ n
  refine ⟨hsize, hbitmap.trans ?_, haffinity.trans ?_⟩
  · simp [hasNode, hword]
  · simp [hasNode, hword]

/-! ### What is listed of a record -/

/-- No node is given with both affinities. -/
def Unambiguous (pairs : List (UInt32 × Bool)) : Prop :=
  ∀ p ∈ pairs, ∀ q ∈ pairs, p.1 = q.1 → p.2 = q.2

instance (pairs : List (UInt32 × Bool)) : Decidable (Unambiguous pairs) :=
  decidable_of_iff ((pairs.all fun p => pairs.all fun q => p.1 ≠ q.1 || p.2 = q.2) = true) (by
    simp only [Unambiguous, all_eq_true, Bool.or_eq_true, decide_eq_true_eq,
      imp_iff_not_or, ne_eq])

/-- What is listed has each node once and the pairs that were given. -/
structure Describes (record : CreateRegionInput) (pairs : List (UInt32 × Bool)) : Prop where
  nodup : record.nodeIds.Nodup
  length : record.nodeIds.length = record.affinity.length
  pairs : ∀ p, p ∈ record.nodeIds.zip record.affinity ↔ p ∈ pairs

/-- What is listed of a region that was given as `input`: each node once, in increasing order,
with affinity if it was given with affinity at least once. -/
structure Lists (record input : CreateRegionInput) : Prop where
  size : record.size = input.size
  sorted : record.nodeIds.Pairwise (· < ·)
  nodes : ∀ node, node ∈ record.nodeIds ↔ node ∈ input.nodeIds
  affinity : record.affinity = record.nodeIds.map fun node =>
    decide ((node, true) ∈ input.nodeIds.zip input.affinity)

theorem mem_iff_mem_zip {α β : Type} {l : List α} {l' : List β} (h : l.length = l'.length) (a : α) :
    a ∈ l ↔ ∃ p ∈ l.zip l', p.1 = a := by
  rw [← mem_map, map_fst_zip h.le]

variable {input : CreateRegionInput} {op : StoreOp}

/-- **What is listed of a record is what `AddRegionRecord` was given.** -/
theorem lists_convertRegion (name : Name) (f : RegionFields)
    (hnodes : ∀ node ∈ input.nodeIds, node.toNat < regionNodeBitmapCount)
    (hsizes : input.nodeIds.length = input.affinity.length) :
    Lists (convertRegion name (applyFields f (regionInputFields input))) input := by
  have hsmall : ∀ n ∈ bitmapNodes (applyFields f (regionInputFields input)).bitmap,
      n < regionNodeBitmapCount ∧ (UInt32.ofNat n).toNat = n := by
    intro n hn
    have hlt := ((mem_bitmapNodes _ n).mp hn).1
    refine ⟨hlt, ?_⟩
    unfold regionNodeBitmapCount at hlt
    rw [UInt32.toNat_ofNat']
    omega
  refine ⟨(hasNode_regionInputFields input f (show 0 < regionNodeBitmapCount by decide)).1, ?_,
    ?_, ?_⟩
  · refine pairwise_map.mpr ((sorted_bitmapNodes _).imp_of_mem fun ha hb hlt => ?_)
    rw [UInt32.lt_iff_toNat_lt, (hsmall _ ha).2, (hsmall _ hb).2]
    exact hlt
  · intro node
    rw [mem_iff_mem_zip hsizes]
    simp only [convertRegion, mem_map]
    constructor
    · rintro ⟨n, hn, rfl⟩
      obtain ⟨hlt, hset⟩ := (mem_bitmapNodes _ n).mp hn
      obtain ⟨p, hp, rfl⟩ := (hasNode_regionInputFields input f hlt).2.1.mp hset
      exact ⟨p, hp, UInt32.ofNat_toNat.symm⟩
    · rintro ⟨p, hp, rfl⟩
      have hlt := hnodes p.1 (of_mem_zip hp).1
      have hset := (hasNode_regionInputFields input f hlt).2.1.mpr ⟨p, hp, rfl⟩
      exact ⟨p.1.toNat, (mem_bitmapNodes _ _).mpr ⟨hlt, hset⟩, UInt32.ofNat_toNat⟩
  · simp only [convertRegion, map_map]
    refine map_congr_left fun n hn => ?_
    obtain ⟨hlt, hsame⟩ := hsmall n hn
    rw [comp_apply, ← Bool.coe_iff_coe, decide_eq_true_eq]
    refine (hasNode_regionInputFields input f hlt).2.2.trans ⟨?_, fun hp => ⟨_, hp, hsame, rfl⟩⟩
    rintro ⟨⟨node, affinity⟩, hp, rfl, rfl⟩
    rw [UInt32.ofNat_toNat]
    exact hp

/-- **A region goes through its record unchanged**, but for order and repetition. -/
theorem Lists.describes {record : CreateRegionInput} (h : Lists record input)
    (hsizes : input.nodeIds.length = input.affinity.length)
    (hclear : Unambiguous (input.nodeIds.zip input.affinity)) :
    Describes record (input.nodeIds.zip input.affinity) := by
  -- the affinity listed of a node is the one it was given with
  have haffinity : ∀ p ∈ input.nodeIds.zip input.affinity,
      decide ((p.1, true) ∈ input.nodeIds.zip input.affinity) = p.2 := by
    intro p hp
    cases hvalue : p.2 with
    | true => exact decide_eq_true (hvalue ▸ hp)
    | false =>
      refine decide_eq_false fun htrue => ?_
      have hsame := hclear _ htrue p hp rfl
      rw [hvalue] at hsame
      cases hsame
  refine ⟨h.sorted.imp UInt32.ne_of_lt, by rw [h.affinity, length_map], fun p => ?_⟩
  rw [h.affinity, ← map_id record.nodeIds, map_map, zip_map', mem_map]
  constructor
  · rintro ⟨node, hnode, rfl⟩
    obtain ⟨p, hp, rfl⟩ := (mem_iff_mem_zip hsizes node).mp ((h.nodes node).mp hnode)
    simp only [id, comp_apply, haffinity p hp]
    exact hp
  · intro hp
    refine ⟨p.1, (h.nodes p.1).mpr (of_mem_zip hp).1, ?_⟩
    simp only [id, comp_apply, haffinity p hp]

/-! ### The records of the store -/

/-- The region record of a name. -/
def regionRecord (s : RecordStore) : Name → Option CreateRegionInput :=
  tableView (fun name fields _ => convertRegion name fields) s.mem.regions
    s.cache.cachedRegionRecords

/-- The stack and the map of the regions are those of the file. -/
def RegionTable (config : StoreConfig) (s : RecordStore) : Prop :=
  TableInv config.regionMax s.mem.regions s.cache.regionIdle s.cache.cachedRegionRecords fun _ => []

section Store

variable {config : StoreConfig} {s : RecordStore}

/-- The slots of the regions are different from each other and from the idle ones. -/
def RegionSlots (s : RecordStore) : Prop :=
  TableSlots s.cache.regionIdle s.cache.cachedRegionRecords

variable (config) in
/-- `AddRegionRecord` refuses and leaves the records, or adds one. -/
theorem RegionSlots.add (h : RegionSlots s) (input : CreateRegionInput) :
    let res := storeCall config (.addRegionRecord input) s
    RegionSlots res.2 ∧ (res.1 ≠ 0 ∧ regionRecord res.2 = regionRecord s ∨
        res.1 = 0 ∧ input.nodeIds.length = input.affinity.length ∧ ∃ record, Lists record input ∧
          regionRecord res.2 = update (regionRecord s) input.name (some record)) := by
  show RegionSlots ((addRegionRecord s input).after s) ∧ ((addRegionRecord s input).ret ≠ 0 ∧
        regionRecord ((addRegionRecord s input).after s) = regionRecord s ∨
      (addRegionRecord s input).ret = 0 ∧ _ ∧ ∃ record, Lists record input ∧
        regionRecord ((addRegionRecord s input).after s) = _)
  rcases addRegionRecord_cases s input with
    heq | ⟨hsmall, hsizes, slot, hlast, -, dup, -, heq⟩ <;> rw [heq]
  · exact ⟨h, .inl ⟨by simp [Plan.refuse], rfl⟩⟩
  rw [Plan.after, write_onRegion]
  cases dup with
  | true => exact ⟨h, .inl ⟨by simp, TableSlots.scratch h (mem_of_getLast? hlast) _⟩⟩
  | false =>
    have hrecord := lists_convertRegion input.name (s.mem.regions slot).fields hsmall hsizes
    have hfields : ((s.mem.regions slot).apply
        (addChanges input.name (regionInputFields input) false)).fields =
        applyFields (s.mem.regions slot).fields (regionInputFields input) := by
      simp [addChanges, Named.apply_recordChanges]
    rw [← hfields] at hrecord
    obtain ⟨hslots, hview⟩ := TableSlots.occupy h hlast input.name _
    exact ⟨hslots, .inr ⟨rfl, hsizes, _, hrecord, hview⟩⟩

theorem RegionTable.add (h : RegionTable config s) {input : CreateRegionInput}
    (hne : input.name ≠ []) (hzero : (0 : UInt8) ∉ input.name) :
    RegionTable config (storeCall config (.addRegionRecord input) s).2 := by
  show RegionTable config ((addRegionRecord s input).after s)
  rcases addRegionRecord_cases s input with heq | ⟨-, -, slot, hlast, hshort, dup, hnew, heq⟩ <;>
    rw [heq]
  · exact h
  have htable := TableInv.add h hlast ⟨hne, hzero, hshort⟩ hnew (regionInputFields input)
  rw [Plan.after, write_onRegion]
  unfold RegionTable
  cases dup <;> simpa using htable

variable (config) in
/-- `DelRegionRecord` refuses and leaves the records, or deletes one. -/
theorem RegionSlots.del (h : RegionSlots s) (name : Name) :
    let res := storeCall config (.delRegionRecord name) s
    RegionSlots res.2 ∧ (res.1 ≠ 0 ∧ regionRecord res.2 = regionRecord s ∨
        res.1 = 0 ∧ regionRecord res.2 = update (regionRecord s) name none) := by
  show RegionSlots ((delRegionRecord s name).after s) ∧ ((delRegionRecord s name).ret ≠ 0 ∧
        regionRecord ((delRegionRecord s name).after s) = regionRecord s ∨
      (delRegionRecord s name).ret = 0 ∧ regionRecord ((delRegionRecord s name).after s) = _)
  unfold delRegionRecord
  cases hfound : s.cache.cachedRegionRecords.lookup name with
  | none => exact ⟨h, .inl ⟨by simp [Plan.refuse], rfl⟩⟩
  | some e =>
    obtain ⟨hslots, hview⟩ := TableSlots.vacate h hfound _
    exact ⟨hslots, .inr ⟨rfl, hview⟩⟩

theorem RegionTable.del (h : RegionTable config s) (name : Name) :
    RegionTable config (storeCall config (.delRegionRecord name) s).2 := by
  show RegionTable config ((delRegionRecord s name).after s)
  unfold delRegionRecord
  cases hfound : s.cache.cachedRegionRecords.lookup name with
  | none => exact h
  | some e => exact TableInv.vacate h hfound (Named.idle_clear _)

theorem RegionTable.restart (h : RegionTable config s) (alive : UInt32 → Bool) :
    RegionTable config (initializeStore config alive s.mem) ∧
      regionRecord (initializeStore config alive s.mem) = regionRecord s := by
  obtain ⟨count, pids, hmem⟩ := initializeStore_mem config alive s.mem
  have hregions : (initializeStore config alive s.mem).mem.regions = s.mem.regions := by rw [hmem]
  have hnew : RegionTable config (initializeStore config alive s.mem) := by
    unfold RegionTable
    rw [hregions]
    exact TableInv.restore (TableInv.distinct h) fun _ _ _ => rfl
  refine ⟨hnew, funext fun name => ?_⟩
  unfold RegionTable at hnew
  rw [hregions] at hnew
  unfold regionRecord tableView
  rw [hregions, TableInv.lookup_eq h hnew name]

theorem mem_listRegionRecord (s : RecordStore) (record : CreateRegionInput) :
    record ∈ listRegionRecord s ↔ regionRecord s record.name = some record := by
  unfold listRegionRecord regionRecord tableView
  rw [mem_map, Option.map_eq_some_iff]
  constructor
  · rintro ⟨⟨name, e⟩, hmem, rfl⟩
    exact ⟨e, AList.mem_lookup_iff.mpr hmem, rfl⟩
  · rintro ⟨e, hfound, hrecord⟩
    exact ⟨⟨record.name, e⟩, AList.mem_lookup_iff.mp hfound, hrecord⟩

theorem nodup_listRegionRecord (s : RecordStore) :
    ((listRegionRecord s).map CreateRegionInput.name).Nodup := by
  unfold listRegionRecord
  rw [map_map]
  exact s.cache.cachedRegionRecords.nodupKeys

end Store

/-! ### The other operations -/

/-- The operation is about regions. -/
def StoreOp.onRegions : StoreOp → Bool
  | .addRegionRecord _ | .delRegionRecord _ => true
  | _ => false

theorem regionCache_plan (config : StoreConfig) (s : RecordStore) (hop : op.onRegions = false) :
    (plan config s op).cache.regionIdle = s.cache.regionIdle ∧
      (plan config s op).cache.cachedRegionRecords = s.cache.cachedRegionRecords := by
  have htable : ∀ t, op.table = some t → (plan config s op).cache.regionIdle = s.cache.regionIdle ∧
      (plan config s op).cache.cachedRegionRecords = s.cache.cachedRegionRecords := by
    intro t ht
    obtain ⟨idle, cached, lines, hcache⟩ := (plans_of_table config s ht).cache
    rw [hcache]
    cases t <;> exact ⟨rfl, rfl⟩
  cases op with
  | addRegionRecord input | delRegionRecord name => cases hop
  | addShmRefRecord pid name =>
    simp only [plan, addShmRefRecord]
    repeat' split
    all_goals exact ⟨rfl, rfl⟩
  | delShmRefRecord pid name =>
    simp only [plan, delShmRefRecord]
    repeat' split
    all_goals exact ⟨rfl, rfl⟩
  | delShmRefRecordsByPid pid rank =>
    simp only [plan, delShmRefRecordsByPid]
    split <;> exact ⟨rfl, rfl⟩
  | addSuspendClient pid =>
    simp only [plan, addSuspendClient]
    split_ifs <;> exact ⟨rfl, rfl⟩
  | delSuspendClient pid =>
    simp only [plan, delSuspendClient]
    repeat' split
    all_goals exact ⟨rfl, rfl⟩
  | _ => exact htable _ rfl

theorem StoreOp.leaves_regions (hop : op.onRegions = false) : op.Leaves StoreMem.regions := by
  cases op with
  | addRegionRecord input | delRegionRecord name => cases hop
  | addShmRefRecord pid name | delShmRefRecord pid name | delShmRefRecordsByPid pid rank
  | addSuspendClient pid | delSuspendClient pid => exact fun _ _ _ => rfl
  | _ => exact fun t _ => ⟨fun _ _ _ => by cases t <;> rfl, fun _ _ => rfl⟩

/-- **The other operations leave the region records.** -/
theorem regions_other (config : StoreConfig) (s : RecordStore) (hop : op.onRegions = false) :
    (s.step config op).mem.regions = s.mem.regions ∧
      (s.step config op).cache.regionIdle = s.cache.regionIdle ∧
      (s.step config op).cache.cachedRegionRecords = s.cache.cachedRegionRecords :=
  ⟨(spares_plan config s (StoreOp.leaves_regions hop)).write s.mem, regionCache_plan config s hop⟩

theorem RegionTable.other {config : StoreConfig} {s : RecordStore} (h : RegionTable config s)
    (hop : op.onRegions = false) :
    RegionTable config (s.step config op) ∧ regionRecord (s.step config op) = regionRecord s := by
  obtain ⟨hregions, hidle, hcached⟩ := regions_other config s hop
  unfold RegionTable regionRecord
  rw [hregions, hidle, hcached]
  exact ⟨h, rfl⟩

end UbsMem
