import Mathlib.Data.List.Sort
import UbsMem.RegionRecords

/-! # What is listed of a region

`ListRegionRecord` takes the lowest bit of a word and clears it until the word is zero.
From any file, and for every name that `AddRegionRecord` accepts, what it lists of a region
are the nodes that were given, once each and in increasing order, and a node has affinity
if it was given with affinity at least once (`region_listed`).
-/
namespace UbsMem

open List Function

/-! ### The loop over the bits of a word -/

/-- `__builtin_ffsl(word) - 1`, of a word that is not zero. -/
def lowestBit (word : UInt64) : Nat := ((List.range 64).find? word.toNat.testBit).getD 0

/-- `word & (~(1UL << bit))`. -/
def clearBit (word : UInt64) (bit : Nat) : UInt64 := word &&& ~~~(1 <<< UInt64.ofNat bit)

/-- The loop of `ListRegionRecord` over a word, for at most `fuel` turns. -/
def scanWord (affinity : UInt64) : Nat → UInt64 → List (Nat × Bool)
  | 0, _ => []
  | fuel + 1, word =>
    if word = 0 then []
    else
      let bit := lowestBit word
      (bit, (affinity >>> UInt64.ofNat bit) &&& 1 ≠ 0) :: scanWord affinity fuel (clearBit word bit)

/-- What the two loops of `ListRegionRecord` make of a record. -/
def scanRegion (name : Name) (fields : RegionFields) : CreateRegionInput :=
  let nodes := (List.range regionNodeBitmapU64Size).flatMap fun index =>
    (scanWord (fields.bitmapAffinity index) 64 (fields.bitmap index)).map fun b =>
      (index * 64 + b.1, b.2)
  { name := name
    size := fields.size
    nodeIds := nodes.map fun n => UInt32.ofNat n.1
    affinity := nodes.map Prod.snd }

/-- `ListRegionRecord`, with its loops. -/
def scanRegionRecord (s : RecordStore) : List CreateRegionInput :=
  s.cache.cachedRegionRecords.entries.map fun x =>
    scanRegion x.1 (s.mem.regions x.2.slot).fields

theorem lt_of_testBit {word : UInt64} {i : Nat} (h : word.toNat.testBit i = true) : i < 64 :=
  BitVec.lt_of_getLsbD h

theorem testBit_clearBit (word : UInt64) {bit : Nat} (hbit : bit < 64) (i : Nat) :
    (clearBit word bit).toNat.testBit i = (word.toNat.testBit i && decide (bit ≠ i)) := by
  have hnot : (~~~(1 <<< UInt64.ofNat bit : UInt64)).toNat.testBit i =
      (decide (i < 64) && !decide (bit = i)) := by
    rw [← testBit_shiftLeft_one hbit]
    exact BitVec.getLsbD_not
  unfold clearBit
  rw [UInt64.toNat_and, Nat.testBit_and, hnot]
  cases h : word.toNat.testBit i with
  | false => rfl
  | true => simp [lt_of_testBit h]

theorem testBit_lowestBit {word : UInt64} (h : word ≠ 0) :
    lowestBit word < 64 ∧ word.toNat.testBit (lowestBit word) = true ∧
      ∀ i < lowestBit word, word.toNat.testBit i = false := by
  unfold lowestBit
  cases hfind : (List.range 64).find? word.toNat.testBit with
  | none =>
    refine absurd (UInt64.toNat_inj.mp (Nat.eq_of_testBit_eq fun i => ?_)) h
    rw [List.find?_range_eq_none] at hfind
    rw [UInt64.toNat_zero, Nat.zero_testBit, Bool.eq_false_iff]
    intro hset
    simpa [hset] using hfind i (lt_of_testBit hset)
  | some bit =>
    obtain ⟨hset, hbit, hbelow⟩ := List.find?_range_eq_some.mp hfind
    exact ⟨mem_range.mp hbit, hset, fun i hi => by simpa using hbelow i hi⟩

/-- The affinity of a node: `(bitmapAffinity >> bit) & 1UL`. -/
theorem shiftRight_and_one (affinity : UInt64) {bit : Nat} (hbit : bit < 64) :
    decide ((affinity >>> UInt64.ofNat bit) &&& 1 ≠ 0) = affinity.toNat.testBit bit := by
  have hshift : (affinity >>> UInt64.ofNat bit).toNat = affinity.toNat >>> bit := by
    rw [UInt64.toNat_shiftRight, UInt64.toNat_ofNat',
      Nat.mod_eq_of_lt (show bit < 2 ^ 64 by omega), Nat.mod_eq_of_lt hbit]
  simp only [ne_eq, ← UInt64.toNat_inj, UInt64.toNat_and, hshift]
  simp [Nat.testBit]

theorem filter_range_eq_cons {n l : Nat} {p q : Nat → Bool} (hl : l < n) (hp : p l = true)
    (hbelow : ∀ i < l, p i = false) (hq : ∀ i, q i = (p i && decide (l ≠ i))) :
    (List.range n).filter p = l :: (List.range n).filter q := by
  have hsorted : ∀ p : Nat → Bool, ((List.range n).filter p).Pairwise (· < ·) :=
    fun p => pairwise_lt_range.filter p
  refine (hsorted p).eq_of_mem_iff (pairwise_cons.mpr ⟨fun i hi => ?_, hsorted q⟩) fun i => ?_
  · rw [mem_filter, hq, Bool.and_eq_true, decide_eq_true_eq] at hi
    have hle : ¬i < l := fun hlt => by simp [hbelow i hlt] at hi
    omega
  · simp only [mem_cons]
    grind

/-- The loop finds the bits of a word that has none below `low`. -/
theorem scanWord_of_low (affinity : UInt64) (fuel low : Nat) (hfuel : 64 ≤ fuel + low)
    (word : UInt64) (hlow : ∀ i < low, word.toNat.testBit i = false) :
    scanWord affinity fuel word =
      ((List.range 64).filter word.toNat.testBit).map fun bit =>
        (bit, affinity.toNat.testBit bit) := by
  have hnone : ∀ word : UInt64, (∀ i < 64, word.toNat.testBit i = false) →
      (List.range 64).filter word.toNat.testBit = [] := by
    simp [filter_eq_nil_iff]
  -- each turn takes a bit at or above `low`, and leaves none up to it
  induction fuel generalizing low word with
  | zero =>
    rw [hnone word fun i hi => hlow i (by omega)]
    rfl
  | succ fuel ih =>
    unfold scanWord
    split_ifs with hzero
    · rw [hnone word fun i _ => by simp [hzero]]
      rfl
    · obtain ⟨hbit, hset, hbelow⟩ := testBit_lowestBit hzero
      have hle : low ≤ lowestBit word := by
        by_contra hlt
        rw [hlow _ (by omega)] at hset
        cases hset
      have hclear := testBit_clearBit word hbit
      have hrest := ih (lowestBit word + 1) (by omega) (clearBit word (lowestBit word))
        fun i hi => by
          rw [hclear]
          rcases eq_or_lt_of_le (Nat.le_of_lt_succ hi) with rfl | hlt
          · simp
          · simp [hbelow i hlt]
      dsimp only
      rw [filter_range_eq_cons hbit hset hbelow hclear, map_cons, hrest,
        shiftRight_and_one affinity hbit]

/-- **The loops list what the bitmaps say.** -/
theorem scanRegion_eq (name : Name) (fields : RegionFields) :
    scanRegion name fields = convertRegion name fields := by
  have hnodes : ((List.range regionNodeBitmapU64Size).flatMap fun index =>
      (scanWord (fields.bitmapAffinity index) 64 (fields.bitmap index)).map fun b =>
        (index * 64 + b.1, b.2)) =
      (bitmapNodes fields.bitmap).map fun n => (n, hasNode fields.bitmapAffinity n) := by
    unfold bitmapNodes
    rw [map_flatMap]
    congr 1
    funext index
    rw [scanWord_of_low _ 64 0 (by omega) _ (by simp), map_map, map_map]
    refine map_congr_left fun bit hbit => ?_
    have hlt : bit < 64 := mem_range.mp (mem_of_mem_filter hbit)
    simp only [Function.comp_apply, hasNode, show (index * 64 + bit) / 64 = index by omega,
      show (index * 64 + bit) % 64 = bit by omega]
  unfold scanRegion convertRegion
  simp only [hnodes, map_map]
  rfl

/-! ### Over the runs of a store -/

section Runs

variable (config : StoreConfig) {s : RecordStore}

/-- The slots that `Initialize` finds are different, whatever the file holds. -/
theorem regionSlots_start (config : StoreConfig) (alive : UInt32 → Bool) (m : StoreMem) :
    RegionSlots (initializeStore config alive m) := by
  have hentry : ∀ n e,
      (restoreCache config.regionMax m.regions fun _ => some []).lookup n = some e →
      (m.regions e.slot).idle = false ∧ n = cString (m.regions e.slot).name := by
    intro n e he
    obtain ⟨i, -, hi⟩ := restoreEntry_of_lookup he
    unfold restoreEntry at hi
    split_ifs at hi with hidle
    obtain ⟨rfl, rfl⟩ := Prod.mk.injEq _ _ _ _ ▸ Option.some.inj hi
    exact ⟨Bool.eq_false_iff.mpr hidle, rfl⟩
  refine ⟨nodup_range.filter _, fun n e he hidle => ?_, fun n n' e e' he he' hslot => ?_⟩
  · have hbusy := (mem_filter.mp hidle).2
    rw [(hentry n e he).1] at hbusy
    cases hbusy
  · rw [(hentry n e he).2, (hentry n' e' he').2, hslot]

/-- The operation is about the region of a name. -/
def StoreOp.onRegion (name : Name) : StoreOp → Bool
  | .addRegionRecord input => input.name = name
  | .delRegionRecord n => n = name
  | _ => false

/-- An operation leaves the records of the regions that it is not about. -/
theorem RegionSlots.step (h : RegionSlots s) (op : StoreOp) :
    RegionSlots (s.step config op) ∧ ∀ name, op.onRegion name = false →
      regionRecord (s.step config op) name = regionRecord s name := by
  have hother : op.onRegions = false → RegionSlots (s.step config op) ∧
      regionRecord (s.step config op) = regionRecord s := by
    intro hop
    obtain ⟨hregions, hidle, hcached⟩ := regions_other config s hop
    unfold RegionSlots regionRecord
    rw [hregions, hidle, hcached]
    exact ⟨h, rfl⟩
  cases op with
  | addRegionRecord input =>
    obtain ⟨hslots, hview⟩ := h.add config input
    refine ⟨hslots, fun name hname => ?_⟩
    rcases hview with ⟨-, hsame⟩ | ⟨-, -, record, -, hadded⟩
    · exact congrFun hsame name
    · exact (congrFun hadded name).trans (update_of_ne (Ne.symm (of_decide_eq_false hname)) _ _)
  | delRegionRecord n =>
    obtain ⟨hslots, hview⟩ := h.del config n
    refine ⟨hslots, fun name hname => ?_⟩
    rcases hview with ⟨-, hsame⟩ | ⟨-, hdeleted⟩
    · exact congrFun hsame name
    · exact (congrFun hdeleted name).trans (update_of_ne (Ne.symm (of_decide_eq_false hname)) _ _)
  | _ => exact ⟨(hother rfl).1, fun name _ => congrFun (hother rfl).2 name⟩

theorem RegionSlots.run (h : RegionSlots s) (ops : List StoreOp) :
    RegionSlots (s.run config ops) ∧ ∀ name, (∀ op ∈ ops, op.onRegion name = false) →
      regionRecord (s.run config ops) name = regionRecord s name := by
  induction ops generalizing s with
  | nil => exact ⟨h, fun _ _ => rfl⟩
  | cons op ops ih =>
    obtain ⟨hslots, hstep⟩ := h.step config op
    obtain ⟨hslots', hrun⟩ := ih hslots
    refine ⟨hslots', fun name hname => (hrun name fun o ho => ?_).trans (hstep name ?_)⟩
    · exact hname o (mem_cons_of_mem _ ho)
    · exact hname op mem_cons_self

end Runs

/-- **What is listed of a region is what was given of it.**  After any operations from any file,
and whatever is done to other regions afterwards, a region that was added is listed once. -/
theorem region_listed (config : StoreConfig) (alive : UInt32 → Bool) (m : StoreMem)
    (before after : List StoreOp) (input : CreateRegionInput)
    (hadd : (storeCall config (.addRegionRecord input)
      ((initializeStore config alive m).run config before)).1 = 0)
    (hother : ∀ op ∈ after, op.onRegion input.name = false) :
    let s := (initializeStore config alive m).run config (before ++ .addRegionRecord input :: after)
    ∃ record ∈ scanRegionRecord s, record.name = input.name ∧ Lists record input ∧
      ∀ other ∈ scanRegionRecord s, other.name = input.name → other = record := by
  intro s
  have hslots := ((regionSlots_start config alive m).run config before).1
  obtain ⟨hadded, hrefused | ⟨-, -, record, hrecord, hview⟩⟩ := hslots.add config input
  · exact absurd hadd hrefused.1
  have hfound : regionRecord s input.name = some record := by
    have hkept := (hadded.run config after).2 input.name hother
    rw [hview, update_self] at hkept
    simpa only [s, RecordStore.run, foldl_append, foldl_cons, storeCall]
      using hkept
  have hname : record.name = input.name := by
    obtain ⟨e, -, rfl⟩ := Option.map_eq_some_iff.mp hfound
    rfl
  have hlist : scanRegionRecord s = listRegionRecord s := by
    simp only [scanRegionRecord, scanRegion_eq, listRegionRecord]
  rw [hlist]
  refine ⟨record, (mem_listRegionRecord s record).mpr (hname ▸ hfound), hname, hrecord,
    fun other hother hsame => ?_⟩
  have hfound' := (mem_listRegionRecord s other).mp hother
  rw [hsame, hfound] at hfound'
  exact (Option.some.inj hfound').symm

/-- Node 70 is given twice, once with affinity; a region of another name is added and
deleted afterwards. -/
theorem region_listed_repeated :
    let input : CreateRegionInput := ⟨[97], 4096, [70, 3, 70], [false, false, true]⟩
    let s := (RecordStore.start smallStoreConfig fun _ => true).run smallStoreConfig
      ([] ++ .addRegionRecord input ::
        [.addRegionRecord ⟨[98], 0, [5], [true]⟩, .delRegionRecord [98]])
    scanRegionRecord s = [⟨[97], 4096, [3, 70], [false, true]⟩] ∧
      ∃ record ∈ scanRegionRecord s, record.name = [97] ∧ Lists record input := by
  refine ⟨by decide +kernel, ?_⟩
  obtain ⟨record, hmem, hname, hlists, -⟩ := region_listed smallStoreConfig (fun _ => true)
    StoreMem.zero [] [.addRegionRecord ⟨[98], 0, [5], [true]⟩, .delRegionRecord [98]]
    ⟨[97], 4096, [70, 3, 70], [false, false, true]⟩ (by decide +kernel) (by decide)
  exact ⟨record, hmem, hname, hlists⟩

end UbsMem
