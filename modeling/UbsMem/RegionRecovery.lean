import UbsMem.Machine
import UbsMem.RegionRecords

/-! # Regions after a restart

What `RegionManager::Recovery` makes of the records.  A record matches a reported region if
that has all its nodes (`Covers`), and the description that is made of the two has the pairs
of node and affinity of the record.  But one record that matches no reported region ends the
recovery, and the map stays empty; and a client can have given a region a name that the record
does not keep, or a node with both affinities, of which the record keeps one
(`region_not_restored`).

In every history of requests, other uses of the record store and restarts whose requests have
names that the record keeps and no such node (`Recordable`), the next recovery succeeds exactly
if UBSE reports regions that cover every region which was accepted and not destroyed, and then
all of them are restored (`regions_restored`).
-/
namespace UbsMem

open Function List

/-! ### Nodes of a description -/

/-- A node and its affinity. -/
def ShmRegionDesc.pairAt (r : ShmRegionDesc) (i : Nat) : Option (UInt32 × Bool) :=
  (strToUint (r.nodeId i)).map fun node => (node, r.affinity i)

/-- The pairs of node and affinity at the first places. -/
def ShmRegionDesc.nodesUpTo (r : ShmRegionDesc) (k : Nat) : List (UInt32 × Bool) :=
  (List.range k).filterMap r.pairAt

/-- The pairs of node and affinity. -/
def ShmRegionDesc.nodes (r : ShmRegionDesc) : List (UInt32 × Bool) := r.nodesUpTo r.num.toNat

theorem ShmRegionDesc.nodesUpTo_succ (r : ShmRegionDesc) (k : Nat) :
    r.nodesUpTo (k + 1) = r.nodesUpTo k ++ (r.pairAt k).toList := by
  unfold nodesUpTo
  rw [range_succ, filterMap_append]
  cases h : r.pairAt k <;> simp [h]

variable {r : ShmRegionDesc}

theorem ShmRegionDesc.nodesUpTo_congr {r' : ShmRegionDesc} {k : Nat}
    (h : ∀ i < k, r.pairAt i = r'.pairAt i) : r.nodesUpTo k = r'.nodesUpTo k :=
  filterMap_congr fun i hi => h i (mem_range.mp hi)

/-- The region has the node. -/
def ShmRegionDesc.HasNode (r : ShmRegionDesc) (node : UInt32) : Prop :=
  ∃ i ∈ r.hosts, strToUint (r.nodeId i) = some node

/-- The region has all the nodes. -/
def Covers (r : ShmRegionDesc) (pairs : List (UInt32 × Bool)) : Prop := ∀ p ∈ pairs, r.HasNode p.1

/-- `ToNodeIds` gives the nodes. -/
theorem zip_of_toNodeIds {lists : List UInt32 × List Bool} (h : toNodeIds r = some lists) :
    lists.1.zip lists.2 = r.nodes := by
  have hloop : ∀ (l : List Nat) (lists : List UInt32 × List Bool), toNodeIdsLoop r l = some lists →
      lists.1.zip lists.2 = l.filterMap r.pairAt := by
    intro l
    induction l with
    | nil =>
      intro lists h
      cases h
      rfl
    | cons i l ih =>
      intro lists h
      unfold toNodeIdsLoop at h
      split at h
      · cases h
      · next node hnode =>
        obtain ⟨rest, hrest, rfl⟩ := Option.map_eq_some_iff.mp h
        have hpair : r.pairAt i = some (node, r.affinity i) := by
          simp [ShmRegionDesc.pairAt, hnode]
        rw [filterMap_cons_some hpair, ← ih rest hrest]
        rfl
  unfold toNodeIds at h
  split at h
  · cases h
  · exact hloop _ _ h

/-! ### `CheckRegionMatched` -/

section Match

variable {r : ShmRegionDesc} {node : UInt32} {flag : Nat → Bool} {l : List Nat}
  {marks : RegionMarks} {pairs : List (UInt32 × Bool)}

theorem findUnmarked_spec {i : Nat} (h : findUnmarked r flag node l = some i) :
    i ∈ l ∧ flag i = false ∧ strToUint (r.nodeId i) = some node := by
  induction l with
  | nil => cases h
  | cons j l ih =>
    unfold findUnmarked at h
    split at h
    · obtain ⟨hmem, hrest⟩ := ih h
      exact ⟨mem_cons_of_mem _ hmem, hrest⟩
    · next hflag =>
      split at h
      · cases h
      · next found hfound =>
        split at h
        · next heq =>
          cases h
          exact ⟨mem_cons_self .., by simpa using hflag, heq ▸ hfound⟩
        · obtain ⟨hmem, hrest⟩ := ih h
          exact ⟨mem_cons_of_mem _ hmem, hrest⟩

theorem findUnmarked_isSome (hnumbers : ∀ i ∈ l, ∃ n, strToUint (r.nodeId i) = some n)
    (hnode : ∃ i ∈ l, flag i = false ∧ strToUint (r.nodeId i) = some node) :
    ∃ i, findUnmarked r flag node l = some i := by
  induction l with
  | nil =>
    obtain ⟨i, hi, -⟩ := hnode
    exact absurd hi not_mem_nil
  | cons j l ih =>
    have hrest : ∀ i ∈ l, ∃ n, strToUint (r.nodeId i) = some n := fun i hi =>
      hnumbers i (mem_cons_of_mem _ hi)
    obtain ⟨i, hi, hflag, hread⟩ := hnode
    obtain ⟨found, hfound⟩ := hnumbers j (mem_cons_self ..)
    unfold findUnmarked
    rcases mem_cons.mp hi with rfl | hi
    · rw [hflag, hread]
      exact ⟨i, by simp⟩
    · have htail := ih hrest ⟨i, hi, hflag, hread⟩
      rw [hfound]
      split
      · exact htail
      · dsimp only
        split
        · exact ⟨j, rfl⟩
        · exact htail

/-- What the outer loop marks: for each pair a node of the region, with the affinity of the
pair; marks that were set stay. -/
theorem matchNodes_spec {marks' : RegionMarks} (h : matchNodes r pairs marks = some marks') :
    (∀ i, marks.flag i = true → marks'.flag i = true ∧ marks'.affinity i = marks.affinity i) ∧
      (∀ p ∈ pairs, ∃ i ∈ r.hosts, marks'.flag i = true ∧ strToUint (r.nodeId i) = some p.1 ∧
        marks'.affinity i = p.2) ∧ (∀ i, marks'.flag i = true → marks.flag i = true ∨
        ∃ p ∈ pairs, strToUint (r.nodeId i) = some p.1 ∧ marks'.affinity i = p.2) := by
  induction pairs generalizing marks with
  | nil =>
    cases h
    exact ⟨fun _ hi => ⟨hi, rfl⟩, fun p hp => absurd hp not_mem_nil, fun _ hi => .inl hi⟩
  | cons p pairs ih =>
    unfold matchNodes at h
    split at h
    · cases h
    · next i hfind =>
      obtain ⟨hmem, hfree, hread⟩ := findUnmarked_spec hfind
      obtain ⟨hkept, hset, honly⟩ := ih h
      dsimp only at hkept honly
      obtain ⟨hflag, haffinity⟩ := hkept i (update_self ..)
      rw [update_self] at haffinity
      refine ⟨fun j hj => ?_, fun q hq => ?_, fun j hj => ?_⟩
      · have hne : j ≠ i := by
          rintro rfl
          rw [hfree] at hj
          cases hj
        have := hkept j (by rw [update_of_ne hne]; exact hj)
        rwa [update_of_ne hne] at this
      · rcases mem_cons.mp hq with rfl | hq
        · exact ⟨i, hmem, hflag, hread, haffinity⟩
        · exact hset q hq
      · by_cases hji : j = i
        · subst hji
          exact .inr ⟨p, mem_cons_self .., hread, haffinity⟩
        · rcases honly j hj with hold | ⟨q, hq, hrest⟩
          · rw [update_of_ne hji] at hold
            exact .inl hold
          · exact .inr ⟨q, mem_cons_of_mem _ hq, hrest⟩

/-- The outer loop comes to its end for different nodes that the region has. -/
theorem matchNodes_isSome (hwell : WellReported r) (hnodup : (pairs.map Prod.fst).Nodup)
    (hcovers : Covers r pairs)
    (hfree : ∀ i, marks.flag i = true → ∀ p ∈ pairs, strToUint (r.nodeId i) ≠ some p.1) :
    ∃ marks', matchNodes r pairs marks = some marks' := by
  induction pairs generalizing marks with
  | nil => exact ⟨marks, rfl⟩
  | cons p pairs ih =>
    obtain ⟨hnew, hnodup⟩ := nodup_cons.mp hnodup
    obtain ⟨i, hi, hread⟩ := hcovers p (mem_cons_self ..)
    have hflag : marks.flag i = false := by
      rw [Bool.eq_false_iff]
      exact fun hset => hfree i hset p (mem_cons_self ..) hread
    obtain ⟨j, hj⟩ : ∃ j, findUnmarked r marks.flag p.1 r.hosts = some j :=
      findUnmarked_isSome (fun i hi => hwell.numbered i (mem_range.mp hi))
        ⟨i, hi, hflag, hread⟩
    obtain ⟨-, -, hreadj⟩ := findUnmarked_spec hj
    unfold matchNodes
    rw [hj]
    refine ih hnodup (fun q hq => hcovers q (mem_cons_of_mem _ hq)) fun k hk q hq hreadk => ?_
    by_cases hkj : k = j
    · -- the place that has just got its flag is that of another node
      subst hkj
      rw [hreadj] at hreadk
      exact hnew (mem_map.mpr ⟨q, hq, (Option.some.inj hreadk).symm⟩)
    · dsimp only at hk
      rw [update_of_ne hkj] at hk
      exact hfree k hk q (mem_cons_of_mem _ hq) hreadk

theorem copyNodes_spec (hwell : WellReported r) (marks : RegionMarks) (hl : ∀ i ∈ l, i ∈ r.hosts)
    (out : ShmRegionDesc) (num : Nat) :
    ∃ out' num', copyNodes r marks l out num = (true, out', num') ∧
      out'.nodesUpTo num' = out.nodesUpTo num ++ (l.filter marks.flag).filterMap fun i =>
        (strToUint (r.nodeId i)).map fun node => (node, marks.affinity i) := by
  induction l generalizing out num with
  | nil => exact ⟨out, num, rfl, by simp⟩
  | cons i l ih =>
    have hrest : ∀ j ∈ l, j ∈ r.hosts := fun j hj => hl j (mem_cons_of_mem _ hj)
    have hi := mem_range.mp (hl i (mem_cons_self ..))
    unfold copyNodes
    cases hflag : marks.flag i with
    | false =>
      obtain ⟨out', num', hcopy, hnodes⟩ := ih hrest out num
      exact ⟨out', num', by simpa using hcopy, by simpa [hflag] using hnodes⟩
    | true =>
      have hid := hwell.idFits i hi
      have hhost := hwell.hostFits i hi
      obtain ⟨out', num', hcopy, hnodes⟩ := ih hrest
        { out with
          nodeId := update out.nodeId num (r.nodeId i)
          hostName := update out.hostName num (r.hostName i)
          affinity := update out.affinity num (marks.affinity i) } (num + 1)
      refine ⟨out', num', ?_, ?_⟩
      · rw [← hcopy]
        simp [not_le.mpr hid, not_le.mpr hhost]
      · rw [hnodes, ShmRegionDesc.nodesUpTo_succ, filter_cons_of_pos hflag, append_assoc]
        congr 1
        · refine ShmRegionDesc.nodesUpTo_congr fun j hj => ?_
          simp [ShmRegionDesc.pairAt, update_of_ne (Nat.ne_of_lt hj)]
        · obtain ⟨node, hnode⟩ := hwell.numbered i hi
          simp [ShmRegionDesc.pairAt, hnode]

theorem length_le_of_covers {nodes : List UInt32} (hnodup : nodes.Nodup)
    (hcovers : ∀ node ∈ nodes, r.HasNode node) : nodes.length ≤ r.num.toNat := by
  have hsub : nodes ⊆ r.hosts.filterMap fun i => strToUint (r.nodeId i) := by
    intro node hnode
    obtain ⟨i, hi, hread⟩ := hcovers node hnode
    exact mem_filterMap.mpr ⟨i, hi, hread⟩
  calc nodes.length ≤ (r.hosts.filterMap fun i => strToUint (r.nodeId i)).length :=
        (subperm_of_subset hnodup hsub).length_le
    _ ≤ r.hosts.length := length_filterMap_le ..
    _ = r.num.toNat := length_range

variable {record : CreateRegionInput} {pairs : List (UInt32 × Bool)}

theorem Describes.fst (h : Describes record pairs) :
    (record.nodeIds.zip record.affinity).map Prod.fst = record.nodeIds :=
  map_fst_zip (Nat.le_of_eq h.length)

theorem Describes.covers_iff (h : Describes record pairs) :
    Covers r (record.nodeIds.zip record.affinity) ↔ Covers r pairs := by
  constructor
  · exact fun hcovers p hp => hcovers p ((h.pairs p).mpr hp)
  · exact fun hcovers p hp => hcovers p ((h.pairs p).mp hp)

/-- **A record matches the regions that have its nodes**, and the description made of the two
has the pairs of the record.  Name and size stay. -/
theorem checkRegionMatched_spec (hwell : WellReported r) (h : Describes record pairs)
    (output : RegionInfo) :
    (checkRegionMatched record output r).2.name = output.name ∧
      ((checkRegionMatched record output r).1 = true ↔ Covers r pairs) ∧
      ((checkRegionMatched record output r).1 = true →
        ∀ p, p ∈ (checkRegionMatched record output r).2.region.nodes ↔ p ∈ pairs) := by
  have hnonneg := hwell.num_nonneg
  have hmax := hwell.num_le
  have hlength := h.length
  unfold checkRegionMatched
  by_cases hlong : record.nodeIds.length > r.num.toNat
  · rw [if_pos (.inr (.inr (.inr hlong)))]
    refine ⟨rfl, ⟨nofun, fun hcovers => ?_⟩, nofun⟩
    have hfew := length_le_of_covers h.nodup fun node hnode => by
      rw [← h.fst] at hnode
      obtain ⟨p, hp, rfl⟩ := mem_map.mp hnode
      exact hcovers p ((h.pairs p).mp hp)
    omega
  rw [if_neg (by omega)]
  cases hmatch : matchNodes r (record.nodeIds.zip record.affinity)
      ⟨fun _ => false, fun _ => false⟩ with
  | none =>
    refine ⟨rfl, ⟨nofun, fun hcovers => ?_⟩, nofun⟩
    obtain ⟨marks, hsome⟩ : ∃ marks, matchNodes r (record.nodeIds.zip record.affinity)
        ⟨fun _ => false, fun _ => false⟩ = some marks :=
      matchNodes_isSome hwell (by rw [h.fst]; exact h.nodup) (h.covers_iff.mpr hcovers)
        fun i hi => absurd hi Bool.false_ne_true
    rw [hmatch] at hsome
    cases hsome
  | some marks =>
    obtain ⟨-, hset, honly⟩ := matchNodes_spec hmatch
    have hcovers : Covers r pairs := by
      intro p hp
      obtain ⟨i, hi, -, hread, -⟩ := hset p ((h.pairs p).mpr hp)
      exact ⟨i, hi, hread⟩
    obtain ⟨out, num, hcopy, hnodes⟩ := copyNodes_spec hwell marks (fun _ hi => hi)
      { output.region with perfLevel := r.perfLevel, type := r.type } 0
    dsimp only
    rw [hcopy]
    simp only [if_true]
    refine ⟨trivial, ⟨fun _ => hcovers, fun _ => trivial⟩, fun _ p => ?_⟩
    -- the nodes copied are those with a flag
    have hout : ({ out with num := (num : Int) } : ShmRegionDesc).nodes =
        (r.hosts.filter marks.flag).filterMap fun i =>
          (strToUint (r.nodeId i)).map fun node => (node, marks.affinity i) := hnodes
    rw [hout, mem_filterMap, ← h.pairs p]
    constructor
    · rintro ⟨i, hi, hpair⟩
      obtain ⟨node, hread, rfl⟩ := Option.map_eq_some_iff.mp hpair
      rcases honly i (mem_filter.mp hi).2 with hfalse | ⟨q, hq, hreadq, haffinity⟩
      · cases hfalse
      · rw [hread] at hreadq
        rw [Option.some.inj hreadq, haffinity]
        exact hq
    · intro hp
      obtain ⟨i, hi, hflag, hread, haffinity⟩ := hset p hp
      exact ⟨i, mem_filter.mpr ⟨hi, hflag⟩, by rw [hread, haffinity]; rfl⟩

end Match

/-! ### `RegionManager::Recovery` -/

section Recovery

variable {regions : List ShmRegionDesc}

/-- Some reported region has all the nodes. -/
def CoveredBy (regions : List ShmRegionDesc) (pairs : List (UInt32 × Bool)) : Prop :=
  ∃ r ∈ regions, Covers r pairs

instance (regions : List ShmRegionDesc) (pairs : List (UInt32 × Bool)) :
    Decidable (CoveredBy regions pairs) :=
  decidable_of_iff ((regions.any fun r => pairs.all fun p =>
      r.hosts.any fun i => strToUint (r.nodeId i) = some p.1) = true) (by
    simp only [CoveredBy, Covers, ShmRegionDesc.HasNode, any_eq_true, all_eq_true,
      decide_eq_true_eq])

theorem matchFirst_spec (hwell : ∀ r ∈ regions, WellReported r) {record : CreateRegionInput}
    {pairs : List (UInt32 × Bool)} (h : Describes record pairs) (region : RegionInfo) :
    (matchFirst record regions region).2.name = region.name ∧
      ((matchFirst record regions region).1 = 0 ↔ CoveredBy regions pairs) ∧
      ((matchFirst record regions region).1 = 0 →
        ∀ p, p ∈ (matchFirst record regions region).2.region.nodes ↔ p ∈ pairs) := by
  induction regions generalizing region with
  | nil =>
    have hne : (matchFirst record [] region).1 ≠ 0 := by simp [matchFirst]
    refine ⟨rfl, ⟨fun hzero => absurd hzero hne, ?_⟩, fun hzero => absurd hzero hne⟩
    rintro ⟨r, hr, -⟩
    exact absurd hr not_mem_nil
  | cons r regions ih =>
    obtain ⟨hname, hmatch, hnodes⟩ := checkRegionMatched_spec (hwell r (mem_cons_self ..)) h region
    unfold matchFirst
    split
    · next htrue =>
      exact ⟨hname, ⟨fun _ => ⟨r, mem_cons_self .., hmatch.mp htrue⟩, fun _ => rfl⟩,
        fun _ => hnodes htrue⟩
    · next hfalse =>
      obtain ⟨hname', hmatch', hnodes'⟩ := ih (fun r' hr' => hwell r' (mem_cons_of_mem _ hr'))
        (checkRegionMatched record region r).2
      refine ⟨hname'.trans hname, hmatch'.trans ⟨?_, ?_⟩, hnodes'⟩
      · rintro ⟨r', hr', hcovers⟩
        exact ⟨r', mem_cons_of_mem _ hr', hcovers⟩
      · rintro ⟨r', hr', hcovers⟩
        rcases mem_cons.mp hr' with rfl | hr'
        · exact absurd (hmatch.mpr hcovers) hfalse
        · exact ⟨r', hr', hcovers⟩

/-- The region that is made of a record. -/
structure RestoresRecord (pairs : Name → List (UInt32 × Bool)) (record : CreateRegionInput)
    (info : RegionInfo) : Prop where
  name : info.name = record.name
  nodes : ∀ p, p ∈ info.region.nodes ↔ p ∈ pairs record.name

section Restores

variable {pairs : Name → List (UInt32 × Bool)} {records : List CreateRegionInput}
  {infos : List RegionInfo}

theorem names_of_restores (h : List.Forall₂ (RestoresRecord pairs) records infos) :
    infos.map RegionInfo.name = records.map CreateRegionInput.name := by
  induction h with
  | nil => rfl
  | cons hfirst _ ih => rw [map_cons, map_cons, hfirst.name, ih]

theorem mem_of_restores (h : List.Forall₂ (RestoresRecord pairs) records infos) :
    (∀ info ∈ infos, ∃ record ∈ records, RestoresRecord pairs record info) ∧
      ∀ record ∈ records, ∃ info ∈ infos, RestoresRecord pairs record info := by
  induction h with
  | nil => exact ⟨fun _ hmem => absurd hmem not_mem_nil, fun _ hmem => absurd hmem not_mem_nil⟩
  | cons hfirst _ ih =>
    constructor
    · intro info hmem
      rcases mem_cons.mp hmem with rfl | hmem
      · exact ⟨_, mem_cons_self .., hfirst⟩
      · obtain ⟨record, hrecord, hmade⟩ := ih.1 info hmem
        exact ⟨record, mem_cons_of_mem _ hrecord, hmade⟩
    · intro record hmem
      rcases mem_cons.mp hmem with rfl | hmem
      · exact ⟨_, mem_cons_self .., hfirst⟩
      · obtain ⟨info, hinfo, hmade⟩ := ih.2 record hmem
        exact ⟨info, mem_cons_of_mem _ hinfo, hmade⟩

end Restores

/-- All records are restored if every one of them is covered; else none is. -/
theorem recoverRecords_spec (hwell : ∀ r ∈ regions, WellReported r) (fresh : RegionInfo)
    {pairs : Name → List (UInt32 × Bool)} {records : List CreateRegionInput}
    (h : ∀ record ∈ records, Describes record (pairs record.name)) :
    ((recoverRecords fresh regions records).isSome ↔
        ∀ record ∈ records, CoveredBy regions (pairs record.name)) ∧
      ∀ infos, recoverRecords fresh regions records = some infos →
        List.Forall₂ (RestoresRecord pairs) records infos := by
  induction records with
  | nil =>
    refine ⟨⟨fun _ record hr => absurd hr not_mem_nil, fun _ => rfl⟩, fun infos hsome => ?_⟩
    cases hsome
    exact .nil
  | cons record records ih =>
    obtain ⟨hall, hinfos⟩ := ih fun r hr => h r (mem_cons_of_mem _ hr)
    obtain ⟨hname, hmatch, hnodes⟩ := matchFirst_spec hwell (h record (mem_cons_self ..))
      { fresh with name := record.name, size := record.size }
    have htrans : transRecordToRegionCache record fresh regions =
        matchFirst record regions { fresh with name := record.name, size := record.size } := rfl
    unfold recoverRecords
    rw [htrans, forall_mem_cons]
    by_cases hzero : (matchFirst record regions
        { fresh with name := record.name, size := record.size }).1 = 0
    · rw [if_neg (not_not.mpr hzero), Option.isSome_map, hall]
      refine ⟨⟨fun hrest => ⟨hmatch.mp hzero, hrest⟩, fun hrest => hrest.2⟩, fun infos hsome => ?_⟩
      obtain ⟨rest, hrest, rfl⟩ := Option.map_eq_some_iff.mp hsome
      exact .cons ⟨hname, hnodes hzero⟩ (hinfos rest hrest)
    · rw [if_pos hzero]
      refine ⟨⟨nofun, fun hrest => absurd (hmatch.mpr hrest.1) hzero⟩, nofun⟩

/-- Regions with different names, none of them in the map, all go into it. -/
theorem putRegions_spec {infos : List RegionInfo} (hnodup : (infos.map RegionInfo.name).Nodup)
    {regionMap : Map Name RegionInfo} (hnew : ∀ info ∈ infos, regionMap.lookup info.name = none) :
    (RegionDaemon.putRegions infos regionMap).1 = true ∧
      ∀ name info, (RegionDaemon.putRegions infos regionMap).2.lookup name = some info ↔
        (info ∈ infos ∧ info.name = name) ∨ regionMap.lookup name = some info := by
  induction infos generalizing regionMap with
  | nil => exact ⟨rfl, fun name info => by simp [RegionDaemon.putRegions]⟩
  | cons elem infos ih =>
    obtain ⟨hother, hnodup⟩ := nodup_cons.mp hnodup
    have helem := hnew elem (mem_cons_self ..)
    unfold RegionDaemon.putRegions
    rw [helem, Option.isSome_none, if_neg Bool.false_ne_true]
    have hne : ∀ info ∈ infos, info.name ≠ elem.name := fun info hinfo heq =>
      hother (mem_map.mpr ⟨info, hinfo, heq⟩)
    have hrest : ∀ info ∈ infos, (regionMap.insert elem.name elem).lookup info.name = none := by
      intro info hinfo
      rw [AList.lookup_insert_ne (hne info hinfo)]
      exact hnew info (mem_cons_of_mem _ hinfo)
    obtain ⟨hok, hlookup⟩ := ih hnodup hrest
    refine ⟨hok, fun name info => (hlookup name info).trans ?_⟩
    by_cases hname : name = elem.name
    · subst hname
      rw [AList.lookup_insert, helem]
      constructor
      · rintro (⟨hmem, heq⟩ | hsome)
        · exact absurd heq (hne info hmem)
        · cases hsome
          exact .inl ⟨mem_cons_self .., rfl⟩
      · rintro (⟨hmem, heq⟩ | hsome)
        · rcases mem_cons.mp hmem with rfl | hmem
          · exact .inr rfl
          · exact absurd heq (hne info hmem)
        · cases hsome
    · rw [AList.lookup_insert_ne hname]
      constructor
      · rintro (⟨hmem, heq⟩ | hsome)
        · exact .inl ⟨mem_cons_of_mem _ hmem, heq⟩
        · exact .inr hsome
      · rintro (⟨hmem, heq⟩ | hsome)
        · rcases mem_cons.mp hmem with rfl | hmem
          · exact absurd heq.symm hname
          · exact .inl ⟨hmem, heq⟩
        · exact .inr hsome

end Recovery

/-! ### Histories -/

/-- The daemon, and what the clients know: the regions that were accepted and not destroyed. -/
structure RegionHistory where
  daemon : RegionDaemon
  accepted : Name → Option ShmRegionDesc

/-- What happens: a request, another use of the record store, or a restart of the daemon with
what UBSE answers then. -/
inductive RegionEvent
  | create (name : Name) (region : ShmRegionDesc)
  | destroy (name : Name)
  | storeOp (op : StoreOp)
  | restart (alive : UInt32 → Bool) (fresh : RegionInfo) (o : UbseReplies)

namespace RegionHistory

/-- The daemon on an empty file. -/
def start (config : StoreConfig) (alive : UInt32 → Bool) : RegionHistory :=
  ⟨⟨∅, RecordStore.start config alive⟩, fun _ => none⟩

def step (config : StoreConfig) (h : RegionHistory) : RegionEvent → Option RegionHistory
  | .create name region =>
    let res := h.daemon.regionCreateRegion config name region
    some ⟨res.2, if res.1 = 0 then update h.accepted name (some region) else h.accepted⟩
  | .destroy name =>
    let res := h.daemon.regionDestroyRegion config name
    some ⟨res.2, if res.1 = 0 then update h.accepted name none else h.accepted⟩
  | .storeOp op =>
    if op.onRegions then none
    else some { h with daemon := { h.daemon with store := h.daemon.store.step config op } }
  | .restart alive fresh o =>
    some { h with daemon := ((h.daemon.restarted config alive).recovery fresh o).2 }

/-- **The condition on a request**: the record keeps the name, and no node is given with both
affinities. -/
def Recordable (_ : RegionHistory) : RegionEvent → Prop
  | .create name region => name ≠ [] ∧ (0 : UInt8) ∉ name ∧ Unambiguous region.nodes
  | _ => True

/-- The records are those of the accepted regions. -/
structure Inv (config : StoreConfig) (h : RegionHistory) : Prop where
  table : RegionTable config h.daemon.store
  records : ∀ name, Option.Rel (fun record region => Describes record region.nodes)
    (regionRecord h.daemon.store name) (h.accepted name)

variable {config : StoreConfig} {h h' : RegionHistory} {region : ShmRegionDesc} {name : Name}
  {d : RegionDaemon}

theorem inv_start (config : StoreConfig) (alive : UInt32 → Bool) :
    Inv config (start config alive) := by
  have hinv := (memInv_zero config).restore alive
  refine ⟨hinv.regions, fun name => ?_⟩
  have hnone : regionRecord (RecordStore.start config alive) name = none := by
    rw [Option.eq_none_iff_forall_ne_some]
    intro record hrecord
    obtain ⟨e, hfound, -⟩ := Option.map_eq_some_iff.mp hrecord
    have hlive := ((hinv.regions.cached name e).mp hfound).2.1
    cases hlive
  exact hnone ▸ .none

theorem create_records (d : RegionDaemon) (htable : RegionTable config d.store) (hne : name ≠ [])
    (hzero : (0 : UInt8) ∉ name) (hclear : Unambiguous region.nodes) {r : Int × RegionDaemon}
    (hr : d.regionCreateRegion config name region = r) :
    RegionTable config r.2.store ∧ (r.1 ≠ 0 ∧ regionRecord r.2.store = regionRecord d.store ∨
      r.1 = 0 ∧ ∃ record, Describes record region.nodes ∧
      regionRecord r.2.store = update (regionRecord d.store) name (some record)) := by
  subst hr
  have hinvalid : mxmErrParamInvalid ≠ 0 := by decide
  have hexist : mxmErrRegionExist ≠ 0 := by decide
  unfold RegionDaemon.regionCreateRegion
  split
  · exact ⟨htable, .inl ⟨hinvalid, rfl⟩⟩
  unfold RegionDaemon.createRegionInfo
  split
  · exact ⟨htable, .inl ⟨hexist, rfl⟩⟩
  unfold RegionDaemon.updateRegionInfo
  cases hlists : toNodeIds region with
  | none => exact ⟨htable, .inl ⟨hexist, rfl⟩⟩
  | some lists =>
    have hpairs := zip_of_toNodeIds hlists
    rw [← hpairs] at hclear
    have htable' := @RegionTable.add config d.store htable ⟨name, 0, lists.1, lists.2⟩ hne hzero
    obtain ⟨-, hrefused | ⟨hok, hsizes, record, hrecord, hadded⟩⟩ :=
      RegionSlots.add config (TableInv.slots htable) ⟨name, 0, lists.1, lists.2⟩
    · refine ⟨?_, .inl ⟨?_, ?_⟩⟩
      · simpa [hrefused.1] using htable'
      · simp [hrefused.1, hexist]
      · simpa [hrefused.1] using hrefused.2
    · refine ⟨?_, .inr ⟨?_, record, hpairs ▸ hrecord.describes hsizes hclear, ?_⟩⟩
      · simpa [hok] using htable'
      · simp [hok]
      · simpa [hok] using hadded

theorem destroy_records (d : RegionDaemon) (htable : RegionTable config d.store) (name : Name)
    {r : Int × RegionDaemon} (hr : d.regionDestroyRegion config name = r) :
    RegionTable config r.2.store ∧ (r.1 ≠ 0 ∧ regionRecord r.2.store = regionRecord d.store ∨
      r.1 = 0 ∧ regionRecord r.2.store = update (regionRecord d.store) name none) := by
  subst hr
  have hnotExist : mxmErrRegionNotExist ≠ 0 := by decide
  unfold RegionDaemon.regionDestroyRegion RegionDaemon.deleteRegionInfo
  split
  · exact ⟨htable, .inl ⟨hnotExist, rfl⟩⟩
  have htable' := htable.del name
  obtain ⟨-, hrefused | ⟨hok, hdeleted⟩⟩ := RegionSlots.del config (TableInv.slots htable) name
  · refine ⟨?_, .inl ⟨?_, ?_⟩⟩
    · simpa [hrefused.1] using htable'
    · simp [hrefused.1, hnotExist]
    · simpa [hrefused.1] using hrefused.2
  · refine ⟨?_, .inr ⟨?_, ?_⟩⟩
    · simpa [hok] using htable'
    · simp [hok]
    · simpa [hok] using hdeleted

/-- What the recovery does: it puts the regions that are made of the records into the map, or
ends before that. -/
theorem recovery_cases (d : RegionDaemon) (fresh : RegionInfo) (o : UbseReplies) :
    (∃ regions infos, lookupRegionList o = .ok regions ∧
        recoverRecords fresh regions (listRegionRecord d.store) = some infos ∧ d.recovery fresh o =
          (if (RegionDaemon.putRegions infos d.mRegionMap).1 then ubsmOk else mxmErrParamInvalid,
            ⟨(RegionDaemon.putRegions infos d.mRegionMap).2, d.store⟩)) ∨
      (∀ regions, lookupRegionList o = .ok regions →
          recoverRecords fresh regions (listRegionRecord d.store) = none) ∧
        d.recovery fresh o = (mxmErrParamInvalid, d) := by
  unfold RegionDaemon.recovery RegionDaemon.recoverFromRamFS repositoryRecovery
  cases hlookup : lookupRegionList o with
  | error code =>
    refine .inr ⟨fun regions hregions => ?_, rfl⟩
    cases hregions
  | ok regions =>
    dsimp only
    cases hrecover : recoverRecords fresh regions (listRegionRecord d.store) with
    | none =>
      refine .inr ⟨fun regions' hregions => ?_, rfl⟩
      cases hregions
      exact hrecover
    | some infos => exact .inl ⟨regions, infos, rfl, hrecover, rfl⟩

theorem recovery_store (d : RegionDaemon) (fresh : RegionInfo) (o : UbseReplies) :
    (d.recovery fresh o).2.store = d.store := by
  obtain ⟨regions, infos, -, -, hresult⟩ | ⟨-, hresult⟩ := recovery_cases d fresh o
  · rw [hresult]
  · rw [hresult]

theorem Inv.keep (hinv : Inv config h) (htable : RegionTable config d.store)
    (hsame : regionRecord d.store = regionRecord h.daemon.store) : Inv config ⟨d, h.accepted⟩ :=
  ⟨htable, fun n => hsame ▸ hinv.records n⟩

/-- The record of one name changes, and so does what is accepted under it. -/
theorem Inv.put (hinv : Inv config h) (htable : RegionTable config d.store)
    {record : Option CreateRegionInput} {region : Option ShmRegionDesc}
    (hrel : Option.Rel (fun record region => Describes record region.nodes) record region)
    (hput : regionRecord d.store = update (regionRecord h.daemon.store) name record) :
    Inv config ⟨d, update h.accepted name region⟩ := by
  refine ⟨htable, fun n => ?_⟩
  dsimp only
  rw [hput]
  by_cases hn : n = name
  · subst hn
    rw [update_self, update_self]
    exact hrel
  · rw [update_of_ne hn, update_of_ne hn]
    exact hinv.records n

theorem Inv.step (hinv : Inv config h) {e : RegionEvent} (hallow : Recordable h e)
    (hstep : step config h e = some h') : Inv config h' := by
  cases e with
  | create name region =>
    obtain rfl := Option.some.inj hstep
    obtain ⟨hne, hzero, hclear⟩ := hallow
    obtain ⟨htable, ⟨hbad, hsame⟩ | ⟨hok, record, hrecord, hadded⟩⟩ :=
      create_records h.daemon hinv.table hne hzero hclear rfl
    · rw [if_neg hbad]
      exact hinv.keep htable hsame
    · rw [if_pos hok]
      exact hinv.put htable (.some hrecord) hadded
  | destroy name =>
    obtain rfl := Option.some.inj hstep
    obtain ⟨htable, ⟨hbad, hsame⟩ | ⟨hok, hdeleted⟩⟩ := destroy_records h.daemon hinv.table name rfl
    · rw [if_neg hbad]
      exact hinv.keep htable hsame
    · rw [if_pos hok]
      exact hinv.put htable .none hdeleted
  | storeOp op =>
    simp only [RegionHistory.step] at hstep
    split at hstep
    · cases hstep
    · next hother =>
      cases hstep
      obtain ⟨htable, hsame⟩ := hinv.table.other (Bool.eq_false_iff.mpr hother)
      exact hinv.keep htable hsame
  | restart alive fresh o =>
    obtain rfl := Option.some.inj hstep
    obtain ⟨htable, hsame⟩ := hinv.table.restart alive
    have hstore : ((h.daemon.restarted config alive).recovery fresh o).2.store =
        initializeStore config alive h.daemon.store.mem := recovery_store _ fresh o
    exact hinv.keep (hstore ▸ htable) (hstore ▸ hsame)

/-- The pairs that were given for a name. -/
def pairs (h : RegionHistory) (name : Name) : List (UInt32 × Bool) :=
  ((h.accepted name).map ShmRegionDesc.nodes).getD []

theorem pairs_of_accepted (ha : h.accepted name = some region) :
    h.pairs name = region.nodes := by simp [pairs, ha]

/-- The records that the recovery lists. -/
def listed (config : StoreConfig) (alive : UInt32 → Bool) (h : RegionHistory) :
    List CreateRegionInput :=
  listRegionRecord (initializeStore config alive h.daemon.store.mem)

section

variable (hinv : Inv config h) (alive : UInt32 → Bool)

include hinv

theorem Inv.of_listed {record : CreateRegionInput} (hrecord : record ∈ h.listed config alive) :
    ∃ region, h.accepted record.name = some region ∧ Describes record region.nodes := by
  have hfound := (mem_listRegionRecord _ record).mp hrecord
  rw [(hinv.table.restart alive).2] at hfound
  have hrel := hinv.records record.name
  rw [hfound] at hrel
  cases haccepted : h.accepted record.name with
  | none =>
    rw [haccepted] at hrel
    cases hrel
  | some region =>
    rw [haccepted] at hrel
    cases hrel with
    | some hdescribes => exact ⟨region, rfl, hdescribes⟩

theorem Inv.exists_listed (haccepted : h.accepted name = some region) :
    ∃ record ∈ h.listed config alive, record.name = name := by
  have hrel := hinv.records name
  rw [haccepted] at hrel
  cases hfound : regionRecord h.daemon.store name with
  | none =>
    rw [hfound] at hrel
    cases hrel
  | some record =>
    have hname : record.name = name := by
      obtain ⟨e, -, rfl⟩ := Option.map_eq_some_iff.mp hfound
      rfl
    refine ⟨record, (mem_listRegionRecord _ record).mpr ?_, hname⟩
    rw [(hinv.table.restart alive).2, hname, hfound]

theorem Inv.describes :
    ∀ record ∈ h.listed config alive, Describes record (h.pairs record.name) := by
  intro record hrecord
  obtain ⟨region, haccepted, hdescribes⟩ := hinv.of_listed alive hrecord
  rw [pairs_of_accepted haccepted]
  exact hdescribes

theorem Inv.covered_iff (regions : List ShmRegionDesc) :
    (∀ record ∈ h.listed config alive, CoveredBy regions (h.pairs record.name)) ↔
      ∀ name region, h.accepted name = some region → CoveredBy regions region.nodes := by
  constructor
  · intro hall name region haccepted
    obtain ⟨record, hrecord, rfl⟩ := hinv.exists_listed alive haccepted
    rw [← pairs_of_accepted haccepted]
    exact hall record hrecord
  · intro hall record hrecord
    obtain ⟨region, haccepted, -⟩ := hinv.of_listed alive hrecord
    rw [pairs_of_accepted haccepted]
    exact hall record.name region haccepted

theorem Inv.restored {infos : List RegionInfo}
    (hmade : List.Forall₂ (RestoresRecord h.pairs) (h.listed config alive) infos) :
    (RegionDaemon.putRegions infos ∅).1 = true ∧ ∀ name,
      Option.Rel (fun info region => info.name = name ∧
          ∀ p, p ∈ info.region.nodes ↔ p ∈ region.nodes)
        ((RegionDaemon.putRegions infos ∅).2.lookup name) (h.accepted name) := by
  obtain ⟨hof, hfor⟩ := mem_of_restores hmade
  have hnodup : (infos.map RegionInfo.name).Nodup :=
    names_of_restores hmade ▸ nodup_listRegionRecord _
  have hempty : ∀ name, (∅ : Map Name RegionInfo).lookup name = none := AList.lookup_empty
  obtain ⟨hok, hput⟩ := putRegions_spec hnodup fun info _ => hempty info.name
  refine ⟨hok, fun name => ?_⟩
  cases haccepted : h.accepted name with
  | none =>
    have hnone : (RegionDaemon.putRegions infos ∅).2.lookup name = none := by
      rw [Option.eq_none_iff_forall_ne_some]
      intro info hinfo
      rcases (hput name info).mp hinfo with ⟨hmem, rfl⟩ | hsome
      · obtain ⟨record, hrecord, hrestores⟩ := hof info hmem
        obtain ⟨region, hsome, -⟩ := hinv.of_listed alive hrecord
        rw [hrestores.name, hsome] at haccepted
        cases haccepted
      · rw [hempty] at hsome
        cases hsome
    rw [hnone]
    exact .none
  | some region =>
    obtain ⟨record, hrecord, rfl⟩ := hinv.exists_listed alive haccepted
    obtain ⟨info, hinfo, hrestores⟩ := hfor record hrecord
    rw [(hput record.name info).mpr (.inl ⟨hinfo, hrestores.name⟩)]
    refine .some ⟨hrestores.name, fun p => ?_⟩
    rw [hrestores.nodes p, pairs_of_accepted haccepted]

end

end RegionHistory

/-- **Regions are restored.**  In every history whose requests meet the condition, with other uses
of the record store and restarts in between, and for every answer of UBSE: the next recovery
succeeds exactly if UBSE reports regions that have, each in one of them, the nodes of every
region that was accepted; and then the map has those regions under their names, with the pairs
of node and affinity that were given. -/
theorem regions_restored {config : StoreConfig} {alive₀ : UInt32 → Bool} {h : RegionHistory}
    (hrun : Reaches (RegionHistory.step config) RegionHistory.Recordable
      (RegionHistory.start config alive₀) h) (alive : UInt32 → Bool) (fresh : RegionInfo)
    (o : UbseReplies) : let res := (h.daemon.restarted config alive).recovery fresh o
    (res.1 = ubsmOk ↔ ∃ regions, lookupRegionList o = .ok regions ∧
        ∀ name region, h.accepted name = some region → CoveredBy regions region.nodes) ∧
      (res.1 = ubsmOk → ∀ name,
        Option.Rel (fun info region => info.name = name ∧
            ∀ p, p ∈ info.region.nodes ↔ p ∈ region.nodes)
          (res.2.mRegionMap.lookup name) (h.accepted name)) := by
  have hinv : RegionHistory.Inv config h := hrun.invariant (RegionHistory.inv_start config alive₀)
    fun _ _ _ hinv hallow hstep => hinv.step hallow hstep
  obtain ⟨regions, infos, hlookup, hrecover, hresult⟩ | ⟨hnone, hresult⟩ :=
    RegionHistory.recovery_cases (h.daemon.restarted config alive) fresh o
  · obtain ⟨hall, hinfos⟩ := recoverRecords_spec (wellReported_of_lookupRegionList hlookup) fresh
      (hinv.describes alive)
    obtain ⟨hok, hrestored⟩ := hinv.restored alive (hinfos infos hrecover)
    have hregions := (hinv.covered_iff alive regions).mp
      (hall.mp (Option.isSome_of_eq_some hrecover))
    have hcode : ((h.daemon.restarted config alive).recovery fresh o).1 = ubsmOk := by
      rw [hresult]
      exact if_pos hok
    refine ⟨⟨fun _ => ⟨regions, hlookup, hregions⟩, fun _ => hcode⟩, fun _ => ?_⟩
    rw [hresult]
    exact hrestored
  · rw [hresult]
    refine ⟨⟨fun hok => absurd hok mxmErrParamInvalid_ne, ?_⟩,
      fun hok => absurd hok mxmErrParamInvalid_ne⟩
    rintro ⟨regions, hlookup, hregions⟩
    obtain ⟨hall, -⟩ := recoverRecords_spec (wellReported_of_lookupRegionList hlookup) fresh
      (hinv.describes alive)
    have hsome := hall.mpr ((hinv.covered_iff alive regions).mpr hregions)
    have hnone' : recoverRecords fresh regions (h.listed config alive) = none :=
      hnone regions hlookup
    rw [hnone'] at hsome
    cases hsome

/-- UBSE on node 1, which is linked to node 2. -/
def twoNodes : UbseReplies :=
  ⟨0, (0, 1), (0, some [⟨1, 2⟩]), (0, some [⟨1, [97]⟩, ⟨2, [98]⟩])⟩

/-- A description of these nodes. -/
def regionOf (nodes : List (List UInt8 × Bool)) : ShmRegionDesc where
  perfLevel := 0
  type := 0
  num := nodes.length
  affinity i := (nodes.map Prod.snd).getD i false
  nodeId i := (nodes.map Prod.fst).getD i []
  hostName _ := []

/-- The daemon on an empty file, after requests to create regions. -/
def afterRequests (requests : List (Name × ShmRegionDesc)) : RegionHistory :=
  requests.foldl (fun h r => (h.step smallStoreConfig (.create r.1 r.2)).getD h)
    (.start smallStoreConfig fun _ => true)

/-- Its next recovery on the two nodes. -/
def nextRecovery (h : RegionHistory) : Int × RegionDaemon :=
  (h.daemon.restarted smallStoreConfig fun _ => true).recovery ⟨[], 0, regionOf []⟩ twoNodes

/-- What is restored under a name. -/
def restoredNodes (h : RegionHistory) (name : Name) : Option (List (UInt32 × Bool)) :=
  ((nextRecovery h).2.mRegionMap.lookup name).map fun info => info.region.nodes

/-- A region of both nodes is created. -/
def bothNodes : RegionHistory := afterRequests [([97], regionOf [([50], true), ([49], false)])]

theorem regions_restored_two :
    (bothNodes.accepted [97]).isSome = true ∧ (nextRecovery bothNodes).1 = ubsmOk ∧
      Option.Rel (fun info region => info.name = [97] ∧
          ∀ p, p ∈ info.region.nodes ↔ p ∈ region.nodes)
        ((nextRecovery bothNodes).2.mRegionMap.lookup [97]) (bothNodes.accepted [97]) := by
  have hrun : Reaches (RegionHistory.step smallStoreConfig) RegionHistory.Recordable
      (RegionHistory.start smallStoreConfig fun _ => true) bothNodes :=
    Reaches.next (e := .create [97] (regionOf [([50], true), ([49], false)])) .refl
      ⟨by decide, by decide, by decide +kernel⟩ rfl
  have hok : (nextRecovery bothNodes).1 = ubsmOk := by decide +kernel
  exact ⟨by decide +kernel, hok,
    (regions_restored hrun (fun _ => true) ⟨[], 0, regionOf []⟩ twoNodes).2 hok [97]⟩

/-- Regions of node 1 and of node 9, which is not reported. -/
def strayNode : RegionHistory :=
  afterRequests [([97], regionOf [([49], true)]), ([98], regionOf [([57], false)])]

/-- A region that has node 1 with both affinities. -/
def bothAffinities : RegionHistory := afterRequests [([97], regionOf [([49], true), ([49], false)])]

/-- A region without a name. -/
def emptyName : RegionHistory := afterRequests [([], regionOf [([49], true)])]

/-- **Regions are not restored.**  The region of node 9 keeps the region of node 1 from being
restored; of a node with both affinities one is restored; and a region without a name is
accepted and lost. -/
theorem region_not_restored :
    ((strayNode.accepted [97]).isSome = true ∧ (strayNode.accepted [98]).isSome = true ∧
        (lookupRegionList twoNodes).toOption.any (fun regions =>
          CoveredBy regions (regionOf [([49], true)]).nodes) = true ∧
        (nextRecovery strayNode).1 ≠ ubsmOk ∧ restoredNodes strayNode [97] = none) ∧
      ((bothAffinities.accepted [97]).map ShmRegionDesc.nodes = some [(1, true), (1, false)] ∧
        (nextRecovery bothAffinities).1 = ubsmOk ∧
        restoredNodes bothAffinities [97] = some [(1, true)]) ∧
      ((emptyName.accepted []).isSome = true ∧ (nextRecovery emptyName).1 = ubsmOk ∧
        restoredNodes emptyName [] = none) := by
  decide +kernel

end UbsMem
