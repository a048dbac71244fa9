import UbsMem.StdSet
import UbsMem.StrUtil

/-! # The regions that UBSE reports

`LookupRegionList` asks UBSE for the own node, the links and the nodes of the cluster.
The first region is the own node, its first neighbour and the neighbours that they share;
the second is the own node and its other neighbours.  Nodes without a host name are left
out.  Whatever UBSE answers, a list that is returned has at most sixteen nodes in each
region, and each of them has a number (`WellReported`).
-/
namespace UbsMem

open List

def memTopologyMaxHosts : Nat := 16

def memMaxIdLength : Nat := 48

def maxHostNameDescLength : Nat := 64

def maxRegionsNum : Nat := 6

def ubsMemMaxSlotNum : Nat := 16

def minNodeNum : Nat := 2

def ubsTopoMaxCpuLinkNum : Nat := 1024

/-- `ERANGE_AND_RESET`, of a copy that does not fit. -/
def erangeAndReset : Int := 162

/-- `SHMRegionDesc`.  A text is the characters of its array before the first zero, all of
them if there is none. -/
structure ShmRegionDesc where
  perfLevel : Int
  type : Int
  num : Int
  affinity : Nat → Bool
  nodeId : Nat → List UInt8
  hostName : Nat → List UInt8

/-- The indices of the nodes. -/
def ShmRegionDesc.hosts (r : ShmRegionDesc) : List Nat := List.range r.num.toNat

/-- A link: `slot_id` and `peer_slot_id`. -/
structure TopoLink where
  slotId : UInt32
  peerSlotId : UInt32

/-- A node: `slot_id` and `host_name`. -/
structure ListedNode where
  slotId : UInt32
  hostName : List UInt8

/-- What UBSE answers: the result of loading it, then of each call, with what the call
gives; no list is a null pointer. -/
structure UbseReplies where
  load : Int
  localNode : Int × UInt32
  links : Int × Option (List TopoLink)
  nodeList : Int × Option (List ListedNode)

def slotLt (a b : UInt32) : Bool := a < b

/-- The sets of neighbours. -/
def neiborNode (links : List TopoLink) : UInt32 → List UInt32 :=
  links.foldl (fun nodes link =>
    let nodes := Function.update nodes link.slotId
      (setInsert slotLt link.peerSlotId (nodes link.slotId))
    Function.update nodes link.peerSlotId (setInsert slotLt link.slotId (nodes link.peerSlotId)))
    fun _ => []

def fillRegionDesc (nodes : List UInt32) : Except Int ShmRegionDesc :=
  if nodes.length > memTopologyMaxHosts then .error mxmErrRegionParamInvalid
  else .ok
    { perfLevel := 0, type := 0, num := nodes.length, affinity := fun _ => false
      nodeId := fun i => (nodes.map fun n => toDecimal n.toNat).getD i []
      hostName := fun _ => [] }

/-- A set of nodes is a region if it is more than the own node. -/
def addRegion (nodes : List UInt32) (regions : List ShmRegionDesc) :
    Except Int (List ShmRegionDesc) :=
  if nodes.length > 1 then (fillRegionDesc nodes).map fun r => regions ++ [r] else .ok regions

/-- The two sets of nodes of `InitializeRegionList`. -/
def regionSets (self : UInt32) (neighbours : UInt32 → List UInt32) (first : UInt32) :
    List UInt32 × List UInt32 :=
  let shared := (neighbours self).filter fun n => n ∈ neighbours first
  let intersection1 := setInsert slotLt first (setInsert slotLt self shared)
  let rest := (neighbours self).filter fun n => n ∉ intersection1
  (intersection1, setInsert slotLt self rest)

def initializeRegionList (o : UbseReplies) : Except Int (List ShmRegionDesc) :=
  if o.localNode.1 ≠ 0 then .error mxmErrUbseInner
  else
    match o.links with
    | (_, none) => .error mxmErrUbseInner
    | (res, some links) =>
      if res ≠ 0 then .error mxmErrUbseInner
      else if links.length > ubsTopoMaxCpuLinkNum then .error mxmErrUbseInner
      else
        -- a node without neighbours is not in the topology
        match neiborNode links o.localNode.2 with
        | [] => .error mxmErrRegionParamInvalid
        | first :: _ =>
          let sets := regionSets o.localNode.2 (neiborNode links) first
          (addRegion sets.1 []).bind fun regions =>
            (addRegion sets.2 regions).bind fun regions =>
              if regions.length = 0 then .error mxmErrRegionParamInvalid else .ok regions

def slotToHostName (nodes : List ListedNode) : UInt32 → Option (List UInt8) :=
  nodes.foldl (fun names node => Function.update names node.slotId (some node.hostName))
    fun _ => none

/-- The error that the loop of `PopulateHostNameMap` returns at a node. -/
def hostError (names : UInt32 → Option (List UInt8)) (r : ShmRegionDesc) (j : Nat) : Option Int :=
  match strToUint (r.nodeId j) with
  | none => some mxmErrParamInvalid
  | some node =>
    match names node with
    | none => none
    | some name => if name.length ≥ maxHostNameDescLength then some erangeAndReset else none

/-- The error that it returns at a region. -/
def regionError (names : UInt32 → Option (List UInt8)) (r : ShmRegionDesc) : Option Int :=
  if r.num < 0 ∨ r.num > memTopologyMaxHosts then some mxmErrRegionParamInvalid
  else r.hosts.findSome? (hostError names r)

/-- The host names of a region. -/
def fillHostNames (names : UInt32 → Option (List UInt8)) (r : ShmRegionDesc) : ShmRegionDesc :=
  { r with hostName := fun j => ((strToUint (r.nodeId j)).bind names).getD (r.hostName j) }

def populateHostNameMap (o : UbseReplies) (regions : List ShmRegionDesc) :
    Except Int (List ShmRegionDesc) :=
  if o.nodeList.1 ≠ 0 then .error mxmErrUbseInner
  else
    match o.nodeList.2 with
    | none => .error mxmErrUbseInner
    | some nodes =>
      if nodes.length = 0 ∨ nodes.length > ubsMemMaxSlotNum then .error mxmErrUbseInner
      else if nodes.length < minNodeNum then .error mxmErrUbseInner
      else if regions.length > maxRegionsNum then .error mxmErrRegionParamInvalid
      else
        match regions.findSome? (regionError (slotToHostName nodes)) with
        | some error => .error error
        | none => .ok (regions.map (fillHostNames (slotToHostName nodes)))

/-- The nodes of a region that `CheckAndCopyRegionStatus` copies. -/
def activeHosts (r : ShmRegionDesc) : List Nat :=
  r.hosts.filter fun j => r.nodeId j ≠ [] ∧ r.hostName j ≠ []

/-- A region with its active nodes. -/
def activeRegion (r : ShmRegionDesc) : ShmRegionDesc where
  perfLevel := r.perfLevel
  type := r.type
  num := (activeHosts r).length
  affinity _ := false
  nodeId i := ((activeHosts r).map r.nodeId).getD i []
  hostName i := ((activeHosts r).map r.hostName).getD i []

def checkAndCopyRegionStatus (regions : List ShmRegionDesc) : Except Int (List ShmRegionDesc) :=
  if regions.length > maxRegionsNum then .error mxmErrParamInvalid
  else if regions.any fun r => r.num > memTopologyMaxHosts then .error mxmErrParamInvalid
  else .ok ((regions.map activeRegion).filter fun r => r.num ≠ 0)

def lookupRegionList (o : UbseReplies) : Except Int (List ShmRegionDesc) :=
  if o.load ≠ 0 then .error o.load
  else
    (initializeRegionList o).bind fun regions =>
      (populateHostNameMap o regions).bind checkAndCopyRegionStatus

/-! ### What a report is -/

/-- A region with at most sixteen nodes, whose texts end in their arrays and whose node ids
are numbers. -/
structure WellReported (r : ShmRegionDesc) : Prop where
  num_nonneg : 0 ≤ r.num
  num_le : r.num ≤ memTopologyMaxHosts
  numbered : ∀ i < r.num.toNat, ∃ n, strToUint (r.nodeId i) = some n
  idFits : ∀ i < r.num.toNat, (r.nodeId i).length < memMaxIdLength
  hostFits : ∀ i < r.num.toNat, (r.hostName i).length < maxHostNameDescLength

variable {nodes : List UInt32} {r : ShmRegionDesc} {regions : List ShmRegionDesc} {o : UbseReplies}

/-- A region that is filled has its node ids as `std::to_string` writes them and no host
names yet. -/
theorem wellReported_of_fillRegionDesc (h : fillRegionDesc nodes = .ok r) : WellReported r := by
  unfold fillRegionDesc at h
  split at h
  · cases h
  · next hfits =>
    cases h
    have hnode : ∀ i < nodes.length, ∃ n : UInt32,
        (nodes.map fun n => toDecimal n.toNat).getD i [] = toDecimal n.toNat := by
      intro i hi
      exact ⟨nodes.get ⟨i, hi⟩, by simp [hi]⟩
    refine ⟨Int.natCast_nonneg _, Int.ofNat_le.mpr (not_lt.mp hfits), ?_, ?_, ?_⟩
    · intro i hi
      obtain ⟨n, hn⟩ := hnode i (by simpa using hi)
      exact ⟨n, (congrArg strToUint hn).trans (strToUint_toDecimal n)⟩
    · intro i hi
      obtain ⟨n, hn⟩ := hnode i (by simpa using hi)
      have hlength := length_toDecimal n
      dsimp only
      rw [hn, memMaxIdLength]
      omega
    · intro i _
      simp [maxHostNameDescLength]

theorem ok_of_bind {α β : Type} {x : Except Int α} {f : α → Except Int β} {b : β}
    (h : x.bind f = .ok b) : ∃ a, x = .ok a ∧ f a = .ok b := by
  cases x with
  | error e => cases h
  | ok a => exact ⟨a, rfl, h⟩

theorem wellReported_of_addRegion {regions' : List ShmRegionDesc}
    (hall : ∀ r ∈ regions, WellReported r) (h : addRegion nodes regions = .ok regions') :
    ∀ r ∈ regions', WellReported r := by
  unfold addRegion at h
  split at h
  · cases hfill : fillRegionDesc nodes with
    | error e =>
      rw [hfill] at h
      cases h
    | ok r =>
      rw [hfill] at h
      cases h
      intro r' hr'
      rcases mem_append.mp hr' with hold | hnew
      · exact hall r' hold
      · rw [mem_singleton.mp hnew]
        exact wellReported_of_fillRegionDesc hfill
  · cases h
    exact hall

theorem wellReported_of_initializeRegionList (h : initializeRegionList o = .ok regions) :
    ∀ r ∈ regions, WellReported r := by
  unfold initializeRegionList at h
  split at h
  · cases h
  split at h
  · cases h
  split at h
  · cases h
  split at h
  · cases h
  split at h
  · cases h
  obtain ⟨regions₁, hfirst, h⟩ := ok_of_bind h
  obtain ⟨regions₂, hsecond, h⟩ := ok_of_bind h
  split at h
  · cases h
  cases h
  exact wellReported_of_addRegion
    (wellReported_of_addRegion (fun r hr => absurd hr not_mem_nil) hfirst) hsecond

theorem WellReported.fillHostNames {names : UInt32 → Option (List UInt8)} (h : WellReported r)
    (hok : regionError names r = none) : WellReported (fillHostNames names r) := by
  refine { h with hostFits := fun i hi => ?_ }
  unfold regionError at hok
  split at hok
  · cases hok
  have hhost := List.findSome?_eq_none_iff.mp hok i (mem_range.mpr hi)
  obtain ⟨n, hn⟩ := h.numbered i hi
  have hold := h.hostFits i hi
  simp only [hostError, hn] at hhost
  simp only [UbsMem.fillHostNames, hn, Option.bind_some]
  cases hname : names n with
  | none => exact hold
  | some name =>
    simp only [hname] at hhost
    split at hhost
    · cases hhost
    · next hshort => exact not_le.mp hshort

theorem WellReported.activeRegion (h : WellReported r) : WellReported (activeRegion r) := by
  have hlength : (activeHosts r).length ≤ r.num.toNat :=
    (length_filter_le _ _).trans_eq (by simp [ShmRegionDesc.hosts])
  have hnode : ∀ i < (activeHosts r).length, ∃ j < r.num.toNat,
      (UbsMem.activeRegion r).nodeId i = r.nodeId j ∧
        (UbsMem.activeRegion r).hostName i = r.hostName j := by
    intro i hi
    have hmem := mem_of_mem_filter ((activeHosts r).getElem_mem hi)
    exact ⟨_, mem_range.mp hmem, by simp [UbsMem.activeRegion, hi],
      by simp [UbsMem.activeRegion, hi]⟩
  have hmax := h.num_le
  refine ⟨Int.natCast_nonneg _, ?_, ?_, ?_, ?_⟩
  · simp only [UbsMem.activeRegion]
    omega
  · intro i hi
    obtain ⟨j, hj, hid, -⟩ := hnode i (by simpa [UbsMem.activeRegion] using hi)
    rw [hid]
    exact h.numbered j hj
  · intro i hi
    obtain ⟨j, hj, hid, -⟩ := hnode i (by simpa [UbsMem.activeRegion] using hi)
    rw [hid]
    exact h.idFits j hj
  · intro i hi
    obtain ⟨j, hj, -, hhost⟩ := hnode i (by simpa [UbsMem.activeRegion] using hi)
    rw [hhost]
    exact h.hostFits j hj

/-- **Every region that is reported is well formed**, whatever UBSE answers. -/
theorem wellReported_of_lookupRegionList (h : lookupRegionList o = .ok regions) :
    ∀ r ∈ regions, WellReported r := by
  unfold lookupRegionList at h
  split at h
  · cases h
  obtain ⟨regions₁, hfirst, h⟩ := ok_of_bind h
  obtain ⟨regions₂, hsecond, h⟩ := ok_of_bind h
  have hfilled : ∀ r ∈ regions₂, WellReported r := by
    have hwell := wellReported_of_initializeRegionList hfirst
    unfold populateHostNameMap at hsecond
    repeat' split at hsecond
    all_goals try cases hsecond
    next hnone =>
      intro r hr
      obtain ⟨r₁, hr₁, rfl⟩ := mem_map.mp hr
      exact (hwell r₁ hr₁).fillHostNames (List.findSome?_eq_none_iff.mp hnone r₁ hr₁)
  unfold checkAndCopyRegionStatus at h
  split at h
  · cases h
  split at h
  · cases h
  cases h
  intro r hr
  obtain ⟨r₁, hr₁, rfl⟩ := mem_map.mp (mem_of_mem_filter hr)
  exact (hfilled r₁ hr₁).activeRegion

end UbsMem
