import UbsMem.LeaseRecordView
import UbsMem.RegionTopology

/-! # Regions that clients create

`RegionCreateRegion` checks the texts of a description, puts the region into the map of
`RegionManager` and writes a record of it, in which the nodes are bits of a bitmap and
their affinities bits of another.  At the next start `RegionManager::Recovery` lists the
records and looks, for each of them, for a reported region that has all its nodes; the
description that goes into the map is made from that region.

The record store is the one of the other modules.  What UBSE answers at a start, and what
stands in the memory of a `RegionInfo` before it is filled, is given from outside.
-/
namespace UbsMem

structure RegionInfo where
  name : Name
  size : UInt64
  region : ShmRegionDesc

def isBoundedString (value : List UInt8) (capacity : Nat) : Bool := value.length < capacity

def validateRegionDesc (region : ShmRegionDesc) : Bool :=
  if region.num < 0 ∨ region.num > memTopologyMaxHosts ∨ region.num.toNat > ubsMemMaxSlotNum then
    false
  else region.hosts.all fun i =>
    isBoundedString (region.nodeId i) memMaxIdLength &&
      isBoundedString (region.hostName i) maxHostNameDescLength

/-! ### Descriptions and records -/

/-- The loop of `ToNodeIds`: the node ids and the affinities. -/
def toNodeIdsLoop (region : ShmRegionDesc) : List Nat → Option (List UInt32 × List Bool)
  | [] => some ([], [])
  | i :: rest =>
    match strToUint (region.nodeId i) with
    | none => none
    | some node =>
      (toNodeIdsLoop region rest).map fun lists => (node :: lists.1, region.affinity i :: lists.2)

def toNodeIds (region : ShmRegionDesc) : Option (List UInt32 × List Bool) :=
  if region.num < 0 ∨ region.num > memTopologyMaxHosts then none
  else toNodeIdsLoop region region.hosts

/-- The arrays `flag` and `affinity` of `CheckRegionMatched`. -/
structure RegionMarks where
  flag : Nat → Bool
  affinity : Nat → Bool

/-- The inner loop of `CheckRegionMatched`: the place of a node among those without a flag.
There is none if the loop runs to the end, or meets a node id that is no number. -/
def findUnmarked (exampleRegion : ShmRegionDesc) (flag : Nat → Bool) (node : UInt32) :
    List Nat → Option Nat
  | [] => none
  | i :: rest =>
    if flag i then findUnmarked exampleRegion flag node rest
    else
      match strToUint (exampleRegion.nodeId i) with
      | none => none
      | some nodeId => if nodeId = node then some i else findUnmarked exampleRegion flag node rest

/-- Its outer loop. -/
def matchNodes (exampleRegion : ShmRegionDesc) :
    List (UInt32 × Bool) → RegionMarks → Option RegionMarks
  | [], marks => some marks
  | p :: rest, marks =>
    match findUnmarked exampleRegion marks.flag p.1 exampleRegion.hosts with
    | none => none
    | some i =>
      matchNodes exampleRegion rest
        ⟨Function.update marks.flag i true, Function.update marks.affinity i p.2⟩

/-- The loop that copies the nodes with a flag: whether the texts fit, the description
with the nodes, and how many there are. -/
def copyNodes (exampleRegion : ShmRegionDesc) (marks : RegionMarks) :
    List Nat → ShmRegionDesc → Nat → Bool × ShmRegionDesc × Nat
  | [], out, num => (true, out, num)
  | i :: rest, out, num =>
    if !marks.flag i then copyNodes exampleRegion marks rest out num
    else if (exampleRegion.nodeId i).length ≥ memMaxIdLength then
      (false, { out with nodeId := Function.update out.nodeId num [] }, num)
    else
      let out := { out with nodeId := Function.update out.nodeId num (exampleRegion.nodeId i) }
      if (exampleRegion.hostName i).length ≥ maxHostNameDescLength then
        (false, { out with hostName := Function.update out.hostName num [] }, num)
      else
        let out := { out with
          hostName := Function.update out.hostName num (exampleRegion.hostName i)
          affinity := Function.update out.affinity num (marks.affinity i) }
        copyNodes exampleRegion marks rest out (num + 1)

def checkRegionMatched (input : CreateRegionInput) (output : RegionInfo)
    (exampleRegion : ShmRegionDesc) : Bool × RegionInfo :=
  if exampleRegion.num < 0 ∨ exampleRegion.num > memTopologyMaxHosts ∨
      input.nodeIds.length ≠ input.affinity.length ∨
      input.nodeIds.length > exampleRegion.num.toNat then
    (false, output)
  else
    match matchNodes exampleRegion (input.nodeIds.zip input.affinity)
        ⟨fun _ => false, fun _ => false⟩ with
    | none => (false, output)
    | some marks =>
      let region := { output.region with
        perfLevel := exampleRegion.perfLevel, type := exampleRegion.type }
      let copied := copyNodes exampleRegion marks exampleRegion.hosts region 0
      if copied.1 then (true, { output with region := { copied.2.1 with num := copied.2.2 } })
      else (false, { output with region := copied.2.1 })

/-- The loop of `TransRecordToRegionCache`. -/
def matchFirst (input : CreateRegionInput) : List ShmRegionDesc → RegionInfo → Int × RegionInfo
  | [], region => (-1, region)
  | exampleRegion :: rest, region =>
    if (checkRegionMatched input region exampleRegion).1 then
      (0, (checkRegionMatched input region exampleRegion).2)
    else matchFirst input rest (checkRegionMatched input region exampleRegion).2

def transRecordToRegionCache (input : CreateRegionInput) (region : RegionInfo)
    (regions : List ShmRegionDesc) : Int × RegionInfo :=
  matchFirst input regions { region with name := input.name, size := input.size }

/-- The loop of `RegionRepository::Recovery`, where a new `RegionInfo` holds `fresh`. -/
def recoverRecords (fresh : RegionInfo) (regions : List ShmRegionDesc) :
    List CreateRegionInput → Option (List RegionInfo)
  | [] => some []
  | elem :: rest =>
    if (transRecordToRegionCache elem fresh regions).1 ≠ 0 then none
    else (recoverRecords fresh regions rest).map fun infos =>
      (transRecordToRegionCache elem fresh regions).2 :: infos

/-- `RegionRepository::Recovery`. -/
def repositoryRecovery (fresh : RegionInfo) (o : UbseReplies) (store : RecordStore) :
    Option (List RegionInfo) :=
  match lookupRegionList o with
  | .error _ => none
  | .ok regions => recoverRecords fresh regions (listRegionRecord store)

/-! ### The manager -/

/-- `RegionManager` and the record store. -/
structure RegionDaemon where
  mRegionMap : Map Name RegionInfo
  store : RecordStore

namespace RegionDaemon

def updateRegionInfo (d : RegionDaemon) (config : StoreConfig) (region : RegionInfo) :
    Bool × RegionDaemon :=
  match toNodeIds region.region with
  | none => (false, d)
  | some lists =>
    let input : CreateRegionInput := ⟨region.name, region.size, lists.1, lists.2⟩
    let res := storeCall config (.addRegionRecord input) d.store
    (res.1 = 0, { d with store := res.2 })

def createRegionInfo (d : RegionDaemon) (config : StoreConfig) (region : RegionInfo) :
    Bool × RegionDaemon :=
  match d.mRegionMap.lookup region.name with
  | some _ => (false, d)
  | none =>
    let res := updateRegionInfo { d with mRegionMap := d.mRegionMap.insert region.name region }
      config region
    if res.1 then (true, res.2)
    else (false, { res.2 with mRegionMap := res.2.mRegionMap.erase region.name })

def deleteRegionInfo (d : RegionDaemon) (config : StoreConfig) (name : Name) :
    Bool × RegionDaemon :=
  match d.mRegionMap.lookup name with
  | none => (false, d)
  | some region =>
    let res := storeCall config (.delRegionRecord name) d.store
    if res.1 = 0 then (true, ⟨d.mRegionMap.erase name, res.2⟩)
    else (false, ⟨(d.mRegionMap.erase name).insert region.name region, res.2⟩)

def regionCreateRegion (d : RegionDaemon) (config : StoreConfig) (name : Name)
    (region : ShmRegionDesc) : Int × RegionDaemon :=
  if !validateRegionDesc region then (mxmErrParamInvalid, d)
  else
    let res := d.createRegionInfo config ⟨name, 0, region⟩
    (if res.1 then 0 else mxmErrRegionExist, res.2)

def regionDestroyRegion (d : RegionDaemon) (config : StoreConfig) (name : Name) :
    Int × RegionDaemon :=
  let res := d.deleteRegionInfo config name
  (if res.1 then 0 else mxmErrRegionNotExist, res.2)

/-- The loop of `RecoverFromRamFS`. -/
def putRegions : List RegionInfo → Map Name RegionInfo → Bool × Map Name RegionInfo
  | [], regionMap => (true, regionMap)
  | elem :: rest, regionMap =>
    if (regionMap.lookup elem.name).isSome then (false, regionMap)
    else putRegions rest (regionMap.insert elem.name elem)

def recoverFromRamFS (d : RegionDaemon) (fresh : RegionInfo) (o : UbseReplies) :
    Bool × RegionDaemon :=
  match repositoryRecovery fresh o d.store with
  | none => (false, d)
  | some regions =>
    let res := putRegions regions d.mRegionMap
    (res.1, { d with mRegionMap := res.2 })

def recovery (d : RegionDaemon) (fresh : RegionInfo) (o : UbseReplies) : Int × RegionDaemon :=
  let res := d.recoverFromRamFS fresh o
  (if res.1 then ubsmOk else mxmErrParamInvalid, res.2)

/-- The daemon is started again: the record store reads its file, the map is empty. -/
def restarted (d : RegionDaemon) (config : StoreConfig) (alive : UInt32 → Bool) : RegionDaemon :=
  ⟨∅, initializeStore config alive d.store.mem⟩

end RegionDaemon

end UbsMem
