import UbsMem.NamedTable
import UbsMem.PoolOwners
import UbsMem.ShmManager

/-! # The record store

`RecordStore` keeps what the daemon must know after a restart in a mapped file: tables
of regions, leases, imported shared memories and references to them, the pool of
memory ids, and the suspended clients.  Beside the file it keeps stacks of idle slots
and maps from names to records, which `Initialize` builds from the file.

An operation is given by its return value, the list of the individual stores it makes
to the file, in program order, and the new stacks and maps (`Plan`); `step` carries
out all of its stores.  The store is taken to be initialized.
-/
namespace UbsMem

open Function

/-! ### The file -/

def regionNodeBitmapCount : Nat := 1024

def regionNodeBitmapU64Size : Nat := 16

/-- `RegionRecord`, after its name. -/
structure RegionFields where
  size : UInt64
  bitmap : Nat → UInt64
  bitmapAffinity : Nat → UInt64

/-- `MemLeaseRecord`, after its name. -/
structure LeaseFields where
  size : Nat
  pid : Nat
  uid : Nat
  gid : Nat
  fdMode : UInt8
  distance : UInt8
  numaId : Int
  unitSize : Nat
  memIdCount : Nat
  memIdBuffer : Nat
  slotId : Nat
  recordState : RecordState

/-- `MemShareImportRecord`, after its name. -/
structure ImportFields where
  shmSize : Nat
  pid : Nat
  uid : Nat
  gid : Nat
  unitSize : Nat
  memIdCount : Nat
  memIdBuffer : Nat
  flag : UInt64
  oflag : Int
  recordState : RecordState

structure MemShareRefRecord where
  pid : UInt32
  shmImportIndex : Nat

/-- The mapped file. -/
structure StoreMem where
  regions : Nat → Named RegionFields
  leases : Nat → Named LeaseFields
  imports : Nat → Named ImportFields
  refs : Nat → MemShareRefRecord
  pool : IdPool
  suspendCount : Nat
  suspendPids : Nat → UInt32

/-- A file of zeros. -/
def StoreMem.zero : StoreMem where
  regions _ := ⟨fun _ => 0, ⟨0, fun _ => 0, fun _ => 0⟩⟩
  leases _ := ⟨fun _ => 0, ⟨0, 0, 0, 0, 0, 0, 0, 0, 0, 0, 0, .preAdd⟩⟩
  imports _ := ⟨fun _ => 0, ⟨0, 0, 0, 0, 0, 0, 0, 0, 0, .preAdd⟩⟩
  refs _ := ⟨0, 0⟩
  pool _ _ := 0
  suspendCount := 0
  suspendPids _ := 0

/-- How many records the tables have. -/
structure StoreConfig where
  regionMax : Nat
  leaseMax : Nat
  importMax : Nat
  refMax : Nat
  lineCount : Nat
  suspendMax : Nat
  /-- A line number fits the 32 bits it has in a head. -/
  lineCount_le : lineCount ≤ 2 ^ 32

/-- The sizes of `record_store_def.h`. -/
def recordStoreConfig : StoreConfig where
  regionMax := 256
  leaseMax := 16384
  importMax := 18432
  refMax := 64 * 18432
  lineCount := 32 * 1024
  suspendMax := 256
  lineCount_le := by decide

/-- Two records of each kind. -/
def smallStoreConfig : StoreConfig where
  regionMax := 2
  leaseMax := 2
  importMax := 2
  refMax := 2
  lineCount := 4
  suspendMax := 2
  lineCount_le := by decide

/-! ### Stores -/

/-- One store to the file. -/
abbrev Store := StoreMem → StoreMem

/-- Carry out stores in order. -/
def StoreMem.write (m : StoreMem) (stores : List Store) : StoreMem :=
  stores.foldl (fun m store => store m) m

/-- Store one character of a name. -/
def Named.setChar {F : Type} (r : Named F) (i : Nat) (c : UInt8) : Named F :=
  { r with name := update r.name i c }

/-- Store one of the other fields. -/
def Named.setField {F : Type} (r : Named F) (f : F → F) : Named F := { r with fields := f r.fields }

/-- A store to a region record. -/
def onRegion (slot : Nat) (f : Named RegionFields → Named RegionFields) : Store := fun m =>
  { m with regions := update m.regions slot (f (m.regions slot)) }

/-- A store to a lease record. -/
def onLease (slot : Nat) (f : Named LeaseFields → Named LeaseFields) : Store := fun m =>
  { m with leases := update m.leases slot (f (m.leases slot)) }

/-- A store to an import record. -/
def onImport (slot : Nat) (f : Named ImportFields → Named ImportFields) : Store := fun m =>
  { m with imports := update m.imports slot (f (m.imports slot)) }

/-- A store to a reference record. -/
def onRef (slot : Nat) (f : MemShareRefRecord → MemShareRefRecord) : Store := fun m =>
  { m with refs := update m.refs slot (f (m.refs slot)) }

/-- A store to the pool. -/
def onPool (s : IdStore) : Store := fun m => { m with pool := m.pool.set s.line s.col s.word }

/-- The changes that `strcpy_s` makes to a record, character by character. -/
def nameChanges {F : Type} (name : Name) : List (Named F → Named F) :=
  (List.range (cBytes name).length).map fun i r => r.setChar i ((cBytes name).getD i 0)

/-- The changes that assignments to fields make to a record. -/
def fieldChanges {F : Type} (fields : List (F → F)) : List (Named F → Named F) :=
  fields.map fun f r => r.setField f

/-- The changes that write a whole record: its name, then its fields. -/
def recordChanges {F : Type} (name : Name) (fields : List (F → F)) : List (Named F → Named F) :=
  nameChanges name ++ fieldChanges fields

/-- The change that marks a record idle: `ClearRegion`, `ClearMemLease`,
`ClearMemShareImport`. -/
def Named.clear {F : Type} (r : Named F) : Named F := r.setChar 0 0

/-- `ClearMemShareRef`. -/
def MemShareRefRecord.clear (r : MemShareRefRecord) : MemShareRefRecord := { r with pid := 0 }

/-! ### Stacks and maps -/

/-- A reference in one of the two maps of references: the slot of the import record,
the process, and the slot of the reference record. -/
structure RefEntry where
  index : Nat
  pid : UInt32
  slot : Nat
  deriving DecidableEq

/-- What the store keeps in memory.  The two maps of references, from import record to
process to slots and from process to import record to slots, are lists of their
entries in the order in which they were added. -/
structure StoreCache where
  regionIdle : List Nat
  leaseIdle : List Nat
  importIdle : List Nat
  refIdle : List Nat
  poolIdle : List Nat
  cachedRegionRecords : Map Name WithMemIdsRecord
  cachedLeaseRecords : Map Name WithMemIdsRecord
  cachedImportShmRecords : Map Name WithMemIdsRecord
  cachedRefShmIdxRecords : List RefEntry
  cachedRefShmPidRecords : List RefEntry

/-- The store: the file, and what it keeps in memory. -/
structure RecordStore where
  mem : StoreMem
  cache : StoreCache

/-- `EraseLastMultiValue`: the last slot under an import record and a process, and the
map without it. -/
def eraseLastMultiValue (l : List RefEntry) (index : Nat) (pid : UInt32) :
    Option Nat × List RefEntry :=
  match l.reverse.find? fun e => e.index = index ∧ e.pid = pid with
  | none => (none, l)
  | some e => (some e.slot, (l.reverse.erase e).reverse)

/-! ### Operations -/

/-- What an operation does: its return value, its stores in program order, and the
stacks and maps after it. -/
structure Plan where
  ret : Int
  stores : List Store
  cache : StoreCache

/-- Refused: nothing is stored. -/
def Plan.refuse (s : RecordStore) : Plan := ⟨-1, [], s.cache⟩

structure CreateRegionInput where
  name : Name
  size : UInt64
  nodeIds : List UInt32
  affinity : List Bool
  deriving DecidableEq

/-- Set the bit of a node in a bitmap. -/
def setNodeBit (bitmap : Nat → UInt64) (node : Nat) : Nat → UInt64 :=
  update bitmap (node / 64) (bitmap (node / 64) ||| (1 <<< UInt64.ofNat (node % 64)))

/-- The stores that set the bits of the nodes. -/
def nodeFields (input : CreateRegionInput) : List (RegionFields → RegionFields) :=
  (input.nodeIds.zip input.affinity).flatMap fun (node, affinity) =>
    (fun f => { f with bitmap := setNodeBit f.bitmap node.toNat }) ::
      if affinity then
        [fun f => { f with bitmapAffinity := setNodeBit f.bitmapAffinity node.toNat }]
      else []

/-- The fields that `AddRegionRecord` stores. -/
def regionInputFields (input : CreateRegionInput) : List (RegionFields → RegionFields) :=
  [fun f => { f with size := input.size }] ++
    (List.range regionNodeBitmapU64Size).map
      (fun i f => { f with bitmap := update f.bitmap i 0 }) ++
    (List.range regionNodeBitmapU64Size).map
      (fun i f => { f with bitmapAffinity := update f.bitmapAffinity i 0 }) ++
    nodeFields input

def addRegionRecord (s : RecordStore) (input : CreateRegionInput) : Plan :=
  if input.name.length ≥ recordNameSize then .refuse s
  else if input.nodeIds.any fun node => node.toNat ≥ regionNodeBitmapCount then .refuse s
  else if input.nodeIds.length ≠ input.affinity.length then .refuse s
  else
    match s.cache.regionIdle.getLast? with
    | none => .refuse s
    | some slot =>
      let stores := (recordChanges input.name (regionInputFields input)).map (onRegion slot)
      let idle := s.cache.regionIdle.dropLast
      match s.cache.cachedRegionRecords.lookup input.name with
      | some _ =>
        ⟨-1, stores ++ [onRegion slot .clear], { s.cache with regionIdle := idle ++ [slot] }⟩
      | none =>
        ⟨0, stores, { s.cache with
          regionIdle := idle
          cachedRegionRecords := s.cache.cachedRegionRecords.insert input.name ⟨slot, []⟩ }⟩

def delRegionRecord (s : RecordStore) (name : Name) : Plan :=
  match s.cache.cachedRegionRecords.lookup name with
  | none => .refuse s
  | some e =>
    ⟨0, [onRegion e.slot .clear], { s.cache with
      regionIdle := s.cache.regionIdle ++ [e.slot]
      cachedRegionRecords := s.cache.cachedRegionRecords.erase name }⟩

structure LeaseMallocInput where
  fdMode : Bool
  name : Name
  size : Nat
  distance : UInt8
  appContext : AppContext
  state : RecordState
  deriving DecidableEq

structure LeaseMallocResult where
  memIds : List UInt64
  numaId : Int
  unitSize : Nat
  slotId : Nat
  deriving DecidableEq

/-- The fields that `AddMemLeaseInput` stores. -/
def leaseInputFields (input : LeaseMallocInput) : List (LeaseFields → LeaseFields) :=
  [fun f => { f with size := input.size },
    fun f => { f with pid := input.appContext.pid },
    fun f => { f with uid := input.appContext.uid },
    fun f => { f with gid := input.appContext.gid },
    fun f => { f with fdMode := if input.fdMode then 1 else 0 },
    fun f => { f with distance := input.distance },
    fun f => { f with memIdCount := 0 },
    fun f => { f with memIdBuffer := 0 },
    fun f => { f with recordState := input.state },
    fun f => { f with numaId := -1 },
    fun f => { f with unitSize := 0 },
    fun f => { f with slotId := 0 }]

def addMemLeaseInput (s : RecordStore) (input : LeaseMallocInput) : Plan :=
  if input.name.length ≥ recordNameSize then .refuse s
  else
    match s.cache.leaseIdle.getLast? with
    | none => .refuse s
    | some slot =>
      let stores := (recordChanges input.name (leaseInputFields input)).map (onLease slot)
      let idle := s.cache.leaseIdle.dropLast
      match s.cache.cachedLeaseRecords.lookup input.name with
      | some _ =>
        ⟨-1, stores ++ [onLease slot .clear], { s.cache with leaseIdle := idle ++ [slot] }⟩
      | none =>
        ⟨0, stores, { s.cache with
          leaseIdle := idle
          cachedLeaseRecords := s.cache.cachedLeaseRecords.insert input.name ⟨slot, []⟩ }⟩

/-- The fields that `AddMemLeaseResult` stores, once the memory ids are in the pool. -/
def leaseResultFields (result : LeaseMallocResult) (memIdHeadIndex : Nat) :
    List (LeaseFields → LeaseFields) :=
  [fun f => { f with recordState := .finish },
    fun f => { f with memIdCount := result.memIds.length },
    fun f => { f with memIdBuffer := memIdHeadIndex },
    fun f => { f with numaId := result.numaId },
    fun f => { f with unitSize := result.unitSize },
    fun f => { f with slotId := result.slotId }]

def addMemLeaseResult (s : RecordStore) (name : Name) (result : LeaseMallocResult) : Plan :=
  match s.cache.cachedLeaseRecords.lookup name with
  | none => .refuse s
  | some e =>
    match allocLines s.cache.poolIdle result.memIds with
    | none => .refuse s
    | some (lines, rest) =>
      ⟨0, (allocStores lines result.memIds).map onPool ++
          (fieldChanges (leaseResultFields result (lines.getD 0 0))).map (onLease e.slot),
        { s.cache with
          poolIdle := rest
          cachedLeaseRecords := s.cache.cachedLeaseRecords.insert name ⟨e.slot, result.memIds⟩ }⟩

def updateMemLeaseRecordState (s : RecordStore) (name : Name) (state : RecordState) : Plan :=
  match s.cache.cachedLeaseRecords.lookup name with
  | none => .refuse s
  | some e =>
    ⟨0, (fieldChanges [fun f => { f with recordState := state }]).map (onLease e.slot), s.cache⟩

/-- The fields that `UpdateMemLeaseRecord` stores. -/
def leaseContextFields (context : AppContext) (size : Nat) : List (LeaseFields → LeaseFields) :=
  [fun f => { f with pid := context.pid },
    fun f => { f with uid := context.uid },
    fun f => { f with gid := context.gid },
    fun f => { f with size := size }]

def updateMemLeaseRecord (s : RecordStore) (name : Name) (context : AppContext) (size : Nat) :
    Plan :=
  match s.cache.cachedLeaseRecords.lookup name with
  | none => .refuse s
  | some e =>
    ⟨0, (fieldChanges (leaseContextFields context size)).map (onLease e.slot), s.cache⟩

def delMemLeaseRecord (config : StoreConfig) (s : RecordStore) (name : Name) : Plan :=
  match s.cache.cachedLeaseRecords.lookup name with
  | none => .refuse s
  | some e =>
    let fields := (s.mem.leases e.slot).fields
    let lines := releasedLines config.lineCount s.mem.pool fields.memIdCount fields.memIdBuffer
    ⟨0, [onLease e.slot .clear, onLease e.slot .clear] ++ (releaseStores lines).map onPool,
      { s.cache with
        leaseIdle := s.cache.leaseIdle ++ [e.slot]
        poolIdle := s.cache.poolIdle ++ lines
        cachedLeaseRecords := s.cache.cachedLeaseRecords.erase name }⟩

structure ShareMemImportInput where
  name : Name
  size : Nat
  pid : Nat
  deriving DecidableEq

/-- The fields that `AddShmImportInput` stores. -/
def importInputFields (input : ShareMemImportInput) : List (ImportFields → ImportFields) :=
  [fun f => { f with shmSize := input.size },
    fun f => { f with pid := input.pid },
    fun f => { f with uid := 0 },
    fun f => { f with gid := 0 },
    fun f => { f with unitSize := 0 },
    fun f => { f with memIdCount := 0 },
    fun f => { f with memIdBuffer := 0 },
    fun f => { f with flag := 0 },
    fun f => { f with oflag := 0 },
    fun f => { f with recordState := .preAdd }]

def addShmImportInput (s : RecordStore) (input : ShareMemImportInput) : Plan :=
  if input.name.length ≥ recordNameSize then .refuse s
  else
    match s.cache.importIdle.getLast? with
    | none => .refuse s
    | some slot =>
      let stores := (recordChanges input.name (importInputFields input)).map (onImport slot)
      let idle := s.cache.importIdle.dropLast
      match s.cache.cachedImportShmRecords.lookup input.name with
      | some _ =>
        ⟨-1, stores ++ [onImport slot .clear], { s.cache with importIdle := idle ++ [slot] }⟩
      | none =>
        ⟨0, stores, { s.cache with
          importIdle := idle
          cachedImportShmRecords :=
            s.cache.cachedImportShmRecords.insert input.name ⟨slot, []⟩ }⟩

/-- The fields that `AddShmImportResult` stores, once the memory ids are in the pool. -/
def importResultFields (result : ShareMemImportResult) (memIdHeadIndex : Nat) :
    List (ImportFields → ImportFields) :=
  [fun f => { f with uid := result.ownerUserId },
    fun f => { f with gid := result.ownerGroupId },
    fun f => { f with memIdCount := result.memIds.length },
    fun f => { f with memIdBuffer := memIdHeadIndex },
    fun f => { f with recordState := .finish },
    fun f => { f with unitSize := result.unitSize },
    fun f => { f with oflag := result.openFlag },
    fun f => { f with flag := result.createFlags }]

def addShmImportResult (s : RecordStore) (name : Name) (result : ShareMemImportResult) : Plan :=
  if name.length ≥ recordNameSize then .refuse s
  else
    match s.cache.cachedImportShmRecords.lookup name with
    | none => .refuse s
    | some e =>
      match allocLines s.cache.poolIdle result.memIds with
      | none => .refuse s
      | some (lines, rest) =>
        ⟨0, (allocStores lines result.memIds).map onPool ++
            (fieldChanges (importResultFields result (lines.getD 0 0))).map (onImport e.slot),
          { s.cache with
            poolIdle := rest
            cachedImportShmRecords :=
              s.cache.cachedImportShmRecords.insert name ⟨e.slot, result.memIds⟩ }⟩

def updateShmImportRecordState (s : RecordStore) (name : Name) (state : RecordState) : Plan :=
  match s.cache.cachedImportShmRecords.lookup name with
  | none => .refuse s
  | some e =>
    ⟨0, (fieldChanges [fun f => { f with recordState := state }]).map (onImport e.slot), s.cache⟩

def delShmImportRecord (config : StoreConfig) (s : RecordStore) (name : Name) : Plan :=
  match s.cache.cachedImportShmRecords.lookup name with
  | none => .refuse s
  | some e =>
    if s.cache.cachedRefShmIdxRecords.any fun r => r.index = e.slot then .refuse s
    else
      let fields := (s.mem.imports e.slot).fields
      let lines := releasedLines config.lineCount s.mem.pool fields.memIdCount fields.memIdBuffer
      ⟨0, [onImport e.slot .clear] ++ (releaseStores lines).map onPool,
        { s.cache with
          importIdle := s.cache.importIdle ++ [e.slot]
          poolIdle := s.cache.poolIdle ++ lines
          cachedImportShmRecords := s.cache.cachedImportShmRecords.erase name }⟩

/-- What the functions on references refuse. -/
def refInvalid (pid : UInt32) (name : Name) : Bool :=
  pid = 0 || name.isEmpty || name.length ≥ recordNameSize

def addShmRefRecord (s : RecordStore) (pid : UInt32) (name : Name) : Plan :=
  if refInvalid pid name then .refuse s
  else
    match s.cache.refIdle.getLast? with
    | none => .refuse s
    | some slot =>
      let idle := s.cache.refIdle.dropLast
      match s.cache.cachedImportShmRecords.lookup name with
      | none => ⟨-1, [onRef slot .clear], { s.cache with refIdle := idle ++ [slot] }⟩
      | some e =>
        ⟨0, [onRef slot fun r => { r with pid := pid },
            onRef slot fun r => { r with shmImportIndex := e.slot }],
          { s.cache with
            refIdle := idle
            cachedRefShmIdxRecords := s.cache.cachedRefShmIdxRecords ++ [⟨e.slot, pid, slot⟩]
            cachedRefShmPidRecords := s.cache.cachedRefShmPidRecords ++ [⟨e.slot, pid, slot⟩] }⟩

def delShmRefRecord (s : RecordStore) (pid : UInt32) (name : Name) : Plan :=
  if refInvalid pid name then .refuse s
  else
    match s.cache.cachedImportShmRecords.lookup name with
    | none => .refuse s
    | some e =>
      let byIndex := eraseLastMultiValue s.cache.cachedRefShmIdxRecords e.slot pid
      let byPid := eraseLastMultiValue s.cache.cachedRefShmPidRecords e.slot pid
      let cache := { s.cache with
        cachedRefShmIdxRecords := byIndex.2
        cachedRefShmPidRecords := byPid.2 }
      -- The second map overwrites what the first has found.
      match byPid.1.or byIndex.1 with
      | none => ⟨-1, [], cache⟩
      | some slot =>
        ⟨0, [onRef slot .clear], { cache with refIdle := cache.refIdle ++ [slot] }⟩

/-- `DelShmRefRecordsByPid`.  The map from import records to slots is unordered: `rank`
says in which order the loop meets its keys. -/
def delShmRefRecordsByPid (s : RecordStore) (pid : UInt32) (rank : Nat → Nat) : Plan :=
  if pid = 0 then .refuse s
  else
    let removed := (s.cache.cachedRefShmPidRecords.filter fun r => r.pid = pid).mergeSort
      fun a b => rank a.index ≤ rank b.index
    let slots := removed.map RefEntry.slot
    ⟨0, slots.map fun slot => onRef slot .clear,
      { s.cache with
        refIdle := s.cache.refIdle ++ slots
        cachedRefShmIdxRecords := s.cache.cachedRefShmIdxRecords.filter fun r =>
          ¬(r.pid = pid ∧ removed.any fun e => e.index = r.index)
        cachedRefShmPidRecords := s.cache.cachedRefShmPidRecords.filter fun r => r.pid ≠ pid }⟩

/-- Greater than zero as a `pid_t`. -/
def positivePid (pid : UInt32) : Bool := 0 < pid.toNat && pid.toNat < 2 ^ 31

/-- The suspended clients in the file. -/
def StoreMem.suspended (m : StoreMem) : List UInt32 := (List.range m.suspendCount).map m.suspendPids

/-- `AddSuspendClient`.  The language leaves open which of its two stores comes first;
the count does here. -/
def addSuspendClient (config : StoreConfig) (s : RecordStore) (pid : UInt32) : Plan :=
  if !positivePid pid then .refuse s
  else if s.mem.suspendCount > config.suspendMax then .refuse s
  else if pid ∈ s.mem.suspended then ⟨0, [], s.cache⟩
  else if s.mem.suspendCount = config.suspendMax then ⟨-2, [], s.cache⟩
  else
    ⟨0, [fun m => { m with suspendCount := s.mem.suspendCount + 1 },
      fun m => { m with
        suspendPids := update m.suspendPids s.mem.suspendCount pid }], s.cache⟩

def delSuspendClient (config : StoreConfig) (s : RecordStore) (pid : UInt32) : Plan :=
  if !positivePid pid then .refuse s
  else if s.mem.suspendCount > config.suspendMax then .refuse s
  else
    match (List.range s.mem.suspendCount).find? fun i => s.mem.suspendPids i = pid with
    | none => ⟨0, [], s.cache⟩
    | some i =>
      ⟨0, [fun m => { m with suspendCount := s.mem.suspendCount - 1 },
        fun m => { m with
          suspendPids := update m.suspendPids i (m.suspendPids m.suspendCount) }],
        s.cache⟩

/-- The operations that change the store. -/
inductive StoreOp
  | addRegionRecord (input : CreateRegionInput)
  | delRegionRecord (name : Name)
  | addMemLeaseInput (input : LeaseMallocInput)
  | addMemLeaseResult (name : Name) (result : LeaseMallocResult)
  | updateMemLeaseRecordState (name : Name) (state : RecordState)
  | updateMemLeaseRecord (name : Name) (context : AppContext) (size : Nat)
  | delMemLeaseRecord (name : Name)
  | addShmImportInput (input : ShareMemImportInput)
  | addShmImportResult (name : Name) (result : ShareMemImportResult)
  | updateShmImportRecordState (name : Name) (state : RecordState)
  | delShmImportRecord (name : Name)
  | addShmRefRecord (pid : UInt32) (name : Name)
  | delShmRefRecord (pid : UInt32) (name : Name)
  | delShmRefRecordsByPid (pid : UInt32) (rank : Nat → Nat)
  | addSuspendClient (pid : UInt32)
  | delSuspendClient (pid : UInt32)

/-- What an operation does in a state. -/
def plan (config : StoreConfig) (s : RecordStore) : StoreOp → Plan
  | .addRegionRecord input => addRegionRecord s input
  | .delRegionRecord name => delRegionRecord s name
  | .addMemLeaseInput input => addMemLeaseInput s input
  | .addMemLeaseResult name result => addMemLeaseResult s name result
  | .updateMemLeaseRecordState name state => updateMemLeaseRecordState s name state
  | .updateMemLeaseRecord name context size => updateMemLeaseRecord s name context size
  | .delMemLeaseRecord name => delMemLeaseRecord config s name
  | .addShmImportInput input => addShmImportInput s input
  | .addShmImportResult name result => addShmImportResult s name result
  | .updateShmImportRecordState name state => updateShmImportRecordState s name state
  | .delShmImportRecord name => delShmImportRecord config s name
  | .addShmRefRecord pid name => addShmRefRecord s pid name
  | .delShmRefRecord pid name => delShmRefRecord s pid name
  | .delShmRefRecordsByPid pid rank => delShmRefRecordsByPid s pid rank
  | .addSuspendClient pid => addSuspendClient config s pid
  | .delSuspendClient pid => delSuspendClient config s pid

/-- An operation is carried out. -/
def RecordStore.step (config : StoreConfig) (s : RecordStore) (op : StoreOp) : RecordStore where
  mem := s.mem.write (plan config s op).stores
  cache := (plan config s op).cache

/-- A sequence of operations. -/
def RecordStore.run (config : StoreConfig) (s : RecordStore) (ops : List StoreOp) : RecordStore :=
  ops.foldl (RecordStore.step config) s

/-! ### `Initialize` -/

/-- `RestoreShmReference`. -/
def restoreRefs (config : StoreConfig) (refs : Nat → MemShareRefRecord) : List RefEntry :=
  ((List.range config.refMax).filter fun i => (refs i).pid ≠ 0).map fun i =>
    ⟨(refs i).shmImportIndex, (refs i).pid, i⟩

/-- The suspended clients that `Initialize` keeps: those that are `alive`, which is what
`kill(pid, 0)` answers. -/
def keepSuspended (config : StoreConfig) (alive : UInt32 → Bool) (m : StoreMem) : List UInt32 :=
  if m.suspendCount > config.suspendMax then []
  else m.suspended.filter fun pid => positivePid pid && alive pid

/-- The array of suspended clients is written again. -/
def StoreMem.setSuspended (m : StoreMem) (pids : List UInt32) : StoreMem :=
  { m with
    suspendCount := pids.length
    suspendPids := fun i => if i < pids.length then pids.getD i 0 else m.suspendPids i }

/-- `memset_s` of the array of suspended clients. -/
def StoreMem.clearSuspended (m : StoreMem) : StoreMem :=
  { m with suspendCount := 0, suspendPids := fun _ => 0 }

/-- The stacks and maps that `Initialize` builds from the file. -/
def restoreStore (config : StoreConfig) (m : StoreMem) : StoreCache where
  regionIdle := restoreIdle config.regionMax fun i => (m.regions i).idle
  leaseIdle := restoreIdle config.leaseMax fun i => (m.leases i).idle
  importIdle := restoreIdle config.importMax fun i => (m.imports i).idle
  refIdle := restoreIdle config.refMax fun i => (m.refs i).pid = 0
  poolIdle := restoreIdleLines config.lineCount m.pool
  cachedRegionRecords := restoreCache config.regionMax m.regions fun _ => some []
  cachedLeaseRecords := restoreCache config.leaseMax m.leases fun f =>
    fillMemIds config.lineCount m.pool f.memIdCount f.memIdBuffer
  cachedImportShmRecords := restoreCache config.importMax m.imports fun f =>
    fillMemIds config.lineCount m.pool f.memIdCount f.memIdBuffer
  cachedRefShmIdxRecords := restoreRefs config m.refs
  cachedRefShmPidRecords := restoreRefs config m.refs

/-- `Initialize` on the bytes of a file. -/
def initializeStore (config : StoreConfig) (alive : UInt32 → Bool) (m : StoreMem) :
    RecordStore where
  mem :=
    if m.suspendCount > config.suspendMax then m.clearSuspended
    else m.setSuspended (keepSuspended config alive m)
  cache := restoreStore config m

/-! ### Answers -/

/-- The bits that are set in a bitmap, in increasing order. -/
def bitmapNodes (bitmap : Nat → UInt64) : List Nat :=
  (List.range regionNodeBitmapU64Size).flatMap fun index =>
    ((List.range 64).filter fun bit => (bitmap index).toNat.testBit bit).map (index * 64 + ·)

/-- What is listed of a region. -/
def convertRegion (name : Name) (fields : RegionFields) : CreateRegionInput :=
  let nodes := bitmapNodes fields.bitmap
  { name := name
    size := fields.size
    nodeIds := nodes.map UInt32.ofNat
    affinity := nodes.map fun n => (fields.bitmapAffinity (n / 64)).toNat.testBit (n % 64) }

def listRegionRecord (s : RecordStore) : List CreateRegionInput :=
  s.cache.cachedRegionRecords.entries.map fun x =>
    convertRegion x.1 (s.mem.regions x.2.slot).fields

def convertMemLease (r : Named LeaseFields) (memIds : List UInt64) :
    LeaseMallocInput × LeaseMallocResult :=
  ({ fdMode := r.fields.fdMode = 1
     name := cString r.name
     size := r.fields.size
     distance := r.fields.distance
     appContext := ⟨r.fields.pid, r.fields.uid, r.fields.gid⟩
     state := r.fields.recordState },
   { memIds := memIds
     numaId := r.fields.numaId
     unitSize := r.fields.unitSize
     slotId := r.fields.slotId })

def listMemLeaseRecord (s : RecordStore) : List (LeaseMallocInput × LeaseMallocResult) :=
  s.cache.cachedLeaseRecords.entries.map fun x =>
    convertMemLease (s.mem.leases x.2.slot) x.2.memIds

structure ShareMemImportInfo where
  name : Name
  size : Nat
  appContext : AppContext
  memIds : List UInt64
  unitSize : Nat
  flag : UInt64
  oflag : Int
  state : RecordState
  deriving DecidableEq

/-- What is listed of an imported shared memory. -/
def convertShmImport (name : Name) (fields : ImportFields) (memIds : List UInt64) :
    ShareMemImportInfo where
  name := name
  size := fields.shmSize
  appContext := ⟨fields.pid, fields.uid, fields.gid⟩
  memIds := memIds
  unitSize := fields.unitSize
  flag := fields.flag
  oflag := fields.oflag
  state := fields.recordState

def listShmImportRecord (s : RecordStore) : List ShareMemImportInfo :=
  s.cache.cachedImportShmRecords.entries.map fun x =>
    convertShmImport x.1 (s.mem.imports x.2.slot).fields x.2.memIds

/-- How many references a process has to a name. -/
def countRefs (m : StoreMem) (refs : List RefEntry) (name : Name) (pid : UInt32) : Nat :=
  refs.countP fun e => cString (m.imports e.index).name = name ∧ e.pid = pid

/-- `ListShmRefRecordNameF`: how often each name is referenced by each process; what is
not in the map counts as zero. -/
def listShmRefRecordNameF (s : RecordStore) (name : Name) (pid : UInt32) : Nat :=
  countRefs s.mem s.cache.cachedRefShmIdxRecords name pid

/-- `ListShmRefRecordPidF`: how often each process references each name. -/
def listShmRefRecordPidF (s : RecordStore) (pid : UInt32) (name : Name) : Nat :=
  countRefs s.mem s.cache.cachedRefShmPidRecords name pid

def listSuspendClients (config : StoreConfig) (s : RecordStore) : List UInt32 :=
  if s.mem.suspendCount > config.suspendMax then [] else s.mem.suspended

end UbsMem
