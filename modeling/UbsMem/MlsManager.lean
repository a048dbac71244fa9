import UbsMem.RecordStore
import UbsMem.StdSet

/-! # The manager of leased memories

`MLSManager` knows the leases of the node: those that a process uses
(`usedMemory_`) and those that were given back and are kept for the next request
(`numaBufferedMemory_`, `fdBufferedMemory_`).  A lease keeps its name when it goes to
the cache and when it is taken from there for another process.

The manager is written over any record store (`LeaseRecords`): each of the five store
operations it uses, through `MLSRepository`, is a function that returns a code and
the new store.
-/
namespace UbsMem

structure MlsMemInfo where
  name : Name
  appContext : AppContext
  size : Nat
  numaId : Int
  memIds : List UInt64
  unitSize : Nat
  perflevel : Nat
  slotId : Nat
  isNuma : Bool
  state : RecordState
  deriving DecidableEq

/-- The operations of the record store that the manager uses. -/
structure LeaseRecords (S : Type) where
  addMemLeaseInput : LeaseMallocInput → S → Int × S
  addMemLeaseResult : Name → LeaseMallocResult → S → Int × S
  updateMemLeaseRecordState : Name → RecordState → S → Int × S
  updateMemLeaseRecord : Name → AppContext → Nat → S → Int × S
  delMemLeaseRecord : Name → S → Int × S

/-- `MLSManager`, with the record store it writes to. -/
structure MlsManager (S : Type) where
  usedMemory : Map Name MlsMemInfo
  numaBufferedMemory : List MlsMemInfo
  fdBufferedMemory : List MlsMemInfo
  isEnableLeaseBuffered : Bool
  maxBufferedMemNum : Nat
  store : S

/-- `MLSMemKey::operator<`; the key of a lease in the cache is its size and name. -/
def mlsMemKeyLt (a b : MlsMemInfo) : Bool :=
  if a.size ≠ b.size then a.size < b.size else a.name < b.name

/-- `GenerateMemName`, by the thread `thread` at the time `timeStamp`. -/
def generateMemName (size thread timeStamp : Nat) : Name :=
  let digits (n : Nat) : Name := (Nat.toDigits 10 n).map fun c => UInt8.ofNat c.toNat
  78 :: digits size ++ 95 :: digits thread ++ 95 :: digits timeStamp

/-- `std::vector::resize`. -/
def resizeIds (ids : List UInt64) (count : Nat) : List UInt64 :=
  ids.take count ++ List.replicate (count - ids.length) 0

namespace MlsManager

variable {S : Type} (rs : LeaseRecords S)

/-- The entry of a name that is in use. -/
def used (m : MlsManager S) (name : Name) : Option MlsMemInfo := m.usedMemory.lookup name

/-- The leases in the cache. -/
def buffered (m : MlsManager S) : List MlsMemInfo := m.numaBufferedMemory ++ m.fdBufferedMemory

/-- Replace or add the entry of a name. -/
def put (m : MlsManager S) (name : Name) (info : MlsMemInfo) : MlsManager S :=
  { m with usedMemory := m.usedMemory.insert name info }

/-- `std::map::insert` into `usedMemory_`: an entry that is there stays. -/
def emplace (m : MlsManager S) (name : Name) (info : MlsMemInfo) : MlsManager S :=
  match m.used name with
  | some _ => m
  | none => m.put name info

/-- Erase the entry of a name. -/
def erase (m : MlsManager S) (name : Name) : MlsManager S :=
  { m with usedMemory := m.usedMemory.erase name }

/-- The store after one of its operations. -/
def withStore (m : MlsManager S) (store : S) : MlsManager S := { m with store := store }

/-- The part of the cache for one kind of memory. -/
def cache (m : MlsManager S) (isNuma : Bool) : List MlsMemInfo :=
  if isNuma then m.numaBufferedMemory else m.fdBufferedMemory

/-- Replace the part of the cache for one kind of memory. -/
def setCache (m : MlsManager S) (isNuma : Bool) (cache : List MlsMemInfo) : MlsManager S :=
  if isNuma then { m with numaBufferedMemory := cache } else { m with fdBufferedMemory := cache }

/-- The search of `ReuseMemInSlotId`: from the first lease that is large enough, the
first one that lies on one of the slots. -/
def findBuffered (cache : List MlsMemInfo) (size : Nat) (slotIds : List Nat) :
    Option MlsMemInfo :=
  (cache.dropWhile fun info => info.size < size).find? fun info => info.slotId ∈ slotIds

def reuseMemInSlotId (size : Nat) (isNuma : Bool) (slotIds : List Nat) (context : AppContext)
    (m : MlsManager S) : Int × Option MlsMemInfo × MlsManager S :=
  match findBuffered (m.cache isNuma) size slotIds with
  | none => (-1, none, m)
  | some bufferInfo =>
    let (ret, store) := rs.updateMemLeaseRecord bufferInfo.name context size m.store
    if ret ≠ 0 then (ret, none, m.withStore store)
    else (0, some bufferInfo,
      (m.withStore store).setCache isNuma (setErase mlsMemKeyLt bufferInfo (m.cache isNuma)))

/-- `ReuseBufferedMem`, when `GetRegionInfo` answers `region`: the code and the lease. -/
def reuseBufferedMem (size : Nat) (isNuma : Bool) (region : Int × List Nat) (context : AppContext)
    (m : MlsManager S) : (Int × Option MlsMemInfo) × MlsManager S :=
  if !m.isEnableLeaseBuffered then ((-1, none), m)
  else if region.1 ≠ 0 then ((region.1, none), m)
  else
    match reuseMemInSlotId rs size isNuma region.2 context m with
    | (_, none, m') => ((-1, none), m')
    | (_, some bufferInfo, m') =>
      let info := { bufferInfo with appContext := context, size := size, isNuma := isNuma }
      let m' := m'.emplace info.name info
      if info.unitSize = 0 then ((-1, none), m')
      else if size > 2 ^ 64 - 1 - info.unitSize then ((-1, none), m')
      else
        let unitCount := (size + info.unitSize - 1) / info.unitSize
        ((0, some { info with memIds := resizeIds info.memIds unitCount }), m')

/-- `BufferUsedMemory`: 1 when the lease went to the cache. -/
def bufferUsedMemory (usedInfo : MlsMemInfo) (m : MlsManager S) : Int × MlsManager S :=
  let context := { usedInfo.appContext with pid := 0 }
  let newSize := usedInfo.unitSize * usedInfo.memIds.length % 2 ^ 64
  if (m.cache usedInfo.isNuma).length < m.maxBufferedMemNum then
    let (ret, store) := rs.updateMemLeaseRecord usedInfo.name context newSize m.store
    if ret ≠ 0 then (ret, m.withStore store)
    else
      let info := { usedInfo with appContext := context, size := newSize }
      (1, (m.withStore store).setCache usedInfo.isNuma
        (setInsert mlsMemKeyLt info (m.cache usedInfo.isNuma)))
  else (0, m)

/-- The end of `PreDeleteUsedMem`: the record is marked. -/
def markPreDel (name : Name) (m : MlsManager S) : Int × MlsManager S :=
  let (ret, store) := rs.updateMemLeaseRecordState name .preDel m.store
  (ret, m.withStore store)

def preDeleteUsedMem (name : Name) (m : MlsManager S) : Int × MlsManager S :=
  match m.used name with
  | none => (mxmErrLeaseNotFound, m)
  | some info =>
    if m.isEnableLeaseBuffered then
      let (ret, m') := bufferUsedMemory rs info m
      if ret = 1 then (ret, m'.erase name)
      else if ret ≠ 0 then (ret, m')
      else markPreDel rs name m'
    else markPreDel rs name m

def deleteUsedMem (name : Name) (m : MlsManager S) : Int × MlsManager S :=
  match m.used name with
  | none => (mxmErrLeaseNotFound, m)
  | some _ =>
    let (ret, store) := rs.delMemLeaseRecord name m.store
    if ret ≠ 0 then (ret, m.withStore store) else (0, (m.withStore store).erase name)

def listAllMem (m : MlsManager S) : List MlsMemInfo :=
  let used := m.usedMemory.entries.map (·.2)
  if m.isEnableLeaseBuffered then used ++ m.buffered else used

def getUsedMemByName (name : Name) (m : MlsManager S) : Option MlsMemInfo := m.used name

def preAddUsedMem (name : Name) (size : Nat) (usr : AppContext) (isNuma : Bool) (perfLevel : Nat)
    (m : MlsManager S) : Int × MlsManager S :=
  match m.used name with
  | some _ => (mxmErrShmAlreadyExist, m)
  | none =>
    let (ret, store) := rs.addMemLeaseInput
      ⟨!isNuma, name, size, UInt8.ofNat perfLevel, usr, .preAdd⟩ m.store
    if ret ≠ 0 then (mxmErrRecordAdd, m.withStore store)
    else (ubsmOk,
      (m.withStore store).emplace name ⟨name, usr, size, 0, [], 0, perfLevel, 0, isNuma, .preAdd⟩)

def finishAddUsedMem (name : Name) (numaId : Int) (unitSize slotId : Nat) (memIds : List UInt64)
    (m : MlsManager S) : Int × MlsManager S :=
  match m.used name with
  | none => (mxmErrLeaseNotFound, m)
  | some info =>
    let (ret, store) := rs.addMemLeaseResult name ⟨memIds, numaId, unitSize, slotId⟩ m.store
    if ret ≠ 0 then (mxmErrRecordAdd, m.withStore store)
    else (ubsmOk, (m.withStore store).put name { info with
      numaId := numaId, memIds := memIds, unitSize := unitSize, slotId := slotId,
      state := .finish })

def updateMemRecordState (name : Name) (state : RecordState) (m : MlsManager S) :
    Int × MlsManager S :=
  match m.used name with
  | none => (mxmErrLeaseNotFound, m)
  | some info =>
    let (ret, store) := rs.updateMemLeaseRecordState name state m.store
    if ret ≠ 0 then (mxmErrRecordChangeState, m.withStore store)
    else (ubsmOk, (m.withStore store).put name { info with state := state })

/-! ### Entries and cache after each operation -/

/-- The names in the cache. -/
def cachedNames (m : MlsManager S) : List Name := m.buffered.map MlsMemInfo.name

section Entries

variable {S : Type} {rs : LeaseRecords S} {m : MlsManager S} {name : Name}

@[simp] theorem used_put (info : MlsMemInfo) :
    (m.put name info).used = Function.update m.used name (some info) := by
  funext n
  by_cases h : n = name
  · subst h
    simp [put, used]
  · simp [put, used, h]

@[simp] theorem used_erase : (m.erase name).used = Function.update m.used name none := by
  funext n
  by_cases h : n = name
  · subst h
    simp [erase, used]
  · simp [erase, used, h]

@[simp] theorem used_withStore (store : S) : (m.withStore store).used = m.used := rfl

@[simp] theorem used_setCache (isNuma : Bool) (cache : List MlsMemInfo) :
    (m.setCache isNuma cache).used = m.used := by
  cases isNuma <;> rfl

theorem mem_buffered (isNuma : Bool) {info : MlsMemInfo} :
    info ∈ m.buffered ↔ info ∈ m.cache isNuma ∨ info ∈ m.cache (!isNuma) := by
  cases isNuma
  · simpa [buffered, cache] using or_comm
  · simp [buffered, cache]

theorem mem_cachedNames {n : Name} : n ∈ m.cachedNames ↔ ∃ info ∈ m.buffered, info.name = n :=
  List.mem_map

theorem name_eq_of_equivKeys {a b : MlsMemInfo} (h : equivKeys mlsMemKeyLt a b = true) :
    a.name = b.name := by
  unfold equivKeys mlsMemKeyLt at h
  by_cases hsize : a.size = b.size
  · simp only [hsize, ne_eq, not_true_eq_false, if_false, Bool.and_eq_true, Bool.not_eq_true',
      decide_eq_false_iff_not] at h
    exact List.le_antisymm (List.not_lt.mp h.2) (List.not_lt.mp h.1)
  · simp [hsize, Ne.symm hsize] at h
    omega

theorem equivKeys_self (a : MlsMemInfo) : equivKeys mlsMemKeyLt a a = true := by
  simp [equivKeys, mlsMemKeyLt]

end Entries

end MlsManager
end UbsMem
