import UbsMem.AddressSpace
import UbsMem.ShmHandlers
import UbsMem.ShmMetaDataMgr

/-! # Mapping and unmapping in an application

`UbsMemShmMmap` checks its arguments against the tables of mapped objects, asks the daemon for
the object, sets a range of addresses aside or takes the one it is given, maps the segments of
the object into it, and records the mapping.  `UbsMemShmUnmmap` finds the object of an address,
replaces the mapping by an empty one, tells the daemon, removes the record and unmaps the range;
it holds the operation lock of the name, `UbsMemShmMmap` does not.

The calls run next to each other in several threads.  Each method of the tables, each system
call and each request to the daemon is one step.
-/
namespace UbsMem

open Function

def mxmErrMmapVaFailed : Int := 105

def hugePages2M : Nat := 2 * 1024 * 1024

def mxmErrCheckResource : Int := 106

def mxmErrShmObmmOpen : Int := 604

theorem mxmErrMmapVaFailed_ne : mxmErrMmapVaFailed ≠ ubsmOk := by decide

theorem mxmErrShmObmmOpen_ne : mxmErrShmObmmOpen ≠ ubsmOk := by decide

/-! ### The arguments and the reply of the daemon -/

def oRdonly : Int := 0

def oRdwr : Int := 2

/-- `IpcCallShmMap` when the transport returns `hr` with a response. -/
def ipcCallShmMap (hr : Int) (response : ShmMapResponse) : Int :=
  if hr ≠ ubsmOk then hr
  else if response.errCode ≠ ubsmOk then response.errCode
  else if response.memIds = [] then mxmErrCheckResource
  else if response.shmSize = 0 then mxmErrCheckResource
  else if response.unitSize = 0 then mxmErrCheckResource
  else if response.oflag ≠ oRdonly ∧ response.oflag ≠ oRdwr then mxmErrCheckResource
  else ubsmOk

/-- The arguments of `UbsMemShmMmap`; `hasLocalPtr` says that `local_ptr` is not null. -/
structure MmapArgs where
  start : Nat
  mapSize : Nat
  prot : Nat
  flags : Nat
  name : Name
  off : Int
  hasLocalPtr : Bool

def getOwnStatus (prot : Nat) : Option ShmOwnStatus :=
  if prot = 0 then some .unaccess
  else if prot = 1 then some .read
  else if prot = 2 then some .write
  else if prot = 3 then some .readWrite
  else none

def convertToFileMode : ShmOwnStatus → UInt32
  | .write => 0o200
  | .read => 0o400
  | .readWrite => 0o600
  | .unaccess => 0

/-- `MapWithFixedFlags`: `MAP_FIXED` or `MAP_FIXED_NOREPLACE`. -/
def mapWithFixedFlags (flags : Nat) : Bool :=
  flags &&& 0x10 = 0x10 || flags &&& 0x100000 = 0x100000

/-- The object is mapped with huge pages. -/
def hasHugePages (flag : UInt64) : Bool := flag &&& 0x20 = 0x20

/-- The request of a mapping. -/
def MmapArgs.request (args : MmapArgs) (status : ShmOwnStatus) : ShmMapRequest :=
  ⟨args.name, args.mapSize, convertToFileMode status, .ofNat args.prot⟩

theorem errCode_of_ipcCallShmMap {hr : Int} {response : ShmMapResponse}
    (h : ipcCallShmMap hr response = ubsmOk) : response.errCode = ubsmOk := by
  by_contra hcode
  unfold ipcCallShmMap at h
  split at h
  · next htransport => exact htransport h
  · exact hcode h

/-! ### The calls -/

/-- What a call of the library does to the tables, the daemon and the system. -/
inductive ShmAppCall
  | getAddr (name : Name)
  | hasOverlapWithKnownVmas (start stop : Nat)
  | getNameByAddr (start : Nat)
  | getShmMetaFromName (name : Name)
  | addMetaData (name : Name) (addr : Nat) (d : ShmAppMetaData)
  | updateMetaData (name : Name) (d : ShmAppMetaData)
  | removeMetaData (start : Nat) (name : Name)
  | lockMeta (name : Name)
  | unlockMeta (name : Name)
  | shmMap (req : ShmMapRequest)
  | shmUnMap (name : Name)
  | memoryMap (addr len prot flags : Nat) (fd : Int) (offset : Nat)
  | memoryMapAligned (len align : Nat)
  | memoryUnMap (addr len : Nat)
  | obmmOpen (memId openFlag : UInt64) (oflag : Int)
  | close (fd : Int)

/-- The replies: a mapping is at an address or has failed. -/
@[reducible] def ShmAppCall.Reply : ShmAppCall → Type
  | .getAddr _ => Nat
  | .hasOverlapWithKnownVmas _ _ => Bool
  | .getNameByAddr _ => Except Int Name
  | .getShmMetaFromName _ => Except Int ShmAppMetaData
  | .lockMeta _ => Unit
  | .unlockMeta _ => Unit
  | .shmMap _ => Int × ShmMapResponse
  | .memoryMap .. => Option Nat
  | .memoryMapAligned _ _ => Option Nat
  | _ => Int

/-- Programs of the library. -/
abbrev ShmAppProg := Prog ShmAppCall ShmAppCall.Reply

namespace ShmApp

/-- One call. -/
def ask (c : ShmAppCall) : ShmAppProg c.Reply := .perform c

theorem ask_eq (c : ShmAppCall) : ask c = .call c .ret := rfl

/-! ### `UbsMemShmMmap` -/

/-- `CloseAllFd`: the descriptors, with `-1` for those that are closed. -/
def closeAllFd : List Int → ShmAppProg (List Int)
  | [] => return []
  | fd :: fds => do
    if fd = -1 then
      let rest ← closeAllFd fds
      return fd :: rest
    else
      let ret ← ask (.close fd)
      let rest ← closeAllFd fds
      return (if ret = -1 then fd else -1) :: rest

def rackMemShmMmapParameterCheck (args : MmapArgs) : ShmAppProg Int := do
  let addr ← ask (.getAddr args.name)
  if addr ≠ 0 then return mxmErrParamInvalid
  if args.mapSize = 0 then return mxmErrParamInvalid
  if args.off ≠ 0 then return mxmErrParamInvalid
  if args.prot ≠ 1 ∧ args.prot ≠ 2 ∧ args.prot ≠ 3 ∧ args.prot ≠ 0 then return mxmErrParamInvalid
  if args.start = 0 ∧ mapWithFixedFlags args.flags then return mxmErrParamInvalid
  if args.mapSize > 2 ^ 64 - 1 - args.start then return mxmErrParamInvalid
  if args.start ≠ 0 ∧ mapWithFixedFlags args.flags then
    let overlap ← ask (.hasOverlapWithKnownVmas args.start (args.start + args.mapSize))
    if overlap then return mxmErrParamInvalid
    return ubsmOk
  return ubsmOk

def mapAnonymousMemory (start size : Nat) : ShmAppProg (Int × Nat) := do
  if size = 0 then return (mxmErrParamInvalid, 0)
  match ← ask (.memoryMap start size 0 0x22 (-1) 0) with
  | none => return (mxmErrMmapVaFailed, 0)
  | some addr => return (ubsmOk, addr)

/-- The call of `MemoryMapAligned` in `GetPreAllocateAddressAligned`. -/
def mapAligned (length align : Nat) : ShmAppProg (Int × Nat) := do
  match ← ask (.memoryMapAligned length align) with
  | none => return (mxmErrMmapVaFailed, 0)
  | some addr => return (ubsmOk, addr)

def getPreAllocateAddressAligned (start length flags align : Nat) : ShmAppProg (Int × Nat) := do
  if start = 0 then mapAligned length align
  else if start % hugePages2M ≠ 0 then return (mxmErrParamInvalid, 0)
  else if mapWithFixedFlags flags then return (ubsmOk, start)
  else
    let (ret, addr) ← mapAnonymousMemory start length
    if ret ≠ ubsmOk then return (ret, 0)
    if addr % align ≠ 0 then
      let _ ← ask (.memoryUnMap addr length)
      mapAligned length align
    else return (ubsmOk, addr)

def getPreAllocateAddress (start length flags : Nat) : ShmAppProg (Int × Nat) := do
  if start = 0 then
    let (ret, addr) ← mapAnonymousMemory 0 length
    if ret ≠ ubsmOk then return (mxmErrMmapVaFailed, 0)
    return (ubsmOk, addr)
  else if mapWithFixedFlags flags then return (ubsmOk, start)
  else mapAnonymousMemory start length

/-- The address for a mapping with or without huge pages. -/
def preAllocate (alignment : Nat) (args : MmapArgs) (huge : Bool) : ShmAppProg (Int × Nat) :=
  if huge then getPreAllocateAddressAligned args.start args.mapSize args.flags alignment
  else getPreAllocateAddress args.start args.mapSize args.flags

def mapForEachFd (startAddr length : Nat) (fd : Int) (prot flags offset : Nat) :
    ShmAppProg Int := do
  match ← ask (.memoryMap startAddr length prot flags fd offset) with
  | none => return mxmErrMmapVaFailed
  | some addr => return (if addr ≠ startAddr then mxmErrMmapVaFailed else ubsmOk)

/-- What the segments are mapped with. -/
structure Segments where
  mmapAddr : Nat
  unitSize : Nat
  mmapCount : Nat
  memIds : List UInt64
  openFlag : UInt64
  oflag : Int
  prot : Nat
  flags : Nat

/-- The offset of the segments: `OBMM_MMAP_FLAG_HUGETLB_PMD` or zero. -/
def Segments.offset (g : Segments) : Nat := if hasHugePages g.openFlag then 2 ^ 63 else 0

/-- The address of the segment `i`. -/
def Segments.addr (g : Segments) (i : Nat) : Nat := g.mmapAddr + i * g.unitSize

/-- The length of the segment `i`: the last one takes what is left. -/
def Segments.length (g : Segments) (mapSize i : Nat) : Nat :=
  if i = g.mmapCount - 1 then mapSize - (g.mmapCount - 1) * g.unitSize else g.unitSize

/-- The loop of `RackMemShmMmapByMemID`, over the segments that are left. -/
def mapSegments (g : Segments) : List Nat → ShmAppMetaData → ShmAppProg (Int × ShmAppMetaData)
  | [], d => return (ubsmOk, d)
  | i :: is, d => do
    let fd ← ask (.obmmOpen (g.memIds.getD i 0) g.openFlag g.oflag)
    if fd < 0 then
      let fds ← closeAllFd d.fds
      return (mxmErrShmObmmOpen, { d with fds := fds })
    let ret ← mapForEachFd (g.addr i) (g.length d.mapSize i) fd g.prot g.flags g.offset
    if ret ≠ ubsmOk then
      let fds ← closeAllFd (d.fds ++ [fd])
      return (ret, { d with fds := fds })
    mapSegments g is
      { d with fds := d.fds ++ [fd], addrs := d.addrs ++ [(g.addr i, g.length d.mapSize i)] }

def rackMemShmMmapByMemID (g : Segments) (d : ShmAppMetaData) :
    ShmAppProg (Int × ShmAppMetaData) :=
  if g.mmapCount > g.memIds.length then return (mxmErrParamInvalid, d)
  else mapSegments g (List.range g.mmapCount) { d with fds := [], addrs := [] }

def unMapWhenError (startAddr totalSize : Nat) (name : Name) (d : ShmAppMetaData) :
    ShmAppProg Unit := do
  let _ ← closeAllFd d.fds
  if startAddr = 0 then return
  if totalSize = 0 then return
  let _ ← ask (.memoryUnMap startAddr totalSize)
  let _ ← ask (.shmUnMap name)

/-- An error after the daemon has granted the object: the grant is returned. -/
def giveBack (name : Name) (code : Int) : ShmAppProg (Int × Option Nat) := do
  let _ ← ask (.shmUnMap name)
  return (code, none)

/-- The part of `UbsMemShmMmap` after an address has been set aside. -/
def bindSegments (args : MmapArgs) (response : ShmMapResponse) (mmapAddr : Nat) :
    ShmAppProg (Int × Option Nat) := do
  let flags := if mapWithFixedFlags args.flags then args.flags else args.flags ||| 0x10
  let g : Segments := ⟨mmapAddr, response.unitSize, mmapCount args.mapSize response.unitSize,
    response.memIds, response.flag, response.oflag, args.prot, flags⟩
  let (ret, d) ← rackMemShmMmapByMemID g ⟨args.name, mmapAddr, response.shmSize, response.unitSize,
    [], [], response.flag.toNat, 0, .unaccess⟩
  if ret ≠ ubsmOk then
    let _ ← ask (.memoryUnMap mmapAddr args.mapSize)
    giveBack args.name ret
  else
    let addResult ← ask (.addMetaData args.name mmapAddr d)
    if addResult ≠ ubsmOk then
      unMapWhenError mmapAddr args.mapSize args.name d
      return (addResult, none)
    return (ubsmOk, some mmapAddr)

/-- The part of `UbsMemShmMmap` after the daemon has granted the object. -/
def mapGranted (alignment : Nat) (args : MmapArgs) (response : ShmMapResponse) :
    ShmAppProg (Int × Option Nat) := do
  if response.shmSize = 0 ∨ args.mapSize ≠ response.shmSize then
    giveBack args.name mxmErrParamInvalid
  else if response.unitSize = 0 then giveBack args.name mxmErrCheckResource
  else if hasHugePages response.flag ∧ args.mapSize % alignment ≠ 0 then
    giveBack args.name mxmErrParamInvalid
  else
    let (ret, mmapAddr) ← preAllocate alignment args (hasHugePages response.flag)
    if ret ≠ ubsmOk then giveBack args.name ret
    else bindSegments args response mmapAddr

/-- `UbsMemShmMmap`: the return value, and the address stored to `local_ptr`. -/
def ubsMemShmMmap (alignment : Nat) (args : MmapArgs) : ShmAppProg (Int × Option Nat) := do
  if !args.hasLocalPtr then return (mxmErrParamInvalid, none)
  match getOwnStatus args.prot with
  | none => return (mxmErrParamInvalid, none)
  | some status =>
    let ret ← rackMemShmMmapParameterCheck args
    if ret ≠ ubsmOk then return (mxmErrParamInvalid, none)
    let (hr, response) ← ask (.shmMap (args.request status))
    let ret := ipcCallShmMap hr response
    if ret ≠ ubsmOk then return (ret, none)
    mapGranted alignment args response

/-! ### `UbsMemShmUnmmap` -/

/-- `UbsMemShmUnmmap` under the operation lock, once the metadata are checked. -/
def unmmapChecked (start : Nat) (d : ShmAppMetaData) : ShmAppProg Int := do
  match ← ask (.memoryMap start d.mapSize 0 0x32 (-1) 0) with
  | none => return mxmErrMmapVaFailed
  | some _ =>
    let fds ← closeAllFd d.fds
    let _ ← ask (.updateMetaData d.name { d with fds := fds })
    let ret ← ask (.shmUnMap d.name)
    if ret ≠ ubsmOk then return ret
    let ret ← ask (.removeMetaData start d.name)
    if ret ≠ ubsmOk then return ret
    let _ ← ask (.memoryUnMap start d.mapSize)
    return ret

/-- `UbsMemShmUnmmap` under the operation lock. -/
def unmmapLocked (start size : Nat) (name : Name) : ShmAppProg Int := do
  match ← ask (.getShmMetaFromName name) with
  | .error ret => return ret
  | .ok d =>
    if d.addr ≠ start then return mxmErrShmNotFound
    if d.mapSize ≠ size then return mxmErrParamInvalid
    if d.isLocked ≠ 0 then return mxmErrLockAlreadyLocked
    unmmapChecked start d

def ubsMemShmUnmmap (start size : Nat) : ShmAppProg Int := do
  if start = 0 then return mxmErrParamInvalid
  match ← ask (.getNameByAddr start) with
  | .error ret => return ret
  | .ok name =>
    let _ ← ask (.lockMeta name)
    let ret ← unmmapLocked start size name
    let _ ← ask (.unlockMeta name)
    return ret

/-! ### The calls of a mapping -/

/-- The calls that set memory aside, map it and unmap it. -/
def IsMemoryCall : ShmAppCall → Prop
  | .memoryMap .. => True
  | .memoryMapAligned .. => True
  | .memoryUnMap .. => True
  | .obmmOpen .. => True
  | .close _ => True
  | _ => False

section Calls

open Prog hiding ret call

variable {P : ShmAppCall → Prop}

theorem all_closeAllFd (hP : ∀ fd, P (.close fd)) (fds : List Int) : (closeAllFd fds).All P := by
  induction fds with
  | nil => exact trivial
  | cons fd fds ih =>
    unfold closeAllFd
    split_ifs
    · exact ih.bind fun _ => trivial
    · exact ⟨hP fd, fun _ => ih.bind fun _ => trivial⟩

theorem all_parameterCheck (haddr : ∀ name, P (.getAddr name))
    (hvmas : ∀ start stop, P (.hasOverlapWithKnownVmas start stop)) (args : MmapArgs) :
    (rackMemShmMmapParameterCheck args).All P := by
  simp only [rackMemShmMmapParameterCheck, ask_eq]
  simp [haddr, hvmas]

/-- What the checks of the arguments ensure: the range lies below `2 ^ 64`, and a call that is to
take its address as it is has one. -/
theorem yields_parameterCheck (args : MmapArgs) :
    (rackMemShmMmapParameterCheck args).Yields (fun _ _ => True) fun ret => ret = ubsmOk →
      args.mapSize < 2 ^ 64 ∧ (mapWithFixedFlags args.flags = true → args.start ≠ 0) := by
  simp only [rackMemShmMmapParameterCheck, ask_eq, call_bind, ret_bind]
  intro addr _
  dsimp only
  split_ifs with _ _ _ _ hnull hrange
  · exact fun h => absurd h mxmErrParamInvalid_ne
  · exact fun h => absurd h mxmErrParamInvalid_ne
  · exact fun h => absurd h mxmErrParamInvalid_ne
  · exact fun h => absurd h mxmErrParamInvalid_ne
  · exact fun h => absurd h mxmErrParamInvalid_ne
  · exact fun h => absurd h mxmErrParamInvalid_ne
  · refine fun overlap _ => ?_
    dsimp only
    split_ifs
    · exact fun h => absurd h mxmErrParamInvalid_ne
    · exact fun _ => ⟨by omega, fun hfixed hstart => hnull ⟨hstart, hfixed⟩⟩
  · exact fun _ => ⟨by omega, fun hfixed hstart => hnull ⟨hstart, hfixed⟩⟩

theorem all_preAllocate (hP : ∀ c, IsMemoryCall c → P c) (alignment : Nat) (args : MmapArgs)
    (huge : Bool) : (preAllocate alignment args huge).All P := by
  have haligned : (mapAligned args.mapSize alignment).All P := by
    refine ⟨hP _ trivial, fun r => ?_⟩
    cases r <;> exact trivial
  have hanonymous (start : Nat) : (mapAnonymousMemory start args.mapSize).All P := by
    unfold mapAnonymousMemory
    split_ifs
    · exact trivial
    · refine ⟨hP _ trivial, fun r => ?_⟩
      cases r <;> exact trivial
  unfold preAllocate getPreAllocateAddressAligned getPreAllocateAddress
  split_ifs
  · exact haligned
  · exact trivial
  · exact trivial
  · refine (hanonymous _).bind fun ⟨ret, addr⟩ => ?_
    dsimp only
    split_ifs
    · exact trivial
    · exact ⟨hP _ trivial, fun _ => haligned⟩
    · exact trivial
  · refine (hanonymous _).bind fun ⟨ret, addr⟩ => ?_
    dsimp only
    split_ifs <;> exact trivial
  · exact trivial
  · exact hanonymous _

theorem all_mapSegments (hP : ∀ c, IsMemoryCall c → P c) (g : Segments) (is : List Nat)
    (d : ShmAppMetaData) : (mapSegments g is d).All P := by
  have hclose (fds : List Int) : (closeAllFd fds).All P :=
    all_closeAllFd (fun _ => hP _ trivial) fds
  induction is generalizing d with
  | nil => exact trivial
  | cons i is ih =>
    simp only [mapSegments, mapForEachFd, ask_eq, call_bind, ret_bind]
    refine ⟨hP _ trivial, fun fd => ?_⟩
    dsimp only
    split_ifs
    · exact (hclose _).bind fun _ => trivial
    refine ⟨hP _ trivial, fun r => ?_⟩
    cases r with
    | none => exact (hclose _).bind fun _ => trivial
    | some addr =>
      dsimp only
      split_ifs
      · exact (hclose _).bind fun _ => trivial
      all_goals exact ih _

theorem all_rackMemShmMmapByMemID (hP : ∀ c, IsMemoryCall c → P c) (g : Segments)
    (d : ShmAppMetaData) : (rackMemShmMmapByMemID g d).All P := by
  unfold rackMemShmMmapByMemID
  split_ifs
  · exact trivial
  · exact all_mapSegments hP g _ _

theorem yields_mapSegments (g : Segments) (is : List Nat) (d : ShmAppMetaData) :
    (mapSegments g is d).Yields (fun _ _ => True) fun res => res.1 = ubsmOk →
      ∃ fds : List Int, fds.length = is.length ∧ res.2 = { d with
        fds := d.fds ++ fds
        addrs := d.addrs ++ is.map fun i => (g.addr i, g.length d.mapSize i) } := by
  have hclose (fds : List Int) {code : Int} (hcode : code ≠ ubsmOk)
      (f : List Int → ShmAppMetaData) {Q : Int × ShmAppMetaData → Prop} :
      (closeAllFd fds >>= fun fds => .ret (code, f fds)).Yields (fun _ _ => True)
        fun res => res.1 = ubsmOk → Q res := by
    have hany : (closeAllFd fds).Yields (fun _ _ => True) fun _ => True :=
      yields_of_forall _ fun _ => trivial
    exact hany.bind fun _ _ h => absurd h hcode
  induction is generalizing d with
  | nil => exact fun _ => ⟨[], rfl, by simp⟩
  | cons i is ih =>
    simp only [mapSegments, mapForEachFd, ask_eq, call_bind, ret_bind]
    intro fd _
    dsimp only
    split_ifs
    · exact hclose _ mxmErrShmObmmOpen_ne _
    intro r _
    cases r with
    | none => exact hclose _ mxmErrMmapVaFailed_ne _
    | some addr =>
      dsimp only
      by_cases haddr : addr ≠ g.addr i
      · rw [if_pos haddr]
        exact hclose _ mxmErrMmapVaFailed_ne _
      · rw [if_neg haddr]
        refine (ih _).mono fun res hres hok => ?_
        obtain ⟨fds, hlength, hmeta⟩ := hres hok
        exact ⟨fd :: fds, by simp [hlength], by simp [hmeta]⟩

theorem yields_rackMemShmMmapByMemID {g : Segments} {d : ShmAppMetaData}
    (hcount : g.mmapCount = mmapCount d.mapSize d.unitSize) (haddr : g.mmapAddr = d.addr)
    (hunit : g.unitSize = d.unitSize) (hlocked : d.isLocked = 0)
    (hstatus : d.lockedStatus = .unaccess) :
    (rackMemShmMmapByMemID g d).Yields (fun _ _ => True) fun res => res.1 = ubsmOk →
      ∃ fds : List Int, fds.length = mmapCount d.mapSize d.unitSize ∧
        res.2 = shmMmap d.name d.addr d.mapSize d.unitSize fds d.flag := by
  unfold rackMemShmMmapByMemID
  split_ifs
  · exact fun h => absurd h mxmErrParamInvalid_ne
  · refine (yields_mapSegments g _ _).mono fun res hres hok => ?_
    obtain ⟨fds, hlength, hmeta⟩ := hres hok
    rw [List.length_range, hcount] at hlength
    refine ⟨fds, hlength, ?_⟩
    rw [hmeta]
    simp only [shmMmap, Segments.addr, Segments.length, hcount, hlength, haddr, hunit, hlocked,
      hstatus, List.nil_append]
    congr 1
    refine List.map_congr_left fun i _ => ?_
    split_ifs with hlast
    · rw [hlast]
    · rfl

/-- The metadata that are added are those of a mapped object. -/
def AddsMapped (args : MmapArgs) : ShmAppCall → Prop
  | .addMetaData name addr d => name = args.name ∧ args.mapSize < 2 ^ 64 ∧
    ∃ unitSize fds flag, 0 < unitSize ∧ fds.length = mmapCount args.mapSize unitSize ∧
      d = shmMmap name addr args.mapSize unitSize fds flag
  | _ => True

theorem addsMapped_of_memoryCall {args : MmapArgs} {c : ShmAppCall} (hc : IsMemoryCall c) :
    AddsMapped args c := by
  cases c with
  | addMetaData => cases hc
  | _ => trivial

theorem all_addsMapped_bindSegments {args : MmapArgs} {response : ShmMapResponse} (mmapAddr : Nat)
    (hunit : 0 < response.unitSize) (hsize : args.mapSize = response.shmSize)
    (hmax : args.mapSize < 2 ^ 64) :
    (bindSegments args response mmapAddr).All (AddsMapped args) := by
  simp only [bindSegments, ask_eq, call_bind, ret_bind]
  refine (all_rackMemShmMmapByMemID (fun _ => addsMapped_of_memoryCall) _ _).bind_yields
    (yields_rackMemShmMmapByMemID (by rw [hsize]) rfl rfl rfl rfl) fun ⟨ret, d⟩ hd => ?_
  dsimp only at hd ⊢
  split_ifs with hret
  · exact ⟨trivial, fun _ => ⟨trivial, fun _ => trivial⟩⟩
  · obtain ⟨fds, hfds, hmeta⟩ := hd (not_not.mp hret)
    refine ⟨⟨rfl, hmax, response.unitSize, fds, response.flag.toNat, hunit, ?_⟩,
      fun addResult => ?_⟩
    · rw [hsize]
      exact ⟨hfds, hmeta⟩
    · dsimp only
      split_ifs
      · refine ((all_closeAllFd (fun _ => trivial) _).bind fun _ => ?_).bind fun _ => trivial
        split_ifs
        · exact trivial
        · exact trivial
        · exact ⟨trivial, fun _ => ⟨trivial, fun _ => trivial⟩⟩
      · exact trivial

/-- **`UbsMemShmMmap` adds the metadata that the lock calls start from**, with whatever replies. -/
theorem all_addsMapped (alignment : Nat) (args : MmapArgs) :
    (ubsMemShmMmap alignment args).All (AddsMapped args) := by
  have hback (code : Int) : (giveBack args.name code).All (AddsMapped args) :=
    ⟨trivial, fun _ => trivial⟩
  unfold ubsMemShmMmap
  split_ifs
  · exact trivial
  cases getOwnStatus args.prot with
  | none => exact trivial
  | some status =>
    refine (all_parameterCheck (fun _ => trivial) (fun _ _ => trivial) args).bind_yields
      (yields_parameterCheck args) fun ret hchecked => ?_
    split_ifs with hret
    · exact trivial
    simp only [ask_eq, call_bind, ret_bind, mapGranted]
    refine ⟨trivial, fun ⟨hr, response⟩ => ?_⟩
    dsimp only
    split_ifs with _ hsize hunit
    · exact trivial
    · exact hback _
    · exact hback _
    · exact hback _
    · refine (all_preAllocate (fun _ => addsMapped_of_memoryCall) alignment args _).bind
        fun ⟨code, mmapAddr⟩ => ?_
      dsimp only
      split_ifs
      · exact hback code
      · push Not at hsize
        exact all_addsMapped_bindSegments mmapAddr (Nat.pos_of_ne_zero hunit) hsize.2
          (hchecked (not_not.mp hret)).1

end Calls

end ShmApp

/-! ### The process and its system -/

/-- Whose the pages of a process are: of the application, of a call in progress, or of a mapped
object that is recorded. -/
inductive PageOwner
  | app
  | call (t : Nat)
  | object (name : Name)
  deriving DecidableEq

/-- Where the flags of `mmap` let a mapping be placed; `MAP_FIXED_NOREPLACE` counts first. -/
def placement (flags : Nat) : Placement :=
  if flags &&& 0x100000 = 0x100000 then .noReplace
  else if flags &&& 0x10 = 0x10 then .fixed
  else .anywhere

/-- The state of a process: the tables, the pages, the thread by whose request the daemon counts
the process among the users of a name, and the holders of the operation locks. -/
structure ShmAppWorld where
  mgr : ShmMetaDataMgr
  space : AddressSpace PageOwner
  registered : Name → Option Nat
  locks : Nat → Option Nat

namespace ShmAppWorld

/-- A process that has mapped nothing. -/
def start : ShmAppWorld := ⟨.empty, fun _ => none, fun _ => none, fun _ => none⟩

/-- Whose a page is that thread `t` maps: the pages of an object stay its own while the thread
that holds its lock remaps them. -/
def owner (lockOf : Name → Nat) (t : Nat) (s : ShmAppWorld) (p : Nat) : PageOwner :=
  match s.space p with
  | some (.object name) => if s.locks (lockOf name) = some t then .object name else .call t
  | _ => .call t

/-- The daemon has granted the object. -/
def Granted (r : Int × ShmMapResponse) : Prop := r.1 = ubsmOk ∧ r.2.errCode = ubsmOk

instance (r : Int × ShmMapResponse) : Decidable (Granted r) := inferInstanceAs (Decidable (_ ∧ _))

/-- **What each call does**, made by thread `t`.  `lockOf` is the operation lock that a name hashes
to.  The daemon does not grant an object twice; a request that fails may have been carried out
all the same.  The kernel may refuse a mapping, or put it anywhere that its flags allow; memory
from the allocator is not used by another call. -/
def sem (page : Nat) (lockOf : Name → Nat) (t : Nat) :
    (c : ShmAppCall) → ShmAppWorld → c.Reply → ShmAppWorld → Prop
  | .getAddr name, s, r, s' => r = s.mgr.getAddr name ∧ s' = s
  | .hasOverlapWithKnownVmas start stop, s, r, s' =>
    r = s.mgr.hasOverlapWithKnownVmas start stop ∧ s' = s
  | .getNameByAddr start, s, r, s' => r = s.mgr.getNameByAddr start ∧ s' = s
  | .getShmMetaFromName name, s, r, s' => r = s.mgr.getShmMetaFromName name ∧ s' = s
  | .addMetaData name addr d, s, r, s' =>
    r = (s.mgr.addMetaData name addr d).1 ∧
      s' = { s with
        mgr := (s.mgr.addMetaData name addr d).2
        space := if r = ubsmOk then
            s.space.handOver page addr d.mapSize (.call t) (.object name)
          else s.space }
  | .updateMetaData name d, s, r, s' =>
    r = (s.mgr.updateMetaData name d).1 ∧ s' = { s with mgr := (s.mgr.updateMetaData name d).2 }
  | .removeMetaData start name, s, r, s' =>
    r = (s.mgr.removeMetaData start name).1 ∧
      s' = { s with
        mgr := (s.mgr.removeMetaData start name).2
        space := match s.mgr.metas name with
          | some d => if r = ubsmOk then
              s.space.handOver page start d.mapSize (.object name) (.call t)
            else s.space
          | none => s.space }
  | .lockMeta name, s, _, s' =>
    s.locks (lockOf name) = none ∧
      s' = { s with locks := update s.locks (lockOf name) (some t) }
  | .unlockMeta name, s, _, s' =>
    s' = { s with locks := update s.locks (lockOf name) none }
  | .shmMap req, s, r, s' => ∃ user,
    (if Granted r then s.registered req.name = none ∧ user = some t
      else user = s.registered req.name ∨ s.registered req.name = none ∧ user = some t) ∧
      s' = { s with registered := update s.registered req.name user }
  | .shmUnMap name, s, r, s' => ∃ user,
    (if r = ubsmOk then user = none else user = none ∨ user = s.registered name) ∧
      s' = { s with registered := update s.registered name user }
  | .memoryMap addr len _ flags _ _, s, r, s' => ∃ space,
    s.space.Mmap page (placement flags) addr len (s.owner lockOf t) r space ∧
      s' = { s with space := space }
  | .memoryMapAligned len _, s, r, s' =>
    match r with
    | none => s' = s
    | some addr =>
      (∀ p, InPages page addr len p → s.space p = none ∨ s.space p = some .app) ∧
        s' = { s with space := s.space.map page addr len fun _ => .call t }
  | .memoryUnMap addr len, s, r, s' => ∃ space,
    s.space.Munmap page addr len r space ∧ s' = { s with space := space }
  | .obmmOpen _ _ _, s, _, s' => s' = s
  | .close _, s, _, s' => s' = s

/-- A run of the calls of thread `t` against a daemon that grants an object as in `grant`, unless
the process has it, and a kernel that puts mappings without a fixed address at `spot`, for
evaluating programs. -/
def answer (page : Nat) (lockOf : Name → Nat) (grant : Int × ShmMapResponse) (spot t : Nat) :
    (c : ShmAppCall) → ShmAppWorld → Option (c.Reply × ShmAppWorld)
  | .getAddr name, s => some (s.mgr.getAddr name, s)
  | .hasOverlapWithKnownVmas start stop, s => some (s.mgr.hasOverlapWithKnownVmas start stop, s)
  | .getNameByAddr start, s => some (s.mgr.getNameByAddr start, s)
  | .getShmMetaFromName name, s => some (s.mgr.getShmMetaFromName name, s)
  | .addMetaData name addr d, s =>
    let res := s.mgr.addMetaData name addr d
    some (res.1, { s with
      mgr := res.2
      space := if res.1 = ubsmOk then s.space.handOver page addr d.mapSize (.call t) (.object name)
        else s.space })
  | .updateMetaData name d, s =>
    let res := s.mgr.updateMetaData name d
    some (res.1, { s with mgr := res.2 })
  | .removeMetaData start name, s =>
    let res := s.mgr.removeMetaData start name
    some (res.1, { s with
      mgr := res.2
      space := match s.mgr.metas name with
        | some d => if res.1 = ubsmOk then
            s.space.handOver page start d.mapSize (.object name) (.call t)
          else s.space
        | none => s.space })
  | .lockMeta name, s =>
    if s.locks (lockOf name) = none then
      some ((), { s with locks := update s.locks (lockOf name) (some t) })
    else none
  | .unlockMeta name, s =>
    some ((), { s with locks := update s.locks (lockOf name) none })
  | .shmMap req, s =>
    if s.registered req.name = none then
      some (grant, { s with registered := update s.registered req.name (some t) })
    else some ((ubsmOk, .error mxmErrShmAlreadyExist),
      { s with registered := update s.registered req.name (s.registered req.name) })
  | .shmUnMap name, s =>
    some (ubsmOk, { s with registered := update s.registered name none })
  | .memoryMap addr len _ flags _ _, s =>
    let place := placement flags
    let target := if place = .anywhere then spot else addr
    if place = .fixed ∨ s.space.freeTest page target len = true then
      some (some target, { s with space := s.space.map page target len (s.owner lockOf t) })
    else some (none, s)
  | .memoryMapAligned _ _, s => some (none, s)
  | .memoryUnMap addr len, s => some (0, { s with space := s.space.unmap page addr len })
  | .obmmOpen _ _ _, s => some (3, s)
  | .close _, s => some (0, s)

theorem sem_of_answer {page : Nat} {lockOf : Name → Nat} {grant : Int × ShmMapResponse}
    {spot t : Nat} (hgrant : Granted grant) {c : ShmAppCall} {s s' : ShmAppWorld} {r : c.Reply}
    (h : answer page lockOf grant spot t c s = some (r, s')) : sem page lockOf t c s r s' := by
  cases c with
  | lockMeta name =>
    simp only [answer] at h
    split_ifs at h with hfree
    cases h
    exact ⟨hfree, rfl⟩
  | shmMap req =>
    simp only [answer] at h
    split_ifs at h with hnone
    · cases h
      exact ⟨some t, by rw [if_pos hgrant]; exact ⟨hnone, rfl⟩, rfl⟩
    · cases h
      refine ⟨s.registered req.name, ?_, rfl⟩
      exact .inl rfl
  | shmUnMap name =>
    cases h
    exact ⟨none, if_pos rfl ▸ rfl, rfl⟩
  | memoryMap addr len prot flags fd offset =>
    simp only [answer] at h
    generalize htarget : (if placement flags = .anywhere then spot else addr) = target at h
    split_ifs at h with hplace
    · cases h
      refine ⟨_, ⟨rfl, ?_⟩, rfl⟩
      split_ifs with hfixed
      · rw [← htarget, if_neg (by rw [hfixed]; decide)]
      · exact AddressSpace.free_of_freeTest (hplace.resolve_left hfixed)
    · cases h
      exact ⟨s.space, rfl, rfl⟩
  | memoryMapAligned len align =>
    cases h
    rfl
  | memoryUnMap addr len =>
    cases h
    exact ⟨_, rfl, rfl⟩
  | unlockMeta name =>
    cases h
    rfl
  | obmmOpen memId openFlag oflag =>
    cases h
    rfl
  | close fd =>
    cases h
    rfl
  | _ =>
    cases h
    exact ⟨rfl, rfl⟩

end ShmAppWorld
end UbsMem
