import UbsMem.MlsManager
import UbsMem.Monitor
import UbsMem.Prog

/-! # Leasing memory

The request handlers `AppMallocMemory` and `AppMallocMemoryWithLoc` as programs over the
calls they make: to `MLSManager`, to the UBSE adapter and to the monitor's queue.  Each
call is atomic; what UBSE replies is left open (`LeaseWorld.sem`).
-/
namespace UbsMem

/-! ### Requests -/

structure AppMallocMemoryRequest where
  size : UInt64
  perflevel : Nat
  isNuma : Bool
  regionName : Name
  deriving DecidableEq

structure AppMallocMemoryWithLocRequest where
  size : UInt64
  isNuma : Bool
  slotId : Nat
  socketId : Nat
  numaId : Nat
  portId : Nat
  deriving DecidableEq

structure AppMallocMemoryResponse where
  errCode : Int
  memIds : List UInt64
  numaId : Int
  isNuma : Bool
  unitSize : Nat
  name : Name
  deriving DecidableEq

def ubsmErrUnimpl : Int := 6013

/-- A response that has not been filled in. -/
def AppMallocMemoryResponse.empty : AppMallocMemoryResponse := ⟨ubsmErrUnimpl, [], 0, false, 0, []⟩

/-- A response in which only the error code is set. -/
def AppMallocMemoryResponse.error (errCode : Int) : AppMallocMemoryResponse :=
  { AppMallocMemoryResponse.empty with errCode := errCode }

structure LeaseMallocParam where
  name : Name
  regionName : Name
  size : Nat
  isNuma : Bool
  distance : Nat
  appContext : AppContext
  deriving DecidableEq

structure LeaseMallocWithLocParam where
  name : Name
  regionName : Name
  size : Nat
  isNuma : Bool
  appContext : AppContext
  slotId : Nat
  socketId : Nat
  numaId : Nat
  portId : Nat
  deriving DecidableEq

/-! ### The UBSE adapter -/

/-- **Everything `LeaseMalloc` learns from outside**, in the order of the calls: whether
the client library could be loaded, the answer of `GetRegionInfo`, whether there was
memory for the slots, the code of the query for the local node, whether the symbol of
the create call is there, the reply to the create call with the description of the
memory, and the clock. -/
structure LeaseMallocReplies where
  initialized : Bool
  region : Int × List Nat
  slotIdsAllocated : Bool
  nodeLocalGet : Int
  fdCreateLoaded : Bool
  create : Int
  numaId : Int
  memIds : List UInt64
  unitSize : Nat
  slotId : Nat
  time : Nat

/-- What `LeaseMalloc` returns and leaves behind: its code and result, the reply to the
create call if it was made, and the key it queues. -/
structure LeaseMallocOutcome where
  code : Int
  result : LeaseMallocResult
  create : Option Int
  delayed : Option DelayRemovedKey

/-- `LeaseMallocResult result{}`. -/
def LeaseMallocResult.empty : LeaseMallocResult := ⟨[], -1, 0, 0⟩

/-- `LeaseMalloc` ends before the create call. -/
def LeaseMallocOutcome.early (code : Int) : LeaseMallocOutcome := ⟨code, .empty, none, none⟩

/-- The create call of `LeaseMalloc` and `LeaseMallocWithLoc`, and what they make of its
reply. -/
def leaseCreate (name : Name) (isNuma : Bool) (appContext : AppContext)
    (replies : LeaseMallocReplies) : LeaseMallocOutcome :=
  if !isNuma && !replies.fdCreateLoaded then .early mxmErrUbseInner
  else if replies.create ≠ ubsSuccess ∧ replies.create ≠ ubsErrTimedOut then
    ⟨if replies.create = ubsErrNotSupported then mxmErrUbseNotSupported else mxmErrUbseInner,
      .empty, some replies.create, none⟩
  else if replies.create = ubsErrTimedOut then
    ⟨ubsErrTimedOut, .empty, some replies.create,
      some (DelayRemovedKey.make replies.time name oneMinuteMs true appContext false isNuma true)⟩
  else if isNuma then
    ⟨ubsSuccess, ⟨[0], replies.numaId, 0, replies.slotId⟩, some replies.create, none⟩
  else
    ⟨ubsSuccess, ⟨replies.memIds, -1, replies.unitSize, replies.slotId⟩, some replies.create, none⟩

def leaseMalloc (param : LeaseMallocParam) (replies : LeaseMallocReplies) : LeaseMallocOutcome :=
  if !replies.initialized then .early mxmErrUbseLib
  else if replies.region.1 ≠ 0 then .early replies.region.1
  else if !replies.slotIdsAllocated then .early mxmErrMallocFail
  else if replies.nodeLocalGet ≠ 0 then .early mxmErrUbseInner
  else leaseCreate param.name param.isNuma param.appContext replies

def leaseMallocWithLoc (param : LeaseMallocWithLocParam) (replies : LeaseMallocReplies) :
    LeaseMallocOutcome :=
  if !replies.initialized then .early mxmErrUbseLib
  else leaseCreate param.name param.isNuma param.appContext replies

/-- The codes `UbseMemAdapter::LeaseFree` makes of the reply to the delete call. -/
def leaseFree (initialized loaded : Bool) (delete : Int) : Int :=
  if !initialized then mxmErrUbseLib
  else if !loaded then mxmErrUbseInner
  else if delete = 0 ∨ delete = ubsEngineErrUnimportSuccess then ubsmOk
  else if delete = ubsEngineErrNotExist then mxmErrLeaseNotExist
  else if delete = ubsErrNotSupported then mxmErrUbseNotSupported
  else mxmErrUbseInner

/-- `UbseMemAdapter::GetTimeOutTaskStatus` for a lease. -/
def getTimeOutTaskStatus (get : Int) (stage : MemStage) : Int × MemStage :=
  if get ≠ 0 then
    (if get = ubsEngineErrNotExist then mxmErrLeaseNotExist else mxmErrUbseInner, .endMark)
  else (ubsmOk, stage)

def fdPermissionChange (initialized : Bool) (ret : Int) : Int :=
  if !initialized then mxmErrUbseLib else if ret ≠ 0 then mxmErrUbseInner else ubsmOk

/-! ### Calls -/

/-- The calls made by the handlers, the cleaner and the handling of exits; `respond` is
the answer to a request for memory. -/
inductive LeaseCall
  | getDelayRemoveRecord (name : Name)
  | addDelayRemoveRecord (key : DelayRemovedKey)
  | eraseKey (key : DelayRemovedKey)
  | generateMemName (size : UInt64)
  | reuseBufferedMem (size : UInt64) (isNuma : Bool) (regionName : Name) (context : AppContext)
  | preAddUsedMem (name : Name) (size : Nat) (usr : AppContext) (isNuma : Bool) (perfLevel : Nat)
  | finishAddUsedMem (name : Name) (numaId : Int) (unitSize slotId : Nat) (memIds : List UInt64)
  | preDeleteUsedMem (name : Name)
  | deleteUsedMem (name : Name)
  | updateMemRecordState (name : Name) (state : RecordState)
  | getUsedMemByName (name : Name)
  | listAllMem
  | leaseMalloc (param : LeaseMallocParam)
  | leaseMallocWithLoc (param : LeaseMallocWithLocParam)
  | leaseFree (name : Name) (isNuma : Bool)
  | fdPermissionChange (name : Name) (appContext : AppContext)
  | getTimeOutTaskStatus (name : Name) (isNuma : Bool)
  | respond

/-- What a call returns. -/
@[reducible] def LeaseCall.Reply : LeaseCall → Type
  | .getDelayRemoveRecord _ => Bool
  | .addDelayRemoveRecord _ | .eraseKey _ | .respond => Unit
  | .generateMemName _ => Name
  | .reuseBufferedMem _ _ _ _ => Int × Option MlsMemInfo
  | .getUsedMemByName _ => Option MlsMemInfo
  | .listAllMem => List MlsMemInfo
  | .leaseMalloc _ | .leaseMallocWithLoc _ => Int × LeaseMallocResult
  | .getTimeOutTaskStatus _ _ => Int × MemStage
  | _ => Int

/-- Programs over these calls. -/
abbrev LeaseProg := Prog LeaseCall LeaseCall.Reply

/-- Make a call. -/
def askLease (c : LeaseCall) : LeaseProg c.Reply := Prog.perform c

@[simp] theorem askLease_eq (c : LeaseCall) : askLease c = .call c .ret := rfl

/-! ### The state the calls work on -/

/-- The manager and the queue, and what is kept beside them: the names under which a
lease exists in UBSE or may still come to exist, the names that have been generated,
and the names that a thread has generated, or has taken from the cache and not put
back, for a request that it has not answered yet. -/
structure LeaseWorld (S : Type) where
  manager : MlsManager S
  monitor : Monitor
  ubse : Name → Bool
  generated : Name → Bool
  creating : Name → Option Nat
  reusing : Name → Option Nat

namespace LeaseWorld

variable {S : Type}

/-- What a create call leaves: a lease exists when it succeeded, and may still come to
exist when it timed out. -/
def created (s : LeaseWorld S) (name : Name) (outcome : LeaseMallocOutcome) : LeaseWorld S :=
  { s with
    monitor := match outcome.delayed with
      | none => s.monitor
      | some key => s.monitor.addDelayRemoveRecord key
    ubse := if outcome.create = some ubsSuccess ∨ outcome.create = some ubsErrTimedOut then
        Function.update s.ubse name true
      else s.ubse }

/-- The thread has answered its request. -/
def answered (s : LeaseWorld S) (t : Nat) : LeaseWorld S :=
  { s with
    creating := fun n => if s.creating n = some t then none else s.creating n
    reusing := fun n => if s.reusing n = some t then none else s.reusing n }

/-- **What each call does**, made by thread `t`.  The replies of UBSE are not
constrained.  A lease that is freed, or reported not to exist, does not exist and will
not come to exist; a delete call that fails may have freed it all the same.  A
generated name is new: it holds the reading of a monotonic clock. -/
def sem (rs : LeaseRecords S) (t : Nat) :
    (c : LeaseCall) → LeaseWorld S → c.Reply → LeaseWorld S → Prop
  | .getDelayRemoveRecord name, s, r, s' => r = s.monitor.getDelayRemoveRecord name ∧ s' = s
  | .addDelayRemoveRecord key, s, _, s' =>
    s' = { s with monitor := s.monitor.addDelayRemoveRecord key }
  | .eraseKey key, s, _, s' => s' = { s with monitor := s.monitor.eraseKey key }
  | .generateMemName size, s, r, s' => ∃ thread < 2 ^ 64, ∃ timeStamp < 2 ^ 64,
    r = UbsMem.generateMemName size.toNat thread timeStamp ∧ s.generated r = false ∧
      s' = { s with
        generated := Function.update s.generated r true
        creating := Function.update s.creating r (some t) }
  | .reuseBufferedMem size isNuma _ context, s, r, s' => ∃ region,
    r = (s.manager.reuseBufferedMem rs size.toNat isNuma region context).1 ∧
      s' = { s with
        manager := (s.manager.reuseBufferedMem rs size.toNat isNuma region context).2
        reusing := match r.2 with
          | none => s.reusing
          | some info => Function.update s.reusing info.name (some t) }
  | .preAddUsedMem name size usr isNuma perfLevel, s, r, s' =>
    r = (s.manager.preAddUsedMem rs name size usr isNuma perfLevel).1 ∧
      s' = { s with manager := (s.manager.preAddUsedMem rs name size usr isNuma perfLevel).2 }
  | .finishAddUsedMem name numaId unitSize slotId memIds, s, r, s' =>
    r = (s.manager.finishAddUsedMem rs name numaId unitSize slotId memIds).1 ∧
      s' = { s with
        manager := (s.manager.finishAddUsedMem rs name numaId unitSize slotId memIds).2 }
  | .preDeleteUsedMem name, s, r, s' => r = (s.manager.preDeleteUsedMem rs name).1 ∧
    s' = { s with
      manager := (s.manager.preDeleteUsedMem rs name).2
      reusing := if r = 1 then Function.update s.reusing name none else s.reusing }
  | .deleteUsedMem name, s, r, s' => r = (s.manager.deleteUsedMem rs name).1 ∧
    s' = { s with manager := (s.manager.deleteUsedMem rs name).2 }
  | .updateMemRecordState name state, s, r, s' =>
    r = (s.manager.updateMemRecordState rs name state).1 ∧
      s' = { s with manager := (s.manager.updateMemRecordState rs name state).2 }
  | .getUsedMemByName name, s, r, s' => r = s.manager.getUsedMemByName name ∧ s' = s
  | .listAllMem, s, r, s' => r = s.manager.listAllMem ∧ s' = s
  | .leaseMalloc param, s, r, s' => ∃ replies,
    r = ((UbsMem.leaseMalloc param replies).code, (UbsMem.leaseMalloc param replies).result) ∧
      s' = s.created param.name (UbsMem.leaseMalloc param replies)
  | .leaseMallocWithLoc param, s, r, s' => ∃ replies,
    r = ((UbsMem.leaseMallocWithLoc param replies).code,
        (UbsMem.leaseMallocWithLoc param replies).result) ∧
      s' = s.created param.name (UbsMem.leaseMallocWithLoc param replies)
  | .leaseFree name _, s, r, s' => ∃ initialized loaded delete freed,
    r = UbsMem.leaseFree initialized loaded delete ∧
      s' = { s with
        ubse := if r = ubsmOk ∨ r = mxmErrLeaseNotExist ∨ freed = true then
            Function.update s.ubse name false
          else s.ubse }
  | .fdPermissionChange _ _, s, r, s' => ∃ initialized ret,
    r = UbsMem.fdPermissionChange initialized ret ∧ s' = s
  | .getTimeOutTaskStatus name _, s, r, s' => ∃ get stage,
    r = UbsMem.getTimeOutTaskStatus get stage ∧
      s' = { s with
        ubse := if r.1 = mxmErrLeaseNotExist ∨ r.2 = .notExist then
            Function.update s.ubse name false
          else s.ubse }
  | .respond, s, _, s' => s' = s.answered t

end LeaseWorld

/-! ### `AppMallocMemory` -/

def rollBackReuseCacheMemory (name : Name) (isNuma : Bool) : LeaseProg Int := do
  let hr ← askLease (.preDeleteUsedMem name)
  if hr = 0 then
    let ret ← askLease (.leaseFree name isNuma)
    if ret ≠ 0 ∧ ret ≠ mxmErrLeaseNotExist then
      let _ ← askLease (.updateMemRecordState name .finish)
      return ret
    let ret ← askLease (.deleteUsedMem name)
    if ret ≠ 0 then return ret
    return ubsmOk
  return ubsmOk

/-- `ReuseCachedLeaseMemory`: the return value and the response. -/
def reuseCachedLeaseMemory (req : AppMallocMemoryRequest) (user : AppContext)
    (response : AppMallocMemoryResponse) : LeaseProg (Int × AppMallocMemoryResponse) := do
  match ← askLease (.reuseBufferedMem req.size req.isNuma req.regionName user) with
  | (ret, none) => return (ret, response)
  | (_, some memory) =>
    let response := ⟨0, memory.memIds, memory.numaId, memory.isNuma, memory.unitSize, memory.name⟩
    if req.isNuma then return (ubsmOk, response)
    let hr ← askLease (.fdPermissionChange memory.name user)
    if hr ≠ 0 then
      let _ ← rollBackReuseCacheMemory memory.name memory.isNuma
      return (hr, { response with errCode := hr })
    return (ubsmOk, response)

def rollBackBorrowNewMemory (name : Name) (isNuma : Bool) : LeaseProg Unit := do
  let _ ← askLease (.updateMemRecordState name .preDel)
  let _ ← askLease (.leaseFree name isNuma)
  let _ ← askLease (.deleteUsedMem name)

/-- The end of `BorrowNewMemory` and `BorrowMemoryWithLender`, once the record of the
lease is there: `create` is their call to UBSE, `unitSizeOf` the unit size they record
for a result. -/
def finishBorrow (name : Name) (size : UInt64) (isNuma : Bool)
    (create : LeaseProg (Int × LeaseMallocResult)) (unitSizeOf : LeaseMallocResult → Nat)
    (response : AppMallocMemoryResponse) : LeaseProg (Int × AppMallocMemoryResponse) := do
  let (hr, result) ← create
  if hr ≠ 0 then
    let _ ← askLease (.deleteUsedMem name)
    return (hr, { response with errCode := hr })
  let hr ← askLease (.finishAddUsedMem name result.numaId (unitSizeOf result) result.slotId
    result.memIds)
  if hr ≠ 0 then
    rollBackBorrowNewMemory name isNuma
    return (hr, { response with errCode := hr })
  return (ubsmOk, ⟨0, result.memIds, result.numaId, result.numaId ≠ -1,
    if result.numaId ≠ -1 then size.toNat else result.unitSize, name⟩)

def borrowNewMemory (req : AppMallocMemoryRequest) (uds : AppContext)
    (response : AppMallocMemoryResponse) : LeaseProg (Int × AppMallocMemoryResponse) := do
  let name ← askLease (.generateMemName req.size)
  let hr ← askLease (.preAddUsedMem name req.size.toNat uds req.isNuma req.perflevel)
  if hr ≠ 0 then return (hr, { response with errCode := hr })
  finishBorrow name req.size req.isNuma
    (askLease (.leaseMalloc ⟨name, req.regionName, req.size.toNat, req.isNuma, req.perflevel, uds⟩))
    (fun result => if req.isNuma then req.size.toNat else result.unitSize) response

def borrowMemory (req : AppMallocMemoryRequest) (uds : AppContext)
    (response : AppMallocMemoryResponse) : LeaseProg (Int × AppMallocMemoryResponse) := do
  let (ret, response) ← reuseCachedLeaseMemory req uds response
  if ret = ubsmOk then return (ret, response)
  borrowNewMemory req uds response

/-- `MxmServerMsgHandle::AppMallocMemory`: the return value and the response, which is
sent at the end. -/
def appMallocMemory (req : AppMallocMemoryRequest) (uds : AppContext) :
    LeaseProg (Int × AppMallocMemoryResponse) := do
  if req.size = 0 then
    askLease .respond
    return (mxmErrParamInvalid, .error mxmErrParamInvalid)
  let res ← borrowMemory req uds .empty
  askLease .respond
  return res

def memDistanceL0 : Nat := 0

def borrowMemoryWithLender (req : AppMallocMemoryWithLocRequest) (uds : AppContext)
    (response : AppMallocMemoryResponse) : LeaseProg (Int × AppMallocMemoryResponse) := do
  let name ← askLease (.generateMemName req.size)
  let ret ← askLease (.preAddUsedMem name req.size.toNat uds req.isNuma memDistanceL0)
  if ret ≠ ubsmOk then return (ret, { response with errCode := ret })
  finishBorrow name req.size req.isNuma
    (askLease (.leaseMallocWithLoc ⟨name, defaultRegion, req.size.toNat, req.isNuma, uds,
      req.slotId, req.socketId, req.numaId, req.portId⟩))
    (fun result => result.unitSize) response

def appMallocMemoryWithLoc (req : AppMallocMemoryWithLocRequest) (uds : AppContext) :
    LeaseProg (Int × AppMallocMemoryResponse) := do
  if req.size = 0 then
    askLease .respond
    return (mxmErrParamInvalid, .error mxmErrParamInvalid)
  let res ← borrowMemoryWithLender req uds .empty
  askLease .respond
  return res

end UbsMem
