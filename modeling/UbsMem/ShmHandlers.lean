import UbsMem.Monitor
import UbsMem.Prog
import UbsMem.ShmManager

/-! # Mapping, unmapping and cleaning up shared memory

The request handlers `ShmMap` and `ShmUnmap`, the cleaner of leaked shared memory
and the handling of dead processes, as programs over the calls they make: to
`SHMManager`, to the UBSE adapter, to the monitor's queue and to the mutex of a
name.  Each call is atomic; what UBSE replies is left open (`ShmWorld.sem`).
-/
namespace UbsMem

open Function

/-! ### Data of the requests -/

/-- `ubse_user_info_t`: what the creator of a shared memory stored with it. -/
structure UbseUserInfo where
  uid : Nat
  gid : Nat
  pid : Nat
  mode : UInt32
  flag : UInt64
  seqNo : UInt64
  deriving DecidableEq

/-- `ShmMapRequest`, without the region name, which the handler does not read. -/
structure ShmMapRequest where
  name : Name
  size : Nat
  mode : UInt32
  prot : UInt32
  deriving DecidableEq

structure ShmMapResponse where
  errCode : Int
  memIds : List UInt64
  shmSize : Nat
  unitSize : Nat
  flag : UInt64
  oflag : Int
  deriving DecidableEq

/-- A response in which only the error code is set. -/
def ShmMapResponse.error (errCode : Int) : ShmMapResponse := ⟨errCode, [], 0, 0, 0, 0⟩

/-- What UBSE returns for an attach: the fields the adapter reads, and whether the
memory is exported by the node that imports it. -/
structure AttachDesc where
  shmSize : Nat
  unitSize : Nat
  memIds : List UInt64
  sameNode : Bool
  deriving DecidableEq

def ubsmFlagOnlyImportNoncache : UInt64 := 0x8

/-- The flag `ShmAttach` reports. -/
def attachFlag (flag : UInt64) (desc : AttachDesc) : UInt64 :=
  if flag &&& ubsmFlagOnlyImportNoncache ≠ 0 ∧ desc.sameNode then
    flag &&& ~~~ubsmFlagOnlyImportNoncache
  else flag

/-! ### Calls -/

/-- The calls made by the handlers and the cleaner. -/
inductive ShmCall
  | lock (name : Name)
  | unlock (name : Name)
  | getDelayRemoveRecord (name : Name)
  | addDelayRemoveRecord (key : DelayRemovedKey)
  | eraseKey (key : DelayRemovedKey)
  | getShareMemoryInfo (name : Name)
  | getMemoryUsersCountByName (name : Name)
  | getMemoryUsersByPid (pid : Nat)
  | addMemoryUserInfo (name : Name) (pid : Nat)
  | removeMemoryUserInfo (name : Name) (pid : Nat)
  | prepareAddShareMemoryInfo (name : Name) (size pid : Nat)
  | addFullShareMemoryInfo (name : Name) (pid : Nat) (result : ShareMemImportResult)
  | updateShareMemoryRecordState (name : Name) (state : RecordState)
  | removeMemoryInfo (name : Name) (force : Bool)
  | shmGetUserData (name : Name)
  | shmAttach (name : Name) (info : UbseUserInfo)
  | shmDetach (name : Name)
  | shmDelete (name : Name)
  | getTimeOutShmTaskStatus (name : Name) (isAttach : Bool)

/-- What a call returns. -/
@[reducible] def ShmCall.Reply : ShmCall → Type
  | .lock _ | .unlock _ | .addDelayRemoveRecord _ | .eraseKey _ => Unit
  | .getDelayRemoveRecord _ => Bool
  | .getShareMemoryInfo _ => Option AttachedShareMemory
  | .getMemoryUsersCountByName _ => Nat
  | .getMemoryUsersByPid _ => List AttachedShareMemory
  | .shmGetUserData _ => Int × UbseUserInfo
  | .shmAttach _ _ => Int × AttachDesc
  | .getTimeOutShmTaskStatus _ _ => Int × MemStage × UInt64
  | _ => Int

/-- Programs over these calls. -/
abbrev ShmProg := Prog ShmCall ShmCall.Reply

/-- Make a call. -/
def ask (c : ShmCall) : ShmProg c.Reply := Prog.perform c

@[simp] theorem ask_eq (c : ShmCall) : ask c = .call c .ret := rfl

/-! ### The state the calls work on -/

/-- The manager, the queue, the mutexes with the thread that holds each, and the names
UBSE has attached on this node. -/
structure ShmWorld (S : Type) where
  manager : ShmManager S
  monitor : Monitor
  locks : Nat → Option Nat
  attached : Name → Bool

namespace ShmWorld

variable {S : Type}

/-- The entry of a name. -/
def find (s : ShmWorld S) (name : Name) : Option AttachedShareMemory := s.manager.find name

/-- The processes registered for a name. -/
def users (s : ShmWorld S) (name : Name) : List Nat := s.manager.users name

/-- The key `ShmAttach` queues when UBSE times out. -/
def attachTimeOutKey (now : Nat) (name : Name) (info : UbseUserInfo) : DelayRemovedKey :=
  { DelayRemovedKey.make now name oneMinuteMs false ⟨info.pid, info.uid, info.gid⟩ false false true
    with isAttach := true }

/-- **What each call does**, made by thread `t`.  `mutexOf` is the index into the
mutex array that a name hashes to.  The replies of UBSE are not constrained; an
attach that is acknowledged makes the name attached, and one that is not may still
have done so; a detach that is acknowledged makes it detached. -/
def sem (rs : ShmRecords S) (mutexOf : Name → Nat) (t : Nat) :
    (c : ShmCall) → ShmWorld S → c.Reply → ShmWorld S → Prop
  | .lock name, s, _, s' =>
    s.locks (mutexOf name) = none ∧
      s' = { s with locks := update s.locks (mutexOf name) (some t) }
  | .unlock name, s, _, s' =>
    s' = { s with locks := update s.locks (mutexOf name) none }
  | .getDelayRemoveRecord name, s, r, s' => r = s.monitor.getDelayRemoveRecord name ∧ s' = s
  | .addDelayRemoveRecord key, s, _, s' =>
    s' = { s with monitor := s.monitor.addDelayRemoveRecord key }
  | .eraseKey key, s, _, s' => s' = { s with monitor := s.monitor.eraseKey key }
  | .getShareMemoryInfo name, s, r, s' => r = s.manager.getShareMemoryInfo name ∧ s' = s
  | .getMemoryUsersCountByName name, s, r, s' =>
    r = s.manager.getMemoryUsersCountByName name ∧ s' = s
  | .getMemoryUsersByPid pid, s, r, s' => r = s.manager.getMemoryUsersByPid pid ∧ s' = s
  | .addMemoryUserInfo name pid, s, r, s' =>
    r = (s.manager.addMemoryUserInfo rs name pid).1 ∧
      s' = { s with manager := (s.manager.addMemoryUserInfo rs name pid).2 }
  | .removeMemoryUserInfo name pid, s, r, s' =>
    r = (s.manager.removeMemoryUserInfo rs name pid).1 ∧
      s' = { s with manager := (s.manager.removeMemoryUserInfo rs name pid).2 }
  | .prepareAddShareMemoryInfo name size pid, s, r, s' =>
    r = (s.manager.prepareAddShareMemoryInfo rs name size pid).1 ∧
      s' = { s with manager := (s.manager.prepareAddShareMemoryInfo rs name size pid).2 }
  | .addFullShareMemoryInfo name pid result, s, r, s' =>
    r = (s.manager.addFullShareMemoryInfo rs name pid result).1 ∧
      s' = { s with manager := (s.manager.addFullShareMemoryInfo rs name pid result).2 }
  | .updateShareMemoryRecordState name state, s, r, s' =>
    r = (s.manager.updateShareMemoryRecordState rs name state).1 ∧
      s' = { s with manager := (s.manager.updateShareMemoryRecordState rs name state).2 }
  | .removeMemoryInfo name force, s, r, s' =>
    r = (s.manager.removeMemoryInfo rs name force).1 ∧
      s' = { s with manager := (s.manager.removeMemoryInfo rs name force).2 }
  | .shmGetUserData _, s, _, s' => s' = s
  | .shmAttach name info, s, r, s' => ∃ now attached,
    (if r.1 = ubsmOk then attached = true else attached = true ∨ attached = s.attached name) ∧
      s' = { s with
        monitor := if r.1 = ubsErrTimedOut then
            s.monitor.addDelayRemoveRecord (attachTimeOutKey now name info)
          else s.monitor
        attached := update s.attached name attached }
  | .shmDetach name, s, r, s' => ∃ attached,
    (if r = ubsmOk then attached = false else attached = false ∨ attached = s.attached name) ∧
      s' = { s with attached := update s.attached name attached }
  | .shmDelete _, s, _, s' => s' = s
  | .getTimeOutShmTaskStatus _ _, s, _, s' => s' = s

/-- A run of the calls against a UBSE that acknowledges every attach, detach and
delete and reports `info` as user data, for evaluating programs. -/
def answer (rs : ShmRecords S) (mutexOf : Name → Nat) (info : Name → UbseUserInfo) (t : Nat) :
    (c : ShmCall) → ShmWorld S → Option (c.Reply × ShmWorld S)
  | .lock name, s =>
    if s.locks (mutexOf name) = none then
      some ((), { s with locks := update s.locks (mutexOf name) (some t) })
    else none
  | .unlock name, s => some ((), { s with locks := update s.locks (mutexOf name) none })
  | .getDelayRemoveRecord name, s => some (s.monitor.getDelayRemoveRecord name, s)
  | .addDelayRemoveRecord key, s =>
    some ((), { s with monitor := s.monitor.addDelayRemoveRecord key })
  | .eraseKey key, s => some ((), { s with monitor := s.monitor.eraseKey key })
  | .getShareMemoryInfo name, s => some (s.manager.getShareMemoryInfo name, s)
  | .getMemoryUsersCountByName name, s => some (s.manager.getMemoryUsersCountByName name, s)
  | .getMemoryUsersByPid pid, s => some (s.manager.getMemoryUsersByPid pid, s)
  | .addMemoryUserInfo name pid, s =>
    let res := s.manager.addMemoryUserInfo rs name pid
    some (res.1, { s with manager := res.2 })
  | .removeMemoryUserInfo name pid, s =>
    let res := s.manager.removeMemoryUserInfo rs name pid
    some (res.1, { s with manager := res.2 })
  | .prepareAddShareMemoryInfo name size pid, s =>
    let res := s.manager.prepareAddShareMemoryInfo rs name size pid
    some (res.1, { s with manager := res.2 })
  | .addFullShareMemoryInfo name pid result, s =>
    let res := s.manager.addFullShareMemoryInfo rs name pid result
    some (res.1, { s with manager := res.2 })
  | .updateShareMemoryRecordState name state, s =>
    let res := s.manager.updateShareMemoryRecordState rs name state
    some (res.1, { s with manager := res.2 })
  | .removeMemoryInfo name force, s =>
    let res := s.manager.removeMemoryInfo rs name force
    some (res.1, { s with manager := res.2 })
  | .shmGetUserData name, s => some ((ubsmOk, info name), s)
  | .shmAttach name _, s =>
    some ((ubsmOk, ⟨4096, 4096, [1], false⟩),
      { s with attached := update s.attached name true })
  | .shmDetach name, s =>
    some (ubsmOk, { s with attached := update s.attached name false })
  | .shmDelete _, s => some (ubsmOk, s)
  | .getTimeOutShmTaskStatus _ _, s => some ((ubsmOk, .exist, 0), s)

theorem sem_of_answer {rs : ShmRecords S} {mutexOf : Name → Nat} {info : Name → UbseUserInfo}
    {t : Nat} {c : ShmCall} {s s' : ShmWorld S} {r : c.Reply}
    (h : answer rs mutexOf info t c s = some (r, s')) : sem rs mutexOf t c s r s' := by
  cases c with
  | lock name =>
    simp only [answer] at h
    split_ifs at h with hfree
    cases h
    exact ⟨hfree, rfl⟩
  | shmAttach name _ =>
    cases h
    exact ⟨0, true, rfl, rfl⟩
  | shmDetach name =>
    cases h
    exact ⟨false, rfl, rfl⟩
  | unlock name | addDelayRemoveRecord key | eraseKey key | shmGetUserData name | shmDelete name
  | getTimeOutShmTaskStatus name isAttach => cases h; rfl
  | _ =>
    cases h
    exact ⟨rfl, rfl⟩

end ShmWorld

/-- A record store that accepts everything. -/
def acceptAll : ShmRecords Unit where
  addShmImportInput _ _ _ _ := (ubsmOk, ())
  addShmImportResult _ _ _ := (ubsmOk, ())
  updateShmImportRecordState _ _ _ := (ubsmOk, ())
  delShmImportRecord _ _ := (ubsmOk, ())
  addShmRefRecord _ _ _ := (ubsmOk, ())
  delShmRefRecord _ _ _ := (ubsmOk, ())

/-- The daemon before its first request. -/
def ShmWorld.start : ShmWorld Unit :=
  ⟨⟨∅, ()⟩, ⟨[], []⟩, fun _ => none, fun _ => false⟩

/-! ### Permissions -/

def protRead : UInt32 := 1

def protWrite : UInt32 := 2

def protExec : UInt32 := 4

/-- `GetMaxOflag`: `O_RDWR`, `O_RDONLY` or -1. -/
def getMaxOflag (providedPerms : UInt32) : Int :=
  if providedPerms &&& protRead ≠ 0 ∧ providedPerms &&& protWrite ≠ 0 then 2
  else if providedPerms &&& protRead ≠ 0 then 0
  else if providedPerms &&& protExec ≠ 0 then 2
  else -1

/-- The protection bits that three mode bits stand for. -/
def permsOfBits (mode read write exec : UInt32) : UInt32 :=
  (if mode &&& read ≠ 0 then protRead else 0) ||| (if mode &&& write ≠ 0 then protWrite else 0) |||
    (if mode &&& exec ≠ 0 then protExec else 0)

def calculateProvidedPermissions (callerUid callerGid ownerUid ownerGid : Nat) (mode : UInt32) :
    UInt32 :=
  if callerUid = ownerUid then permsOfBits mode 0o400 0o200 0o100
  else if callerGid = ownerGid then permsOfBits mode 0o040 0o020 0o010
  else permsOfBits mode 0o004 0o002 0o001

/-- The permissions a caller has on an object. -/
def providedPerms (caller : AppContext) (info : UbseUserInfo) : UInt32 :=
  calculateProvidedPermissions caller.uid caller.gid info.uid info.gid info.mode

/-- `CheckPermission`: the code, and the value stored to `oflag`. -/
def checkPermission (caller : AppContext) (info : UbseUserInfo) (prot : UInt32) : Int × Int :=
  let perms := providedPerms caller info
  let oflag := getMaxOflag perms
  let sufficient := decide (oflag ≠ -1) &&
    !(decide (prot &&& protRead ≠ 0) && decide (perms &&& protRead = 0)) &&
    !(decide (prot &&& protWrite ≠ 0) && decide (perms &&& protWrite = 0)) &&
    !(decide (prot &&& protExec ≠ 0) && decide (perms &&& protExec = 0))
  (if sufficient then 0 else mxmErrShmPermissionDenied, oflag)

/-! ### `ShmMap` -/

def rollBackAttachShareMemory (name : Name) : ShmProg Unit := do
  let ret ← ask (.updateShareMemoryRecordState name .preDel)
  if ret ≠ 0 then return
  let ret ← ask (.shmDetach name)
  if ret ≠ 0 ∧ ret ≠ mxmErrUbseNotAttach then
    let _ ← ask (.updateShareMemoryRecordState name .finish)
    return
  let _ ← ask (.removeMemoryInfo name false)

/-- `ShmMmapInner`, with the part of `ShmMap` that copies its result. -/
def shmMmapInner (req : ShmMapRequest) (uds : AppContext) : ShmProg (Int × ShmMapResponse) := do
  let (rt, info) ← ask (.shmGetUserData req.name)
  if rt ≠ 0 then return (rt, .error rt)
  let (res, oflag) := checkPermission uds info req.prot
  if res ≠ ubsmOk then return (res, .error res)
  let hr ← ask (.prepareAddShareMemoryInfo req.name req.size uds.pid)
  if hr ≠ 0 then return (hr, .error hr)
  let (hr, desc) ← ask (.shmAttach req.name { info with pid := uds.pid })
  if hr ≠ 0 then
    let _ ← ask (.removeMemoryInfo req.name false)
    return (hr, .error hr)
  let flag := attachFlag info.flag desc
  let hr ← ask (.addFullShareMemoryInfo req.name uds.pid
    ⟨desc.memIds, desc.unitSize, flag, oflag, info.uid, info.gid⟩)
  if hr ≠ 0 then
    rollBackAttachShareMemory req.name
    return (hr, .error hr)
  return (ubsmOk, ⟨ubsmOk, desc.memIds, desc.shmSize, desc.unitSize, flag, oflag⟩)

def handleExistingShm (req : ShmMapRequest) (uds : AppContext) (memory : AttachedShareMemory) :
    ShmProg (Int × ShmMapResponse) := do
  if uds.pid ∈ memory.pids then return (mxmErrShmAlreadyExist, .error mxmErrShmAlreadyExist)
  let ret ← ask (.addMemoryUserInfo req.name uds.pid)
  if ret ≠ ubsmOk then return (ret, .error ret)
  return (ubsmOk, ⟨ubsmOk, memory.result.memIds, memory.size, memory.result.unitSize,
    memory.result.createFlags, memory.result.openFlag⟩)

/-- `ShmMap` once the mutex of the name is held. -/
def shmMapLocked (req : ShmMapRequest) (uds : AppContext) : ShmProg (Int × ShmMapResponse) := do
  match ← ask (.getShareMemoryInfo req.name) with
  | none => shmMmapInner req uds
  | some memory =>
    if memory.state = .finish then handleExistingShm req uds memory
    else if memory.state = .deleted then do
      let ret ← ask (.removeMemoryInfo memory.name true)
      if ret ≠ 0 then return (ret, .error ret)
      shmMmapInner req uds
    else shmMmapInner req uds

/-- `MxmServerMsgHandle::ShmMap`: the return value and the response. -/
def shmMap (req : ShmMapRequest) (uds : AppContext) : ShmProg (Int × ShmMapResponse) := do
  let busy ← ask (.getDelayRemoveRecord req.name)
  if busy then return (mxmErrNameBusy, .error mxmErrNameBusy)
  ask (.lock req.name)
  let res ← shmMapLocked req uds
  ask (.unlock req.name)
  return res

/-! ### `ShmUnmap` -/

def shmUnMapInner (name : Name) (uds : AppContext) : ShmProg Int := do
  let ret ← ask (.updateShareMemoryRecordState name .preDel)
  if ret ≠ ubsmOk then return ret
  let ret ← ask (.shmDetach name)
  if ret ≠ ubsmOk ∧ ret ≠ mxmErrUbseNotAttach then
    let _ ← ask (.updateShareMemoryRecordState name .finish)
    return ret
  let ret ← ask (.removeMemoryUserInfo name uds.pid)
  if ret ≠ ubsmOk then return ret
  let ret ← ask (.removeMemoryInfo name false)
  if ret ≠ ubsmOk then
    let _ ← ask (.addMemoryUserInfo name uds.pid)
    return ret
  return ubsmOk

/-- `ShmUnmap` once the mutex of the name is held. -/
def shmUnmapLocked (name : Name) (uds : AppContext) : ShmProg Int := do
  match ← ask (.getShareMemoryInfo name) with
  | none => return mxmErrShmNotFound
  | some memory =>
    if memory.state = .deleted then ask (.removeMemoryInfo name true)
    else do
      let userNum ← ask (.getMemoryUsersCountByName name)
      if userNum > 1 then ask (.removeMemoryUserInfo name uds.pid)
      else shmUnMapInner name uds

/-- `MxmServerMsgHandle::ShmUnmap`: the return value, which is also the error code
of the response. -/
def shmUnmap (name : Name) (uds : AppContext) : ShmProg Int := do
  ask (.lock name)
  let ret ← shmUnmapLocked name uds
  ask (.unlock name)
  return ret

/-! ### The cleaner -/

def tryRollBackTimeoutShmTask (name : Name) (isAttach : Bool) (createSeqNo : UInt64) :
    ShmProg Int := do
  let (ret, status, storedSeqNo) ← ask (.getTimeOutShmTaskStatus name isAttach)
  if ret = mxmErrShmNotExist ∨ status = .notExist then
    if isAttach then
      let _ ← ask (.removeMemoryInfo name false)
      return ubsmOk
    return ubsmOk
  if ret = mxmErrShmInUsing then return ubsmOk
  if ret ≠ ubsmOk ∨ status = .creating ∨ status = .deleting then return mxmTimeOutTaskNeedRetry
  if isAttach then
    let hr ← ask (.shmDetach name)
    let _ ← ask (.removeMemoryInfo name false)
    return hr
  if createSeqNo ≠ storedSeqNo then return ubsmOk
  ask (.shmDelete name)

def cleanShareMemoryLeakInner (name : Name) (ctx : AppContext) (isTimeOutScene isAttach : Bool)
    (createSeqNo : UInt64) : ShmProg Int := do
  if name = [] then return mxmErrParamInvalid
  if isTimeOutScene then tryRollBackTimeoutShmTask name isAttach createSeqNo
  else do
    let ret ← ask (.removeMemoryUserInfo name ctx.pid)
    if ret ≠ ubsmOk ∧ ret ≠ mxmErrShmNotFound then return ret
    let ret ← ask (.updateShareMemoryRecordState name .preDel)
    if ret ≠ ubsmOk ∧ ret ≠ mxmErrShmNotFound then return ret
    let hr ← ask (.shmDetach name)
    if hr ≠ 0 ∧ hr ≠ mxmErrUbseNotAttach then
      let _ ← ask (.updateShareMemoryRecordState name .finish)
      let _ ← ask (.addMemoryUserInfo name ctx.pid)
      return hr
    let ret ← ask (.removeMemoryInfo name false)
    if ret ≠ ubsmOk ∧ hr ≠ mxmErrUbseNotAttach then
      let _ ← ask (.updateShareMemoryRecordState name .deleted)
      let _ ← ask (.addMemoryUserInfo name ctx.pid)
      return ret
    return ubsmOk

/-- The body of the loop of `RemoveDelayBorrows` for a key of a shared memory; a key
that failed is queued again, with one more retry and a later expiry time. -/
def removeDelayShare (key : DelayRemovedKey) (expiresTime : Nat) : ShmProg Unit := do
  let ret ← cleanShareMemoryLeakInner key.name key.appCtx key.timeOutScene key.isAttach
    key.createSeqNo
  ask (.eraseKey key)
  if ret ≠ 0 then
    ask (.addDelayRemoveRecord
      { key with retryTimes := key.retryTimes + 1, expiresTime := expiresTime })

/-- The loop of `SHMProcessDeadProcess`, at the clock's time `now`. -/
def processDeadProcess (now pid : Nat) : List AttachedShareMemory → ShmProg Unit
  | [] => return
  | memory :: memories => do
    if memory.pids = [] ∨ pid ∉ memory.pids then processDeadProcess now pid memories
    else if memory.pids.length > 1 then do
      let _ ← ask (.removeMemoryUserInfo memory.name pid)
      processDeadProcess now pid memories
    else do
      let busy ← ask (.getDelayRemoveRecord memory.name)
      if busy then processDeadProcess now pid memories
      else do
        ask (.addDelayRemoveRecord (DelayRemovedKey.make now memory.name 0 false
          ⟨pid, memory.result.ownerUserId, memory.result.ownerGroupId⟩ false false false))
        processDeadProcess now pid memories

def shmProcessDeadProcess (now pid : Nat) : ShmProg Unit := do
  let memoryArr ← ask (.getMemoryUsersByPid pid)
  processDeadProcess now pid memoryArr

end UbsMem
