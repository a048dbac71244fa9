import UbsMem.CommonTypes
import UbsMem.StdSet
import Mathlib.Logic.Function.Basic

/-! # Distributed locks of shared memories

`UbsmLock` locks a name through the dlock library.  What it knows is spread over
three structures: `DLockContext` maps a name to the client that serves it and counts
the references to it, and each `ClientDesc` keeps the lock id of a name and a record
for every process that locked it.  The library is a parameter (`DlockLib`): a
function for each call, over any state of its own, so that its replies are left open.

Beside these the state keeps a trace of what happened: which process acquired or
released which name, and when the lock of a name was given back.
-/
namespace UbsMem

open Function

/-! ### The library -/

def dlockSuccess : Int := 0

def dlockEagain : Int := 0x1000

def dlockEinval : Int := 0x1003

def dlockEasync : Int := 0x1005

def dlockClientNotInit : Int := 0x2000

def dlockLockNotGet : Int := 0x2001

def dlockAlreadyLocked : Int := 0x2002

def dlockAlreadyUnlocked : Int := 0x2003

def dlockBadResponse : Int := 0x2005

def dlockFail : Int := 0x2006

def dlockClientmgrNotInit : Int := 0x2007

def dlockNotReady : Int := 0x2008

/-- `DEFAULT_TRY_LOCK_COUNT`: how often a call is repeated. -/
def defaultTryLockCount : Nat := 5

/-- The calls into the dlock library, over a state `D` of its own. -/
structure DlockLib (D : Type) where
  /-- The code and the lock id. -/
  getLock : (clientId : Int) → (desc : Name) → D → (Int × Int) × D
  tryLock : (clientId lockId : Int) → (isExclusive : Bool) → (expireTime : Nat) → D → Int × D
  unlock : (clientId lockId : Int) → D → Int × D
  releaseLock : (clientId lockId : Int) → D → Int × D

/-! ### `ClientDesc` -/

/-- What identifies a process in `LockUdsInfo`. -/
structure LockProc where
  pid : UInt32
  uid : UInt32
  gid : UInt32
  deriving DecidableEq

/-- `LockUdsInfo`; `validTime` is in microseconds of the monotonic clock. -/
structure LockUdsInfo extends LockProc where
  validTime : Nat
  deriving DecidableEq

/-- `LockUdsInfo::operator<`. -/
def LockUdsInfo.lt (a b : LockUdsInfo) : Bool :=
  if a.pid ≠ b.pid then a.pid < b.pid
  else if a.uid ≠ b.uid then a.uid < b.uid
  else a.gid < b.gid

structure ClientDesc where
  clientId : Int
  name2LockId : Name → Option Int
  name2UdsInfo : Name → Option (List LockUdsInfo)

namespace ClientDesc

def getLockId (c : ClientDesc) (name : Name) : Option Int := c.name2LockId name

def removeLockId (c : ClientDesc) (name : Name) : ClientDesc :=
  { c with name2LockId := update c.name2LockId name none }

def setLockId (c : ClientDesc) (name : Name) (lockId : Int) : ClientDesc :=
  { c with name2LockId := update c.name2LockId name (some lockId) }

/-- The records of a name. -/
def records (c : ClientDesc) (name : Name) : List LockUdsInfo := (c.name2UdsInfo name).getD []

def setLockUdsInfo (c : ClientDesc) (name : Name) (udsInfo : LockUdsInfo) : ClientDesc :=
  let udsSet := setErase LockUdsInfo.lt udsInfo (c.records name)
  { c with
    name2UdsInfo := update c.name2UdsInfo name
      (some (setInsert LockUdsInfo.lt udsInfo udsSet)) }

def removeLockUdsInfoByName (c : ClientDesc) (name : Name) (udsInfo : LockUdsInfo) : ClientDesc :=
  match c.name2UdsInfo name with
  | none => c
  | some udsSet =>
    { c with
      name2UdsInfo := update c.name2UdsInfo name
        (some (setErase LockUdsInfo.lt udsInfo udsSet)) }

def removeLockUdsInfo (c : ClientDesc) (name : Name) : ClientDesc :=
  { c with name2UdsInfo := update c.name2UdsInfo name none }

def isLockUdsValid (c : ClientDesc) (name : Name) (udsInfo : LockUdsInfo) : Bool :=
  (c.records name).any (equivKeys LockUdsInfo.lt udsInfo)

/-- `IsLockInValidTime` for one process. -/
def isLockInValidTime (c : ClientDesc) (name : Name) (udsInfo : LockUdsInfo) (now : Nat) : Bool :=
  match (c.records name).find? (equivKeys LockUdsInfo.lt udsInfo) with
  | none => false
  | some found => found.validTime > now

def getInValidUdsInfo (c : ClientDesc) (name : Name) (now : Nat) : List LockUdsInfo :=
  (c.records name).filter fun udsInfo => udsInfo.validTime ≤ now

end ClientDesc

/-! ### The state -/

/-- What can happen to the lock of a name: a process acquires it, a process releases
it once, or the lock is given back to the library. -/
inductive LockEvent
  | acquired (name : Name) (proc : LockProc)
  | released (name : Name) (proc : LockProc)
  | freed (name : Name)
  deriving DecidableEq

/-- `UbsmLock` and `DLockContext` with their clients, the library and the trace, the
latest event first.  A `ClientDesc *` is an index into `dlockClients`, of which the
first `clientCount` exist. -/
structure LockState (D : Type) where
  isInit : Bool
  inElection : Bool
  dlockClients : Nat → ClientDesc
  clientCount : Nat
  dlockClientNum : Nat
  lockExpireTime : Nat
  clientIndex : UInt64
  metaMap : Name → Option Nat
  refCount : Name → Option UInt32
  lib : D
  trace : List LockEvent

namespace LockState

variable {D : Type}

/-- Change one client. -/
def setClient (s : LockState D) (client : Nat) (c : ClientDesc) : LockState D :=
  { s with dlockClients := update s.dlockClients client c }

/-- Extend the trace. -/
def note (s : LockState D) (event : LockEvent) : LockState D :=
  { s with trace := event :: s.trace }

/-! ### `DLockContext` -/

/-- `GetDlockClient`: the clients take turns. -/
def getDlockClient (s : LockState D) : Option Nat × LockState D :=
  let index := s.clientIndex.toNat % s.dlockClientNum
  (if index ≥ s.clientCount then none else some index, { s with clientIndex := s.clientIndex + 1 })

def setClientDesc (s : LockState D) (name : Name) (client : Nat) : LockState D :=
  { s with metaMap := update s.metaMap name (some client) }

def removeClientDesc (s : LockState D) (name : Name) : LockState D :=
  { s with metaMap := update s.metaMap name none }

def addClientDescRef (s : LockState D) (name : Name) : LockState D :=
  { s with refCount := update s.refCount name (some ((s.refCount name).getD 0 + 1)) }

/-- `GetClientDescRef`; the count is returned as a signed number. -/
def getClientDescRef (s : LockState D) (name : Name) : Int :=
  match s.refCount name with
  | none => -1
  | some n => n.toInt32.toInt

def releaseClientDescRef (s : LockState D) (name : Name) : Int × LockState D :=
  match s.refCount name with
  | none => (-1, s)
  | some n =>
    if n - 1 = 0 then (0, { s with refCount := update s.refCount name none })
    else
      ((n - 1).toInt32.toInt, { s with refCount := update s.refCount name (some (n - 1)) })

def removeClientDescRef (s : LockState D) (name : Name) : LockState D :=
  { s with refCount := update s.refCount name none }

/-! ### `UbsmLock` -/

variable (lib : DlockLib D)

def tryReleaseLock (s : LockState D) (name : Name) (lockId : Int) : LockState D :=
  match s.metaMap name with
  | none => s
  | some client =>
    let s := s.removeClientDesc name
    let s := s.setClient client ((s.dlockClients client).removeLockId name)
    { s with lib := (lib.releaseLock (s.dlockClients client).clientId lockId s.lib).2 }.note
      (.freed name)

/-- `GetLock`: the client that serves the name, with one more reference. -/
def getLock (s : LockState D) (name : Name) : Option Nat × LockState D :=
  match s.metaMap name with
  | some client => (some client, s.addClientDescRef name)
  | none =>
    match s.getDlockClient with
    | (none, s) => (none, s)
    | (some client, s) =>
      let ((ret, lockId), d) := lib.getLock (s.dlockClients client).clientId name s.lib
      let s := { s with lib := d }
      if ret ≠ dlockSuccess then (none, s)
      else
        let s := s.setClient client ((s.dlockClients client).setLockId name lockId)
        (some client, (s.setClientDesc name client).addClientDescRef name)

/-- The loop of `TryLock`, with the number of repetitions left. -/
def tryLockLoop (clientId lockId : Int) (isExclusive : Bool) (expireTime : Nat) :
    Nat → D → Int × D
  | num, d =>
    let (ret, d) := lib.tryLock clientId lockId isExclusive expireTime d
    if ret = dlockBadResponse then (mxmErrDlockInner, d)
    else if ret = dlockEagain then
      -- The request was queued; unlocking takes it back.
      (mxmErrDlockInner, (lib.unlock clientId lockId d).2)
    else if ret = dlockEinval ∨ ret = dlockClientmgrNotInit ∨ ret = dlockClientNotInit ∨
        ret = dlockLockNotGet ∨ ret = dlockFail then (mxmErrDlockInner, d)
    else if ret = dlockSuccess ∨ ret = dlockAlreadyLocked then (ubsmOk, d)
    else
      match num with
      | 0 => (mxmErrDlockInner, d)
      | num + 1 =>
        if ret = dlockNotReady ∨ ret = dlockEasync then
          tryLockLoop clientId lockId isExclusive expireTime num d
        else (mxmErrDlockInner, d)

def tryLock (s : LockState D) (name : Name) (client : Nat) (isExclusive : Bool)
    (udsInfo : LockUdsInfo) (now : Nat) : Int × LockState D :=
  if isExclusive ∧ s.getClientDescRef name > 1 then (mxmErrLockAlreadyLocked, s)
  else
    match (s.dlockClients client).getLockId name with
    | none => (mxmErrLockNotFound, s)
    | some lockId =>
      let (ret, d) := tryLockLoop lib (s.dlockClients client).clientId lockId isExclusive
        s.lockExpireTime defaultTryLockCount s.lib
      let s := { s with lib := d }
      if ret = ubsmOk then
        let udsInfo := { udsInfo with validTime := now + s.lockExpireTime * 1000000 }
        (ubsmOk, (s.setClient client
          ((s.dlockClients client).setLockUdsInfo name udsInfo)).note
            (.acquired name udsInfo.toLockProc))
      else (ret, s)

/-- **`HandleLock`.** -/
def handleLock (s : LockState D) (name : Name) (isExclusive : Bool) (udsInfo : LockUdsInfo)
    (now : Nat) : Int × LockState D :=
  if !s.isInit || s.inElection then (mxmErrLockNotReady, s)
  else
    match getLock lib s name with
    | (none, s) => (mxmErrLockNotFound, s)
    | (some client, s) =>
      let (ret, s) := tryLock lib s name client isExclusive udsInfo now
      match (s.dlockClients client).getLockId name with
      | none => (mxmErrLockNotFound, s)
      | some lockId =>
        if ret ≠ ubsmOk then
          let (ref, s) := s.releaseClientDescRef name
          if ref < 0 then (ret, tryReleaseLock lib s name lockId) else (ret, s)
        else (ret, s)

/-- The loop of `UnlockWithDesc`, which ends with the first code that does not ask for
a repetition. -/
def unlockLoop (clientId lockId : Int) : Nat → D → Int × D
  | num, d =>
    let (ret, d) := lib.unlock clientId lockId d
    if ret = dlockNotReady ∨ ret = dlockEasync then
      match num with
      | 0 => (ret, d)
      | num + 1 => unlockLoop clientId lockId num d
    else (ret, d)

def unlockWithDesc (s : LockState D) (name : Name) (client : Nat) (udsInfo : LockUdsInfo) :
    Int × LockState D :=
  match (s.dlockClients client).getLockId name with
  | none => (mxmErrLockNotFound, s)
  | some lockId =>
    let (ret, d) := unlockLoop lib (s.dlockClients client).clientId lockId defaultTryLockCount s.lib
    let s := { s with lib := d }
    if ret = dlockAlreadyUnlocked ∨ ret = dlockFail then
      (mxmErrDlockInner, tryReleaseLock lib (s.removeClientDescRef name) name lockId)
    else if ret = dlockAlreadyLocked ∨ ret = dlockSuccess then
      let (ref, s) := (s.note (.released name udsInfo.toLockProc)).releaseClientDescRef name
      if ref ≤ 0 then
        let s := tryReleaseLock lib s name lockId
        -- The record goes only together with the last reference to the name.
        (ubsmOk, s.setClient client ((s.dlockClients client).removeLockUdsInfoByName name udsInfo))
      else (ubsmOk, s)
    else (mxmErrDlockInner, s)

/-- **`HandleUnlock`.** -/
def handleUnlock (s : LockState D) (name : Name) (udsInfo : LockUdsInfo) (now : Nat) :
    Int × LockState D :=
  if !s.isInit || s.inElection then (mxmErrLockNotReady, s)
  else
    match s.metaMap name with
    | none => (mxmErrLockNotFound, s)
    | some client =>
      if !(s.dlockClients client).isLockUdsValid name udsInfo then (mxmErrLockNotFound, s)
      else if !(s.dlockClients client).isLockInValidTime name udsInfo now then
        (ubsmOk, (unlockWithDesc lib s name client udsInfo).2)
      else unlockWithDesc lib s name client udsInfo

/-- The loop of `CleanUpExpiredLocksForName`. -/
def unlockAll (s : LockState D) (name : Name) (client : Nat) : List LockUdsInfo → LockState D
  | [] => s
  | udsInfo :: invalidUds =>
    unlockAll (unlockWithDesc lib s name client udsInfo).2 name client invalidUds

/-- **`CleanUpExpiredLocksForName`**, with the client that serves the name. -/
def cleanUpExpiredLocksForName (s : LockState D) (name : Name) (now : Nat) : LockState D :=
  match s.metaMap name with
  | none => s
  | some client =>
    let s := unlockAll lib s name client ((s.dlockClients client).getInValidUdsInfo name now)
    match (s.dlockClients client).getLockId name with
    | none => s.setClient client ((s.dlockClients client).removeLockUdsInfo name)
    | some _ => s

end LockState
end UbsMem
