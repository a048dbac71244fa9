import UbsMem.ShmHandlers
import UbsMem.StrUtil

/-! # Creating shared memory

`UbseMemAdapter::ShmCreate` asks UBSE for a memory near the caller's NUMA node
first and falls back to a plain create when that does not succeed.  Both attempts
carry one name and one sequence number.  An attempt that times out queues a delayed
removal with that name and number, and the cleaner later deletes the memory whose
stored number it finds equal.

`RollbackDeletes key obj` runs the cleaner's program on a queued key against a UBSE
that holds the object and says whether it comes to delete it; `rollbackDeletes_iff`
reduces that to a comparison of fields.  The main result,
`shmCreate_ok_pending_iff`, says exactly when a successful `ShmCreate` leaves no
such key behind: the fallback goes wrong after a first attempt that timed out.
-/
namespace UbsMem

open Prog hiding ret call

/-! ### Parameters and replies -/

/-- `ubs_topo_node_t`: the slot of a node and, per socket, its id and NUMA ids. -/
structure TopoNode where
  slotId : UInt32
  sockets : List (UInt32 × List UInt32)
  deriving DecidableEq

/-- `CreateShmParam`, without the fields `ShmCreate` does not read; `nodeIds` are the
`num` first node ids of the region description. -/
structure CreateShmParam where
  name : Name
  size : Nat
  appContext : AppContext
  nodeIds : List Bytes
  flag : UInt64
  mode : UInt32
  provider : List UInt32

/-- **Everything `ShmCreate` learns from outside**, in the order of the calls: the
result of `Initialize`, which symbols of the client library are there, the node
reported for the sequence number, the feature word (when it could be read), the NUMA
node the caller is bound to (-1 for none), the node reported for the affinity
attempt, the replies to the two create calls and the clock at each of them. -/
structure ShmCreateReplies where
  init : Int
  shmCreateLoaded : Bool
  affinityLoaded : Bool
  nodeLocalGetLoaded : Bool
  nodeForSeqNo : Int × TopoNode
  ubFeature : Option UInt64
  numaNode : Int
  nodeForAffinity : Int × TopoNode
  createWithAffinity : Int
  affinityTime : Nat
  create : Int
  createTime : Nat

/-- A create call to UBSE; `socketId` is given in the affinity attempt only. -/
structure CreateCall where
  name : Name
  size : Nat
  usrInfo : UbseUserInfo
  ubseFlags : UInt64
  region : List UInt32
  provider : List UInt32
  socketId : Option UInt32
  deriving DecidableEq

/-- The state of the adapter and of what it changes: the cached node id (all ones
when it is not known), the counter of the record store and the monitor's queue. -/
structure AdapterState where
  nodeId : UInt32
  createSeqNo : UInt32
  monitor : Monitor

/-- What a create function leaves behind: its return value, the state, and the call
UBSE acknowledged, if any. -/
structure CreateOutcome where
  ret : Int
  state : AdapterState
  created : Option CreateCall

/-! ### Helpers of `ShmCreate` -/

/-- `GetSocketIdWithNumaNode`: the first socket that lists the NUMA node. -/
def getSocketIdWithNumaNode (loaded : Bool) (reply : Int × TopoNode) (numaNode : Int) :
    Except Int UInt32 :=
  if !loaded then .error mxmErrUbseInner
  else if reply.1 ≠ 0 then .error mxmErrUbseInner
  else
    match reply.2.sockets.find? fun socket => socket.2.any fun id => id = UInt32.ofInt numaNode with
    | some socket => .ok socket.1
    | none => .error mxmErrShmInvalidNuma

def ensureGetLocalNodeId (r : ShmCreateReplies) (s : AdapterState) :
    Except Int UInt32 × AdapterState :=
  if s.nodeId ≠ 0xffffffff then (.ok s.nodeId, s)
  else if !r.nodeLocalGetLoaded then (.error mxmErrUbseLib, s)
  else if r.nodeForSeqNo.1 ≠ ubsSuccess then (.error mxmErrUbseInner, s)
  else (.ok r.nodeForSeqNo.2.slotId, { s with nodeId := r.nodeForSeqNo.2.slotId })

/-- `GenerateCreateSeqNo`: the slot id in the upper half, the counter of the record
store, which is advanced, in the lower. -/
def generateCreateSeqNo (slotId : UInt32) (s : AdapterState) : UInt64 × AdapterState :=
  (slotId.toUInt64 <<< 32 ||| s.createSeqNo.toUInt64, { s with createSeqNo := s.createSeqNo + 1 })

def fillUserInfo (param : CreateShmParam) (r : ShmCreateReplies) (s : AdapterState) :
    Except Int UbseUserInfo × AdapterState :=
  match ensureGetLocalNodeId r s with
  | (.error ret, s) => (.error ret, s)
  | (.ok nodeId, s) =>
    let (seqNo, s) := generateCreateSeqNo nodeId s
    (.ok ⟨param.appContext.uid, param.appContext.gid, param.appContext.pid, param.mode, param.flag,
      seqNo⟩, s)

/-- The flags `PrepareUserInfoAndFlags` computes; its copy of the user info cannot
fail, as the structure has the size of the buffer. -/
def prepareFlags (flag : UInt64) : UInt64 :=
  (if flag &&& 0x4 ≠ 0 then 0x1 else 0) ||| (if flag &&& 0x10 ≠ 0 then 0x2 else 0) |||
    (if flag &&& 0x2 = 0 ∧ flag &&& 0x8 = 0 then 0x4 else 0)

def checkFeatureCompatibility (ubFeature : Option UInt64) (flags : UInt64) : Int :=
  match ubFeature with
  | none => ubsmOk
  | some feature =>
    if flags &&& 0x8 ≠ 0 then
      if feature &&& 0x8 ≠ 0 then mxmErrUbseNotSupported else ubsmOk
    else if flags &&& 0x2 = 0 then
      if feature &&& 0x8 = 0 then mxmErrUbseNotSupported else ubsmOk
    else ubsmOk

/-- The key that a create attempt queues when UBSE times out. -/
def createTimeOutKey (now : Nat) (param : CreateShmParam) (seqNo : UInt64) : DelayRemovedKey :=
  { DelayRemovedKey.make now param.name oneMinuteMs false param.appContext false false true with
    isAttach := false
    createSeqNo := seqNo }

/-- Queue that key. -/
def AdapterState.queueTimeOut (s : AdapterState) (now : Nat) (param : CreateShmParam)
    (seqNo : UInt64) : AdapterState :=
  { s with monitor := s.monitor.addDelayRemoveRecord (createTimeOutKey now param seqNo) }

def shmCreateWithAffinity (param : CreateShmParam) (r : ShmCreateReplies) (call : CreateCall)
    (s : AdapterState) : CreateOutcome :=
  if !r.affinityLoaded then ⟨mxmErrUbseInner, s, none⟩
  else if r.numaNode = -1 then ⟨mxmErrShmInvalidNuma, s, none⟩
  else
    match getSocketIdWithNumaNode r.nodeLocalGetLoaded r.nodeForAffinity r.numaNode with
    | .error res => ⟨res, s, none⟩
    | .ok socketId =>
      if r.createWithAffinity ≠ ubsSuccess ∧ r.createWithAffinity ≠ ubsErrTimedOut then
        if r.createWithAffinity = ubsErrNotSupported then ⟨mxmErrUbseNotSupported, s, none⟩
        else ⟨mxmErrUbseInner, s, none⟩
      else if r.createWithAffinity = ubsErrTimedOut then
        ⟨ubsErrTimedOut, s.queueTimeOut r.affinityTime param call.usrInfo.seqNo, none⟩
      else ⟨ubsmOk, s, some { call with socketId := some socketId }⟩

/-- The plain create at the end of `ShmCreate`. -/
def shmCreateFallback (param : CreateShmParam) (r : ShmCreateReplies) (call : CreateCall)
    (s : AdapterState) : CreateOutcome :=
  if r.create ≠ ubsSuccess ∧ r.create ≠ ubsErrTimedOut then
    if r.create = ubsEngineErrExisted then ⟨mxmErrShmAlreadyExist, s, none⟩
    else if r.create = ubsErrNotSupported then ⟨mxmErrUbseNotSupported, s, none⟩
    else ⟨mxmErrUbseInner, s, none⟩
  else if r.create = ubsErrTimedOut then
    ⟨ubsErrTimedOut, s.queueTimeOut r.createTime param call.usrInfo.seqNo, none⟩
  else ⟨ubsmOk, s, some call⟩

/-- The call both attempts make, but for the socket. -/
def createCall (param : CreateShmParam) (region : List UInt32) (usrInfo : UbseUserInfo) :
    CreateCall :=
  ⟨param.name, param.size, usrInfo, prepareFlags param.flag, region, param.provider, none⟩

/-- **`ShmCreate`.** -/
def shmCreate (param : CreateShmParam) (r : ShmCreateReplies) (s : AdapterState) : CreateOutcome :=
  if r.init ≠ 0 then ⟨r.init, s, none⟩
  else if !r.shmCreateLoaded then ⟨mxmErrUbseInner, s, none⟩
  else
    match param.nodeIds.mapM strToUint with
    | none => ⟨mxmErrParamInvalid, s, none⟩
    | some region =>
      match fillUserInfo param r s with
      | (.error ret, s) => ⟨ret, s, none⟩
      | (.ok usrInfo, s) =>
        let ret := checkFeatureCompatibility r.ubFeature param.flag
        if ret ≠ ubsmOk then ⟨ret, s, none⟩
        else
          let call := createCall param region usrInfo
          let first := shmCreateWithAffinity param r call s
          if first.ret = ubsmOk then first else shmCreateFallback param r call first.state

/-! ### The later rollback -/

/-- `ubs_mem_shm_desc_t`: what UBSE reports about a shared memory, with the slot and
stage of each import. -/
structure ShmDesc where
  usrInfo : UbseUserInfo
  memStage : MemStage
  importDesc : List (UInt32 × MemStage)

def ubsTopoMaxNodeNum : Nat := 512

/-- `GetTimeOutShmTaskStatus`: the code, the stage and the sequence number, the last
two with the values the caller initialized them to where they are not set. -/
def getTimeOutShmTaskStatus (get : Int × Option ShmDesc) (local_ : Int × TopoNode)
    (isAttach : Bool) : Int × MemStage × UInt64 :=
  let unset : MemStage × UInt64 := (.endMark, 0xffffffff)
  if get.1 ≠ ubsSuccess then
    (if get.1 = ubsEngineErrNotExist then mxmErrShmNotExist else mxmErrUbseInner, unset)
  else
    match get.2 with
    | none => (mxmErrUbseInner, unset)
    | some desc =>
      if desc.importDesc.length > ubsTopoMaxNodeNum then (mxmErrUbseInner, unset)
      else if local_.1 ≠ ubsSuccess then (mxmErrUbseInner, unset)
      else if !isAttach then
        if desc.importDesc ≠ [] then (mxmErrShmInUsing, unset)
        else (ubsmOk, desc.memStage, desc.usrInfo.seqNo)
      else if desc.importDesc = [] then (mxmErrShmNotExist, unset)
      else
        match desc.importDesc.find? fun import_ => import_.1 = local_.2.slotId with
        | none => (mxmErrShmNotExist, unset)
        | some import_ => (ubsmOk, import_.2, unset.2)

/-- A UBSE that holds the object `obj`, created and not attached by anyone: it
reports the stored user info; nothing is said about other names and other calls. -/
def holdsObject (obj : CreateCall) (node : TopoNode) :
    (c : ShmCall) → Unit → c.Reply → Unit → Prop
  | .getTimeOutShmTaskStatus name isAttach, _, reply, _ =>
    name = obj.name →
      reply = getTimeOutShmTaskStatus (ubsSuccess, some ⟨obj.usrInfo, .exist, []⟩)
        (ubsSuccess, node) isAttach
  | _, _, _, _ => True

/-- **The removal queued under `key` may delete `obj`**: carried out while UBSE holds
the object, it comes to a delete of its name. -/
def RollbackDeletes (key : DelayRemovedKey) (obj : CreateCall) : Prop :=
  key.isLease = false ∧ ∃ node, Prog.Makes (holdsObject obj node)
    (cleanShareMemoryLeakInner key.name key.appCtx key.timeOutScene key.isAttach key.createSeqNo)
    () (.shmDelete obj.name) ()

/-- The key names the object and carries its sequence number. -/
def Matches (key : DelayRemovedKey) (name : Name) (seqNo : UInt64) : Prop :=
  key.isLease = false ∧ key.timeOutScene = true ∧ key.isAttach = false ∧ key.name = name ∧
    key.name ≠ [] ∧ key.createSeqNo = seqNo

/-- Only the rollback of a create that timed out deletes anything, and only under its
own name. -/
theorem cleaner_deletes {name : Name} {ctx : AppContext} {isTimeOutScene isAttach : Bool}
    {createSeqNo : UInt64} :
    (cleanShareMemoryLeakInner name ctx isTimeOutScene isAttach createSeqNo).All fun c =>
      ∀ n, c = .shmDelete n → isTimeOutScene = true ∧ isAttach = false ∧ n = name ∧ name ≠ [] := by
  simp only [cleanShareMemoryLeakInner, tryRollBackTimeoutShmTask]
  simp
  intro hname hscene _ _ _ _ _ _ _ _ _ hattach _
  exact ⟨hscene, hattach, hname⟩

theorem rollbackDeletes_iff {key : DelayRemovedKey} {obj : CreateCall} :
    RollbackDeletes key obj ↔ Matches key obj.name obj.usrInfo.seqNo := by
  constructor
  · rintro ⟨hlease, node, hmakes⟩
    obtain ⟨hscene, hattach, hobj, hname⟩ := hmakes.of_all cleaner_deletes _ rfl
    refine ⟨hlease, hscene, hattach, hobj.symm, hname, ?_⟩
    by_contra hseq
    simp only [cleanShareMemoryLeakInner, tryRollBackTimeoutShmTask, hscene, hattach, hname,
      ask_eq, call_bind, if_false, if_true, makes_call] at hmakes
    rcases hmakes with ⟨habs, -⟩ | ⟨reply, _, hreply, hrest⟩
    · cases habs
    · have hval : reply = (ubsmOk, .exist, obj.usrInfo.seqNo) := by
        rw [hreply hobj.symm, hattach]
        simp [getTimeOutShmTaskStatus]
      simp [hval, hseq] at hrest
  · rintro ⟨hlease, hscene, hattach, hobj, hname, hseq⟩
    refine ⟨hlease, ⟨0, []⟩, ?_⟩
    simp only [cleanShareMemoryLeakInner, tryRollBackTimeoutShmTask, hscene, hattach, hname,
      ask_eq, call_bind]
    refine makes_call.mpr (.inr ⟨(ubsmOk, .exist, obj.usrInfo.seqNo), (), fun _ => ?_, ?_⟩)
    · simp [getTimeOutShmTaskStatus, hattach]
    · simp [hseq, hobj, mxmErrShmNotExist, mxmErrShmInUsing, ubsmOk, makes_call]

/-! ### When a success leaves nothing behind -/

/-- The node id that goes into the sequence number. -/
def seqNode (r : ShmCreateReplies) (s : AdapterState) : UInt32 :=
  if s.nodeId ≠ 0xffffffff then s.nodeId else r.nodeForSeqNo.2.slotId

/-- The sequence number a call of `ShmCreate` uses. -/
def seqNoOf (r : ShmCreateReplies) (s : AdapterState) : UInt64 :=
  (generateCreateSeqNo (seqNode r s) s).1

/-- The affinity attempt is made and UBSE lets it time out. -/
def AffinityTimesOut (r : ShmCreateReplies) : Prop :=
  r.affinityLoaded = true ∧ r.numaNode ≠ -1 ∧
    (∃ socketId, getSocketIdWithNumaNode r.nodeLocalGetLoaded r.nodeForAffinity r.numaNode =
      .ok socketId) ∧
    r.createWithAffinity = ubsErrTimedOut

/-- **The inputs on which a success leaves no matching removal pending.**  No key in
the queue carries the name and the sequence number the call is about to use, and the
affinity attempt does not time out, or its key is of no effect: the name is empty,
or a key of the same name and expiry time keeps it out of the queue. -/
structure ShmCreateSafe (param : CreateShmParam) (r : ShmCreateReplies) (s : AdapterState) :
    Prop where
  pending : ∀ key ∈ s.monitor.delayedRemoveKeys, ¬ Matches key param.name (seqNoOf r s)
  affinity : AffinityTimesOut r → param.name = [] ∨
    ∃ key ∈ s.monitor.delayedRemoveKeys,
      r.affinityTime + oneMinuteMs = key.expiresTime ∧ param.name = key.name

variable {param : CreateShmParam} {r : ShmCreateReplies} {s' s : AdapterState}

theorem fillUserInfo_ok {usrInfo : UbseUserInfo} (h : fillUserInfo param r s = (.ok usrInfo, s')) :
    usrInfo.seqNo = seqNoOf r s ∧ s'.monitor = s.monitor := by
  unfold fillUserInfo ensureGetLocalNodeId at h
  unfold seqNoOf seqNode
  by_cases hnode : s.nodeId ≠ 0xffffffff
  · rw [if_pos hnode] at h ⊢
    cases h
    exact ⟨rfl, rfl⟩
  · rw [if_neg hnode] at h ⊢
    split_ifs at h with h1 h2
    · cases h
    · cases h
    · cases h
      exact ⟨rfl, rfl⟩

theorem fillUserInfo_error {ret : Int} (h : fillUserInfo param r s = (.error ret, s')) :
    ret ≠ ubsmOk := by
  unfold fillUserInfo ensureGetLocalNodeId at h
  split_ifs at h with h1 h2 h3
  · cases h
  · cases h
    decide
  · cases h
    decide
  · cases h

theorem getSocketIdWithNumaNode_error {loaded : Bool} {reply : Int × TopoNode} {numaNode res : Int}
    (h : getSocketIdWithNumaNode loaded reply numaNode = .error res) : res ≠ ubsmOk := by
  unfold getSocketIdWithNumaNode at h
  split_ifs at h with h1 h2
  · cases h
    decide
  · cases h
    decide
  · split at h
    · cases h
    · cases h
      decide

/-- What the first attempt returns and does to the queue: it times out and queues its
key, or it succeeds, or it fails for another reason. -/
theorem shmCreateWithAffinity_spec (param : CreateShmParam) (r : ShmCreateReplies)
    (call : CreateCall) (s : AdapterState) :
    (AffinityTimesOut r ∧ shmCreateWithAffinity param r call s =
        ⟨ubsErrTimedOut, s.queueTimeOut r.affinityTime param call.usrInfo.seqNo, none⟩) ∨
    (¬ AffinityTimesOut r ∧ ∃ socketId, shmCreateWithAffinity param r call s =
        ⟨ubsmOk, s, some { call with socketId := some socketId }⟩) ∨
    (¬ AffinityTimesOut r ∧ ∃ ret, ret ≠ ubsmOk ∧
      shmCreateWithAffinity param r call s = ⟨ret, s, none⟩) := by
  unfold shmCreateWithAffinity
  by_cases hload : r.affinityLoaded = true
  swap
  · refine .inr (.inr ⟨fun h => hload h.1, mxmErrUbseInner, by decide, ?_⟩)
    simp [hload]
  by_cases hnuma : r.numaNode = -1
  · refine .inr (.inr ⟨fun h => h.2.1 hnuma, mxmErrShmInvalidNuma, by decide, ?_⟩)
    simp [hload, hnuma]
  cases hsock : getSocketIdWithNumaNode r.nodeLocalGetLoaded r.nodeForAffinity r.numaNode with
  | error res =>
    refine .inr (.inr ⟨?_, res, getSocketIdWithNumaNode_error hsock, ?_⟩)
    · rintro ⟨-, -, ⟨socketId, hid⟩, -⟩
      rw [hsock] at hid
      cases hid
    · simp [hload, hnuma]
  | ok socketId =>
    simp only [hload, Bool.not_true, Bool.false_eq_true, if_false]
    split_ifs with hfail hsup htime
    · exact .inr (.inr ⟨fun h => hfail.2 h.2.2.2, mxmErrUbseNotSupported, by decide, rfl⟩)
    · exact .inr (.inr ⟨fun h => hfail.2 h.2.2.2, mxmErrUbseInner, by decide, rfl⟩)
    · exact .inl ⟨⟨hload, hnuma, ⟨socketId, hsock⟩, htime⟩, rfl⟩
    · exact .inr (.inl ⟨fun h => htime h.2.2.2, socketId, rfl⟩)

/-- The fallback succeeds only when UBSE acknowledges it, and then queues nothing. -/
theorem shmCreateFallback_ok {call : CreateCall}
    (h : (shmCreateFallback param r call s).ret = ubsmOk) :
    shmCreateFallback param r call s = ⟨ubsmOk, s, some call⟩ := by
  unfold shmCreateFallback at h ⊢
  split_ifs at h ⊢
  · exact absurd h mxmErrShmAlreadyExist_ne
  · exact absurd h mxmErrUbseNotSupported_ne
  · exact absurd h mxmErrUbseInner_ne
  · exact absurd h ubsErrTimedOut_ne
  · rfl

/-- The queue after a successful `ShmCreate`: a first attempt that timed out has left
its key, with the name and the number of the object that was then created. -/
theorem shmCreate_ok (h : (shmCreate param r s).ret = ubsmOk) :
    ∃ obj, (shmCreate param r s).created = some obj ∧ obj.name = param.name ∧
      obj.usrInfo.seqNo = seqNoOf r s ∧ (AffinityTimesOut r → (shmCreate param r s).state.monitor =
        s.monitor.addDelayRemoveRecord (createTimeOutKey r.affinityTime param (seqNoOf r s))) ∧
      (¬ AffinityTimesOut r → (shmCreate param r s).state.monitor = s.monitor) := by
  unfold shmCreate at h ⊢
  by_cases hinit : r.init ≠ 0
  · rw [if_pos hinit] at h
    exact absurd h hinit
  by_cases hload : r.shmCreateLoaded = true
  swap
  · simp [hinit, hload, mxmErrUbseInner, ubsmOk] at h
  simp only [hinit, hload, Bool.not_true, Bool.false_eq_true, if_false] at h ⊢
  cases hregion : param.nodeIds.mapM strToUint with
  | none =>
    rw [hregion] at h
    exact absurd h mxmErrParamInvalid_ne
  | some region =>
    rw [hregion] at h
    rcases hfill : fillUserInfo param r s with ⟨ret | usrInfo, s'⟩
    · rw [hfill] at h
      exact absurd h (fillUserInfo_error hfill)
    · obtain ⟨hseq, hmon⟩ := fillUserInfo_ok hfill
      simp only [hfill] at h ⊢
      by_cases hfeat : checkFeatureCompatibility r.ubFeature param.flag ≠ ubsmOk
      · rw [if_pos hfeat] at h
        exact absurd h hfeat
      rw [if_neg hfeat] at h ⊢
      have hcallSeq : (createCall param region usrInfo).usrInfo.seqNo = seqNoOf r s := hseq
      -- A time-out or an error of the first attempt leads to the second one.
      rcases shmCreateWithAffinity_spec param r (createCall param region usrInfo) s' with
        ⟨htime, hfirst⟩ | ⟨htime, socketId, hfirst⟩ | ⟨htime, ret, hret, hfirst⟩
      · rw [hfirst, if_neg ubsErrTimedOut_ne] at h ⊢
        rw [shmCreateFallback_ok h]
        refine ⟨_, rfl, rfl, hseq, fun _ => ?_, fun hno => absurd htime hno⟩
        simp only [AdapterState.queueTimeOut, hcallSeq, hmon]
      · rw [hfirst, if_pos rfl]
        exact ⟨_, rfl, rfl, hseq, fun hyes => absurd hyes htime, fun _ => hmon⟩
      · rw [hfirst, if_neg hret] at h ⊢
        rw [shmCreateFallback_ok h]
        exact ⟨_, rfl, rfl, hseq, fun hyes => absurd hyes htime, fun _ => hmon⟩

/-- **When a successful `ShmCreate` leaves no removal that would delete the object.** -/
theorem shmCreate_ok_pending_iff (param : CreateShmParam) (r : ShmCreateReplies)
    (s : AdapterState) (hok : (shmCreate param r s).ret = ubsmOk) :
    ∃ obj, (shmCreate param r s).created = some obj ∧ obj.name = param.name ∧
      ((∀ key ∈ (shmCreate param r s).state.monitor.delayedRemoveKeys, ¬ RollbackDeletes key obj) ↔
        ShmCreateSafe param r s) := by
  obtain ⟨obj, hcreated, hname, hseq, htimed, huntimed⟩ := shmCreate_ok hok
  refine ⟨obj, hcreated, hname, ?_⟩
  simp only [rollbackDeletes_iff, hname, hseq]
  by_cases htime : AffinityTimesOut r
  · rw [htimed htime]
    simp only [Monitor.mem_addDelayRemoveRecord]
    constructor
    · intro h
      refine ⟨fun key hkey => h key (.inl hkey), fun _ => ?_⟩
      by_contra hno
      rw [not_or] at hno
      refine h (createTimeOutKey r.affinityTime param (seqNoOf r s)) (.inr ⟨rfl, ?_⟩)
        ⟨rfl, rfl, rfl, rfl, hno.1, rfl⟩
      exact fun key hkey hsame => hno.2 ⟨key, hkey, hsame⟩
    · rintro ⟨hpending, hno⟩ key (hkey | ⟨rfl, hnew⟩) hmatch
      · exact hpending key hkey hmatch
      · rcases hno htime with hempty | ⟨key, hkey, hsame⟩
        · exact hmatch.2.2.2.2.1 hempty
        · exact hnew key hkey hsame
  · rw [huntimed htime]
    exact ⟨fun h => ⟨h, fun hyes => absurd hyes htime⟩, fun h => h.pending⟩

/-- A request for a memory named `a` by a process of user 1000. -/
def sampleParam : CreateShmParam where
  name := [97]
  size := 4096
  appContext := ⟨100, 1000, 1000⟩
  nodeIds := [[49]]
  flag := 0
  mode := 0o600
  provider := []

/-- A UBSE that answers on slot 1, whose socket 0 has NUMA node 0, to which the
caller is bound. -/
def sampleReplies (createWithAffinity : Int) : ShmCreateReplies where
  init := 0
  shmCreateLoaded := true
  affinityLoaded := true
  nodeLocalGetLoaded := true
  nodeForSeqNo := (ubsSuccess, ⟨1, [(0, [0])]⟩)
  ubFeature := none
  numaNode := 0
  nodeForAffinity := (ubsSuccess, ⟨1, [(0, [0])]⟩)
  createWithAffinity := createWithAffinity
  affinityTime := 0
  create := ubsSuccess
  createTime := 0

/-- The adapter before its first request. -/
def sampleAdapter : AdapterState := ⟨0xffffffff, 0, ⟨[], []⟩⟩

/-- A first attempt that succeeds leaves the queue empty. -/
theorem shmCreate_ok_pending_iff_sample :
    (shmCreate sampleParam (sampleReplies ubsSuccess) sampleAdapter).ret = ubsmOk ∧
      ShmCreateSafe sampleParam (sampleReplies ubsSuccess) sampleAdapter := by
  have hok : (shmCreate sampleParam (sampleReplies ubsSuccess) sampleAdapter).ret = ubsmOk := by
    decide
  obtain ⟨obj, -, -, hiff⟩ := shmCreate_ok_pending_iff _ _ _ hok
  refine ⟨hok, hiff.mp fun key hkey => ?_⟩
  cases hkey

/-- The affinity attempt times out and the fallback succeeds: the request is answered
with success while a removal that deletes the new memory is queued. -/
theorem shmCreate_fallback_leaves_rollback :
    ∃ obj key, (shmCreate sampleParam (sampleReplies ubsErrTimedOut) sampleAdapter).ret = ubsmOk ∧
      (shmCreate sampleParam (sampleReplies ubsErrTimedOut) sampleAdapter).created = some obj ∧
      key ∈ (shmCreate sampleParam (sampleReplies ubsErrTimedOut)
        sampleAdapter).state.monitor.delayedRemoveKeys ∧
      RollbackDeletes key obj := by
  refine ⟨⟨[97], 4096, ⟨1000, 1000, 100, 0o600, 0, 2 ^ 32⟩, 4, [1], [], none⟩,
    createTimeOutKey 0 sampleParam (2 ^ 32), by decide, by decide, ?_, ?_⟩
  · decide
  · rw [rollbackDeletes_iff]
    exact ⟨rfl, rfl, rfl, rfl, by decide, rfl⟩

end UbsMem
