import UbsMem.SuspendClients
import UbsMem.Machine

/-! # Suspending and resuming the connection of a client

`IpcProxy` is the SDK's side of suspend and resume.  `Suspend` asks the daemon to put
the process into the array of suspended clients and then stops the local IPC client;
`Resume` starts the client again and asks the daemon to take the process out.  A
request can be executed and its reply lost, so after a transport error the SDK does not
know whether the process is in the array; three states `FAILED_…` stand for what it
still has to find out.

`IpcWorld` is one process together with the daemon's array.  The outcomes of the calls
that are not modelled (whether the client starts and stops, what happens to a request)
are arguments of the SDK's calls.  A connection that goes down reaches `RegisterHandler`
of the daemon, which queues the process for reclaiming unless it is in the array.
-/
namespace UbsMem

inductive IpcSuspendState
  | uninitialized
  | running
  | suspending
  | suspended
  | resuming
  | finalizing
  | failedSuspending
  | failedStopping
  | failedResuming
  deriving DecidableEq

def isTransportError (ret : Int) : Bool :=
  ret = mxmErrIpcInitCall || ret = mxmErrIpcSyncCall || ret = mxmErrIpcHcomInnerSyncCall ||
    ret = mxmErrIpcCrcCheckError || ret = mxmErrIpcSerializeDeserializeError

/-- `g_ipcClientCount` and `g_ipcClientStopping`. -/
structure IpcClient where
  count : Nat
  stopping : Bool
  deriving DecidableEq

/-- A process, the array it is entered in, and the exits that wait to be handled. -/
structure IpcWorld where
  state : IpcSuspendState
  client : IpcClient
  store : RecordStore
  exitedPids : List UInt32

/-- What `client->Stop()` does: a stop that fails may have taken the connection down. -/
inductive StopOutcome
  | ok
  | failed (linkDown : Bool)
  deriving DecidableEq

/-- What happens to a request: it is executed and answered; it is refused without being
executed; it is lost before, or its reply after, it is executed. -/
inductive RequestOutcome
  | answered
  | refused (code : { c : Int // c ≠ ubsmOk })
  | lostBefore
  | lostAfter
  deriving DecidableEq

/-- Refused by the daemon, which is not a transport error. -/
def RequestOutcome.rejected : RequestOutcome → Bool
  | .refused code => !isTransportError code
  | _ => false

namespace IpcWorld

/-- The process has not called the SDK. -/
def start (store : RecordStore) : IpcWorld := ⟨.uninitialized, ⟨0, false⟩, store, []⟩

section Calls

variable (config : StoreConfig) (pid : UInt32)

/-- `UBSMemMonitor::RegisterHandler`, when the connection has gone down. -/
def registerHandler (w : IpcWorld) : IpcWorld :=
  if isClientSuspended config pid w.store then w
  else { w with exitedPids := w.exitedPids ++ [pid] }

def mxmComStartIpcClient (started : Bool) (w : IpcWorld) : Int × IpcWorld :=
  if w.client.stopping then (hFail, w)
  else if w.client.count > 0 then (ubsmOk, { w with client := ⟨w.client.count + 1, false⟩ })
  else if started then (ubsmOk, { w with client := ⟨1, false⟩ })
  else (hFail, w)

def mxmComStopIpcClient (stop : StopOutcome) (w : IpcWorld) : Int × IpcWorld :=
  if w.client.count > 1 then
    (ubsmOk, { w with client := { w.client with count := w.client.count - 1 } })
  else if w.client.count ≠ 1 then (ubsmOk, w)
  else
    match stop with
    | .ok => (ubsmOk, registerHandler config pid { w with client := ⟨0, false⟩ })
    | .failed false => (hFail, { w with client := ⟨1, true⟩ })
    | .failed true => (hFail, registerHandler config pid { w with client := ⟨1, true⟩ })

/-- A request of the process: `handler` is what the daemon does when it executes it. -/
def request (handler : RecordStore → Int × RecordStore) (outcome : RequestOutcome) (w : IpcWorld) :
    Int × IpcWorld :=
  if w.client.count = 0 ∨ w.client.stopping = true then (mxmErrIpcHcomInnerSyncCall, w)
  else
    match outcome with
    | .answered => ((handler w.store).1, { w with store := (handler w.store).2 })
    | .refused code => (code, w)
    | .lostBefore => (mxmErrIpcHcomInnerSyncCall, w)
    | .lostAfter => (mxmErrIpcHcomInnerSyncCall, { w with store := (handler w.store).2 })

def ipcCallSuspendInner : RequestOutcome → IpcWorld → Int × IpcWorld :=
  request (ipcSuspend config pid)

def ipcCallResumeInner : RequestOutcome → IpcWorld → Int × IpcWorld :=
  request (ipcResume config pid)

def setState (w : IpcWorld) (state : IpcSuspendState) : IpcWorld := { w with state := state }

/-- `IpcProxy::Initialize`. -/
def initializeIpc (started handlerSet : Bool) (stop : StopOutcome) (w : IpcWorld) :
    Int × IpcWorld :=
  if w.state = .running then (ubsmOk, w)
  else if w.state ≠ .uninitialized then (mxmErrNameBusy, w)
  else
    let (ret, w) := mxmComStartIpcClient started w
    if ret ≠ 0 then (mxmErrIpcInitCall, w)
    else if !handlerSet then (mxmErrIpcInitCall, (mxmComStopIpcClient config pid stop w).2)
    else (ubsmOk, w.setState .running)

/-- The end of `Suspend`: the client is stopped. -/
def suspendStop (stop : StopOutcome) (w : IpcWorld) : Int × IpcWorld :=
  let (ret, w) := mxmComStopIpcClient config pid stop w
  if ret ≠ ubsmOk then (mxmErrMemlib, w.setState .failedStopping)
  else (ubsmOk, w.setState .suspended)

def suspend (reply : RequestOutcome) (stop : StopOutcome) (w : IpcWorld) : Int × IpcWorld :=
  match w.state with
  | .suspended => (ubsmOk, w)
  | .uninitialized => (mxmErrMemlib, w)
  | .failedStopping => suspendStop config pid stop (w.setState .suspending)
  | .running | .failedSuspending =>
    let (ret, w') := ipcCallSuspendInner config pid reply (w.setState .suspending)
    if ret ≠ ubsmOk then
      let firstRequestRejected := w.state = .running ∧ !isTransportError ret
      (ret, w'.setState (if firstRequestRejected then .running else .failedSuspending))
    else suspendStop config pid stop w'
  | _ => (mxmErrNameBusy, w)

/-- The outcomes of the calls that `Resume` makes. -/
structure ResumeOutcomes where
  stopOld : StopOutcome
  started : Bool
  handlerSet : Bool
  stopNew : StopOutcome
  reply : RequestOutcome
  stopRejected : StopOutcome
  deriving DecidableEq

def ensureResumeClientReady (o : ResumeOutcomes) (before : IpcSuspendState) (w : IpcWorld) :
    Int × IpcWorld :=
  if before = .failedSuspending ∨ before = .failedResuming then (ubsmOk, w)
  else
    let (ret, w) := if before = .failedStopping then mxmComStopIpcClient config pid o.stopOld w
      else (ubsmOk, w)
    if ret ≠ ubsmOk then (mxmErrMemlib, w.setState .failedStopping)
    else
      let (ret, w) := mxmComStartIpcClient o.started w
      if ret ≠ ubsmOk then (mxmErrIpcInitCall, w.setState .suspended)
      else if !o.handlerSet then
        let (stopRet, w) := mxmComStopIpcClient config pid o.stopNew w
        (mxmErrIpcInitCall, w.setState (if stopRet = ubsmOk then .suspended else .failedStopping))
      else (ubsmOk, w)

def handleResumeResult (o : ResumeOutcomes) (before : IpcSuspendState) (ret : Int) (w : IpcWorld) :
    Int × IpcWorld :=
  if ret = ubsmOk then (ubsmOk, w.setState .running)
  else
    let suspendStateUncertain := before = .failedSuspending
    let (stopRet, w) :=
      if !isTransportError ret ∧ ¬ suspendStateUncertain then
        mxmComStopIpcClient config pid o.stopRejected w
      else (ubsmOk, w)
    if stopRet ≠ ubsmOk then (ret, w.setState .failedStopping)
    else if isTransportError ret then (ret, w.setState .failedResuming)
    else (ret, w.setState (if suspendStateUncertain then .failedSuspending else .suspended))

def resume (o : ResumeOutcomes) (w : IpcWorld) : Int × IpcWorld :=
  match w.state with
  | .running => (ubsmOk, w)
  | .uninitialized => (mxmErrMemlib, w)
  | .suspended | .failedSuspending | .failedStopping | .failedResuming =>
    let (ret, w') := ensureResumeClientReady config pid o w.state (w.setState .resuming)
    if ret ≠ ubsmOk then (ret, w')
    else
      let (ret, w') := ipcCallResumeInner config pid o.reply w'
      handleResumeResult config pid o w.state ret w'
  | _ => (mxmErrNameBusy, w)

def destroy (stop : StopOutcome) (w : IpcWorld) : Int × IpcWorld :=
  match w.state with
  | .uninitialized => (ubsmOk, w)
  | .suspending | .resuming | .finalizing => (mxmErrNameBusy, w)
  | _ =>
    let (ret, w) := mxmComStopIpcClient config pid stop (w.setState .finalizing)
    if ret = ubsmOk then (ubsmOk, w.setState .uninitialized)
    else (mxmErrMemlib, w.setState .failedStopping)

end Calls

end IpcWorld

/-- The calls of the SDK, with the outcomes of what they call. -/
inductive IpcCall
  | init (started handlerSet : Bool) (stop : StopOutcome)
  | suspend (reply : RequestOutcome) (stop : StopOutcome)
  | resume (outcomes : IpcWorld.ResumeOutcomes)
  | destroy (stop : StopOutcome)
  deriving DecidableEq

namespace IpcWorld

/-- A call of the SDK: its return value, and what it leaves. -/
def perform (config : StoreConfig) (pid : UInt32) (w : IpcWorld) : IpcCall → Int × IpcWorld
  | .init started handlerSet stop => initializeIpc config pid started handlerSet stop w
  | .suspend reply stop => suspend config pid reply stop w
  | .resume outcomes => resume config pid outcomes w
  | .destroy stop => destroy config pid stop w

/-- The process is in the daemon's array. -/
def Registered (pid : UInt32) (w : IpcWorld) : Prop := pid ∈ w.store.mem.suspended

/-! ### What the calls do -/

section Specs

variable {config : StoreConfig} {pid : UInt32} {w : IpcWorld} {r : Int × IpcWorld}

@[simp] theorem store_setState (w : IpcWorld) (state : IpcSuspendState) :
    (w.setState state).store = w.store := rfl

theorem registerHandler_spec (hok : SuspendOk config w.store) (hpid : positivePid pid = true) :
    (registerHandler config pid w).store = w.store ∧
    (registerHandler config pid w).state = w.state ∧
      (w.Registered pid → (registerHandler config pid w).exitedPids = w.exitedPids) := by
  rw [registerHandler]
  split_ifs with hsuspended
  · exact ⟨rfl, rfl, fun _ => rfl⟩
  · refine ⟨rfl, rfl, fun hreg => ?_⟩
    exact absurd ((isClientSuspended_iff hok hpid).mpr hreg) hsuspended

theorem start_spec (started : Bool) (w : IpcWorld) :
    (mxmComStartIpcClient started w).2.store = w.store ∧
      (mxmComStartIpcClient started w).2.state = w.state ∧
      (mxmComStartIpcClient started w).2.exitedPids = w.exitedPids := by
  rw [mxmComStartIpcClient]
  split_ifs <;> exact ⟨rfl, rfl, rfl⟩

/-- Stopping the client is harmless while the process is in the array. -/
theorem stop_spec (hok : SuspendOk config w.store) (hpid : positivePid pid = true)
    (stop : StopOutcome) (hr : mxmComStopIpcClient config pid stop w = r) :
    r.2.store = w.store ∧ r.2.state = w.state ∧ (w.Registered pid →
      r.2.exitedPids = w.exitedPids) := by
  subst hr
  unfold mxmComStopIpcClient
  split_ifs
  · exact ⟨rfl, rfl, fun _ => rfl⟩
  · exact ⟨rfl, rfl, fun _ => rfl⟩
  · cases stop with
    | ok => exact registerHandler_spec hok hpid
    | failed linkDown =>
      cases linkDown with
      | false => exact ⟨rfl, rfl, fun _ => rfl⟩
      | true => exact registerHandler_spec hok hpid

theorem isTransportError_syncCall : isTransportError mxmErrIpcHcomInnerSyncCall = true := by decide

theorem syncCall_ne : mxmErrIpcHcomInnerSyncCall ≠ ubsmOk := by decide

section

variable (hok : SuspendOk config w.store) (hpid : positivePid pid = true) (reply : RequestOutcome)

include hok hpid

/-- **The request to suspend**: the process is in the array; or the request failed in
transport; or it was refused and nothing has changed. -/
theorem ipcCallSuspendInner_spec (hr : ipcCallSuspendInner config pid reply w = r) :
    SuspendOk config r.2.store ∧ r.2.exitedPids = w.exitedPids ∧ (r.1 = ubsmOk ∧
      r.2.Registered pid ∨ r.1 ≠ ubsmOk ∧ (isTransportError r.1 = true ∨ r.2 = w)) := by
  subst hr
  obtain ⟨hok', hcases⟩ := hok.ipcSuspend hpid
  unfold ipcCallSuspendInner request
  split_ifs with hclient
  · exact ⟨hok, rfl, .inr ⟨syncCall_ne, .inl isTransportError_syncCall⟩⟩
  cases reply with
  | answered =>
    refine ⟨hok', rfl, ?_⟩
    rcases hcases with ⟨hret, hmem⟩ | ⟨hret, hsame⟩
    · exact .inl ⟨hret, (hmem pid).mpr (.inr rfl)⟩
    · refine .inr ⟨?_, .inr ?_⟩
      · dsimp only
        rw [hret]
        decide
      · dsimp only
        rw [hsame]
  | refused code => exact ⟨hok, rfl, .inr ⟨code.2, .inr rfl⟩⟩
  | lostBefore => exact ⟨hok, rfl, .inr ⟨syncCall_ne, .inl isTransportError_syncCall⟩⟩
  | lostAfter => exact ⟨hok', rfl, .inr ⟨syncCall_ne, .inl isTransportError_syncCall⟩⟩

/-- **The request to resume**: the process is not in the array; or the request failed in
transport; or the daemon rejected it and nothing has changed. -/
theorem ipcCallResumeInner_spec (hr : ipcCallResumeInner config pid reply w = r) :
    SuspendOk config r.2.store ∧ r.2.exitedPids = w.exitedPids ∧ (r.1 = ubsmOk ∧
      ¬ r.2.Registered pid ∨ r.1 ≠ ubsmOk ∧ (isTransportError r.1 = true ∨
      isTransportError r.1 = false ∧ reply.rejected = true ∧ r.2 = w)) := by
  subst hr
  obtain ⟨hok', hret, hmem⟩ := hok.ipcResume hpid
  unfold ipcCallResumeInner request
  split_ifs with hclient
  · exact ⟨hok, rfl, .inr ⟨syncCall_ne, .inl isTransportError_syncCall⟩⟩
  cases reply with
  | answered => exact ⟨hok', rfl, .inl ⟨hret, fun hreg => ((hmem pid).mp hreg).2 rfl⟩⟩
  | refused code =>
    refine ⟨hok, rfl, .inr ⟨code.2, ?_⟩⟩
    by_cases htransport : isTransportError code = true
    · exact .inl htransport
    · exact .inr ⟨by simpa using htransport, by simpa [RequestOutcome.rejected] using htransport,
        rfl⟩
  | lostBefore => exact ⟨hok, rfl, .inr ⟨syncCall_ne, .inl isTransportError_syncCall⟩⟩
  | lostAfter => exact ⟨hok', rfl, .inr ⟨syncCall_ne, .inl isTransportError_syncCall⟩⟩

end

/-- The state in which the process is taken to be in the array. -/
def Parked (w : IpcWorld) : Prop := w.state = .suspended ∨ w.state = .failedStopping

section

variable (hok : SuspendOk config w.store) (hpid : positivePid pid = true)

include hok hpid

theorem suspendStop_spec (stop : StopOutcome) : (suspendStop config pid stop w).2.store = w.store ∧
      (suspendStop config pid stop w).2.Parked ∧
      (w.Registered pid → (suspendStop config pid stop w).2.exitedPids = w.exitedPids) := by
  obtain ⟨hstore, -, hexited⟩ := stop_spec hok hpid stop rfl
  rw [suspendStop]
  dsimp only
  split_ifs
  · exact ⟨hstore, .inr rfl, hexited⟩
  · exact ⟨hstore, .inl rfl, hexited⟩

/-- **What `Suspend` can do**: nothing; park the process, which is in the array if it was
whenever it was parked before; leave the request open; or go on running as before. -/
theorem suspend_spec (reply : RequestOutcome) (stop : StopOutcome)
    (hr : suspend config pid reply stop w = r) :
    SuspendOk config r.2.store ∧ (r.2 = w ∨ r.2.Parked ∧ ((w.Parked → w.Registered pid) →
        r.2.Registered pid ∧ r.2.exitedPids = w.exitedPids) ∨
      r.2.state = .failedSuspending ∧ r.2.exitedPids = w.exitedPids ∨
      r.2.state = .running ∧ w.state = .running ∧
        r.2.store = w.store ∧ r.2.exitedPids = w.exitedPids) := by
  subst hr
  -- from the two states in which the request is sent
  have hsend : w.state = .running ∨ w.state = .failedSuspending → suspend config pid reply stop w =
        (if (ipcCallSuspendInner config pid reply (w.setState .suspending)).1 ≠ ubsmOk then
          ((ipcCallSuspendInner config pid reply (w.setState .suspending)).1,
            (ipcCallSuspendInner config pid reply (w.setState .suspending)).2.setState
              (if w.state = .running ∧ !isTransportError
                  (ipcCallSuspendInner config pid reply (w.setState .suspending)).1
                then .running else .failedSuspending))
        else suspendStop config pid stop
          (ipcCallSuspendInner config pid reply (w.setState .suspending)).2) := by
    rintro (hstate | hstate) <;> simp [suspend, hstate]
  by_cases hrequest : w.state = .running ∨ w.state = .failedSuspending
  · obtain ⟨hok', hexited, hcases⟩ :=
      ipcCallSuspendInner_spec (w := w.setState .suspending) hok hpid reply rfl
    rw [hsend hrequest]
    rcases hcases with ⟨hret, hreg⟩ | ⟨hret, hfailed⟩
    · rw [if_neg (by simp [hret])]
      obtain ⟨hstore, hparked, hexited'⟩ := suspendStop_spec hok' hpid stop
      refine ⟨hstore ▸ hok', .inr (.inl ⟨hparked, fun _ => ⟨?_, (hexited' hreg).trans hexited⟩⟩)⟩
      rw [Registered, hstore]
      exact hreg
    · rw [if_pos hret]
      refine ⟨hok', .inr (.inr ?_)⟩
      split_ifs with hfirst
      · obtain ⟨hrunning, hrejected⟩ := hfirst
        rcases hfailed with htransport | hsame
        · simp [htransport] at hrejected
        · refine .inr ⟨rfl, hrunning, ?_, hexited⟩
          rw [store_setState, hsame, store_setState]
      · exact .inl ⟨rfl, hexited⟩
  · cases hstate : w.state with
    | running => exact absurd (.inl hstate) hrequest
    | failedSuspending => exact absurd (.inr hstate) hrequest
    | failedStopping =>
      have hcall : suspend config pid reply stop w =
          suspendStop config pid stop (w.setState .suspending) := by
        rw [suspend, hstate]
      obtain ⟨hstore, hparked, hexited⟩ :=
        suspendStop_spec (w := w.setState .suspending) hok hpid stop
      rw [hcall]
      refine ⟨hstore ▸ hok, .inr (.inl ⟨hparked, fun hreg => ⟨?_, hexited (hreg (.inr hstate))⟩⟩)⟩
      rw [Registered, hstore]
      exact hreg (.inr hstate)
    | _ =>
      have hcall : (suspend config pid reply stop w).2 = w := by
        rw [suspend, hstate]
      rw [hcall]
      exact ⟨hok, .inl rfl⟩

/-- **Before the request to resume**: the client is there, or the process is parked. -/
theorem ensureResumeClientReady_spec (o : ResumeOutcomes) (before : IpcSuspendState)
    (hr : ensureResumeClientReady config pid o before w = r) :
    r.2.store = w.store ∧ (w.Registered pid ∨ before = .failedSuspending ∨
      before = .failedResuming → r.2.exitedPids = w.exitedPids) ∧ (r.1 = ubsmOk ∨ r.2.Parked ∧
      before ≠ .failedSuspending ∧ before ≠ .failedResuming) := by
  subst hr
  rw [ensureResumeClientReady]
  by_cases havailable : before = .failedSuspending ∨ before = .failedResuming
  · rw [if_pos havailable]
    exact ⟨rfl, fun _ => rfl, .inl rfl⟩
  rw [if_neg havailable]
  have hnot : before ≠ .failedSuspending ∧ before ≠ .failedResuming := not_or.mp havailable
  have hreg : w.Registered pid ∨ before = .failedSuspending ∨ before = .failedResuming →
      w.Registered pid := by
    rintro (hreg | hbefore)
    · exact hreg
    · exact absurd hbefore havailable
  -- the old client is stopped, if it is there
  obtain ⟨r₁, hr₁⟩ : ∃ r, r = if before = .failedStopping then
      mxmComStopIpcClient config pid o.stopOld w else (ubsmOk, w) := ⟨_, rfl⟩
  have h₁ : r₁.2.store = w.store ∧ (w.Registered pid → r₁.2.exitedPids = w.exitedPids) := by
    rw [hr₁]
    split_ifs
    · exact ⟨(stop_spec hok hpid o.stopOld rfl).1, (stop_spec hok hpid o.stopOld rfl).2.2⟩
    · exact ⟨rfl, fun _ => rfl⟩
  rw [← hr₁]
  dsimp only
  by_cases hret₁ : r₁.1 = ubsmOk
  swap
  · rw [if_pos hret₁]
    exact ⟨h₁.1, fun h => h₁.2 (hreg h), .inr ⟨.inr rfl, hnot⟩⟩
  rw [if_neg (not_not.mpr hret₁)]
  obtain ⟨hstore₂, -, hexited₂⟩ := start_spec o.started r₁.2
  by_cases hret₂ : (mxmComStartIpcClient o.started r₁.2).1 = ubsmOk
  swap
  · rw [if_pos hret₂]
    exact ⟨hstore₂.trans h₁.1, fun h => hexited₂.trans (h₁.2 (hreg h)), .inr ⟨.inl rfl, hnot⟩⟩
  rw [if_neg (not_not.mpr hret₂)]
  have hok₂ : SuspendOk config (mxmComStartIpcClient o.started r₁.2).2.store := by
    rw [hstore₂, h₁.1]
    exact hok
  obtain ⟨hstore₃, -, hexited₃⟩ := stop_spec hok₂ hpid o.stopNew rfl
  split_ifs with hset hstop
  · refine ⟨hstore₃.trans (hstore₂.trans h₁.1), fun h => ?_, .inr ⟨.inl rfl, hnot⟩⟩
    refine (hexited₃ ?_).trans (hexited₂.trans (h₁.2 (hreg h)))
    rw [Registered, hstore₂, h₁.1]
    exact hreg h
  · refine ⟨hstore₃.trans (hstore₂.trans h₁.1), fun h => ?_, .inr ⟨.inr rfl, hnot⟩⟩
    refine (hexited₃ ?_).trans (hexited₂.trans (h₁.2 (hreg h)))
    rw [Registered, hstore₂, h₁.1]
    exact hreg h
  · exact ⟨hstore₂.trans h₁.1, fun h => hexited₂.trans (h₁.2 (hreg h)), .inl rfl⟩

/-- **After the request to resume.** -/
theorem handleResumeResult_spec (o : ResumeOutcomes) (before : IpcSuspendState) (ret : Int)
    (hr : handleResumeResult config pid o before ret w = r) :
    r.2.store = w.store ∧ (w.Registered pid ∨ ret = ubsmOk ∨ isTransportError ret = true ∨
      before = .failedSuspending → r.2.exitedPids = w.exitedPids) ∧ (ret = ubsmOk ∧
      r.2.state = .running ∨ r.2.state = .failedResuming ∨ r.2.state = .failedSuspending ∨
      r.2.Parked ∧ ret ≠ ubsmOk ∧ isTransportError ret = false ∧ before ≠ .failedSuspending) := by
  subst hr
  rw [handleResumeResult]
  by_cases hret : ret = ubsmOk
  · rw [if_pos hret]
    exact ⟨rfl, fun _ => rfl, .inl ⟨hret, rfl⟩⟩
  rw [if_neg hret]
  by_cases htransport : isTransportError ret = true
  · simp only [htransport]
    exact ⟨rfl, fun _ => rfl, .inr (.inl rfl)⟩
  have hnot : isTransportError ret = false := by simpa using htransport
  by_cases huncertain : before = .failedSuspending
  · simp only [hnot, huncertain]
    exact ⟨rfl, fun _ => rfl, .inr (.inr (.inl rfl))⟩
  obtain ⟨hstore, -, hexited⟩ := stop_spec hok hpid o.stopRejected rfl
  simp only [hnot, huncertain, Bool.not_false, not_false_eq_true, and_self, if_true,
    Bool.false_eq_true, if_false]
  have hreg : w.Registered pid ∨ ret = ubsmOk ∨ False ∨ False → w.Registered pid := by
    rintro (h | h | h | h)
    · exact h
    · exact absurd h hret
    · exact h.elim
    · exact h.elim
  split_ifs
  · exact ⟨hstore, fun h => hexited (hreg h),
      .inr (.inr (.inr ⟨.inr rfl, hret, trivial, huncertain⟩))⟩
  · exact ⟨hstore, fun h => hexited (hreg h),
      .inr (.inr (.inr ⟨.inl rfl, hret, trivial, huncertain⟩))⟩

end

/-- What `Resume` can rely on: a parked process is in the array, and the daemon rejects a
request that is sent again, after one whose reply was lost, only if the process still is. -/
def ResumeSafe (pid : UInt32) (o : ResumeOutcomes) (w : IpcWorld) : Prop :=
  (w.Parked → w.Registered pid) ∧
    (w.state = .failedResuming → o.reply.rejected = true → w.Registered pid)

section

variable (hok : SuspendOk config w.store) (hpid : positivePid pid = true)

include hok hpid

/-- **What `Resume` can do**: nothing; go on running, with the process out of the array;
leave the request open; or park the process. -/
theorem resume_spec (o : ResumeOutcomes) (hr : resume config pid o w = r) :
    SuspendOk config r.2.store ∧ (ResumeSafe pid o w → r.2.exitedPids = w.exitedPids) ∧
      (r.2 = w ∨ r.2.state = .running ∧ ¬ r.2.Registered pid ∨ r.2.state = .failedResuming ∨
        r.2.state = .failedSuspending ∨ r.2.Parked ∧
        (ResumeSafe pid o w → r.2.Registered pid)) := by
  subst hr
  by_cases hsend : w.Parked ∨ w.state = .failedSuspending ∨ w.state = .failedResuming
  swap
  · have hsame : (resume config pid o w).2 = w := by
      rw [Parked, not_or, not_or, not_or] at hsend
      cases hstate : w.state <;> simp_all [resume]
    rw [hsame]
    exact ⟨hok, fun _ => rfl, .inl rfl⟩
  obtain ⟨e, he⟩ : ∃ e, e = ensureResumeClientReady config pid o w.state (w.setState .resuming) :=
    ⟨_, rfl⟩
  obtain ⟨r, hr⟩ : ∃ r, r = ipcCallResumeInner config pid o.reply e.2 := ⟨_, rfl⟩
  have hcall : resume config pid o w =
      if e.1 ≠ ubsmOk then e else handleResumeResult config pid o w.state r.1 r.2 := by
    rcases hsend with (hstate | hstate) | hstate | hstate <;> simp [resume, hstate, he, hr]
  obtain ⟨hstore, hexited, hready⟩ :=
    ensureResumeClientReady_spec (w := w.setState .resuming) hok hpid o w.state rfl
  rw [← he] at hstore hexited hready
  have hoke : SuspendOk config e.2.store := by
    rw [hstore]
    exact hok
  have hexited' : ResumeSafe pid o w → e.2.exitedPids = w.exitedPids := by
    intro hsafe
    rcases hsend with hparked | hopen
    · exact hexited (.inl (hsafe.1 hparked))
    · exact hexited (.inr hopen)
  by_cases hret : e.1 = ubsmOk
  swap
  · rw [hcall, if_pos hret]
    obtain ⟨hparked, hnot⟩ := hready.resolve_left hret
    refine ⟨hoke, hexited', .inr (.inr (.inr (.inr ⟨hparked, fun hsafe => ?_⟩)))⟩
    rw [Registered, hstore]
    exact hsafe.1 (hsend.resolve_right (not_or.mpr hnot))
  rw [hcall, if_neg (not_not.mpr hret)]
  obtain ⟨hokr, hexitedr, hreply⟩ := ipcCallResumeInner_spec hoke hpid o.reply rfl
  rw [← hr] at hokr hexitedr hreply
  obtain ⟨hstoreh, hexitedh, hstate⟩ := handleResumeResult_spec hokr hpid o w.state r.1 rfl
  have hokh : SuspendOk config (handleResumeResult config pid o w.state r.1 r.2).2.store := by
    rw [hstoreh]
    exact hokr
  -- a request that was rejected leaves the array as it was
  have hrejected : r.1 ≠ ubsmOk → isTransportError r.1 = false → w.state ≠ .failedSuspending →
      ResumeSafe pid o w → r.2.Registered pid := by
    intro hne htransport huncertain hsafe
    rcases hreply with ⟨hok, -⟩ | ⟨-, htrue | ⟨-, hreject, hsame⟩⟩
    · exact absurd hok hne
    · rw [htransport] at htrue
      cases htrue
    · rw [hsame, Registered, hstore]
      rcases hsend with hparked | hopen | hopen
      · exact hsafe.1 hparked
      · exact absurd hopen huncertain
      · exact hsafe.2 hopen hreject
  refine ⟨hokh, fun hsafe => ?_, ?_⟩
  · refine (hexitedh ?_).trans (hexitedr.trans (hexited' hsafe))
    by_cases hne : r.1 = ubsmOk
    · exact .inr (.inl hne)
    by_cases htransport : isTransportError r.1 = true
    · exact .inr (.inr (.inl htransport))
    by_cases huncertain : w.state = .failedSuspending
    · exact .inr (.inr (.inr huncertain))
    · exact .inl (hrejected hne (by simpa using htransport) huncertain hsafe)
  · rcases hstate with ⟨hok, hrunning⟩ | hstate | hstate | ⟨hparked, hne, htransport, huncertain⟩
    · refine .inr (.inl ⟨hrunning, ?_⟩)
      rcases hreply with ⟨-, hgone⟩ | ⟨hne, -⟩
      · rw [Registered, hstoreh]
        exact hgone
      · exact absurd hok hne
    · exact .inr (.inr (.inl hstate))
    · exact .inr (.inr (.inr (.inl hstate)))
    · refine .inr (.inr (.inr (.inr ⟨hparked, fun hsafe => ?_⟩)))
      rw [Registered, hstoreh]
      exact hrejected hne htransport huncertain hsafe

theorem initializeIpc_spec (started handlerSet : Bool) (stop : StopOutcome)
    (hr : initializeIpc config pid started handlerSet stop w = r) :
    r.2.store = w.store ∧ (r.2.state = w.state ∨ w.state = .uninitialized ∧
      r.2.state = .running) := by
  subst hr
  obtain ⟨hstore, hstate, -⟩ := start_spec started w
  have hok' : SuspendOk config (mxmComStartIpcClient started w).2.store := by
    rw [hstore]
    exact hok
  obtain ⟨hstore', hstate', -⟩ := stop_spec hok' hpid stop rfl
  rw [initializeIpc]
  by_cases hrunning : w.state = .running
  · rw [if_pos hrunning]
    exact ⟨rfl, .inl rfl⟩
  by_cases huninit : w.state = .uninitialized
  · rw [if_neg hrunning, if_neg (not_not.mpr huninit)]
    dsimp only
    split_ifs
    · exact ⟨hstore, .inl hstate⟩
    · exact ⟨hstore'.trans hstore, .inl (hstate'.trans hstate)⟩
    · exact ⟨hstore, .inr ⟨huninit, rfl⟩⟩
  · rw [if_neg hrunning, if_pos huninit]
    exact ⟨rfl, .inl rfl⟩

theorem destroy_spec (stop : StopOutcome) (hr : destroy config pid stop w = r) :
    r.2.store = w.store ∧ (r.2 = w ∨ r.2.state = .uninitialized ∨ r.2.state = .failedStopping ∧
      stop ≠ .ok) := by
  subst hr
  obtain ⟨hstore, -, -⟩ := stop_spec (w := w.setState .finalizing) hok hpid stop rfl
  have hfailed : (mxmComStopIpcClient config pid stop (w.setState .finalizing)).1 ≠ ubsmOk →
      stop ≠ .ok := by
    rintro hret rfl
    refine hret ?_
    unfold mxmComStopIpcClient
    split_ifs <;> rfl
  cases hstate : w.state with
  | uninitialized | suspending | resuming | finalizing => simp [destroy, hstate]
  | _ =>
    simp only [destroy, hstate]
    split_ifs with hret
    · exact ⟨hstore, .inr (.inl rfl)⟩
    · exact ⟨hstore, .inr (.inr ⟨rfl, hfailed hret⟩)⟩

end

end Specs

end IpcWorld
end UbsMem
