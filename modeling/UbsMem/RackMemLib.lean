import UbsMem.IpcRuns

/-! # The library around the proxy

`RackMemLib` starts and shuts down the modules of the SDK, of which the IPC proxy is
the first.  Its `Destroy` resumes a suspended connection before it shuts the modules
down, and goes on when that fails; its `Initialize` first shuts down what an earlier
attempt has left.  Both end in `IpcProxy::Destroy`, which takes the process to
`UNINITIALIZED` whether or not the daemon still has it in its array.

`RackMemLib` records every call of the proxy with the state in which it is made, so that
a condition on those calls can be put on runs of the library.
-/
namespace UbsMem

open List

/-- The modules of `InitModules`. -/
inductive RackMemModule
  | ipc
  | shmMetaMgr
  | memPerfStat
  | obmm
  deriving DecidableEq

/-- Their order. -/
def rackMemModules : List RackMemModule := [.ipc, .shmMetaMgr, .memPerfStat, .obmm]

/-- The outcomes of what a call of the library calls. -/
structure LibOutcomes where
  started : Bool
  handlerSet : Bool
  stopInit : StopOutcome
  stop : StopOutcome
  resume : IpcWorld.ResumeOutcomes
  init : RackMemModule → Int
  shutdown : RackMemModule → Int

/-- `RackMemLib`, with the calls of the proxy that have been made. -/
structure RackMemLib where
  inited : Bool
  isInitialized : RackMemModule → Bool
  ipc : IpcWorld
  calls : List (IpcWorld × IpcCall)

namespace RackMemLib

/-- Nothing has been called. -/
def start (store : RecordStore) : RackMemLib := ⟨false, fun _ => false, .start store, []⟩

section Calls

variable (config : StoreConfig) (pid : UInt32) (o : LibOutcomes)

/-- A call of the proxy. -/
def proxy (c : IpcCall) (l : RackMemLib) : Int × RackMemLib :=
  ((l.ipc.perform config pid c).1,
    { l with ipc := (l.ipc.perform config pid c).2, calls := l.calls ++ [(l.ipc, c)] })

/-- Mark a module. -/
def mark (m : RackMemModule) (initialized : Bool) (l : RackMemLib) : RackMemLib :=
  { l with isInitialized := Function.update l.isInitialized m initialized }

/-- `desc.init()`. -/
def initModule (m : RackMemModule) (l : RackMemLib) : Int × RackMemLib :=
  match m with
  | .ipc => proxy config pid (.init o.started o.handlerSet o.stopInit) l
  | m => (o.init m, l)

/-- `desc.shutdown()`. -/
def shutdownModule (m : RackMemModule) (l : RackMemLib) : Int × RackMemLib :=
  match m with
  | .ipc => proxy config pid (.destroy o.stop) l
  | .shmMetaMgr => (0, l)
  | m => (o.shutdown m, l)

/-- The first loop of `Initialize`: what is left is shut down, up to the first failure. -/
def shutdownPending : List RackMemModule → RackMemLib → Int × RackMemLib
  | [], l => (ubsmOk, l)
  | m :: ms, l =>
    if !l.isInitialized m then shutdownPending ms l
    else
      let (ret, l) := shutdownModule config pid o m l
      if ret ≠ 0 then (mxmErrMemlib, l) else shutdownPending ms (l.mark m false)

/-- The second loop of `Initialize`. -/
def initModules : List RackMemModule → RackMemLib → Int × RackMemLib
  | [], l => (ubsmOk, { l with inited := true })
  | m :: ms, l =>
    let (hr, l) := initModule config pid o m l
    if hr = 0 then initModules ms (l.mark m true) else (mxmErrMemlib, l)

/-- `RackMemLib::Initialize`. -/
def initializeLib (l : RackMemLib) : Int × RackMemLib :=
  if l.inited then (ubsmOk, l)
  else
    let (ret, l) := shutdownPending config pid o rackMemModules.reverse l
    if ret ≠ ubsmOk then (ret, l)
    else initModules config pid o rackMemModules { l with isInitialized := fun _ => false }

/-- The loop of `Destroy`: every module is shut down, whatever fails. -/
def shutdownAll : List RackMemModule → Int → RackMemLib → Int × RackMemLib
  | [], result, l => (result, { l with inited := false })
  | m :: ms, result, l =>
    if !l.isInitialized m then shutdownAll ms result l
    else
      let (hr, l) := shutdownModule config pid o m l
      if hr ≠ 0 then shutdownAll ms hr l else shutdownAll ms result (l.mark m false)

/-- `RackMemLib::Destroy`. -/
def destroyLib (l : RackMemLib) : Int × RackMemLib :=
  if !l.inited ∧ rackMemModules.all fun m => !l.isInitialized m then (ubsmOk, l)
  else if l.inited then
    let (ret, l) := proxy config pid (.resume o.resume) l
    shutdownAll config pid o rackMemModules.reverse ret l
  else shutdownAll config pid o rackMemModules.reverse ubsmOk l

end Calls

end RackMemLib

/-- What can happen: calls of the library or of the proxy, and requests of other
clients. -/
inductive LibEvent
  | initLib (outcomes : LibOutcomes)
  | destroyLib (outcomes : LibOutcomes)
  | call (c : IpcCall)
  | otherSuspends (q : UInt32)
  | otherResumes (q : UInt32)

namespace RackMemLib

/-- What an event does. -/
def step (config : StoreConfig) (pid : UInt32) (l : RackMemLib) : LibEvent → Option RackMemLib
  | .initLib o => some (l.initializeLib config pid o).2
  | .destroyLib o => some (l.destroyLib config pid o).2
  | .call c => some (l.proxy config pid c).2
  | .otherSuspends q =>
    if q = pid then none
    else some { l with ipc := { l.ipc with store := (ipcSuspend config q l.ipc.store).2 } }
  | .otherResumes q =>
    if q = pid then none
    else some { l with ipc := { l.ipc with store := (ipcResume config q l.ipc.store).2 } }

/-- **The condition on the calls of the proxy**: `Destroy` is called only while the process
is not in the array. -/
def Unregistered (pid : UInt32) (w : IpcWorld) : IpcCall → Prop
  | .destroy _ => ¬ w.Registered pid
  | _ => True

instance (pid : UInt32) (w : IpcWorld) (c : IpcCall) : Decidable (Unregistered pid w c) :=
  match c with
  | .destroy _ => inferInstanceAs (Decidable (¬ pid ∈ w.store.mem.suspended))
  | .init .. | .suspend .. | .resume .. => inferInstanceAs (Decidable True)

/-- The process is not in the array while it runs, or before it does. -/
structure RunningInv (config : StoreConfig) (pid : UInt32) (w : IpcWorld) : Prop where
  array : SuspendOk config w.store
  running : w.state = .running ∨ w.state = .uninitialized → ¬ w.Registered pid

section Runs

variable {config : StoreConfig} {pid : UInt32} {w : IpcWorld} {l l' : RackMemLib}

open IpcWorld

theorem RunningInv.perform (h : RunningInv config pid w) (hpid : positivePid pid = true)
    {c : IpcCall} (hmeets : Unregistered pid w c) :
    RunningInv config pid (w.perform config pid c).2 := by
  cases c with
  | init started handlerSet stop =>
    obtain ⟨hstore, hstate⟩ := initializeIpc_spec h.array hpid started handlerSet stop rfl
    refine ⟨hstore ▸ h.array, fun hs => ?_⟩
    rw [Registered, IpcWorld.perform, hstore]
    rcases hstate with hstate | ⟨huninit, -⟩
    · rw [IpcWorld.perform, hstate] at hs
      exact h.running hs
    · exact h.running (.inr huninit)
  | suspend reply stop =>
    obtain ⟨hok, hsame | ⟨hparked, -⟩ | ⟨hstate, -⟩ | ⟨-, hrunning, hstore, -⟩⟩ :=
      suspend_spec h.array hpid reply stop rfl
    · rw [IpcWorld.perform, hsame]
      exact h
    · refine ⟨hok, ?_⟩
      rintro (hs | hs) <;> rcases hparked with hp | hp <;> rw [IpcWorld.perform, hp] at hs <;>
        cases hs
    · refine ⟨hok, ?_⟩
      rintro (hs | hs) <;> rw [IpcWorld.perform, hstate] at hs <;> cases hs
    · refine ⟨hok, fun _ => ?_⟩
      rw [Registered, IpcWorld.perform, hstore]
      exact h.running (.inl hrunning)
  | resume o =>
    obtain ⟨hok, -, hsame | ⟨-, hgone⟩ | hstate | hstate | ⟨hparked, -⟩⟩ :=
      resume_spec h.array hpid o rfl
    · rw [IpcWorld.perform, hsame]
      exact h
    · exact ⟨hok, fun _ => hgone⟩
    · refine ⟨hok, ?_⟩
      rintro (hs | hs) <;> rw [IpcWorld.perform, hstate] at hs <;> cases hs
    · refine ⟨hok, ?_⟩
      rintro (hs | hs) <;> rw [IpcWorld.perform, hstate] at hs <;> cases hs
    · refine ⟨hok, ?_⟩
      rintro (hs | hs) <;> rcases hparked with hp | hp <;> rw [IpcWorld.perform, hp] at hs <;>
        cases hs
  | destroy stop =>
    obtain ⟨hstore, -⟩ := destroy_spec h.array hpid stop rfl
    refine ⟨hstore ▸ h.array, fun _ => ?_⟩
    rw [Registered, IpcWorld.perform, hstore]
    exact hmeets

/-- The invariant, where the calls made so far meet the condition. -/
def LibInv (config : StoreConfig) (pid : UInt32) (l : RackMemLib) : Prop :=
  (∀ x ∈ l.calls, Unregistered pid x.1 x.2) → RunningInv config pid l.ipc

section

variable (h : LibInv config pid l) (hpid : positivePid pid = true)

include h hpid

theorem LibInv.proxy (c : IpcCall) : LibInv config pid (l.proxy config pid c).2 := by
  intro hmeets
  have hold : ∀ x ∈ l.calls, Unregistered pid x.1 x.2 := fun x hx =>
    hmeets x (mem_append_left _ hx)
  exact (h hold).perform hpid (hmeets (l.ipc, c) (mem_append_right _ (mem_singleton_self _)))

theorem LibInv.shutdownModule (o : LibOutcomes) (m : RackMemModule) :
    LibInv config pid (l.shutdownModule config pid o m).2 := by
  cases m with
  | ipc => exact h.proxy hpid (.destroy o.stop)
  | _ => exact h

theorem LibInv.initModule (o : LibOutcomes) (m : RackMemModule) :
    LibInv config pid (l.initModule config pid o m).2 := by
  cases m with
  | ipc => exact h.proxy hpid (.init o.started o.handlerSet o.stopInit)
  | _ => exact h

section

variable (o : LibOutcomes) (ms : List RackMemModule)

theorem LibInv.shutdownPending : LibInv config pid (l.shutdownPending config pid o ms).2 := by
  induction ms generalizing l with
  | nil => exact h
  | cons m ms ih =>
    rw [RackMemLib.shutdownPending]
    split_ifs with hskip
    · exact ih h
    · dsimp only
      split_ifs
      · exact h.shutdownModule hpid o m
      · exact ih (h.shutdownModule hpid o m)

theorem LibInv.initModules : LibInv config pid (l.initModules config pid o ms).2 := by
  induction ms generalizing l with
  | nil => exact h
  | cons m ms ih =>
    rw [RackMemLib.initModules]
    dsimp only
    split_ifs
    · exact ih (h.initModule hpid o m)
    · exact h.initModule hpid o m

theorem LibInv.shutdownAll (result : Int) :
    LibInv config pid (l.shutdownAll config pid o ms result).2 := by
  induction ms generalizing l result with
  | nil => exact h
  | cons m ms ih =>
    rw [RackMemLib.shutdownAll]
    split_ifs with hskip
    · exact ih h result
    · dsimp only
      split_ifs
      · exact ih (h.shutdownModule hpid o m) _
      · exact ih (l := (l.shutdownModule config pid o m).2.mark m false)
          (h.shutdownModule hpid o m) _

end

theorem LibInv.step {e : LibEvent} (hstep : l.step config pid e = some l') :
    LibInv config pid l' := by
  cases e with
  | initLib o =>
    obtain rfl : (l.initializeLib config pid o).2 = l' := Option.some.inj hstep
    rw [initializeLib]
    split_ifs
    · exact h
    · dsimp only
      split_ifs
      · exact h.shutdownPending hpid o _
      · have hpending := h.shutdownPending hpid o rackMemModules.reverse
        exact LibInv.initModules (l := {
          (l.shutdownPending config pid o rackMemModules.reverse).2 with
          isInitialized := fun _ => false }) hpending hpid o _
  | destroyLib o =>
    obtain rfl : (l.destroyLib config pid o).2 = l' := Option.some.inj hstep
    rw [destroyLib]
    split_ifs
    · exact h
    · exact (h.proxy hpid (.resume o.resume)).shutdownAll hpid o _ _
    · exact h.shutdownAll hpid o _ _
  | call c =>
    obtain rfl : (l.proxy config pid c).2 = l' := Option.some.inj hstep
    exact h.proxy hpid c
  | otherSuspends q =>
    rw [RackMemLib.step] at hstep
    split_ifs at hstep with hq
    cases hstep
    intro hmeets
    obtain ⟨hok, hreg⟩ := otherSuspends_spec (h hmeets).array hq
    exact ⟨hok, fun hs hin => (h hmeets).running hs (hreg.mp hin)⟩
  | otherResumes q =>
    rw [RackMemLib.step] at hstep
    split_ifs at hstep with hq
    cases hstep
    intro hmeets
    obtain ⟨hok, hreg⟩ := otherResumes_spec (h hmeets).array hq
    exact ⟨hok, fun hs hin => (h hmeets).running hs (hreg.mp hin)⟩

end

end Runs

end RackMemLib

open RackMemLib in
/-- **A running process is not in the array**, in every run in which `IpcProxy::Destroy` is
called only while it is not: so the break of its connection is queued as its exit. -/
theorem running_unregistered (config : StoreConfig) (pid : UInt32)
    (hpid : positivePid pid = true) (store : RecordStore) (hstore : SuspendOk config store)
    (hnew : pid ∉ store.mem.suspended) (l : RackMemLib)
    (hreach : Reaches (RackMemLib.step config pid) (fun _ _ => True) (.start store) l)
    (hcalls : ∀ x ∈ l.calls, Unregistered pid x.1 x.2) (hrunning : l.ipc.state = .running) :
    ¬ l.ipc.Registered pid ∧
      (l.ipc.registerHandler config pid).exitedPids = l.ipc.exitedPids ++ [pid] := by
  have hinv : LibInv config pid l := by
    refine hreach.invariant (fun _ => ⟨hstore, fun _ => hnew⟩) fun _ _ _ h _ hstep => ?_
    exact h.step hpid hstep
  have hunregistered := (hinv hcalls).running (.inl hrunning)
  refine ⟨hunregistered, ?_⟩
  rw [IpcWorld.registerHandler, if_neg]
  rw [isClientSuspended_iff (hinv hcalls).array hpid]
  exact hunregistered

/-- Everything succeeds, up to the start of the client for a resume. -/
def libOutcomes (resumeStarted : Bool) : LibOutcomes where
  started := true
  handlerSet := true
  stopInit := .ok
  stop := .ok
  resume := { resumeWith .answered with started := resumeStarted }
  init _ := 0
  shutdown _ := 0

/-- The process has suspended its connection twice, was finalized and initialized again. -/
def cleanEvents : List LibEvent :=
  [.initLib (libOutcomes true), .call (.suspend .answered .ok),
    .call (.resume (resumeWith .answered)), .call (.suspend .answered .ok),
    .destroyLib (libOutcomes true), .initLib (libOutcomes true)]

theorem running_unregistered_initialized : ∃ l,
    execute (RackMemLib.step recordStoreConfig 7) (fun _ _ => true) (.start bareStore) cleanEvents =
      some l ∧ l.calls.any (fun x => x.2 = .destroy .ok) = true ∧ l.ipc.state = .running ∧
    ¬ l.ipc.Registered 7 := by
  obtain ⟨l, hexec, hdestroy, hcalls, hrunning⟩ : ∃ l,
      execute (RackMemLib.step recordStoreConfig 7) (fun _ _ => true) (.start bareStore)
        cleanEvents = some l ∧ l.calls.any (fun x => x.2 = .destroy .ok) = true ∧
      l.calls.all (fun x => RackMemLib.Unregistered 7 x.1 x.2) = true ∧ l.ipc.state = .running :=
    ⟨_, rfl, rfl, rfl, rfl⟩
  have hreach := Reaches.of_execute (fun _ _ _ => trivial) .refl hexec
  refine ⟨l, hexec, hdestroy, hrunning, (running_unregistered recordStoreConfig 7 (by decide)
    bareStore (suspendOk_zero _ _) not_mem_nil l hreach (fun x hx => ?_) hrunning).1⟩
  exact of_decide_eq_true (all_eq_true.mp hcalls x hx)

/-- The process has suspended its connection, was finalized although the resume failed, and
was initialized again. -/
def reinitializedLib : RackMemLib :=
  (execute (RackMemLib.step recordStoreConfig 7) (fun _ _ => true) (.start bareStore)
    [.initLib (libOutcomes true), .call (.suspend .answered .ok), .destroyLib (libOutcomes false),
      .initLib (libOutcomes true)]).getD (.start bareStore)

/-- **A resume that fails in `Destroy`**: the process runs and is in the array, and the break
of its connection is not queued. -/
theorem running_registered :
    Reaches (RackMemLib.step recordStoreConfig 7) (fun _ _ => True) (.start bareStore)
        reinitializedLib ∧
      reinitializedLib.ipc.state = .running ∧ reinitializedLib.ipc.Registered 7 ∧
      (reinitializedLib.ipc.registerHandler recordStoreConfig 7).exitedPids = [] := by
  have hexec : execute (RackMemLib.step recordStoreConfig 7) (fun _ _ => true) (.start bareStore)
      [.initLib (libOutcomes true), .call (.suspend .answered .ok),
        .destroyLib (libOutcomes false), .initLib (libOutcomes true)] = some reinitializedLib := rfl
  refine ⟨Reaches.refl.of_execute (fun _ _ _ => trivial) hexec, rfl, ?_, rfl⟩
  exact mem_singleton_self _

end UbsMem
