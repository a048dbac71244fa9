import UbsMem.StrUtil
import UbsMem.StdSet

/-! # Starting the services of the daemon

The daemon loads one library for each service it is told to register.  A library holds
the share service and the lease service, and each of these is a table of modules with
functions to initialise and to start them, among them the recoveries from the record
store.  `OckDaemon::Initialize` initialises the modules, `OckDaemon::StartServices` starts
them and then tells systemd that the daemon is available.

What the functions of a module do is a parameter: each takes the state `W` of the
process to an integer and a new state.  So are the other steps of the start.  The
result of a table of modules is folded three times, over the modules of a service, over
the two services of a library and over the libraries, and the question is whether a
failure survives.
-/
namespace UbsMem

open List Option

variable {W : Type}

theorem hFail_ne : hFail ≠ ubsmOk := by decide

theorem noFeatureEnabled_ne : mxmErrDaemonNoFeatureEnabled ≠ ubsmOk := by decide

/-! ### Modules -/

/-- `ModuleDesc`; a function that is not given is a null `std::function`. -/
structure ModuleDesc (W : Type) where
  init : Option (W → Int × W)
  start : Option (W → Int × W)
  shutdown : Option (W → Int × W)
  exit : Option (W → W)

/-- `RollbackInit` and `RollbackStart`: undo the modules that were passed, the latest
first. -/
def rollback (undo : ModuleDesc W → Option (W → W)) (done : List (ModuleDesc W)) (w : W) : W :=
  done.foldl (fun w m => ((undo m).map fun f => f w).getD w) w

/-- The loop of `OnServiceInitialize` and of `OnServiceStart`.  A module without the
function is skipped; a module that fails undoes those before it, which are `done`. -/
def callModules (call : ModuleDesc W → Option (W → Int × W))
    (undo : ModuleDesc W → Option (W → W)) : List (ModuleDesc W) → List (ModuleDesc W) → W → Int × W
  | _, [], w => (ubsmOk, w)
  | done, m :: ms, w =>
    match call m with
    | none => callModules call undo (m :: done) ms w
    | some f =>
      if (f w).1 = ubsmOk then callModules call undo (m :: done) ms (f w).2
      else (hFail, rollback undo done (f w).2)

/-- `MemShareService` and `MemLeaseService`. -/
structure MemService (W : Type) where
  modules : List (ModuleDesc W)
  inited : Bool

/-- `OnServiceInitialize` of the two services. -/
def MemService.onServiceInitialize (s : MemService W) (w : W) : Int × MemService W × W :=
  if s.inited then (ubsmOk, s, w)
  else
    match callModules ModuleDesc.init ModuleDesc.exit [] s.modules w with
    | (ret, w₁) => if ret = ubsmOk then (ubsmOk, { s with inited := true }, w₁) else (ret, s, w₁)

/-- `OnServiceStart` of the two services.  The result of a shutdown is not looked at. -/
def MemService.onServiceStart (s : MemService W) (w : W) : Int × W :=
  callModules ModuleDesc.start (fun m => m.shutdown.map fun f w => (f w).2) [] s.modules w

/-- The functions that the tables of the two services name. -/
structure ModuleFunctions (W : Type) where
  mxmComStartIpcServer : W → Int × W
  rackMemConBaseInitialize : W → Int × W
  mxmComStopIpcServer : W → W
  shmManagerInitial : W → Int × W
  shmManagerRecovery : W → Int × W
  regionManagerInitial : W → Int × W
  regionManagerRecovery : W → Int × W
  mlsManagerInit : W → Int × W
  mlsManagerRecovery : W → Int × W
  mlsManagerFinalize : W → Int × W

/-- The module of the IPC server, which both services have; `MemMxmComStopIpcServer`
returns success. -/
def ModuleFunctions.ipcServer (fs : ModuleFunctions W) : ModuleDesc W where
  init := some fs.mxmComStartIpcServer
  start := some fs.rackMemConBaseInitialize
  shutdown := some fun w => (ubsmOk, fs.mxmComStopIpcServer w)
  exit := none

/-- The table of `MemShareService`. -/
def ModuleFunctions.share (fs : ModuleFunctions W) : List (ModuleDesc W) :=
  [fs.ipcServer, ⟨some fs.shmManagerInitial, some fs.shmManagerRecovery, none, none⟩,
    ⟨some fs.regionManagerInitial, some fs.regionManagerRecovery, none, none⟩]

/-- The table of `MemLeaseService`. -/
def ModuleFunctions.lease (fs : ModuleFunctions W) : List (ModuleDesc W) :=
  [fs.ipcServer,
    ⟨some fs.mlsManagerInit, some fs.mlsManagerRecovery, some fs.mlsManagerFinalize, none⟩]

/-! ### Libraries -/

/-- The library of a service: which functions it exports, and the modules of the share
and the lease service, where the memory for the service could be allocated. -/
structure ServiceLibrary (W : Type) where
  create : Bool
  processArgs : Bool
  initializes : Bool
  start : Bool
  share : Option (List (ModuleDesc W))
  lease : Option (List (ModuleDesc W))

/-- `OckService`, with the statuses that the start reads, and what the loaded library
holds: `g_shmService` and the agent. -/
structure OckService (W : Type) where
  constructStatus : Int
  processArgsStatus : Int
  initializeStatus : Int
  startStatus : Int
  agentProcessArgsP : Bool
  agentInitializeP : Bool
  agentStartP : Bool
  shmService : Option (MemService W)
  ockServiceAgentP : Option (MemService W)

/-- The value `-1` of a function of the library, read as an `HRESULT`. -/
def hMinusOne : Int := 4294967295

theorem hMinusOne_ne : hMinusOne ≠ ubsmOk := by decide

/-- `OckService::Initialize`; nothing when it fails.  Of the exported functions only
`Create` has to be there. -/
def OckService.build (library : Option (ServiceLibrary W)) : Option (OckService W) :=
  match library with
  | none => none
  | some lib =>
    if !lib.create then none
    else
      -- `Create`: both services are allocated, or there is no agent.
      match lib.share, lib.lease with
      | some share, some lease =>
        some ⟨ubsmOk, hFail, hFail, hFail, lib.processArgs, lib.initializes, lib.start,
          some ⟨share, false⟩, some ⟨lease, false⟩⟩
      | _, _ => none

/-- `ServiceProcessArgs` of the library; the services themselves accept all arguments. -/
def OckService.agentProcessArgs (s : OckService W) : Int :=
  if s.ockServiceAgentP.isNone then hMinusOne
  else if s.shmService.isNone then hMinusOne
  else ubsmOk

/-- `ServiceInitialize` of the library. -/
def OckService.agentInitialize (s : OckService W) (w : W) : Int × OckService W × W :=
  match s.shmService with
  | none => (hMinusOne, s, w)
  | some shm =>
    match shm.onServiceInitialize w with
    | (ret, shm', w₁) =>
      let s₁ := { s with shmService := some shm' }
      if ret ≠ ubsmOk then (hMinusOne, s₁, w₁)
      else
        match s.ockServiceAgentP with
        | none => (hMinusOne, s₁, w₁)
        | some lease =>
          match lease.onServiceInitialize w₁ with
          | (ret, lease', w₂) => (ret, { s₁ with ockServiceAgentP := some lease' }, w₂)

/-- `ServiceStart` of the library: the share service, then the lease service. -/
def OckService.agentStart (s : OckService W) (w : W) : Int × W :=
  match s.shmService with
  | none => (hMinusOne, w)
  | some shm =>
    match shm.onServiceStart w with
    | (ret, w₁) =>
      if ret ≠ ubsmOk then (hMinusOne, w₁)
      else
        match s.ockServiceAgentP with
        | none => (hMinusOne, w₁)
        | some lease => lease.onServiceStart w₁

def OckService.onServiceProcessArgs (s : OckService W) : Int × OckService W :=
  if s.constructStatus ≠ ubsmOk then (hFail, s)
  else if s.ockServiceAgentP.isNone || !s.agentProcessArgsP then
    (hFail, { s with processArgsStatus := hFail })
  else (s.agentProcessArgs, { s with processArgsStatus := s.agentProcessArgs })

/-- `OckService::OnServiceInitialize`.  Without an agent or its function the answer is
the one that processing the arguments gave. -/
def OckService.onServiceInitialize (s : OckService W) (w : W) : Int × OckService W × W :=
  if s.constructStatus ≠ ubsmOk then (hFail, s, w)
  else if s.ockServiceAgentP.isNone || !s.agentInitializeP then
    (s.processArgsStatus, { s with initializeStatus := hFail }, w)
  else
    match s.agentInitialize w with
    | (ret, s₁, w₁) => (ret, { s₁ with initializeStatus := ret }, w₁)

/-- `OckService::OnServiceStart`, with the same answer as above where there is nothing to
start. -/
def OckService.onServiceStart (s : OckService W) (w : W) : Int × OckService W × W :=
  if s.constructStatus ≠ ubsmOk then (hFail, s, w)
  else if s.ockServiceAgentP.isNone || !s.agentStartP then
    (s.processArgsStatus, { s with startStatus := hFail }, w)
  else
    match s.agentStart w with
    | (ret, w₁) => (ret, { s with startStatus := ret }, w₁)

/-! ### The service manager -/

/-- `serviceMap`, in the order of the names.  `ServicePut` puts only services in that it
could build, so there is no null entry. -/
abbrev ServiceMap (W : Type) := List (Name × OckService W)

/-- `::tolower` on a byte. -/
def toLowerByte (c : UInt8) : UInt8 := if 65 ≤ c ∧ c ≤ 90 then c + 32 else c

/-- The path of the library of a service: `libPath + "/lib" + name + ".so"`. -/
def serviceLibPath (libPath name : Name) : Name :=
  libPath ++ [47, 108, 105, 98] ++ name.map toLowerByte ++ [46, 115, 111]

/-- The order of the keys of `serviceMap`. -/
def serviceNameLt (a b : Name × OckService W) : Bool := decide (a.1 < b.1)

/-- `ServicePut` on the remaining services.  A library that cannot be built is ignored; a
path longer than `PATH_MAX` ends the registration. -/
def putServices (load : Name → Option (ServiceLibrary W)) (libPath : Name) :
    List Name → ServiceMap W → Int × ServiceMap W
  | [], services => (ubsmOk, services)
  | name :: names, services =>
    let serviceName := ockTrimString name
    let path := serviceLibPath libPath serviceName
    if path.length > 4096 then (hFail, services)
    else
      match OckService.build (load path) with
      | none => putServices load libPath names services
      | some service =>
        putServices load libPath names (setInsert serviceNameLt (serviceName, service) services)

def servicePut (load : Name → Option (ServiceLibrary W)) (names : List Name) (libPath : Name)
    (services : ServiceMap W) : Int × ServiceMap W :=
  if names.length < 1 ∨ names.length > 2 then (hFail, services)
  else putServices load libPath names services

/-- `OckServiceManager::ServiceProcessArgs`: the first failure ends it. -/
def serviceProcessArgs : ServiceMap W → Int × ServiceMap W
  | [] => (ubsmOk, [])
  | (name, s) :: rest =>
    match s.onServiceProcessArgs with
    | (ret, s') =>
      if ret ≠ ubsmOk then (hFail, (name, s') :: rest)
      else
        match serviceProcessArgs rest with
        | (ret, rest') => (ret, (name, s') :: rest')

/-- `OckServiceManager::OnServiceInitialize`: the first failure ends it. -/
def managerInitialize : ServiceMap W → W → Int × ServiceMap W × W
  | [], w => (ubsmOk, [], w)
  | (name, s) :: rest, w =>
    match s.onServiceInitialize w with
    | (ret, s', w₁) =>
      if ret ≠ ubsmOk then (hFail, (name, s') :: rest, w₁)
      else
        match managerInitialize rest w₁ with
        | (ret, rest', w₂) => (ret, (name, s') :: rest', w₂)

/-- The loop of `OckServiceManager::OnServiceStart`.  The result `hr` so far is replaced
by that of each service, whatever it was. -/
def startLoop : Int → ServiceMap W → W → Int × ServiceMap W × W
  | hr, [], w => (hr, [], w)
  | _, (name, s) :: rest, w =>
    match s.onServiceStart w with
    | (hr, s', w₁) =>
      match startLoop hr rest w₁ with
      | (ret, rest', w₂) => (ret, (name, s') :: rest', w₂)

/-- `OckServiceManager::OnServiceStart`. -/
def managerStart (services : ServiceMap W) (w : W) : Int × ServiceMap W × W :=
  startLoop ubsmOk services w

/-! ### The daemon -/

inductive ServerStatus
  | uninitialized
  | initialized
  | waiting
  deriving DecidableEq, Repr

/-- The steps of `Initialize` and `StartServices` outside the services. -/
structure DaemonSteps (W : Type) where
  commonInitialize : W → Int × W
  initHtrace : W → Int × W
  generateShareMemory : W → Bool × W
  recordStoreInitialize : W → Int × W
  threadPoolStart : W → Int × W
  checkUbseStatus : W → Int × W
  recordStoreDestroy : W → W
  monitorInitialize : W → Int × W
  initUbsmLock : W → Int × W

/-- `OckDaemon`, with the last status it told systemd and the state of the process. -/
structure OckDaemon (W : Type) where
  serviceManager : Option (ServiceMap W)
  mStatus : ServerStatus
  available : Bool
  world : W

variable (env : DaemonSteps W)

def OckDaemon.initDaemonService (load : Name → Option (ServiceLibrary W)) (features : List Name)
    (runtimePath : Name) (d : OckDaemon W) : Int × OckDaemon W :=
  match d.serviceManager with
  | some _ => (ubsmOk, d)
  | none =>
    match servicePut load features runtimePath [] with
    | (ret, services) => (ret, { d with serviceManager := some services })

def OckDaemon.servicesInitialize (load : Name → Option (ServiceLibrary W)) (features : List Name)
    (runtimePath : Name) (d : OckDaemon W) : Int × OckDaemon W :=
  match d.initDaemonService load features runtimePath with
  | (ret, d₁) =>
    if ret ≠ ubsmOk then (hFail, d₁)
    else
      match d₁.serviceManager with
      | none => (mxmErrDaemonNoFeatureEnabled, d₁)
      | some services =>
        if services.isEmpty then (mxmErrDaemonNoFeatureEnabled, d₁)
        else
          match serviceProcessArgs services with
          | (ret, services₁) =>
            if ret ≠ ubsmOk then (hFail, { d₁ with serviceManager := some services₁ })
            else
              match managerInitialize services₁ d₁.world with
              | (ret, services₂, w₁) =>
                (if ret ≠ ubsmOk then hFail else ubsmOk,
                  { d₁ with serviceManager := some services₂, world := w₁ })

/-- `OckDaemon::Initialize`, past the check of the paths. -/
def OckDaemon.init (load : Name → Option (ServiceLibrary W)) (features : List Name)
    (runtimePath : Name) (d : OckDaemon W) : Int × OckDaemon W :=
  if d.mStatus ≠ .uninitialized then (hFail, d)
  else
    match env.commonInitialize d.world with
    | (ret, w₁) =>
      let d₁ := { d with world := w₁ }
      if ret ≠ ubsmOk then (ret, d₁)
      else
        match d₁.servicesInitialize load features runtimePath with
        | (ret, d₂) =>
          if ret ≠ ubsmOk then (ret, d₂)
          else
            match env.initHtrace d₂.world with
            | (ret, w₃) =>
              if ret ≠ ubsmOk then (ret, { d₂ with world := w₃ })
              else (ubsmOk, { d₂ with world := w₃, mStatus := .initialized })

/-- The steps of `StartServices` before the services are started. -/
def DaemonSteps.prepare (w : W) : Int × W :=
  match env.generateShareMemory w with
  | (false, w₁) => (hFail, w₁)
  | (true, w₁) =>
    match env.recordStoreInitialize w₁ with
    | (ret, w₂) =>
      if ret ≠ ubsmOk then (hFail, w₂)
      else
        match env.threadPoolStart w₂ with
        | (ret, w₃) =>
          if ret ≠ ubsmOk then (ret, w₃)
          else
            match env.checkUbseStatus w₃ with
            | (ret, w₄) => if ret ≠ ubsmOk then (hFail, w₄) else (ubsmOk, w₄)

/-- The steps of `StartServices` after the services were started.  The daemon tells that
it is available before the lock is brought up. -/
def DaemonSteps.finish (d : OckDaemon W) : Int × OckDaemon W :=
  match env.monitorInitialize d.world with
  | (ret, w₁) =>
    if ret ≠ ubsmOk then (ret, { d with world := env.recordStoreDestroy w₁ })
    else
      match env.initUbsmLock w₁ with
      | (ret, w₂) =>
        if ret ≠ ubsmOk then
          (ret, { d with available := true, world := env.recordStoreDestroy w₂ })
        else (ubsmOk, { d with available := true, world := w₂ })

def OckDaemon.startServices (d : OckDaemon W) : Int × OckDaemon W :=
  let d₀ := { d with available := false }
  match d.serviceManager with
  | none => (hFail, d₀)
  | some services =>
    if d.mStatus ≠ .initialized then (hFail, d₀)
    else
      match env.prepare d.world with
      | (ret, w₁) =>
        if ret ≠ ubsmOk then (ret, { d₀ with world := w₁ })
        else
          match managerStart services w₁ with
          | (ret, services', w₂) =>
            if ret ≠ ubsmOk then
              (ret, { d₀ with
                serviceManager := some services', world := env.recordStoreDestroy w₂ })
            else env.finish { d₀ with serviceManager := some services', world := w₂ }

/-! ### What a success says -/

/-- The functions `call` of the modules were carried out one after another, from `w` to
`w'`, and each returned success. -/
inductive AllSucceed (call : ModuleDesc W → Option (W → Int × W)) :
    List (ModuleDesc W) → W → W → Prop
  | nil (w : W) : AllSucceed call [] w w
  | skip {m : ModuleDesc W} {ms : List (ModuleDesc W)} {w w' : W} (hnone : call m = none)
      (hrest : AllSucceed call ms w w') : AllSucceed call (m :: ms) w w'
  | run {m : ModuleDesc W} {ms : List (ModuleDesc W)} {f : W → Int × W} {w w' : W}
      (hcall : call m = some f) (hok : (f w).1 = ubsmOk)
      (hrest : AllSucceed call ms (f w).2 w') : AllSucceed call (m :: ms) w w'

theorem AllSucceed.append {call : ModuleDesc W → Option (W → Int × W)}
    {ms₁ ms₂ : List (ModuleDesc W)} {w w₁ w₂ : W} (h₁ : AllSucceed call ms₁ w w₁)
    (h₂ : AllSucceed call ms₂ w₁ w₂) : AllSucceed call (ms₁ ++ ms₂) w w₂ := by
  induction h₁ with
  | nil => exact h₂
  | skip hnone _ ih => exact .skip hnone (ih h₂)
  | run hcall hok _ ih => exact .run hcall hok (ih h₂)

/-- **The loop over the modules keeps every failure**: it answers success only when all
modules succeeded. -/
theorem callModules_ok {call : ModuleDesc W → Option (W → Int × W)}
    {undo : ModuleDesc W → Option (W → W)} {done ms : List (ModuleDesc W)} {w w' : W}
    (h : callModules call undo done ms w = (ubsmOk, w')) : AllSucceed call ms w w' := by
  induction ms generalizing done w with
  | nil =>
    obtain rfl : w = w' := congrArg Prod.snd h
    exact .nil w
  | cons m ms ih =>
    rw [callModules] at h
    split at h
    · next hnone => exact .skip hnone (ih h)
    · next f hcall =>
      split_ifs at h with hok
      · exact .run hcall hok (ih h)
      · exact absurd (congrArg Prod.fst h) hFail_ne

variable {w : W} {s : OckService W} {services : ServiceMap W}

theorem MemService.onServiceStart_ok {s : MemService W} (h : (s.onServiceStart w).1 = ubsmOk) :
    AllSucceed ModuleDesc.start s.modules w (s.onServiceStart w).2 :=
  callModules_ok (Prod.ext h rfl)

theorem MemService.onServiceInitialize_ok {s : MemService W} (hfresh : s.inited = false)
    (h : (s.onServiceInitialize w).1 = ubsmOk) :
    AllSucceed ModuleDesc.init s.modules w (s.onServiceInitialize w).2.2 := by
  unfold onServiceInitialize at h ⊢
  rw [if_neg (by simp [hfresh])] at h ⊢
  rcases hcall : callModules ModuleDesc.init ModuleDesc.exit [] s.modules w with ⟨ret, w₁⟩
  rw [hcall] at h
  dsimp only at h ⊢
  split_ifs at h ⊢ with hret
  · exact callModules_ok (hret ▸ hcall)
  · exact absurd h hret

theorem MemService.modules_onServiceInitialize (s : MemService W) (w : W) :
    (s.onServiceInitialize w).2.1.modules = s.modules := by
  unfold onServiceInitialize
  split_ifs
  · rfl
  · dsimp only
    split_ifs <;> rfl

/-- The modules of a registered service, in the order they are started. -/
def OckService.modules (s : OckService W) : List (ModuleDesc W) :=
  (s.shmService.elim [] MemService.modules) ++ (s.ockServiceAgentP.elim [] MemService.modules)

/-- A service as `Initialize` builds it from a library that exports both functions. -/
structure OckService.Built (s : OckService W) : Prop where
  constructed : s.constructStatus = ubsmOk
  initializes : s.agentInitializeP = true
  starts : s.agentStartP = true
  share : ∃ shm, s.shmService = some shm ∧ shm.inited = false
  lease : ∃ lease, s.ockServiceAgentP = some lease ∧ lease.inited = false

/-- A service that can be started. -/
structure OckService.Startable (s : OckService W) : Prop where
  constructed : s.constructStatus = ubsmOk
  starts : s.agentStartP = true
  share : s.shmService.isSome = true
  lease : s.ockServiceAgentP.isSome = true

theorem OckService.modules_eq {shm lease : MemService W} (hshm : s.shmService = some shm)
    (hlease : s.ockServiceAgentP = some lease) : s.modules = shm.modules ++ lease.modules := by
  simp [modules, hshm, hlease]

/-- A library that starts with success has started all modules of the share service and
then all of the lease service. -/
theorem OckService.agentStart_ok (hs : s.Startable) (h : (s.agentStart w).1 = ubsmOk) :
    AllSucceed ModuleDesc.start s.modules w (s.agentStart w).2 := by
  obtain ⟨shm, hshm⟩ := isSome_iff_exists.mp hs.share
  obtain ⟨lease, hlease⟩ := isSome_iff_exists.mp hs.lease
  have hstart : s.agentStart w =
      if (shm.onServiceStart w).1 ≠ ubsmOk then (hMinusOne, (shm.onServiceStart w).2)
      else lease.onServiceStart (shm.onServiceStart w).2 := by
    simp only [agentStart, hshm, hlease]
  rw [modules_eq hshm hlease]
  rw [hstart] at h ⊢
  split_ifs at h ⊢ with hret
  · exact absurd h hMinusOne_ne
  · exact (shm.onServiceStart_ok (not_not.mp hret)).append (lease.onServiceStart_ok h)

theorem OckService.onServiceStart_ok (hs : s.Startable) (h : (s.onServiceStart w).1 = ubsmOk) :
    AllSucceed ModuleDesc.start s.modules w (s.onServiceStart w).2.2 := by
  obtain ⟨lease, hlease⟩ := isSome_iff_exists.mp hs.lease
  have hstart : s.onServiceStart w =
      ((s.agentStart w).1, { s with startStatus := (s.agentStart w).1 }, (s.agentStart w).2) := by
    simp [onServiceStart, hs.constructed, hs.starts, hlease]
  rw [hstart] at h ⊢
  exact agentStart_ok hs h

/-- A library that initialises with success has initialised all its modules, and its
tables are as before. -/
theorem OckService.agentInitialize_ok (hs : s.Built) (h : (s.agentInitialize w).1 = ubsmOk) :
    AllSucceed ModuleDesc.init s.modules w (s.agentInitialize w).2.2 ∧
      (s.agentInitialize w).2.1.Startable ∧
      (s.agentInitialize w).2.1.modules = s.modules := by
  obtain ⟨shm, hshm, hshmFresh⟩ := hs.share
  obtain ⟨lease, hlease, hleaseFresh⟩ := hs.lease
  have hrun : s.agentInitialize w =
      if (shm.onServiceInitialize w).1 ≠ ubsmOk then
        (hMinusOne, { s with shmService := some (shm.onServiceInitialize w).2.1 },
          (shm.onServiceInitialize w).2.2)
      else
        ((lease.onServiceInitialize (shm.onServiceInitialize w).2.2).1,
          { s with
            shmService := some (shm.onServiceInitialize w).2.1
            ockServiceAgentP :=
              some (lease.onServiceInitialize (shm.onServiceInitialize w).2.2).2.1 },
          (lease.onServiceInitialize (shm.onServiceInitialize w).2.2).2.2) := by
    simp only [agentInitialize, hshm, hlease]
  rw [modules_eq hshm hlease]
  rw [hrun] at h ⊢
  split_ifs at h ⊢ with hret
  · exact absurd h hMinusOne_ne
  · refine ⟨(shm.onServiceInitialize_ok hshmFresh (not_not.mp hret)).append
      (lease.onServiceInitialize_ok hleaseFresh h), ⟨hs.constructed, hs.starts, rfl, rfl⟩, ?_⟩
    simp [modules, MemService.modules_onServiceInitialize]

theorem OckService.onServiceInitialize_ok (hs : s.Built)
    (h : (s.onServiceInitialize w).1 = ubsmOk) :
    AllSucceed ModuleDesc.init s.modules w (s.onServiceInitialize w).2.2 ∧
      (s.onServiceInitialize w).2.1.Startable ∧
      (s.onServiceInitialize w).2.1.modules = s.modules := by
  obtain ⟨lease, hlease, -⟩ := hs.lease
  have hrun : s.onServiceInitialize w = ((s.agentInitialize w).1,
        { (s.agentInitialize w).2.1 with initializeStatus := (s.agentInitialize w).1 },
        (s.agentInitialize w).2.2) := by
    simp [onServiceInitialize, hs.constructed, hs.initializes, hlease]
  rw [hrun] at h ⊢
  obtain ⟨hall, hstart, hmodules⟩ := agentInitialize_ok hs h
  exact ⟨hall, { hstart with }, hmodules⟩

theorem OckService.Built.onServiceProcessArgs (hs : s.Built) : s.onServiceProcessArgs.2.Built := by
  unfold OckService.onServiceProcessArgs
  split_ifs <;> exact { hs with }

/-! ### The registered services -/

/-- The modules of all registered services. -/
def ServiceMap.modules (services : ServiceMap W) : List (ModuleDesc W) :=
  services.flatMap fun p => p.2.modules

theorem OckService.built_of_build {library : Option (ServiceLibrary W)}
    (hexports : ∀ lib, library = some lib → lib.initializes = true ∧ lib.start = true)
    (h : OckService.build library = some s) : s.Built := by
  unfold OckService.build at h
  split at h
  · exact absurd h (by simp)
  · next lib =>
    obtain ⟨hinit, hstart⟩ := hexports lib rfl
    split_ifs at h
    split at h
    · next share lease _ _ =>
      obtain rfl := some.inj h
      exact ⟨rfl, hinit, hstart, ⟨_, rfl, rfl⟩, ⟨_, rfl, rfl⟩⟩
    · exact absurd h (by simp)

/-! ### Becoming available -/

/-- A daemon that starts its services, or tells that it is available, has prepared the
start and has got a success from the manager. -/
theorem OckDaemon.startServices_ok (d : OckDaemon W)
    (h : (d.startServices env).1 = ubsmOk ∨ (d.startServices env).2.available = true) :
    ∃ services, d.serviceManager = some services ∧ d.mStatus = .initialized ∧
      (env.prepare d.world).1 = ubsmOk ∧
      (managerStart services (env.prepare d.world).2).1 = ubsmOk := by
  unfold startServices at h
  dsimp only at h
  split at h
  · exact absurd h (by simp [hFail_ne])
  · next services hservices =>
    refine ⟨services, hservices, ?_⟩
    split_ifs at h with hstatus hprepare hmanager
    · exact absurd h (by simp [hFail_ne])
    · exact absurd h (by simp [hprepare])
    · exact absurd h (by simp [hmanager])
    · exact ⟨not_not.mp hstatus, not_not.mp hprepare, not_not.mp hmanager⟩

section Init

variable {load : Name → Option (ServiceLibrary W)} {name runtimePath : Name} {d : OckDaemon W}
  (hexports : ∀ path lib, load path = some lib → lib.initializes = true ∧ lib.start = true)

include hexports in
/-- At most one service is registered for one feature, and it was built from a library. -/
theorem servicePut_one (name runtimePath : Name) :
    (servicePut load [name] runtimePath []).2 = [] ∨
      ∃ s, OckService.Built s ∧
        (servicePut load [name] runtimePath []).2 = [(ockTrimString name, s)] := by
  rw [servicePut, if_neg (by simp)]
  unfold putServices
  dsimp only
  split_ifs
  · exact .inl rfl
  · split
    · exact .inl rfl
    · next s hs => exact .inr ⟨s, OckService.built_of_build (hexports _) hs, rfl⟩

theorem serviceProcessArgs_one (name : Name) (s : OckService W) :
    (serviceProcessArgs [(name, s)]).2 = [(name, s.onServiceProcessArgs.2)] := by
  unfold serviceProcessArgs
  dsimp only
  split_ifs <;> rfl

/-- A service that the manager initialises with success can be started. -/
theorem managerInitialize_one (hs : s.Built)
    (h : (managerInitialize [(name, s)] w).1 = ubsmOk) :
    ∃ s', (managerInitialize [(name, s)] w).2.1 = [(name, s')] ∧ s'.Startable ∧
      AllSucceed ModuleDesc.init s'.modules w (managerInitialize [(name, s)] w).2.2 := by
  unfold managerInitialize at h ⊢
  dsimp only at h ⊢
  split_ifs at h ⊢ with hret
  · exact absurd h hFail_ne
  · obtain ⟨hall, hstart, hmodules⟩ := OckService.onServiceInitialize_ok hs (not_not.mp hret)
    exact ⟨_, rfl, hstart, hmodules ▸ hall⟩

theorem OckDaemon.initDaemonService_new {load : Name → Option (ServiceLibrary W)}
    {features : List Name} {runtimePath : Name} {d : OckDaemon W} (hnew : d.serviceManager = none) :
    d.initDaemonService load features runtimePath = ((servicePut load features runtimePath []).1,
        { d with serviceManager := some (servicePut load features runtimePath []).2 }) := by
  simp only [initDaemonService, hnew]

theorem OckDaemon.mStatus_servicesInitialize (d : OckDaemon W) :
    (d.servicesInitialize load [name] runtimePath).2.mStatus = d.mStatus := by
  have hservice : (d.initDaemonService load [name] runtimePath).2.mStatus = d.mStatus := by
    unfold initDaemonService
    split <;> rfl
  unfold servicesInitialize
  dsimp only
  split_ifs
  · exact hservice
  · split
    · exact hservice
    · split_ifs <;> exact hservice

variable (hnew : d.serviceManager = none)

include hexports hnew in
/-- When the services are initialised, there is one, and its modules were initialised. -/
theorem OckDaemon.servicesInitialize_ok
    (h : (d.servicesInitialize load [name] runtimePath).1 = ubsmOk) :
    ∃ key s w', d.servicesInitialize load [name] runtimePath =
        (ubsmOk, { d with serviceManager := some [(key, s)], world := w' }) ∧
      s.Startable ∧ AllSucceed ModuleDesc.init s.modules d.world w' := by
  unfold servicesInitialize at h ⊢
  rw [initDaemonService_new hnew] at h ⊢
  dsimp only at h ⊢
  rcases servicePut_one hexports name runtimePath with hnone | ⟨s, hs, hone⟩
  · rw [hnone] at h
    split_ifs at h with hput hempty
    · exact absurd h hFail_ne
    · exact absurd h noFeatureEnabled_ne
    all_goals exact absurd rfl hempty
  · rw [hone, serviceProcessArgs_one] at h ⊢
    split_ifs at h ⊢ with hput hempty hargs hinit
    · exact absurd h hFail_ne
    · cases hempty
    · exact absurd h hFail_ne
    · exact absurd h hFail_ne
    · obtain ⟨s', heq, hstart, hall⟩ :=
        managerInitialize_one hs.onServiceProcessArgs (not_not.mp hinit)
      rw [heq]
      exact ⟨_, s', _, rfl, hstart, hall⟩

include hexports hnew in
/-- A daemon that is initialised has registered one service and has initialised its
modules. -/
theorem OckDaemon.init_ok
    (hstatus : (d.init env load [name] runtimePath).2.mStatus = .initialized)
    (hservices : (d.init env load [name] runtimePath).2.serviceManager = some services) :
    ∃ key s w', services = [(key, s)] ∧ s.Startable ∧
      AllSucceed ModuleDesc.init s.modules (env.commonInitialize d.world).2 w' := by
  unfold init at hstatus hservices
  split_ifs at hstatus hservices with hold
  · exact absurd hservices (by simp [hnew])
  have hfresh : d.mStatus = .uninitialized := not_not.mp hold
  dsimp only at hstatus hservices
  split_ifs at hstatus hservices with hcommon hinit htrace
  · exact absurd hstatus (by simp [hfresh])
  · exact absurd hstatus (by simp [mStatus_servicesInitialize, hfresh])
  · exact absurd hstatus (by simp [mStatus_servicesInitialize, hfresh])
  · obtain ⟨key, s, w', heq, hrest⟩ :=
      servicesInitialize_ok (d := { d with world := (env.commonInitialize d.world).2 })
        hexports hnew (not_not.mp hinit)
    rw [heq] at hservices
    exact ⟨key, s, w', (some.inj hservices).symm, hrest⟩

end Init

/-- The features that the daemon registers: the value `"ubsmd"` of
`MXMD_FEATURES_ENABLE`, split at `|`.  No other list is given to `ServicePut`. -/
def mxmdFeaturesEnable : List Name := [[117, 98, 115, 109, 100]]

/-- The library that `service_api.cpp` is built into.  It exports all the functions; `share`
and `lease` tell whether the memory for the two services could be allocated. -/
def ModuleFunctions.library (fs : ModuleFunctions W) (share lease : Bool) : ServiceLibrary W :=
  ⟨true, true, true, true, if share then some fs.share else none,
    if lease then some fs.lease else none⟩

/-- What loading a path gives: nothing, or the library. -/
def ModuleFunctions.load (fs : ModuleFunctions W) (opened : Name → Option (Bool × Bool))
    (path : Name) : Option (ServiceLibrary W) :=
  (opened path).map fun allocated => fs.library allocated.1 allocated.2

theorem ModuleFunctions.load_exports {fs : ModuleFunctions W} {opened : Name → Option (Bool × Bool)}
    {path : Name} {lib : ServiceLibrary W} (h : fs.load opened path = some lib) :
    lib.initializes = true ∧ lib.start = true := by
  obtain ⟨allocated, -, rfl⟩ := map_eq_some_iff.mp h
  exact ⟨rfl, rfl⟩

/-- **The daemon is available only with everything started.**  Whatever the functions of
the modules return, a daemon that reports a successful start, or tells that it is
available, has initialised and then started every module of the services it has
registered. -/
theorem OckDaemon.available_all_started (fs : ModuleFunctions W)
    (opened : Name → Option (Bool × Bool)) (runtimePath : Name) (d : OckDaemon W)
    (hnew : d.serviceManager = none)
    (hup : ((d.init env (fs.load opened) mxmdFeaturesEnable runtimePath).2.startServices env).1 =
        ubsmOk ∨
      ((d.init env (fs.load opened) mxmdFeaturesEnable runtimePath).2.startServices
        env).2.available = true) :
    ∃ services w₁ w₂ w₃, services ≠ [] ∧
      (d.init env (fs.load opened) mxmdFeaturesEnable runtimePath).2.serviceManager =
        some services ∧
      AllSucceed ModuleDesc.init (ServiceMap.modules services)
        (env.commonInitialize d.world).2 w₁ ∧
      env.prepare (d.init env (fs.load opened) mxmdFeaturesEnable runtimePath).2.world =
        (ubsmOk, w₂) ∧
      AllSucceed ModuleDesc.start (ServiceMap.modules services) w₂ w₃ := by
  obtain ⟨services, hservices, hstatus, hprepare, hmanager⟩ := startServices_ok env _ hup
  obtain ⟨key, s, w₁, rfl, hstart, hinit⟩ :=
    init_ok env (fun _ _ => ModuleFunctions.load_exports) hnew hstatus hservices
  have hmodules : ServiceMap.modules [(key, s)] = s.modules := append_nil _
  have hall := OckService.onServiceStart_ok hstart hmanager
  rw [← hmodules] at hinit hall
  exact ⟨_, w₁, _, _, cons_ne_nil _ _, hservices, hinit, Prod.ext hprepare rfl, hall⟩

/-- Every function succeeds and leaves the state as it is. -/
def quietFunctions : ModuleFunctions Unit :=
  ⟨fun w => (0, w), fun w => (0, w), id, fun w => (0, w), fun w => (0, w), fun w => (0, w),
    fun w => (0, w), fun w => (0, w), fun w => (0, w), fun w => (0, w)⟩

/-- The other steps of the start succeed. -/
def quietSteps : DaemonSteps Unit :=
  ⟨fun w => (0, w), fun w => (0, w), fun w => (true, w), fun w => (0, w), fun w => (0, w),
    fun w => (0, w), id, fun w => (0, w), fun w => (0, w)⟩

/-- The daemon with its one library, initialised. -/
def quietDaemon : OckDaemon Unit :=
  ((⟨none, .uninitialized, false, ()⟩ : OckDaemon Unit).init quietSteps
    (quietFunctions.load fun _ => some (true, true)) mxmdFeaturesEnable []).2

/-- The daemon with its one library starts. -/
theorem available_all_started_ubsmd :
    (quietDaemon.startServices quietSteps).2.available = true ∧
      ∃ services w₁ w₂ w₃, services ≠ [] ∧ quietDaemon.serviceManager = some services ∧
        AllSucceed ModuleDesc.init (ServiceMap.modules services) () w₁ ∧
        quietSteps.prepare quietDaemon.world = (ubsmOk, w₂) ∧
        AllSucceed ModuleDesc.start (ServiceMap.modules services) w₂ w₃ :=
  ⟨by decide, OckDaemon.available_all_started quietSteps quietFunctions
    (fun _ => some (true, true)) [] ⟨none, .uninitialized, false, ()⟩ rfl (.inl rfl)⟩

end UbsMem
