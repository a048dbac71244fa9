import UbsMem.LockContext

/-! # The lock module's answer to elections

The discovery module tells the lock module about elections through a queue of events.
`UbsmLockEvent::HandleElectionEvent` starts and stops the local dlock server and client
in response, by `Init`, `DeInit` and `Reinit` of `UbsmLock`.  The dlock library itself is
outside the repository: the outcome of each call into it is a parameter, and its server runs
from a successful start until it is stopped, the server library is deinitialised, or the
library is unloaded.

A node that is configured as the dlock client creates `dlockClientNum` clients in the client
library and serves every lock through one of them.  `epoch` counts the initialisations and
deinitialisations of the client library, and `born` says in which epoch a client was created,
so that a client of an earlier epoch is one that the library no longer knows.
-/
namespace UbsMem

open Function

inductive ZenElectionEventType
  | electionStarted
  | votingCompleted
  | masterElected
  | electionFailed
  | nodeDemoted
  | becomeVoteNode
  | haveJoined
  | broadcast
  deriving DecidableEq, Repr

structure ListenerParam where
  event : ZenElectionEventType
  masterId : Name
  voteOnlyId : Name
  deriving DecidableEq, Repr

/-- How far the start of a dlock server came. -/
inductive ServerStart
  /-- The configuration or the initialisation of the server library failed. -/
  | refused
  /-- `server_start` failed. -/
  | failed
  | started
  deriving DecidableEq, Repr

def defaultTryCount : Nat := 3

def maxClientNum : Nat := 500

/-- `DLockContext`, `DLockConfig`, `DLockExecutor` and `UbsmLock` of one node.  The clients,
the lock table and the flag of `IsUbsmLockInit` are in `locks`; `index2ClientId` always has
the ids of the clients in `locks` and is left out. -/
structure LockService (D : Type) where
  isDlockServer : Bool
  isDlockClient : Bool
  isNeedServerDeinit : Bool
  serverRunning : Bool
  /-- `DLockExecutor::isInitialized`: the libraries are open and their functions known. -/
  isInitialized : Bool
  locks : LockState D
  epoch : Nat
  born : Nat → Nat

/-- The outcomes of the library calls of one attempt to bring the lock module up. -/
structure LockOutcome where
  /-- Opening the libraries and looking their functions up. -/
  load : Bool
  /-- `InitTlsConfig`. -/
  tls : Bool
  server : ServerStart
  /-- `server_stop`. -/
  stopped : Bool
  /-- The device id and `dclient_lib_init`. -/
  clientLib : Bool
  /-- The id that `client_init` gives to a client, if it succeeds and there is memory for
  the `ClientDesc`. -/
  clientInit : Nat → Option Int
  /-- `DlockClientReinit` of a client succeeds. -/
  clientReinit : Nat → Bool
  /-- The message that makes the client reinitialise was answered with success. -/
  answered : Bool

/-- What a handled event meets. -/
structure LockOutcomes where
  attempt : Nat → LockOutcome
  masterKnown : Bool
  clientKnown : Bool

namespace LockService

variable {D : Type}

def isUbsmLockInit (s : LockService D) : Bool := s.locks.isInit

def ubsmLockInitSet (s : LockService D) (value : Bool) : LockService D :=
  { s with locks := { s.locks with isInit := value } }

/-! ### `DLockContext` -/

/-- `UnInitDlockClient`: the clients and the lock table are cleared, whatever `client_deinit`
answers, unless the library is not loaded. -/
def unInitDlockClient (s : LockService D) : LockService D :=
  if !s.isInitialized then s
  else
    { s with locks := { s.locks with
        clientCount := 0
        clientIndex := 0
        metaMap := fun _ => none
        refCount := fun _ => none } }

/-- A new `ClientDesc` at the end of `dlockClients`. -/
def addClient (s : LockService D) (clientId : Int) : LockService D :=
  { s with
    locks := { s.locks with
      dlockClients := update s.locks.dlockClients s.locks.clientCount
        ⟨clientId, fun _ => none, fun _ => none⟩
      clientCount := s.locks.clientCount + 1 }
    born := update s.born s.locks.clientCount s.epoch }

/-- The loop of `InitDlockClient`, with the index and the number of clients left. -/
def initClients (s : LockService D) (clientInit : Nat → Option Int) (i : Nat) :
    Nat → Bool × LockService D
  | 0 => (true, s)
  | n + 1 =>
    match clientInit i with
    | none => (false, s.unInitDlockClient)
    | some clientId => initClients (s.addClient clientId) clientInit (i + 1) n

def initDlockClient (s : LockService D) (clientInit : Nat → Option Int) : Bool × LockService D :=
  if s.locks.dlockClientNum ≥ maxClientNum then (false, s)
  else initClients s clientInit 0 s.locks.dlockClientNum

/-! ### `UbsmLock` -/

def destroyDLockDlopenLib (s : LockService D) : LockService D :=
  { s with serverRunning := false, isInitialized := false }

/-- `dclient_lib_init` or `dclient_lib_deinit`. -/
def newEpoch (s : LockService D) : LockService D := { s with epoch := s.epoch + 1 }

def deInitDlockServer (s : LockService D) (stopped : Bool) : LockService D :=
  if !s.isDlockServer || !s.isNeedServerDeinit then s
  else if !(stopped && s.isInitialized) then s
  else { s with serverRunning := false, isNeedServerDeinit := false }

def deInit (s : LockService D) (stopped : Bool) : LockService D :=
  let s := s.ubsmLockInitSet false
  let s := if s.isDlockServer then s.deInitDlockServer stopped else s
  let s := if s.isDlockClient then
      if s.isInitialized then s.unInitDlockClient.newEpoch else s.unInitDlockClient
    else s
  s.destroyDLockDlopenLib

/-- The client part of `UbsmLock::Init`. -/
def initClient (s : LockService D) (o : LockOutcome) : Bool × LockService D :=
  if s.isDlockClient then
    if !o.clientLib then (false, s.deInit o.stopped)
    else
      let (ok, s) := s.newEpoch.initDlockClient o.clientInit
      if !ok then (false, s.deInit o.stopped) else (true, s.ubsmLockInitSet true)
  else (true, s.ubsmLockInitSet true)

/-- `InitDLockDlopenLib` and `InitTlsConfig`, as `Init` and `Reinit` begin. -/
def loadLibrary (s : LockService D) (o : LockOutcome) : Bool × LockService D :=
  if !s.isInitialized && !o.load then (false, s.destroyDLockDlopenLib)
  else if !o.tls then (false, s.destroyDLockDlopenLib)
  else (true, { s with isInitialized := true })

/-- `UbsmLock::DlockServerInit`: a failed start deinitialises the server library. -/
def dlockServerInit (s : LockService D) : ServerStart → Bool × LockService D
  | .refused => (false, s)
  | .failed => (false, { s with serverRunning := false })
  | .started => (true, { s with serverRunning := true })

def init (s : LockService D) (o : LockOutcome) : Bool × LockService D :=
  let (loaded, s) := (s.ubsmLockInitSet false).loadLibrary o
  if !loaded then (false, s)
  else if s.isDlockServer then
    let (ok, s) := s.dlockServerInit o.server
    if !ok then (false, s.deInit o.stopped)
    else ({ s with isNeedServerDeinit := true }).initClient o
  else s.initClient o

/-- The retry loop around `Init`. -/
def retryInit (s : LockService D) (attempt : Nat → LockOutcome) : Nat → LockService D
  | 0 => s
  | n + 1 =>
    let (ok, s) := s.init (attempt n)
    if ok then s else retryInit (s.deInit (attempt n).stopped) attempt n

/-- The client part of `UbsmLock::Reinit`: every client there is reinitialises. -/
def reinitClient (s : LockService D) (o : LockOutcome) : Bool × LockService D :=
  if s.isDlockClient then
    if (List.range s.locks.clientCount).all o.clientReinit then (true, s.ubsmLockInitSet true)
    else (false, s)
  else (true, s)

/-- `UbsmLock::DlockServerReinit`: a server that was started before is stopped first, and
is not torn down when the new start fails. -/
def dlockServerReinit (s : LockService D) (o : LockOutcome) : Bool × LockService D :=
  if s.isNeedServerDeinit then
    let s := if o.stopped then { s with serverRunning := false } else s
    match o.server with
    | .started => (true, { s with serverRunning := true })
    | _ => (false, s)
  else
    match o.server with
    | .refused => (false, s)
    | .failed => (false, { s with serverRunning := false, isNeedServerDeinit := false })
    | .started => (true, { s with serverRunning := true, isNeedServerDeinit := true })

def reinit (s : LockService D) (o : LockOutcome) : Bool × LockService D :=
  let (loaded, s) := (s.ubsmLockInitSet false).loadLibrary o
  if !loaded then (false, s)
  else if s.isDlockServer then
    let (ok, s) := s.dlockServerReinit o
    if !ok then (false, s) else s.reinitClient o
  else s.reinitClient o

/-- The retry loop of `UbsmLockEvent::DoRecovery`. -/
def retryReinit (s : LockService D) (attempt : Nat → LockOutcome) : Nat → LockService D
  | 0 => s
  | n + 1 =>
    let (ok, s) := s.reinit (attempt n)
    if ok && (attempt n).answered then s.ubsmLockInitSet true else retryReinit s attempt n

/-! ### `UbsmLockEvent` -/

/-- `OnMasterElected`, with `DoDLockServerInit`. -/
def onMasterElected (s : LockService D) (localNode masterId : Name) (o : LockOutcomes) :
    LockService D :=
  if localNode ≠ masterId then s
  else if s.isUbsmLockInit then s
  else retryInit { s with isDlockServer := true } o.attempt defaultTryCount

def onDLockClientInit (s : LockService D) (o : LockOutcomes) : LockService D :=
  if s.isUbsmLockInit then s
  else if !o.masterKnown then s
  else
    retryInit { s with isDlockServer := false, isDlockClient := true } o.attempt defaultTryCount

/-- `OnDLockDemoted`: the libraries are deinitialised if they are loaded; the clients and the
lock table stay. -/
def onDLockDemoted (s : LockService D) : LockService D :=
  let s := if s.isDlockServer then
      { s with
        serverRunning := if s.isInitialized then false else s.serverRunning
        isNeedServerDeinit := false
        isDlockServer := false }
    else s
  let s := if s.isDlockClient then
      { if s.isInitialized then s.newEpoch else s with isDlockClient := false }
    else s
  s.ubsmLockInitSet false

/-- `OnDLockServerRecovery`, with `DoRecovery`. -/
def onDLockServerRecovery (s : LockService D) (o : LockOutcomes) : LockService D :=
  if !o.masterKnown || !o.clientKnown then s
  else
    retryReinit { s with isDlockServer := true, isDlockClient := false } o.attempt defaultTryCount

/-- **`HandleElectionEvent`.** -/
def handleElectionEvent (s : LockService D) (localNode : Name) (p : ListenerParam)
    (o : LockOutcomes) : LockService D :=
  match p.event with
  | .haveJoined => s.onDLockServerRecovery o
  | .masterElected => s.onMasterElected localNode p.masterId o
  | .nodeDemoted => s.onDLockDemoted
  | .becomeVoteNode => s.onDLockClientInit o
  | .electionStarted | .votingCompleted | .electionFailed | .broadcast => s

/-- The lock module of a process that has just started. -/
def initial (lib : D) : LockService D where
  isDlockServer := false
  isDlockClient := false
  isNeedServerDeinit := false
  serverRunning := false
  isInitialized := false
  locks :=
    { isInit := false
      inElection := false
      dlockClients := fun _ => ⟨0, fun _ => none, fun _ => none⟩
      clientCount := 0
      dlockClientNum := 8
      lockExpireTime := 300
      clientIndex := 0
      metaMap := fun _ => none
      refCount := fun _ => none
      lib
      trace := [] }
  epoch := 0
  born _ := 0

/-- Everything the library is asked for succeeds. -/
def allWell : LockOutcome where
  load := true
  tls := true
  server := .started
  stopped := true
  clientLib := true
  clientInit i := some i
  clientReinit _ := true
  answered := true

/-! ### The server's role -/

/-- The server runs only while the configuration says that this node is the server, which
is what a demotion goes by, and while its library is loaded. -/
def ServerKnown (s : LockService D) : Prop :=
  s.serverRunning = true → s.isDlockServer = true ∧ s.isInitialized = true

/-- What an attempt to bring the lock module up can do: the roles stay as configured, and
a server is started only in the server's role. -/
def SameRole (s s' : LockService D) : Prop :=
  s'.isDlockServer = s.isDlockServer ∧ (s.ServerKnown → s'.ServerKnown)

variable {s s' : LockService D}

theorem SameRole.refl (s : LockService D) : SameRole s s := ⟨rfl, id⟩

theorem SameRole.trans {s₁ : LockService D} (h : SameRole s s₁) (h' : SameRole s₁ s') :
    SameRole s s' := ⟨h'.1.trans h.1, fun hs => h'.2 (h.2 hs)⟩

theorem sameRole_unInitDlockClient (s : LockService D) : SameRole s s.unInitDlockClient := by
  unfold unInitDlockClient
  split_ifs <;> exact ⟨rfl, id⟩

theorem sameRole_deInit (s : LockService D) (stopped : Bool) : SameRole s (s.deInit stopped) := by
  refine ⟨?_, fun _ => nofun⟩
  simp only [deInit, deInitDlockServer, unInitDlockClient, destroyDLockDlopenLib, newEpoch]
  split_ifs <;> rfl

theorem sameRole_initDlockClient (s : LockService D) (clientInit : Nat → Option Int) :
    SameRole s (s.initDlockClient clientInit).2 := by
  have hloop : ∀ n i (s : LockService D), SameRole s (s.initClients clientInit i n).2 := by
    intro n
    induction n with
    | zero => exact fun _ => .refl
    | succ n ih =>
      intro i s
      unfold initClients
      cases clientInit i with
      | none => exact sameRole_unInitDlockClient s
      | some clientId => exact ih (i + 1) (s.addClient clientId)
  unfold initDlockClient
  split_ifs
  · exact .refl s
  · exact hloop _ 0 s

theorem sameRole_initClient (s : LockService D) (o : LockOutcome) :
    SameRole s (s.initClient o).2 := by
  have hclients : SameRole s (s.newEpoch.initDlockClient o.clientInit).2 :=
    sameRole_initDlockClient s.newEpoch o.clientInit
  unfold initClient
  dsimp only
  split_ifs
  · exact sameRole_deInit s o.stopped
  · exact hclients.trans (sameRole_deInit _ o.stopped)
  · exact hclients
  · exact ⟨rfl, id⟩

theorem loadLibrary_cases (s : LockService D) (o : LockOutcome) :
    s.loadLibrary o = (false, s.destroyDLockDlopenLib) ∨
      s.loadLibrary o = (true, { s with isInitialized := true }) := by
  unfold loadLibrary
  split_ifs <;> simp

theorem sameRole_destroyDLockDlopenLib (s : LockService D) :
    SameRole s s.destroyDLockDlopenLib := ⟨rfl, fun _ => nofun⟩

theorem sameRole_loaded (s : LockService D) : SameRole s { s with isInitialized := true } :=
  ⟨rfl, fun hs hrunning => ⟨(hs hrunning).1, rfl⟩⟩

theorem sameRole_init (s : LockService D) (o : LockOutcome) : SameRole s (s.init o).2 := by
  unfold init
  rcases loadLibrary_cases (s.ubsmLockInitSet false) o with hload | hload <;> rw [hload]
  · exact sameRole_destroyDLockDlopenLib s
  refine (sameRole_loaded s).trans ?_
  simp only [Bool.not_true, Bool.false_eq_true, if_false]
  split_ifs with hserver
  · -- a server is started in the server's role
    refine .trans ?_ (sameRole_deInit _ o.stopped)
    cases o.server <;> exact ⟨rfl, fun _ _ => ⟨hserver, rfl⟩⟩
  · refine .trans ?_ (sameRole_initClient _ o)
    cases o.server <;> exact ⟨rfl, fun _ _ => ⟨hserver, rfl⟩⟩
  · exact sameRole_initClient _ o

theorem sameRole_retryInit (s : LockService D) (attempt : Nat → LockOutcome) (n : Nat) :
    SameRole s (s.retryInit attempt n) := by
  induction n generalizing s with
  | zero => exact .refl s
  | succ n ih =>
    have hinit := sameRole_init s (attempt n)
    unfold retryInit
    dsimp only
    split_ifs
    · exact hinit
    · exact (hinit.trans (sameRole_deInit _ _)).trans (ih _)

theorem sameRole_reinitClient (s : LockService D) (o : LockOutcome) :
    SameRole s (s.reinitClient o).2 := by
  unfold reinitClient
  split_ifs <;> exact ⟨rfl, id⟩

theorem dlockServerReinit_fields (s : LockService D) (o : LockOutcome) :
    (s.dlockServerReinit o).2.isDlockServer = s.isDlockServer ∧
      (s.dlockServerReinit o).2.isInitialized = s.isInitialized := by
  unfold dlockServerReinit
  split_ifs <;> cases o.server <;> exact ⟨rfl, rfl⟩

theorem sameRole_reinit (s : LockService D) (o : LockOutcome) : SameRole s (s.reinit o).2 := by
  unfold reinit
  rcases loadLibrary_cases (s.ubsmLockInitSet false) o with hload | hload <;> rw [hload]
  · exact sameRole_destroyDLockDlopenLib s
  refine (sameRole_loaded s).trans ?_
  obtain ⟨hrole, hloaded⟩ :=
    dlockServerReinit_fields { s.ubsmLockInitSet false with isInitialized := true } o
  simp only [Bool.not_true, Bool.false_eq_true, if_false]
  split_ifs with hserver
  · exact ⟨hrole, fun _ _ => ⟨hrole.trans hserver, hloaded⟩⟩
  · exact .trans ⟨hrole, fun _ _ => ⟨hrole.trans hserver, hloaded⟩⟩ (sameRole_reinitClient _ o)
  · exact sameRole_reinitClient _ o

theorem sameRole_retryReinit (s : LockService D) (attempt : Nat → LockOutcome) (n : Nat) :
    SameRole s (s.retryReinit attempt n) := by
  induction n generalizing s with
  | zero => exact .refl s
  | succ n ih =>
    have hreinit := sameRole_reinit s (attempt n)
    unfold retryReinit
    dsimp only
    split_ifs
    · exact hreinit
    · exact hreinit.trans (ih _)

theorem onDLockDemoted_spec (h : s.ServerKnown) :
    s.onDLockDemoted.isDlockServer = false ∧ s.onDLockDemoted.ServerKnown := by
  rcases s with ⟨_ | _, _ | _, _, _ | _, _ | _, _, _, _⟩
  all_goals first
    | exact absurd (h rfl).1 Bool.false_ne_true
    | exact absurd (h rfl).2 Bool.false_ne_true
    | exact ⟨rfl, nofun⟩

/-- Whatever the event, the server is still one the configuration knows of, provided that
a node that turns into a client is not configured as the server. -/
theorem serverKnown_handleElectionEvent (h : s.ServerKnown) (localNode : Name)
    {p : ListenerParam} (hclient : p.event = .becomeVoteNode → s.isDlockServer = false)
    (o : LockOutcomes) : (s.handleElectionEvent localNode p o).ServerKnown := by
  unfold handleElectionEvent
  cases hp : p.event with
  | haveJoined =>
    unfold onDLockServerRecovery
    split_ifs
    · exact h
    · exact (sameRole_retryReinit _ _ _).2 fun hrunning => ⟨rfl, (h hrunning).2⟩
  | masterElected =>
    unfold onMasterElected
    split_ifs
    · exact h
    · exact h
    · exact (sameRole_retryInit _ _ _).2 fun hrunning => ⟨rfl, (h hrunning).2⟩
  | nodeDemoted => exact (onDLockDemoted_spec h).2
  | becomeVoteNode =>
    unfold onDLockClientInit
    split_ifs
    · exact h
    · exact h
    · refine (sameRole_retryInit _ _ _).2 fun hrunning => ?_
      exact absurd (h hrunning).1 (Bool.eq_false_iff.mp (hclient hp))
  | electionStarted | votingCompleted | electionFailed | broadcast => exact h

theorem isDlockServer_onDLockClientInit (h : s.isDlockServer = false) (o : LockOutcomes) :
    (s.onDLockClientInit o).isDlockServer = false := by
  unfold onDLockClientInit
  split_ifs
  · exact h
  · exact h
  · exact (sameRole_retryInit _ _ _).1

end LockService

end UbsMem
