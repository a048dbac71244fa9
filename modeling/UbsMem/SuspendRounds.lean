import UbsMem.IpcRuns

/-! # Dead clients in the array of suspended clients

A suspended client that dies sends no resume, and the break of its connection was
skipped when it was suspended.  What is left to find it is the background round of
`UBSMemMonitor`: `RemoveImmediatelyBorrows` handles the exits that `RegisterHandler` has
queued, each ending in `DelSuspendClient`, and then scans the leases and the shared
memories for owners that are dead; `RemoveDelayBorrows` carries out the delayed
removals.  The scans and the removals work on the records of leases, imports and
references; none of them touches the array (`StoreOp.leaves_clients`).
-/
namespace UbsMem

/-! ### The other operations of the store -/

/-- The operations on the array of suspended clients. -/
def StoreOp.onClients : StoreOp → Bool
  | .addSuspendClient _ => true
  | .delSuspendClient _ => true
  | _ => false

/-- **Records are kept apart from the array**: no other operation touches it. -/
theorem StoreOp.leaves_clients {op : StoreOp} (hop : op.onClients = false) :
    op.Leaves fun m => (m.suspendCount, m.suspendPids) := by
  cases op with
  | addSuspendClient pid | delSuspendClient pid => cases hop
  | addRegionRecord input | delRegionRecord name | addShmRefRecord pid name
  | delShmRefRecord pid name | delShmRefRecordsByPid pid rank => exact fun _ _ _ => rfl
  | _ => exact fun t _ => ⟨fun _ _ _ => by cases t <;> rfl, fun _ _ => rfl⟩

/-! ### Rounds -/

/-- A round under way: the exits it has still to handle, and who was dead when it
started. -/
structure MonitorRound where
  exits : List UInt32
  dead : UInt32 → Bool

/-- The daemon, as far as suspended clients go, and the processes of the node. -/
structure MonitorWorld where
  store : RecordStore
  exitedPids : List UInt32
  alive : UInt32 → Bool
  round : Option MonitorRound

/-- What can happen. -/
inductive MonitorEvent
  /-- A request to suspend is executed. -/
  | suspends (pid : UInt32)
  /-- A request to resume is executed. -/
  | resumes (pid : UInt32)
  /-- The connection of a client goes down: `RegisterHandler`. -/
  | linkDown (pid : UInt32)
  | dies (pid : UInt32)
  /-- The rest of what the daemon does with the store: the scans and the delayed removals
  of a round, and the handlers of other requests. -/
  | work (op : StoreOp)
  /-- A round starts: `pids.swap(exitedPids)`. -/
  | roundStart
  /-- `ClientProcessExited` for the next exit. -/
  | handleExit
  /-- The round is completed. -/
  | roundEnd

namespace MonitorWorld

/-- What an event does. -/
def step (config : StoreConfig) (w : MonitorWorld) : MonitorEvent → Option MonitorWorld
  | .suspends pid => some { w with store := (ipcSuspend config pid w.store).2 }
  | .resumes pid => some { w with store := (ipcResume config pid w.store).2 }
  | .linkDown pid =>
    if isClientSuspended config pid w.store then some w
    else some { w with exitedPids := w.exitedPids ++ [pid] }
  | .dies pid => some { w with alive := Function.update w.alive pid false }
  | .work op => if op.onClients then none else some { w with store := w.store.step config op }
  | .roundStart =>
    match w.round with
    | some _ => none
    | none => some { w with exitedPids := [], round := some ⟨w.exitedPids, fun p => !w.alive p⟩ }
  | .handleExit =>
    match w.round with
    | some ⟨pid :: exits, dead⟩ => some { w with
        store := (delSuspendClient config w.store pid).after w.store
        round := some ⟨exits, dead⟩ }
    | _ => none
  | .roundEnd =>
    match w.round with
    | some ⟨[], _⟩ => some { w with round := none }
    | _ => none

/-- **The condition on a run**: when a round starts, the exit of every dead client in the
array has been queued; and no request of a client that was dead then is executed in the
round. -/
def Noticed (w : MonitorWorld) : MonitorEvent → Prop
  | .roundStart => ∀ pid ∈ w.store.mem.suspended, w.alive pid = false → pid ∈ w.exitedPids
  | .suspends pid => ∀ r, w.round = some r → r.dead pid = false
  | _ => True

/-- What holds along such runs: the dead clients that are left are still to be handled. -/
structure RoundInv (config : StoreConfig) (w : MonitorWorld) : Prop where
  array : SuspendOk config w.store
  positive : ∀ pid ∈ w.store.mem.suspended, positivePid pid = true
  dead : ∀ r, w.round = some r → ∀ pid ∈ w.store.mem.suspended, r.dead pid = true → pid ∈ r.exits

variable {config : StoreConfig} {w w' : MonitorWorld}

section

variable (h : RoundInv config w) {pid : UInt32}

include h

theorem RoundInv.suspends (hnoticed : w.Noticed (.suspends pid)) :
    RoundInv config { w with store := (ipcSuspend config pid w.store).2 } := by
  by_cases hpid : positivePid pid = true
  swap
  · rw [ipcSuspend, if_pos (by simpa using hpid)]
    exact h
  obtain ⟨hok, ⟨-, hmem⟩ | ⟨-, hsame⟩⟩ := h.array.ipcSuspend hpid
  · refine ⟨hok, fun q hq => ?_, fun r hr q hq hdead => ?_⟩
    · rcases (hmem q).mp hq with hq | rfl
      · exact h.positive q hq
      · exact hpid
    · rcases (hmem q).mp hq with hq | rfl
      · exact h.dead r hr q hq hdead
      · rw [hnoticed r hr] at hdead
        cases hdead
  · rw [hsame]
    exact h

/-- Removing clients keeps the invariant; those that are handled are gone. -/
theorem RoundInv.removes {store : RecordStore} (hok : SuspendOk config store)
    (hmem : ∀ q, q ∈ store.mem.suspended ↔ q ∈ w.store.mem.suspended ∧ q ≠ pid)
    {round : Option MonitorRound}
    (hround : ∀ r, round = some r → ∃ r₀, w.round = some r₀ ∧ r₀.dead = r.dead ∧
      ∀ q ∈ r₀.exits, q = pid ∨ q ∈ r.exits) :
    RoundInv config { w with store, round } := by
  refine ⟨hok, fun q hq => h.positive q ((hmem q).mp hq).1, fun r hr q hq hdead => ?_⟩
  obtain ⟨r₀, hr₀, hsame, hexits⟩ := hround r hr
  obtain ⟨hin, hne⟩ := (hmem q).mp hq
  rw [← hsame] at hdead
  exact (hexits q (h.dead r₀ hr₀ q hin hdead)).resolve_left hne

theorem RoundInv.resumes (pid : UInt32) :
    RoundInv config { w with store := (ipcResume config pid w.store).2 } := by
  by_cases hpid : positivePid pid = true
  swap
  · rw [ipcResume, if_pos (by simpa using hpid)]
    exact h
  obtain ⟨hok, -, hmem⟩ := h.array.ipcResume hpid
  exact h.removes hok hmem fun r hr => ⟨r, hr, rfl, fun _ hq => .inr hq⟩

theorem RoundInv.work {op : StoreOp} (hop : op.onClients = false) :
    RoundInv config { w with store := w.store.step config op } := by
  obtain ⟨hcount, hpids⟩ := Prod.mk.inj
    ((spares_plan config w.store (StoreOp.leaves_clients hop)).write w.store.mem)
  have hsame : (w.store.step config op).mem.suspended = w.store.mem.suspended := by
    rw [StoreMem.suspended, StoreMem.suspended, RecordStore.step]
    rw [hcount, hpids]
  refine ⟨⟨?_, ?_⟩, ?_, ?_⟩
  · exact hcount.trans_le h.array.count
  · exact (congrArg List.Nodup hsame).mpr h.array.nodup
  · intro pid hpid
    rw [hsame] at hpid
    exact h.positive pid hpid
  · intro r hr pid hpid
    rw [hsame] at hpid
    exact h.dead r hr pid hpid

/-- `ClientProcessExited` takes the client out of the array. -/
theorem RoundInv.handleExit {exits : List UInt32} {dead : UInt32 → Bool}
    (hround : w.round = some ⟨pid :: exits, dead⟩) :
    RoundInv config { w with
      store := (delSuspendClient config w.store pid).after w.store
      round := some ⟨exits, dead⟩ } := by
  have hexits : ∀ r, some (⟨exits, dead⟩ : MonitorRound) = some r → ∃ r₀, w.round = some r₀ ∧
      r₀.dead = r.dead ∧ ∀ q ∈ r₀.exits, q = pid ∨ q ∈ r.exits := by
    rintro r hr
    cases hr
    exact ⟨_, hround, rfl, fun q hq => List.mem_cons.mp hq⟩
  by_cases hpid : positivePid pid = true
  · obtain ⟨-, hok, hmem⟩ := h.array.del hpid
    exact h.removes hok hmem hexits
  · -- such a client is not in the array
    have hsame : (delSuspendClient config w.store pid).after w.store = w.store := by
      rw [delSuspendClient, if_pos (by simpa using hpid)]
      rfl
    rw [hsame]
    refine h.removes h.array (fun q => (and_iff_left_of_imp fun hq => ?_).symm) hexits
    rintro rfl
    exact hpid (h.positive q hq)

theorem RoundInv.step {e : MonitorEvent} (hnoticed : w.Noticed e)
    (hstep : w.step config e = some w') : RoundInv config w' := by
  cases e with
  | suspends pid =>
    cases hstep
    exact h.suspends hnoticed
  | resumes pid =>
    cases hstep
    exact h.resumes pid
  | linkDown pid =>
    rw [MonitorWorld.step] at hstep
    split_ifs at hstep
    · cases hstep
      exact h
    · cases hstep
      exact { h with }
  | dies pid =>
    cases hstep
    exact { h with }
  | work op =>
    rw [MonitorWorld.step] at hstep
    split_ifs at hstep with hop
    cases hstep
    exact h.work (by simpa using hop)
  | roundStart =>
    rw [MonitorWorld.step] at hstep
    split at hstep
    · cases hstep
    · cases hstep
      refine { h with dead := fun r hr pid hpid hdead => ?_ }
      cases hr
      exact hnoticed pid hpid (by simpa using hdead)
  | handleExit =>
    rw [MonitorWorld.step] at hstep
    split at hstep
    · next hround =>
      cases hstep
      exact h.handleExit hround
    · cases hstep
  | roundEnd =>
    rw [MonitorWorld.step] at hstep
    split at hstep
    · cases hstep
      refine { h with dead := fun r hr => ?_ }
      cases hr
    · cases hstep

end

end MonitorWorld

open MonitorWorld in
/-- **A completed round leaves no dead client in the array**: in every run in which the
exits of dead clients are queued when a round starts, a round that has handled its exits
has removed everyone who was dead when it started. -/
theorem round_removes_dead (config : StoreConfig) (w₀ : MonitorWorld)
    (hstore : SuspendOk config w₀.store)
    (hpositive : ∀ pid ∈ w₀.store.mem.suspended, positivePid pid = true) (hidle : w₀.round = none)
    (w w' : MonitorWorld) (hreach : Reaches (MonitorWorld.step config) Noticed w₀ w)
    (r : MonitorRound) (hround : w.round = some r) (hend : w.step config .roundEnd = some w')
    (pid : UInt32) (hdead : r.dead pid = true) : pid ∉ w'.store.mem.suspended := by
  have hinv : RoundInv config w := by
    refine hreach.invariant ⟨hstore, hpositive, fun r hr => ?_⟩ fun _ _ _ h hnoticed hstep =>
      h.step hnoticed hstep
    rw [hidle] at hr
    cases hr
  rw [MonitorWorld.step, hround] at hend
  obtain ⟨exits, dead⟩ := r
  cases exits with
  | nil =>
    cases hend
    intro hin
    exact List.not_mem_nil (hinv.dead _ hround pid hin hdead)
  | cons q exits => cases hend

/-- A daemon without suspended clients, on a node where everyone is alive. -/
def quietMonitor : MonitorWorld := ⟨bareStore, [], fun _ => true, none⟩

/-- A client whose connection broke, which connected again, suspended and died; the round
has handled its exit. -/
def handledMonitor : MonitorWorld :=
  (execute (MonitorWorld.step recordStoreConfig) (fun _ _ => true) quietMonitor
    [.linkDown 7, .suspends 7, .dies 7, .roundStart, .handleExit]).getD quietMonitor

theorem round_removes_dead_handled :
    handledMonitor.round.map (fun r => r.dead 7) = some true ∧
      7 ∉ handledMonitor.store.mem.suspended := by
  refine ⟨rfl, round_removes_dead recordStoreConfig quietMonitor (suspendOk_zero _ _)
    (fun _ h => absurd h List.not_mem_nil) rfl handledMonitor _ ?_ _ rfl rfl 7 rfl⟩
  have hnoticed : ∀ pid : UInt32, pid ∈ ([7] : List UInt32) → pid ∈ ([7] : List UInt32) :=
    fun _ h => h
  exact ((((Reaches.refl.next (e := .linkDown 7) trivial rfl).next (e := .suspends 7)
    (fun r hr => by cases hr) rfl).next (e := .dies 7) trivial rfl).next (e := .roundStart)
    (fun pid hpid _ => hnoticed pid hpid) rfl).next (e := .handleExit) trivial rfl

/-- A client that suspended and died, and a round after that. -/
def leftMonitor : MonitorWorld :=
  (execute (MonitorWorld.step recordStoreConfig) (fun _ _ => true) quietMonitor
    [.suspends 7, .linkDown 7, .dies 7, .roundStart]).getD quietMonitor

/-- **A client that dies while it is suspended** is left in the array. -/
theorem round_leaves_dead :
    Reaches (MonitorWorld.step recordStoreConfig) (fun _ _ => True) quietMonitor leftMonitor ∧
      leftMonitor.round.map (fun r => r.dead 7) = some true ∧
      (leftMonitor.step recordStoreConfig .roundEnd).map (fun w => w.store.mem.suspended) =
        some [7] := by
  have hexec : execute (MonitorWorld.step recordStoreConfig) (fun _ _ => true) quietMonitor
      [.suspends 7, .linkDown 7, .dies 7, .roundStart] = some leftMonitor := rfl
  exact ⟨Reaches.refl.of_execute (fun _ _ _ => trivial) hexec, rfl, rfl⟩

end UbsMem
