import UbsMem.RecordStoreInv
import Mathlib.Data.Finset.Card

/-! # Clients that have suspended their connection

A client that stops its IPC connection on purpose is kept in an array of the record
store, so that `RegisterHandler` does not take the break of the connection for the exit
of the process.  The daemon's handlers add and remove the client; removing moves the
last element of the array into the place that becomes free.

`SuspendOk` is what the array keeps: it is not overfull and holds no client twice.
`Suspends` adds which clients these are, over runs with restarts; last, the daemon dies
between the stores of one call.
-/
namespace UbsMem

open Function List

def mxmErrMemlib : Int := 100

def mxmErrIpcInitCall : Int := 200

def mxmErrIpcSyncCall : Int := 201

def mxmErrIpcHcomInnerSyncCall : Int := 202

def mxmErrIpcCrcCheckError : Int := 203

def mxmErrIpcSerializeDeserializeError : Int := 204

section Suspend

variable (config : StoreConfig) (pid : UInt32)

def isClientSuspended (s : RecordStore) : Bool :=
  positivePid pid && decide (s.mem.suspendCount ≤ config.suspendMax) &&
    decide (pid ∈ s.mem.suspended)

/-- `MxmServerMsgHandle::IpcSuspend`, for the peer's pid. -/
def ipcSuspend (s : RecordStore) : Int × RecordStore :=
  if !positivePid pid then (mxmErrParamInvalid, s)
  else
    let p := addSuspendClient config s pid
    if p.ret ≠ 0 then (if p.ret = -2 then mxmErrNameBusy else mxmErrRecordAdd, p.after s)
    else (ubsmOk, p.after s)

/-- `MxmServerMsgHandle::IpcResume`, for the peer's pid. -/
def ipcResume (s : RecordStore) : Int × RecordStore :=
  if !positivePid pid then (mxmErrParamInvalid, s)
  else
    let p := delSuspendClient config s pid
    if p.ret ≠ 0 then (mxmErrRecordDelete, p.after s) else (ubsmOk, p.after s)

/-- What the array keeps. -/
structure SuspendOk (s : RecordStore) : Prop where
  count : s.mem.suspendCount ≤ config.suspendMax
  nodup : s.mem.suspended.Nodup

theorem suspendOk_zero (cache : StoreCache) : SuspendOk config ⟨.zero, cache⟩ :=
  ⟨Nat.zero_le _, by simp [StoreMem.suspended, StoreMem.zero]⟩

end Suspend

section Array

variable {config : StoreConfig} {s : RecordStore} {pid : UInt32}

theorem mem_suspended {m : StoreMem} {q : UInt32} :
    q ∈ m.suspended ↔ ∃ i < m.suspendCount, m.suspendPids i = q := by
  simp [StoreMem.suspended]

theorem suspended_append (m : StoreMem) (pid : UInt32) :
    ({ m with
        suspendCount := m.suspendCount + 1
        suspendPids := update m.suspendPids m.suspendCount pid } : StoreMem).suspended =
      m.suspended ++ [pid] := by
  simp only [StoreMem.suspended, range_succ, map_append, map_cons, update_self]
  refine congrArg (· ++ [pid]) (map_congr_left fun i hi => ?_)
  exact update_of_ne (Nat.ne_of_lt (mem_range.mp hi)) _ _

section

variable (h : SuspendOk config s)

include h

theorem SuspendOk.inj {i j : Nat} (hi : i < s.mem.suspendCount) (hj : j < s.mem.suspendCount)
    (heq : s.mem.suspendPids i = s.mem.suspendPids j) : i = j :=
  inj_on_of_nodup_map h.nodup (mem_range.mpr hi) (mem_range.mpr hj) heq

variable (hpid : positivePid pid = true)

include hpid

/-- **A client is added**: it is there afterwards, or the array is full and stays as it
is. -/
theorem SuspendOk.add : SuspendOk config ((addSuspendClient config s pid).after s) ∧
      ((addSuspendClient config s pid).ret = 0 ∧
          (∀ q, q ∈ ((addSuspendClient config s pid).after s).mem.suspended ↔
            q ∈ s.mem.suspended ∨ q = pid) ∨ (addSuspendClient config s pid).ret = -2 ∧
          (addSuspendClient config s pid).after s = s) := by
  have hcount : ¬ s.mem.suspendCount > config.suspendMax := by
    have := h.count
    omega
  unfold addSuspendClient
  rw [if_neg (by simp [hpid]), if_neg hcount]
  split_ifs with hmem hfull
  · refine ⟨h, .inl ⟨rfl, fun q => ?_⟩⟩
    constructor
    · exact .inl
    · rintro (hq | rfl)
      · exact hq
      · exact hmem
  · exact ⟨h, .inr ⟨rfl, rfl⟩⟩
  · have hsuspended := suspended_append s.mem pid
    refine ⟨⟨?_, ?_⟩, .inl ⟨rfl, fun q => ?_⟩⟩
    · show s.mem.suspendCount + 1 ≤ config.suspendMax
      omega
    · refine (congrArg List.Nodup hsuspended).mpr ?_
      refine nodup_append.mpr ⟨h.nodup, nodup_singleton _, ?_⟩
      rintro q hq r hr rfl
      rw [mem_singleton.mp hr] at hq
      exact hmem hq
    · refine (iff_of_eq (congrArg (q ∈ ·) hsuspended)).trans ?_
      simp

/-- **A client is removed**: it is gone, and the others are there as before. -/
theorem SuspendOk.del : (delSuspendClient config s pid).ret = 0 ∧
      SuspendOk config ((delSuspendClient config s pid).after s) ∧
      ∀ q, q ∈ ((delSuspendClient config s pid).after s).mem.suspended ↔
        q ∈ s.mem.suspended ∧ q ≠ pid := by
  have hcount : ¬ s.mem.suspendCount > config.suspendMax := by
    have := h.count
    omega
  unfold delSuspendClient
  rw [if_neg (by simp [hpid]), if_neg hcount]
  cases hfind : (List.range s.mem.suspendCount).find? fun i => s.mem.suspendPids i = pid with
  | none =>
    refine ⟨rfl, h, fun q => ?_⟩
    refine iff_self_and.mpr fun hq => ?_
    rintro rfl
    obtain ⟨i, hi, hq⟩ := mem_suspended.mp hq
    exact List.find?_eq_none.mp hfind i (mem_range.mpr hi) (decide_eq_true hq)
  | some i =>
    have hi : i < s.mem.suspendCount := mem_range.mp (mem_of_find?_eq_some hfind)
    have hat : s.mem.suspendPids i = pid := by simpa using List.find?_some hfind
    -- what stands at a place of the shorter array, and where it stood before
    have hplace : ∀ k < s.mem.suspendCount - 1, ∃ j < s.mem.suspendCount, j ≠ i ∧
        (if k = i then j = s.mem.suspendCount - 1 else j = k) ∧
        update s.mem.suspendPids i (s.mem.suspendPids (s.mem.suspendCount - 1)) k =
          s.mem.suspendPids j := by
      intro k hk
      by_cases hki : k = i
      · exact ⟨s.mem.suspendCount - 1, by omega, by omega, by simp [hki], by simp [hki]⟩
      · exact ⟨k, by omega, hki, by simp [hki], update_of_ne hki _ _⟩
    refine ⟨rfl, ⟨?_, ?_⟩, fun q => ?_⟩
    · exact le_trans (Nat.sub_le _ _) h.count
    · refine List.Nodup.map_on (fun k hk k' hk' heq => ?_) nodup_range
      obtain ⟨j, hj, -, hkj, hpids⟩ := hplace k (mem_range.mp hk)
      obtain ⟨j', hj', -, hkj', hpids'⟩ := hplace k' (mem_range.mp hk')
      have hjj : j = j' := h.inj hj hj' (hpids.symm.trans (heq.trans hpids'))
      have hk := mem_range.mp hk
      have hk' := mem_range.mp hk'
      simp only [Plan.after, StoreMem.write, foldl_cons, foldl_nil] at hk hk'
      split_ifs at hkj hkj' <;> omega
    · rw [mem_suspended, mem_suspended]
      constructor
      · rintro ⟨k, hk, rfl⟩
        obtain ⟨j, hj, hne, -, hpids⟩ := hplace k hk
        refine ⟨⟨j, hj, hpids.symm⟩, fun heq => hne (h.inj hj hi ?_)⟩
        exact hpids.symm.trans (heq.trans hat.symm)
      · rintro ⟨⟨k, hk, rfl⟩, hne⟩
        have hki : k ≠ i := by
          rintro rfl
          exact hne hat
        by_cases hlast : k = s.mem.suspendCount - 1
        · refine ⟨i, show i < s.mem.suspendCount - 1 by omega, ?_⟩
          rw [hlast]
          exact update_self ..
        · exact ⟨k, show k < s.mem.suspendCount - 1 by omega, update_of_ne hki _ _⟩

theorem isClientSuspended_iff : isClientSuspended config pid s = true ↔ pid ∈ s.mem.suspended := by
  simp [isClientSuspended, hpid, h.count]

/-- **The request to suspend**: the client is in the array afterwards, or the array is
full. -/
theorem SuspendOk.ipcSuspend : SuspendOk config (ipcSuspend config pid s).2 ∧
      ((ipcSuspend config pid s).1 = ubsmOk ∧
          (∀ q, q ∈ (ipcSuspend config pid s).2.mem.suspended ↔ q ∈ s.mem.suspended ∨ q = pid) ∨
        (ipcSuspend config pid s).1 = mxmErrNameBusy ∧ (ipcSuspend config pid s).2 = s) := by
  obtain ⟨hok, hcases⟩ := h.add hpid
  rw [UbsMem.ipcSuspend, if_neg (by simp [hpid])]
  rcases hcases with ⟨hret, hmem⟩ | ⟨hret, hsame⟩
  · simp only [hret, ne_eq, not_true_eq_false, if_false]
    exact ⟨hok, .inl ⟨trivial, hmem⟩⟩
  · simp only [hret]
    exact ⟨hok, .inr ⟨rfl, hsame⟩⟩

/-- **The request to resume**: the client is not in the array afterwards. -/
theorem SuspendOk.ipcResume :
    SuspendOk config (ipcResume config pid s).2 ∧ (ipcResume config pid s).1 = ubsmOk ∧
      ∀ q, q ∈ (ipcResume config pid s).2.mem.suspended ↔ q ∈ s.mem.suspended ∧ q ≠ pid := by
  obtain ⟨hret, hok, hmem⟩ := h.del hpid
  rw [UbsMem.ipcResume, if_neg (by simp [hpid])]
  simp only [hret, ne_eq, not_true_eq_false, if_false]
  exact ⟨hok, trivial, hmem⟩

end

end Array

/-! ### Runs and restarts -/

/-- A call that changes the array. -/
inductive SuspendCall
  | add (pid : UInt32)
  | del (pid : UInt32)

/-- The client that a call is about. -/
def SuspendCall.pid : SuspendCall → UInt32
  | .add pid => pid
  | .del pid => pid

/-- What a call does. -/
def SuspendCall.plan (config : StoreConfig) (s : RecordStore) : SuspendCall → Plan
  | .add pid => addSuspendClient config s pid
  | .del pid => delSuspendClient config s pid

/-- A call, or a restart in which `kill` finds the clients that are `alive`. -/
inductive SuspendEvent
  | call (c : SuspendCall)
  | restart (alive : UInt32 → Bool)

/-- The store after an event. -/
def SuspendEvent.step (config : StoreConfig) (s : RecordStore) : SuspendEvent → RecordStore
  | .call c => (c.plan config s).after s
  | .restart alive => initializeStore config alive s.mem

/-- The store after a run. -/
def suspendRun (config : StoreConfig) (s : RecordStore) (events : List SuspendEvent) :
    RecordStore := events.foldl (SuspendEvent.step config) s

/-- **What the array is for**: a set of at most `room` clients. -/
def SuspendEvent.spec (room : Nat) (clients : Finset UInt32) : SuspendEvent → Finset UInt32
  | .call (.add pid) =>
    if positivePid pid ∧ (pid ∈ clients ∨ clients.card < room) then insert pid clients
    else clients
  | .call (.del pid) => clients.erase pid
  | .restart alive => clients.filter fun pid => alive pid

/-- The array holds a set of clients. -/
structure Suspends (config : StoreConfig) (s : RecordStore) (clients : Finset UInt32) : Prop where
  ok : SuspendOk config s
  mem : ∀ q, q ∈ s.mem.suspended ↔ q ∈ clients
  positive : ∀ q ∈ clients, positivePid q = true

section Runs

variable {config : StoreConfig} {s : RecordStore} {clients : Finset UInt32}

section

variable (h : Suspends config s clients)

include h

theorem Suspends.card : clients.card = s.mem.suspendCount := by
  have heq : clients = s.mem.suspended.toFinset := by
    ext q
    rw [mem_toFinset, h.mem]
  rw [heq, toFinset_card_of_nodup h.ok.nodup]
  simp [StoreMem.suspended]

theorem Suspends.add_ret {pid : UInt32} (hpid : positivePid pid = true) :
    (addSuspendClient config s pid).ret = 0 ↔
      pid ∈ clients ∨ clients.card < config.suspendMax := by
  have hcount := h.ok.count
  unfold addSuspendClient
  rw [if_neg (by simp [hpid]), if_neg (by omega), h.card, ← h.mem]
  split_ifs with hmem hfull
  · simp [hmem]
  · simp [hmem, hfull]
  · simp only [true_iff]
    omega

theorem Suspends.add (pid : UInt32) : Suspends config ((addSuspendClient config s pid).after s)
      ((SuspendEvent.call (.add pid)).spec config.suspendMax clients) := by
  simp only [SuspendEvent.spec]
  by_cases hpid : positivePid pid = true
  · obtain ⟨hok, ⟨hret, hmem⟩ | ⟨hret, hsame⟩⟩ := h.ok.add hpid
    · rw [if_pos ⟨hpid, (h.add_ret hpid).mp hret⟩]
      refine ⟨hok, fun q => ?_, fun q hq => ?_⟩
      · rw [hmem, h.mem, Finset.mem_insert, or_comm]
      · rcases Finset.mem_insert.mp hq with rfl | hq
        · exact hpid
        · exact h.positive q hq
    · rw [if_neg fun hroom => ?_, hsame]
      · exact h
      · rw [(h.add_ret hpid).mpr hroom.2] at hret
        cases hret
  · rw [if_neg fun hroom => hpid hroom.1]
    have hrefuse : addSuspendClient config s pid = .refuse s := if_pos (by simpa using hpid)
    rw [hrefuse]
    exact h

theorem Suspends.del (pid : UInt32) :
    Suspends config ((delSuspendClient config s pid).after s) (clients.erase pid) := by
  by_cases hpid : positivePid pid = true
  · obtain ⟨-, hok, hmem⟩ := h.ok.del hpid
    refine ⟨hok, fun q => ?_, fun q hq => h.positive q (Finset.mem_of_mem_erase hq)⟩
    rw [hmem, h.mem, Finset.mem_erase, and_comm]
  · have hrefuse : delSuspendClient config s pid = .refuse s := if_pos (by simpa using hpid)
    rw [hrefuse, Finset.erase_eq_of_notMem fun hmem => hpid (h.positive pid hmem)]
    exact h

end

/-- A restart keeps of the array in a file the clients that are alive, in their order. -/
theorem suspended_restart (alive : UInt32 → Bool) {m : StoreMem}
    (hcount : m.suspendCount ≤ config.suspendMax) :
    (initializeStore config alive m).mem.suspended =
      m.suspended.filter fun pid => positivePid pid && alive pid := by
  rw [(listSuspendClients_initializeStore config alive m).2.2, keepSuspended,
    if_neg (not_lt.mpr hcount)]

theorem Suspends.restart (h : Suspends config s clients) (alive : UInt32 → Bool) :
    Suspends config (initializeStore config alive s.mem)
      (clients.filter fun pid => alive pid) := by
  have hsuspended := suspended_restart alive h.ok.count
  refine ⟨⟨(listSuspendClients_initializeStore config alive s.mem).2.1, ?_⟩, fun q => ?_,
    fun q hq => h.positive q (Finset.mem_filter.mp hq).1⟩
  · rw [hsuspended]
    exact h.ok.nodup.filter _
  · rw [hsuspended, mem_filter, h.mem, Finset.mem_filter, Bool.and_eq_true]
    exact and_congr_right fun hq => and_iff_right (h.positive q hq)

theorem Suspends.step (h : Suspends config s clients) (e : SuspendEvent) :
    Suspends config (e.step config s) (e.spec config.suspendMax clients) := by
  match e with
  | .call (.add pid) => exact h.add pid
  | .call (.del pid) => exact h.del pid
  | .restart alive => exact h.restart alive

/-- From a file of zeros the array holds the set that the run stands for. -/
theorem suspends_run (cache : StoreCache) (events : List SuspendEvent) :
    Suspends config (suspendRun config ⟨.zero, cache⟩ events)
      (events.foldl (SuspendEvent.spec config.suspendMax) ∅) := by
  have hstart : Suspends config ⟨.zero, cache⟩ ∅ :=
    ⟨suspendOk_zero config cache, by simp [StoreMem.suspended, StoreMem.zero], by simp⟩
  have hrun : ∀ (events : List SuspendEvent) (s : RecordStore) (clients : Finset UInt32),
      Suspends config s clients → Suspends config (suspendRun config s events)
        (events.foldl (SuspendEvent.spec config.suspendMax) clients) := by
    intro events
    induction events with
    | nil => exact fun _ _ h => h
    | cons e events ih => exact fun s clients h => ih _ _ (h.step e)
  exact hrun events _ _ hstart

theorem addSuspendClient_of_mem (h : SuspendOk config s) {pid : UInt32}
    (hpid : positivePid pid = true) (hmem : pid ∈ s.mem.suspended) :
    addSuspendClient config s pid = ⟨0, [], s.cache⟩ := by
  have hcount := h.count
  unfold addSuspendClient
  rw [if_neg (by simp [hpid]), if_neg (by omega), if_pos hmem]

theorem delSuspendClient_of_not_mem (h : SuspendOk config s) {pid : UInt32}
    (hpid : positivePid pid = true) (hmem : pid ∉ s.mem.suspended) :
    delSuspendClient config s pid = ⟨0, [], s.cache⟩ := by
  have hcount := h.count
  have hnone : (List.range s.mem.suspendCount).find?
      (fun i => s.mem.suspendPids i = pid) = none := by
    refine List.find?_eq_none.mpr fun i hi heq => hmem ?_
    exact mem_suspended.mpr ⟨i, mem_range.mp hi, of_decide_eq_true heq⟩
  unfold delSuspendClient
  rw [if_neg (by simp [hpid]), if_neg (by omega), hnone]

theorem SuspendCall.plan_of_not_positive (s : RecordStore) {c : SuspendCall}
    (hpid : ¬positivePid c.pid = true) : c.plan config s = .refuse s := by
  have hnot : (!positivePid c.pid) = true := by simpa using hpid
  cases c with
  | add pid | del pid => exact if_pos hnot

/-- A call that fails changes nothing, and a call that is made again changes nothing
more. -/
theorem SuspendOk.again (h : SuspendOk config s) (c : SuspendCall) :
    ((c.plan config s).ret ≠ 0 → (c.plan config s).after s = s) ∧
      (c.plan config ((c.plan config s).after s)).after ((c.plan config s).after s) =
        (c.plan config s).after s := by
  by_cases hpid : positivePid c.pid = true
  · match c with
    | .add pid =>
      change positivePid pid = true at hpid
      simp only [SuspendCall.plan]
      obtain ⟨hok, ⟨hret, hmem⟩ | ⟨-, hsame⟩⟩ := h.add hpid
      · rw [addSuspendClient_of_mem hok hpid ((hmem pid).mpr (.inr rfl))]
        exact ⟨fun hne => absurd hret hne, rfl⟩
      · rw [hsame]
        exact ⟨fun _ => rfl, hsame⟩
    | .del pid =>
      change positivePid pid = true at hpid
      simp only [SuspendCall.plan]
      obtain ⟨hret, hok, hmem⟩ := h.del hpid
      rw [delSuspendClient_of_not_mem hok hpid fun hin => ((hmem pid).mp hin).2 rfl]
      exact ⟨fun hne => absurd hret hne, rfl⟩
  · simp only [SuspendCall.plan_of_not_positive _ hpid]
    exact ⟨fun _ => rfl, rfl⟩

/-! ### A crash between the two stores -/

/-- Between the two stores of a call: the cell that an added client will get holds no
client of the array; the client that is removed is the last one. -/
def SuspendCall.Harmless (s : RecordStore) : SuspendCall → Prop
  | .add _ => s.mem.suspendPids s.mem.suspendCount ∉ s.mem.suspended
  | .del pid => s.mem.suspendPids (s.mem.suspendCount - 1) = pid

/-- The file when the daemon dies after `k` stores of a call. -/
def SuspendCall.crashMem (config : StoreConfig) (s : RecordStore) (k : Nat) (c : SuspendCall) :
    StoreMem := s.mem.write ((c.plan config s).stores.take k)

/-- The array of a file is in order and has every client of another one but `pid`. -/
def KeepsOthers (config : StoreConfig) (m : StoreMem) (pid : UInt32) (m' : StoreMem) : Prop :=
  m'.suspendCount ≤ config.suspendMax ∧ m'.suspended.Nodup ∧
    ∀ q ∈ m.suspended, q ≠ pid → q ∈ m'.suspended

section

variable (h : SuspendOk config s)

include h

theorem SuspendOk.keepsOthers_self (pid : UInt32) :
    KeepsOthers config s.mem pid s.mem := ⟨h.count, h.nodup, fun _ hq _ => hq⟩

theorem SuspendOk.keepsOthers_after (c : SuspendCall) :
    KeepsOthers config s.mem c.pid ((c.plan config s).after s).mem := by
  by_cases hpid : positivePid c.pid = true
  · match c with
    | .add pid =>
      obtain ⟨hok, ⟨-, hmem⟩ | ⟨-, hsame⟩⟩ := h.add hpid
      · exact ⟨hok.count, hok.nodup, fun q hq _ => (hmem q).mpr (.inl hq)⟩
      · exact (congrArg (fun s' : RecordStore => KeepsOthers config s.mem pid s'.mem) hsame).mpr
          (h.keepsOthers_self pid)
    | .del pid =>
      obtain ⟨-, hok, hmem⟩ := h.del hpid
      exact ⟨hok.count, hok.nodup, fun q hq hne => (hmem q).mpr ⟨hq, hne⟩⟩
  · rw [SuspendCall.plan_of_not_positive _ hpid]
    exact h.keepsOthers_self c.pid

/-- One of the two stores of `AddSuspendClient` has been made: the cell behind the array
belongs to it, with what stood there. -/
theorem SuspendOk.keepsOthers_longer (pid : UInt32) (hroom : s.mem.suspendCount < config.suspendMax)
    (hcell : s.mem.suspendPids s.mem.suspendCount ∉ s.mem.suspended) :
    KeepsOthers config s.mem pid { s.mem with suspendCount := s.mem.suspendCount + 1 } := by
  have hsuspended := suspended_append s.mem (s.mem.suspendPids s.mem.suspendCount)
  rw [update_eq_self] at hsuspended
  refine ⟨hroom, ?_, fun q hq _ => ?_⟩
  · rw [hsuspended]
    refine nodup_append'.mpr ⟨h.nodup, nodup_singleton _, ?_⟩
    exact disjoint_singleton.mpr hcell
  · rw [hsuspended]
    exact mem_append_left _ hq

/-- One of the two stores of `DelSuspendClient` has been made: the last cell is cut off. -/
theorem SuspendOk.keepsOthers_shorter {pid : UInt32}
    (hlast : s.mem.suspendPids (s.mem.suspendCount - 1) = pid) :
    KeepsOthers config s.mem pid { s.mem with suspendCount := s.mem.suspendCount - 1 } := by
  refine ⟨le_trans (Nat.sub_le _ _) h.count, ?_, fun q hq hne => ?_⟩
  · have hsub : (List.range (s.mem.suspendCount - 1)).Sublist (List.range s.mem.suspendCount) :=
      range_sublist.mpr (Nat.sub_le _ _)
    exact h.nodup.sublist (hsub.map _)
  · obtain ⟨i, hi, rfl⟩ := mem_suspended.mp hq
    have hi' : i ≠ s.mem.suspendCount - 1 := by
      rintro rfl
      exact hne hlast
    exact mem_suspended.mpr ⟨i, show i < s.mem.suspendCount - 1 by omega, rfl⟩

theorem SuspendOk.keepsOthers_crash {c : SuspendCall} {k : Nat}
    (hsafe : k = 0 ∨ (c.plan config s).stores.length ≤ k ∨ c.Harmless s) :
    KeepsOthers config s.mem c.pid (c.crashMem config s k) := by
  by_cases hall : (c.plan config s).stores.length ≤ k
  · rw [SuspendCall.crashMem, take_of_length_le hall]
    exact h.keepsOthers_after c
  rcases Nat.eq_zero_or_pos k with rfl | hpos
  · exact h.keepsOthers_self c.pid
  have hharmless := (hsafe.resolve_left (by omega)).resolve_left hall
  -- There are two stores, and one has been made.
  match c with
  | .add pid =>
    simp only [SuspendCall.crashMem, SuspendCall.plan, addSuspendClient] at hall ⊢
    split_ifs at hall ⊢ with hpositive hmany hmem hfull
    · exact absurd (Nat.zero_le _) hall
    · exact absurd (Nat.zero_le _) hall
    · exact absurd (Nat.zero_le _) hall
    · exact absurd (Nat.zero_le _) hall
    · obtain rfl : k = 1 := by
        simp only [length_cons, length_nil] at hall
        omega
      exact h.keepsOthers_longer pid (by omega) hharmless
  | .del pid =>
    simp only [SuspendCall.crashMem, SuspendCall.plan, delSuspendClient] at hall ⊢
    split_ifs at hall ⊢ with hpositive hmany
    · exact absurd (Nat.zero_le _) hall
    · exact absurd (Nat.zero_le _) hall
    · cases hfind : (List.range s.mem.suspendCount).find? fun i => s.mem.suspendPids i = pid with
      | none =>
        rw [hfind] at hall
        exact absurd (Nat.zero_le _) hall
      | some i =>
        rw [hfind] at hall
        obtain rfl : k = 1 := by
          simp only [length_cons, length_nil] at hall
          omega
        exact h.keepsOthers_shorter hharmless

end

/-- **The array of suspended clients is a set, and a crash does no harm to the others.**
After every run from a file of zeros it holds, without repetitions, the clients that were
added and not removed, as far as there was room and they lived at the restarts; a call
that fails changes nothing and one that is repeated nothing more; and from the file of a
daemon that dies in a call, outside the window between two stores or where that window
is harmless, a restart reads every other client that lives, and none twice. -/
theorem suspended_is_set (config : StoreConfig) (cache : StoreCache) (events : List SuspendEvent) :
    let s := suspendRun config ⟨.zero, cache⟩ events
    let clients := events.foldl (SuspendEvent.spec config.suspendMax) ∅
    s.mem.suspended.Nodup ∧ s.mem.suspended.length ≤ config.suspendMax ∧
      (∀ q, q ∈ listSuspendClients config s ↔ q ∈ clients) ∧
      (∀ q, isClientSuspended config q s = true ↔ q ∈ clients) ∧
      (∀ c : SuspendCall, ((c.plan config s).ret ≠ 0 → (c.plan config s).after s = s) ∧
        (c.plan config ((c.plan config s).after s)).after ((c.plan config s).after s) =
          (c.plan config s).after s) ∧
      ∀ (c : SuspendCall) (k : Nat) (alive : UInt32 → Bool),
        (k = 0 ∨ (c.plan config s).stores.length ≤ k ∨ c.Harmless s) →
        (initializeStore config alive (c.crashMem config s k)).mem.suspended.Nodup ∧
          ∀ q ∈ s.mem.suspended, q ≠ c.pid → alive q = true →
            q ∈ (initializeStore config alive (c.crashMem config s k)).mem.suspended := by
  intro s clients
  have h : Suspends config s clients := suspends_run cache events
  refine ⟨h.ok.nodup, ?_, fun q => ?_, fun q => ?_, fun c => h.ok.again c,
    fun c k alive hsafe => ?_⟩
  · simpa [StoreMem.suspended] using h.ok.count
  · rw [listSuspendClients, if_neg (not_lt.mpr h.ok.count)]
    exact h.mem q
  · by_cases hpid : positivePid q = true
    · rw [isClientSuspended_iff h.ok hpid]
      exact h.mem q
    · simp only [isClientSuspended, hpid, Bool.false_and, Bool.false_eq_true, false_iff]
      exact fun hq => hpid (h.positive q hq)
  · obtain ⟨hcount, hnodup, hkeep⟩ := h.ok.keepsOthers_crash hsafe
    rw [suspended_restart alive hcount]
    refine ⟨hnodup.filter _, fun q hq hne halive => ?_⟩
    refine mem_filter.mpr ⟨hkeep q hq hne, ?_⟩
    rw [h.positive q ((h.mem q).mp hq), halive]
    rfl

end Runs

/-- A store on a file of zeros to which 7 and 9 have been added. -/
def twoSuspended : RecordStore :=
  suspendRun recordStoreConfig ⟨.zero, restoreStore smallStoreConfig .zero⟩
    [.call (.add 7), .call (.add 9)]

/-- The daemon dies between the two stores that remove 9, the last client. -/
theorem suspended_is_set_last :
    7 ∈ (initializeStore recordStoreConfig (fun _ => true)
      ((SuspendCall.del 9).crashMem recordStoreConfig twoSuspended 1)).mem.suspended := by
  have hlast : twoSuspended.mem.suspendPids (twoSuspended.mem.suspendCount - 1) = 9 := by
    decide +kernel
  obtain ⟨-, -, -, -, -, hcrash⟩ := suspended_is_set recordStoreConfig
    (restoreStore smallStoreConfig .zero) [.call (.add 7), .call (.add 9)]
  exact (hcrash (.del 9) 1 (fun _ => true) (.inr (.inr hlast))).2 7 (by decide +kernel)
    (by decide) rfl

/-- **Both windows do harm**: with clients 7 and 9 in the array, a daemon that dies
between the stores that remove 7 has lost 9 after the restart; and once 7 is removed, one
that dies between the stores that add 5 has 9 twice. -/
theorem suspended_crash_harms :
    (initializeStore recordStoreConfig (fun _ => true)
        ((SuspendCall.del 7).crashMem recordStoreConfig twoSuspended 1)).mem.suspended = [7] ∧
      (initializeStore recordStoreConfig (fun _ => true)
        ((SuspendCall.add 5).crashMem recordStoreConfig
          (suspendRun recordStoreConfig twoSuspended [.call (.del 7)]) 1)).mem.suspended =
        [9, 9] := by
  decide +kernel

end UbsMem
