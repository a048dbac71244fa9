import UbsMem.LockContext
import Mathlib.Logic.Relation

/-! # Who may unlock a name

A process may unlock a name when the client that serves the name has a record of it.
Such a record is made by every successful `HandleLock`, but it is removed only by the
release that brings the reference count of the name to zero, so it can outlive the
acquisitions it stands for.

`held` reads off the trace how many acquisitions a process has left.  The main result
is about runs of any length: a process that never acquired a name cannot release it, and
as long as whoever gives back its last acquisition of a name holds the last reference to
it, a process without acquisitions cannot release the name either and releases it at most
as often as it acquired it.
-/
namespace UbsMem

open Function List

/-- The processes with acquisitions of a name left, expired or not, each as often as it has
acquisitions. -/
def holds : List LockEvent → Name → List LockProc
  | [], _ => []
  | .acquired n p :: trace, name => if n = name then p :: holds trace name else holds trace name
  | .released n p :: trace, name =>
    if n = name then (holds trace name).erase p else holds trace name
  | .freed n :: trace, name => if n = name then [] else holds trace name

/-- The acquisitions of a name that a process has left. -/
def held (trace : List LockEvent) (name : Name) (proc : LockProc) : Nat :=
  (holds trace name).count proc

/-- Every release in the trace has an acquisition of its own. -/
def Balanced (trace : List LockEvent) : Prop :=
  ∀ name proc, trace.count (.released name proc) + held trace name proc ≤
    trace.count (.acquired name proc)

variable {trace : List LockEvent}

theorem Balanced.acquired (h : Balanced trace) (name : Name) (proc : LockProc) :
    Balanced (.acquired name proc :: trace) := by
  intro n p
  have hnp := h n p
  unfold held at hnp ⊢
  by_cases hn : name = n
  · subst hn
    by_cases hp : proc = p
    · subst hp
      simp [holds]
      omega
    · simpa [holds, hp, count_cons_of_ne] using hnp
  · simpa [holds, hn, count_cons_of_ne] using hnp

theorem Balanced.released (h : Balanced trace) {name : Name} {proc : LockProc}
    (hheld : proc ∈ holds trace name) : Balanced (.released name proc :: trace) := by
  intro n p
  have hnp := h n p
  unfold held at hnp ⊢
  by_cases hn : name = n
  · subst hn
    by_cases hp : proc = p
    · subst hp
      have := count_pos_iff.mpr hheld
      simp [holds]
      omega
    · simpa [holds, hp, count_cons_of_ne, count_erase_of_ne (Ne.symm hp)] using hnp
  · simpa [holds, hn, count_cons_of_ne] using hnp

theorem Balanced.freed (h : Balanced trace) (name : Name) : Balanced (.freed name :: trace) := by
  intro n p
  have hnp := h n p
  unfold held at hnp ⊢
  by_cases hn : name = n
  · subst hn
    simp [holds]
    omega
  · simpa [holds, hn] using hnp

/-! ### Records -/

theorem lt_or_gt_of_ne {x y : UInt32} (h : x ≠ y) : x < y ∨ y < x := by
  rw [UInt32.lt_iff_toNat_lt, UInt32.lt_iff_toNat_lt]
  have : x.toNat ≠ y.toNat := fun heq => h (UInt32.toNat_inj.mp heq)
  omega

theorem LockUdsInfo.equivKeys_iff {a b : LockUdsInfo} :
    equivKeys LockUdsInfo.lt a b = true ↔ a.toLockProc = b.toLockProc := by
  have hproc : a.toLockProc = b.toLockProc ↔ a.pid = b.pid ∧ a.uid = b.uid ∧ a.gid = b.gid := by
    obtain ⟨⟨_, _, _⟩, _⟩ := a
    obtain ⟨⟨_, _, _⟩, _⟩ := b
    simp
  rw [hproc]
  unfold equivKeys LockUdsInfo.lt
  by_cases hp : a.pid = b.pid
  · by_cases hu : a.uid = b.uid
    · by_cases hg : a.gid = b.gid
      · simp [hp, hu, hg]
      · simp only [hp, hu, hg]
        rcases lt_or_gt_of_ne hg with h | h <;> simp [h]
    · simp only [hp, hu, Ne.symm hu, ne_eq]
      rcases lt_or_gt_of_ne hu with h | h <;> simp [h]
  · simp only [hp, Ne.symm hp, ne_eq]
    rcases lt_or_gt_of_ne hp with h | h <;> simp [h]

namespace ClientDesc

section

variable (c : ClientDesc) (name n : Name)

theorem records_setLockUdsInfo (u : LockUdsInfo) : (c.setLockUdsInfo name u).records n =
      if n = name then setInsert LockUdsInfo.lt u (setErase LockUdsInfo.lt u (c.records name))
      else c.records n := by
  unfold setLockUdsInfo records
  by_cases h : n = name <;> simp [h]

theorem records_removeLockUdsInfo :
    (c.removeLockUdsInfo name).records n = if n = name then [] else c.records n := by
  unfold removeLockUdsInfo records
  by_cases h : n = name <;> simp [h]

theorem records_removeLockUdsInfoByName (u : LockUdsInfo) :
    (c.removeLockUdsInfoByName name u).records n =
      if n = name then setErase LockUdsInfo.lt u (c.records name) else c.records n := by
  unfold removeLockUdsInfoByName
  by_cases h : n = name
  · subst h
    cases hset : c.name2UdsInfo n <;> simp [records, hset, setErase]
  · cases c.name2UdsInfo name <;> simp [records, h]

theorem records_removeLockUdsInfoByName_sublist (u : LockUdsInfo) :
    ((c.removeLockUdsInfoByName name u).records n).Sublist (c.records n) := by
  rw [records_removeLockUdsInfoByName]
  split_ifs with h
  · subst h
    exact filter_sublist
  · exact .refl _

theorem getLockId_removeLockUdsInfoByName (u : LockUdsInfo) :
    (c.removeLockUdsInfoByName name u).getLockId n = c.getLockId n := by
  unfold removeLockUdsInfoByName
  split <;> rfl

end

theorem isLockUdsValid_iff (c : ClientDesc) (name : Name) (u : LockUdsInfo) :
    c.isLockUdsValid name u = true ↔
      ∃ r ∈ c.records name, r.toLockProc = u.toLockProc := by
  simp only [isLockUdsValid, any_eq_true, LockUdsInfo.equivKeys_iff]
  exact exists_congr fun r => and_congr Iff.rfl eq_comm

end ClientDesc

/-! ### Steps that add no record -/

namespace LockState

variable {D : Type} (lib : DlockLib D) {s s' : LockState D} {name n : Name} {client i : Nat}
  {proc : LockProc} {c : ClientDesc} {u : LockUdsInfo}

/-- The records of a name at a client. -/
def recordsAt (s : LockState D) (client : Nat) (name : Name) : List LockUdsInfo :=
  (s.dlockClients client).records name

/-- No record is added, and the trace only grows. -/
structure Shrinks (s s' : LockState D) : Prop where
  records : ∀ client name, (s'.recordsAt client name).Sublist (s.recordsAt client name)
  trace : s.trace <:+ s'.trace

theorem Shrinks.refl (s : LockState D) : Shrinks s s := ⟨fun _ _ => .refl _, suffix_refl _⟩

theorem Shrinks.trans {s s₁ s₂ : LockState D} (h : Shrinks s s₁) (h₁ : Shrinks s₁ s₂) :
    Shrinks s s₂ := ⟨fun c n => (h₁.records c n).trans (h.records c n), h.trace.trans h₁.trace⟩

theorem Shrinks.of_update (hclients : s'.dlockClients = update s.dlockClients client c)
    (hrecords : ∀ name, (c.records name).Sublist (s.recordsAt client name))
    (htrace : s.trace <:+ s'.trace) : Shrinks s s' := by
  refine ⟨fun i name => ?_, htrace⟩
  unfold recordsAt
  rw [hclients]
  by_cases hi : i = client
  · subst hi
    rw [update_self]
    exact hrecords name
  · rw [update_of_ne hi]

theorem setClient_shrinks (h : ∀ name, (c.records name).Sublist (s.recordsAt i name)) :
    Shrinks s (s.setClient i c) := .of_update rfl h (suffix_refl _)

/-- What `TryReleaseLock` does where the name is served. -/
theorem tryReleaseLock_eq (hmeta : s.metaMap name = some client) (lockId : Int) :
    (tryReleaseLock lib s name lockId).trace = .freed name :: s.trace ∧
      (tryReleaseLock lib s name lockId).metaMap = update s.metaMap name none ∧
      (tryReleaseLock lib s name lockId).dlockClients =
        update s.dlockClients client ((s.dlockClients client).removeLockId name) := by
  unfold tryReleaseLock
  rw [hmeta]
  exact ⟨rfl, rfl, rfl⟩

section

variable (s : LockState D) (name : Name)

/-- `TryReleaseLock` notes at most that the lock was given back and keeps all records. -/
theorem tryReleaseLock_same (lockId : Int) : ((tryReleaseLock lib s name lockId).trace = s.trace ∨
        (tryReleaseLock lib s name lockId).trace = .freed name :: s.trace) ∧
      ∀ i n, (tryReleaseLock lib s name lockId).recordsAt i n = s.recordsAt i n := by
  cases hmeta : s.metaMap name with
  | none =>
    unfold tryReleaseLock
    rw [hmeta]
    exact ⟨.inl rfl, fun _ _ => rfl⟩
  | some client =>
    obtain ⟨htrace, -, hclients⟩ := tryReleaseLock_eq lib hmeta lockId
    refine ⟨.inr htrace, fun i n => ?_⟩
    unfold recordsAt
    rw [hclients]
    by_cases hi : i = client
    · subst hi
      rw [update_self]
      rfl
    · rw [update_of_ne hi]

theorem tryReleaseLock_shrinks (lockId : Int) : Shrinks s (tryReleaseLock lib s name lockId) := by
  obtain ⟨htrace, hrecords⟩ := tryReleaseLock_same lib s name lockId
  refine ⟨fun i n => hrecords i n ▸ .refl _, ?_⟩
  rcases htrace with htrace | htrace
  · exact htrace ▸ suffix_refl _
  · exact htrace ▸ suffix_cons _ _

/-- `ReleaseClientDescRef` changes the count only. -/
theorem releaseClientDescRef_eq :
    ∃ refCount, (s.releaseClientDescRef name).2 = { s with refCount } := by
  unfold releaseClientDescRef
  split
  · exact ⟨s.refCount, rfl⟩
  · split <;> exact ⟨_, rfl⟩

end

/-- A relation between states that holds across what unlocking does: to the library, the counts
and the trace, in `TryReleaseLock`, and to the records of a client, of which it adds none. -/
structure UnlockRel (Rel : LockState D → LockState D → Prop) : Prop where
  refl : ∀ s, Rel s s
  trans : ∀ {s s₁ s₂}, Rel s s₁ → Rel s₁ s₂ → Rel s s₂
  aside : ∀ s d refCount events,
    Rel s { s with lib := d, refCount, trace := events ++ s.trace }
  release : ∀ s name lockId, Rel s (tryReleaseLock lib s name lockId)
  forget : ∀ {s client c}, (∀ name, (c.records name).Sublist (s.recordsAt client name)) →
    Rel s (s.setClient client c)

section

variable {lib} {Rel : LockState D → LockState D → Prop} (h : UnlockRel lib Rel) (s : LockState D)
  (name : Name)

include h

theorem UnlockRel.unlockWithDesc (client : Nat) (udsInfo : LockUdsInfo) :
    Rel s (unlockWithDesc lib s name client udsInfo).2 := by
  unfold LockState.unlockWithDesc
  cases (s.dlockClients client).getLockId name with
  | none => exact h.refl s
  | some lockId =>
    dsimp only
    generalize unlockLoop lib (s.dlockClients client).clientId lockId defaultTryLockCount s.lib =
      reply
    have hreleased : Rel s ((({ s with lib := reply.2 } : LockState D).note
        (.released name udsInfo.toLockProc)).releaseClientDescRef name).2 := by
      obtain ⟨refCount, href⟩ := releaseClientDescRef_eq (({ s with lib := reply.2 } :
        LockState D).note (.released name udsInfo.toLockProc)) name
      exact href ▸ h.aside s reply.2 refCount [_]
    split_ifs
    · exact h.trans (h.aside s reply.2 _ []) (h.release _ name lockId)
    · exact h.trans (h.trans hreleased (h.release _ name lockId)) (h.forget fun n =>
        ClientDesc.records_removeLockUdsInfoByName_sublist ..)
    · exact hreleased
    · exact h.aside s reply.2 s.refCount []

theorem UnlockRel.handleUnlock (udsInfo : LockUdsInfo) (now : Nat) :
    Rel s (handleUnlock lib s name udsInfo now).2 := by
  unfold LockState.handleUnlock
  split_ifs
  · exact h.refl s
  cases s.metaMap name with
  | none => exact h.refl s
  | some client =>
    dsimp only
    split_ifs
    · exact h.refl s
    · exact h.unlockWithDesc s name client udsInfo
    · exact h.unlockWithDesc s name client udsInfo

theorem UnlockRel.unlockAll (client : Nat) (invalidUds : List LockUdsInfo) :
    Rel s (unlockAll lib s name client invalidUds) := by
  induction invalidUds generalizing s with
  | nil => exact h.refl s
  | cons u us ih => exact h.trans (h.unlockWithDesc s name client u) (ih _)

theorem UnlockRel.cleanUpExpiredLocksForName (now : Nat) :
    Rel s (cleanUpExpiredLocksForName lib s name now) := by
  unfold LockState.cleanUpExpiredLocksForName
  cases s.metaMap name with
  | none => exact h.refl s
  | some client =>
    have hall := h.unlockAll s name client ((s.dlockClients client).getInValidUdsInfo name now)
    dsimp only
    split
    · refine h.trans hall (h.forget fun n => ?_)
      rw [ClientDesc.records_removeLockUdsInfo]
      split
      · exact nil_sublist _
      · exact .refl _
    · exact hall

end

theorem shrinks_rel : UnlockRel lib (Shrinks (D := D)) where
  refl := .refl
  trans := .trans
  aside _ _ _ _ := ⟨fun _ _ => .refl _, suffix_append ..⟩
  release := tryReleaseLock_shrinks lib
  forget := setClient_shrinks

/-! ### A name in the tables -/

/-- What the daemon knows of a name: the client that serves it, the count, its lock id and its
records at every client, and beside them the processes that have it. -/
structure NameView where
  client : Option Nat
  count : Option UInt32
  lockId : Nat → Option Int
  records : Nat → List LockUdsInfo
  holders : List LockProc

/-- What the daemon knows of every name. -/
def view (s : LockState D) (name : Name) : NameView where
  client := s.metaMap name
  count := s.refCount name
  lockId i := (s.dlockClients i).getLockId name
  records i := s.recordsAt i name
  holders := holds s.trace name

theorem view_setRefCount (s : LockState D) (name : Name) (count : Option UInt32) :
    ({ s with refCount := update s.refCount name count } : LockState D).view =
      update s.view name { s.view name with count } := by
  refine eq_update_iff.mpr ⟨?_, fun n hn => ?_⟩
  · simp [view, recordsAt]
  · simp [view, recordsAt, hn]

theorem view_setMeta (s : LockState D) (name : Name) (client : Option Nat) :
    ({ s with metaMap := update s.metaMap name client } : LockState D).view =
      update s.view name { s.view name with client } := by
  refine eq_update_iff.mpr ⟨?_, fun n hn => ?_⟩
  · simp [view, recordsAt]
  · simp [view, recordsAt, hn]

theorem view_note (s : LockState D) (event : LockEvent) (holders : List LockProc)
    (hname : holds (event :: s.trace) name = holders)
    (hothers : ∀ n ≠ name, holds (event :: s.trace) n = holds s.trace n) :
    (s.note event).view = update s.view name { s.view name with holders } := by
  refine eq_update_iff.mpr ⟨?_, fun n hn => ?_⟩
  · rw [← hname]
    rfl
  · change { s.view n with holders := holds (event :: s.trace) n } = s.view n
    rw [hothers n hn]
    rfl

theorem view_setClient_apply (s : LockState D) (i : Nat) (c : ClientDesc) (n : Name) :
    (s.setClient i c).view n =
      { s.view n with
        lockId := update (s.view n).lockId i (c.getLockId n)
        records := update (s.view n).records i (c.records n) } := by
  rw [show (s.view n).lockId = (fun c : ClientDesc => c.getLockId n) ∘ s.dlockClients from rfl,
    show (s.view n).records = (fun c : ClientDesc => c.records n) ∘ s.dlockClients from rfl,
    ← comp_update, ← comp_update]
  rfl

theorem view_setClient (hids : ∀ n ≠ name, c.getLockId n = (s.dlockClients i).getLockId n)
    (hrecords : ∀ n ≠ name, c.records n = s.recordsAt i n) :
    (s.setClient i c).view = update s.view name
      { s.view name with
        lockId := update (s.view name).lockId i (c.getLockId name)
        records := update (s.view name).records i (c.records name) } := by
  refine eq_update_iff.mpr ⟨view_setClient_apply s i c name, fun n hn => ?_⟩
  rw [view_setClient_apply, hids n hn, hrecords n hn,
    show (s.dlockClients i).getLockId n = (s.view n).lockId i from rfl,
    show s.recordsAt i n = (s.view n).records i from rfl, update_eq_self, update_eq_self]

/-- The name is served no more and its lock given back. -/
def NameView.gone (v : NameView) (client : Nat) : NameView :=
  { v with client := none, lockId := update v.lockId client none, holders := [] }

theorem view_tryReleaseLock (hmeta : s.metaMap name = some client) (lockId : Int) :
    (tryReleaseLock lib s name lockId).view =
      update s.view name ((s.view name).gone client) := by
  have hview : ∀ n, (tryReleaseLock lib s name lockId).view n =
      { s.view n with
        client := update s.metaMap name none n
        lockId := update (s.view n).lockId client (update (s.dlockClients client).name2LockId
          name none n)
        holders := holds (.freed name :: s.trace) n } := by
    intro n
    unfold tryReleaseLock
    rw [hmeta]
    have hset := view_setClient_apply (s.removeClientDesc name) client
      ((s.dlockClients client).removeLockId name) n
    rw [show ((s.dlockClients client).removeLockId name).records n =
      ((s.removeClientDesc name).view n).records client from rfl, update_eq_self] at hset
    exact congrArg (fun v : NameView => { v with holders := holds (.freed name :: s.trace) n }) hset
  refine eq_update_iff.mpr ⟨?_, fun n hn => ?_⟩
  · simp [hview, NameView.gone, holds]
  · rw [hview, update_of_ne hn, update_of_ne hn]
    simp only [holds, if_neg (Ne.symm hn)]
    rw [show (s.dlockClients client).name2LockId n = (s.view n).lockId client from rfl,
      update_eq_self]
    rfl

/-! ### Counts -/

theorem toInt_toInt32 {n : UInt32} (hn : n.toNat < 2 ^ 31) : n.toInt32.toInt = n.toNat := by
  have hlt : 2 * n.toBitVec.toNat < 2 ^ 32 := by
    have : n.toBitVec.toNat = n.toNat := rfl
    omega
  exact BitVec.toInt_eq_toNat_of_lt hlt

/-- The count of a name with so many acquisitions. -/
def countOf : Nat → Option UInt32
  | 0 => none
  | k + 1 => some (.ofNat (k + 1))

theorem countOf_getD_add (k : Nat) : some ((countOf k).getD 0 + 1) = countOf (k + 1) := by
  cases k with
  | zero => rfl
  | succ k => simp [countOf, UInt32.ofNat_add]

theorem eq_one_of_countOf {k : Nat} (hk : k ≤ 2 ^ 31) (h : countOf k = some 1) : k = 1 := by
  cases k with
  | zero => cases h
  | succ k =>
    have hnat := congrArg UInt32.toNat (Option.some.inj h)
    rw [UInt32.toNat_ofNat_of_lt' (show k + 1 < 2 ^ 32 by omega)] at hnat
    simpa using hnat

/-- The count of a name with acquisitions goes down by one and is returned. -/
theorem releaseClientDescRef_of_countOf {k : Nat} (hk : k + 1 ≤ 2 ^ 31)
    (href : s.refCount name = countOf (k + 1)) : s.releaseClientDescRef name =
      (↑k, { s with refCount := update s.refCount name (countOf k) }) := by
  have hsub : UInt32.ofNat (k + 1) - 1 = .ofNat k := by
    rw [UInt32.ofNat_add]
    simp
  unfold releaseClientDescRef
  rw [href]
  dsimp only [countOf]
  rw [hsub]
  have hnat : (UInt32.ofNat k).toNat = k := UInt32.toNat_ofNat_of_lt' (show k < 2 ^ 32 by omega)
  cases k with
  | zero => rfl
  | succ k =>
    have hne : UInt32.ofNat (k + 1) ≠ 0 := fun h => by simp [h] at hnat
    rw [if_neg hne, toInt_toInt32 (by omega), hnat]

/-! ### Names whose records are owned -/

/-- A process gets the name and a record for it. -/
def NameView.acquire (v : NameView) (client : Nat) (u : LockUdsInfo) : NameView :=
  { v with
    records := update v.records client
      (setInsert LockUdsInfo.lt u (setErase LockUdsInfo.lt u (v.records client)))
    holders := u.toLockProc :: v.holders }

/-- The records of a name are at the client that serves it, which has a lock id for it, and are
those of processes with an acquisition left; the count is that of the acquisitions. -/
structure NameView.Owned (v : NameView) : Prop where
  held : ∀ i, ∀ u ∈ v.records i, u.toLockProc ∈ v.holders
  served : ∀ i, v.records i ≠ [] → v.client = some i
  lockId : ∀ i, v.client = some i → v.lockId i ≠ none
  count : v.count = countOf v.holders.length
  small : v.holders.length ≤ 2 ^ 31

namespace NameView.Owned

variable {v : NameView}

theorem of_empty (hclient : v.client = none) (hcount : v.count = none) (hholders : v.holders = [])
    (hrecords : ∀ i, v.records i = []) : v.Owned where
  held i u hu := by simp [hrecords i] at hu
  served i hi := absurd (hrecords i) hi
  lockId i hi := by simp [hclient] at hi
  count := by simp [hcount, hholders, countOf]
  small := by simp [hholders]

theorem enter (h : v.Owned) (hclient : v.client = some client ∨ v.client = none)
    {ids : Nat → Option Int} (hid : ids client ≠ none) :
    { v with client := some client, lockId := ids }.Owned := by
  refine { h with served := fun i hi => ?_, lockId := fun i hi => ?_ }
  · have hserved := h.served i hi
    rcases hclient with hclient | hclient
    · exact hclient ▸ hserved
    · rw [hclient] at hserved
      cases hserved
  · cases hi
    exact hid

theorem acquire (h : v.Owned) (hclient : v.client = some client) (hroom : v.holders.length < 2 ^ 31)
    (u : LockUdsInfo) :
    { v.acquire client u with count := countOf (v.holders.length + 1) }.Owned where
  held i r hr := by
    by_cases hi : i = client
    · subst hi
      dsimp only [NameView.acquire] at hr ⊢
      rw [update_self, mem_setInsert, mem_setErase] at hr
      rcases hr with ⟨hr, -⟩ | ⟨rfl, -⟩
      · exact mem_cons_of_mem _ (h.held i r hr)
      · exact mem_cons_self
    · dsimp only [NameView.acquire] at hr ⊢
      rw [update_of_ne hi] at hr
      exact mem_cons_of_mem _ (h.held i r hr)
  served i hi := by
    by_cases heq : i = client
    · exact heq ▸ hclient
    · exact h.served i (by simpa [NameView.acquire, heq] using hi)
  lockId := h.lockId
  count := rfl
  small := hroom

theorem release (h : v.Owned) (hproc : proc ∈ v.holders) (hkeeps : v.holders.count proc ≠ 1) :
    { v with
      count := countOf (v.holders.length - 1)
      holders := v.holders.erase proc }.Owned where
  held i u hu := by
    have hmem := h.held i u hu
    by_cases heq : u.toLockProc = proc
    · have hpos := count_pos_iff.mpr hproc
      dsimp only
      rw [heq, ← count_pos_iff, count_erase_self]
      omega
    · exact (mem_erase_of_ne heq).mpr hmem
  served := h.served
  lockId := h.lockId
  count := by rw [length_erase_of_mem hproc]
  small := Nat.le_trans (length_erase_le ..) h.small

end NameView.Owned

/-! ### Unlocking -/

/-- The library has lost the lock of the name: it would answer `Unlock` with
`DLOCK_ALREADY_UNLOCKED` or `DLOCK_FAIL`. -/
def Lost (s : LockState D) (name : Name) : Prop :=
  ∃ client ∈ s.metaMap name, ∃ lockId ∈ (s.dlockClients client).getLockId name,
    (unlockLoop lib (s.dlockClients client).clientId lockId defaultTryLockCount s.lib).1 ∈
      [dlockAlreadyUnlocked, dlockFail]

/-- **What `UnlockWithDesc` can do** for a process with an acquisition, at the client that serves
the name: nothing that is seen outside the library, a release that leaves the lock and the
record in place because others are left, the last release, which gives the lock back and removes
the record, or giving the lock back because the library has lost it. -/
inductive UnlockEffect (s s' : LockState D) (name : Name) (client : Nat) (u : LockUdsInfo) : Prop
  | nothing (htrace : s'.trace = s.trace) (hview : s'.view = s.view)
  | released (htrace : s'.trace = .released name u.toLockProc :: s.trace)
      (hmore : (s.view name).holders.length ≠ 1)
      (hview : s'.view = update s.view name
        { s.view name with
          count := countOf ((s.view name).holders.length - 1)
          holders := (s.view name).holders.erase u.toLockProc })
  | last (htrace : s'.trace = .freed name :: .released name u.toLockProc :: s.trace)
      (hone : (s.view name).holders.length = 1)
      (hview : s'.view = update s.view name
        { (s.view name).gone client with
          count := none
          records := update (s.view name).records client
            (setErase LockUdsInfo.lt u ((s.view name).records client)) })
  | lost (htrace : s'.trace = .freed name :: s.trace) (hlost : s.Lost lib name)
      (hview : s'.view = update s.view name { (s.view name).gone client with count := none })

theorem view_setRecords (hids : c.getLockId = (s.dlockClients i).getLockId)
    (hrecords : ∀ n ≠ name, c.records n = s.recordsAt i n) :
    (s.setClient i c).view = update s.view name
      { s.view name with records := update (s.view name).records i (c.records name) } := by
  rw [view_setClient (fun n _ => congrFun hids n) hrecords, hids,
    show (s.dlockClients i).getLockId name = (s.view name).lockId i from rfl, update_eq_self]

theorem view_acquire (s : LockState D) (name : Name) (i : Nat) (u : LockUdsInfo) :
    ((s.setClient i ((s.dlockClients i).setLockUdsInfo name u)).note
      (.acquired name u.toLockProc)).view = update s.view name ((s.view name).acquire i u) := by
  rw [view_note (s.setClient i ((s.dlockClients i).setLockUdsInfo name u))
    (.acquired name u.toLockProc) (u.toLockProc :: (s.view name).holders) (if_pos rfl)
    fun n hn => if_neg (Ne.symm hn)]
  rw [view_setRecords (c := (s.dlockClients i).setLockUdsInfo name u) rfl fun n hn =>
      (ClientDesc.records_setLockUdsInfo _ name n u).trans (if_neg hn),
    update_idem, update_self, ClientDesc.records_setLockUdsInfo, if_pos rfl]
  rfl

theorem view_removeLockUdsInfoByName (s : LockState D) (name : Name) (i : Nat) (u : LockUdsInfo) :
    (s.setClient i ((s.dlockClients i).removeLockUdsInfoByName name u)).view =
      update s.view name
        { s.view name with
          records := update (s.view name).records i
            (setErase LockUdsInfo.lt u ((s.view name).records i)) } := by
  have hids : ((s.dlockClients i).removeLockUdsInfoByName name u).getLockId =
      (s.dlockClients i).getLockId :=
    funext fun n => ClientDesc.getLockId_removeLockUdsInfoByName _ name n u
  rw [view_setRecords hids fun n hn =>
    (ClientDesc.records_removeLockUdsInfoByName _ name n u).trans (if_neg hn),
    ClientDesc.records_removeLockUdsInfoByName, if_pos rfl]
  rfl

theorem unlockWithDesc_effect (hmeta : s.metaMap name = some client) (h : (s.view name).Owned)
    {u : LockUdsInfo} (hu : u.toLockProc ∈ (s.view name).holders) :
    UnlockEffect lib s (unlockWithDesc lib s name client u).2 name client u := by
  obtain ⟨lockId, hid⟩ := Option.ne_none_iff_exists'.mp (h.lockId client hmeta)
  obtain ⟨k, hk⟩ := Nat.exists_eq_add_one.mpr (length_pos_of_mem hu)
  have hcount := h.count
  have hsmall := h.small
  rw [hk] at hcount hsmall
  unfold unlockWithDesc
  rw [show (s.dlockClients client).getLockId name = some lockId from hid]
  dsimp only
  generalize hreply : unlockLoop lib (s.dlockClients client).clientId lockId defaultTryLockCount
    s.lib = reply
  obtain ⟨ret, d⟩ := reply
  set t : LockState D := ({ s with lib := d } : LockState D).note (.released name u.toLockProc)
    with ht
  have htview : t.view = update s.view name
      { s.view name with holders := (s.view name).holders.erase u.toLockProc } :=
    view_note { s with lib := d } _ _ (if_pos rfl) fun n hn => if_neg (Ne.symm hn)
  rw [releaseClientDescRef_of_countOf (s := t) hsmall hcount]
  have hrview := view_setRefCount t name (countOf k)
  rw [htview, update_idem, update_self] at hrview
  have hmeta' : ({ t with refCount := update t.refCount name (countOf k) } : LockState D).metaMap
    name = some client := hmeta
  dsimp only
  split_ifs with hlost hok hlast
  · set r := ({ s with lib := d } : LockState D).removeClientDescRef name with hr
    have hmetaR : r.metaMap name = some client := hmeta
    refine .lost (tryReleaseLock_eq lib hmetaR lockId).1 ⟨client, hmeta, lockId, hid, ?_⟩ ?_
    · simpa [hreply] using hlost
    · rw [view_tryReleaseLock lib hmetaR lockId, hr, removeClientDescRef, view_setRefCount,
        update_idem, update_self]
      rfl
  · have hzero : k = 0 := by omega
    subst hzero
    refine .last (tryReleaseLock_eq lib hmeta' lockId).1 hk ?_
    rw [view_removeLockUdsInfoByName, view_tryReleaseLock lib hmeta' lockId, hrview, update_idem,
      update_self, update_idem, update_self]
    rfl
  · refine .released rfl (by omega) ?_
    rw [hrview, hk]
    rfl
  · exact .nothing rfl rfl

/-- A release by a process that has an acquisition left keeps the trace balanced. -/
theorem UnlockEffect.balanced (h : UnlockEffect lib s s' name client u) (hbal : Balanced s.trace)
    (hu : u.toLockProc ∈ (s.view name).holders) : Balanced s'.trace := by
  cases h with
  | nothing htrace _ => exact htrace ▸ hbal
  | released htrace _ _ => exact htrace ▸ hbal.released hu
  | last htrace _ _ => exact htrace ▸ (hbal.released hu).freed name
  | lost htrace _ _ => exact htrace ▸ hbal.freed name

/-- Without a lock id `UnlockWithDesc` does nothing. -/
theorem unlockWithDesc_of_no_lockId (hid : (s.dlockClients client).getLockId name = none)
    (udsInfo : LockUdsInfo) : (unlockWithDesc lib s name client udsInfo).2 = s := by
  simp [unlockWithDesc, hid]

theorem unlockAll_of_no_lockId (hid : (s.dlockClients client).getLockId name = none)
    (invalidUds : List LockUdsInfo) : unlockAll lib s name client invalidUds = s := by
  induction invalidUds with
  | nil => rfl
  | cons u us ih =>
    unfold unlockAll
    rw [unlockWithDesc_of_no_lockId lib hid, ih]

/-- The lock of the name is given back; records are left at most at the client that served it. -/
structure NameView.Gone (v : NameView) (client : Nat) : Prop where
  unserved : v.client = none
  uncounted : v.count = none
  lockId : v.lockId client = none
  holders : v.holders = []
  records : ∀ i ≠ client, v.records i = []

theorem NameView.Owned.gone {v : NameView} (h : v.Owned) (hclient : v.client = some client)
    {records : Nat → List LockUdsInfo} (hrecords : ∀ i ≠ client, records i = v.records i) :
    { v.gone client with count := none, records }.Gone client where
  unserved := rfl
  uncounted := rfl
  lockId := update_self ..
  holders := rfl
  records i hi := by
    by_contra hne
    have hserved := h.served i (hrecords i hi ▸ hne)
    rw [hclient] at hserved
    exact hi (Option.some.inj hserved).symm

/-- The loop of the clean-up, for distinct processes with acquisitions: whoever loses its last
one was the last to have the name, or the lock is given back. -/
theorem unlockAll_owned (hmeta : s.metaMap name = some client) (hown : (s.view name).Owned)
    (hbal : Balanced s.trace) (invalidUds : List LockUdsInfo)
    (hdistinct : invalidUds.Pairwise fun u v => u.toLockProc ≠ v.toLockProc)
    (hheld : ∀ u ∈ invalidUds, u.toLockProc ∈ (s.view name).holders)
    (hlast : ∀ u ∈ invalidUds, (s.view name).holders.count u.toLockProc = 1 →
      (s.view name).holders.length = 1) :
    Balanced (unlockAll lib s name client invalidUds).trace ∧
      ∃ v, (unlockAll lib s name client invalidUds).view = update s.view name v ∧
        (v.Owned ∧ v.client = some client ∨ v.Gone client) := by
  induction invalidUds generalizing s with
  | nil => exact ⟨hbal, _, (update_eq_self ..).symm, .inl ⟨hown, hmeta⟩⟩
  | cons u us ih =>
    unfold unlockAll
    obtain ⟨hu, hus⟩ := pairwise_cons.mp hdistinct
    have heff := unlockWithDesc_effect lib hmeta hown (hheld u mem_cons_self)
    have hbal' := heff.balanced lib hbal (hheld u mem_cons_self)
    -- Once the lock is given back nothing is left to do.
    have hgone : ∀ {v : NameView}, (unlockWithDesc lib s name client u).2.view =
        update s.view name v → v.Gone client →
        Balanced (unlockAll lib (unlockWithDesc lib s name client u).2 name client us).trace ∧
          ∃ v, (unlockAll lib (unlockWithDesc lib s name client u).2 name client us).view =
            update s.view name v ∧ (v.Owned ∧ v.client = some client ∨ v.Gone client) := by
      intro v hview hv
      have hid : ((unlockWithDesc lib s name client u).2.view name).lockId client = none := by
        rw [hview, update_self, hv.lockId]
      rw [unlockAll_of_no_lockId lib hid]
      exact ⟨hbal', v, hview, .inr hv⟩
    cases heff with
    | nothing _ hview =>
      have hmeta' : ((unlockWithDesc lib s name client u).2.view name).client = some client :=
        hview ▸ hmeta
      rw [← hview] at hown ⊢
      exact ih hmeta' hown hbal' hus (fun v hv => hview ▸ hheld v (mem_cons_of_mem u hv))
        fun v hv => hview ▸ hlast v (mem_cons_of_mem u hv)
    | released _ hmore hview =>
      have hname := congrFun hview name
      rw [update_self] at hname
      have hown' := hown.release (hheld u mem_cons_self)
        fun hone => hmore (hlast u mem_cons_self hone)
      rw [← hname] at hown'
      have hrest := ih (s := (unlockWithDesc lib s name client u).2)
        ((congrArg NameView.client hname).trans hmeta) hown' hbal' hus ?_ ?_
      · simpa only [hview, update_idem] using hrest
      · intro v hv
        rw [hname]
        exact (mem_erase_of_ne (hu v hv).symm).mpr (hheld v (mem_cons_of_mem u hv))
      · intro v hv hone
        rw [hname] at hone
        dsimp only at hone
        rw [count_erase_of_ne (hu v hv).symm] at hone
        exact absurd (hlast v (mem_cons_of_mem u hv) hone) hmore
    | last _ _ hview => exact hgone hview (hown.gone hmeta fun i hi => update_of_ne hi ..)
    | lost _ _ hview => exact hgone hview (hown.gone hmeta fun i _ => rfl)

/-! ### Locking -/

theorem getLock_same (s : LockState D) (name : Name) : (getLock lib s name).2.trace = s.trace ∧
      ∀ i n, (getLock lib s name).2.recordsAt i n = s.recordsAt i n := by
  unfold getLock getDlockClient
  cases s.metaMap name with
  | some client => exact ⟨rfl, fun _ _ => rfl⟩
  | none =>
    dsimp only
    split_ifs with hsize
    · exact ⟨rfl, fun _ _ => rfl⟩
    · dsimp only
      split_ifs with hret
      · exact ⟨rfl, fun _ _ => rfl⟩
      · refine ⟨rfl, fun i n => ?_⟩
        simp only [recordsAt, addClientDescRef, setClientDesc, setClient]
        by_cases hi : i = s.clientIndex.toNat % s.dlockClientNum
        · subst hi
          rw [update_self]
          rfl
        · rw [update_of_ne hi]

/-- What `TryLock` can do: nothing that is seen outside the library, or the process
acquires the name and gets a new record. -/
theorem tryLock_effect (s : LockState D) (name : Name) (client : Nat) (isExclusive : Bool)
    (udsInfo : LockUdsInfo) (now : Nat) {r : Int × LockState D}
    (hr : tryLock lib s name client isExclusive udsInfo now = r) :
    r.1 ≠ ubsmOk ∧ (∃ d, r.2 = { s with lib := d }) ∨ r.1 = ubsmOk ∧
      ∃ d validTime, r.2 = (({ s with lib := d } : LockState D).setClient client ((s.dlockClients
      client).setLockUdsInfo name { udsInfo with validTime })).note (.acquired name
      udsInfo.toLockProc) := by
  subst hr
  unfold tryLock
  split_ifs with hexcl
  · exact .inl ⟨mxmErrLockAlreadyLocked_ne, s.lib, rfl⟩
  · cases (s.dlockClients client).getLockId name with
    | none => exact .inl ⟨mxmErrLockNotFound_ne, s.lib, rfl⟩
    | some lockId =>
      dsimp only
      split_ifs with hok
      · exact .inr ⟨rfl, _, _, rfl⟩
      · exact .inl ⟨hok, _, rfl⟩

/-- **What `HandleLock` can do**: it adds no record and notes at most that the lock was
given back, or the process acquires the name and gets a new record. -/
inductive LockEffect (s s' : LockState D) (name : Name) (proc : LockProc) : Prop
  | nothing (htrace : s'.trace = s.trace ∨ s'.trace = .freed name :: s.trace)
      (hrecords : ∀ i n, s'.recordsAt i n = s.recordsAt i n)
  | acquired (htrace : s'.trace = .acquired name proc :: s.trace) (client : Nat) (u : LockUdsInfo)
      (hproc : u.toLockProc = proc)
      (hrecords : ∀ i n, s'.recordsAt i n =
        if i = client ∧ n = name then
          setInsert LockUdsInfo.lt u (setErase LockUdsInfo.lt u (s.recordsAt client name))
        else s.recordsAt i n)

theorem handleLock_effect (s : LockState D) (name : Name) (isExclusive : Bool)
    (udsInfo : LockUdsInfo) (now : Nat) :
    LockEffect s (handleLock lib s name isExclusive udsInfo now).2 name udsInfo.toLockProc := by
  unfold handleLock
  split_ifs with hready
  · exact .nothing (.inl rfl) fun _ _ => rfl
  have hgot := getLock_same lib s name
  revert hgot
  rcases getLock lib s name with ⟨_ | client, s₁⟩
  · rintro ⟨htrace, hrecords⟩
    exact .nothing (.inl htrace) hrecords
  rintro ⟨htrace, hrecords⟩
  dsimp only at htrace hrecords ⊢
  have htried := tryLock_effect lib s₁ name client isExclusive udsInfo now rfl
  revert htried
  rcases tryLock lib s₁ name client isExclusive udsInfo now with ⟨ret, s₂⟩
  rintro (⟨hret, d, hs₂⟩ | ⟨hret, d, validTime, hs₂⟩)
  · dsimp only at hret hs₂ ⊢
    have hsame : s₂.trace = s.trace ∧ ∀ i n, s₂.recordsAt i n = s.recordsAt i n := by
      rw [hs₂]
      exact ⟨htrace, hrecords⟩
    cases (s₂.dlockClients client).getLockId name with
    | none => exact .nothing (.inl hsame.1) hsame.2
    | some lockId =>
      obtain ⟨refCount, href⟩ := releaseClientDescRef_eq s₂ name
      split_ifs with hneg
      · obtain ⟨ht, hr⟩ := tryReleaseLock_same lib (s₂.releaseClientDescRef name).2 name lockId
        rw [href] at ht hr ⊢
        refine .nothing ?_ fun i n => (hr i n).trans (hsame.2 i n)
        rw [← hsame.1]
        exact ht
      · rw [href]
        exact .nothing (.inl hsame.1) hsame.2
  · dsimp only at hret hs₂ ⊢
    have hfinal : LockEffect s s₂ name udsInfo.toLockProc := by
      rw [hs₂]
      refine .acquired (by rw [← htrace]; rfl) client { udsInfo with validTime } rfl fun i n => ?_
      simp only [recordsAt, note, setClient]
      by_cases hi : i = client
      · subst hi
        rw [update_self, ClientDesc.records_setLockUdsInfo]
        simp only [true_and]
        rw [show (s₁.dlockClients i).records name = s.recordsAt i name from hrecords i name,
          show (s₁.dlockClients i).records n = s.recordsAt i n from hrecords i n]
        rfl
      · rw [update_of_ne hi, if_neg (fun h => hi h.1)]
        exact hrecords i n
    cases (s₂.dlockClients client).getLockId name with
    | none => exact hfinal
    | some lockId =>
      dsimp only
      rw [if_neg (not_not.mpr hret)]
      exact hfinal

/-! ### Runs -/

/-- The calls of a run; each reads the clock at a time of its own.  `ready` stands for
the election of a new lock server, which other parts of the daemon carry out. -/
inductive LockAction
  | lock (name : Name) (isExclusive : Bool) (udsInfo : LockUdsInfo) (now : Nat)
  | unlock (name : Name) (udsInfo : LockUdsInfo) (now : Nat)
  | cleanUp (name : Name) (now : Nat)
  | ready (isInit inElection : Bool)

/-- One call. -/
def step (s : LockState D) : LockAction → LockState D
  | .lock name isExclusive udsInfo now => (handleLock lib s name isExclusive udsInfo now).2
  | .unlock name udsInfo now => (handleUnlock lib s name udsInfo now).2
  | .cleanUp name now => cleanUpExpiredLocksForName lib s name now
  | .ready isInit inElection => { s with isInit, inElection }

/-- Nothing has been locked yet. -/
structure Initial (s : LockState D) : Prop where
  records : ∀ client name, s.recordsAt client name = []
  metaMap : ∀ name, s.metaMap name = none
  refCount : ∀ name, s.refCount name = none
  trace : s.trace = []

/-- The states of the runs from `s₀`. -/
def Reach (s₀ s : LockState D) : Prop :=
  Relation.ReflTransGen (fun s s' => ∃ action, s' = step lib s action) s₀ s

/-- At every client a process has one record of a name at most, and it has one only
if it acquired the name. -/
structure RecordInv (s : LockState D) : Prop where
  distinct : ∀ client name,
    (s.recordsAt client name).Pairwise fun u v => u.toLockProc ≠ v.toLockProc
  acquired : ∀ client name, ∀ u ∈ s.recordsAt client name,
    .acquired name u.toLockProc ∈ s.trace

theorem RecordInv.of_shrinks (h : RecordInv s) (hs : Shrinks s s') : RecordInv s' := by
  refine ⟨fun c n => (h.distinct c n).sublist (hs.records c n), fun c n u hu => ?_⟩
  exact hs.trace.subset (h.acquired c n u ((hs.records c n).subset hu))

/-- The records after an acquisition: those from before, and the new one. -/
theorem mem_recordsAt_acquired (hrecords : ∀ i n, s'.recordsAt i n =
      if i = client ∧ n = name then
        setInsert LockUdsInfo.lt u (setErase LockUdsInfo.lt u (s.recordsAt client name))
      else s.recordsAt i n) {v : LockUdsInfo} (hv : v ∈ s'.recordsAt i n) :
    v ∈ s.recordsAt i n ∨ n = name ∧ v = u := by
  rw [hrecords] at hv
  split_ifs at hv with h
  · obtain ⟨rfl, rfl⟩ := h
    rw [mem_setInsert, mem_setErase] at hv
    rcases hv with ⟨hv, -⟩ | ⟨rfl, -⟩
    · exact .inl hv
    · exact .inr ⟨rfl, rfl⟩
  · exact .inl hv

theorem RecordInv.lock (h : RecordInv s) (heff : LockEffect s s' name proc) : RecordInv s' := by
  cases heff with
  | nothing htrace hrecords =>
    refine h.of_shrinks ⟨fun i n => hrecords i n ▸ .refl _, ?_⟩
    rcases htrace with htrace | htrace
    · exact htrace ▸ suffix_refl _
    · exact htrace ▸ suffix_cons _ _
  | acquired htrace client u hproc hrecords =>
    constructor
    · intro i n
      rw [hrecords]
      split_ifs with hi
      · refine pairwise_setInsert _ (fun _ _ hne => hne.symm)
          ((h.distinct client name).sublist filter_sublist) fun v hv => ?_
        rw [mem_setErase] at hv
        rw [Ne, ← LockUdsInfo.equivKeys_iff, hv.2]
        decide
      · exact h.distinct i n
    · intro i n v hv
      rw [htrace]
      rcases mem_recordsAt_acquired hrecords hv with hv | ⟨rfl, rfl⟩
      · exact mem_cons_of_mem _ (h.acquired i n v hv)
      · exact hproc ▸ mem_cons_self

theorem LockEffect.balanced (heff : LockEffect s s' name proc) (h : Balanced s.trace) :
    Balanced s'.trace := by
  cases heff with
  | nothing htrace _ =>
    rcases htrace with htrace | htrace
    · exact htrace ▸ h
    · exact htrace ▸ h.freed name
  | acquired htrace _ _ _ _ => exact htrace ▸ h.acquired name proc

theorem RecordInv.step (h : RecordInv s) (action : LockAction) : RecordInv (step lib s action) := by
  cases action with
  | lock name isExclusive udsInfo now =>
    exact h.lock (handleLock_effect lib s name isExclusive udsInfo now)
  | unlock name udsInfo now =>
    exact h.of_shrinks ((shrinks_rel lib).handleUnlock s name udsInfo now)
  | cleanUp name now => exact h.of_shrinks ((shrinks_rel lib).cleanUpExpiredLocksForName s name now)
  | ready isInit inElection => exact { h with }

theorem RecordInv.of_initial (h : Initial s) : RecordInv s := by
  constructor
  · intro client name
    rw [h.records]
    exact .nil
  · intro client name u hu
    rw [h.records] at hu
    cases hu

theorem RecordInv.of_reach {s₀ s : LockState D} (h₀ : Initial s₀) (hs : Reach lib s₀ s) :
    RecordInv s := by
  induction hs with
  | refl => exact .of_initial h₀
  | tail _ hstep ih =>
    obtain ⟨action, rfl⟩ := hstep
    exact ih.step lib action

/-! ### Runs in which whoever gives back its last acquisition is the last -/

/-- The calls that a state admits.  The count has room for one more acquisition; a process that
gives back its last acquisition, by itself or because it expired, holds the last reference to
the name; and the library has not lost the lock that a process with an acquisition unlocks. -/
def LockAction.Admits (s : LockState D) : LockAction → Prop
  | .lock name _ _ _ => ∀ n ∈ s.refCount name, n.toNat < 2 ^ 31
  | .unlock name udsInfo _ =>
    (held s.trace name udsInfo.toLockProc = 1 → s.refCount name = some 1) ∧
      (1 ≤ held s.trace name udsInfo.toLockProc → ¬ s.Lost lib name)
  | .cleanUp name now => ∀ client ∈ s.metaMap name,
    ∀ u ∈ (s.dlockClients client).getInValidUdsInfo name now,
      held s.trace name u.toLockProc = 1 → s.refCount name = some 1
  | .ready _ _ => True

/-- The states of the runs from `s₀` in which every call is admitted by the state it meets. -/
def AdmittedReach (s₀ s : LockState D) : Prop :=
  Relation.ReflTransGen (fun s s' => ∃ action, LockAction.Admits lib s action ∧
    s' = step lib s action) s₀ s

/-- Every record stands for an acquisition that is left, and every release had one. -/
structure HoldInv (s : LockState D) : Prop extends RecordInv s where
  owned : ∀ name, (s.view name).Owned
  balanced : Balanced s.trace

theorem HoldInv.owned_update (h : HoldInv s) {v : NameView} (hview : s'.view = update s.view name v)
    (hv : v.Owned) (n : Name) : (s'.view n).Owned := by
  rw [hview]
  by_cases hn : n = name
  · subst hn
    rwa [update_self]
  · rw [update_of_ne hn]
    exact h.owned n

theorem NameView.Owned.length_eq_one {v : NameView} (h : v.Owned) (hone : v.count = some 1) :
    v.holders.length = 1 :=
  eq_one_of_countOf h.small (h.count ▸ hone)

theorem cleanUpExpiredLocksForName_owned (h : HoldInv s) (now : Nat)
    (hadmits : LockAction.Admits lib s (.cleanUp name now)) :
    Balanced (cleanUpExpiredLocksForName lib s name now).trace ∧
      ∀ n, ((cleanUpExpiredLocksForName lib s name now).view n).Owned := by
  unfold cleanUpExpiredLocksForName
  cases hmeta : s.metaMap name with
  | none => exact ⟨h.balanced, h.owned⟩
  | some client =>
    dsimp only
    have hsub : ((s.dlockClients client).getInValidUdsInfo name now).Sublist
        (s.recordsAt client name) := filter_sublist
    obtain ⟨hbal, v, hview, hv⟩ := unlockAll_owned lib hmeta (h.owned name) h.balanced _
      ((h.distinct client name).sublist hsub)
      (fun u hu => (h.owned name).held client u (hsub.subset hu))
      fun u hu hone => (h.owned name).length_eq_one (hadmits client hmeta u hu hone)
    generalize unlockAll lib s name client _ = s₁ at hbal hview
    have hid : (s₁.dlockClients client).getLockId name = v.lockId client := by
      change (s₁.view name).lockId client = v.lockId client
      rw [hview, update_self]
    rcases hv with ⟨hv, hclient⟩ | hv
    · obtain ⟨lockId, hsome⟩ := Option.ne_none_iff_exists'.mp (hv.lockId client hclient)
      rw [hid, hsome]
      exact ⟨hbal, h.owned_update hview hv⟩
    · rw [hid, hv.lockId]
      have hview' : (s₁.setClient client ((s₁.dlockClients client).removeLockUdsInfo name)).view =
          update s.view name { v with records := update v.records client [] } := by
        rw [view_setRecords (c := (s₁.dlockClients client).removeLockUdsInfo name) rfl
          fun n hn => (ClientDesc.records_removeLockUdsInfo _ name n).trans (if_neg hn), hview,
          update_idem, update_self, ClientDesc.records_removeLockUdsInfo, if_pos rfl]
      refine ⟨hbal, h.owned_update hview' (.of_empty hv.unserved hv.uncounted hv.holders ?_)⟩
      intro i
      by_cases hi : i = client
      · exact hi ▸ update_self ..
      · exact (update_of_ne hi ..).trans (hv.records i hi)

theorem NameView.Owned.last {v : NameView} (h : v.Owned) (hclient : v.client = some client)
    (hone : v.holders.length = 1) (hu : u.toLockProc ∈ v.holders) :
    { v.gone client with
      count := none
      records := update v.records client
        (setErase LockUdsInfo.lt u (v.records client)) }.Owned := by
  have hgone := h.gone hclient fun i hi => update_of_ne (f := v.records) hi
    (setErase LockUdsInfo.lt u (v.records client))
  refine .of_empty hgone.unserved hgone.uncounted hgone.holders fun i => ?_
  by_cases hi : i = client
  · subst hi
    dsimp only
    rw [update_self, eq_nil_iff_forall_not_mem]
    intro r hr
    rw [mem_setErase] at hr
    obtain ⟨p, hp⟩ := length_eq_one_iff.mp hone
    have hmem := h.held i r hr.1
    rw [hp, mem_singleton] at hmem hu
    rw [← Bool.not_eq_true, LockUdsInfo.equivKeys_iff] at hr
    exact hr.2 (hu.trans hmem.symm)
  · exact hgone.records i hi

theorem handleUnlock_owned (h : HoldInv s) (udsInfo : LockUdsInfo) (now : Nat)
    (hadmits : LockAction.Admits lib s (.unlock name udsInfo now)) :
    Balanced (handleUnlock lib s name udsInfo now).2.trace ∧
      ∀ n, ((handleUnlock lib s name udsInfo now).2.view n).Owned := by
  unfold handleUnlock
  split_ifs with hready
  · exact ⟨h.balanced, h.owned⟩
  cases hmeta : s.metaMap name with
  | none => exact ⟨h.balanced, h.owned⟩
  | some client =>
    by_cases hvalid : (s.dlockClients client).isLockUdsValid name udsInfo = true
    · obtain ⟨r, hr, hproc⟩ := (ClientDesc.isLockUdsValid_iff _ _ _).mp hvalid
      have hown := h.owned name
      have hu : udsInfo.toLockProc ∈ (s.view name).holders := hproc ▸ hown.held client r hr
      have heff := unlockWithDesc_effect lib hmeta hown hu
      have hbal := heff.balanced lib h.balanced hu
      have hnext : ∀ n, ((unlockWithDesc lib s name client udsInfo).2.view n).Owned := by
        cases heff with
        | nothing _ hview => exact hview ▸ h.owned
        | released _ hmore hview =>
          exact h.owned_update hview (hown.release hu fun hone =>
            hmore (hown.length_eq_one (hadmits.1 hone)))
        | last _ hone hview => exact h.owned_update hview (hown.last hmeta hone hu)
        | lost _ hlost _ => exact absurd hlost (hadmits.2 (count_pos_iff.mpr hu))
      simp only [hvalid, Bool.not_true, Bool.false_eq_true, if_false]
      split_ifs <;> exact ⟨hbal, hnext⟩
    · simp only [hvalid]
      exact ⟨h.balanced, h.owned⟩

/-- `GetLock` counts a reference to the name, which it takes in if it is not served yet. -/
theorem getLock_view (h : (s.view name).Owned) {client : Nat} {s₁ : LockState D}
    (hgot : getLock lib s name = (some client, s₁)) :
    (s.metaMap name = some client ∨ s.metaMap name = none) ∧
      ∃ ids : Nat → Option Int, ids client ≠ none ∧ s₁.view = update s.view name
        { s.view name with
          client := some client
          count := countOf ((s.view name).holders.length + 1)
          lockId := ids } := by
  have hcount : ∀ t : LockState D, t.refCount = s.refCount → (t.addClientDescRef name).view =
      update t.view name
        { t.view name with count := countOf ((s.view name).holders.length + 1) } := by
    intro t ht
    rw [← countOf_getD_add, ← h.count, addClientDescRef, view_setRefCount, ht]
    rfl
  unfold getLock at hgot
  cases hmeta : s.metaMap name with
  | some i =>
    rw [hmeta] at hgot
    cases hgot
    refine ⟨.inl rfl, (s.view name).lockId, h.lockId client hmeta, ?_⟩
    rw [hcount s rfl, ← hmeta]
    rfl
  | none =>
    rw [hmeta] at hgot
    unfold getDlockClient at hgot
    dsimp only at hgot
    refine ⟨.inr rfl, ?_⟩
    generalize s.clientIndex.toNat % s.dlockClientNum = index at hgot
    split_ifs at hgot with hsize
    · cases hgot
    dsimp only at hgot
    split_ifs at hgot with hret
    · cases hgot
    cases hgot
    set got := lib.getLock (s.dlockClients client).clientId name s.lib
    let t : LockState D := { s with clientIndex := s.clientIndex + 1, lib := got.2 }
    have hset : (t.setClient client ((s.dlockClients client).setLockId name got.1.2)).view =
      update s.view name _ := view_setClient (s := t)
        (fun n hn => by simp [ClientDesc.setLockId, ClientDesc.getLockId, hn, t]) fun n _ => rfl
    rw [show ((s.dlockClients client).setLockId name got.1.2).records name =
      (t.view name).records client from rfl, update_eq_self] at hset
    refine ⟨update (s.view name).lockId client (((s.dlockClients client).setLockId name
      got.1.2).getLockId name), by simp [ClientDesc.setLockId, ClientDesc.getLockId], ?_⟩
    refine (hcount ((t.setClient client _).setClientDesc name client) rfl).trans ?_
    rw [setClientDesc, view_setMeta, update_idem, update_self, hset, update_idem, update_self]
    rfl

theorem getLock_none_view {s₁ : LockState D} (hgot : getLock lib s name = (none, s₁)) :
    s₁.view = s.view := by
  unfold getLock at hgot
  cases hmeta : s.metaMap name with
  | some i =>
    rw [hmeta] at hgot
    cases hgot
  | none =>
    rw [hmeta] at hgot
    unfold getDlockClient at hgot
    dsimp only at hgot
    split_ifs at hgot with hsize
    · cases hgot
      rfl
    · dsimp only at hgot
      split_ifs at hgot
      · cases hgot
        rfl
      · cases hgot

/-- `HandleLock` keeps what is known of the names, whether the process acquires the name or is
turned away. -/
theorem handleLock_owned (h : HoldInv s) (isExclusive : Bool) (udsInfo : LockUdsInfo) (now : Nat)
    (hadmits : LockAction.Admits lib s (.lock name isExclusive udsInfo now)) (n : Name) :
    ((handleLock lib s name isExclusive udsInfo now).2.view n).Owned := by
  have hown := h.owned name
  have hroom : (s.view name).holders.length < 2 ^ 31 := by
    have hcount : s.refCount name = _ := hown.count
    have hsmall := hown.small
    cases hlen : (s.view name).holders.length with
    | zero => decide
    | succ k =>
      rw [hlen] at hcount hsmall
      have := hadmits _ hcount
      rwa [UInt32.toNat_ofNat_of_lt' (show k + 1 < 2 ^ 32 by omega)] at this
  unfold handleLock
  split_ifs with hready
  · exact h.owned n
  rcases hgot : getLock lib s name with ⟨_ | client, s₁⟩
  · dsimp only
    exact getLock_none_view lib hgot ▸ h.owned n
  obtain ⟨hclient, ids, hid, hview⟩ := getLock_view lib hown hgot
  have hentered := hown.enter hclient hid
  dsimp only
  have htried := tryLock_effect lib s₁ name client isExclusive udsInfo now rfl
  revert htried
  rcases tryLock lib s₁ name client isExclusive udsInfo now with ⟨ret, s₂⟩
  rintro (⟨hret, d, hs₂⟩ | ⟨hret, d, validTime, hs₂⟩)
  · dsimp only at hret hs₂ ⊢
    -- The attempt fails: the reference that `GetLock` counted is taken back.
    have hview₂ : s₂.view = s₁.view := by rw [hs₂]; rfl
    have hname : s₂.view name = _ := (congrFun (hview₂.trans hview) name).trans (update_self ..)
    obtain ⟨lockId, hsome⟩ := Option.ne_none_iff_exists'.mp hid
    rw [show (s₂.dlockClients client).getLockId name = some lockId from
      (congrFun (congrArg NameView.lockId hname) client).trans hsome]
    dsimp only
    rw [if_pos hret, releaseClientDescRef_of_countOf (by omega) (congrArg NameView.count hname)]
    have hnonneg : ¬ ((s.view name).holders.length : Int) < 0 := by omega
    rw [if_neg hnonneg]
    have hlast := view_setRefCount s₂ name (countOf (s.view name).holders.length)
    rw [hview₂, hview, update_idem, update_self] at hlast
    exact h.owned_update hlast { hentered with count := rfl } n
  · dsimp only at hret hs₂ ⊢
    have hview₂ := view_acquire { s₁ with lib := d } name client { udsInfo with validTime }
    rw [← hs₂, show ({ s₁ with lib := d } : LockState D).view = s₁.view from rfl, hview,
      update_idem, update_self] at hview₂
    have hfinal := h.owned_update hview₂ (hentered.acquire rfl hroom { udsInfo with validTime }) n
    cases (s₂.dlockClients client).getLockId name with
    | none => exact hfinal
    | some lockId =>
      dsimp only
      rw [if_neg (not_not.mpr hret)]
      exact hfinal

theorem HoldInv.step (h : HoldInv s) (action : LockAction)
    (hadmits : LockAction.Admits lib s action) : HoldInv (s.step lib action) := by
  have hrecords := h.toRecordInv.step lib action
  cases action with
  | lock name isExclusive udsInfo now =>
    exact ⟨hrecords, handleLock_owned lib h isExclusive udsInfo now hadmits,
      (handleLock_effect lib s name isExclusive udsInfo now).balanced h.balanced⟩
  | unlock name udsInfo now =>
    obtain ⟨hbal, hown⟩ := handleUnlock_owned lib h udsInfo now hadmits
    exact ⟨hrecords, hown, hbal⟩
  | cleanUp name now =>
    obtain ⟨hbal, hown⟩ := cleanUpExpiredLocksForName_owned lib h now hadmits
    exact ⟨hrecords, hown, hbal⟩
  | ready isInit inElection => exact ⟨hrecords, h.owned, h.balanced⟩

theorem HoldInv.of_admittedReach {s₀ s : LockState D} (h₀ : Initial s₀)
    (hs : AdmittedReach lib s₀ s) : HoldInv s := by
  induction hs with
  | refl =>
    refine ⟨.of_initial h₀, fun name => ?_, ?_⟩
    · exact .of_empty (h₀.metaMap name) (h₀.refCount name) (by simp [view, h₀.trace, holds])
        fun i => h₀.records i name
    · rw [h₀.trace]
      exact fun _ _ => Nat.le_refl 0
  | tail _ hstep ih =>
    obtain ⟨action, hadmits, rfl⟩ := hstep
    exact ih.step lib action hadmits

/-! ### Unlocking without an acquisition -/

theorem handleUnlock_of_no_record {udsInfo : LockUdsInfo}
    (h : ∀ client, ∀ u ∈ s.recordsAt client name, u.toLockProc ≠ udsInfo.toLockProc) (now : Nat) :
    (handleUnlock lib s name udsInfo now).2 = s := by
  unfold handleUnlock
  split_ifs with hready
  · rfl
  · cases s.metaMap name with
    | none => rfl
    | some client =>
      have hinvalid : (s.dlockClients client).isLockUdsValid name udsInfo = false := by
        by_contra hvalid
        obtain ⟨r, hr, hproc⟩ := (ClientDesc.isLockUdsValid_iff _ _ _).mp (by simpa using hvalid)
        exact h client r hr hproc
      simp [hinvalid]

/-- **Only a process with an acquisition of the name can release it.**  In every run a process
that has not acquired the name is turned away: the reference count, the records, the holds and
the library stay as they are.  In every run in which whoever gives back its last acquisition,
by itself or because it expired, holds the last reference to the name, and in which the library
loses no lock that is held, the same holds of every process without an acquisition left, and
each process has released the name at most as often as it acquired it. -/
theorem handleUnlock_without_hold {s₀ : LockState D} (h₀ : Initial s₀) (name : Name)
    (udsInfo : LockUdsInfo) (now : Nat) :
    (∀ s, Reach lib s₀ s → .acquired name udsInfo.toLockProc ∉ s.trace →
        (handleUnlock lib s name udsInfo now).2 = s) ∧
      ∀ s, AdmittedReach lib s₀ s →
        (held s.trace name udsInfo.toLockProc = 0 → (handleUnlock lib s name udsInfo now).2 = s) ∧
          s.trace.count (.released name udsInfo.toLockProc) ≤
            s.trace.count (.acquired name udsInfo.toLockProc) := by
  constructor
  · intro s hs hnever
    have hinv := RecordInv.of_reach lib h₀ hs
    refine handleUnlock_of_no_record lib (fun client u hu hproc => hnever ?_) now
    exact hproc ▸ hinv.acquired client name u hu
  · intro s hs
    have hinv := HoldInv.of_admittedReach lib h₀ hs
    constructor
    · intro hzero
      refine handleUnlock_of_no_record lib (fun client u hu hproc => ?_) now
      exact count_eq_zero.mp hzero (hproc ▸ (hinv.owned name).held client u hu)
    · have := hinv.balanced name udsInfo.toLockProc
      omega

/-! ### Two readers, and an expired writer -/

/-- The holders of a lock. -/
inductive RwHold
  | free
  | shared (readers : Nat)
  | exclusive

/-- A reader/writer lock for every lock id, with an id of its own for every name. -/
def rwLib : DlockLib (Int → RwHold) where
  getLock _ desc d := ((dlockSuccess, desc.foldl (fun id b => 256 * id + b.toNat + 1) 0), d)
  tryLock _ lockId isExclusive _ d :=
    match d lockId, isExclusive with
    | .free, true => (dlockSuccess, update d lockId .exclusive)
    | .free, false => (dlockSuccess, update d lockId (.shared 1))
    | .shared n, false => (dlockSuccess, update d lockId (.shared (n + 1)))
    | _, _ => (dlockFail, d)
  unlock _ lockId d :=
    match d lockId with
    | .free => (dlockAlreadyUnlocked, d)
    | .shared n =>
      (dlockSuccess, update d lockId (if n ≤ 1 then .free else .shared (n - 1)))
    | .exclusive => (dlockSuccess, update d lockId .free)
  releaseLock _ lockId d := (dlockSuccess, update d lockId .free)

/-- A daemon with one client and an expiry time of 300 seconds. -/
def sampleLocks : LockState (Int → RwHold) where
  isInit := true
  inElection := false
  dlockClients _ := ⟨1, fun _ => none, fun _ => none⟩
  clientCount := 1
  dlockClientNum := 1
  lockExpireTime := 300
  clientIndex := 0
  metaMap _ := none
  refCount _ := none
  lib _ := .free
  trace := []

theorem sampleLocks_initial : Initial sampleLocks :=
  ⟨fun _ _ => rfl, fun _ => rfl, fun _ => rfl, rfl⟩

/-- Process 10 has locked the name `a` for itself. -/
def writerLocked : LockState (Int → RwHold) :=
  sampleLocks.step rwLib (.lock [97] true ⟨⟨10, 0, 0⟩, 0⟩ 0)

/-- Process 10 locks the name `a` twice and unlocks it twice; then process 20 locks it. -/
def handedOver : LockState (Int → RwHold) :=
  ((((sampleLocks.step rwLib (.lock [97] false ⟨⟨10, 0, 0⟩, 0⟩ 0)).step rwLib
    (.lock [97] false ⟨⟨10, 0, 0⟩, 0⟩ 1)).step rwLib (.unlock [97] ⟨⟨10, 0, 0⟩, 0⟩ 2)).step rwLib
    (.unlock [97] ⟨⟨10, 0, 0⟩, 0⟩ 3)).step rwLib (.lock [97] true ⟨⟨20, 0, 0⟩, 0⟩ 4)

theorem handedOver_reach : AdmittedReach rwLib sampleLocks handedOver := by
  have hlost : ∀ {s : LockState (Int → RwHold)} {client : Nat} {lockId : Int},
      s.metaMap [97] = some client → (s.dlockClients client).getLockId [97] = some lockId →
      (unlockLoop rwLib (s.dlockClients client).clientId lockId defaultTryLockCount s.lib).1 =
        dlockSuccess → ¬ s.Lost rwLib [97] := by
    rintro s client lockId hmeta hid hreply ⟨_, hmeta', _, hid', hlost⟩
    cases hmeta.symm.trans hmeta'
    cases hid.symm.trans hid'
    rw [hreply] at hlost
    revert hlost
    decide
  have hlocked : AdmittedReach rwLib sampleLocks _ :=
    .single ⟨.lock [97] false ⟨⟨10, 0, 0⟩, 0⟩ 0, nofun, rfl⟩
  have htwice := hlocked.tail ⟨.lock [97] false ⟨⟨10, 0, 0⟩, 0⟩ 1, fun n hn => by
    cases hn; decide, rfl⟩
  have honce := htwice.tail ⟨.unlock [97] ⟨⟨10, 0, 0⟩, 0⟩ 2,
    ⟨fun h => absurd h (by decide), fun _ => hlost rfl rfl rfl⟩, rfl⟩
  have hfree := honce.tail ⟨.unlock [97] ⟨⟨10, 0, 0⟩, 0⟩ 3,
    ⟨fun _ => rfl, fun _ => hlost rfl rfl rfl⟩, rfl⟩
  exact hfree.tail ⟨.lock [97] true ⟨⟨20, 0, 0⟩, 0⟩ 4, nofun, rfl⟩

/-- A stranger cannot unlock what process 10 has locked, and process 10, which has unlocked the
name as often as it locked it, cannot unlock what process 20 has locked after it. -/
theorem handleUnlock_without_hold_stranger :
    Initial sampleLocks ∧ Reach rwLib sampleLocks writerLocked ∧
      (handleUnlock rwLib writerLocked [97] ⟨⟨20, 0, 0⟩, 0⟩ 1).2 = writerLocked ∧
      AdmittedReach rwLib sampleLocks handedOver ∧
      handedOver.trace.count (.released [97] ⟨10, 0, 0⟩) = 2 ∧
      held handedOver.trace [97] ⟨20, 0, 0⟩ = 1 ∧
      (handleUnlock rwLib handedOver [97] ⟨⟨10, 0, 0⟩, 0⟩ 5).2 = handedOver := by
  have hreach : Reach rwLib sampleLocks writerLocked :=
    .single ⟨.lock [97] true ⟨⟨10, 0, 0⟩, 0⟩ 0, rfl⟩
  refine ⟨sampleLocks_initial, hreach, ?_, handedOver_reach, by decide, by decide, ?_⟩
  · exact (handleUnlock_without_hold rwLib sampleLocks_initial [97] ⟨⟨20, 0, 0⟩, 0⟩ 1).1 _ hreach
      (by decide)
  · exact ((handleUnlock_without_hold rwLib sampleLocks_initial [97] ⟨⟨10, 0, 0⟩, 0⟩ 5).2 _
      handedOver_reach).1 (by decide)

/-- Two readers have locked the name and the first has unlocked it. -/
def firstUnlocked : LockState (Int → RwHold) :=
  ((sampleLocks.step rwLib (.lock [97] false ⟨⟨10, 0, 0⟩, 0⟩ 0)).step rwLib
    (.lock [97] false ⟨⟨20, 0, 0⟩, 0⟩ 1)).step rwLib (.unlock [97] ⟨⟨10, 0, 0⟩, 0⟩ 2)

theorem firstUnlocked_reach : Reach rwLib sampleLocks firstUnlocked :=
  ((Relation.ReflTransGen.single ⟨.lock [97] false ⟨⟨10, 0, 0⟩, 0⟩ 0, rfl⟩).tail
    ⟨.lock [97] false ⟨⟨20, 0, 0⟩, 0⟩ 1, rfl⟩).tail ⟨.unlock [97] ⟨⟨10, 0, 0⟩, 0⟩ 2, rfl⟩

/-- A process whose acquisition has expired still releases the name with `HandleUnlock`.
And the first of two readers can unlock a second time: its record is still there, so
the hold of the other reader is taken away and the lock given back. -/
theorem handleUnlock_releases_without_hold :
    (writerLocked.refCount [97] = some 1 ∧
        (writerLocked.dlockClients 0).isLockInValidTime [97] ⟨⟨10, 0, 0⟩, 0⟩ 400000000 = false ∧
        (handleUnlock rwLib writerLocked [97] ⟨⟨10, 0, 0⟩, 0⟩ 400000000).2.refCount [97] = none ∧
        (handleUnlock rwLib writerLocked [97] ⟨⟨10, 0, 0⟩, 0⟩ 400000000).2.trace.head? =
          some (.freed [97])) ∧
      Reach rwLib sampleLocks firstUnlocked ∧
      held firstUnlocked.trace [97] ⟨10, 0, 0⟩ = 0 ∧
      held firstUnlocked.trace [97] ⟨20, 0, 0⟩ = 1 ∧
      firstUnlocked.refCount [97] = some 1 ∧
      (handleUnlock rwLib firstUnlocked [97] ⟨⟨10, 0, 0⟩, 0⟩ 3).2.refCount [97] = none ∧
      (handleUnlock rwLib firstUnlocked [97] ⟨⟨10, 0, 0⟩, 0⟩ 3).2.trace.head? =
        some (.freed [97]) ∧
      held (handleUnlock rwLib firstUnlocked [97] ⟨⟨10, 0, 0⟩, 0⟩ 3).2.trace [97] ⟨20, 0, 0⟩ =
        0 := by
  refine ⟨?_, firstUnlocked_reach, ?_, ?_, ?_, ?_, ?_, ?_⟩
  · decide
  all_goals decide

end LockState
end UbsMem
