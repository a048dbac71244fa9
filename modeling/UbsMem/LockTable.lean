import UbsMem.LockOwnership

/-! # The tables of the lock module

What `UbsmLock` knows of a name is in three tables: the client that serves it
(`metaMap`), the references to it (`refCount`) and the lock id that its client keeps.
`LockTables` takes these out of the state, together with a log of the lock ids that
went to and fro between the daemon and the library.

The tables change in three ways: a name enters with a new lock id, its count changes,
or it leaves and its lock id is given back.  `HandleUnlock` and
`CleanUpExpiredLocksForName` do nothing else in any run, and neither does `HandleLock`
as long as a lock that is got anew is also granted.  When it is not, the count of the
name goes back to zero but the name stays in the table.
-/
namespace UbsMem

open Function List

/-! ### The library with a log -/

/-- A lock id that the library handed out for a name, or that was passed to
`DLockReleaseLock`. -/
inductive LibCall
  | got (name : Name) (clientId lockId : Int)
  | gave (clientId lockId : Int)
  deriving DecidableEq

/-- The lock ids that were handed out, with the client each belongs to. -/
def obtained : List LibCall → List (Int × Int)
  | [] => []
  | .got _ clientId lockId :: log => (clientId, lockId) :: obtained log
  | .gave _ _ :: log => obtained log

/-- The lock ids that were given back. -/
def givenBack : List LibCall → List (Int × Int)
  | [] => []
  | .got _ _ _ :: log => givenBack log
  | .gave clientId lockId :: log => (clientId, lockId) :: givenBack log

variable {D : Type}

/-- The library, which keeps a log beside its own state, the latest call first. -/
def DlockLib.logged (lib : DlockLib D) : DlockLib (D × List LibCall) where
  getLock clientId desc d :=
    let ((ret, lockId), d') := lib.getLock clientId desc d.1
    ((ret, lockId), d', if ret = dlockSuccess then .got desc clientId lockId :: d.2 else d.2)
  tryLock clientId lockId isExclusive expireTime d :=
    let (ret, d') := lib.tryLock clientId lockId isExclusive expireTime d.1
    (ret, d', d.2)
  unlock clientId lockId d :=
    let (ret, d') := lib.unlock clientId lockId d.1
    (ret, d', d.2)
  releaseLock clientId lockId d :=
    let (ret, d') := lib.releaseLock clientId lockId d.1
    (ret, d', .gave clientId lockId :: d.2)

/-! ### The tables and how they change -/

/-- The tables of the lock module and the log of the library. -/
structure LockTables where
  metaMap : Name → Option Nat
  refCount : Name → Option UInt32
  lockIds : Nat → Name → Option Int
  clientIds : Nat → Int
  log : List LibCall

namespace LockTables

/-- A name enters with a new lock id and one reference. -/
def enter (t : LockTables) (name : Name) (client : Nat) (lockId : Int) : LockTables :=
  { t with
    metaMap := update t.metaMap name (some client)
    refCount := update t.refCount name (some 1)
    lockIds := update t.lockIds client
      (update (t.lockIds client) name (some lockId))
    log := .got name (t.clientIds client) lockId :: t.log }

/-- The count of a name changes. -/
def count (t : LockTables) (name : Name) (n : UInt32) : LockTables :=
  { t with refCount := update t.refCount name (some n) }

/-- A name leaves and its lock id is given back. -/
def leave (t : LockTables) (name : Name) (client : Nat) (lockId : Int) : LockTables :=
  { t with
    metaMap := update t.metaMap name none
    refCount := update t.refCount name none
    lockIds := update t.lockIds client (update (t.lockIds client) name none)
    log := .gave (t.clientIds client) lockId :: t.log }

/-- The references that a count may stand for: from `2 ^ 31` on the signed number that
the functions return is negative. -/
def Countable (n : UInt32) : Prop := 1 ≤ n.toNat ∧ n.toNat ≤ 2 ^ 31

/-- The changes of the tables. -/
inductive Step (t : LockTables) : LockTables → Prop
  | enter {name : Name} (client : Nat) (lockId : Int) (hnew : t.metaMap name = none) :
      Step t (t.enter name client lockId)
  | count {name : Name} {client : Nat} {n : UInt32} (hin : t.metaMap name = some client)
      (hn : Countable n) : Step t (t.count name n)
  | leave {name : Name} {client : Nat} {lockId : Int} (hin : t.metaMap name = some client)
      (hid : t.lockIds client name = some lockId) : Step t (t.leave name client lockId)

/-- Any number of changes. -/
abbrev Steps : LockTables → LockTables → Prop := Relation.ReflTransGen Step

/-- The lock id of a name in the table, with the client it belongs to. -/
def heldId (t : LockTables) (name : Name) : Option (Int × Int) :=
  (t.metaMap name).bind fun client =>
    (t.lockIds client name).map fun lockId => (t.clientIds client, lockId)

/-- The three tables agree on a name: one that is served has at least one reference and a
lock id at its client and at no other, one that is not served has none of these. -/
structure Agrees (t : LockTables) (name : Name) : Prop where
  counted : ∀ client, t.metaMap name = some client → ∃ n, t.refCount name = some n ∧ Countable n
  uncounted : t.metaMap name = none → t.refCount name = none
  lockId : ∀ client, (t.lockIds client name).isSome ↔ t.metaMap name = some client

/-- **The tables are consistent.**  They agree on every name, and the lock ids that the
library handed out are those it got back and those of the names in the table. -/
structure Consistent (t : LockTables) : Prop where
  agrees : ∀ name, t.Agrees name
  ids : ∃ names : List Name, names.Nodup ∧ (∀ name, name ∈ names ↔ (t.metaMap name).isSome) ∧
    (obtained t.log).Perm (givenBack t.log ++ names.filterMap t.heldId)

variable {t t' : LockTables} {name m : Name} {client : Nat} {lockId : Int} {n : UInt32}

theorem heldId_eq (hin : t.metaMap name = some client) (hid : t.lockIds client name = some lockId) :
    t.heldId name = some (t.clientIds client, lockId) := by
  simp [heldId, hin, hid]

/-- The lock ids of other names are not touched by a change of one name at one client. -/
theorem lockIds_update_of_ne {ids : Nat → Name → Option Int} {v : Option Int} (hm : m ≠ name)
    (i : Nat) : update ids client (update (ids client) name v) i m = ids i m := by
  by_cases hi : i = client
  · subst hi
    rw [update_self, update_of_ne hm]
  · rw [update_of_ne hi]

theorem heldId_enter_of_ne (hm : m ≠ name) :
    (t.enter name client lockId).heldId m = t.heldId m := by
  simp only [heldId, enter, update_of_ne hm, lockIds_update_of_ne hm]

theorem heldId_leave_of_ne (hm : m ≠ name) :
    (t.leave name client lockId).heldId m = t.heldId m := by
  simp only [heldId, leave, update_of_ne hm, lockIds_update_of_ne hm]

/-! A change of one name leaves the others as they are. -/

theorem Agrees.congr (h : t.Agrees name) (hmeta : t'.metaMap name = t.metaMap name)
    (href : t'.refCount name = t.refCount name) (hids : ∀ i, t'.lockIds i name = t.lockIds i name) :
    t'.Agrees name where
  counted client hin := href ▸ h.counted client (hmeta ▸ hin)
  uncounted hout := href ▸ h.uncounted (hmeta ▸ hout)
  lockId client := by rw [hids, hmeta, h.lockId]

section

variable (h : t.Consistent)

include h

theorem Consistent.enter (client : Nat) (lockId : Int) (hnew : t.metaMap name = none) :
    (t.enter name client lockId).Consistent := by
  constructor
  · intro m
    by_cases hm : m = name
    · subst hm
      refine ⟨fun _ _ => ⟨1, by simp [LockTables.enter], by decide, by decide⟩, fun hout => ?_,
        fun i => ?_⟩
      · simp [LockTables.enter] at hout
      · have hnone : t.lockIds i m = none := by
          rw [← Option.not_isSome_iff_eq_none, (h.agrees m).lockId i, hnew]
          simp
        by_cases hi : i = client
        · simp [LockTables.enter, hi]
        · simp [LockTables.enter, hi, hnone, Ne.symm hi]
    · exact (h.agrees m).congr (update_of_ne hm _ _) (update_of_ne hm _ _) (lockIds_update_of_ne hm)
  · obtain ⟨names, hnodup, hmem, hperm⟩ := h.ids
    have hfresh : name ∉ names := by
      rw [hmem, hnew]
      simp
    refine ⟨name :: names, nodup_cons.mpr ⟨hfresh, hnodup⟩, fun m => ?_, ?_⟩
    · by_cases hm : m = name
      · simp [LockTables.enter, hm]
      · simp [LockTables.enter, hm, hmem]
    · have hheld : (t.enter name client lockId).heldId name =
          some (t.clientIds client, lockId) :=
        heldId_eq (by simp [LockTables.enter])
          (by simp [LockTables.enter])
      have hrest : names.filterMap (t.enter name client lockId).heldId = names.filterMap t.heldId :=
        filterMap_congr fun m hm => heldId_enter_of_ne fun heq => hfresh (heq ▸ hm)
      rw [filterMap_cons_some hheld, hrest]
      exact (hperm.cons _).trans perm_middle.symm

theorem Consistent.count (hin : t.metaMap name = some client) (hn : Countable n) :
    (t.count name n).Consistent := by
  refine ⟨fun m => ?_, h.ids⟩
  by_cases hm : m = name
  · subst hm
    refine ⟨fun _ _ => ⟨n, update_self _ _ _, hn⟩, fun hout => ?_, (h.agrees m).lockId⟩
    simp [LockTables.count, hin] at hout
  · exact (h.agrees m).congr rfl (update_of_ne hm _ _) fun _ => rfl

theorem Consistent.leave (hin : t.metaMap name = some client)
    (hid : t.lockIds client name = some lockId) : (t.leave name client lockId).Consistent := by
  constructor
  · intro m
    by_cases hm : m = name
    · subst hm
      refine ⟨fun _ hserved => ?_, fun _ => update_self _ _ _, fun i => ?_⟩
      · simp [LockTables.leave] at hserved
      · by_cases hi : i = client
        · simp [LockTables.leave, hi]
        · have hnone : t.lockIds i m = none := by
            rw [← Option.not_isSome_iff_eq_none, (h.agrees m).lockId i, hin]
            simpa using Ne.symm hi
          simp [LockTables.leave, hi, hnone]
    · exact (h.agrees m).congr (update_of_ne hm _ _) (update_of_ne hm _ _) (lockIds_update_of_ne hm)
  · obtain ⟨names, hnodup, hmem, hperm⟩ := h.ids
    have hname : name ∈ names := by
      rw [hmem, hin]
      rfl
    refine ⟨names.erase name, hnodup.erase name, fun m => ?_, ?_⟩
    · rw [hnodup.mem_erase_iff]
      by_cases hm : m = name
      · simp [LockTables.leave, hm]
      · simp [LockTables.leave, hm, hmem]
    · have hrest : (names.erase name).filterMap (t.leave name client lockId).heldId =
          (names.erase name).filterMap t.heldId :=
        filterMap_congr fun m hm => heldId_leave_of_ne (hnodup.mem_erase_iff.mp hm).1
      have hsplit : (names.filterMap t.heldId).Perm
          ((t.clientIds client, lockId) :: (names.erase name).filterMap t.heldId) := by
        rw [← filterMap_cons_some (heldId_eq hin hid)]
        exact (perm_cons_erase hname).filterMap _
      rw [hrest]
      exact hperm.trans ((hsplit.append_left _).trans perm_middle)

theorem Consistent.step (hstep : Step t t') : t'.Consistent := by
  cases hstep with
  | enter client lockId hnew => exact h.enter client lockId hnew
  | count hin hn => exact h.count hin hn
  | leave hin hid => exact h.leave hin hid

theorem Consistent.steps (hsteps : Steps t t') : t'.Consistent := by
  induction hsteps with
  | refl => exact h
  | tail _ hstep ih => exact ih.step hstep

end

end LockTables

/-! ### What the functions do to the tables -/

namespace LockState

/-- The tables of a state. -/
def tables (s : LockState (D × List LibCall)) : LockTables where
  metaMap := s.metaMap
  refCount := s.refCount
  lockIds client := (s.dlockClients client).name2LockId
  clientIds client := (s.dlockClients client).clientId
  log := s.lib.2

variable (lib : DlockLib D) {s : LockState (D × List LibCall)} {name : Name} {client : Nat}
  {c : ClientDesc} {n : UInt32} {lockId : Int} {isExclusive : Bool}

/-! The tables of the clients after one of them has changed. -/

theorem lockIds_update (clients : Nat → ClientDesc) (client : Nat) (c : ClientDesc) :
    (fun i => (update clients client c i).name2LockId) =
      update (fun i => (clients i).name2LockId) client c.name2LockId :=
  Function.comp_update ClientDesc.name2LockId clients client c

theorem clientIds_update (clients : Nat → ClientDesc) (client : Nat)
    (hid : c.clientId = (clients client).clientId) :
    (fun i => (update clients client c i).clientId) = fun i => (clients i).clientId := by
  refine (Function.comp_update ClientDesc.clientId clients client c).trans ?_
  rw [hid]
  exact update_eq_self client fun i => (clients i).clientId

theorem tables_setClient (hid : c.clientId = (s.dlockClients client).clientId)
    (hids : c.name2LockId = (s.dlockClients client).name2LockId) :
    (s.setClient client c).tables = s.tables := by
  simp only [tables, setClient, lockIds_update, clientIds_update s.dlockClients client hid, hids]
  rw [update_eq_self client fun i => (s.dlockClients i).name2LockId]

theorem name2LockId_removeLockUdsInfoByName (c : ClientDesc) (name : Name) (udsInfo : LockUdsInfo) :
    (c.removeLockUdsInfoByName name udsInfo).clientId = c.clientId ∧
      (c.removeLockUdsInfoByName name udsInfo).name2LockId = c.name2LockId := by
  unfold ClientDesc.removeLockUdsInfoByName
  split <;> exact ⟨rfl, rfl⟩

/-! A lock that is tried or unlocked is neither got nor given back. -/

section

variable (clientId lockId : Int)

theorem tryLock_logged (isExclusive : Bool) (expireTime : Nat) (d : D × List LibCall) :
    lib.logged.tryLock clientId lockId isExclusive expireTime d =
      ((lib.tryLock clientId lockId isExclusive expireTime d.1).1,
        (lib.tryLock clientId lockId isExclusive expireTime d.1).2, d.2) := rfl

theorem unlock_logged (d : D × List LibCall) : lib.logged.unlock clientId lockId d =
      ((lib.unlock clientId lockId d.1).1, (lib.unlock clientId lockId d.1).2, d.2) := rfl

theorem tryLockLoop_logged (isExclusive : Bool) (expireTime num : Nat) (d : D × List LibCall) :
    tryLockLoop lib.logged clientId lockId isExclusive expireTime num d =
      ((tryLockLoop lib clientId lockId isExclusive expireTime num d.1).1,
        (tryLockLoop lib clientId lockId isExclusive expireTime num d.1).2, d.2) := by
  induction num generalizing d with
  | zero =>
    unfold tryLockLoop
    rw [tryLock_logged]
    generalize lib.tryLock clientId lockId isExclusive expireTime d.1 = reply
    dsimp only
    split_ifs <;> rfl
  | succ num ih =>
    unfold tryLockLoop
    rw [tryLock_logged]
    generalize lib.tryLock clientId lockId isExclusive expireTime d.1 = reply
    dsimp only
    split_ifs with hbad hagain hinner hok hretry
    · rfl
    · rfl
    · rfl
    · rfl
    · exact ih _
    · rfl

theorem unlockLoop_logged (num : Nat) (d : D × List LibCall) :
    unlockLoop lib.logged clientId lockId num d =
      ((unlockLoop lib clientId lockId num d.1).1, (unlockLoop lib clientId lockId num d.1).2,
        d.2) := by
  induction num generalizing d with
  | zero =>
    unfold unlockLoop
    rw [unlock_logged]
    generalize lib.unlock clientId lockId d.1 = reply
    dsimp only
    split_ifs <;> rfl
  | succ num ih =>
    unfold unlockLoop
    rw [unlock_logged]
    generalize lib.unlock clientId lockId d.1 = reply
    dsimp only
    split_ifs with hretry
    · exact ih _
    · rfl

end

theorem tables_tryLock (s : LockState (D × List LibCall)) (name : Name) (client : Nat)
    (isExclusive : Bool) (udsInfo : LockUdsInfo) (now : Nat) :
    (tryLock lib.logged s name client isExclusive udsInfo now).2.tables = s.tables := by
  unfold tryLock
  split_ifs with hexcl
  · rfl
  · cases (s.dlockClients client).getLockId name with
    | none => rfl
    | some lockId =>
      simp only [tryLockLoop_logged]
      split_ifs
      · exact tables_setClient (s := { s with lib := _ }) rfl rfl
      · rfl

/-- Where the name is served, `TryReleaseLock` takes it out of the table of the clients and
gives its lock id back; the count is left to the caller. -/
theorem tables_tryReleaseLock (hin : s.metaMap name = some client) (lockId : Int)
    (href : s.refCount name = none) :
    (tryReleaseLock lib.logged s name lockId).tables = s.tables.leave name client lockId := by
  have hcount : update s.refCount name none = s.refCount := by
    rw [← href, update_eq_self]
  unfold tryReleaseLock
  rw [hin]
  have hclientIds := clientIds_update s.dlockClients client
    (c := (s.dlockClients client).removeLockId name) rfl
  simp only [tables, LockTables.leave, note, setClient, removeClientDesc, hcount,
    lockIds_update, hclientIds, update_self]
  rfl

/-! The count goes down by one, and the returned number is its sign. -/

theorem releaseClientDescRef_one (href : s.refCount name = some 1) : s.releaseClientDescRef name =
      (0, { s with refCount := update s.refCount name none }) := by
  simp [releaseClientDescRef, href]

theorem releaseClientDescRef_more (href : s.refCount name = some n) (hn : LockTables.Countable n)
    (hone : n ≠ 1) :
    0 < (s.releaseClientDescRef name).1 ∧ LockTables.Countable (n - 1) ∧
      (s.releaseClientDescRef name).2 =
        { s with refCount := update s.refCount name (some (n - 1)) } := by
  obtain ⟨hpos, hle⟩ := hn
  have hne : n.toNat ≠ 1 := fun h => hone (UInt32.toNat_inj.mp h)
  have hsub : (n - 1).toNat = n.toNat - 1 := UInt32.toNat_sub_of_le n 1 hpos
  have hzero : n - 1 ≠ 0 := fun h => by
    have := congrArg UInt32.toNat h
    simp only [UInt32.toNat_zero] at this
    omega
  simp only [releaseClientDescRef, href, if_neg hzero, and_true]
  refine ⟨?_, by omega, by omega⟩
  rw [toInt_toInt32 (by omega), hsub]
  omega

/-- The library has lost the lock: the count is dropped and the lock id given back. -/
theorem steps_lost (hin : s.metaMap name = some client)
    (hid : (s.dlockClients client).getLockId name = some lockId) :
    LockTables.Steps s.tables
      (tryReleaseLock lib.logged (s.removeClientDescRef name) name lockId).tables := by
  have hcount : (s.removeClientDescRef name).refCount name = none := update_self _ _ _
  have hin' : (s.removeClientDescRef name).metaMap name = some client := hin
  rw [tables_tryReleaseLock lib hin' lockId hcount]
  have hsame : (s.removeClientDescRef name).tables.leave name client lockId =
      s.tables.leave name client lockId := by
    simp [LockTables.leave, tables, removeClientDescRef]
  rw [hsame]
  exact .single (.leave hin hid)

section

variable (h : s.tables.Consistent)

include h

section

variable (hin : s.metaMap name = some client)

include hin

theorem steps_released {lockId : Int} (hid : (s.dlockClients client).getLockId name = some lockId) :
    if (s.releaseClientDescRef name).1 ≤ 0 then
      LockTables.Steps s.tables
        (tryReleaseLock lib.logged (s.releaseClientDescRef name).2 name lockId).tables
    else LockTables.Steps s.tables (s.releaseClientDescRef name).2.tables := by
  obtain ⟨n, href, hn⟩ := (h.agrees name).counted client hin
  by_cases hone : n = 1
  · subst hone
    rw [releaseClientDescRef_one href, if_pos (Int.le_refl 0)]
    exact steps_lost lib hin hid
  · obtain ⟨hpos, hcount, heq⟩ := releaseClientDescRef_more href hn hone
    rw [if_neg (by omega), heq]
    exact .single (.count hin hcount)

/-- **`UnlockWithDesc`** at the client that serves the name. -/
theorem steps_unlockWithDesc (udsInfo : LockUdsInfo) :
    LockTables.Steps s.tables (unlockWithDesc lib.logged s name client udsInfo).2.tables := by
  unfold unlockWithDesc
  cases hid : (s.dlockClients client).getLockId name with
  | none => exact .refl
  | some lockId =>
    simp only [unlockLoop_logged]
    generalize unlockLoop lib (s.dlockClients client).clientId lockId defaultTryLockCount s.lib.1 =
      reply
    -- The reply of the library changes no table.
    set s₁ : LockState (D × List LibCall) := { s with lib := (reply.2, s.lib.2) } with hs₁
    set s₂ := s₁.note (.released name udsInfo.toLockProc) with hs₂
    have hreleased := steps_released lib (s := s₂) h hin hid
    split_ifs with hlost hok hlast
    · exact steps_lost lib (s := s₁) hin hid
    · rw [if_pos hlast] at hreleased
      obtain ⟨hclientId, hids⟩ := name2LockId_removeLockUdsInfoByName ((tryReleaseLock lib.logged
        (s₂.releaseClientDescRef name).2 name lockId).dlockClients client) name udsInfo
      exact (tables_setClient hclientId hids).symm ▸ hreleased
    · rw [if_neg hlast] at hreleased
      exact hreleased
    · exact .refl

theorem steps_unlockAll (invalidUds : List LockUdsInfo) :
    LockTables.Steps s.tables (unlockAll lib.logged s name client invalidUds).tables := by
  induction invalidUds generalizing s with
  | nil => exact .refl
  | cons u us ih =>
    unfold unlockAll
    have hsteps := steps_unlockWithDesc lib h hin u
    have h' := h.steps hsteps
    refine hsteps.trans ?_
    -- Once the name has left, its client has no lock id and the rest does nothing.
    by_cases hin' : (unlockWithDesc lib.logged s name client u).2.metaMap name = some client
    · exact ih h' hin'
    · have hid : ((unlockWithDesc lib.logged s name client u).2.dlockClients client).getLockId
          name = none :=
        Option.not_isSome_iff_eq_none.mp fun hsome =>
          hin' (((h'.agrees name).lockId client).mp hsome)
      rw [unlockAll_of_no_lockId lib.logged hid]

end

theorem steps_cleanUpExpiredLocksForName (name : Name) (now : Nat) :
    LockTables.Steps s.tables (cleanUpExpiredLocksForName lib.logged s name now).tables := by
  unfold cleanUpExpiredLocksForName
  cases hin : s.metaMap name with
  | none => exact .refl
  | some client =>
    have hall := steps_unlockAll lib h hin ((s.dlockClients client).getInValidUdsInfo name now)
    dsimp only
    split
    · exact (tables_setClient (c := ClientDesc.removeLockUdsInfo _ name) rfl rfl).symm ▸ hall
    · exact hall

theorem steps_handleUnlock (name : Name) (udsInfo : LockUdsInfo) (now : Nat) :
    LockTables.Steps s.tables (handleUnlock lib.logged s name udsInfo now).2.tables := by
  unfold handleUnlock
  split_ifs with hready
  · exact .refl
  · cases hin : s.metaMap name with
    | none => exact .refl
    | some client =>
      have hunlock := steps_unlockWithDesc lib h hin udsInfo
      dsimp only
      split_ifs
      · exact .refl
      · exact hunlock
      · exact hunlock

end

/-! ### Locking -/

/-- The library grants the lock: its last answer to `DLockTryLock` is one of success, and
those before, at most `num` of them, asked for a repetition. -/
inductive Granted (clientId lockId : Int) (isExclusive : Bool) (expireTime : Nat) : Nat → D → Prop
  | reply {num : Nat} {d : D}
      (h : (lib.tryLock clientId lockId isExclusive expireTime d).1 = dlockSuccess ∨
        (lib.tryLock clientId lockId isExclusive expireTime d).1 = dlockAlreadyLocked) :
      Granted clientId lockId isExclusive expireTime num d
  | again {num : Nat} {d : D}
      (h : (lib.tryLock clientId lockId isExclusive expireTime d).1 = dlockNotReady ∨
        (lib.tryLock clientId lockId isExclusive expireTime d).1 = dlockEasync)
      (hrest : Granted clientId lockId isExclusive expireTime num
        (lib.tryLock clientId lockId isExclusive expireTime d).2) :
      Granted clientId lockId isExclusive expireTime (num + 1) d

theorem tryLockLoop_of_granted {clientId : Int} {expireTime num : Nat} {d : D}
    (h : Granted lib clientId lockId isExclusive expireTime num d) :
    (tryLockLoop lib clientId lockId isExclusive expireTime num d).1 = ubsmOk := by
  induction h with
  | @reply num d h =>
    unfold tryLockLoop
    revert h
    generalize lib.tryLock clientId lockId isExclusive expireTime d = reply
    obtain ⟨ret, d'⟩ := reply
    rintro (rfl | rfl) <;> rfl
  | @again num d h _ ih =>
    unfold tryLockLoop
    revert h ih
    generalize lib.tryLock clientId lockId isExclusive expireTime d = reply
    obtain ⟨ret, d'⟩ := reply
    rintro (rfl | rfl) ih <;> exact ih

theorem tryLock_of_granted (hone : s.refCount name = some 1)
    (hid : (s.dlockClients client).getLockId name = some lockId)
    (h : Granted lib (s.dlockClients client).clientId lockId isExclusive s.lockExpireTime
      defaultTryLockCount s.lib.1) (udsInfo : LockUdsInfo) (now : Nat) :
    (tryLock lib.logged s name client isExclusive udsInfo now).1 = ubsmOk := by
  have href : ¬ s.getClientDescRef name > 1 := by
    rw [getClientDescRef, hone]
    decide
  unfold tryLock
  rw [if_neg fun hexcl => href hexcl.2, hid]
  simp only [tryLockLoop_logged, tryLockLoop_of_granted lib h, if_true]

/-- What a call may rely on: a name has fewer than `2 ^ 31` references when it is locked once
more, and a lock that is got anew is also granted. -/
def LockAction.Granted (s : LockState (D × List LibCall)) : LockAction → Prop
  | .lock name isExclusive _ _ =>
    (∀ n, s.refCount name = some n → n.toNat < 2 ^ 31) ∧
      (s.metaMap name = none → ∀ clientId lockId d,
        lib.getLock clientId name s.lib.1 = ((dlockSuccess, lockId), d) →
          LockState.Granted lib clientId lockId isExclusive s.lockExpireTime defaultTryLockCount d)
  | _ => True

/-- Locking a name that is in the table: one reference more, and one less again if the
library does not grant the lock. -/
theorem steps_handleLock_known (h : s.tables.Consistent) (hin : s.metaMap name = some client)
    (hroom : ∀ n, s.refCount name = some n → n.toNat < 2 ^ 31) (isExclusive : Bool)
    (udsInfo : LockUdsInfo) (now : Nat) :
    LockTables.Steps s.tables (handleLock lib.logged s name isExclusive udsInfo now).2.tables := by
  obtain ⟨n, href, hn⟩ := (h.agrees name).counted client hin
  have hlt := hroom n href
  have hadd : (n + 1).toNat = n.toNat + 1 := by
    rw [UInt32.toNat_add, UInt32.toNat_one, Nat.mod_eq_of_lt (by omega)]
  have hmore : LockTables.Countable (n + 1) := ⟨by omega, by omega⟩
  have hne : n + 1 ≠ 1 := fun heq => by
    have := hn.1
    rw [heq, UInt32.toNat_one] at hadd
    omega
  have hcounted : (s.addClientDescRef name).tables = s.tables.count name (n + 1) := by
    have href' : s.refCount name = some n := href
    simp [tables, addClientDescRef, LockTables.count, href']
  have hup : LockTables.Steps s.tables (s.addClientDescRef name).tables := by
    rw [hcounted]
    exact .single (.count hin hmore)
  have htables := tables_tryLock lib (s.addClientDescRef name) name client isExclusive udsInfo now
  unfold handleLock
  split_ifs with hready
  · exact .refl
  · simp only [getLock, hin]
    generalize tryLock lib.logged (s.addClientDescRef name) name client isExclusive udsInfo now =
      tried at htables
    obtain ⟨ret, s₂⟩ := tried
    dsimp only at htables ⊢
    rw [← htables] at hup
    have href₂ : s₂.refCount name = some (n + 1) := by
      have := congrArg (fun t => LockTables.refCount t name) (htables.trans hcounted)
      exact this.trans (update_self _ _ _)
    have hin₂ : s₂.metaMap name = some client := by
      have := congrArg (fun t => LockTables.metaMap t name) (htables.trans hcounted)
      exact this.trans hin
    cases (s₂.dlockClients client).getLockId name with
    | none => exact hup
    | some lockId =>
      split_ifs with hok hneg
      · obtain ⟨hpos, -, -⟩ := releaseClientDescRef_more href₂ hmore hne
        omega
      · obtain ⟨-, hcount, heq⟩ := releaseClientDescRef_more href₂ hmore hne
        rw [heq]
        exact hup.tail (.count hin₂ hcount)
      · exact hup

theorem getLock_logged (clientId : Int) (desc : Name) (d : D × List LibCall) :
    lib.logged.getLock clientId desc d =
      ((lib.getLock clientId desc d.1).1, (lib.getLock clientId desc d.1).2,
        if (lib.getLock clientId desc d.1).1.1 = dlockSuccess then
          .got desc clientId (lib.getLock clientId desc d.1).1.2 :: d.2 else d.2) := rfl

/-- What `GetLock` does with a name that is not in the table: nothing, or the name enters
with the lock id that the library has for it. -/
theorem getLock_new (hnew : s.metaMap name = none) (href : s.refCount name = none) :
    ((getLock lib.logged s name).1 = none ∧ (getLock lib.logged s name).2.tables = s.tables) ∨
      ∃ client lockId s₁, getLock lib.logged s name = (some client, s₁) ∧
        lib.getLock (s.dlockClients client).clientId name s.lib.1 =
          ((dlockSuccess, lockId), s₁.lib.1) ∧
        s₁.lockExpireTime = s.lockExpireTime ∧ s₁.tables = s.tables.enter name client lockId := by
  unfold getLock
  rw [hnew]
  by_cases hsize : s.clientIndex.toNat % s.dlockClientNum ≥ s.clientCount
  · have hclient : s.getDlockClient = (none, { s with clientIndex := s.clientIndex + 1 }) := by
      rw [getDlockClient, if_pos hsize]
    rw [hclient]
    exact .inl ⟨rfl, rfl⟩
  set client := s.clientIndex.toNat % s.dlockClientNum with hindex
  have hclient : s.getDlockClient = (some client, { s with clientIndex := s.clientIndex + 1 }) := by
    rw [getDlockClient, if_neg hsize]
  rcases hgot : lib.getLock (s.dlockClients client).clientId name s.lib.1 with ⟨⟨ret, lockId⟩, d⟩
  have hlogged := getLock_logged lib (s.dlockClients client).clientId name s.lib
  rw [hgot] at hlogged
  simp only [hclient, hlogged]
  by_cases hret : ret = dlockSuccess
  · subst hret
    refine .inr ⟨client, lockId, _, rfl, hgot, rfl, ?_⟩
    have hclientIds := clientIds_update s.dlockClients client
      (c := (s.dlockClients client).setLockId name lockId) rfl
    simp only [tables, addClientDescRef, setClientDesc, setClient, href, lockIds_update, hclientIds]
    rfl
  · rw [if_pos hret, if_neg hret]
    exact .inl ⟨rfl, rfl⟩

/-- Locking a name that is not in the table: it enters if the library has a lock for it. -/
theorem steps_handleLock_new (h : s.tables.Consistent) (hnew : s.metaMap name = none)
    (hgranted : ∀ clientId lockId d,
      lib.getLock clientId name s.lib.1 = ((dlockSuccess, lockId), d) →
        Granted lib clientId lockId isExclusive s.lockExpireTime defaultTryLockCount d)
    (udsInfo : LockUdsInfo) (now : Nat) :
    LockTables.Steps s.tables (handleLock lib.logged s name isExclusive udsInfo now).2.tables := by
  unfold handleLock
  split_ifs with hready
  · exact .refl
  rcases getLock_new lib hnew ((h.agrees name).uncounted hnew) with
    ⟨hnone, htables⟩ | ⟨client, lockId, s₁, hgot, hreply, hexpire, henter⟩
  · revert hnone htables
    generalize getLock lib.logged s name = got
    obtain ⟨_, s₁⟩ := got
    rintro rfl htables
    exact htables ▸ .refl
  rw [hgot]
  dsimp only
  have hone : s₁.refCount name = some 1 := by
    have := congrArg (fun t => LockTables.refCount t name) henter
    exact this.trans (update_self _ _ _)
  have hid : (s₁.dlockClients client).getLockId name = some lockId := by
    have := congrArg (fun t => LockTables.lockIds t client name) henter
    exact this.trans (by simp [LockTables.enter])
  have hclientId : (s₁.dlockClients client).clientId = (s.dlockClients client).clientId :=
    congrArg (fun t => LockTables.clientIds t client) henter
  have hok := tryLock_of_granted lib hone hid
    (hclientId ▸ hexpire ▸ hgranted _ _ _ hreply) udsInfo now
  have hup : LockTables.Steps s.tables
      (tryLock lib.logged s₁ name client isExclusive udsInfo now).2.tables := by
    rw [tables_tryLock, henter]
    exact .single (.enter client lockId hnew)
  revert hok hup
  generalize tryLock lib.logged s₁ name client isExclusive udsInfo now = tried
  obtain ⟨_, s₂⟩ := tried
  rintro rfl hup
  cases (s₂.dlockClients client).getLockId name with
  | none | some _ => exact hup

/-! ### Runs -/

theorem steps_step (h : s.tables.Consistent) {action : LockAction}
    (hgranted : action.Granted lib s) :
    LockTables.Steps s.tables (s.step lib.logged action).tables := by
  cases action with
  | lock name isExclusive udsInfo now =>
    obtain ⟨hroom, hfirst⟩ := hgranted
    cases hin : s.metaMap name with
    | none => exact steps_handleLock_new lib h hin (hfirst hin) udsInfo now
    | some client => exact steps_handleLock_known lib h hin hroom isExclusive udsInfo now
  | unlock name udsInfo now => exact steps_handleUnlock lib h name udsInfo now
  | cleanUp name now => exact steps_cleanUpExpiredLocksForName lib h name now
  | ready isInit inElection => exact .refl

/-- The states of the runs in which every lock that is got anew is granted. -/
def GrantedReach (s₀ s : LockState (D × List LibCall)) : Prop :=
  Relation.ReflTransGen (fun s s' => ∃ action : LockAction,
    action.Granted lib s ∧ s' = s.step lib.logged action) s₀ s

/-- Nothing has been locked yet. -/
structure Untouched (s : LockState (D × List LibCall)) : Prop where
  metaMap : ∀ name, s.metaMap name = none
  refCount : ∀ name, s.refCount name = none
  lockIds : ∀ client name, (s.dlockClients client).getLockId name = none
  log : s.lib.2 = []

theorem Untouched.consistent (h : s.Untouched) : s.tables.Consistent where
  agrees name :=
    { counted := fun client hin => by simp [tables, h.metaMap] at hin
      uncounted := fun _ => h.refCount name
      lockId := fun client => by
        have hid : (s.dlockClients client).name2LockId name = none := h.lockIds client name
        simp [tables, hid, h.metaMap] }
  ids := ⟨[], nodup_nil, fun name => by simp [tables, h.metaMap], by
    simp [tables, h.log, obtained, givenBack]⟩

/-- **The tables of the lock module stay consistent.**  Whatever the library answers, in
every run in which no name gets `2 ^ 31` references and every lock that is got anew is
granted: after every call a name is in `metaMap` iff it has at least one reference iff its
client has a lock id for it, and the lock ids that `DLockClientGetLock` handed out are, each
as often, those passed to `DLockReleaseLock` and those of the names in the table. -/
theorem lockTables_consistent {s₀ s : LockState (D × List LibCall)} (h₀ : s₀.Untouched)
    (hs : GrantedReach lib s₀ s) : s.tables.Consistent := by
  induction hs with
  | refl => exact h₀.consistent
  | tail _ hstep ih =>
    obtain ⟨action, hgranted, rfl⟩ := hstep
    exact ih.steps (steps_step lib ih hgranted)

/-- A daemon whose library keeps a log. -/
def loggedLocks : LockState ((Int → RwHold) × List LibCall) :=
  { sampleLocks with lib := (fun _ => .free, []) }

theorem loggedLocks_untouched : loggedLocks.Untouched :=
  ⟨fun _ => rfl, fun _ => rfl, fun _ _ => rfl, rfl⟩

/-- Process 10 locks the name `a`: its lock id is that of the name in the table. -/
theorem lockTables_consistent_locked :
    (loggedLocks.step rwLib.logged (.lock [97] true ⟨⟨10, 0, 0⟩, 0⟩ 0)).tables.Consistent ∧
      (loggedLocks.step rwLib.logged (.lock [97] true ⟨⟨10, 0, 0⟩, 0⟩ 0)).lib.2 =
        [.got [97] 1 98] := by
  have hgranted : (LockAction.lock [97] true ⟨⟨10, 0, 0⟩, 0⟩ 0).Granted rwLib loggedLocks := by
    refine ⟨nofun, fun _ clientId lockId d hgot => ?_⟩
    cases hgot
    exact .reply (.inl rfl)
  exact ⟨lockTables_consistent rwLib loggedLocks_untouched (.single ⟨_, hgranted, rfl⟩), rfl⟩

/-- **A failed first attempt stays in the table.**  The library has a lock for the name but
does not grant it.  The count goes from one to zero, `ReleaseClientDescRef` returns zero,
and the lock id is given back only for a negative number: the name is still served, its
client keeps the lock id, and nothing was passed to `DLockReleaseLock`. -/
theorem failed_first_lock_stays : let busy : LockState ((Int → RwHold) × List LibCall) :=
      { loggedLocks with lib := (fun _ => .exclusive, []) }
    let s := busy.step rwLib.logged (.lock [97] true ⟨⟨10, 0, 0⟩, 0⟩ 0)
    busy.Untouched ∧
      (handleLock rwLib.logged busy [97] true ⟨⟨10, 0, 0⟩, 0⟩ 0).1 = mxmErrDlockInner ∧
      s.metaMap [97] = some 0 ∧ s.refCount [97] = none ∧
      (s.dlockClients 0).getLockId [97] = some 98 ∧ s.lib.2 = [.got [97] 1 98] ∧
      ¬ s.tables.Consistent := by
  refine ⟨⟨fun _ => rfl, fun _ => rfl, fun _ _ => rfl, rfl⟩, rfl, rfl, rfl, rfl, rfl, fun h => ?_⟩
  obtain ⟨n, hn, -⟩ := (h.agrees [97]).counted 0 rfl
  cases hn

end LockState
end UbsMem
