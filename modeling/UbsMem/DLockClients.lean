import UbsMem.DLockServer
import UbsMem.LockOwnership

/-! # The clients of the lock module

A client that says it is ready has all of its `dlockClientNum` clients, of the current epoch of
the client library, provided that a client starts without clients from before and
reinitialises only while it has some (`client_ready`); without that it may have old clients or
none (`client_not_ready`).
-/
namespace UbsMem

open Function

namespace LockService

variable {D : Type}

/-! ### What the functions do to the clients -/

variable {s s' : LockService D}

/-- The role as a client, the clients and the lock table are the same. -/
structure SameClients (s s' : LockService D) : Prop where
  role : s'.isDlockClient = s.isDlockClient
  count : s'.locks.clientCount = s.locks.clientCount
  num : s'.locks.dlockClientNum = s.locks.dlockClientNum
  metaMap : s'.locks.metaMap = s.locks.metaMap
  epoch : s'.epoch = s.epoch
  born : s'.born = s.born

theorem SameClients.refl (s : LockService D) : SameClients s s := ⟨rfl, rfl, rfl, rfl, rfl, rfl⟩

theorem SameClients.trans {s₁ s₂ : LockService D} (h : SameClients s s₁) (h' : SameClients s₁ s₂) :
    SameClients s s₂ :=
  ⟨h'.role.trans h.role, h'.count.trans h.count, h'.num.trans h.num, h'.metaMap.trans h.metaMap,
    h'.epoch.trans h.epoch, h'.born.trans h.born⟩

/-- The clients are gone, and the lock table with them. -/
structure Cleared (s s' : LockService D) : Prop where
  role : s'.isDlockClient = s.isDlockClient
  num : s'.locks.dlockClientNum = s.locks.dlockClientNum
  count : s'.locks.clientCount = 0
  metaMap : ∀ name, s'.locks.metaMap name = none

theorem sameClients_ubsmLockInitSet (s : LockService D) (value : Bool) :
    SameClients s (s.ubsmLockInitSet value) := ⟨rfl, rfl, rfl, rfl, rfl, rfl⟩

theorem sameClients_destroyDLockDlopenLib (s : LockService D) :
    SameClients s s.destroyDLockDlopenLib := ⟨rfl, rfl, rfl, rfl, rfl, rfl⟩

theorem sameClients_dlockServerInit (s : LockService D) (start : ServerStart) :
    SameClients s (s.dlockServerInit start).2 := by
  cases start <;> exact ⟨rfl, rfl, rfl, rfl, rfl, rfl⟩

theorem sameClients_dlockServerReinit (s : LockService D) (o : LockOutcome) :
    SameClients s (s.dlockServerReinit o).2 := by
  unfold dlockServerReinit
  split_ifs <;> cases o.server <;> exact ⟨rfl, rfl, rfl, rfl, rfl, rfl⟩

/-- `DeInit` turns the lock flag off and leaves the clients as they are, or clears them. -/
theorem deInit_cases (s : LockService D) (stopped : Bool) :
    (s.deInit stopped).isUbsmLockInit = false ∧
      (SameClients s (s.deInit stopped) ∨ Cleared s (s.deInit stopped)) ∧
      (s.isDlockClient = true → s.isInitialized = true → Cleared s (s.deInit stopped)) := by
  -- The state after the server's part.
  obtain ⟨s₁, hs₁, hinit, hloaded, hsame⟩ : ∃ s₁ : LockService D,
      s.deInit stopped = destroyDLockDlopenLib (if s₁.isDlockClient then
        if s₁.isInitialized then s₁.unInitDlockClient.newEpoch else s₁.unInitDlockClient else s₁) ∧
      s₁.isUbsmLockInit = false ∧ s₁.isInitialized = s.isInitialized ∧ SameClients s s₁ := by
    refine ⟨_, rfl, ?_⟩
    simp only [deInitDlockServer]
    split_ifs <;> exact ⟨rfl, rfl, rfl, rfl, rfl, rfl, rfl, rfl⟩
  rw [hs₁]
  by_cases hclient : s₁.isDlockClient = true
  · by_cases hinitialized : s₁.isInitialized = true
    · have hcleared : Cleared s
          (destroyDLockDlopenLib (unInitDlockClient s₁).newEpoch) := by
        rw [unInitDlockClient, hinitialized]
        exact ⟨hsame.role, hsame.num, rfl, fun _ => rfl⟩
      rw [if_pos hclient, if_pos hinitialized]
      refine ⟨?_, .inr hcleared, fun _ _ => hcleared⟩
      rw [unInitDlockClient, hinitialized]
      exact hinit
    · have hstays : s₁.unInitDlockClient = s₁ := by
        simp [unInitDlockClient, hinitialized]
      rw [if_pos hclient, if_neg hinitialized, hstays]
      refine ⟨hinit, .inl (hsame.trans (sameClients_destroyDLockDlopenLib s₁)), fun _ h => ?_⟩
      exact absurd (hloaded.trans h) hinitialized
  · rw [if_neg hclient]
    refine ⟨hinit, .inl (hsame.trans (sameClients_destroyDLockDlopenLib s₁)), fun h _ => ?_⟩
    exact absurd (hsame.role.trans h) hclient

/-- The loop of `InitDlockClient`: when it ends well, there are as many clients more as it
made, all of the epoch it ran in. -/
theorem initClients_spec (s : LockService D) (clientInit : Nat → Option Int) (i n : Nat) :
    (s.initClients clientInit i n).2.isDlockClient = s.isDlockClient ∧
      (s.initClients clientInit i n).2.isInitialized = s.isInitialized ∧
      (s.initClients clientInit i n).2.locks.dlockClientNum = s.locks.dlockClientNum ∧
      ((s.initClients clientInit i n).1 = true →
        (s.initClients clientInit i n).2.locks.clientCount = s.locks.clientCount + n ∧
        (s.initClients clientInit i n).2.locks.metaMap = s.locks.metaMap ∧
        (s.initClients clientInit i n).2.epoch = s.epoch ∧ ∀ j < s.locks.clientCount + n,
          (s.initClients clientInit i n).2.born j =
            if j < s.locks.clientCount then s.born j else s.epoch) := by
  induction n generalizing s i with
  | zero =>
    refine ⟨rfl, rfl, rfl, fun _ => ⟨rfl, rfl, rfl, fun j hj => ?_⟩⟩
    exact (if_pos hj).symm
  | succ n ih =>
    unfold initClients
    cases hreply : clientInit i with
    | none =>
      unfold unInitDlockClient
      refine ⟨?_, ?_, ?_, fun h => absurd h Bool.false_ne_true⟩ <;> split_ifs <;> rfl
    | some clientId =>
      obtain ⟨hrole, hloaded, hnum, hok⟩ := ih (s.addClient clientId) (i + 1)
      refine ⟨hrole, hloaded, hnum, fun h => ?_⟩
      obtain ⟨hcount, hmeta, hepoch, hborn⟩ := hok h
      have hadd : (s.addClient clientId).locks.clientCount = s.locks.clientCount + 1 := rfl
      refine ⟨by rw [hcount, hadd]; omega, hmeta, hepoch, fun j hj => ?_⟩
      rw [hborn j (by rw [hadd]; omega), hadd]
      by_cases hnew : j = s.locks.clientCount
      · subst hnew
        simp [addClient]
      · by_cases hlt : j < s.locks.clientCount
        · rw [if_pos hlt, if_pos (by omega)]
          exact update_of_ne hnew _ _
        · rw [if_neg hlt, if_neg (by omega)]
          rfl

/-! ### The invariant -/

/-- All clients are there, and all are of the current epoch. -/
structure Complete (s : LockService D) : Prop where
  count : s.locks.clientCount = s.locks.dlockClientNum
  current : ∀ i < s.locks.clientCount, s.born i = s.epoch

/-- Names are served by clients that exist, and a node that is configured as the client has
no clients or all of them. -/
structure Tidy (s : LockService D) : Prop where
  num : 0 < s.locks.dlockClientNum
  served : ∀ name client, s.locks.metaMap name = some client → client < s.locks.clientCount
  whole : s.isDlockClient = true → s.locks.clientCount = 0 ∨ s.Complete

/-- Beside that, a client whose lock flag is set has all of its clients. -/
structure ClientInv (s : LockService D) : Prop extends Tidy s where
  ready : s.isUbsmLockInit = true → s.isDlockClient = true → s.Complete

theorem Complete.congr (h : s.Complete) (hs : SameClients s s') : s'.Complete where
  count := hs.count.trans (h.count.trans hs.num.symm)
  current i hi := by
    rw [hs.born, hs.epoch]
    exact h.current i (hs.count ▸ hi)

theorem Tidy.congr (h : s.Tidy) (hs : SameClients s s') : s'.Tidy where
  num := hs.num ▸ h.num
  served name client hin := by
    rw [hs.count]
    exact h.served name client (hs.metaMap ▸ hin)
  whole hclient := by
    rcases h.whole (hs.role ▸ hclient) with hnone | hall
    · exact .inl (hs.count.trans hnone)
    · exact .inr (hall.congr hs)

theorem Tidy.cleared (h : s.Tidy) (hs : Cleared s s') : s'.Tidy where
  num := hs.num ▸ h.num
  served name client hin := by simp [hs.metaMap] at hin
  whole _ := .inl hs.count

theorem Tidy.inv_of_off (h : s.Tidy) (hoff : s.isUbsmLockInit = false) : s.ClientInv :=
  ⟨h, fun hon => by simp [hoff] at hon⟩

theorem Tidy.inv_of_other (h : s.Tidy) (hrole : s.isDlockClient = false) : s.ClientInv :=
  ⟨h, fun _ hclient => by simp [hrole] at hclient⟩

theorem Tidy.deInit (h : s.Tidy) (stopped : Bool) : (s.deInit stopped).ClientInv := by
  obtain ⟨hoff, hclients, -⟩ := deInit_cases s stopped
  refine Tidy.inv_of_off ?_ hoff
  rcases hclients with hsame | hcleared
  · exact h.congr hsame
  · exact h.cleared hcleared

/-- An attempt to start begins without clients if it is to create some. -/
def Vacant (s : LockService D) : Prop := s.isDlockClient = true → s.locks.clientCount = 0

theorem Vacant.congr (h : s.Vacant) (hs : SameClients s s') : s'.Vacant :=
  fun hclient => hs.count.trans (h (hs.role ▸ hclient))

theorem Vacant.deInit (h : s.Vacant) (stopped : Bool) : (s.deInit stopped).Vacant := by
  rcases (deInit_cases s stopped).2.1 with hsame | hcleared
  · exact h.congr hsame
  · exact fun _ => hcleared.count

/-- The outcome of an attempt to start: the invariant, and room for another attempt if it
failed. -/
def Attempt (r : Bool × LockService D) : Prop := r.2.ClientInv ∧ (r.1 = false → r.2.Vacant)

/-- `InitDlockClient` on a node without clients: when it ends well, all of them are there. -/
theorem initDlockClient_spec (hnone : s.locks.clientCount = 0) (clientInit : Nat → Option Int)
    {r : Bool × LockService D} (hr : s.initDlockClient clientInit = r) :
    r.2.isDlockClient = s.isDlockClient ∧ r.2.isInitialized = s.isInitialized ∧
      r.2.locks.dlockClientNum = s.locks.dlockClientNum ∧ (r.1 = true → r.2.Complete ∧
      r.2.locks.metaMap = s.locks.metaMap) := by
  subst hr
  unfold initDlockClient
  split_ifs
  · exact ⟨rfl, rfl, rfl, nofun⟩
  obtain ⟨hrole, hloaded, hnum, hok⟩ := initClients_spec s clientInit 0 s.locks.dlockClientNum
  refine ⟨hrole, hloaded, hnum, fun h => ?_⟩
  obtain ⟨hcount, hmeta, hepoch, hborn⟩ := hok h
  rw [hnone, Nat.zero_add] at hcount hborn
  refine ⟨⟨hcount.trans hnum.symm, fun i hi => ?_⟩, hmeta⟩
  rw [hborn i (hcount ▸ hi), hepoch, if_neg (Nat.not_lt_zero i)]

theorem attempt_initClient (h : s.Tidy) (hvacant : s.Vacant) (hloaded : s.isInitialized = true)
    (o : LockOutcome) : Attempt (s.initClient o) := by
  unfold initClient
  by_cases hclient : s.isDlockClient = true
  swap
  · rw [if_neg hclient]
    have htidy := h.congr (sameClients_ubsmLockInitSet s true)
    exact ⟨htidy.inv_of_other (Bool.eq_false_iff.mpr hclient), nofun⟩
  split_ifs with hlib
  · exact ⟨h.deInit _, fun _ => hvacant.deInit _⟩
  -- The client library is initialised, and the clients are created in the new epoch.
  have hnone : s.newEpoch.locks.clientCount = 0 := hvacant hclient
  have hspec := initDlockClient_spec hnone o.clientInit rfl
  revert hspec
  generalize s.newEpoch.initDlockClient o.clientInit = made
  obtain ⟨ok, s₁⟩ := made
  rintro ⟨hrole, hinitialized, hnum, hok⟩
  have hpos : 0 < s₁.locks.dlockClientNum := hnum ▸ h.num
  cases ok with
  | false =>
    obtain ⟨hoff, -, hclear⟩ := deInit_cases s₁ o.stopped
    have hcleared := hclear (hrole.trans hclient) (hinitialized.trans hloaded)
    have htidy : (s₁.deInit o.stopped).Tidy :=
      ⟨hcleared.num ▸ hpos, fun name client hin => by simp [hcleared.metaMap] at hin,
        fun _ => .inl hcleared.count⟩
    exact ⟨htidy.inv_of_off hoff, fun _ _ => hcleared.count⟩
  | true =>
    obtain ⟨hcomplete, hmeta⟩ := hok rfl
    have hcomplete' := hcomplete.congr (sameClients_ubsmLockInitSet s₁ true)
    refine ⟨⟨⟨hpos, fun name client hin => ?_, fun _ => .inr hcomplete'⟩, fun _ _ => hcomplete'⟩,
      nofun⟩
    have hserved : s.newEpoch.locks.metaMap name = some client := hmeta ▸ hin
    have hlt := h.served name client hserved
    rw [hvacant hclient] at hlt
    exact absurd hlt (Nat.not_lt_zero client)

theorem loadLibrary_spec (s : LockService D) (o : LockOutcome) :
    SameClients s (s.loadLibrary o).2 ∧ (s.loadLibrary o).2.isUbsmLockInit = s.isUbsmLockInit ∧
      ((s.loadLibrary o).1 = true → (s.loadLibrary o).2.isInitialized = true) := by
  unfold loadLibrary
  split_ifs
  · exact ⟨sameClients_destroyDLockDlopenLib s, rfl, nofun⟩
  · exact ⟨sameClients_destroyDLockDlopenLib s, rfl, nofun⟩
  · exact ⟨⟨rfl, rfl, rfl, rfl, rfl, rfl⟩, rfl, fun _ => rfl⟩

/-- **`Init`** on a node that has no clients, or that is not to create any. -/
theorem attempt_init (h : s.Tidy) (hvacant : s.Vacant) (o : LockOutcome) : Attempt (s.init o) := by
  unfold init
  have hload := loadLibrary_spec (s.ubsmLockInitSet false) o
  revert hload
  generalize (s.ubsmLockInitSet false).loadLibrary o = loading
  obtain ⟨loaded, s₁⟩ := loading
  rintro ⟨hsame, hoff, hloaded⟩
  replace hsame := (sameClients_ubsmLockInitSet s false).trans hsame
  have htidy := h.congr hsame
  have hvacant₁ := hvacant.congr hsame
  cases loaded with
  | false => exact ⟨htidy.inv_of_off hoff, fun _ => hvacant₁⟩
  | true =>
    have hinitialized : s₁.isInitialized = true := hloaded rfl
    simp only [Bool.not_true, Bool.false_eq_true, if_false]
    split_ifs with hserver hstart
    · -- The server does not start.
      have hstart := sameClients_dlockServerInit s₁ o.server
      exact ⟨(htidy.congr hstart).deInit _, fun _ => (hvacant₁.congr hstart).deInit _⟩
    · have hstart : SameClients s₁
          { (s₁.dlockServerInit o.server).2 with isNeedServerDeinit := true } := by
        cases o.server <;> exact ⟨rfl, rfl, rfl, rfl, rfl, rfl⟩
      refine attempt_initClient (htidy.congr hstart) (hvacant₁.congr hstart) ?_ o
      cases o.server <;> exact hinitialized
    · exact attempt_initClient htidy hvacant₁ hinitialized o

theorem clientInv_retryInit (h : s.ClientInv) (hvacant : s.Vacant) (attempt : Nat → LockOutcome)
    (n : Nat) : (s.retryInit attempt n).ClientInv := by
  induction n generalizing s with
  | zero => exact h
  | succ n ih =>
    unfold retryInit
    have hattempt := attempt_init h.toTidy hvacant (attempt n)
    revert hattempt
    generalize s.init (attempt n) = made
    obtain ⟨ok, s₁⟩ := made
    rintro ⟨hinv, hfail⟩
    cases ok with
    | true => exact hinv
    | false => exact ih (hinv.toTidy.deInit _) ((hfail rfl).deInit _)

/-- **`Reinit`** changes no client; it sets the lock flag of a client if every client there
is could reinitialise. -/
theorem clientInv_reinit (h : s.Tidy) (hclients : s.isDlockClient = true → s.locks.clientCount ≠ 0)
    (o : LockOutcome) : (s.reinit o).2.ClientInv ∧ SameClients s (s.reinit o).2 := by
  -- With the flag off nothing is claimed; with the flag on there are clients, so all of them.
  have hflag : ∀ s' : LockService D, SameClients s s' → s'.ClientInv := by
    intro s' hsame
    refine ⟨h.congr hsame, fun _ hclient => ?_⟩
    rcases (h.congr hsame).whole hclient with hnone | hall
    · exact absurd (hsame.count ▸ hnone) (hclients (hsame.role ▸ hclient))
    · exact hall
  suffices hsame : SameClients s (s.reinit o).2 from ⟨hflag _ hsame, hsame⟩
  have hclient : ∀ s' : LockService D, SameClients s' (s'.reinitClient o).2 := by
    intro s'
    unfold reinitClient
    split_ifs
    · exact sameClients_ubsmLockInitSet s' true
    · exact .refl s'
    · exact .refl s'
  unfold reinit
  have hload := (loadLibrary_spec (s.ubsmLockInitSet false) o).1
  revert hload
  generalize (s.ubsmLockInitSet false).loadLibrary o = loading
  obtain ⟨loaded, s₁⟩ := loading
  intro hload
  replace hload := (sameClients_ubsmLockInitSet s false).trans hload
  cases loaded with
  | false => exact hload
  | true =>
    have hserver := hload.trans (sameClients_dlockServerReinit s₁ o)
    simp only [Bool.not_true, Bool.false_eq_true, if_false]
    split_ifs
    · exact hserver
    · exact hserver.trans (hclient _)
    · exact hload.trans (hclient _)

end LockService

/-! ### Lock calls -/

namespace LockState

variable {D : Type} (lib : DlockLib D) {s s₁ s₂ : LockState D}

/-- The flag and the number of clients are the same, and a name is served by its old client or
by another one that exists. -/
structure SameService (s s' : LockState D) : Prop where
  init : s'.isInit = s.isInit
  count : s'.clientCount = s.clientCount
  num : s'.dlockClientNum = s.dlockClientNum
  served : ∀ name client, s'.metaMap name = some client →
    s.metaMap name = some client ∨ client < s.clientCount

theorem SameService.refl (s : LockState D) : SameService s s := ⟨rfl, rfl, rfl, fun _ _ => .inl⟩

theorem SameService.trans (h : SameService s s₁) (h' : SameService s₁ s₂) : SameService s s₂ := by
  refine ⟨h'.init.trans h.init, h'.count.trans h.count, h'.num.trans h.num,
    fun name client hin => ?_⟩
  rcases h'.served name client hin with hold | hlt
  · exact h.served name client hold
  · exact .inr (h.count ▸ hlt)

theorem SameService.of_eq {s' : LockState D} (hinit : s'.isInit = s.isInit)
    (hcount : s'.clientCount = s.clientCount) (hnum : s'.dlockClientNum = s.dlockClientNum)
    (hmeta : s'.metaMap = s.metaMap) : SameService s s' :=
  ⟨hinit, hcount, hnum, fun _ _ hin => .inl (hmeta ▸ hin)⟩

section

variable (s : LockState D) (name : Name)

theorem sameService_tryReleaseLock (lockId : Int) :
    SameService s (tryReleaseLock lib s name lockId) := by
  unfold tryReleaseLock
  cases s.metaMap name with
  | none => exact .refl s
  | some client =>
    refine ⟨rfl, rfl, rfl, fun n c hin => .inl ?_⟩
    have hin' : update s.metaMap name none n = some c := hin
    by_cases hn : n = name
    · simp [hn] at hin'
    · rwa [update_of_ne hn] at hin'

theorem sameService_releaseClientDescRef : SameService s (s.releaseClientDescRef name).2 := by
  obtain ⟨refCount, href⟩ := releaseClientDescRef_eq s name
  rw [href]
  exact .of_eq rfl rfl rfl rfl

theorem sameService_getLock : SameService s (getLock lib s name).2 := by
  unfold getLock
  cases s.metaMap name with
  | some client => exact .of_eq rfl rfl rfl rfl
  | none =>
    unfold getDlockClient
    dsimp only
    by_cases hsize : s.clientIndex.toNat % s.dlockClientNum ≥ s.clientCount
    · rw [if_pos hsize]
      exact .of_eq rfl rfl rfl rfl
    · rw [if_neg hsize]
      dsimp only
      split_ifs with hret
      · exact .of_eq rfl rfl rfl rfl
      · refine ⟨rfl, rfl, rfl, fun n c hin => ?_⟩
        have hin' : update s.metaMap name
            (some (s.clientIndex.toNat % s.dlockClientNum)) n = some c := hin
        by_cases hn : n = name
        · subst hn
          rw [update_self] at hin'
          exact .inr (Option.some.inj hin' ▸ Nat.lt_of_not_le hsize)
        · rw [update_of_ne hn] at hin'
          exact .inl hin'

theorem sameService_tryLock (client : Nat) (isExclusive : Bool) (udsInfo : LockUdsInfo)
    (now : Nat) : SameService s (tryLock lib s name client isExclusive udsInfo now).2 := by
  rcases tryLock_effect lib s name client isExclusive udsInfo now rfl with
    ⟨-, d, heq⟩ | ⟨-, d, validTime, heq⟩
  · rw [heq]
    exact .of_eq rfl rfl rfl rfl
  · rw [heq]
    exact .of_eq rfl rfl rfl rfl

theorem sameService_handleLock (isExclusive : Bool) (udsInfo : LockUdsInfo) (now : Nat) :
    SameService s (handleLock lib s name isExclusive udsInfo now).2 := by
  unfold handleLock
  split_ifs with hready
  · exact .refl s
  have hgot := sameService_getLock lib s name
  revert hgot
  rcases getLock lib s name with ⟨_ | client, s₁⟩
  · exact id
  intro hgot
  have htried := hgot.trans (sameService_tryLock lib s₁ name client isExclusive udsInfo now)
  dsimp only
  cases ((tryLock lib s₁ name client isExclusive udsInfo now).2.dlockClients client).getLockId
      name with
  | none => exact htried
  | some lockId =>
    have hreleased := htried.trans (sameService_releaseClientDescRef _ name)
    split_ifs
    · exact hreleased.trans (sameService_tryReleaseLock lib _ name lockId)
    · exact hreleased
    · exact htried

end

theorem sameService_rel : UnlockRel lib (SameService (D := D)) where
  refl := .refl
  trans := .trans
  aside _ _ _ _ := .of_eq rfl rfl rfl rfl
  release := sameService_tryReleaseLock lib
  forget _ := .of_eq rfl rfl rfl rfl

end LockState

/-! ### Runs -/

namespace LockService

variable {D : Type} (lib : DlockLib D) (localNode : Name) {s s' : LockService D}

/-- What can happen on a node: an election event, a request `RPC_DLOCK_CLIENT_REINIT`, a call
on a lock, or a change inside the library. -/
inductive Action (D : Type)
  | event (p : ListenerParam) (o : LockOutcomes)
  | dLockClientReinit (o : LockOutcome)
  | lock (name : Name) (isExclusive : Bool) (udsInfo : LockUdsInfo) (now : Nat)
  | unlock (name : Name) (udsInfo : LockUdsInfo) (now : Nat)
  | cleanUp (name : Name) (now : Nat)
  | library (d : D)

/-- One action. -/
def step (s : LockService D) : Action D → LockService D
  | .event p o => s.handleElectionEvent localNode p o
  | .dLockClientReinit o => (s.reinit o).2
  | .lock name isExclusive udsInfo now =>
    { s with locks := (s.locks.handleLock lib name isExclusive udsInfo now).2 }
  | .unlock name udsInfo now => { s with locks := (s.locks.handleUnlock lib name udsInfo now).2 }
  | .cleanUp name now => { s with locks := s.locks.cleanUpExpiredLocksForName lib name now }
  | .library d => { s with locks := { s.locks with lib := d } }

/-- When the clients are in order for an action: an event that makes a client start finds no
clients from before, and a client that is asked to reinitialise has clients. -/
def InOrder (s : LockService D) : Action D → Prop
  | .event p _ =>
    (p.event = .becomeVoteNode → s.isUbsmLockInit = false → s.locks.clientCount = 0) ∧
      (p.event = .masterElected → localNode = p.masterId → s.isUbsmLockInit = false →
        s.isDlockClient = true → s.locks.clientCount = 0)
  | .dLockClientReinit _ => s.isDlockClient = true → s.locks.clientCount ≠ 0
  | _ => True

section

variable (h : s.ClientInv)

include h

theorem ClientInv.sameService {locks : LockState D} (hsame : LockState.SameService s.locks locks) :
    ({ s with locks } : LockService D).ClientInv := by
  have hcomplete : s.Complete → ({ s with locks } : LockService D).Complete := fun hall =>
    ⟨hsame.count.trans (hall.count.trans hsame.num.symm), fun i hi =>
      hall.current i (hsame.count ▸ hi)⟩
  refine ⟨⟨hsame.num ▸ h.num, fun name client hin => ?_, fun hclient => ?_⟩,
    fun hinit hclient => ?_⟩
  · show client < locks.clientCount
    rw [hsame.count]
    rcases hsame.served name client hin with hold | hlt
    · exact h.served name client hold
    · exact hlt
  · rcases h.whole hclient with hnone | hall
    · exact .inl (hsame.count.trans hnone)
    · exact .inr (hcomplete hall)
  · exact hcomplete (h.ready (hsame.init.symm.trans hinit) hclient)

theorem clientInv_onDLockDemoted : s.onDLockDemoted.ClientInv := by
  have hdemoted : s.onDLockDemoted.isDlockClient = false ∧
      s.onDLockDemoted.locks = { s.locks with isInit := false } := by
    obtain ⟨server, client, _, _, loaded, _, _, _⟩ := s
    cases server <;> cases client <;> cases loaded <;> exact ⟨rfl, rfl⟩
  obtain ⟨hrole, hlocks⟩ := hdemoted
  refine Tidy.inv_of_other ⟨?_, fun name client hin => ?_, fun hclient => ?_⟩ hrole
  · rw [hlocks]
    exact h.num
  · rw [hlocks] at hin ⊢
    exact h.served name client hin
  · simp [hrole] at hclient

theorem clientInv_retryReinit (hrole : s.isDlockClient = false) (attempt : Nat → LockOutcome)
    (n : Nat) : (s.retryReinit attempt n).ClientInv := by
  induction n generalizing s with
  | zero => exact h
  | succ n ih =>
    unfold retryReinit
    obtain ⟨hinv, hsame⟩ := clientInv_reinit h.toTidy (fun hclient => by simp [hrole] at hclient)
      (attempt n)
    have hrole' := hsame.role.trans hrole
    dsimp only
    split_ifs
    · exact (hinv.toTidy.congr (sameClients_ubsmLockInitSet _ true)).inv_of_other hrole'
    · exact ih hinv hrole'

theorem ClientInv.handleElectionEvent {p : ListenerParam} {o : LockOutcomes}
    (horder : s.InOrder localNode (.event p o)) :
    (s.handleElectionEvent localNode p o).ClientInv := by
  obtain ⟨hvote, helected⟩ := horder
  unfold LockService.handleElectionEvent
  cases hp : p.event with
  | haveJoined =>
    unfold onDLockServerRecovery
    split_ifs
    · exact h
    · have htidy : ({ s with isDlockServer := true, isDlockClient := false } :
          LockService D).Tidy := ⟨h.num, h.served, nofun⟩
      exact clientInv_retryReinit (htidy.inv_of_other rfl) rfl _ _
  | masterElected =>
    unfold onMasterElected
    split_ifs with hlocal hinit
    · exact h
    · exact h
    · have hoff := Bool.eq_false_iff.mpr hinit
      have hsame : SameClients s { s with isDlockServer := true } := ⟨rfl, rfl, rfl, rfl, rfl, rfl⟩
      exact clientInv_retryInit ((h.toTidy.congr hsame).inv_of_off hoff)
        (fun hclient => helected hp (not_not.mp hlocal) hoff hclient) _ _
  | nodeDemoted => exact clientInv_onDLockDemoted h
  | becomeVoteNode =>
    unfold onDLockClientInit
    split_ifs with hinit hmaster
    · exact h
    · exact h
    · have hoff := Bool.eq_false_iff.mpr hinit
      have hnone := hvote hp hoff
      have htidy : ({ s with isDlockServer := false, isDlockClient := true } :
          LockService D).Tidy := ⟨h.num, h.served, fun _ => .inl hnone⟩
      exact clientInv_retryInit (htidy.inv_of_off hoff) (fun _ => hnone) _ _
  | electionStarted | votingCompleted | electionFailed | broadcast => exact h

theorem ClientInv.step {action : Action D} (horder : s.InOrder localNode action) :
    (s.step lib localNode action).ClientInv := by
  cases action with
  | event p o => exact h.handleElectionEvent localNode horder
  | dLockClientReinit o => exact (clientInv_reinit h.toTidy horder o).1
  | lock name isExclusive udsInfo now =>
    exact h.sameService (s.locks.sameService_handleLock lib name isExclusive udsInfo now)
  | unlock name udsInfo now =>
    exact h.sameService ((LockState.sameService_rel lib).handleUnlock s.locks name udsInfo now)
  | cleanUp name now =>
    exact h.sameService
      ((LockState.sameService_rel lib).cleanUpExpiredLocksForName s.locks name now)
  | library d => exact h.sameService (.of_eq rfl rfl rfl rfl)

end

/-- The states of the runs from `s₀` in which the clients are in order for every action. -/
def OrderedReach (s₀ s : LockService D) : Prop :=
  Relation.ReflTransGen (fun s s' => ∃ action : Action D,
    s.InOrder localNode action ∧ s' = s.step lib localNode action) s₀ s

/-- The lock module before the first event: it has no role, no clients and no locks. -/
structure Boot (s : LockService D) : Prop where
  num : 0 < s.locks.dlockClientNum
  role : s.isDlockClient = false
  metaMap : ∀ name, s.locks.metaMap name = none

/-- **A client that is ready has all of its clients.**  The lock flag is set and the node is
configured as the client: there are exactly `dlockClientNum` clients, all created after the
last initialisation or deinitialisation of the client library, every name in `metaMap` is
served by one of them, and `GetDlockClient` returns one of them. -/
structure Ready (s : LockService D) : Prop where
  count : s.locks.clientCount = s.locks.dlockClientNum
  current : ∀ i < s.locks.clientCount, s.born i = s.epoch
  served : ∀ name client, s.locks.metaMap name = some client → client < s.locks.clientCount
  getDlockClient : ∃ client, s.locks.getDlockClient.1 = some client ∧ s.born client = s.epoch

theorem ClientInv.isReady (h : s.ClientInv) (hinit : s.isUbsmLockInit = true)
    (hclient : s.isDlockClient = true) : s.Ready := by
  obtain ⟨hcount, hcurrent⟩ := h.ready hinit hclient
  refine ⟨hcount, hcurrent, h.served, ?_⟩
  have hlt : s.locks.clientIndex.toNat % s.locks.dlockClientNum < s.locks.clientCount := by
    rw [hcount]
    exact Nat.mod_lt _ h.num
  refine ⟨s.locks.clientIndex.toNat % s.locks.dlockClientNum, ?_, hcurrent _ hlt⟩
  exact if_neg (Nat.not_le.mpr hlt)

theorem clientInv_of_orderedReach {s₀ : LockService D} (h₀ : s₀.Boot)
    (hs : OrderedReach lib localNode s₀ s) : s.ClientInv := by
  induction hs with
  | refl =>
    refine Tidy.inv_of_other ⟨h₀.num, fun name client hin => ?_, fun hclient => ?_⟩ h₀.role
    · simp [h₀.metaMap] at hin
    · simp [h₀.role] at hclient
  | tail _ hstep ih =>
    obtain ⟨action, horder, rfl⟩ := hstep
    exact ih.step lib localNode horder

/-- In every run in which an event that starts the client finds no clients from before, and
the client is asked to reinitialise only while it has clients, the lock module is ready
whenever it says so. -/
theorem client_ready {s₀ : LockService D} (h₀ : s₀.Boot) (hs : OrderedReach lib localNode s₀ s)
    (hinit : s.isUbsmLockInit = true) (hclient : s.isDlockClient = true) : s.Ready :=
  (clientInv_of_orderedReach lib localNode h₀ hs).isReady hinit hclient

/-! ### Clients of an earlier epoch, and no clients -/

open LockState (RwHold rwLib)

/-- A node before the first event. -/
def bootNode : LockService (Int → RwHold) := initial fun _ => .free

theorem bootNode_boot : bootNode.Boot := ⟨by decide, rfl, fun _ => rfl⟩

/-- The event that makes node `b` the client of master `a`. -/
def becomeClient (o : LockOutcome) : Action (Int → RwHold) :=
  .event ⟨.becomeVoteNode, [97], [98]⟩ ⟨fun _ => o, true, true⟩

/-- Node `b` becomes the client. -/
theorem client_ready_started :
    (bootNode.step rwLib [98] (becomeClient allWell)).isUbsmLockInit = true ∧
      (bootNode.step rwLib [98] (becomeClient allWell)).Ready := by
  have horder : bootNode.InOrder [98] (becomeClient allWell) :=
    ⟨fun _ _ => rfl, nofun⟩
  exact ⟨rfl, client_ready rwLib [98] bootNode_boot (.single ⟨_, horder, rfl⟩) rfl rfl⟩

/-- A node that is demoted and becomes the client again. -/
def clientAgain : LockService (Int → RwHold) :=
  ((bootNode.step rwLib [98] (becomeClient allWell)).step rwLib [98]
    (.event ⟨.nodeDemoted, [97], [98]⟩ ⟨fun _ => allWell, true, true⟩)).step rwLib [98]
      (becomeClient allWell)

/-- A node whose attempts to become the client have all failed, and that is then asked to
reinitialise. -/
def noClients : LockService (Int → RwHold) :=
  (bootNode.step rwLib [98] (becomeClient { allWell with clientInit := fun _ => none })).step rwLib
    [98] (.dLockClientReinit allWell)

/-- **A client can be ready with clients of an earlier epoch, or with none.**  The demotion
deinitialises the client library and leaves the clients, and the next start adds new ones
behind them: there are 16, and `GetDlockClient` takes turns among the eight old ones.  And a
client without clients reinitialises them all, which sets the lock flag, so that
`GetDlockClient` has none. -/
theorem client_not_ready :
    bootNode.Boot ∧ (clientAgain.isUbsmLockInit = true ∧ clientAgain.isDlockClient = true ∧
        clientAgain.locks.clientCount = 16 ∧ clientAgain.locks.dlockClientNum = 8 ∧
        clientAgain.locks.getDlockClient.1 = some 0 ∧ clientAgain.born 0 = 1 ∧
        clientAgain.epoch = 3) ∧
      noClients.isUbsmLockInit = true ∧ noClients.isDlockClient = true ∧
      noClients.locks.clientCount = 0 ∧ noClients.locks.getDlockClient.1 = none := by
  refine ⟨bootNode_boot, ⟨rfl, rfl, ?_, rfl, rfl, ?_, rfl⟩, rfl, rfl, rfl, rfl⟩
  · decide
  · decide

end LockService
end UbsMem
