import UbsMem.ShmFrames
import Mathlib.Data.Nat.Bitwise
import Mathlib.Logic.Relation

/-! # Who may map a shared memory, and how

`ShmMap` serves a request in one of two ways.  The first request for a name asks
UBSE for the owner and mode of the object, checks the caller's permissions against
them and attaches (`shmMmapInner`).  A request for a name that is attached already
takes the flags of the earlier attach from the manager (`handleExistingShm`).

A history is any sequence of requests with any replies of UBSE.  `CacheInv` is the
invariant that ties the flags in the manager to the process that attached the name;
`shmMap_grants_iff` then says exactly when an answer to a request agrees with the
permissions of the process that sent it, and `exactGrant_iff` when the check itself
gives a caller what the mode bits of its class say.
-/
namespace UbsMem

open Prog hiding ret call

/-! ### Histories -/

/-- The state of the daemon, the user data UBSE stores with each object, and for the
result in the manager's entry of a name the process that attached it and the user
data it was checked against; `none` while the entry has not been filled in. -/
structure MapState (S : Type) where
  world : ShmWorld S
  objects : Name → UbseUserInfo
  attacher : Name → Option (AppContext × UbseUserInfo)

namespace MapState

variable {S : Type} {memory : AttachedShareMemory}

/-- A successful `ShmGetUserData` reports what UBSE stores. -/
def Reports (s : MapState S) : (c : ShmCall) → c.Reply → Prop
  | .shmGetUserData name, r => r.1 = ubsmOk → r.2 = s.objects name
  | _, _ => True

/-- Who attached each name, after a call made for the request of `uds`. -/
def attacherAfter (uds : AppContext) (s : MapState S) :
    (c : ShmCall) → c.Reply → Name → Option (AppContext × UbseUserInfo)
  | .prepareAddShareMemoryInfo name _ _, r =>
    if r = ubsmOk then Function.update s.attacher name none else s.attacher
  | .addFullShareMemoryInfo name _ _, r =>
    if r = ubsmOk then Function.update s.attacher name (some (uds, s.objects name)) else s.attacher
  | _, _ => s.attacher

/-- What a call made for the request of `uds` may do. -/
def sem (rs : ShmRecords S) (mutexOf : Name → Nat) (uds : AppContext) (c : ShmCall)
    (s : MapState S) (r : c.Reply) (s' : MapState S) : Prop :=
  ShmWorld.sem rs mutexOf uds.pid c s.world r s'.world ∧ s.Reports c r ∧
    s'.objects = s.objects ∧ s'.attacher = s.attacherAfter uds c r

/-- **One step of a history**: a request is served from start to end, or UBSE and the
queue of delayed removals change by themselves. -/
inductive Step (rs : ShmRecords S) (mutexOf : Name → Nat) : MapState S → MapState S → Prop
  | map {s s' : MapState S} (req : ShmMapRequest) (uds : AppContext) (res : Int × ShmMapResponse) :
      (shmMap req uds).Runs (sem rs mutexOf uds) s res s' → Step rs mutexOf s s'
  | unmap {s s' : MapState S} (name : Name) (uds : AppContext) (ret : Int) :
      (shmUnmap name uds).Runs (sem rs mutexOf uds) s ret s' → Step rs mutexOf s s'
  | other {s : MapState S} (objects : Name → UbseUserInfo) (monitor : Monitor)
      (attached : Name → Bool) :
      Step rs mutexOf s
        { s with objects, world := { s.world with monitor, attached } }

/-- The states a history can lead to, from a manager without entries. -/
def Reachable (rs : ShmRecords S) (mutexOf : Name → Nat) (s : MapState S) : Prop :=
  ∃ s₀ : MapState S, s₀.world.find = (fun _ => none) ∧
    Relation.ReflTransGen (Step rs mutexOf) s₀ s

/-! ### What the entries hold -/

/-- The flag that the permissions of the attaching process give; an entry that was
never filled in holds 0. -/
def grantedOflag : Option (AppContext × UbseUserInfo) → Int
  | none => 0
  | some (attacher, info) => getMaxOflag (providedPerms attacher info)

/-- **The flag in every entry is the one of the process that attached the name.** -/
def CacheInv (s : MapState S) : Prop :=
  ∀ name memory, s.world.find name = some memory →
    memory.result.openFlag = grantedOflag (s.attacher name)

variable {s s' : MapState S} {name : Name}

section

variable (h : CacheInv s) (hatt : s'.attacher = s.attacher)

include h hatt

theorem CacheInv.of_entries (hentries : ∀ name memory', s'.world.find name = some memory' →
      ∃ memory, s.world.find name = some memory ∧ memory'.result = memory.result) :
    CacheInv s' := by
  intro name memory' hfind'
  obtain ⟨memory, hfind, hresult⟩ := hentries name memory' hfind'
  rw [hresult, hatt]
  exact h name memory hfind

theorem CacheInv.of_update {memory' : AttachedShareMemory} (hfind : s.world.find name = some memory)
    (hupd : s'.world.find = Function.update s.world.find name (some memory'))
    (hresult : memory'.result = memory.result) : CacheInv s' := by
  refine h.of_entries hatt fun n m hm => ?_
  rw [hupd] at hm
  by_cases hn : n = name
  · subst hn
    obtain rfl : memory' = m := by simpa using hm
    exact ⟨memory, hfind, hresult⟩
  · exact ⟨m, by simpa [hn] using hm, rfl⟩

theorem CacheInv.of_erase (hupd : s'.world.find = Function.update s.world.find name none) :
    CacheInv s' := by
  refine h.of_entries hatt fun n m hm => ?_
  rw [hupd] at hm
  by_cases hn : n = name
  · subst hn
    simp at hm
  · exact ⟨m, by simpa [hn] using hm, rfl⟩

theorem CacheInv.of_find_eq (hfind : s'.world.find = s.world.find) : CacheInv s' :=
  h.of_entries hatt fun _ m hm => ⟨m, hfind ▸ hm, rfl⟩

end

/-- The entry of one name is replaced by one whose flag is that of its attacher. -/
theorem CacheInv.of_filled (h : CacheInv s) {attacher : Option (AppContext × UbseUserInfo)}
    (hatt : s'.attacher = Function.update s.attacher name attacher)
    (hupd : s'.world.find = Function.update s.world.find name (some memory))
    (hflag : memory.result.openFlag = grantedOflag attacher) : CacheInv s' := by
  intro n m hm
  rw [hupd] at hm
  rw [hatt]
  by_cases hn : n = name
  · subst hn
    obtain rfl : memory = m := by simpa using hm
    simpa using hflag
  · simpa [hn] using h n m (by simpa [hn] using hm)

/-- The calls that fill in an entry do so with the flag of the caller. -/
def FillsOwn (uds : AppContext) (objects : Name → UbseUserInfo) : ShmCall → Prop
  | .addFullShareMemoryInfo name _ result =>
    result.openFlag = getMaxOflag (providedPerms uds (objects name))
  | _ => True

/-- **Every call keeps the invariant.** -/
theorem CacheInv.call {rs : ShmRecords S} {mutexOf : Name → Nat} {uds : AppContext} {c : ShmCall}
    {r : c.Reply} (hsem : sem rs mutexOf uds c s r s') (hc : FillsOwn uds s.objects c)
    (h : CacheInv s) : CacheInv s' := by
  obtain ⟨hworld, -, -, hatt⟩ := hsem
  have hfind' : ∀ {m}, s'.world = { s.world with manager := m } → s'.world.find = m.find := by
    intro m hw
    rw [hw]
    rfl
  cases c with
  | addMemoryUserInfo name pid =>
    obtain ⟨-, hw⟩ := hworld
    rcases ShmManager.addMemoryUserInfo_cases rs s.world.manager name pid rfl with
      ⟨-, hfind⟩ | ⟨memory, hold, -, hfind⟩
    · exact h.of_find_eq hatt ((hfind' hw).trans hfind)
    · exact h.of_update hatt hold ((hfind' hw).trans hfind) rfl
  | removeMemoryUserInfo name pid =>
    obtain ⟨-, hw⟩ := hworld
    rcases ShmManager.removeMemoryUserInfo_cases rs s.world.manager name pid rfl with
      ⟨-, hfind⟩ | ⟨memory, hold, -, -, hfind⟩
    · exact h.of_find_eq hatt ((hfind' hw).trans hfind)
    · exact h.of_update hatt hold ((hfind' hw).trans hfind) rfl
  | prepareAddShareMemoryInfo name size pid =>
    obtain ⟨hr, hw⟩ := hworld
    simp only [attacherAfter] at hatt
    rcases ShmManager.prepareAddShareMemoryInfo_cases rs s.world.manager name pid size rfl with
      ⟨hret, hfind⟩ | ⟨-, hret, hfind⟩
    · rw [← hr] at hret
      rw [if_neg hret] at hatt
      exact h.of_find_eq hatt ((hfind' hw).trans hfind)
    · rw [← hr] at hret
      rw [if_pos hret] at hatt
      exact h.of_filled hatt ((hfind' hw).trans hfind) rfl
  | addFullShareMemoryInfo name pid result =>
    obtain ⟨hr, hw⟩ := hworld
    simp only [attacherAfter] at hatt
    rcases ShmManager.addFullShareMemoryInfo_cases rs s.world.manager name pid result rfl with
      ⟨hret, hfind⟩ | ⟨memory, -, hret, hfind⟩
    · rw [← hr] at hret
      rw [if_neg hret] at hatt
      exact h.of_find_eq hatt ((hfind' hw).trans hfind)
    · rw [← hr] at hret
      rw [if_pos hret] at hatt
      exact h.of_filled hatt ((hfind' hw).trans hfind) hc
  | updateShareMemoryRecordState name state =>
    obtain ⟨-, hw⟩ := hworld
    rcases ShmManager.updateShareMemoryRecordState_cases rs s.world.manager name state rfl with
      ⟨-, hfind⟩ | ⟨memory, hold, -, hfind⟩
    · exact h.of_find_eq hatt ((hfind' hw).trans hfind)
    · exact h.of_update hatt hold ((hfind' hw).trans hfind) rfl
  | removeMemoryInfo name force =>
    obtain ⟨-, hw⟩ := hworld
    rcases ShmManager.removeMemoryInfo_cases rs s.world.manager name force rfl with
      ⟨-, hfind⟩ | ⟨memory, hold, -, ⟨-, hfind⟩ | ⟨-, hfind⟩⟩
    · exact h.of_find_eq hatt ((hfind' hw).trans hfind)
    · exact h.of_update hatt hold ((hfind' hw).trans hfind) rfl
    · exact h.of_erase hatt ((hfind' hw).trans hfind)
  | _ => exact h.of_find_eq hatt (funext fun _ => find_of_sem hworld nofun)

/-! ### The handlers -/

section Handlers

variable {rs : ShmRecords S} {mutexOf : Name → Nat} {uds : AppContext}
  {objects : Name → UbseUserInfo} {s : MapState S}

/-- What a handler keeps from start to end. -/
def Kept (objects : Name → UbseUserInfo) (s : MapState S) : Prop :=
  CacheInv s ∧ s.objects = objects

theorem Kept.call {c : ShmCall} {r : c.Reply} (h : Kept objects s)
    (hsem : sem rs mutexOf uds c s r s') (hc : FillsOwn uds objects c) : Kept objects s' :=
  ⟨h.1.call hsem (h.2.symm ▸ hc), hsem.2.2.1.trans h.2⟩

/-- A program that fills in no entry with a foreign flag keeps what a handler keeps. -/
theorem Kept.wp {α : Type} {p : ShmProg α} (hp : p.All (FillsOwn uds objects))
    (h : Kept objects s) : p.wp (sem rs mutexOf uds) (fun _ t => Kept objects t) s :=
  hp.wp (fun _ _ _ _ hc hsem hs => hs.call hsem hc) h

section

variable (objects : Name → UbseUserInfo) (name : Name)

theorem shmUnmapLocked_fillsOwn : (shmUnmapLocked name uds).All (FillsOwn uds objects) := by
  simp only [shmUnmapLocked, ask_eq, call_bind]
  refine ⟨trivial, fun found => ?_⟩
  cases found with
  | none => trivial
  | some memory => simp [shmUnMapInner, FillsOwn]

theorem shmUnmap_fillsOwn : (shmUnmap name uds).All (FillsOwn uds objects) :=
  ⟨trivial, fun _ => (shmUnmapLocked_fillsOwn objects name).bind fun _ =>
    ⟨trivial, fun _ => trivial⟩⟩

theorem rollBackAttachShareMemory_fillsOwn :
    (rollBackAttachShareMemory name).All (FillsOwn uds objects) := by
  simp [rollBackAttachShareMemory, FillsOwn]

end

/-- A successful answer is what the caller's own permissions give. -/
def GrantsOwn (objects : Name → UbseUserInfo) (req : ShmMapRequest) (uds : AppContext)
    (rsp : ShmMapResponse) : Prop :=
  (checkPermission uds (objects req.name) req.prot).1 = ubsmOk ∧
    rsp.oflag = getMaxOflag (providedPerms uds (objects req.name))

theorem shmMmapInner_wp (req : ShmMapRequest) (hs : Kept objects s) :
    (shmMmapInner req uds).wp (sem rs mutexOf uds)
      (fun res t => Kept objects t ∧ (res.1 = ubsmOk → GrantsOwn objects req uds res.2)) s := by
  simp only [shmMmapInner, ask_eq, call_bind, ret_bind, wp_call]
  rintro ⟨rt, info⟩ s₁ hsem₁
  have hk₁ := hs.call hsem₁ trivial
  split_ifs with hrt hperm
  · exact ⟨hk₁, fun h => absurd h hrt⟩
  · exact ⟨hk₁, fun h => absurd h hperm⟩
  · obtain rfl : info = objects req.name := by
      rw [← hs.2]
      exact hsem₁.2.1 (not_not.mp hrt)
    intro hr s₂ hsem₂
    have hk₂ := hk₁.call hsem₂ trivial
    dsimp only
    split_ifs with hprepare
    · exact ⟨hk₂, fun h => absurd h hprepare⟩
    · rintro ⟨hr', desc⟩ s₃ hsem₃
      have hk₃ := hk₂.call hsem₃ trivial
      dsimp only
      split_ifs with hattach
      · intro _ s₄ hsem₄
        exact ⟨hk₃.call hsem₄ trivial, fun h => absurd h hattach⟩
      · intro hr'' s₄ hsem₄
        have hk₄ := hk₃.call hsem₄ rfl
        dsimp only
        split_ifs with hfull
        · rw [wp_bind]
          refine wp_mono (fun _ t ht => ?_) (hk₄.wp (rollBackAttachShareMemory_fillsOwn _ _))
          exact ⟨ht, fun h => absurd h hfull⟩
        · exact ⟨hk₄, fun _ => ⟨not_not.mp hperm, rfl⟩⟩

/-- The name is attached, and requests for it take the fast path. -/
def Attached (s : MapState S) (name : Name) (memory : AttachedShareMemory) : Prop :=
  s.world.find name = some memory ∧ memory.state = .finish

/-- What a successful answer of `ShmMap` rests on: the entry of the name as it was
before the request, or the permissions of the caller. -/
def Answered (s : MapState S) (req : ShmMapRequest) (uds : AppContext) (rsp : ShmMapResponse) :
    Prop :=
  (∃ memory, s.Attached req.name memory ∧ rsp.oflag = memory.result.openFlag) ∨
    (∀ memory, ¬ s.Attached req.name memory) ∧ GrantsOwn s.objects req uds rsp

/-- `ShmMap` with the mutex held; `s₀` is the state before the request. -/
theorem shmMapLocked_wp (req : ShmMapRequest) {s₀ : MapState S} (hs : Kept s₀.objects s)
    (hfind : s.world.find = s₀.world.find) :
    (shmMapLocked req uds).wp (sem rs mutexOf uds)
      (fun res t => Kept s₀.objects t ∧ (res.1 = ubsmOk → s₀.Answered req uds res.2)) s := by
  simp only [shmMapLocked, ask_eq, call_bind, ret_bind]
  intro found s₁ hsem₁
  have hk₁ := hs.call hsem₁ trivial
  have hfound : found = s₀.world.find req.name := by
    rw [← hfind]
    exact hsem₁.1.1
  -- Off the fast path the answer is that of a first attach.
  have hslow : (∀ memory, ¬ s₀.Attached req.name memory) → ∀ s₂, Kept s₀.objects s₂ →
      (shmMmapInner req uds).wp (sem rs mutexOf uds)
        (fun res t => Kept s₀.objects t ∧ (res.1 = ubsmOk → s₀.Answered req uds res.2)) s₂ := by
    intro hno s₂ hk₂
    refine wp_mono (fun res t ht => ⟨ht.1, fun hok => .inr ⟨hno, ht.2 hok⟩⟩)
      (shmMmapInner_wp req hk₂)
  cases found with
  | none => exact hslow (fun memory h => by simp [h.1] at hfound) s₁ hk₁
  | some memory =>
    have hno : memory.state ≠ .finish → ∀ memory', ¬ s₀.Attached req.name memory' := by
      intro hstate memory' h
      rw [h.1] at hfound
      cases hfound
      exact hstate h.2
    dsimp only
    split_ifs with hfinish hdeleted
    · simp only [handleExistingShm, ask_eq, call_bind, ret_bind]
      split_ifs with hpid
      · exact ⟨hk₁, fun h => absurd h mxmErrShmAlreadyExist_ne⟩
      · intro ret s₂ hsem₂
        have hk₂ := hk₁.call hsem₂ trivial
        dsimp only
        split_ifs with hret
        · exact ⟨hk₂, fun h => absurd h hret⟩
        · exact ⟨hk₂, fun _ => .inl ⟨memory, ⟨hfound.symm, hfinish⟩, rfl⟩⟩
    · intro ret s₂ hsem₂
      have hk₂ := hk₁.call hsem₂ trivial
      dsimp only
      split_ifs with hret
      · exact ⟨hk₂, fun h => absurd h hret⟩
      · exact hslow (hno hfinish) s₂ hk₂
    · exact hslow (hno hfinish) s₁ hk₁

/-- `ShmMap` from start to end. -/
theorem shmMap_wp (req : ShmMapRequest) (hs : CacheInv s) : (shmMap req uds).wp (sem rs mutexOf uds)
      (fun res t => Kept s.objects t ∧ (res.1 = ubsmOk → s.Answered req uds res.2)) s := by
  simp only [shmMap, ask_eq, call_bind, ret_bind, wp_call]
  intro busy s₁ hsem₁
  have hk₁ : Kept s.objects s₁ := Kept.call ⟨hs, rfl⟩ hsem₁ trivial
  split_ifs with hbusy
  · exact ⟨hk₁, fun h => absurd h mxmErrNameBusy_ne⟩
  · intro _ s₂ hsem₂
    have hk₂ := hk₁.call hsem₂ trivial
    have hfind : s₂.world.find = s.world.find := by
      rw [hsem₂.1.2, ← hsem₁.1.2]
      rfl
    rw [wp_bind]
    refine wp_mono (fun res t ht => ?_) (shmMapLocked_wp req hk₂ hfind)
    intro _ s₃ hsem₃
    exact ⟨ht.1.call hsem₃ trivial, ht.2⟩

end Handlers

/-! ### Whole histories -/

section Histories

variable {rs : ShmRecords S} {mutexOf : Name → Nat}

theorem CacheInv.step (h : CacheInv s) (hstep : Step rs mutexOf s s') : CacheInv s' := by
  cases hstep with
  | map req uds res hrun => exact (hrun.of_wp (shmMap_wp req h)).1.1
  | unmap name uds ret hrun =>
    have hkept : Kept s.objects s := ⟨h, rfl⟩
    exact (hrun.of_wp (hkept.wp (shmUnmap_fillsOwn _ name))).1
  | other objects monitor attached => exact h

theorem CacheInv.of_reachable {s : MapState S} (hs : Reachable rs mutexOf s) : CacheInv s := by
  obtain ⟨s₀, hempty, hsteps⟩ := hs
  induction hsteps with
  | refl =>
    intro name memory hfind
    simp [hempty] at hfind
  | tail _ hstep ih => exact ih.step hstep

/-- **The requests whose answer agrees with the permissions of the caller**: the name
is not attached, or the caller passes the check that is not made, with the flag of
the process that attached the name. -/
def SharesGrant (s : MapState S) (req : ShmMapRequest) (uds : AppContext) : Prop :=
  ∀ memory, s.Attached req.name memory →
    (checkPermission uds (s.objects req.name) req.prot).1 = ubsmOk ∧
      getMaxOflag (providedPerms uds (s.objects req.name)) = grantedOflag (s.attacher req.name)

/-- **When a successful `ShmMap` gives the caller what its own permissions allow.** -/
theorem shmMap_grants_iff {s s' : MapState S} (hs : Reachable rs mutexOf s)
    {req : ShmMapRequest} {uds : AppContext} {rsp : ShmMapResponse}
    (hrun : (shmMap req uds).Runs (sem rs mutexOf uds) s (ubsmOk, rsp) s') :
    GrantsOwn s.objects req uds rsp ↔ s.SharesGrant req uds := by
  have hinv := CacheInv.of_reachable hs
  rcases (hrun.of_wp (shmMap_wp req hinv)).2 rfl with ⟨memory, hatt, hflag⟩ | ⟨hno, hown⟩
  · have hcache := hinv req.name memory hatt.1
    constructor
    · rintro ⟨hcheck, hoflag⟩ memory' -
      exact ⟨hcheck, by rw [← hoflag, hflag, hcache]⟩
    · intro h
      obtain ⟨hcheck, hoflag⟩ := h memory hatt
      exact ⟨hcheck, by rw [hflag, hcache, hoflag]⟩
  · exact ⟨fun _ memory h => absurd h (hno memory), fun _ => hown⟩

end Histories

/-! ### A request that is not checked -/

/-- Evaluate the calls of a request against a UBSE that acknowledges everything. -/
def answer (uds : AppContext) (c : ShmCall) (s : MapState Unit) :
    Option (c.Reply × MapState Unit) :=
  (s.world.answer acceptAll (fun _ => 0) s.objects uds.pid c).map fun res =>
    (res.1, ⟨res.2, s.objects, s.attacherAfter uds c res.1⟩)

theorem sem_of_answer (uds : AppContext) (c : ShmCall) (s : MapState Unit) (r : c.Reply)
    (s' : MapState Unit) (h : answer uds c s = some (r, s')) :
    sem acceptAll (fun _ => 0) uds c s r s' := by
  obtain ⟨⟨r', w⟩, hres, heq⟩ := Option.map_eq_some_iff.mp h
  cases heq
  refine ⟨ShmWorld.sem_of_answer hres, ?_, rfl, rfl⟩
  cases c with
  | shmGetUserData name =>
    cases hres
    exact fun _ => rfl
  | _ => trivial

/-- A daemon without entries; every object belongs to user 1000, with mode 600. -/
def sampleStart : MapState Unit :=
  ⟨ShmWorld.start, fun _ => ⟨1000, 1000, 1, 0o600, 0, 0⟩, fun _ => none⟩

/-- A request to map the object named `a` for reading and writing. -/
def sampleRequest : ShmMapRequest := ⟨[97], 4096, 0o600, protRead ||| protWrite⟩

/-- The daemon after a process of the owner has mapped the object. -/
def ownerMapped : MapState Unit :=
  (((shmMap sampleRequest ⟨10, 1000, 1000⟩).exec (answer ⟨10, 1000, 1000⟩) sampleStart).map
    (·.2)).getD sampleStart

theorem reachable_ownerMapped : Reachable acceptAll (fun _ => 0) ownerMapped := by
  have howner := Prog.Runs.of_exec (s := sampleStart) (p := shmMap sampleRequest ⟨10, 1000, 1000⟩)
    (sem_of_answer ⟨10, 1000, 1000⟩) rfl
  exact ⟨sampleStart, rfl, .single (.map _ _ _ howner)⟩

/-- Another process of the owner maps the object, without a check of its own. -/
theorem shmMap_grants_iff_owner : ∃ rsp s',
    (∃ memory, ownerMapped.Attached sampleRequest.name memory) ∧
      (shmMap sampleRequest ⟨11, 1000, 1000⟩).Runs (sem acceptAll (fun _ => 0) ⟨11, 1000, 1000⟩)
        ownerMapped (ubsmOk, rsp) s' ∧
      GrantsOwn ownerMapped.objects sampleRequest ⟨11, 1000, 1000⟩ rsp := by
  have hrun := Prog.Runs.of_exec (s := ownerMapped) (p := shmMap sampleRequest ⟨11, 1000, 1000⟩)
    (sem_of_answer ⟨11, 1000, 1000⟩) rfl
  refine ⟨_, _, ⟨_, rfl, rfl⟩, hrun, (shmMap_grants_iff reachable_ownerMapped hrun).mpr ?_⟩
  exact fun _ _ => ⟨by decide, by decide⟩

/-- Once the owner has mapped the object, a process of another user and group gets it
for reading and writing, although the mode gives that process no permission. -/
theorem shmMap_fast_path_unchecked : ∃ (s s' : MapState Unit) (rsp : ShmMapResponse),
    Reachable acceptAll (fun _ => 0) s ∧
      (shmMap sampleRequest ⟨20, 2000, 2000⟩).Runs (sem acceptAll (fun _ => 0) ⟨20, 2000, 2000⟩)
        s (ubsmOk, rsp) s' ∧
      rsp.oflag = 2 ∧
      (checkPermission ⟨20, 2000, 2000⟩ (s.objects sampleRequest.name) sampleRequest.prot).1 =
        mxmErrShmPermissionDenied := by
  refine ⟨_, _, _, reachable_ownerMapped, Prog.Runs.of_exec (sem_of_answer ⟨20, 2000, 2000⟩)
    rfl, ?_, ?_⟩
  · decide
  · decide

end MapState

/-! ### What the check grants -/

/-- The mode bits of one class of users. -/
structure ClassBits where
  read : Bool
  write : Bool
  exec : Bool

/-- The bits of the class a caller falls in: the owner, else the group, else the others. -/
def classBits (caller : AppContext) (info : UbseUserInfo) : ClassBits :=
  let shift := if caller.uid = info.uid then 6 else if caller.gid = info.gid then 3 else 0
  { read := info.mode.toNat.testBit (shift + 2)
    write := info.mode.toNat.testBit (shift + 1)
    exec := info.mode.toNat.testBit shift }

/-- The class has a bit, and every requested one. -/
def ClassBits.Give (b : ClassBits) (prot : UInt32) : Prop :=
  (b.read || b.write || b.exec) = true ∧ (prot &&& protRead ≠ 0 → b.read = true) ∧
    (prot &&& protWrite ≠ 0 → b.write = true) ∧ (prot &&& protExec ≠ 0 → b.exec = true)

/-- **The check gives a caller what its class has**: the request is granted exactly when
the bits of the class give it, and the flag for `open` reads and writes only with the
bits for it.  `O_RDONLY` is 0, `O_WRONLY` is 1, `O_RDWR` is 2. -/
structure ExactGrant (caller : AppContext) (info : UbseUserInfo) (prot : UInt32) : Prop where
  granted : (checkPermission caller info prot).1 = ubsmOk ↔ (classBits caller info).Give prot
  read : (checkPermission caller info prot).2 ∈ ([0, 2] : List Int) →
    (classBits caller info).read = true
  write : (checkPermission caller info prot).2 ∈ ([1, 2] : List Int) →
    (classBits caller info).write = true

theorem and_two_pow_ne_zero (mode : UInt32) {i : Nat} (hi : i < 32) :
    mode &&& UInt32.ofNat (2 ^ i) ≠ 0 ↔ mode.toNat.testBit i = true := by
  have hpow : 2 ^ i < 2 ^ 32 := Nat.pow_lt_pow_right (by omega) hi
  rw [ne_eq, ← UInt32.toNat_inj, UInt32.toNat_and, UInt32.toNat_ofNat', Nat.mod_eq_of_lt hpow,
    Nat.and_two_pow]
  cases mode.toNat.testBit i <;> simp

theorem providedPerms_eq (caller : AppContext) (info : UbseUserInfo) : providedPerms caller info =
      (if (classBits caller info).read then protRead else 0) |||
        (if (classBits caller info).write then protWrite else 0) |||
        (if (classBits caller info).exec then protExec else 0) := by
  have hbits : ∀ i, i < 30 → permsOfBits info.mode (UInt32.ofNat (2 ^ (i + 2)))
      (UInt32.ofNat (2 ^ (i + 1))) (UInt32.ofNat (2 ^ i)) =
      (if info.mode.toNat.testBit (i + 2) then protRead else 0) |||
        (if info.mode.toNat.testBit (i + 1) then protWrite else 0) |||
        (if info.mode.toNat.testBit i then protExec else 0) := by
    intro i hi
    simp only [permsOfBits, and_two_pow_ne_zero info.mode (show i + 2 < 32 by omega),
      and_two_pow_ne_zero info.mode (show i + 1 < 32 by omega),
      and_two_pow_ne_zero info.mode (show i < 32 by omega)]
  unfold providedPerms calculateProvidedPermissions classBits
  by_cases howner : caller.uid = info.uid
  · simp only [if_pos howner]
    exact hbits 6 (by decide)
  · by_cases hgroup : caller.gid = info.gid
    · simp only [if_neg howner, if_pos hgroup]
      exact hbits 3 (by decide)
    · simp only [if_neg howner, if_neg hgroup]
      exact hbits 0 (by decide)

/-- **Exactly where the check is exact**: `GetMaxOflag` has no flag for a class without
the bit for reading.  Such a class must have no bit at all, or only the one for writing
while the request is for more. -/
theorem exactGrant_iff (caller : AppContext) (info : UbseUserInfo) (prot : UInt32) :
    ExactGrant caller info prot ↔
      (classBits caller info).read = true ∨ (classBits caller info).exec = false ∧
        ((classBits caller info).write = true →
          prot &&& protRead ≠ 0 ∨ prot &&& protExec ≠ 0) := by
  have hcheck : ExactGrant caller info prot ↔
      ((checkPermission caller info prot).1 = ubsmOk ↔ (classBits caller info).Give prot) ∧
      ((checkPermission caller info prot).2 ∈ ([0, 2] : List Int) →
        (classBits caller info).read = true) ∧
      ((checkPermission caller info prot).2 ∈ ([1, 2] : List Int) →
        (classBits caller info).write = true) :=
    ⟨fun h => ⟨h.1, h.2, h.3⟩, fun h => ⟨h.1, h.2.1, h.2.2⟩⟩
  -- What is asked for and what the class has are six bits; the rest is a table.
  have hasked : ∀ bit : UInt32, ∃ asked : Bool, prot &&& bit ≠ 0 ↔ asked = true := fun bit =>
    ⟨decide (prot &&& bit ≠ 0), by simp⟩
  obtain ⟨askedRead, hread⟩ := hasked protRead
  obtain ⟨askedWrite, hwrite⟩ := hasked protWrite
  obtain ⟨askedExec, hexec⟩ := hasked protExec
  rw [hcheck]
  simp only [checkPermission, providedPerms_eq, ClassBits.Give, hread, hwrite, hexec]
  generalize classBits caller info = b
  obtain ⟨read, write, exec⟩ := b
  clear hread hwrite hexec hcheck hasked
  revert read write exec askedRead askedWrite askedExec
  decide

/-- **The check is not exact**: with a group bit for executing only, a member of the
group gets the object opened for reading and writing; with an owner bit for writing
only, the owner may not write. -/
theorem permission_not_exact :
    checkPermission ⟨20, 2000, 1000⟩ ⟨1000, 1000, 1, 0o010, 0, 0⟩ protExec = (ubsmOk, 2) ∧
      ¬ExactGrant ⟨20, 2000, 1000⟩ ⟨1000, 1000, 1, 0o010, 0, 0⟩ protExec ∧
      checkPermission ⟨10, 1000, 1000⟩ ⟨1000, 1000, 1, 0o200, 0, 0⟩ protWrite =
        (mxmErrShmPermissionDenied, -1) ∧
      ¬ExactGrant ⟨10, 1000, 1000⟩ ⟨1000, 1000, 1, 0o200, 0, 0⟩ protWrite := by
  refine ⟨by decide, fun h => ?_, by decide, fun h => ?_⟩
  · exact absurd (h.read (by decide)) (by decide)
  · exact absurd (h.granted.mpr ⟨by decide, by decide, by decide, by decide⟩) (by decide)

end UbsMem
