import UbsMem.AttachRecovery
import UbsMem.ShmBooks

/-! # What a failed `ShmMap` leaves behind

`ShmMap` makes an entry and an import record, attaches the memory, and completes the entry with
a reference for the process.  On an error it takes back what it has done.  No failed call
registers the process, whatever UBSE replies and the store refuses.  But what the call has
added can stay (`failed_map_leaves_attachment`): when the table of references is full,
`AddFullShareMemoryInfo` deletes the import record itself, and `RollBackAttachShareMemory` then
stops at the record that it does not find; when the detach of the roll-back fails, the entry is
marked finished; and an attach that UBSE reports as failed can have attached all the same.

Apart from these a name that was not attached has no entry, no record and no attachment after a
failed call, or its removal is queued (`failed_map_leaves_nothing`).
-/
namespace UbsMem

open Option Function
open Prog hiding ret call

section Failure

variable {S : Type} {imports : S → Name → Option ShareMemImportInfo}
  {refs : S → Name → UInt32 → Nat} {valid : Nat → Name → Prop} {ok : S → Prop}
  {rs : ShmRecords S} {fits : Name → Prop} {refRoom : Nat → Name → S → Prop}
  {resultRoom : Name → ShareMemImportResult → S → Prop} {mutexOf : Name → Nat} {t : Nat}
  {c : ShmCall} {s s' : ShmWorld S} {r : c.Reply} {n : Name}

/-! ### The process -/

/-- The replies with which a process has been registered. -/
def ShmCall.Registers : (c : ShmCall) → c.Reply → Prop
  | .addMemoryUserInfo _ _, r => r = ubsmOk
  | .addFullShareMemoryInfo _ _ _, r => r = ubsmOk
  | _, _ => False

variable (imports refs ok) in
/-- The store stays sound, and no process gets registered for the name, nor a reference. -/
def NoNewUser (n : Name) (s s' : ShmWorld S) : Prop :=
  ok s.manager.store → ok s'.manager.store ∧ (∀ pid ∈ s'.users n, pid ∈ s.users n) ∧
    ∀ p, refs s'.manager.store n p ≤ refs s.manager.store n p

theorem NoNewUser.refl (s : ShmWorld S) : NoNewUser refs ok n s s :=
  fun hok => ⟨hok, fun _ h => h, fun _ => le_rfl⟩

theorem NoNewUser.trans {s₁ s₂ : ShmWorld S} (h : NoNewUser refs ok n s s₁)
    (h' : NoNewUser refs ok n s₁ s₂) : NoNewUser refs ok n s s₂ := by
  intro hok
  obtain ⟨hok₁, husers₁, hrefs₁⟩ := h hok
  obtain ⟨hok₂, husers₂, hrefs₂⟩ := h' hok₁
  exact ⟨hok₂, fun p hp => husers₁ p (husers₂ p hp), fun p => (hrefs₂ p).trans (hrefs₁ p)⟩

open ShmManager

theorem refs_delShmRefRecords (hlaw : rs.Lawful imports refs fits ok) (name : Name)
    (pids : List Nat) {store : S} (hok : ok store) (n : Name) (p : UInt32) :
    refs (delShmRefRecords rs name pids store).2 n p ≤ refs store n p := by
  have hone : ∀ pid (store : S), ok store → ok (rs.delShmRefRecord pid name store).2 ∧
      refs (rs.delShmRefRecord pid name store).2 n p ≤ refs store n p := by
    intro pid store hok
    obtain ⟨hok', -, ⟨-, hsame⟩ | ⟨-, hnew⟩⟩ := hlaw.delRef pid name store hok
    · exact ⟨hok', by rw [hsame]⟩
    · refine ⟨hok', ?_⟩
      rw [hnew, setRefs_apply]
      split_ifs with heq
      · rw [heq.1, heq.2]
        exact Nat.sub_le _ _
      · exact le_rfl
  induction pids generalizing store with
  | nil => exact le_rfl
  | cons pid pids ih =>
    obtain ⟨hok', hle⟩ := hone pid store hok
    unfold delShmRefRecords
    dsimp only
    split_ifs
    · exact hle
    · exact (ih hok').trans hle

variable {m : ShmManager S} {req : ShmMapRequest} {uds : AppContext}

theorem NoNewUser.of_same (hsound : ok s.manager.store → ok m.store)
    (h : SameEntry imports refs s.manager m n) (hs : s'.manager = m) :
    NoNewUser refs ok n s s' := by
  subst hs
  refine fun hok => ⟨hsound hok, fun p hp => ?_, fun p => by rw [h.count]⟩
  rw [users_of_find h.find] at hp
  exact hp

theorem NoNewUser.of_users (hsound : ok s.manager.store → ok m.store)
    (hsub : ∀ pid ∈ m.users n, pid ∈ s.users n)
    (hrefs : ok s.manager.store → ∀ p, refs m.store n p ≤ refs s.manager.store n p) :
    NoNewUser refs ok n s { s with manager := m } :=
  fun hok => ⟨hsound hok, hsub, hrefs hok⟩

theorem manager_users_of_some {memory : AttachedShareMemory} (h : m.find n = some memory) :
    m.users n = memory.pids := by
  unfold ShmManager.users
  rw [h]

section

variable (hlaw : rs.Lawful imports refs fits ok)

include hlaw

theorem refs_prepareAddShareMemoryInfo (hok : ok m.store) (hfits : fits n) (size pid : Nat) :
    refs (prepareAddShareMemoryInfo rs n size pid m).2.store = refs m.store := by
  obtain ⟨-, hcount, -⟩ := hlaw.input n size pid m.store hfits hok
  unfold prepareAddShareMemoryInfo
  split
  · rfl
  · dsimp only
    split_ifs <;> exact hcount

theorem refs_addFullShareMemoryInfo (hok : ok m.store) {pid : Nat} {result : ShareMemImportResult}
    (hfail : (addFullShareMemoryInfo rs n pid result m).1 ≠ ubsmOk) :
    refs (addFullShareMemoryInfo rs n pid result m).2.store = refs m.store := by
  obtain ⟨hok', hcount, -⟩ := hlaw.result n result m.store hok
  obtain ⟨hok'', -, hadd⟩ := hlaw.addRef pid n _ hok'
  obtain ⟨-, ⟨hdelete, -⟩, -⟩ := hlaw.delete n _ hok''
  unfold addFullShareMemoryInfo at hfail ⊢
  split
  · rfl
  · next memory hsome =>
    rw [hsome] at hfail
    dsimp only at hfail ⊢
    split_ifs at hfail ⊢ with hret href
    · exact hcount
    · -- the reference is refused, and the import record is deleted
      obtain ⟨-, hsame⟩ := hadd.resolve_right fun h => href h.1
      exact hdelete.trans (hsame.trans hcount)
    · exact absurd rfl hfail

theorem refs_removeMemoryInfo (hok : ok m.store) (force : Bool) (p : UInt32) :
    refs (removeMemoryInfo rs n force m).2.store n p ≤ refs m.store n p := by
  have hdelete : ∀ store, ok store →
      refs (rs.delShmImportRecord n store).2 n p = refs store n p := by
    intro store hok
    rw [(hlaw.delete n store hok).2.1.1]
  unfold removeMemoryInfo
  split
  · exact le_rfl
  · next memory _ =>
    have hdrop := refs_delShmRefRecords hlaw n memory.pids hok n p
    have hsound : ok (delShmRefRecords rs n memory.pids m.store).2 :=
      (managerStep_of_changes hlaw hok (delShmRefRecords_edits memory.pids)).sound
    by_cases hforced : (force && decide (memory.state = .deleted)) = true
    · simp only [hforced, if_true]
      split_ifs
      · exact hdrop
      · exact hdrop
      · exact (hdelete _ hsound).trans_le hdrop
      · exact (hdelete _ hsound).trans_le hdrop
    · simp only [hforced, if_false, Bool.not_true, Bool.false_eq_true]
      split_ifs
      · exact le_rfl
      · exact (hdelete _ hok).le
      · exact (hdelete _ hok).le

/-- **A call registers no process unless it says so.** -/
theorem noNewUser_of_sem
    (hfits : ∀ name size pid, c = .prepareAddShareMemoryInfo name size pid → fits name)
    (hnot : ¬c.Registers r) (h : ShmWorld.sem rs mutexOf t c s r s') :
    NoNewUser refs ok n s s' := by
  intro hok
  have hcells := cells_of_sem hlaw hok hfits h
  have hsame : SameEntry imports refs s.manager s.manager n := .refl s.manager n
  refine (?_ : NoNewUser refs ok n s s') hok
  by_cases hcell : c.cell = some n
  swap
  · exact .of_same (fun _ => hcells.1) (hcells.2 n hcell).entry rfl
  cases c with
  | addMemoryUserInfo name pid =>
    obtain rfl : name = n := some.inj hcell
    obtain ⟨rfl, rfl⟩ := h
    rcases addMemoryUserInfo_at name hlaw hok pid with ⟨-, hsame⟩ | ⟨hret, -⟩
    · exact .of_same (fun _ => hcells.1) hsame rfl
    · exact absurd hret hnot
  | removeMemoryUserInfo name pid =>
    obtain rfl : name = n := some.inj hcell
    obtain ⟨-, rfl⟩ := h
    rcases removeMemoryUserInfo_at name hlaw hok pid with
      ⟨-, hsame⟩ | ⟨-, memory, hfind, -, hfind', -, hcount⟩
    · exact .of_same (fun _ => hcells.1) hsame rfl
    · refine .of_users (fun _ => hcells.1) (fun p hp => ?_) fun _ p => ?_
      · rw [manager_users_of_some hfind'] at hp
        rw [users_of_some hfind]
        exact List.mem_of_mem_erase hp
      · rw [hcount, update_apply]
        split_ifs with heq
        · rw [heq]
          exact Nat.sub_le _ _
        · exact le_rfl
  | prepareAddShareMemoryInfo name size pid =>
    obtain rfl : name = n := some.inj hcell
    obtain ⟨-, rfl⟩ := h
    rcases prepareAddShareMemoryInfo_at hlaw hok (hfits name size pid rfl) size pid with
      ⟨-, hsame⟩ | ⟨-, -, hheld⟩
    · exact .of_same (fun _ => hcells.1) hsame rfl
    · refine .of_users (fun _ => hcells.1) (fun p hp => ?_) fun hok p => ?_
      · rw [manager_users_of_some hheld.find] at hp
        exact absurd hp List.not_mem_nil
      · rw [refs_prepareAddShareMemoryInfo hlaw hok (hfits name size pid rfl)]
  | addFullShareMemoryInfo name pid result =>
    obtain ⟨rfl, rfl⟩ := h
    obtain ⟨-, hfind⟩ | ⟨-, -, hret, -⟩ :=
      addFullShareMemoryInfo_cases rs s.manager name pid result rfl
    · refine .of_users (fun _ => hcells.1) (fun p hp => ?_) fun hok p => ?_
      · unfold ShmManager.users at hp
        rw [hfind] at hp
        exact hp
      · rw [refs_addFullShareMemoryInfo hlaw hok hnot]
    · exact absurd hret hnot
  | updateShareMemoryRecordState name state =>
    obtain rfl : name = n := some.inj hcell
    obtain ⟨-, rfl⟩ := h
    rcases updateShareMemoryRecordState_at name hlaw hok state with
      ⟨-, hsame⟩ | ⟨-, memory, r, hfind, -, hfind', -, hcount⟩
    · exact .of_same (fun _ => hcells.1) hsame rfl
    · refine .of_users (fun _ => hcells.1) (fun p hp => ?_) fun _ p => ?_
      · rw [manager_users_of_some hfind'] at hp
        rw [users_of_some hfind]
        exact hp
      · rw [hcount]
  | removeMemoryInfo name force =>
    obtain rfl : name = n := some.inj hcell
    obtain ⟨-, rfl⟩ := h
    refine .of_users (fun _ => hcells.1) (fun p hp => ?_)
      fun hok p => refs_removeMemoryInfo hlaw hok force p
    unfold ShmManager.users at hp
    obtain ⟨-, hfind⟩ | ⟨memory, hsome, -, ⟨-, hfind⟩ | ⟨-, hfind⟩⟩ :=
      removeMemoryInfo_cases rs s.manager name force rfl
    · rw [hfind] at hp
      exact hp
    · rw [hfind, update_self] at hp
      exact absurd hp List.not_mem_nil
    · rw [hfind, update_self] at hp
      exact absurd hp List.not_mem_nil
  | shmAttach name info =>
    obtain ⟨now, attached, -, rfl⟩ := h
    exact .of_same (fun hok => hok) hsame rfl
  | shmDetach name =>
    obtain ⟨attached, -, rfl⟩ := h
    exact .of_same (fun hok => hok) hsame rfl
  | _ => cases hcell

end

section

variable (req : ShmMapRequest) (uds : AppContext)

/-- `ShmMap` returns success once it has registered the process. -/
theorem commits_shmMmapInner :
    (shmMmapInner req uds).Commits ShmCall.Registers fun res => res.1 = ubsmOk := by
  have hroll : ∀ (name : Name) (res : Int × ShmMapResponse),
      (rollBackAttachShareMemory name >>= fun _ => .ret res : ShmProg _).Commits
        ShmCall.Registers fun res => res.1 = ubsmOk := by
    intro name res
    refine commits_of_all (Prog.All.bind ?_ fun _ => trivial)
    simp [rollBackAttachShareMemory, ShmCall.Registers]
  simp only [shmMmapInner, ask_eq, call_bind, ret_bind]
  rintro ⟨rt, info⟩
  refine ⟨fun h => h.elim, ?_⟩
  dsimp only
  split_ifs
  · trivial
  · trivial
  refine fun hr => ⟨fun h => h.elim, ?_⟩
  dsimp only
  split_ifs
  · trivial
  rintro ⟨hr, desc⟩
  refine ⟨fun h => h.elim, ?_⟩
  dsimp only
  split_ifs
  · exact fun _ => ⟨fun h => h.elim, trivial⟩
  refine fun hr => ⟨fun hdone => ?_, ?_⟩
  · have hzero : ¬hr ≠ (0 : Int) := not_not.mpr hdone
    dsimp only
    rw [if_neg hzero]
    exact rfl
  · dsimp only
    split_ifs
    · exact hroll _ _
    · trivial

theorem commits_handleExistingShm (memory : AttachedShareMemory) :
    (handleExistingShm req uds memory).Commits ShmCall.Registers fun res => res.1 = ubsmOk := by
  simp only [handleExistingShm, ask_eq, call_bind, ret_bind]
  split_ifs
  · trivial
  · refine fun ret => ⟨fun hdone => ?_, ?_⟩
    · have hzero : ¬ret ≠ ubsmOk := not_not.mpr hdone
      dsimp only
      rw [if_neg hzero]
      exact rfl
    · dsimp only
      split_ifs <;> trivial

theorem commits_shmMap : (shmMap req uds).Commits ShmCall.Registers fun res => res.1 = ubsmOk := by
  have hlocked : (shmMapLocked req uds).Commits ShmCall.Registers fun res => res.1 = ubsmOk := by
    simp only [shmMapLocked, ask_eq, call_bind, ret_bind]
    refine fun found => ⟨fun h => h.elim, ?_⟩
    cases found with
    | none => exact commits_shmMmapInner req uds
    | some memory =>
      dsimp only
      split_ifs
      · exact commits_handleExistingShm req uds memory
      · refine fun ret => ⟨fun h => h.elim, ?_⟩
        dsimp only
        split_ifs
        · trivial
        · exact commits_shmMmapInner req uds
      · exact commits_shmMmapInner req uds
  simp only [shmMap, ask_eq, call_bind, ret_bind]
  refine fun busy => ⟨fun h => h.elim, ?_⟩
  dsimp only
  split_ifs
  · trivial
  · refine fun _ => ⟨fun h => h.elim, ?_⟩
    refine hlocked.bind (fun res hres _ _ => hres) fun res => ?_
    exact fun _ => ⟨fun h => h.elim, trivial⟩

/-- The name that `ShmMap` makes a record for. -/
theorem all_prepares_shmMap (hfits : fits req.name) :
    (shmMap req uds).All fun c =>
      ∀ name size pid, c = .prepareAddShareMemoryInfo name size pid → fits name := by
  have hroll : ∀ res : Int × ShmMapResponse,
      (rollBackAttachShareMemory req.name >>= fun _ => .ret res : ShmProg _).All fun c =>
        ∀ name size pid, c = .prepareAddShareMemoryInfo name size pid → fits name := by
    intro res
    refine Prog.All.bind ?_ fun _ => trivial
    simp [rollBackAttachShareMemory]
  have hinner : (shmMmapInner req uds).All fun c =>
      ∀ name size pid, c = .prepareAddShareMemoryInfo name size pid → fits name := by
    simp only [shmMmapInner]
    simp [hfits]
    intros
    exact hroll _
  have hlocked : (shmMapLocked req uds).All fun c =>
      ∀ name size pid, c = .prepareAddShareMemoryInfo name size pid → fits name := by
    simp only [shmMapLocked, ask_eq, call_bind, ret_bind]
    refine ⟨by simp, fun found => ?_⟩
    cases found with
    | none => exact hinner
    | some memory =>
      dsimp only
      split_ifs
      · simp [handleExistingShm]
      · simp only [all_call, all_ite]
        exact ⟨by simp, fun ret => ⟨fun _ => trivial, fun _ => hinner⟩⟩
      · exact hinner
  simp only [shmMap, ask_eq, call_bind, ret_bind, all_call, all_ite]
  refine ⟨by simp, fun busy => ⟨fun _ => trivial, fun _ => ⟨by simp, fun _ => ?_⟩⟩⟩
  exact hlocked.bind fun res => ⟨by simp, fun _ => trivial⟩

end

/-- **A failed call registers no process.** -/
theorem failed_map_no_user (hlaw : rs.Lawful imports refs fits ok) (hfits : fits req.name)
    {res : Int × ShmMapResponse}
    (hrun : Prog.Runs (ShmWorld.sem rs mutexOf t) (shmMap req uds) s res s')
    (hfail : res.1 ≠ ubsmOk) : NoNewUser refs ok n s s' := by
  refine hrun.of_wp (Q := fun res s' => ¬res.1 = ubsmOk → NoNewUser refs ok n s s') ?_ hfail
  exact (commits_shmMap req uds).wp .refl (fun _ _ _ => .trans) (fun c s r s' hc hnot hsem =>
    noNewUser_of_sem hlaw hc hnot hsem) (all_prepares_shmMap req uds hfits) s

/-! ### The name -/

/-- The answers with which a roll-back is complete: an attach that is refused has not attached,
unless it timed out; a detach succeeds, or there was nothing to detach; and when the result of an
attach is recorded there is room for the reference, or the result is refused. -/
def ShmCall.RollsBack (rs : ShmRecords S) (refRoom : Nat → Name → S → Prop) :
    (c : ShmCall) → ShmWorld S → c.Reply → ShmWorld S → Prop
  | .shmAttach name _, s, r, s' =>
    r.1 ≠ ubsmOk → r.1 ≠ ubsErrTimedOut → s'.attached name = s.attached name
  | .shmDetach name, _, r, s' =>
    (r = ubsmOk ∨ r = mxmErrUbseNotAttach) ∧ s'.attached name = false
  | .addFullShareMemoryInfo name pid result, s, _, _ =>
    refRoom pid name s.manager.store ∨ (rs.addShmImportResult name result s.manager.store).1 ≠ 0
  | _, _, _, _ => True

/-- What each call does when roll-backs are complete. -/
def rollBackSem (rs : ShmRecords S) (mutexOf : Name → Nat) (refRoom : Nat → Name → S → Prop)
    (t : Nat) (c : ShmCall) (s : ShmWorld S) (r : c.Reply) (s' : ShmWorld S) : Prop :=
  ShmWorld.sem rs mutexOf t c s r s' ∧ c.RollsBack rs refRoom s r s'

/-- What each call does, with the verdict whether the roll-backs have been complete. -/
abbrev judgedSem (rs : ShmRecords S) (mutexOf : Name → Nat) (refRoom : Nat → Name → S → Prop)
    (t : Nat) : (c : ShmCall) → ShmWorld S × Prop → c.Reply → ShmWorld S × Prop → Prop :=
  judged (ShmWorld.sem rs mutexOf t) (ShmCall.RollsBack rs refRoom)

variable (imports) in
/-- UBSE has not attached the name, which has neither an entry nor a record. -/
def Absent (n : Name) (s : ShmWorld S) : Prop :=
  s.attached n = false ∧ Unlisted imports s.manager n

variable (imports refs valid) in
/-- The name is not attached: it is absent, or all that there is of it is an entry, with its
record, for a memory that has been deleted. -/
def Unattached (n : Name) (s : ShmWorld S) : Prop :=
  s.attached n = false ∧ (Unlisted imports s.manager n ∨
    ∃ memory, Tallied imports refs valid s.manager n memory ∧ memory.state = .deleted)

variable (imports) in
/-- Nothing is left of the name, or its removal is queued. -/
def LeavesNothing (n : Name) (s : ShmWorld S) : Prop :=
  Absent imports n s ∨ s.monitor.getDelayRemoveRecord n = true

theorem LeavesNothing.absent (h : LeavesNothing imports n s)
    (hquiet : s.monitor.getDelayRemoveRecord n = false) : Absent imports n s :=
  h.resolve_right fun hqueued => absurd (hquiet.symm.trans hqueued) nofun

theorem queued_of_timedOut {m : Monitor} (now : Nat) (name : Name) (info : UbseUserInfo) :
    (m.addDelayRemoveRecord (ShmWorld.attachTimeOutKey now name info)).getDelayRemoveRecord name =
    true := by
  rw [Monitor.getDelayRemoveRecord_iff]
  by_cases hnew : ∀ y ∈ m.delayedRemoveKeysByName, name ≠ y.name
  · exact ⟨_, Monitor.mem_addDelayRemoveRecord_byName.mpr (.inr ⟨rfl, hnew⟩), rfl⟩
  · -- another removal of the name is queued already
    push Not at hnew
    obtain ⟨y, hy, hname⟩ := hnew
    exact ⟨y, Monitor.mem_addDelayRemoveRecord_byName.mpr (.inl hy), hname.symm⟩

/-- A name with an entry has something left of it, as long as no removal is queued. -/
theorem not_leavesNothing_of_find {memory : AttachedShareMemory}
    (hquiet : s.monitor.getDelayRemoveRecord n = false) (h : s.manager.find n = some memory) :
    ¬LeavesNothing imports n s :=
  fun hleft => absurd (h.symm.trans (hleft.absent hquiet).2.find) nofun

section

variable (hlaw : rs.Lawful imports refs fits ok) (hok : ok s.manager.store)
  (hquiet : s.monitor.getDelayRemoveRecord n = false)

include hlaw hok hquiet

/-- **The roll-back takes away an entry without users** just if the memory gets detached. -/
theorem wp_rollBackAttachShareMemory {memory : AttachedShareMemory}
    (h : Tallied imports refs valid s.manager n memory) (hpids : memory.pids = []) :
    (rollBackAttachShareMemory n).wp (judgedSem rs mutexOf refRoom t)
      (fun _ y => LeavesNothing imports n y.1 ↔ y.2) (s, True) := by
  simp only [rollBackAttachShareMemory, ask_eq, call_bind, ret_bind]
  refine wp_judged_call fun ret s₁ hsem₁ => ⟨fun _ => ?_, fun hnot => absurd trivial hnot⟩
  have hok₁ := (cells_of_sem hlaw hok (fun _ _ _ hne => by cases hne) hsem₁).1
  obtain ⟨hret₁, rfl⟩ := hsem₁
  obtain ⟨hmarked, h₁⟩ := h.mark hlaw hok .preDel
  have hzero : ¬ret ≠ (0 : Int) := not_not.mpr (hret₁.trans hmarked)
  rw [if_neg hzero]
  refine wp_judged_call fun ret s₂ hsem₂ => ?_
  obtain ⟨attached, -, rfl⟩ := hsem₂
  constructor
  · rintro ⟨hdone, hdetached⟩
    have hdone' : ¬(ret ≠ (0 : Int) ∧ ret ≠ mxmErrUbseNotAttach) :=
      fun hne => hdone.elim hne.1 hne.2
    dsimp only
    rw [if_neg hdone']
    refine wp_judged_call fun ret s₃ hsem₃ => ⟨fun _ => ?_, fun hnot => absurd trivial hnot⟩
    obtain ⟨-, rfl⟩ := hsem₃
    exact iff_of_true (.inl ⟨hdetached, (h₁.removeUnused hlaw hok₁ hpids).2⟩) trivial
  · intro hnot
    refine wp_judged_of_not ?_
    dsimp only
    split_ifs with hrefused
    · -- the detach is refused, and the entry stays
      rintro ret' s₃ ⟨-, rfl⟩
      exact not_leavesNothing_of_find hquiet (h₁.mark hlaw hok₁ .finish).2.find
    · -- the entry is removed, and the memory is still attached
      rintro ret' s₃ ⟨-, rfl⟩ hleft
      refine hnot ⟨?_, (hleft.absent hquiet).1⟩
      by_contra hne
      push Not at hne
      exact hrefused hne

/-- **Without its record the roll-back stops at once**, and the entry stays. -/
theorem wp_rollBack_stops {memory : AttachedShareMemory} (hfind : s.manager.find n = some memory)
    (hgone : imports s.manager.store n = none) :
    (rollBackAttachShareMemory n).wp (ShmWorld.sem rs mutexOf t)
      (fun _ s' => ¬LeavesNothing imports n s') s := by
  simp only [rollBackAttachShareMemory, ask_eq, call_bind, ret_bind]
  rintro ret s₁ ⟨rfl, rfl⟩
  rcases updateShareMemoryRecordState_at n hlaw hok .preDel with ⟨hne, hsame⟩ | ⟨-, _, r, -, hr, -⟩
  · dsimp only
    rw [if_pos (show _ ≠ (0 : Int) from hne)]
    exact not_leavesNothing_of_find hquiet (hsame.find.trans hfind)
  · exact absurd (hgone.symm.trans hr) nofun

end

section

variable (hlaw : rs.Lawful imports refs fits ok) (haccept : rs.Accepts imports refRoom resultRoom)
  (htakes : rs.TakesBack refs ok valid refRoom) (hfits : fits req.name) (hpid : uds.pid < 2 ^ 32)
  (hok : ok s.manager.store)

include hlaw haccept htakes hfits hpid hok

/-- **A failed attach leaves nothing of an absent name** just if the roll-backs are complete. -/
theorem wp_shmMmapInner_leaves (hquiet : s.monitor.getDelayRemoveRecord req.name = false)
    (h : Absent imports req.name s) :
    (shmMmapInner req uds).wp (judgedSem rs mutexOf refRoom t)
      (fun res y => res.1 ≠ ubsmOk → (LeavesNothing imports req.name y.1 ↔ y.2)) (s, True) := by
  simp only [shmMmapInner, ask_eq, call_bind, ret_bind]
  refine wp_judged_call fun data s₁ hsem₁ => ⟨fun _ => ?_, fun hnot => absurd trivial hnot⟩
  obtain ⟨rt, info⟩ := data
  obtain rfl : s₁ = s := hsem₁
  dsimp only
  split_ifs with hdata hperm
  · exact fun _ => iff_of_true (.inl h) trivial
  · exact fun _ => iff_of_true (.inl h) trivial
  refine wp_judged_call fun hr s₂ hsem₂ => ⟨fun _ => ?_, fun hnot => absurd trivial hnot⟩
  have hok₂ := (cells_of_sem hlaw hok (fun _ _ _ heq => by cases heq; exact hfits) hsem₂).1
  obtain ⟨hret₂, rfl⟩ := hsem₂
  have hprepare : _ ∨ _ ∧ Tallied imports refs valid _ _ _ :=
    h.2.prepare hlaw hok hfits req.size uds.pid
  rcases hprepare with ⟨hne, hsame⟩ | ⟨heq, hprepared⟩
  · have hfail : hr ≠ (0 : Int) := fun hzero => hne (hret₂.symm.trans hzero)
    rw [if_pos hfail]
    exact fun _ => iff_of_true (.inl ⟨h.1, h.2.of_same hsame⟩) trivial
  have hzero : ¬hr ≠ (0 : Int) := not_not.mpr (hret₂.trans heq)
  rw [if_neg hzero]
  refine wp_judged_call fun reply s₃ hsem₃ => ?_
  obtain ⟨hr, desc⟩ := reply
  obtain ⟨now, attached, hattached, rfl⟩ := hsem₃
  dsimp only
  by_cases hattach : hr ≠ (0 : Int)
  · -- the entry without users is removed
    have hgone := (hprepared.removeUnused hlaw hok₂ rfl).2
    rw [if_pos hattach]
    constructor
    · intro hrefused
      refine wp_judged_call fun ret s₄ hsem₄ => ⟨fun _ _ => ?_, fun hnot => absurd trivial hnot⟩
      obtain ⟨-, rfl⟩ := hsem₄
      refine iff_of_true ?_ trivial
      by_cases htime : hr = ubsErrTimedOut
      · refine .inr ?_
        rw [if_pos htime]
        exact queued_of_timedOut now req.name _
      · exact .inl ⟨(hrefused hattach htime).trans h.1, hgone⟩
    · intro hnot
      refine wp_mono (fun _ _ hverdict _ => hverdict) (wp_judged_of_not ?_)
      rintro ret s₄ ⟨-, rfl⟩ hleft
      refine hnot fun _ htime => ?_
      rw [if_neg htime] at hleft
      exact (hleft.absent hquiet).1.trans h.1.symm
  rw [if_neg hattach]
  have htime : ¬hr = ubsErrTimedOut := by
    rw [not_not.mp hattach]
    decide
  rw [if_neg htime]
  refine ⟨fun _ => ?_, fun hnot => absurd (fun hne => absurd hne hattach) hnot⟩
  refine wp_judged_call fun hr s₄ hsem₄ => ?_
  obtain ⟨hret₄, rfl⟩ := hsem₄
  constructor
  · intro hroom
    dsimp only
    rcases hprepared.full hlaw haccept htakes hok₂ hpid rfl hroom with ⟨hne, hsame⟩ | ⟨heq, -⟩
    · have hfail : hr ≠ (0 : Int) := fun hzero => hne (hret₄.symm.trans hzero)
      rw [if_pos hfail, wp_bind]
      refine wp_mono (fun _ y hverdict _ => hverdict)
        (wp_rollBackAttachShareMemory hlaw ?_ hquiet (hprepared.of_same hsame) rfl)
      exact (managerStep_of_changes hlaw hok₂ (addFullShareMemoryInfo_edits uds.pid _)).sound
    · have hzero : ¬hr ≠ (0 : Int) := not_not.mpr (hret₄.trans heq)
      rw [if_neg hzero]
      exact fun hne => absurd rfl hne
  · intro hnot
    obtain ⟨-, hresult⟩ := not_or.mp hnot
    dsimp only
    split_ifs with hfail
    · -- the reference is refused, and the record is deleted before the roll-back
      rw [wp_bind]
      have hrefused : (ShmManager.addFullShareMemoryInfo rs req.name uds.pid _ _).1 ≠ ubsmOk :=
        hret₄ ▸ hfail
      have hstuck := hprepared.unreferenced hlaw hok₂ rfl (not_not.mp hresult) hrefused
      refine wp_mono (fun _ y hverdict _ => hverdict) (wp_judged_of_not
        (wp_rollBack_stops hlaw ?_ hquiet hstuck.1 hstuck.2))
      exact (managerStep_of_changes hlaw hok₂ (addFullShareMemoryInfo_edits uds.pid _)).sound
    · exact fun hne => absurd rfl hne

/-- **A failed `ShmMap` leaves nothing of a name that was not attached** just if the roll-backs are
complete. -/
theorem wp_shmMap_leaves (h : Unattached imports refs valid req.name s) :
    (shmMap req uds).wp (judgedSem rs mutexOf refRoom t)
      (fun res y => res.1 ≠ ubsmOk → (LeavesNothing imports req.name y.1 ↔ y.2)) (s, True) := by
  obtain ⟨hdetached, hlisted⟩ := h
  simp only [shmMap, ask_eq, call_bind, ret_bind]
  refine wp_judged_call fun busy s₁ hsem₁ => ⟨fun _ => ?_, fun hnot => absurd trivial hnot⟩
  obtain ⟨hbusy, rfl⟩ := hsem₁
  split_ifs with hqueued
  · exact fun _ => iff_of_true (.inr (hbusy.symm.trans hqueued)) trivial
  have hquiet : s₁.monitor.getDelayRemoveRecord req.name = false :=
    hbusy.symm.trans (Bool.eq_false_iff.mpr hqueued)
  refine wp_judged_call fun _ s₂ hsem₂ => ⟨fun _ => ?_, fun hnot => absurd trivial hnot⟩
  obtain ⟨-, rfl⟩ := hsem₂
  rw [wp_bind]
  refine wp_mono (fun res y hres => ?_) (?_ : Prog.wp _ (shmMapLocked req uds)
    (fun res y => res.1 ≠ ubsmOk → (LeavesNothing imports req.name y.1 ↔ y.2)) _)
  · -- the release of the mutex changes nothing of the name
    rintro _ z ⟨hsem, hz⟩
    obtain ⟨s₃, b₃⟩ := z
    obtain rfl : s₃ = { y.1 with locks := update y.1.locks (mutexOf req.name) none } := hsem
    obtain rfl : b₃ = y.2 := hz.trans (and_true _)
    exact hres
  simp only [shmMapLocked, ask_eq, call_bind, ret_bind]
  refine wp_judged_call fun found s₃ hsem₃ => ⟨fun _ => ?_, fun hnot => absurd trivial hnot⟩
  obtain ⟨hfound, rfl⟩ := hsem₃
  rcases hlisted with hunlisted | ⟨memory, htallied, hstate⟩
  · obtain rfl : found = none := hfound.trans hunlisted.find
    exact wp_shmMmapInner_leaves hlaw haccept htakes hfits hpid hok hquiet ⟨hdetached, hunlisted⟩
  · obtain rfl : found = some memory := hfound.trans htallied.find
    dsimp only
    rw [if_neg (by rw [hstate]; decide), if_pos hstate, htallied.name]
    refine wp_judged_call fun ret s₄ hsem₄ => ⟨fun _ => ?_, fun hnot => absurd trivial hnot⟩
    obtain ⟨hret, rfl⟩ := hsem₄
    obtain ⟨hremoved, hunlisted⟩ := htallied.removeDeleted hlaw htakes hok hstate
    have hzero : ¬ret ≠ (0 : Int) := not_not.mpr (hret.trans hremoved)
    dsimp only
    rw [if_neg hzero]
    exact wp_shmMmapInner_leaves hlaw haccept htakes hfits hpid
      (managerStep_of_changes hlaw hok (removeMemoryInfo_edits true)).sound hquiet
      ⟨hdetached, hunlisted⟩

end

end Failure

/-- **What a failed `ShmMap` leaves behind.**  Whatever UBSE replies and the store refuses, no
process gets registered and no reference is added; and nothing is left of a name that was not
attached, or its removal is queued, just if the roll-backs are complete. -/
theorem failed_map_leaves_nothing (config : StoreConfig) (mutexOf : Name → Nat) (t : Nat)
    (req : ShmMapRequest) (uds : AppContext) (s : ShmWorld RecordStore)
    (hok : StoreSound config s.manager.store) (hname : NameOk req.name) (hpid : uds.pid < 2 ^ 32)
    (res : Int × ShmMapResponse) (s' : ShmWorld RecordStore)
    (hrun : Prog.Runs (ShmWorld.sem (storeShmRecords config) mutexOf t) (shmMap req uds) s res s')
    (hfail : res.1 ≠ ubsmOk) :
    (∀ n, (∀ pid ∈ s'.users n, pid ∈ s.users n) ∧ ∀ p,
        listShmRefRecordNameF s'.manager.store n p ≤ listShmRefRecordNameF s.manager.store n p) ∧
    (Unattached importRecord listShmRefRecordNameF RefValid req.name s →
      (LeavesNothing importRecord req.name s' ↔
        Prog.Runs (rollBackSem (storeShmRecords config) mutexOf RefRoom t) (shmMap req uds) s res
        s')) := by
  have hlaw := storeShmRecords_sound config
  refine ⟨fun n => (failed_map_no_user hlaw hname hrun hfail hok).2, fun hstart => ?_⟩
  exact hrun.iff_of_wp_judged hfail (wp_shmMap_leaves hlaw (storeShmRecords_accepts config)
    (storeShmRecords_takesBack config) hname hpid hok hstart)

/-! ### Examples of runs -/

/-- What UBSE replies to an attach and to a detach, and whether an attach that it refuses leaves
the memory attached. -/
structure ShmReplies where
  attach : Int × AttachDesc
  leaves : Bool
  detach : Int

/-- The calls of a process on a small store, with the replies of UBSE given. -/
def ShmReplies.answer (u : ShmReplies) (t : Nat) (c : ShmCall) (s : ShmWorld RecordStore) :
    Option (c.Reply × ShmWorld RecordStore) :=
  match c with
  | .shmAttach name info => some (u.attach,
    { s with
      monitor := if u.attach.1 = ubsErrTimedOut then
          s.monitor.addDelayRemoveRecord (ShmWorld.attachTimeOutKey 0 name info)
        else s.monitor
      attached := update s.attached name
        (decide (u.attach.1 = ubsmOk) || u.leaves || s.attached name) })
  | .shmDetach name => some (u.detach,
    { s with
      attached := update s.attached name
        (!decide (u.detach = ubsmOk) && s.attached name) })
  | c => ShmWorld.answer smallRecords (fun _ => 0) sampleInfo t c s

theorem ShmReplies.sem_of_answer {u : ShmReplies} {t : Nat} {c : ShmCall}
    {s s' : ShmWorld RecordStore} {r : c.Reply} (h : u.answer t c s = some (r, s')) :
    ShmWorld.sem smallRecords (fun _ => 0) t c s r s' := by
  cases c with
  | shmAttach name info =>
    cases h
    refine ⟨0, _, ?_, rfl⟩
    split_ifs with hret
    · simp [hret]
    · cases u.leaves <;> simp [hret]
  | shmDetach name =>
    cases h
    refine ⟨_, ?_, rfl⟩
    split_ifs with hret
    · simp [hret]
    · simp [hret]
  | _ => exact @ShmWorld.sem_of_answer _ _ _ sampleInfo _ _ _ _ _ h

/-- UBSE attaches the memory and names no memory ids. -/
def ShmReplies.noIds (detach : Int) : ShmReplies :=
  ⟨(ubsmOk, ⟨4096, 4096, [], false⟩), false, detach⟩

/-- The result of an attach is refused, and the roll-back detaches the memory. -/
theorem failed_map_leaves_nothing_rolled : ∃ res s',
    Prog.Runs (rollBackSem smallRecords (fun _ => 0) RefRoom 0) (shmMap mapA ⟨10, 0, 0⟩) smallWorld
      res s' ∧
    res.1 ≠ ubsmOk ∧ LeavesNothing importRecord mapA.name s' := by
  have hrun : ((shmMap mapA ⟨10, 0, 0⟩).exec ((ShmReplies.noIds ubsmOk).answer 0) smallWorld).map
      (fun x => (decide (x.1.1 ≠ ubsmOk), x.2.attached mapA.name, x.2.manager.find mapA.name,
        importRecord x.2.manager.store mapA.name)) = some (true, false, none, none) := by
    decide +kernel
  obtain ⟨⟨res, s'⟩, hexec, hfacts⟩ := map_eq_some_iff.mp hrun
  obtain ⟨hret, hrest⟩ := Prod.mk.inj hfacts
  obtain ⟨hdetached, hrest⟩ := Prod.mk.inj hrest
  obtain ⟨hfind, hrecord⟩ := Prod.mk.inj hrest
  have hsem : ∀ (c : ShmCall) (s : ShmWorld RecordStore) (r : c.Reply) (s' : ShmWorld RecordStore),
      (ShmReplies.noIds ubsmOk).answer 0 c s = some (r, s') →
      ShmWorld.sem smallRecords (fun _ => 0) 0 c s r s' :=
    fun _ _ _ _ h => ShmReplies.sem_of_answer h
  have hruns := Prog.Runs.of_exec hsem hexec
  have hfail : res.1 ≠ ubsmOk := of_decide_eq_true hret
  have hleft : LeavesNothing importRecord mapA.name s' := .inl ⟨hdetached, hfind, hrecord⟩
  refine ⟨res, s', ?_, hfail, hleft⟩
  refine ((failed_map_leaves_nothing smallStoreConfig (fun _ => 0) 0 mapA ⟨10, 0, 0⟩ smallWorld
    (storeSound_start _ _) ⟨by simp [mapA], by simp [mapA]⟩ (by decide) res s' hruns hfail).2 ?_).mp
    hleft
  exact ⟨rfl, .inl ⟨rfl, by decide +kernel⟩⟩

/-- Process `pid` maps the object `name`, with the replies of UBSE given. -/
def mapWith (u : ShmReplies) (pid : Nat) (name : Name) (s : ShmWorld RecordStore) :
    Option ((Int × ShmMapResponse) × ShmWorld RecordStore) :=
  (shmMap { mapA with name := name } ⟨pid, 0, 0⟩).exec (u.answer 0) s

/-- UBSE attaches and detaches what it is asked to. -/
def ShmReplies.willing : ShmReplies := ⟨(ubsmOk, ⟨4096, 4096, [1], false⟩), false, ubsmOk⟩

/-- The daemon after processes 10 and 11 have mapped `a`: the table of references is full. -/
def fullWorld : Option (ShmWorld RecordStore) :=
  ((mapWith .willing 10 mapA.name smallWorld).bind fun x =>
    mapWith .willing 11 mapA.name x.2).map (·.2)

/-- UBSE attaches the memory, but its description is not what the adapter expects. -/
def ShmReplies.misread : ShmReplies := ⟨(mxmErrUbseInner, ⟨0, 0, [], false⟩), true, ubsmOk⟩

/-- A failed call after which UBSE has the memory attached and no removal is queued. -/
def FailsAttached (name : Name) (x : (Int × ShmMapResponse) × ShmWorld RecordStore) : Bool :=
  decide (x.1.1 ≠ ubsmOk) && x.2.attached name && !x.2.monitor.getDelayRemoveRecord name

/-- The object is absent, its map fails with these replies of UBSE, and something of it is left. -/
def MapLeaves (u : ShmReplies) (pid : Nat) (name : Name) (s : ShmWorld RecordStore) : Prop :=
  Absent importRecord name s ∧ ∃ res s', mapWith u pid name s = some (res, s') ∧
    Prog.Runs (ShmWorld.sem smallRecords (fun _ => 0) 0)
      (shmMap { mapA with name := name } ⟨pid, 0, 0⟩) s res s' ∧
    res.1 ≠ ubsmOk ∧ ¬LeavesNothing importRecord name s'

theorem mapLeaves_of_exec {u : ShmReplies} {pid : Nat} {name : Name} {s : ShmWorld RecordStore}
    (habsent : Absent importRecord name s)
    (h : (mapWith u pid name s).map (FailsAttached name) = some true) : MapLeaves u pid name s := by
  have hsem : ∀ (c : ShmCall) (s : ShmWorld RecordStore) (r : c.Reply) (s' : ShmWorld RecordStore),
      u.answer 0 c s = some (r, s') → ShmWorld.sem smallRecords (fun _ => 0) 0 c s r s' :=
    fun _ _ _ _ h => ShmReplies.sem_of_answer h
  obtain ⟨⟨res, s'⟩, hexec, hfacts⟩ := map_eq_some_iff.mp h
  simp only [FailsAttached, Bool.and_eq_true, decide_eq_true_eq, Bool.not_eq_true'] at hfacts
  obtain ⟨⟨hfail, hattached⟩, hqueue⟩ := hfacts
  refine ⟨habsent, res, s', hexec, Prog.Runs.of_exec hsem hexec, hfail, ?_⟩
  rintro (⟨hdetached, -⟩ | hqueued)
  · rw [hattached] at hdetached
    cases hdetached
  · rw [hqueue] at hqueued
    cases hqueued

/-- **A failed `ShmMap` can leave the memory attached.**  The table of references is full, and the
roll-back does not find the record that is already deleted; the store refuses the result, and
UBSE the detach of the roll-back; the adapter reports an error for an attach that has been
done. -/
theorem failed_map_leaves_attachment :
    (∃ s, fullWorld = some s ∧ MapLeaves .willing 10 [98] s) ∧
    MapLeaves (.noIds mxmErrUbseInner) 10 mapA.name smallWorld ∧
    MapLeaves .misread 10 mapA.name smallWorld := by
  have hsmall : Absent importRecord mapA.name smallWorld := ⟨rfl, rfl, by decide +kernel⟩
  have hfull : fullWorld.map (fun s => (s.attached [98], s.manager.find [98],
      importRecord s.manager.store [98], (mapWith .willing 10 [98] s).map (FailsAttached [98]))) =
      some (false, none, none, some true) := by decide +kernel
  obtain ⟨s, hs, hfacts⟩ := map_eq_some_iff.mp hfull
  obtain ⟨hdetached, hrest⟩ := Prod.mk.inj hfacts
  obtain ⟨hfind, hrest⟩ := Prod.mk.inj hrest
  obtain ⟨hrecord, hexec⟩ := Prod.mk.inj hrest
  refine ⟨⟨s, hs, mapLeaves_of_exec ⟨hdetached, hfind, hrecord⟩ hexec⟩, ?_, ?_⟩
  · exact mapLeaves_of_exec hsmall (by decide +kernel)
  · exact mapLeaves_of_exec hsmall (by decide +kernel)

end UbsMem
