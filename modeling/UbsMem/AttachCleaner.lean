import UbsMem.ShmAttachment

/-! # The cleaner and attached memories

The three kinds of passes of the cleaner of leaked shared memory, under the protocol of
`ShmAttachment`: one that rolls back a creation touches no name, one that rolls back an
attach leaves a memory that has a process alone, and one for a dead process leaves its
memory uncovered between the first call and the last.
-/
namespace UbsMem

section Cleaner

variable {S : Type} {imports : S → Name → Option ShareMemImportInfo}
  {refs : S → Name → UInt32 → Nat} {ok : S → Prop} {mutexOf : Name → Nat} {rs : ShmRecords S}
  {fits : Name → Prop} {refRoom : Nat → Name → S → Prop}
  {resultRoom : Name → ShareMemImportResult → S → Prop} {t expiresTime : Nat}
  {key : DelayRemovedKey} {s s' : ShmWorld S} {c : ShmCall} {r : c.Reply} {site : Option Name}

variable (imports refs ok mutexOf rs refRoom resultRoom) in
/-- The safety of a program of the cleaner under the protocol. -/
abbrev CleanSafe (t : Nat) (key : DelayRemovedKey) (expiresTime : Nat) (p : ShmProg Unit)
    (s : ShmWorld S) : Prop :=
  Prog.Safe (truthfulSem rs mutexOf t)
    ((ShmTask.clean key expiresTime).AttachRely imports refs mutexOf t)
    ((ShmTask.clean key expiresTime).AttachGuar imports refs mutexOf t)
    (AttachInv imports refs ok mutexOf) ((ShmTask.clean key expiresTime).Room refRoom resultRoom)
    (ShmTask.clean key expiresTime).AttachGood p s

variable (imports refs) in
/-- What a call of the cleaner owes to its name. -/
structure CleanKeeps (key : DelayRemovedKey) (s s' : ShmWorld S) : Prop where
  held : s'.attached key.name = true → ∃ memory, Holds imports refs s'.manager key.name memory
  bare : Bare s' key.name → Bare s key.name
  covered : key.timeOutScene = true → Covered s key.name → Covered s' key.name

theorem CleanKeeps.of_detached (h : s'.attached key.name = false) :
    CleanKeeps imports refs key s s' where
  held hn := by simp [h] at hn
  bare hb := absurd hb (not_bare_of_detached h)
  covered _ _ hn := by simp [h] at hn

theorem CleanKeeps.of_same (hinv : AttachInv imports refs ok mutexOf s)
    (hsame : SameCell imports refs s s' key.name) : CleanKeeps imports refs key s s' where
  held := (KeepsName.of_same hinv hsame).1
  bare hb := hb.of_same hsame
  covered _ h := h.of_same hsame

theorem CleanKeeps.step (hlaw : rs.Lawful imports refs fits ok)
    (hinv : AttachInv imports refs ok mutexOf s) (hc : c.Within key.name)
    (hprepare : ∀ n size pid, c ≠ .prepareAddShareMemoryInfo n size pid)
    (hsite : ∀ n, site ≠ some n → c.cell ≠ some n) (hsem : ShmWorld.sem rs mutexOf t c s r s')
    (hkeeps : CleanKeeps imports refs key s s') :
    AttachInv imports refs ok mutexOf s' ∧ CleanGuar imports refs key site s s' := by
  obtain ⟨hsound, hcells⟩ := cells_of_sem hlaw hinv.sound
    (fun n size pid heq => absurd heq (hprepare n size pid)) hsem
  have hlocks := locks_of_sem hsem hc.1
  have hother : ∀ n, n ≠ key.name → SameCell imports refs s s' n :=
    fun n hn => hcells n fun hcell => hn (hc.2 n hcell)
  have hbare : ∀ n, Bare s' n → Bare s n := by
    intro n hb
    by_cases hname : n = key.name
    · subst hname
      exact hkeeps.bare hb
    · exact hb.of_same (hother n hname)
  refine ⟨⟨hsound, hinv.names.step hsem, fun n hn => ?_, fun n hb => ?_⟩,
    ⟨hlocks, fun n hn => hcells n (hsite n hn), hbare, fun hscene n h => ?_⟩⟩
  · by_cases hname : n = key.name
    · subst hname
      exact hkeeps.held hn
    · obtain ⟨memory, hheld⟩ := hinv.held n ((hother n hname).attached ▸ hn)
      exact ⟨memory, hheld.of_same (hother n hname).entry⟩
  · rw [hlocks]
    exact hinv.bare n (hbare n hb)
  · by_cases hname : n = key.name
    · subst hname
      exact hkeeps.covered hscene h
    · exact h.of_same (hother n hname)

theorem ShmCall.Within.off_site (h : c.Within key.name) (hsite : site = some key.name) :
    ∀ n, site ≠ some n → c.cell ≠ some n := by
  rintro n hn hcell
  exact hn (h.2 n hcell ▸ hsite)

/-! A pass that rolls back a creation that timed out touches no name. -/

theorem all_cleanCreate (hscene : key.timeOutScene = true) (hattach : key.isAttach = false) :
    (removeDelayShare key expiresTime).All fun c => c.plain = true ∧ c.cell = none := by
  simp only [removeDelayShare, cleanShareMemoryLeakInner, tryRollBackTimeoutShmTask, hscene,
    hattach]
  refine Prog.All.bind ?_ fun ret => ?_
  · simp
  · simp

theorem attachSafe_cleanCreate (hlaw : rs.Lawful imports refs fits ok) (t : Nat)
    (hscene : key.timeOutScene = true) (hattach : key.isAttach = false) (s : ShmWorld S) :
    CleanSafe imports refs ok mutexOf rs refRoom resultRoom t key expiresTime
      (ShmTask.clean key expiresTime).body s := by
  refine Prog.safe_of_all (fun _ _ _ _ => trivial) ?_ ?_ (all_cleanCreate hscene hattach) trivial
  · intro c s _ _ _ hfalse
    simp [hscene] at hfalse
  · rintro c s r s' ⟨hplain, hcell⟩ - hinv hsem
    have hprepare : ∀ n size pid, c ≠ .prepareAddShareMemoryInfo n size pid := by
      rintro n size pid rfl
      cases hcell
    have hsame := (sameCells_of_sem hlaw hinv.sound hcell hsem.1).2 key.name
    obtain ⟨hinv', hguar⟩ := (CleanKeeps.of_same hinv hsame).step hlaw hinv
      (.of_none hplain hcell) hprepare (fun n _ => by rw [hcell]; nofun) hsem.1
    exact ⟨hinv', hguar, trivial⟩

/-! A pass that rolls back an attach that timed out leaves a memory that has a process. -/

/-- The calls of such a pass. -/
def rollBackCall (key : DelayRemovedKey) : ShmCall → Prop
  | .removeMemoryInfo name force => name = key.name ∧ force = false
  | .shmDetach name => name = key.name
  | c => c.plain = true ∧ c.cell = none

theorem rollBackCall.frame (hc : rollBackCall key c) :
    c.Within key.name ∧ ∀ n size pid, c ≠ .prepareAddShareMemoryInfo n size pid := by
  cases c <;> simp_all [rollBackCall, ShmCall.Within]

theorem all_cleanAttach (hscene : key.timeOutScene = true) :
    (removeDelayShare key expiresTime).All (rollBackCall key) := by
  simp only [removeDelayShare, cleanShareMemoryLeakInner, tryRollBackTimeoutShmTask, hscene]
  refine Prog.All.bind ?_ fun ret => ?_
  · simp [rollBackCall]
  · simp [rollBackCall]

theorem sameCell_of_rollBackCall (hlaw : rs.Lawful imports refs fits ok)
    (hinv : AttachInv imports refs ok mutexOf s) (hc : rollBackCall key c)
    (hsettled : Settled s key.name) (hsem : ShmWorld.sem rs mutexOf t c s r s') :
    s'.attached key.name = false ∨ SameCell imports refs s s' key.name := by
  have hsame : c.cell = none → SameCell imports refs s s' key.name := fun hcell =>
    (sameCells_of_sem hlaw hinv.sound hcell hsem).2 key.name
  cases c with
  | removeMemoryInfo name force =>
    obtain ⟨rfl, rfl⟩ := hc
    have hattached := attached_of_sem hsem (by simp) (by simp)
    by_cases hn : s.attached key.name = true
    · obtain ⟨memory, hfind, hpids⟩ := hsettled hn
      obtain ⟨-, rfl⟩ := hsem
      exact .inr ⟨removeMemoryInfo_inUse hfind hpids, rfl⟩
    · exact .inl (by simpa [hattached] using hn)
  | shmDetach name =>
    obtain rfl : name = key.name := hc
    exact (sameCell_or_detached hsem).imp_right And.right
  | _ => exact .inr (hsame hc.2)

theorem attachSafe_cleanAttach (hlaw : rs.Lawful imports refs fits ok) (t : Nat)
    (hscene : key.timeOutScene = true) (hattach : key.isAttach = true) (hs : Settled s key.name) :
    CleanSafe imports refs ok mutexOf rs refRoom resultRoom t key expiresTime
      (ShmTask.clean key expiresTime).body s := by
  have hsite : (ShmTask.clean key expiresTime).site = some key.name := by
    simp [ShmTask.site, hattach]
  refine Prog.safe_of_all (I := fun s => Settled s key.name) ?_ ?_ ?_
    (all_cleanAttach hscene) hs
  · exact fun s s₁ h hrely => h.of_same (hrely key.name hsite)
  · intro c s _ _ _ hfalse
    simp [hscene] at hfalse
  · intro c s r s' hc hsettled hinv hsem
    obtain ⟨hwithin, hprepare⟩ := hc.frame
    have hcell := hwithin.off_site hsite
    have hkeeps : CleanKeeps imports refs key s s' ∧ Settled s' key.name := by
      rcases sameCell_of_rollBackCall hlaw hinv hc hsettled hsem.1 with hfalse | hsame
      · exact ⟨.of_detached hfalse, fun hn => by simp [hfalse] at hn⟩
      · exact ⟨.of_same hinv hsame, hsettled.of_same hsame⟩
    obtain ⟨hinv', hguar⟩ := hkeeps.1.step hlaw hinv hwithin hprepare hcell hsem.1
    exact ⟨hinv', hguar, hkeeps.2⟩

/-! A pass for a process that has died takes the process out first, and gives it back if
UBSE does not detach. -/

section DeadProcess

variable {k : c.Reply → ShmProg Unit} {pid : Nat} {r : Int}

/-- The rule for a call of such a pass; `A` is what is known about the name. -/
theorem CleanSafe.call (hlaw : rs.Lawful imports refs fits ok) (hscene : key.timeOutScene = false)
    {A : ShmWorld S → Prop} (hA : ∀ s s', A s → SameCell imports refs s s' key.name → A s')
    (hc : c.Within key.name) (hprepare : ∀ n size pid, c ≠ .prepareAddShareMemoryInfo n size pid)
    (hgood : ∀ s, A s → c = .eraseKey key → Covered s key.name) (hs : A s)
    (hnext : ∀ s₁ r s₂, AttachInv imports refs ok mutexOf s₁ → A s₁ →
      (ShmTask.clean key expiresTime).Room refRoom resultRoom c s₁ →
      truthfulSem rs mutexOf t c s₁ r s₂ → CleanKeeps imports refs key s₁ s₂ ∧
        CleanSafe imports refs ok mutexOf rs refRoom resultRoom t key expiresTime (k r) s₂) :
    CleanSafe imports refs ok mutexOf rs refRoom resultRoom t key expiresTime (.call c k) s := by
  have hsite : (ShmTask.clean key expiresTime).site = some key.name := by
    simp [ShmTask.site, hscene]
  intro s₁ hrely hinv hroom
  have hA₁ := hA s s₁ hs (hrely key.name hsite)
  refine ⟨fun _ heq => hgood s₁ hA₁ heq, fun r s₂ hsem => ?_⟩
  obtain ⟨hkeeps, hsafe⟩ := hnext s₁ r s₂ hinv hA₁ hroom hsem
  have hcell := hc.off_site hsite
  obtain ⟨hinv₂, hguar⟩ := hkeeps.step hlaw hinv hc hprepare hcell hsem.1
  exact ⟨hinv₂, hguar, hsafe⟩

theorem cleanKeeps_of_holds (hscene : key.timeOutScene = false)
    (hinv : AttachInv imports refs ok mutexOf s) (hattached : s'.attached = s.attached)
    (hheld : ∀ memory, s.attached key.name = true → Holds imports refs s.manager key.name memory →
      ∃ memory', Holds imports refs s'.manager key.name memory' ∧
        (memory'.state = .preAdd → memory.state = .preAdd)) : CleanKeeps imports refs key s s' := by
  by_cases hn : s.attached key.name = true
  · obtain ⟨memory, hold⟩ := hinv.held key.name hn
    obtain ⟨memory', hnew, hstate⟩ := hheld memory hn hold
    refine ⟨fun _ => ⟨memory', hnew⟩, ?_, fun hfalse => by simp [hscene] at hfalse⟩
    rintro ⟨-, _, hfind, hpre⟩
    obtain rfl := Option.some.inj (hnew.find.symm.trans hfind)
    exact ⟨hn, memory, hold.find, hstate hpre⟩
  · exact .of_detached (by simpa [hattached] using hn)

section

variable (hlaw : rs.Lawful imports refs fits ok) (hscene : key.timeOutScene = false)
  (hinv : AttachInv imports refs ok mutexOf s)

include hlaw hscene hinv

theorem cleanKeeps_removeUser
    (hsem : ShmWorld.sem rs mutexOf t (.removeMemoryUserInfo key.name pid) s r s') :
    CleanKeeps imports refs key s s' := by
  refine cleanKeeps_of_holds hscene hinv (attached_of_sem hsem (by simp) (by simp)) ?_
  intro memory _ hheld
  obtain ⟨-, rfl⟩ := hsem
  rcases hheld.removeUser hlaw hinv.sound pid with hnew | hnew
  · exact ⟨_, hnew, id⟩
  · exact ⟨_, hnew, id⟩

theorem cleanKeeps_mark {state : RecordState} (hdeleted : state ≠ .deleted)
    (hpreAdd : state ≠ .preAdd)
    (hsem : ShmWorld.sem rs mutexOf t (.updateShareMemoryRecordState key.name state) s r s') :
    CleanKeeps imports refs key s s' ∧ (s'.attached key.name = true → r = ubsmOk) := by
  have hattached := attached_of_sem hsem (by simp) (by simp)
  obtain ⟨hr, rfl⟩ := hsem
  refine ⟨cleanKeeps_of_holds hscene hinv hattached fun memory _ hheld => ?_, fun hn => ?_⟩
  · exact ⟨_, (hheld.mark hlaw hinv.sound hdeleted).2, fun hstate => absurd hstate hpreAdd⟩
  · obtain ⟨memory, hheld⟩ := hinv.held key.name hn
    exact hr.trans (hheld.mark hlaw hinv.sound hdeleted).1

end

theorem cleanKeeps_addUser (hlaw : rs.Lawful imports refs fits ok)
    (haccept : rs.Accepts imports refRoom resultRoom) (hscene : key.timeOutScene = false)
    (hinv : AttachInv imports refs ok mutexOf s) (hpid : pid < 2 ^ 32)
    (hroom : s.attached key.name = true → refRoom pid key.name s.manager.store)
    (hsem : ShmWorld.sem rs mutexOf t (.addMemoryUserInfo key.name pid) s r s') :
    CleanKeeps imports refs key s s' ∧ Covered s' key.name := by
  have hattached := attached_of_sem hsem (by simp) (by simp)
  obtain ⟨-, rfl⟩ := hsem
  refine ⟨cleanKeeps_of_holds hscene hinv hattached fun memory hn hheld => ?_, fun hn => ?_⟩
  · exact ⟨_, hheld.addUser_room hlaw haccept hinv.sound hpid (hroom hn), id⟩
  · obtain ⟨memory, hheld⟩ := hinv.held key.name hn
    have hnew := hheld.addUser_room hlaw haccept hinv.sound hpid (hroom hn)
    exact ⟨_, hnew.find, .inr (List.ne_nil_of_mem List.mem_insert_self)⟩

/-- What `RemoveDelayBorrows` does after a pass. -/
def afterClean (key : DelayRemovedKey) (expiresTime : Nat) (ret : Int) : ShmProg Unit :=
  .call (.eraseKey key) fun _ =>
    if ret ≠ 0 then .call (.addDelayRemoveRecord
      { key with retryTimes := key.retryTimes + 1, expiresTime := expiresTime }) .ret
    else .ret ()

theorem removeDelayShare_eq : removeDelayShare key expiresTime =
    cleanShareMemoryLeakInner key.name key.appCtx key.timeOutScene key.isAttach key.createSeqNo >>=
      afterClean key expiresTime := rfl

theorem covered_of_same (s s' : ShmWorld S) (h : Covered s key.name)
    (hsame : SameCell imports refs s s' key.name) : Covered s' key.name :=
  h.of_same hsame

section

variable (hlaw : rs.Lawful imports refs fits ok)

include hlaw

theorem CleanSafe.finish (hscene : key.timeOutScene = false) (ret : Int) (h : Covered s key.name) :
    CleanSafe imports refs ok mutexOf rs refRoom resultRoom t key expiresTime
      (afterClean key expiresTime ret) s := by
  refine CleanSafe.call hlaw hscene covered_of_same (.of_none rfl rfl)
    (by simp) (fun s h _ => h) h fun s₁ _ s₂ hinv _ _ hsem => ?_
  refine ⟨.of_same hinv ((sameCells_of_sem hlaw hinv.sound rfl hsem.1).2 _), ?_⟩
  split_ifs
  · refine CleanSafe.call hlaw hscene (fun _ _ _ _ => trivial) (.of_none rfl rfl) (by simp) nofun
      trivial fun s₃ _ s₄ hinv₃ _ _ hsem₄ => ?_
    exact ⟨.of_same hinv₃ ((sameCells_of_sem hlaw hinv₃.sound rfl hsem₄.1).2 _), Prog.safe_ret _ _⟩
  · exact Prog.safe_ret _ _

theorem CleanSafe.quiet (hscene : key.timeOutScene = false) {p : ShmProg Int}
    (hp : p.All (ShmCall.Quiet key.name)) (h : s.attached key.name = false) :
    CleanSafe imports refs ok mutexOf rs refRoom resultRoom t key expiresTime
      (p >>= afterClean key expiresTime) s := by
  have hsite : (ShmTask.clean key expiresTime).site = some key.name := by
    simp [ShmTask.site, hscene]
  have hcovered : ∀ s : ShmWorld S, s.attached key.name = false → Covered s key.name := by
    intro s hfalse hn
    simp [hfalse] at hn
  refine Prog.safe_bind_of_all ?_ ?_ ?_ hp
    (fun ret s hs => CleanSafe.finish hlaw hscene ret (hcovered s hs)) h
  · exact fun s s₁ hs hrely => (hrely key.name hsite).attached.trans hs
  · exact fun c s _ hs _ _ _ => hcovered s hs
  · rintro c s r s' ⟨hwithin, hattach, hprepare⟩ hs hinv hsem
    have hfalse := detached_of_sem hsem.1 hattach hs
    have hcell := hwithin.off_site hsite
    obtain ⟨hinv', hguar⟩ := (CleanKeeps.of_detached hfalse).step hlaw hinv hwithin hprepare hcell
      hsem.1
    exact ⟨hinv', hguar, hfalse⟩

/-- **A pass for a dead process**: it begins and ends with the memory covered; in between
it is not. -/
theorem attachSafe_cleanDead (haccept : rs.Accepts imports refRoom resultRoom) (t : Nat)
    (hscene : key.timeOutScene = false) (hpid : key.appCtx.pid < 2 ^ 32) (hs : Covered s key.name) :
    CleanSafe imports refs ok mutexOf rs refRoom resultRoom t key expiresTime
      (ShmTask.clean key expiresTime).body s := by
  have hwithin : ∀ state, (ShmCall.updateShareMemoryRecordState key.name state).Within key.name :=
    fun _ => .of_cell rfl rfl
  have hstable : ∀ s s' : ShmWorld S, True → SameCell imports refs s s' key.name → True :=
    fun _ _ _ _ => trivial
  simp only [ShmTask.body, removeDelayShare_eq, cleanShareMemoryLeakInner, hscene, ask_eq,
    Prog.call_bind, Prog.ret_bind, Bool.false_eq_true, if_false]
  split_ifs
  · exact .finish hlaw hscene _ hs
  refine CleanSafe.call hlaw hscene hstable (.of_cell rfl rfl) (by simp)
    (by simp) trivial fun s₁ ret s₂ hinv₁ _ _ hsem₂ => ?_
  refine ⟨cleanKeeps_removeUser hlaw hscene hinv₁ hsem₂.1, ?_⟩
  obtain ⟨⟨hreply, -⟩, -⟩ := hsem₂
  have hcodes : ¬(ret ≠ ubsmOk ∧ ret ≠ mxmErrShmNotFound) := by
    rintro ⟨hok, hnot⟩
    rcases removeMemoryUserInfo_at key.name hlaw hinv₁.sound key.appCtx.pid with
      ⟨hret, -⟩ | ⟨hret, -⟩
    · exact hnot (hreply.trans hret)
    · exact hok (hreply.trans hret)
  dsimp only
  rw [if_neg hcodes]
  refine CleanSafe.call hlaw hscene hstable (hwithin _) (by simp) (by simp)
    trivial fun s₃ ret s₄ hinv₃ _ _ hsem₄ => ?_
  obtain ⟨hkeeps₄, hmarked⟩ := cleanKeeps_mark hlaw hscene hinv₃ (by simp) (by simp) hsem₄.1
  refine ⟨hkeeps₄, ?_⟩
  dsimp only
  split_ifs with hret₄
  · -- the state of an attached memory can be changed
    exact .finish hlaw hscene _ fun hn => absurd (hmarked hn) hret₄.1
  refine CleanSafe.call hlaw hscene hstable (.of_cell rfl rfl) (by simp)
    (by simp) trivial fun s₅ hr s₆ hinv₅ _ _ hsem₆ => ?_
  have hdetach : s₆.attached key.name = false ∨
      hr ≠ ubsmOk ∧ SameCell imports refs s₅ s₆ key.name := sameCell_or_detached hsem₆.1
  have hkeeps₆ : CleanKeeps imports refs key s₅ s₆ := by
    rcases hdetach with hfalse | ⟨-, hsame⟩
    · exact .of_detached hfalse
    · exact .of_same hinv₅ hsame
  refine ⟨hkeeps₆, ?_⟩
  dsimp only
  split_ifs with hret₆
  · -- UBSE does not detach: the process is registered again
    refine CleanSafe.call hlaw hscene hstable (hwithin _) (by simp) (by simp)
      trivial fun s₇ _ s₈ hinv₇ _ _ hsem₈ => ?_
    refine ⟨(cleanKeeps_mark hlaw hscene hinv₇ (by simp) (by simp) hsem₈.1).1, ?_⟩
    refine CleanSafe.call hlaw hscene hstable (.of_cell rfl rfl) (by simp)
      (by simp) trivial fun s₉ _ s₁₀ hinv₉ _ hroom hsem₁₀ => ?_
    obtain ⟨hkeeps, hcovered⟩ := cleanKeeps_addUser hlaw haccept hscene hinv₉ hpid hroom hsem₁₀.1
    exact ⟨hkeeps, .finish hlaw hscene _ hcovered⟩
  · have hfalse : s₆.attached key.name = false := by
      rcases hdetach with hfalse | ⟨hne, -⟩
      · exact hfalse
      · exact hsem₆.2 (by_contra fun hnot => hret₆ ⟨hne, hnot⟩)
    refine CleanSafe.quiet hlaw hscene ?_ hfalse
    simp [ShmCall.Quiet, ShmCall.Within]

end

end DeadProcess

end Cleaner

end UbsMem
