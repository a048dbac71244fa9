import UbsMem.AttachCleaner

/-! # Recovery after a crash of the daemon

The runs of `ShmMap`, `ShmUnmap` and the cleaner in which every attached memory stays
covered, except while a pass for a dead process works on it (`PoolCovered`); what a crash
leaves in the store (`CrashStore`); and that `Recovery` then finds the attached memories.
-/
namespace UbsMem

open Function List Option

/-! ### Runs -/

section Runs

variable {S : Type} {imports : S → Name → Option ShareMemImportInfo}
  {refs : S → Name → UInt32 → Nat} {ok : S → Prop} {rs : ShmRecords S} {fits : Name → Prop}
  {refRoom : Nat → Name → S → Prop} {resultRoom : Name → ShareMemImportResult → S → Prop}
  {mutexOf : Name → Nat} {key : DelayRemovedKey} {c : ShmCall} {k : c.Reply → ShmProg Unit}
  {P : ShmPool S} {s' s : ShmWorld S} {l : ShmTask} {n : Name} {t : Nat}

/-- The tasks of the runs; process ids have 32 bits. -/
def ShmTask.Serves (fits : Name → Prop) : ShmTask → Prop
  | .map req uds => fits req.name ∧ uds.pid < 2 ^ 32
  | .unmap _ _ => True
  | .deadProcess _ _ => False
  | .clean key _ => key.appCtx.pid < 2 ^ 32

/-- **The runs in which the tasks keep apart and the store has room**: a pass of the cleaner
does not overlap another task on its name, one that rolls back an attach does not begin
while the mutex of its name is held, and there is room where `Room` asks for it. -/
def AttachRun (fits : Name → Prop) (refRoom : Nat → Name → S → Prop)
    (resultRoom : Name → ShareMemImportResult → S → Prop) (mutexOf : Name → Nat) (P : ShmPool S) :
    Pool.Action Nat ShmTask ShmCall ShmCall.Reply → Prop
  | .start _ l => l.Serves fits ∧ (∀ t' l' p', P.running t' = some (l', p') → l.Apart l') ∧
    ∀ key e, l = .clean key e → key.timeOutScene = true → key.isAttach = true →
      P.shared.locks (mutexOf key.name) = none
  | .perform t c _ => ∀ l k, P.running t = some (l, .call c k) →
    l.Room refRoom resultRoom c P.shared
  | .finish _ => True

/-- The rest of a pass that has not come to its end. -/
def UnderWay (key : DelayRemovedKey) (p : ShmProg Unit) : Prop :=
  p.EndsWith (· = .eraseKey key) (ShmCall.cell · = none)

/-- A pass for a dead process works on the name. -/
def Cleaning (P : ShmPool S) (n : Name) : Prop :=
  ∃ t key e p, P.running t = some (.clean key e, p) ∧ key.timeOutScene = false ∧ key.name = n ∧
    UnderWay key p

/-- Every attached memory is covered, or a pass for a dead process works on it. -/
structure PoolCovered (P : ShmPool S) : Prop where
  covered : ∀ n, Covered P.shared n ∨ Cleaning P n
  phase : ∀ t key e p, P.running t = some (.clean key e, p) → key.timeOutScene = false →
    UnderWay key p ∨ p.All (ShmCall.cell · = none)

theorem underWay_clean (key : DelayRemovedKey) (e : Nat) :
    UnderWay key (ShmTask.clean key e).body := by
  have heq : (ShmTask.clean key e).body = _ := removeDelayShare_eq
  rw [heq]
  refine Prog.EndsWith.bind fun ret => .inl ⟨rfl, fun _ => ?_⟩
  simp only [Prog.all_ite]
  exact ⟨fun _ => ⟨rfl, fun _ => Prog.all_ret _⟩, fun _ => Prog.all_ret _⟩

theorem UnderWay.call (h : UnderWay key (.call c k)) (r : c.Reply) :
    c = .eraseKey key ∧ (k r).All (ShmCall.cell · = none) ∨ UnderWay key (k r) :=
  h.imp (fun h => ⟨h.1, h.2 r⟩) fun h => h r

/-- A name that the pool is done with is not the site of a pass that is about to begin. -/
theorem PoolCovered.at_start (h : PoolCovered P) {e : Nat}
    (hsite : (ShmTask.clean key e).site = some key.name)
    (hapart : ∀ t' l' p', P.running t' = some (l', p') → (ShmTask.clean key e).Apart l') :
    Covered P.shared key.name := by
  rcases h.covered key.name with hcovered | ⟨t, key', e', p, hrun, hscene, hname, -⟩
  · exact hcovered
  · have hsite' : (ShmTask.clean key' e').site = some key.name := by
      simp [ShmTask.site, hscene, hname]
    exact (hapart t _ p hrun key.name hsite hsite').1.elim

theorem attachRun_governs (hlaw : rs.Lawful imports refs fits ok)
    (haccept : rs.Accepts imports refRoom resultRoom) :
    (attachProtocol imports refs ok mutexOf rs refRoom resultRoom).Governs ShmTask.body
      fun P a => AttachRun fits refRoom resultRoom mutexOf P a ∧ PoolCovered P where
  start P t l hinv hallow := by
    obtain ⟨⟨hserves, hapart, hfree⟩, hcovered⟩ := hallow
    refine Prog.Safe.of_sem (fun c s r s' h => h.1) ?_
    cases l with
    | map req uds => exact attachSafe_map hlaw haccept t hserves.1 hserves.2 P.shared
    | unmap name uds => exact attachSafe_unmap hlaw t name uds P.shared
    | deadProcess now pid => exact hserves.elim
    | clean key e =>
      cases hscene : key.timeOutScene with
      | false =>
        have hsite : (ShmTask.clean key e).site = some key.name := by simp [ShmTask.site, hscene]
        exact attachSafe_cleanDead hlaw haccept t hscene hserves (hcovered.at_start hsite hapart)
      | true =>
        cases hattach : key.isAttach with
        | false => exact attachSafe_cleanCreate hlaw t hscene hattach P.shared
        | true =>
          have hsite : (ShmTask.clean key e).site = some key.name := by
            simp [ShmTask.site, hattach]
          -- no name whose mutex is free is being attached
          refine attachSafe_cleanAttach hlaw t hscene hattach
            ((hcovered.at_start hsite hapart).settled fun hbare => ?_)
          exact hinv.bare key.name hbare (hfree key e rfl hscene hattach)
  compat P t l t' l' p' hallow hrun := by
    have h : l.Apart l' := hallow.1.2.1 t' l' p' hrun
    exact ⟨h, h.symm⟩
  assume P t l c k r hallow hrun := ⟨hallow.1 l k hrun, trivial⟩

/-- A covered memory stays so, unless a pass for a dead process changes it. -/
theorem covered_of_guar (h : Covered s n) (hguar : l.AttachGuar imports refs mutexOf t s s') :
    Covered s' n ∨ ∃ key e, l = .clean key e ∧ key.timeOutScene = false ∧ key.name = n := by
  have hhandler : ∀ {name}, MutexGuar imports refs mutexOf t name s s' → Covered s' n := by
    intro name hguar
    by_cases hname : n = name
    · subst hname
      exact hguar.covered h
    · exact h.of_same (hguar.cells n (.inl hname))
  cases l with
  | map req uds | unmap name uds => exact .inl (hhandler hguar)
  | deadProcess now pid => exact hguar.elim
  | clean key e =>
    by_cases hscene : key.timeOutScene = true
    · exact .inl (hguar.covered hscene n h)
    · by_cases hname : key.name = n
      · exact .inr ⟨key, e, rfl, by simpa using hscene, hname⟩
      · refine .inl (h.of_same (hguar.cells n ?_))
        simp [ShmTask.site, hname]

theorem Cleaning.frame (P' : ShmPool S) (h : Cleaning P n)
    (hothers : ∀ t', t' ≠ t → P'.running t' = P.running t')
    (hself : ∀ key e p, P.running t = some (.clean key e, p) → key.timeOutScene = false →
      key.name = n → UnderWay key p → Covered P'.shared n ∨ Cleaning P' n) :
    Covered P'.shared n ∨ Cleaning P' n := by
  obtain ⟨t₀, key, e, p, hrun, hscene, hname, hway⟩ := h
  by_cases ht : t₀ = t
  · subst ht
    exact hself key e p hrun hscene hname hway
  · exact .inr ⟨t₀, key, e, p, (hothers t₀ ht).trans hrun, hscene, hname, hway⟩

section

variable (hlaw : rs.Lawful imports refs fits ok) (h : PoolCovered P)
  (hgood : (attachProtocol imports refs ok mutexOf rs refRoom resultRoom).Good P)

include hlaw h hgood

/-- **One call** keeps every attached memory covered, or in the hands of a pass. -/
theorem PoolCovered.perform {r : c.Reply} (hroom : l.Room refRoom resultRoom c P.shared)
    (hrun : P.running t = some (l, .call c k)) (hsem : truthfulSem rs mutexOf t c P.shared r s')
    (n : Name) : Covered s' n ∨ Cleaning ⟨s', update P.running t (some (l, k r))⟩ n := by
  obtain ⟨hcall, hnext⟩ := hgood.safe t l _ hrun P.shared (ShmTask.attachRely_refl t l P.shared)
    hgood.inv hroom
  obtain ⟨-, hguar, -⟩ := hnext r s' ⟨hsem, trivial⟩
  have hsame : c.cell = none → SameCell imports refs P.shared s' n := fun hcell =>
    (sameCells_of_sem hlaw hgood.inv.sound hcell hsem.1).2 n
  -- the pass itself moves: it comes to its end, or is under way still
  have hpass : ∀ key e, l = .clean key e → key.timeOutScene = false → key.name = n →
      UnderWay key (.call c k) →
      Covered s' n ∨ Cleaning ⟨s', update P.running t (some (l, k r))⟩ n := by
    rintro key e rfl hscene rfl hway
    rcases hway.call r with ⟨rfl, -⟩ | hway'
    · exact .inl ((hcall hscene rfl).of_same (hsame rfl))
    · exact .inr ⟨t, key, e, k r, update_self .., hscene, rfl, hway'⟩
  rcases h.covered n with hcovered | hcleaning
  · rcases covered_of_guar hcovered hguar with hcovered' | ⟨key, e, hl, hscene, hname⟩
    · exact .inl hcovered'
    · rcases h.phase t key e _ (hl ▸ hrun) hscene with hway | hall
      · exact hpass key e hl hscene hname hway
      · exact .inl (hcovered.of_same (hsame hall.1))
  · refine hcleaning.frame ⟨s', update P.running t (some (l, k r))⟩
      (fun t' ht => update_of_ne ht _ _) ?_
    intro key e p hclean hscene hname hway
    rw [hrun] at hclean
    obtain ⟨hl, rfl⟩ := Prod.mk.inj (some.inj hclean)
    exact hpass key e hl hscene hname hway

/-- **One step** keeps every attached memory covered, or in the hands of a pass. -/
theorem PoolCovered.step {P' : ShmPool S} {a : Pool.Action Nat ShmTask ShmCall ShmCall.Reply}
    (hallow : AttachRun fits refRoom resultRoom mutexOf P a)
    (hstep : Pool.Step (truthfulSem rs mutexOf) ShmTask.body P a P') : PoolCovered P' := by
  cases hstep with
  | @start t l hidle =>
    refine ⟨fun n => ?_, fun t' key e p hrun hscene => ?_⟩
    · rcases h.covered n with hcovered | hcleaning
      · exact .inl hcovered
      · refine hcleaning.frame _ (fun t' ht => update_of_ne ht _ _) ?_
        intro key e p hrun
        rw [hidle] at hrun
        cases hrun
    · by_cases ht : t' = t
      · subst ht
        obtain ⟨rfl, rfl⟩ : l = .clean key e ∧ l.body = p := by simpa using hrun
        exact .inl (underWay_clean key e)
      · exact h.phase t' key e p (by simpa [ht] using hrun) hscene
  | @perform t l c k r s' hrun hsem =>
    refine ⟨h.perform hlaw hgood (hallow l k hrun) hrun hsem, fun t' key e p hrun' hscene => ?_⟩
    by_cases ht : t' = t
    · subst ht
      obtain ⟨rfl, rfl⟩ : l = .clean key e ∧ k r = p := by simpa using hrun'
      rcases h.phase t' key e _ hrun hscene with hway | hall
      · exact (hway.call r).symm.imp_right And.right
      · exact .inr (hall.2 r)
    · exact h.phase t' key e p (by simpa [ht] using hrun') hscene
  | @finish t l hrun =>
    refine ⟨fun n => ?_, fun t' key e p hrun' hscene => ?_⟩
    · rcases h.covered n with hcovered | hcleaning
      · exact .inl hcovered
      · refine hcleaning.frame _ (fun t' ht => update_of_ne ht _ _) ?_
        intro key e p hclean _ _ hway
        rw [hrun] at hclean
        obtain ⟨-, rfl⟩ := Prod.mk.inj (some.inj hclean)
        exact hway.elim
    · have ht : t' ≠ t := by
        rintro rfl
        simp at hrun'
      exact h.phase t' key e p (by simpa [ht] using hrun') hscene

end

/-- **Whole runs** from a daemon at rest. -/
theorem poolCovered_of_reach (hlaw : rs.Lawful imports refs fits ok)
    (haccept : rs.Accepts imports refRoom resultRoom) (hinv : AttachInv imports refs ok mutexOf s)
    (hcovered : ∀ n, Covered s n) (hreach : Pool.Reach (truthfulSem rs mutexOf) ShmTask.body
      (AttachRun fits refRoom resultRoom mutexOf) (ShmPool.idle s) P) :
    (attachProtocol imports refs ok mutexOf rs refRoom resultRoom).Good P ∧ PoolCovered P := by
  induction hreach with
  | refl =>
    refine ⟨.idle hinv, fun n => .inl (hcovered n), fun t key e p h => ?_⟩
    cases h
  | step _ hallow hstep ih =>
    exact ⟨ih.1.step (attachRun_governs hlaw haccept) ⟨hallow, ih.2⟩ hstep,
      ih.2.step hlaw ih.1 hallow hstep⟩

end Runs

/-! ### Crashes -/

section Crash

variable {S : Type} {imports : S → Name → Option ShareMemImportInfo}
  {refs : S → Name → UInt32 → Nat} {ok : S → Prop} {fits : Name → Prop} {mutexOf : Name → Nat}

section Stores

variable (rs : ShmRecords S)

/-- The stores after each reference that `RemoveMemoryInfo` drops. -/
def delShmRefStores (name : Name) : List Nat → S → List S
  | [], _ => []
  | pid :: pids, store =>
    let r := rs.delShmRefRecord pid name store
    if r.1 ≠ 0 then [] else r.2 :: delShmRefStores name pids r.2

/-- The stores between two store calls of one call to the manager. -/
def ShmCall.midStores (m : ShmManager S) : ShmCall → List S
  | .addFullShareMemoryInfo name pid result =>
    match m.find name with
    | none => []
    | some _ =>
      let r := rs.addShmImportResult name result m.store
      if r.1 ≠ 0 then []
      else
        let r' := rs.addShmRefRecord pid name r.2
        if r'.1 ≠ 0 then [r.2, r'.2] else [r.2]
  | .removeMemoryInfo name force =>
    match m.find name with
    | none => []
    | some memory =>
      if force && decide (memory.state = .deleted) then
        delShmRefStores rs name memory.pids m.store
      else []
  | _ => []

/-- **What a crash leaves**: the store between two calls, or in the middle of the call that
a thread is about to make. -/
inductive CrashStore (P : ShmPool S) : Option ShmCall → S → Prop
  | between : CrashStore P none P.shared.manager.store
  | inside {t : Nat} {l : ShmTask} {c : ShmCall} {k : c.Reply → ShmProg Unit} {store : S}
      (hrun : P.running t = some (l, .call c k))
      (hstore : store ∈ c.midStores rs P.shared.manager) : CrashStore P (some c) store

end Stores

variable {rs : ShmRecords S} {m : ShmManager S} {name : Name} {store : S}

theorem delShmRefStores_edits (pids : List Nat) (h : store ∈ delShmRefStores rs name pids m.store) :
    m.Edits rs name (fun _ => False) (m.withStore store) := by
  induction pids generalizing m with
  | nil => cases h
  | cons pid pids ih =>
    have hdel : m.Edit rs name (fun _ => False) _ := .delRef pid
    unfold delShmRefStores at h
    dsimp only at h
    split_ifs at h
    · cases h
    · rcases mem_cons.mp h with rfl | hmem
      · exact .single hdel
      · exact (ih hmem).head hdel

/-- In the middle of a call one name has changed: that of an attach which is being
completed, or of a deleted memory. -/
theorem midStores_edits {c : ShmCall} (h : store ∈ c.midStores rs m) :
    ∃ name, m.Edits rs name (fun _ => False) (m.withStore store) ∧
      ((∃ pid result, c = .addFullShareMemoryInfo name pid result) ∨
        ∃ memory, m.find name = some memory ∧ memory.state = .deleted) := by
  cases c with
  | addFullShareMemoryInfo name pid result =>
    refine ⟨name, ?_, .inl ⟨pid, result, rfl⟩⟩
    have hresult : m.Edits rs name (fun _ => False) _ := .single (.result result)
    have href := hresult.tail (.addRef pid)
    simp only [ShmCall.midStores] at h
    split at h
    · cases h
    · split_ifs at h
      · cases h
      · rcases mem_pair.mp h with rfl | rfl
        · exact hresult
        · exact href
      · obtain rfl := mem_singleton.mp h
        exact hresult
  | removeMemoryInfo name force =>
    simp only [ShmCall.midStores] at h
    split at h
    · cases h
    · next memory hfind =>
      split_ifs at h with hforced
      · have hdeleted : memory.state = .deleted := by simp_all
        exact ⟨name, delShmRefStores_edits _ h, .inr ⟨memory, hfind, hdeleted⟩⟩
      · cases h
  | _ => cases h

/-- **What a crash keeps about a covered memory**: its record, in the state of its entry,
and a reference if it is not being attached. -/
theorem CrashStore.recorded (hlaw : rs.Lawful imports refs fits ok) {P : ShmPool S}
    (hinv : AttachInv imports refs ok mutexOf P.shared) {during : Option ShmCall}
    (hcrash : CrashStore rs P during store) {n : Name} (hn : P.shared.attached n = true)
    (hcovered : Covered P.shared n)
    (hwindow : ∀ pid result, during ≠ some (.addFullShareMemoryInfo n pid result)) :
    ok store ∧ ∃ memory r, P.shared.find n = some memory ∧ imports store n = some r ∧
      r.state = memory.state ∧ (r.state = .preAdd ∨ ∃ pid, 0 < refs store n pid) := by
  obtain ⟨memory, hheld⟩ := hinv.held n hn
  -- the name is as it was, in the middle of a call too
  have hsame : ok store ∧
      SameEntry imports refs P.shared.manager (P.shared.manager.withStore store) n := by
    cases hcrash with
    | between => exact ⟨hinv.sound, .refl _ n⟩
    | inside hrun hstore =>
      obtain ⟨name, hedits, hcase⟩ := midStores_edits hstore
      have hstep := managerStep_of_changes hlaw hinv.sound hedits
      refine ⟨hstep.sound, hstep.others n ?_⟩
      rintro rfl
      rcases hcase with ⟨pid, result, rfl⟩ | ⟨memory', hfind, hdeleted⟩
      · exact hwindow pid result rfl
      · obtain rfl : memory' = memory := some.inj (hfind.symm.trans hheld.find)
        exact hheld.live hdeleted
  have hheld' := hheld.of_same hsame.2
  obtain ⟨r, hr, hstate⟩ := hheld'.record
  refine ⟨hsame.1, memory, r, hheld.find, hr, hstate, ?_⟩
  obtain ⟨memory', hfind, huse⟩ := hcovered hn
  obtain rfl : memory = memory' := some.inj (hheld.find.symm.trans hfind)
  rcases huse with hadd | hpids
  · exact .inl (hstate.trans hadd)
  · obtain ⟨pid, hpid⟩ := exists_mem_of_ne_nil _ hpids
    exact .inr ⟨.ofNat pid, (hheld'.users pid hpid).2⟩

end Crash

/-! ### The record store -/

/-- The daemon before its first request, over a record store. -/
def ShmWorld.fresh {S : Type} (store : S) : ShmWorld S :=
  ⟨⟨∅, store⟩, .empty, fun _ => none, fun _ => false⟩

/-- **Recovery does not forget an attached memory.**  Let the daemon crash at any point of a
run in which the tasks keep apart, the store has room and UBSE tells the truth.  A memory
that is attached then has an entry after `Recovery`, if no pass for a dead process was at
work on it, the crash was not between the two records of `AddFullShareMemoryInfo`, UBSE does
not deny a memory that was being attached, and answers about one that was being detached. -/
theorem recovery_keeps_attached (config : StoreConfig) (alive alive' : UInt32 → Bool)
    (mutexOf : Name → Nat) {P : ShmPool RecordStore}
    (hreach : Pool.Reach (truthfulSem (storeShmRecords config) mutexOf) ShmTask.body
      (AttachRun NameOk RefRoom ResultRoom mutexOf)
      (ShmPool.idle (ShmWorld.fresh (RecordStore.start config alive))) P) {during : Option ShmCall}
    {store : RecordStore} (hcrash : CrashStore (storeShmRecords config) P during store) {n : Name}
    (hn : P.shared.attached n = true) (hpass : ¬Cleaning P n)
    (hwindow : ∀ pid result, during ≠ some (.addFullShareMemoryInfo n pid result))
    (now : Name → Nat) (stage : Name → Int × MemStage)
    (hstage : ∀ memory, P.shared.find n = some memory →
      (memory.state = .preAdd → ¬StageGone (stage n)) ∧
        (memory.state = .preDel → ¬StageFailed (stage n)))
    (listImports : RecordStore → List ShareMemImportInfo)
    (himports : ∀ s, (listImports s).Perm (listShmImportRecord s))
    (listRefs : RecordStore → List (Name × List UInt32))
    (hrefs : ∀ s, ListsRefs (listShmRefRecordNameF s) (listRefs s)) (monitor : Monitor) :
    ((ShmManager.recovery (storeShmRecords config) now stage listImports listRefs
      (⟨∅, initializeStore config alive' store.mem⟩, monitor)).2.1.find n).isSome := by
  have hlaw := storeShmRecords_sound config
  have hinv : AttachInv importRecord listShmRefRecordNameF (StoreSound config) mutexOf
      (ShmWorld.fresh (RecordStore.start config alive)) := by
    refine ⟨storeSound_start config alive, fun name memory h => ?_, fun n hn => ?_, fun n hb => ?_⟩
    · cases h
    · cases hn
    · cases hb.1
  have hfresh : ∀ n, Covered (ShmWorld.fresh (RecordStore.start config alive)) n := by
    nofun
  obtain ⟨hgood, hpool⟩ :=
    poolCovered_of_reach hlaw (storeShmRecords_accepts config) hinv hfresh hreach
  have hcovered := (hpool.covered n).resolve_right hpass
  obtain ⟨hok, memory, r, hfind, hr, hstate, huse⟩ :=
    hcrash.recorded hlaw hgood.inv hn hcovered hwindow
  -- the restart finds the records as they were
  obtain ⟨hrecords, hcounts⟩ := StoreSound.importRecord_restart hok alive'
  have hok' := StoreSound.restart hok alive'
  refine recovery_finds hlaw now stage listImports listRefs hok' (listsImports_of_perm (himports _))
    (fun s _ => hrefs s) monitor (congrFun hrecords n ▸ hr) ?_ ?_ ?_
  · exact fun hadd => (hstage memory hfind).1 (hstate ▸ hadd)
  · exact fun hdel => (hstage memory hfind).2 (hstate ▸ hdel)
  · rw [hcounts]
    exact huse

/-! ### Examples of runs -/

instance (pid : Nat) (name : Name) (s : RecordStore) : Decidable (RefRoom pid name s) :=
  inferInstanceAs (Decidable (_ ∧ _))

instance (name : Name) (result : ShareMemImportResult) (s : RecordStore) :
    Decidable (ResultRoom name result s) :=
  inferInstanceAs (Decidable (_ ∧ _))

/-- The records of a small store. -/
abbrev smallRecords : ShmRecords RecordStore := storeShmRecords smallStoreConfig

/-- The daemon on a small store before its first request. -/
def smallWorld : ShmWorld RecordStore :=
  .fresh (RecordStore.start smallStoreConfig fun _ => true)

theorem truthfulSem_of_answer {S : Type} {rs : ShmRecords S} {mutexOf : Name → Nat}
    {info : Name → UbseUserInfo} {t : Nat} {c : ShmCall} {s s' : ShmWorld S} {r : c.Reply}
    (h : ShmWorld.answer rs mutexOf info t c s = some (r, s')) :
    truthfulSem rs mutexOf t c s r s' := by
  refine ⟨ShmWorld.sem_of_answer h, ?_⟩
  cases c with
  | shmAttach name data =>
    cases h
    exact fun hne => absurd rfl hne
  | shmDetach name =>
    cases h
    exact fun heq => absurd heq.symm mxmErrUbseNotAttach_ne
  | _ => trivial

/-- The same UBSE, asked only where the store has room to complete an attach. -/
def answerRoom (t : Nat) (c : ShmCall) (s : ShmWorld RecordStore) :
    Option (c.Reply × ShmWorld RecordStore) :=
  match c with
  | .addFullShareMemoryInfo name pid result =>
    if ResultRoom name result s.manager.store ∧ RefRoom pid name s.manager.store then
      ShmWorld.answer smallRecords (fun _ => 0) sampleInfo t
        (.addFullShareMemoryInfo name pid result) s
    else none
  | c => ShmWorld.answer smallRecords (fun _ => 0) sampleInfo t c s

/-- Process 10 maps `a`. -/
def mapTask : ShmTask := .map mapA ⟨10, 0, 0⟩

theorem sem_of_answerRoom (c : ShmCall) (s : ShmWorld RecordStore) (r : c.Reply)
    (s' : ShmWorld RecordStore) (h : answerRoom 0 c s = some (r, s')) :
    truthfulSem smallRecords (fun _ => 0) 0 c s r s' ∧ mapTask.Room RefRoom ResultRoom c s := by
  cases c with
  | addFullShareMemoryInfo name pid result =>
    simp only [answerRoom] at h
    split_ifs at h with hroom
    exact ⟨truthfulSem_of_answer h, hroom⟩
  | _ => exact ⟨@truthfulSem_of_answer _ _ _ sampleInfo _ _ _ _ _ h, trivial⟩

/-- The handler of `mapTask` up to the release of the mutex. -/
def mapRun : Option (ShmCall × ShmWorld RecordStore) :=
  mapTask.body.execTo (fun c => c matches .unlock _) (answerRoom 0) smallWorld

/-- `Recovery` on what a crash has left, when the engine gives one answer to every
question. -/
def recoverStore (reply : Int × MemStage) (store : RecordStore) :
    Int × ShmManager RecordStore × Monitor :=
  ShmManager.recovery smallRecords (fun _ => 0) (fun _ => reply) listShmImportRecord refListing
    (⟨∅, initializeStore smallStoreConfig (fun _ => true) store.mem⟩, .empty)

/-- The daemon crashes after process 10 has mapped `a`. -/
theorem recovery_keeps_attached_mapped : ∃ P : ShmPool RecordStore,
    Pool.Reach (truthfulSem smallRecords fun _ => 0) ShmTask.body
      (AttachRun NameOk RefRoom ResultRoom fun _ => 0) (ShmPool.idle smallWorld) P ∧
    P.shared.attached mapA.name = true ∧
    ((recoverStore (0, .exist) P.shared.manager.store).2.1.find mapA.name).isSome := by
  have hrun : mapRun.map (fun x => (x.2.attached mapA.name, x.2.find mapA.name)) =
      some (true, some ⟨mapA.name, 4096, .finish, [10], ⟨[1], 4096, 0, 2, 0, 0⟩⟩) := by
    decide +kernel
  obtain ⟨⟨c, s⟩, hexec, hfacts⟩ := map_eq_some_iff.mp hrun
  obtain ⟨hn, hfind⟩ := Prod.mk.inj hfacts
  have hstart : AttachRun NameOk RefRoom ResultRoom (fun _ => 0) (ShmPool.idle smallWorld)
      (.start 0 mapTask) := by
    refine ⟨⟨by simp [NameOk, mapA], by decide⟩, fun t' l' p' h => ?_, fun key e h => ?_⟩
    · cases h
    · cases h
  have hadmit : ∀ (P : ShmPool RecordStore) c k r s', P.running 0 = some (mapTask, .call c k) →
      (truthfulSem smallRecords (fun _ => 0) 0 c P.shared r s' ∧
        mapTask.Room RefRoom ResultRoom c P.shared) →
      truthfulSem smallRecords (fun _ => 0) 0 c P.shared r s' ∧
        AttachRun NameOk RefRoom ResultRoom (fun _ => 0) P (.perform 0 c r) := by
    rintro P c k r s' hrun ⟨hsem, hroom⟩
    refine ⟨hsem, fun l k' hrun' => ?_⟩
    rw [hrun] at hrun'
    obtain ⟨rfl, -⟩ := Prod.mk.inj (some.inj hrun')
    exact hroom
  obtain ⟨P, k, hreach, hshared, hcall, hothers⟩ := Pool.Reach.start_makes mapTask hadmit hstart rfl
    (Prog.Makes.of_execTo sem_of_answerRoom hexec)
  subst hshared
  refine ⟨P, hreach, hn, ?_⟩
  refine recovery_keeps_attached smallStoreConfig (fun _ => true) (fun _ => true) (fun _ => 0)
    hreach .between hn ?_ (by simp) (fun _ => 0) (fun _ => (0, .exist)) ?_ listShmImportRecord
    (fun _ => .refl _) refListing listsRefs_refListing .empty
  · rintro ⟨t, key, e, p, hclean, -⟩
    by_cases ht : t = 0
    · subst ht
      rw [hcall] at hclean
      cases hclean
    · rw [hothers t ht] at hclean
      cases hclean
  · intro memory hmemory
    constructor
    · nofun
    · nofun

/-- The key that is queued when process 10 has died. -/
def deadKey : DelayRemovedKey :=
  .make 0 mapA.name 0 false ⟨10, 0, 0⟩ false false false

/-- Process 10 maps `a` and dies, and the cleaner works on `a` up to the detach. -/
def leakTurns : List (Nat × Option ShmTask) :=
  (0, some mapTask) :: replicate 9 (0, none) ++ (1, some (.deadProcess 0 10)) ::
    replicate 4 (1, none) ++ (2, some (.clean deadKey 0)) :: replicate 2 (2, none)

/-- The key and the memory of a pass that is about to detach. -/
def detaching : Option (ShmTask × ShmProg Unit) → Option (DelayRemovedKey × Nat × Name)
  | some (.clean key expiresTime, .call (.shmDetach name) _) => some (key, expiresTime, name)
  | _ => none

/-- Runs of one mutex over the small store, with a truthful UBSE. -/
abbrev SmallReach (P P' : ShmPool RecordStore) : Prop :=
  Pool.Reach (truthfulSem smallRecords fun _ => 0) ShmTask.body (fun _ _ => True) P P'

/-- **Recovery forgets an attached memory.**  Process 10 maps `a` and dies.  The cleaner
takes the process out and comes to detach `a`, which is still attached, when the daemon
crashes.  UBSE answers that the memory is there, and `Recovery` succeeds; it leaves no entry,
no record and no removal in the queue. -/
theorem recovery_forgets_attached : ∃ P k, SmallReach (ShmPool.idle smallWorld) P ∧
    P.running 2 = some (.clean deadKey 0, .call (.shmDetach mapA.name) k) ∧
    deadKey ∈ P.shared.monitor.delayedRemoveKeys ∧ P.shared.attached mapA.name = true ∧
    let res := recoverStore (0, .exist) P.shared.manager.store
    res.1 = ubsmOk ∧ res.2.1.find mapA.name = none ∧
      importRecord res.2.1.store mapA.name = none ∧ res.2.2.delayedRemoveKeys = [] := by
  have hrun : (Pool.schedule ShmTask.body (ShmWorld.answer smallRecords (fun _ => 0) sampleInfo)
      (fun _ _ => true) leakTurns (ShmPool.idle smallWorld)).map (fun P =>
        let res := recoverStore (0, .exist) P.shared.manager.store
        decide (detaching (P.running 2) = some (deadKey, 0, mapA.name) ∧
          deadKey ∈ P.shared.monitor.delayedRemoveKeys ∧
          P.shared.attached mapA.name = true ∧ res.1 = ubsmOk ∧ (res.2.1.find mapA.name).isNone ∧
          (importRecord res.2.1.store mapA.name).isNone ∧ res.2.2.delayedRemoveKeys = [])) =
      some true := by
    decide +kernel
  obtain ⟨P, hP, hfacts⟩ := map_eq_some_iff.mp hrun
  have hreach : SmallReach (ShmPool.idle smallWorld) P := by
    refine .of_schedule ?_ (fun _ _ _ => trivial) hP
    exact fun _ _ _ _ _ => truthfulSem_of_answer
  simp only [decide_eq_true_eq, isNone_iff_eq_none] at hfacts
  obtain ⟨hcall, hqueued, hattached, hres⟩ := hfacts
  unfold detaching at hcall
  split at hcall
  · next hclean =>
    cases hcall
    exact ⟨P, _, hreach, hclean, hqueued, hattached, hres⟩
  · cases hcall

end UbsMem
