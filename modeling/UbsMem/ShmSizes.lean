import UbsMem.ShmFrames
import UbsMem.ShmRecovery

/-! # Sizes of entries and records

An entry of the manager and its import record are made with the size that the request asks
for, and no later operation changes it: not the completion of the attach, and not the
recovery of the map from the records.  So if the entries are made with the size of their
object, every entry and record has it (`SizedManager`), whatever is called and whatever UBSE
replies (`SizedManager.call`, `SizedManager.recovery`).
-/
namespace UbsMem

open Function

section Sizes

variable {S : Type} (imports : S → Name → Option ShareMemImportInfo) (ok : S → Prop)
  (real : Name → Nat)

/-- Every import record has the size of its object. -/
structure SizedStore (store : S) : Prop where
  ok : ok store
  record : ∀ n r, imports store n = some r → r.size = real n

/-- Every import record and every entry has the size of its object. -/
structure SizedManager (m : ShmManager S) : Prop where
  store : SizedStore imports ok real m.store
  entry : ∀ n memory, m.find n = some memory → memory.size = real n

variable {imports ok real} {refs : S → Name → UInt32 → Nat} {rs : ShmRecords S}
  {fits : Name → Prop} {store : S} {m : ShmManager S} {name : Name}

theorem SizedStore.of_change (h : SizedStore imports ok real store) {res : Int × S}
    {f : ShareMemImportInfo → Option ShareMemImportInfo} (hok : ok res.2)
    (hchange : ImportChange imports refs store res name f)
    (hf : ∀ r r', f r = some r' → r'.size = r.size) : SizedStore imports ok real res.2 := by
  refine ⟨hok, fun n r hr => ?_⟩
  obtain ⟨-, ⟨-, hsame⟩ | ⟨-, r₀, hr₀, hnew⟩⟩ := hchange
  · exact h.record n r (hsame ▸ hr)
  · rw [hnew] at hr
    by_cases hn : n = name
    · subst hn
      rw [update_self] at hr
      exact (hf r₀ r hr).trans (h.record n r₀ hr₀)
    · rw [update_of_ne hn] at hr
      exact h.record n r hr

theorem SizedStore.of_imports (h : SizedStore imports ok real store) {store' : S} (hok : ok store')
    (hsame : imports store' = imports store) : SizedStore imports ok real store' :=
  ⟨hok, fun n r hr => h.record n r (hsame ▸ hr)⟩

section

variable (hlaw : rs.Lawful imports refs fits ok) (h : SizedStore imports ok real store)
  (name : Name)

include hlaw h

theorem SizedStore.mark (state : RecordState) :
    SizedStore imports ok real (rs.updateShmImportRecordState name state store).2 := by
  obtain ⟨hok, hchange⟩ := hlaw.mark name state store h.ok
  refine h.of_change hok hchange fun r r' hr => ?_
  cases hr
  rfl

theorem SizedStore.delete : SizedStore imports ok real (rs.delShmImportRecord name store).2 := by
  obtain ⟨hok, hchange, -⟩ := hlaw.delete name store h.ok
  refine h.of_change hok hchange fun r r' hr => ?_
  cases hr

end

section

variable (h : SizedManager imports ok real m)

include h

theorem SizedManager.withStore (hstore : SizedStore imports ok real store) :
    SizedManager imports ok real (m.withStore store) := ⟨hstore, h.entry⟩

theorem SizedManager.put {memory : AttachedShareMemory} (hsize : memory.size = real name) :
    SizedManager imports ok real (m.put name memory) := by
  refine ⟨h.store, fun n memory' hn => ?_⟩
  rw [ShmManager.find_put] at hn
  by_cases heq : n = name
  · subst heq
    rw [update_self] at hn
    cases hn
    exact hsize
  · rw [update_of_ne heq] at hn
    exact h.entry n memory' hn

theorem SizedManager.erase : SizedManager imports ok real (m.erase name) := by
  refine ⟨h.store, fun n memory hn => ?_⟩
  rw [ShmManager.find_erase] at hn
  by_cases heq : n = name
  · subst heq
    rw [update_self] at hn
    cases hn
  · rw [update_of_ne heq] at hn
    exact h.entry n memory hn

end

/-! ### Changes of the manager -/

open ShmManager

section

variable (hlaw : rs.Lawful imports refs fits ok)

include hlaw

/-- A change for a name keeps the sizes, if a new entry is made with the size of the object. -/
theorem SizedManager.edit (h : SizedManager imports ok real m) {asks : Nat → Prop}
    {m' : ShmManager S} (hreal : ∀ size, asks size → fits name ∧ size = real name)
    (hedit : m.Edit rs name asks m') : SizedManager imports ok real m' := by
  cases hedit with
  | input pid hasks =>
    obtain ⟨hfits, rfl⟩ := hreal _ hasks
    obtain ⟨hok, -, hcases⟩ := hlaw.input name (real name) pid m.store hfits h.store.ok
    refine h.withStore ⟨hok, fun n r hr => ?_⟩
    rcases hcases with ⟨-, hsame⟩ | ⟨-, -, hnew⟩
    · exact h.store.record n r (hsame ▸ hr)
    · rw [hnew] at hr
      by_cases hn : n = name
      · subst hn
        rw [update_self] at hr
        cases hr
        rfl
      · rw [update_of_ne hn] at hr
        exact h.store.record n r hr
  | result result =>
    obtain ⟨hok, hchange⟩ := hlaw.result name result m.store h.store.ok
    refine h.withStore (h.store.of_change hok hchange fun r r' hr => ?_)
    cases hr
    rfl
  | mark state => exact h.withStore (h.store.mark hlaw name state)
  | delete => exact h.withStore (h.store.delete hlaw name)
  | addRef pid =>
    obtain ⟨hok, hsame, -⟩ := hlaw.addRef pid name m.store h.store.ok
    exact h.withStore (h.store.of_imports hok hsame)
  | delRef pid =>
    obtain ⟨hok, hsame, -⟩ := hlaw.delRef pid name m.store h.store.ok
    exact h.withStore (h.store.of_imports hok hsame)
  | create hasks => exact h.put (hreal _ hasks).2
  | update hold _ hsize => exact h.put (hsize.trans (h.entry name _ hold))
  | erase => exact h.erase

/-! ### The recovery -/

theorem SizedStore.removePreAddRecord (h : SizedStore imports ok real store) (now : Nat)
    (reply : Int × MemStage) (record : ShareMemImportInfo) (monitor : Monitor) :
    SizedStore imports ok real (removePreAddRecord rs now reply record store monitor).2.1 := by
  have hdelete := h.delete hlaw record.name
  unfold ShmManager.removePreAddRecord
  split_ifs
  · exact hdelete
  · exact h
  · exact hdelete
  · exact h

theorem SizedStore.rollbackPreDeleteRecord (h : SizedStore imports ok real store)
    (reply : Int × MemStage) (record : ShareMemImportInfo) :
    SizedStore imports ok real (rollbackPreDeleteRecord rs reply record store).2 := by
  have hmark := h.mark hlaw record.name
  unfold ShmManager.rollbackPreDeleteRecord
  split_ifs
  · exact hmark .deleted
  · exact h
  · exact hmark .deleted
  · exact hmark .finish

theorem SizedManager.recoverImport {monitor : Monitor} (h : SizedManager imports ok real m)
    (now : Nat) (reply : Int × MemStage) {record : ShareMemImportInfo}
    (hsize : record.size = real record.name) :
    SizedManager imports ok real (recoverImport rs now reply record (m, monitor)).1 := by
  have hadd := h.withStore (h.store.removePreAddRecord hlaw now reply record monitor)
  have hdel := h.withStore (h.store.rollbackPreDeleteRecord hlaw reply record)
  have hentry : ∀ state, (entryOfRecord record state).size = real record.name := fun _ => hsize
  unfold ShmManager.recoverImport
  dsimp only
  split
  · split
    · exact hadd
    · exact hadd.put (hentry _)
  · split
    · exact hdel
    · exact hdel.put (hentry _)
  · exact h.put (hentry _)

theorem SizedManager.recoverFromRecord (now : Name → Nat) (stage : Name → Int × MemStage)
    (records : List ShareMemImportInfo) (hsize : ∀ record ∈ records, record.size = real record.name)
    {s : ShmManager S × Monitor} (h : SizedManager imports ok real s.1) :
    SizedManager imports ok real (recoverFromRecord rs now stage records s).2.1 := by
  induction records generalizing s with
  | nil => exact h
  | cons record records ih =>
    unfold ShmManager.recoverFromRecord
    split_ifs
    · exact h
    · refine ih (fun r hr => hsize r (.tail _ hr)) ?_
      exact h.recoverImport hlaw _ _ (hsize record (.head _))

end

theorem SizedManager.recoverRefs (l : List (Name × List UInt32))
    (h : SizedManager imports ok real m) : SizedManager imports ok real (recoverRefs l m).2 := by
  induction l generalizing m with
  | nil => exact h
  | cons ref l ih =>
    unfold ShmManager.recoverRefs
    split
    · exact h
    · next memory hfind => exact ih (h.put (h.entry ref.1 memory hfind))

theorem SizedManager.dropIfUnused (hlaw : rs.Lawful imports refs fits ok)
    (h : SizedManager imports ok real m) (x : Σ _ : Name, AttachedShareMemory) :
    SizedManager imports ok real (dropIfUnused rs m x) := by
  have hdelete := h.withStore (h.store.delete hlaw x.1)
  unfold ShmManager.dropIfUnused
  dsimp only
  split_ifs
  · exact h
  · exact hdelete
  · exact hdelete.erase
  · exact h

/-- The map that `Recovery` builds has the sizes of the records. -/
theorem SizedManager.recovery (hlaw : rs.Lawful imports refs fits ok) (now : Name → Nat)
    (stage : Name → Int × MemStage) (listImports : S → List ShareMemImportInfo)
    (listRefs : S → List (Name × List UInt32)) {s : ShmManager S × Monitor}
    (hlist : ListsImports (imports s.1.store) (listImports s.1.store))
    (h : SizedManager imports ok real s.1) :
    SizedManager imports ok real (recovery rs now stage listImports listRefs s).2.1 := by
  have hsize : ∀ record ∈ listImports s.1.store, record.size = real record.name :=
    fun record hmem => h.store.record record.name record ((hlist.mem _ _).mpr ⟨hmem, rfl⟩)
  have hfirst := h.recoverFromRecord hlaw now stage _ hsize
  unfold ShmManager.recovery recoverFromRefRecord
  dsimp only
  split_ifs
  · exact hfirst
  · exact hfirst.recoverRefs _
  · exact List.foldlRecOn _ _ (hfirst.recoverRefs _) fun m hm x _ => hm.dropIfUnused hlaw x

/-! ### Calls -/

/-- A request that makes an entry asks for the size of the object. -/
def AsksReal (fits : Name → Prop) (real : Name → Nat) (m : ShmManager S) : ShmCall → Prop
  | .prepareAddShareMemoryInfo name size _ => m.find name = none → fits name ∧ size = real name
  | _ => True

theorem SizedManager.call (hlaw : rs.Lawful imports refs fits ok) {mutexOf : Name → Nat} {t : Nat}
    {c : ShmCall} {s s' : ShmWorld S} {r : c.Reply} (h : SizedManager imports ok real s.manager)
    (hasks : AsksReal fits real s.manager c) (hsem : ShmWorld.sem rs mutexOf t c s r s') :
    SizedManager imports ok real s'.manager := by
  have hreal : ∀ name size pid, c = .prepareAddShareMemoryInfo name size pid →
      s.manager.find name = none → ∀ n, c.entry = some n → fits n ∧ size = real n := by
    rintro name size pid rfl hfind n hn
    obtain rfl : name = n := Option.some.inj hn
    exact hasks hfind
  rcases edits_of_sem (fun size => ∀ n, c.entry = some n → fits n ∧ size = real n) hsem hreal with
    hsame | ⟨name, hentry, hedits⟩
  · rw [hsame]
    exact h
  · refine hedits.invariant (fun m m' hedit hm => hm.edit hlaw (fun size hsize => ?_) hedit) h
    exact hsize name hentry

end Sizes

end UbsMem
