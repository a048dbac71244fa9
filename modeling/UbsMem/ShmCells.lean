import UbsMem.ShmFrames
import UbsMem.ShmRecovery

/-! # What the operations of the manager do to one name

`SHMManager` changes its map and the record store together.  Here is, for every
operation, what becomes of the entry, the import record and the references of its name,
and that those of other names stay (`ManagerStep`).  A name is *held* (`Holds`) when its
entry has a record in the same state and a reference for each of its processes.
-/
namespace UbsMem

open Function Option

section Cells

variable {S : Type} (imports : S → Name → Option ShareMemImportInfo)
  (refs : S → Name → UInt32 → Nat) (ok : S → Prop) {pid : Nat} {asks : Nat → Prop}

/-- The entry, the record and the references of a name are as before. -/
structure SameEntry (m m' : ShmManager S) (n : Name) : Prop where
  find : m'.find n = m.find n
  record : imports m'.store n = imports m.store n
  count : refs m'.store n = refs m.store n

/-- An operation on a name leaves the others alone. -/
structure ManagerStep (name : Name) (m m' : ShmManager S) : Prop where
  sound : ok m'.store
  others : ∀ n, n ≠ name → SameEntry imports refs m m' n

/-- A name has an entry and a record in one state, which is not deleted, and a reference
for every process of the entry. -/
structure Holds (m : ShmManager S) (n : Name) (memory : AttachedShareMemory) : Prop where
  find : m.find n = some memory
  record : ∃ r, imports m.store n = some r ∧ r.state = memory.state
  live : memory.state ≠ .deleted
  nodup : memory.pids.Nodup
  users : ∀ pid ∈ memory.pids, pid < 2 ^ 32 ∧ 0 < refs m.store n (.ofNat pid)

variable {imports refs ok} {rs : ShmRecords S} {fits : Name → Prop} {m m' : ShmManager S}
  {name n : Name} {memory : AttachedShareMemory}

theorem SameEntry.refl (m : ShmManager S) (n : Name) : SameEntry imports refs m m n :=
  ⟨rfl, rfl, rfl⟩

theorem Holds.of_same (h : Holds imports refs m n memory) (hsame : SameEntry imports refs m m' n) :
    Holds imports refs m' n memory := by
  refine ⟨hsame.find.trans h.find, ?_, h.live, h.nodup, ?_⟩
  · rw [hsame.record]
    exact h.record
  · rw [hsame.count]
    exact h.users

theorem Holds.recorded (h : Holds imports refs m n memory) : (imports m.store n).isSome := by
  obtain ⟨r, hr, -⟩ := h.record
  rw [hr]
  rfl

theorem ManagerStep.of_store {store : S} (hok : ok store)
    (hrecord : ∀ n, n ≠ name → imports store n = imports m.store n)
    (hcount : ∀ n, n ≠ name → refs store n = refs m.store n) :
    ManagerStep imports refs ok name m (m.withStore store) :=
  ⟨hok, fun n hn => ⟨rfl, hrecord n hn, hcount n hn⟩⟩

theorem ManagerStep.put (h : ManagerStep imports refs ok name m m') (memory : AttachedShareMemory) :
    ManagerStep imports refs ok name m (m'.put name memory) := by
  refine ⟨h.sound, fun n hn => ⟨?_, (h.others n hn).record, (h.others n hn).count⟩⟩
  rw [ShmManager.find_put, update_of_ne hn]
  exact (h.others n hn).find

theorem ManagerStep.erase (h : ManagerStep imports refs ok name m m') :
    ManagerStep imports refs ok name m (m'.erase name) := by
  refine ⟨h.sound, fun n hn => ⟨?_, (h.others n hn).record, (h.others n hn).count⟩⟩
  rw [ShmManager.find_erase, update_of_ne hn]
  exact (h.others n hn).find

theorem ManagerStep.refl (hok : ok m.store) : ManagerStep imports refs ok name m m :=
  ⟨hok, fun n _ => .refl m n⟩

/-! ### References -/

theorem setRefs_of_ne {count : Name → UInt32 → Nat} {pid : UInt32} {k : Nat} (hn : n ≠ name) :
    setRefs count name pid k n = count n := by
  unfold setRefs
  rw [update_of_ne hn]

theorem setRefs_self (count : Name → UInt32 → Nat) (pid : UInt32) (k : Nat) :
    setRefs count name pid k name = update (count name) pid k := by
  unfold setRefs
  rw [update_self]

theorem ofNat_ne {p : Nat} (hpid : pid < 2 ^ 32) (hp : p < 2 ^ 32) (hne : p ≠ pid) :
    UInt32.ofNat p ≠ UInt32.ofNat pid := by
  intro heq
  have h := congrArg UInt32.toNat heq
  rw [UInt32.toNat_ofNat_of_lt' hp, UInt32.toNat_ofNat_of_lt' hpid] at h
  exact hne h

/-! ### Changes of the store -/

theorem ImportChange.others {s : S} {res : Int × S}
    {f : ShareMemImportInfo → Option ShareMemImportInfo}
    (h : ImportChange imports refs s res name f) (hn : n ≠ name) :
    imports res.2 n = imports s n := by
  obtain ⟨-, ⟨-, hsame⟩ | ⟨-, r, -, hnew⟩⟩ := h
  · rw [hsame]
  · rw [hnew, update_of_ne hn]

open ShmManager

theorem managerStep_of_edit (hlaw : rs.Lawful imports refs fits ok) (hok : ok m.store)
    (hfits : ∀ size, asks size → fits name) (h : m.Edit rs name asks m') :
    ManagerStep imports refs ok name m m' := by
  have hrefl : ManagerStep imports refs ok name m m := .refl hok
  cases h with
  | @input size pid hasks =>
    obtain ⟨hok', hcount, hchange⟩ := hlaw.input name size pid m.store (hfits size hasks) hok
    refine .of_store hok' (fun n hn => ?_) fun n _ => congrFun hcount n
    rcases hchange with ⟨-, hsame⟩ | ⟨-, -, hnew⟩
    · rw [hsame]
    · rw [hnew, update_of_ne hn]
  | result result =>
    obtain ⟨hok', hchange⟩ := hlaw.result name result m.store hok
    exact .of_store hok' (fun n hn => hchange.others hn) fun n _ => congrFun hchange.1 n
  | mark state =>
    obtain ⟨hok', hchange⟩ := hlaw.mark name state m.store hok
    exact .of_store hok' (fun n hn => hchange.others hn) fun n _ => congrFun hchange.1 n
  | delete =>
    obtain ⟨hok', hchange, -⟩ := hlaw.delete name m.store hok
    exact .of_store hok' (fun n hn => hchange.others hn) fun n _ => congrFun hchange.1 n
  | addRef pid =>
    obtain ⟨hok', hrecord, hchange⟩ := hlaw.addRef pid name m.store hok
    refine .of_store hok' (fun n _ => congrFun hrecord n) fun n hn => ?_
    rcases hchange with ⟨-, hsame⟩ | ⟨-, hnew⟩
    · rw [hsame]
    · rw [hnew, setRefs_of_ne hn]
  | delRef pid =>
    obtain ⟨hok', hrecord, hchange⟩ := hlaw.delRef pid name m.store hok
    refine .of_store hok' (fun n _ => congrFun hrecord n) fun n hn => ?_
    rcases hchange with ⟨-, hsame⟩ | ⟨-, hnew⟩
    · rw [hsame]
    · rw [hnew, setRefs_of_ne hn]
  | create | update => exact hrefl.put _
  | erase => exact hrefl.erase

theorem ManagerStep.trans {m₁ m₂ : ShmManager S} (h : ManagerStep imports refs ok name m m₁)
    (h' : ManagerStep imports refs ok name m₁ m₂) : ManagerStep imports refs ok name m m₂ := by
  refine ⟨h'.sound, fun n hn => ?_⟩
  have h₁ := h.others n hn
  have h₂ := h'.others n hn
  exact ⟨h₂.find.trans h₁.find, h₂.record.trans h₁.record, h₂.count.trans h₁.count⟩

theorem managerStep_of_edits (hlaw : rs.Lawful imports refs fits ok) (hok : ok m.store)
    (hfits : ∀ size, asks size → fits name) (h : m.Edits rs name asks m') :
    ManagerStep imports refs ok name m m' := by
  induction h with
  | refl => exact .refl hok
  | tail _ hlast ih => exact ih.trans (managerStep_of_edit hlaw ih.sound hfits hlast)

theorem managerStep_of_changes (hlaw : rs.Lawful imports refs fits ok) (hok : ok m.store)
    (h : m.Edits rs name (fun _ => False) m') : ManagerStep imports refs ok name m m' :=
  managerStep_of_edits hlaw hok (fun _ => False.elim) h

/-! ### The name of the operation -/

section

variable (name : Name) (hlaw : rs.Lawful imports refs fits ok) (hok : ok m.store)

include hlaw hok

/-- A process is added: nothing changes, or it has one more reference. -/
theorem addMemoryUserInfo_at (pid : Nat) : let res := addMemoryUserInfo rs name pid m
    res.1 ≠ ubsmOk ∧ SameEntry imports refs m res.2 name ∨
      res.1 = ubsmOk ∧ ∃ memory, m.find name = some memory ∧
        res.2.find name = some { memory with pids := memory.pids.insert pid } ∧
        imports res.2.store name = imports m.store name ∧
        refs res.2.store name = update (refs m.store name) (.ofNat pid)
          (refs m.store name (.ofNat pid) + 1) := by
  unfold addMemoryUserInfo
  split
  · exact .inl ⟨mxmErrShmNotFound_ne, .refl m name⟩
  · next memory hfind =>
    obtain ⟨-, hrecord, hchange⟩ := hlaw.addRef pid name m.store hok
    dsimp only
    split_ifs with hret
    · obtain ⟨-, hsame⟩ := hchange.resolve_right fun h => hret h.1
      exact .inl ⟨mxmErrShmNotFound_ne, rfl, congrFun hrecord name, congrFun hsame name⟩
    · obtain ⟨-, hnew⟩ := hchange.resolve_left fun h => hret h.1
      refine .inr ⟨rfl, memory, hfind, by simp, congrFun hrecord name, ?_⟩
      rw [store_put, store_withStore, hnew, setRefs_self]

/-- A process is removed: nothing changes, or it has one reference less. -/
theorem removeMemoryUserInfo_at (pid : Nat) : let res := removeMemoryUserInfo rs name pid m
    res.1 = mxmErrShmNotFound ∧ SameEntry imports refs m res.2 name ∨
      res.1 = ubsmOk ∧ ∃ memory, m.find name = some memory ∧ pid ∈ memory.pids ∧
        res.2.find name = some { memory with pids := memory.pids.erase pid } ∧
        imports res.2.store name = imports m.store name ∧
        refs res.2.store name = update (refs m.store name) (.ofNat pid)
          (refs m.store name (.ofNat pid) - 1) := by
  unfold removeMemoryUserInfo
  split
  · exact .inl ⟨rfl, .refl m name⟩
  · next memory hfind =>
    obtain ⟨-, hrecord, hchange⟩ := hlaw.delRef pid name m.store hok
    dsimp only
    split_ifs with hpid hret
    · obtain ⟨-, hsame⟩ := hchange.resolve_right fun h => hret h.1
      exact .inl ⟨rfl, rfl, congrFun hrecord name, congrFun hsame name⟩
    · obtain ⟨-, hnew⟩ := hchange.resolve_left fun h => hret h.1
      refine .inr ⟨rfl, memory, hfind, hpid, by simp, congrFun hrecord name, ?_⟩
      rw [store_put, store_withStore, hnew, setRefs_self]
    · exact .inl ⟨rfl, .refl m name⟩

theorem updateShareMemoryRecordState_at (state : RecordState) :
    let res := updateShareMemoryRecordState rs name state m
    res.1 ≠ ubsmOk ∧ SameEntry imports refs m res.2 name ∨
      res.1 = ubsmOk ∧ ∃ memory r, m.find name = some memory ∧
        imports m.store name = some r ∧ res.2.find name = some { memory with state } ∧
        imports res.2.store name = some { r with state } ∧
        refs res.2.store name = refs m.store name := by
  unfold updateShareMemoryRecordState
  split
  · exact .inl ⟨mxmErrShmNotFound_ne, .refl m name⟩
  · next memory hfind =>
    obtain ⟨-, hcount, hchange⟩ := hlaw.mark name state m.store hok
    dsimp only
    split_ifs with hret
    · obtain ⟨-, hsame⟩ := hchange.resolve_right fun h => hret h.1
      exact .inl ⟨mxmErrRecordChangeState_ne, rfl, congrFun hsame name, congrFun hcount name⟩
    · obtain ⟨-, r, hr, hnew⟩ := hchange.resolve_left fun h => hret h.1
      refine .inr ⟨rfl, memory, r, hfind, hr, by simp, ?_, congrFun hcount name⟩
      rw [store_put, store_withStore, hnew, update_self]

end

/-- An entry is added: there was none, and its record says that it is being attached. -/
theorem prepareAddShareMemoryInfo_at (hlaw : rs.Lawful imports refs fits ok) (hok : ok m.store)
    (hfits : fits name) (size pid : Nat) : let res := prepareAddShareMemoryInfo rs name size pid m
    res.1 ≠ ubsmOk ∧ SameEntry imports refs m res.2 name ∨ res.1 = ubsmOk ∧ m.find name = none ∧
        Holds imports refs res.2 name ⟨name, size, .preAdd, [], ShareMemImportResult.empty⟩ := by
  unfold prepareAddShareMemoryInfo
  split
  · exact .inl ⟨mxmErrShmAlreadyExist_ne, .refl m name⟩
  · next hfind =>
    obtain ⟨-, hcount, hchange⟩ := hlaw.input name size pid m.store hfits hok
    dsimp only
    split_ifs with hret
    · obtain ⟨-, hsame⟩ := hchange.resolve_right fun h => hret h.1
      exact .inl ⟨mxmErrRecordAdd_ne, rfl, congrFun hsame name, congrFun hcount name⟩
    · obtain ⟨-, -, hnew⟩ := hchange.resolve_left fun h => hret h.1
      refine .inr ⟨rfl, hfind, by simp, ?_, by simp, List.nodup_nil, by simp⟩
      refine ⟨⟨name, size, ⟨pid, 0, 0⟩, [], 0, 0, 0, .preAdd⟩, ?_, rfl⟩
      rw [store_put, store_withStore, hnew, update_self]

theorem removeMemoryInfo_inUse (hfind : m.find name = some memory) (hpids : memory.pids ≠ []) :
    SameEntry imports refs m (removeMemoryInfo rs name false m).2 name := by
  unfold removeMemoryInfo
  rw [hfind]
  simp only [Bool.false_and, Bool.false_eq_true, if_false, hpids, ne_eq]
  exact ⟨by simp [hfind], rfl, rfl⟩

/-! ### Names that are held -/

theorem Holds.insert (h : Holds imports refs m n memory) (hpid : pid < 2 ^ 32)
    (hfind : m'.find n = some { memory with pids := memory.pids.insert pid })
    (hrecord : imports m'.store n = imports m.store n)
    (hcount : refs m'.store n = update (refs m.store n) (.ofNat pid)
      (refs m.store n (.ofNat pid) + 1)) :
    Holds imports refs m' n { memory with pids := memory.pids.insert pid } := by
  refine ⟨hfind, hrecord ▸ h.record, h.live, h.nodup.insert, fun p hp => ?_⟩
  rw [hcount, update_apply]
  rcases List.mem_insert_iff.mp hp with rfl | hmem
  · exact ⟨hpid, by simp⟩
  · obtain ⟨hlt, hpos⟩ := h.users p hmem
    refine ⟨hlt, ?_⟩
    split_ifs
    · omega
    · exact hpos

theorem Holds.erase (h : Holds imports refs m n memory) (hpid : pid ∈ memory.pids)
    (hfind : m'.find n = some { memory with pids := memory.pids.erase pid })
    (hrecord : imports m'.store n = imports m.store n)
    (hcount : refs m'.store n = update (refs m.store n) (.ofNat pid)
      (refs m.store n (.ofNat pid) - 1)) :
    Holds imports refs m' n { memory with pids := memory.pids.erase pid } := by
  refine ⟨hfind, hrecord ▸ h.record, h.live, h.nodup.erase pid, fun p hp => ?_⟩
  -- the processes that stay are others, also as 32-bit numbers
  obtain ⟨hne, hmem⟩ := (h.nodup.mem_erase_iff).mp hp
  obtain ⟨hlt, hpos⟩ := h.users p hmem
  rw [hcount, update_of_ne (ofNat_ne (h.users pid hpid).1 hlt hne)]
  exact ⟨hlt, hpos⟩

section

variable (hlaw : rs.Lawful imports refs fits ok) (hok : ok m.store)
  (h : Holds imports refs m n memory)

include hlaw hok h

theorem Holds.mark {state : RecordState} (hstate : state ≠ .deleted) :
    (updateShareMemoryRecordState rs n state m).1 = ubsmOk ∧
      Holds imports refs (updateShareMemoryRecordState rs n state m).2 n
        { memory with state } := by
  obtain ⟨r, hr, -⟩ := h.record
  have hret : (updateShareMemoryRecordState rs n state m).1 = ubsmOk := by
    unfold updateShareMemoryRecordState
    simp [h.find, hlaw.marked n r state m.store hr]
  rcases updateShareMemoryRecordState_at n hlaw hok state with
    ⟨hne, -⟩ | ⟨-, memory', r', hfind, -, hfind', hr', hcount⟩
  · exact absurd hret hne
  · obtain rfl : memory' = memory := some.inj (hfind.symm.trans h.find)
    refine ⟨hret, hfind', ⟨_, hr', rfl⟩, hstate, h.nodup, fun pid hpid => ?_⟩
    rw [hcount]
    exact h.users pid hpid

theorem Holds.addUser (hpid : pid < 2 ^ 32) : let res := addMemoryUserInfo rs n pid m
    res.1 ≠ ubsmOk ∧ Holds imports refs res.2 n memory ∨ res.1 = ubsmOk ∧ Holds imports refs res.2 n
      { memory with pids := memory.pids.insert pid } := by
  rcases addMemoryUserInfo_at n hlaw hok pid with
    ⟨hret, hsame⟩ | ⟨hret, memory', hfind, hfind', hrecord, hcount⟩
  · exact .inl ⟨hret, h.of_same hsame⟩
  · obtain rfl : memory' = memory := some.inj (hfind.symm.trans h.find)
    exact .inr ⟨hret, h.insert hpid hfind' hrecord hcount⟩

theorem Holds.removeUser (pid : Nat) :
    Holds imports refs (removeMemoryUserInfo rs n pid m).2 n memory ∨
      Holds imports refs (removeMemoryUserInfo rs n pid m).2 n
        { memory with pids := memory.pids.erase pid } := by
  rcases removeMemoryUserInfo_at n hlaw hok pid with
    ⟨-, hsame⟩ | ⟨-, memory', hfind, hmem, hfind', hrecord, hcount⟩
  · exact .inl (h.of_same hsame)
  · obtain rfl : memory' = memory := some.inj (hfind.symm.trans h.find)
    exact .inr (h.erase hmem hfind' hrecord hcount)

end

section Room

variable {refRoom : Nat → Name → S → Prop} {resultRoom : Name → ShareMemImportResult → S → Prop}
  {pid : Nat}

section

variable (hlaw : rs.Lawful imports refs fits ok) (haccept : rs.Accepts imports refRoom resultRoom)
  (hok : ok m.store) (h : Holds imports refs m n memory) (hpid : pid < 2 ^ 32)

include hlaw haccept hok h hpid

/-- Where there is room for a reference, a memory that is held gets the process. -/
theorem Holds.addUser_room (hroom : refRoom pid n m.store) :
    Holds imports refs (addMemoryUserInfo rs n pid m).2 n
      { memory with pids := memory.pids.insert pid } := by
  rcases h.addUser hlaw hok hpid with ⟨hret, -⟩ | ⟨-, hnew⟩
  · refine absurd ?_ hret
    unfold addMemoryUserInfo
    simp [h.find, haccept.ref pid n m.store h.recorded hroom]
  · exact hnew

/-- Where there is room for the result and a reference, an attach is completed. -/
theorem Holds.full {result : ShareMemImportResult} (hresult : resultRoom n result m.store)
    (hroom : refRoom pid n m.store) :
    (addFullShareMemoryInfo rs n pid result m).1 = ubsmOk ∧
      Holds imports refs (addFullShareMemoryInfo rs n pid result m).2 n
        { memory with state := .finish, result, pids := memory.pids.insert pid } := by
  -- the result is stored
  have hret := haccept.result n result m.store h.recorded hresult
  obtain ⟨hok', hcount, hchange⟩ := hlaw.result n result m.store hok
  obtain ⟨-, r, -, hrecord⟩ := hchange.resolve_left fun hfail => hfail.1 hret
  have hheld : Holds imports refs
      ((m.withStore (rs.addShmImportResult n result m.store).2).put n
        { memory with state := .finish, result }) n
      { memory with state := .finish, result } := by
    have hself := (congrFun hrecord n).trans (update_self ..)
    refine ⟨by simp, ⟨_, hself, rfl⟩, by simp, h.nodup, ?_⟩
    rw [store_put, store_withStore, hcount]
    exact h.users
  -- and then the reference
  have href := haccept.ref pid n _ hheld.recorded (haccept.kept pid n result m.store hroom)
  obtain ⟨-, hsame, hadd⟩ := hlaw.addRef pid n _ hok'
  obtain ⟨-, hrefs⟩ := hadd.resolve_left fun hfail => hfail.1 href
  have heq : addFullShareMemoryInfo rs n pid result m = (ubsmOk,
      (m.withStore (rs.addShmRefRecord pid n (rs.addShmImportResult n result m.store).2).2).put n
        { memory with state := .finish, result, pids := memory.pids.insert pid }) := by
    have href' : (rs.addShmRefRecord pid n (rs.addShmImportResult n result m.store).2).1 = 0 := href
    unfold addFullShareMemoryInfo
    simp [h.find, hret, href']
  rw [heq]
  refine ⟨rfl, hheld.insert hpid (by simp) (congrFun hsame n) ?_⟩
  rw [store_put, store_withStore, hrefs, setRefs_self]
  rfl

end

end Room

end Cells

/-! ### Calls -/

/-- The name whose entry, record, references or attachment a call may change. -/
@[simp]
def ShmCall.cell : ShmCall → Option Name
  | .shmAttach name _ => some name
  | .shmDetach name => some name
  | c => c.entry

theorem cell_of_entry {c : ShmCall} {n : Name} (h : c.entry = some n) : c.cell = some n := by
  cases c with
  | shmAttach | shmDetach => cases h
  | _ => exact h

section Calls

variable {S : Type} (imports : S → Name → Option ShareMemImportInfo)
  (refs : S → Name → UInt32 → Nat)

/-- All that the daemon and the engine have about a name is as before. -/
structure SameCell (s s' : ShmWorld S) (n : Name) : Prop where
  entry : SameEntry imports refs s.manager s'.manager n
  attached : s'.attached n = s.attached n

variable {imports refs} {ok : S → Prop} {rs : ShmRecords S} {fits : Name → Prop}
  {mutexOf : Name → Nat} {t : Nat} {c : ShmCall} {s s' : ShmWorld S} {r : c.Reply}

theorem SameCell.refl (s : ShmWorld S) (n : Name) : SameCell imports refs s s n :=
  ⟨.refl s.manager n, rfl⟩

theorem SameCell.trans {s₁ s₂ : ShmWorld S} {n : Name} (h : SameCell imports refs s s₁ n)
    (h' : SameCell imports refs s₁ s₂ n) : SameCell imports refs s s₂ n :=
  ⟨⟨h'.entry.find.trans h.entry.find, h'.entry.record.trans h.entry.record,
    h'.entry.count.trans h.entry.count⟩, h'.attached.trans h.attached⟩

/-- **What a call leaves alone**: the store stays sound, and all names but one are as
before. -/
theorem cells_of_sem (hlaw : rs.Lawful imports refs fits ok) (hok : ok s.manager.store)
    (hfits : ∀ name size pid, c = .prepareAddShareMemoryInfo name size pid → fits name)
    (h : ShmWorld.sem rs mutexOf t c s r s') :
    ok s'.manager.store ∧ ∀ n, c.cell ≠ some n → SameCell imports refs s s' n := by
  have hattached : ∀ n, c.cell ≠ some n → s'.attached n = s.attached n := by
    refine fun n hn => (frame_of_sem h).attached n ?_ ?_
    · rintro info rfl
      exact hn rfl
    · rintro rfl
      exact hn rfl
  have hasks : ∀ name size pid, c = .prepareAddShareMemoryInfo name size pid →
      s.manager.find name = none → ∀ n, c.entry = some n → fits n := by
    rintro name size pid rfl - n hn
    obtain rfl : name = n := some.inj hn
    exact hfits name size pid rfl
  rcases edits_of_sem _ h hasks with hsame | ⟨name, hentry, hedits⟩
  · refine ⟨hsame ▸ hok, fun n hn => ⟨?_, hattached n hn⟩⟩
    rw [hsame]
    exact .refl s.manager n
  · have hstep := managerStep_of_edits hlaw hok (fun _ hasks => hasks name hentry) hedits
    refine ⟨hstep.sound, fun n hn => ⟨hstep.others n ?_, hattached n hn⟩⟩
    rintro rfl
    exact hn (cell_of_entry hentry)

theorem sameCells_of_sem (hlaw : rs.Lawful imports refs fits ok) (hok : ok s.manager.store)
    (hcell : c.cell = none) (h : ShmWorld.sem rs mutexOf t c s r s') :
    ok s'.manager.store ∧ ∀ n, SameCell imports refs s s' n := by
  refine (cells_of_sem hlaw hok ?_ h).imp_right fun hcells n => hcells n (by rw [hcell]; nofun)
  rintro name size pid rfl
  cases hcell

end Calls

end UbsMem
