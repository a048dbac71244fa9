import Mathlib.Data.List.Dedup
import UbsMem.LeaseRecovery
import UbsMem.ShmRecordView

/-! # Attached shared memories after a restart

`SHMManager::Recovery` fills the map of attached shared memories in two passes.  The
first makes an entry for each import record; for a record that says that its memory
was being attached or detached it asks the engine how far it is.  The second adds the
processes of the reference records, and then drops the entries without a process.

The passes are coupled through the map only.  When the question about a memory that
was being detached fails, it gets no entry, and the second pass gives up at the first
reference to a name without one.
-/
namespace UbsMem

open Function AList ShmManager List

namespace ShmManager

variable {S : Type} (rs : ShmRecords S)

/-- `RemovePreAddRecord`, when `GetShareMemoryStage` answers `reply`: the code, and whether
the record was to be deleted.  The clock shows `now`. -/
def removePreAddRecord (now : Nat) (reply : Int × MemStage) (record : ShareMemImportInfo)
    (store : S) (monitor : Monitor) : (Int × Bool) × S × Monitor :=
  if reply.1 = mxmErrShmNotExist then
    ((ubsmOk, true), (rs.delShmImportRecord record.name store).2, monitor)
  else if reply.1 ≠ 0 then ((reply.1, false), store, monitor)
  else if reply.2 = .notExist ∨ reply.2 = .deleting then
    ((ubsmOk, true), (rs.delShmImportRecord record.name store).2, monitor)
  else
    let key := DelayRemovedKey.make now record.name oneMinuteMs false record.appContext false false
      true
    ((ubsmOk, false), store, monitor.addDelayRemoveRecord { key with isAttach := true })

/-- `RollbackPreDeleteRecord`: the code, and the new state of the record. -/
def rollbackPreDeleteRecord (reply : Int × MemStage) (record : ShareMemImportInfo) (store : S) :
    (Int × RecordState) × S :=
  if reply.1 = mxmErrShmNotExist then
    ((ubsmOk, .deleted), (rs.updateShmImportRecordState record.name .deleted store).2)
  else if reply.1 ≠ 0 then ((reply.1, record.state), store)
  else if reply.2 = .notExist ∨ reply.2 = .deleting ∨ reply.2 = .errWaitUnexport then
    ((ubsmOk, .deleted), (rs.updateShmImportRecordState record.name .deleted store).2)
  else ((ubsmOk, .finish), (rs.updateShmImportRecordState record.name .finish store).2)

/-- The entry of a record; its processes are added later. -/
def entryOfRecord (record : ShareMemImportInfo) (state : RecordState) : AttachedShareMemory where
  name := record.name
  size := record.size
  state := state
  pids := []
  result := ⟨record.memIds, record.unitSize, record.flag, record.oflag, record.appContext.uid,
    record.appContext.gid⟩

/-- The loop of `RecoverFromRecord` for one record, when the engine answers `reply` if it
is asked.  What `RemovePreAddRecord` returns is not looked at. -/
def recoverImport (now : Nat) (reply : Int × MemStage) (record : ShareMemImportInfo)
    (s : ShmManager S × Monitor) : ShmManager S × Monitor :=
  let (m, monitor) := s
  match record.state with
  | .preAdd =>
    let ((_, needToDelete), store, monitor) :=
      removePreAddRecord rs now reply record m.store monitor
    if needToDelete then (m.withStore store, monitor)
    else ((m.withStore store).put record.name (entryOfRecord record .preAdd), monitor)
  | .preDel =>
    let ((ret, state), store) := rollbackPreDeleteRecord rs reply record m.store
    if ret ≠ 0 then (m.withStore store, monitor)
    else ((m.withStore store).put record.name (entryOfRecord record state), monitor)
  | state => (m.put record.name (entryOfRecord record state), monitor)

/-- `RecoverFromRecord` over the records that the store lists; `now` and `stage` are the
clock and the answer of the engine for each name. -/
def recoverFromRecord (now : Name → Nat) (stage : Name → Int × MemStage) :
    List ShareMemImportInfo → ShmManager S × Monitor → Int × ShmManager S × Monitor
  | [], s => (ubsmOk, s)
  | record :: records, s =>
    if (s.1.find record.name).isSome then (mxmErrShmAlreadyExist, s)
    else
      recoverFromRecord now stage records
        (recoverImport rs (now record.name) (stage record.name) record s)

/-- Processes are added to a set of processes. -/
def insertUsers (users : List UInt32) (pids : List Nat) : List Nat :=
  users.foldl (fun pids user => pids.insert user.toNat) pids

/-- The first loop of `RecoverFromRefRecord`: the processes of each name. -/
def recoverRefs : List (Name × List UInt32) → ShmManager S → Int × ShmManager S
  | [], m => (ubsmOk, m)
  | ref :: refs, m =>
    match m.find ref.1 with
    | none => (mxmErrShmNotFound, m)
    | some memory =>
      recoverRefs refs (m.put ref.1 { memory with pids := insertUsers ref.2 memory.pids })

/-- The second loop of `RecoverFromRefRecord` for one entry of the copy of the map. -/
def dropIfUnused (m : ShmManager S) (x : Σ _ : Name, AttachedShareMemory) : ShmManager S :=
  if x.2.state = .preAdd then m
  else if x.2.pids = [] then
    let r := rs.delShmImportRecord x.1 m.store
    if r.1 ≠ 0 then m.withStore r.2 else (m.withStore r.2).erase x.1
  else m

/-- `RecoverFromRefRecord` over the references that the store lists. -/
def recoverFromRefRecord (refs : List (Name × List UInt32)) (m : ShmManager S) :
    Int × ShmManager S :=
  let r := recoverRefs refs m
  if r.1 ≠ ubsmOk then r
  else (ubsmOk, r.2.attachedShareMemory.entries.foldl (dropIfUnused rs) r.2)

/-- `Recovery`.  The store lists import records and references from unordered maps, in the
order of `listImports` and `listRefs`. -/
def recovery (now : Name → Nat) (stage : Name → Int × MemStage)
    (listImports : S → List ShareMemImportInfo) (listRefs : S → List (Name × List UInt32))
    (s : ShmManager S × Monitor) : Int × ShmManager S × Monitor :=
  let r := recoverFromRecord rs now stage (listImports s.1.store) s
  if r.1 ≠ ubsmOk then r
  else
    let r' := recoverFromRefRecord rs (listRefs r.2.1.store) r.2.1
    (r'.1, r'.2, r.2.2)

end ShmManager

/-! ### One import record -/

/-- The engine says that the memory is not attached. -/
def StageGone (reply : Int × MemStage) : Prop :=
  reply.1 = mxmErrShmNotExist ∨ reply.1 = 0 ∧ (reply.2 = .notExist ∨ reply.2 = .deleting)

/-- The question about the memory fails. -/
def StageFailed (reply : Int × MemStage) : Prop := reply.1 ≠ mxmErrShmNotExist ∧ reply.1 ≠ 0

/-- The removal of an attached memory is queued. -/
def AttachQueued (monitor : Monitor) (name : Name) : Prop :=
  ∃ key ∈ monitor.delayedRemoveKeys, key.name = name ∧ key.isAttach = true ∧ key.isLease = false

section Recovery

open ShmManager

variable {S : Type} {imports : S → Name → Option ShareMemImportInfo}
  {refs : S → Name → UInt32 → Nat} {rs : ShmRecords S} {fits touched : Name → Prop} {ok : S → Prop}
  {m m' : ShmManager S} {store : S} {n name : Name} {r record : ShareMemImportInfo}
  {l : List (Name × List UInt32)} {memory : AttachedShareMemory} {monitor : Monitor}
  {stage : Name → Int × MemStage} {free : Prop} {pids : List Nat} {users : List UInt32}
  {x : Σ _ : Name, AttachedShareMemory} {res : Int × ShmManager S × Monitor}

variable (imports refs) in
/-- What the first pass has done about a record: it has an entry, or the engine said that
a memory that was being attached is not there, or it could not be asked about one that was
being detached.  The removal of a memory that was being attached is queued where the queue
was `free`. -/
inductive ImportOutcome (free : Prop) (record : ShareMemImportInfo) (reply : Int × MemStage)
    (m : ShmManager S) (monitor : Monitor) : Prop
  | entry (state : RecordState) (hfind : m.find record.name = some (entryOfRecord record state))
      (hrecord : imports m.store record.name = some { record with state := state })
      (hstate : state = .preAdd ↔ record.state = .preAdd)
      (hqueued : state = .preAdd → ¬StageFailed reply → free → AttachQueued monitor record.name)
  | gone (hstate : record.state = .preAdd) (hgone : StageGone reply)
      (hfind : m.find record.name = none)
      (hrecord : (∀ pid, refs m.store record.name pid = 0) → imports m.store record.name = none)
  | failed (hstate : record.state = .preDel) (hfailed : StageFailed reply)
      (hfind : m.find record.name = none)

variable (imports refs ok) in
/-- What a pass does outside the names of `touched`. -/
structure PassFrame (touched : Name → Prop) (m m' : ShmManager S) : Prop where
  ok : ok m'.store
  refs : refs m'.store = refs m.store
  find : ∀ n, ¬touched n → m'.find n = m.find n
  record : ∀ n, ¬touched n → imports m'.store n = imports m.store n

theorem PassFrame.refl (hok : ok m.store) : PassFrame imports refs ok touched m m :=
  ⟨hok, rfl, fun _ _ => rfl, fun _ _ => rfl⟩

theorem PassFrame.put (h : PassFrame imports refs ok (· = name) m m')
    (memory : AttachedShareMemory) :
    PassFrame imports refs ok (· = name) m (m'.put name memory) := by
  refine { h with find := fun n hn => ?_ }
  rw [find_put, update_of_ne hn]
  exact h.find n hn

section

variable (hlaw : rs.Lawful imports refs fits ok) (hok : ok m.store)
  (hr : imports m.store name = some r)

include hlaw hok hr

theorem passFrame_mark (state : RecordState) :
    let m₁ := m.withStore (rs.updateShmImportRecordState name state m.store).2
    PassFrame imports refs ok (· = name) m m₁ ∧
      imports m₁.store name = some { r with state } := by
  obtain ⟨hok', hrefs, hcases⟩ := hlaw.mark name state m.store hok
  have hzero := hlaw.marked name r state m.store hr
  obtain ⟨-, r', hr', hview⟩ := hcases.resolve_left fun hfailed => hfailed.1 hzero
  obtain rfl : r' = r := Option.some.inj (hr'.symm.trans hr)
  refine ⟨⟨hok', hrefs, fun _ _ => rfl, fun n hn => ?_⟩, ?_⟩
  · rw [store_withStore, hview, update_of_ne hn]
  · rw [store_withStore, hview, update_self]

theorem passFrame_delete : let m₁ := m.withStore (rs.delShmImportRecord name m.store).2
    PassFrame imports refs ok (· = name) m m₁ ∧
      ((rs.delShmImportRecord name m.store).1 ≠ 0 ∧ imports m₁.store = imports m.store ∧
          ¬(∀ pid, refs m.store name pid = 0) ∨
        (rs.delShmImportRecord name m.store).1 = 0 ∧ imports m₁.store name = none) := by
  obtain ⟨hok', ⟨hrefs, hcases⟩, -⟩ := hlaw.delete name m.store hok
  rcases hcases with ⟨hfailed, hview⟩ | ⟨hzero, r', -, hview⟩
  · refine ⟨⟨hok', hrefs, fun _ _ => rfl, fun n _ => congrFun hview n⟩, .inl ⟨hfailed, hview, ?_⟩⟩
    exact fun hnone => hfailed (hlaw.deleted name r m.store hok hr hnone)
  · refine ⟨⟨hok', hrefs, fun _ _ => rfl, fun n hn => ?_⟩, .inr ⟨hzero, ?_⟩⟩
    · rw [store_withStore, hview, update_of_ne hn]
    · rw [store_withStore, hview, update_self]

end

/-- A monitor keeps what it has. -/
def Monitor.Keeps (monitor monitor' : Monitor) : Prop :=
  ∀ key ∈ monitor.delayedRemoveKeys, key ∈ monitor'.delayedRemoveKeys

/-- The record is deleted if it can be; or the question fails; or a removal is queued. -/
theorem removePreAddRecord_outcome (rs : ShmRecords S) (now : Nat) (reply : Int × MemStage)
    (record : ShareMemImportInfo) (store : S) (monitor : Monitor) :
    (removePreAddRecord rs now reply record store monitor =
        ((ubsmOk, true), (rs.delShmImportRecord record.name store).2, monitor) ∧ StageGone reply) ∨
    (∃ ret monitor', removePreAddRecord rs now reply record store monitor =
        ((ret, false), store, monitor') ∧ Monitor.Keeps monitor monitor' ∧
      (∀ key ∈ monitor'.delayedRemoveKeys, key ∈ monitor.delayedRemoveKeys ∨
        key.name = record.name) ∧
      (¬StageFailed reply → (∀ key ∈ monitor.delayedRemoveKeys, key.name ≠ record.name) →
        AttachQueued monitor' record.name)) := by
  unfold removePreAddRecord
  split_ifs with hexist hret hgone
  · exact .inl ⟨rfl, .inl hexist⟩
  · refine .inr ⟨reply.1, monitor, rfl, fun _ hkey => hkey, fun _ hkey => .inl hkey,
      fun hasked => ?_⟩
    exact absurd ⟨hexist, hret⟩ hasked
  · exact .inl ⟨rfl, .inr ⟨not_not.mp hret, hgone⟩⟩
  · refine .inr ⟨ubsmOk, _, rfl, fun key hkey => ?_, fun key hkey => ?_, fun _ hfree => ?_⟩
    · exact Monitor.mem_addDelayRemoveRecord.mpr (.inl hkey)
    · rcases Monitor.mem_addDelayRemoveRecord.mp hkey with hold | ⟨rfl, -⟩
      · exact .inl hold
      · exact .inr rfl
    · refine ⟨_, Monitor.mem_addDelayRemoveRecord.mpr (.inr ⟨rfl, fun key hkey heq => ?_⟩),
        rfl, rfl, rfl⟩
      exact hfree key hkey heq.2.symm

theorem rollbackPreDeleteRecord_outcome (rs : ShmRecords S) (reply : Int × MemStage)
    (record : ShareMemImportInfo) (store : S) :
    (rollbackPreDeleteRecord rs reply record store = ((reply.1, record.state), store) ∧
        StageFailed reply) ∨
      ∃ state, state ≠ .preAdd ∧ rollbackPreDeleteRecord rs reply record store =
        ((ubsmOk, state), (rs.updateShmImportRecordState record.name state store).2) := by
  unfold rollbackPreDeleteRecord
  split_ifs with hexist hret hgone
  · exact .inr ⟨.deleted, by decide, rfl⟩
  · exact .inl ⟨rfl, hexist, hret⟩
  · exact .inr ⟨.deleted, by decide, rfl⟩
  · exact .inr ⟨.finish, by decide, rfl⟩

variable (refs) in
theorem outcome_put (reply : Int × MemStage) (hok : ok m.store)
    (hr : imports m.store record.name = some record) (hpre : record.state ≠ .preAdd) (free : Prop)
    (monitor : Monitor) : let m' := m.put record.name (entryOfRecord record record.state)
    PassFrame imports refs ok (· = record.name) m m' ∧
      ImportOutcome imports refs free record reply m' monitor := by
  refine ⟨(PassFrame.refl hok).put _, .entry record.state ?_ hr Iff.rfl fun hstate => ?_⟩
  · rw [find_put, update_self]
  · exact absurd hstate hpre

/-- **One record**: other names are left alone, and the record comes to one of its
outcomes, whatever the engine answers. -/
theorem recoverImport_outcome (hlaw : rs.Lawful imports refs fits ok) (now : Nat)
    (reply : Int × MemStage) (record : ShareMemImportInfo) (s : ShmManager S × Monitor)
    (hok : ok s.1.store) (hr : imports s.1.store record.name = some record)
    (hfind : s.1.find record.name = none)
    (hfree : free → ∀ key ∈ s.2.delayedRemoveKeys, key.name ≠ record.name) :
    let s' := recoverImport rs now reply record s
    PassFrame imports refs ok (· = record.name) s.1 s'.1 ∧
      ImportOutcome imports refs free record reply s'.1 s'.2 ∧ Monitor.Keeps s.2 s'.2 ∧
      ∀ key ∈ s'.2.delayedRemoveKeys, key ∈ s.2.delayedRemoveKeys ∨ key.name = record.name := by
  obtain ⟨m, monitor⟩ := s
  have hsame : Monitor.Keeps monitor monitor ∧ ∀ key ∈ monitor.delayedRemoveKeys,
      key ∈ monitor.delayedRemoveKeys ∨ key.name = record.name :=
    ⟨fun _ hkey => hkey, fun _ hkey => .inl hkey⟩
  cases hstate : record.state with
  | preAdd =>
    simp only [recoverImport, hstate]
    rcases removePreAddRecord_outcome rs now reply record m.store monitor with
      ⟨heq, hgone⟩ | ⟨ret, monitor', heq, hkeeps, hnew, hqueued⟩
    · simp only [heq, if_true]
      obtain ⟨hframe, hdeleted⟩ := passFrame_delete hlaw hok hr
      refine ⟨hframe, .gone hstate hgone hfind fun hnone => ?_, hsame⟩
      rw [hframe.refs] at hnone
      rcases hdeleted with ⟨-, -, hrefs⟩ | ⟨-, hview⟩
      · exact absurd hnone hrefs
      · exact hview
    · simp only [heq, Bool.false_eq_true, if_false]
      refine ⟨(PassFrame.refl hok).put _, .entry .preAdd ?_ ?_ ?_ fun _ hasked h => ?_, hkeeps,
        hnew⟩
      · rw [find_put, update_self]
      · rw [← hstate]
        exact hr
      · exact ⟨fun _ => hstate, fun _ => rfl⟩
      · exact hqueued hasked (hfree h)
  | preDel =>
    simp only [recoverImport, hstate]
    rcases rollbackPreDeleteRecord_outcome rs reply record m.store with
      ⟨heq, hfailed⟩ | ⟨state, hpre, heq⟩
    · simp only [heq, hfailed.2, ne_eq]
      exact ⟨PassFrame.refl hok, .failed hstate hfailed hfind, hsame⟩
    · have hzero : ¬ubsmOk ≠ 0 := by decide
      simp only [heq, hzero, if_false]
      obtain ⟨hframe, hview⟩ := passFrame_mark hlaw hok hr state
      refine ⟨hframe.put _, .entry state ?_ hview ?_ fun h => absurd h hpre, hsame⟩
      · rw [find_put, update_self]
      · rw [hstate]
        exact ⟨fun h => absurd h hpre, nofun⟩
  | finish =>
    simp only [recoverImport, hstate]
    obtain ⟨hframe, houtcome⟩ := outcome_put refs reply hok hr (by simp [hstate]) free monitor
    rw [hstate] at hframe houtcome
    exact ⟨hframe, houtcome, hsame⟩
  | deleted =>
    simp only [recoverImport, hstate]
    obtain ⟨hframe, houtcome⟩ := outcome_put refs reply hok hr (by simp [hstate]) free monitor
    rw [hstate] at hframe houtcome
    exact ⟨hframe, houtcome, hsame⟩

theorem ImportOutcome.of_frame {reply : Int × MemStage} {monitor monitor' : Monitor}
    (h : ImportOutcome imports refs free record reply m monitor)
    (hframe : PassFrame imports refs ok touched m m') (hname : ¬touched record.name)
    (hkeeps : Monitor.Keeps monitor monitor') :
    ImportOutcome imports refs free record reply m' monitor' := by
  have hfind := hframe.find record.name hname
  have hrecord := hframe.record record.name hname
  cases h with
  | entry state hentry hview hstate hqueued =>
    refine .entry state (hfind.trans hentry) (hrecord.trans hview) hstate fun hpre hasked h => ?_
    obtain ⟨key, hkey, hrest⟩ := hqueued hpre hasked h
    exact ⟨key, hkeeps key hkey, hrest⟩
  | gone hstate hgone hnone hview =>
    refine .gone hstate hgone (hfind.trans hnone) fun hzero => hrecord.trans (hview ?_)
    rwa [hframe.refs] at hzero
  | failed hstate hfailed hnone => exact .failed hstate hfailed (hfind.trans hnone)

/-- **The first pass** goes through all records; each comes to one of its outcomes. -/
theorem recoverFromRecord_outcomes (hlaw : rs.Lawful imports refs fits ok) (now : Name → Nat)
    (stage : Name → Int × MemStage) (records : List ShareMemImportInfo)
    (hnodup : (records.map ShareMemImportInfo.name).Nodup) (s : ShmManager S × Monitor)
    (hok : ok s.1.store)
    (hpending : ∀ record ∈ records, imports s.1.store record.name = some record ∧
      s.1.find record.name = none)
    (free : Name → Prop) (hfree : ∀ record ∈ records, free record.name →
      ∀ key ∈ s.2.delayedRemoveKeys, key.name ≠ record.name) :
    let res := recoverFromRecord rs now stage records s
    res.1 = ubsmOk ∧
      PassFrame imports refs ok (· ∈ records.map ShareMemImportInfo.name) s.1 res.2.1 ∧
      Monitor.Keeps s.2 res.2.2 ∧
      ∀ record ∈ records,
        ImportOutcome imports refs (free record.name) record (stage record.name) res.2.1
        res.2.2 := by
  induction records generalizing s with
  | nil => exact ⟨rfl, PassFrame.refl hok, fun _ hkey => hkey, nofun⟩
  | cons record records ih =>
    obtain ⟨hnew, hnodup⟩ := nodup_cons.mp hnodup
    obtain ⟨hr, hfind⟩ := hpending record (mem_cons_self ..)
    obtain ⟨hframe, houtcome, hkeeps, hadded⟩ := recoverImport_outcome hlaw (now record.name)
      (stage record.name) record s hok hr hfind (hfree record (mem_cons_self ..))
    have hne : ∀ record' ∈ records, record'.name ≠ record.name := fun record' hmem heq =>
      hnew (mem_map.mpr ⟨record', hmem, heq⟩)
    -- the rest of the loop starts from the state after this record
    obtain ⟨hret, hframe', hkeeps', hrest⟩ := ih hnodup
      (recoverImport rs (now record.name) (stage record.name) record s) hframe.ok
      (fun record' hmem => by
        obtain ⟨hr', hfind'⟩ := hpending record' (mem_cons_of_mem _ hmem)
        exact ⟨(hframe.record _ (hne record' hmem)).trans hr',
          (hframe.find _ (hne record' hmem)).trans hfind'⟩)
      (fun record' hmem hname key hkey heq => by
        rcases hadded key hkey with hold | hself
        · exact hfree record' (mem_cons_of_mem _ hmem) hname key hold heq
        · exact hne record' hmem (heq.symm.trans hself))
    have hsome : ¬(s.1.find record.name).isSome = true := by rw [hfind]; simp
    simp only [recoverFromRecord, hsome]
    refine ⟨hret, ?_, fun key hkey => hkeeps' key (hkeeps key hkey), fun record' hmem => ?_⟩
    · refine ⟨hframe'.ok, hframe'.refs.trans hframe.refs, fun n hn => ?_, fun n hn => ?_⟩
      · rw [map_cons, mem_cons, not_or] at hn
        exact (hframe'.find n hn.2).trans (hframe.find n hn.1)
      · rw [map_cons, mem_cons, not_or] at hn
        exact (hframe'.record n hn.2).trans (hframe.record n hn.1)
    · rcases mem_cons.mp hmem with rfl | hmem
      · exact houtcome.of_frame hframe' hnew hkeeps'
      · exact hrest record' hmem

/-! ### The references -/

theorem mem_insertUsers {pid : Nat} :
    pid ∈ insertUsers users pids ↔ pid ∈ pids ∨ ∃ user ∈ users, user.toNat = pid := by
  unfold insertUsers
  induction users generalizing pids with
  | nil => simp
  | cons user users ih =>
    rw [foldl_cons, ih, mem_insert_iff]
    simp only [mem_cons, exists_eq_or_imp]
    constructor
    · rintro ((rfl | hold) | hin)
      · exact .inr (.inl rfl)
      · exact .inl hold
      · exact .inr (.inr hin)
    · rintro (hold | rfl | hin)
      · exact .inl (.inr hold)
      · exact .inl (.inl rfl)
      · exact .inr hin

theorem nodup_insertUsers (h : pids.Nodup) : (insertUsers users pids).Nodup := by
  induction users generalizing pids with
  | nil => exact h
  | cons user users ih => exact ih h.insert

theorem find_put_users (m : ShmManager S) (name : Name) (memory : AttachedShareMemory)
    (users : List UInt32) (n : Name) :
    (m.put name { memory with pids := insertUsers users memory.pids }).find n =
      if n = name then some { memory with pids := insertUsers users memory.pids }
      else m.find n := by
  rw [find_put]
  split_ifs with hn
  · rw [hn, update_self]
  · rw [update_of_ne hn]

/-- An entry keeps everything but its processes, also when the loop gives up. -/
theorem find_recoverRefs (l : List (Name × List UInt32)) (m : ShmManager S)
    (hfind : m.find n = some memory) :
    ∃ pids, (recoverRefs l m).2.find n = some { memory with pids } := by
  induction l generalizing m memory with
  | nil => exact ⟨memory.pids, hfind⟩
  | cons ref l ih =>
    unfold recoverRefs
    cases href : m.find ref.1 with
    | none => exact ⟨memory.pids, hfind⟩
    | some memory' =>
      have hput := find_put_users m ref.1 memory' ref.2 n
      split_ifs at hput with hn
      · obtain rfl : memory' = memory := Option.some.inj (href.symm.trans (hn ▸ hfind))
        obtain ⟨pids, hpids⟩ := ih _ hput
        exact ⟨pids, hpids⟩
      · exact ih _ (hput.trans hfind)

/-- The processes of a name in a list of references. -/
def RefUser (l : List (Name × List UInt32)) (name : Name) (pid : Nat) : Prop :=
  ∃ ref ∈ l, ref.1 = name ∧ ∃ user ∈ ref.2, user.toNat = pid

/-- The processes of each name are added to its entry. -/
structure RefsAdded (l : List (Name × List UInt32)) (m m' : ShmManager S) : Prop where
  store : m'.store = m.store
  none : ∀ n, m.find n = none → m'.find n = none
  users : ∀ n memory, m.find n = some memory → ∃ pids,
    m'.find n = some { memory with pids := pids } ∧ (memory.pids.Nodup → pids.Nodup) ∧
      ∀ pid, pid ∈ pids ↔ pid ∈ memory.pids ∨ RefUser l n pid

/-- **A loop over the references that does not give up** adds all of them. -/
theorem recoverRefs_users (l : List (Name × List UInt32)) (m : ShmManager S)
    (hret : (recoverRefs l m).1 = ubsmOk) : RefsAdded l m (recoverRefs l m).2 := by
  induction l generalizing m with
  | nil =>
    refine ⟨rfl, fun _ hnone => hnone,
      fun n memory hfind => ⟨memory.pids, hfind, id, fun pid => ?_⟩⟩
    simp [RefUser]
  | cons ref l ih =>
    unfold recoverRefs at hret ⊢
    cases href : m.find ref.1 with
    | none =>
      rw [href] at hret
      exact absurd hret mxmErrShmNotFound_ne
    | some memory' =>
      rw [href] at hret
      obtain ⟨hstore, hnone, husers⟩ := ih _ hret
      have hput := find_put_users m ref.1 memory' ref.2
      refine ⟨hstore, fun n hn => hnone n ?_, fun n memory hfind => ?_⟩
      · rw [hput, if_neg, hn]
        rintro rfl
        rw [href] at hn
        cases hn
      · by_cases hn : n = ref.1
        · subst hn
          obtain rfl : memory' = memory := Option.some.inj (href.symm.trans hfind)
          obtain ⟨pids, hfind', hnodup, hmem⟩ := husers ref.1 _ ((hput ref.1).trans (if_pos rfl))
          refine ⟨pids, hfind', fun h => hnodup (nodup_insertUsers h), fun pid => ?_⟩
          rw [hmem, mem_insertUsers, or_assoc]
          simp [RefUser]
        · obtain ⟨pids, hfind', hnodup, hmem⟩ := husers n memory
            ((hput n).trans ((if_neg hn).trans hfind))
          refine ⟨pids, hfind', hnodup, fun pid => ?_⟩
          rw [hmem]
          simp [RefUser, Ne.symm hn]

theorem recoverRefs_ok (l : List (Name × List UInt32)) (m : ShmManager S)
    (hall : ∀ ref ∈ l, (m.find ref.1).isSome) : (recoverRefs l m).1 = ubsmOk := by
  induction l generalizing m with
  | nil => rfl
  | cons ref l ih =>
    unfold recoverRefs
    obtain ⟨memory, hfind⟩ := Option.isSome_iff_exists.mp (hall ref (mem_cons_self ..))
    rw [hfind]
    refine ih _ fun ref' hmem => ?_
    rw [find_put_users]
    split_ifs
    · rfl
    · exact hall ref' (mem_cons_of_mem _ hmem)

/-! ### Entries without a process -/

/-- An entry that `RecoverFromRefRecord` leaves alone. -/
def InUse (memory : AttachedShareMemory) : Prop := memory.state = .preAdd ∨ memory.pids ≠ []

theorem dropIfUnused_inUse (m : ShmManager S) (h : InUse x.2) : dropIfUnused rs m x = m := by
  rcases h with hpre | hpids
  · rw [dropIfUnused, if_pos hpre]
  · simp only [dropIfUnused, hpids, if_false, ite_self]

/-- An entry that is not in use goes, and its record with it, if there are no references. -/
theorem dropIfUnused_unused (hlaw : rs.Lawful imports refs fits ok) (hok : ok m.store)
    (hr : imports m.store x.1 = some r) (h : ¬InUse x.2) :
    PassFrame imports refs ok (· = x.1) m (dropIfUnused rs m x) ∧
      ((∀ pid, refs m.store x.1 pid = 0) →
        (dropIfUnused rs m x).find x.1 = none ∧
        imports (dropIfUnused rs m x).store x.1 = none) := by
  obtain ⟨hpre, hpids⟩ := not_or.mp h
  obtain ⟨hframe, hcases⟩ := passFrame_delete hlaw hok hr
  unfold dropIfUnused
  simp only [hpre, if_false, not_not.mp hpids, if_true]
  rcases hcases with ⟨hfailed, -, hrefs⟩ | ⟨hzero, hview⟩
  · rw [if_pos hfailed]
    exact ⟨hframe, fun hnone => absurd hnone hrefs⟩
  · rw [if_neg (not_not.mpr hzero)]
    refine ⟨{ hframe with find := fun n hn => ?_ }, fun _ => ⟨?_, hview⟩⟩
    · rw [find_erase, update_of_ne hn]
      exact hframe.find n hn
    · rw [find_erase, update_self]

/-- **The second loop** drops the entries that are not in use, and their records, as far
as those have no references.  Everything else stays. -/
theorem dropUnused_spec (hlaw : rs.Lawful imports refs fits ok)
    (l : List (Σ _ : Name, AttachedShareMemory)) (hnodup : (l.map Sigma.fst).Nodup)
    (m : ShmManager S) (hok : ok m.store)
    (hrecord : ∀ x ∈ l, ¬InUse x.2 → (imports m.store x.1).isSome) :
    let m' := l.foldl (dropIfUnused rs) m
    PassFrame imports refs ok (fun n => ∃ x ∈ l, x.1 = n ∧ ¬InUse x.2) m m' ∧
      ∀ x ∈ l, ¬InUse x.2 → (∀ pid, refs m.store x.1 pid = 0) →
        m'.find x.1 = none ∧ imports m'.store x.1 = none := by
  induction l generalizing m with
  | nil => exact ⟨PassFrame.refl hok, nofun⟩
  | cons x l ih =>
    obtain ⟨hnew, hnodup⟩ := nodup_cons.mp hnodup
    have hne : ∀ y ∈ l, y.1 ≠ x.1 := fun y hmem heq => hnew (mem_map.mpr ⟨y, hmem, heq⟩)
    by_cases huse : InUse x.2
    · -- nothing happens
      rw [foldl_cons, dropIfUnused_inUse m huse]
      obtain ⟨hframe, hdropped⟩ := ih hnodup m hok fun y hmem =>
        hrecord y (mem_cons_of_mem _ hmem)
      refine ⟨⟨hframe.ok, hframe.refs, fun n hn => hframe.find n ?_,
        fun n hn => hframe.record n ?_⟩,
        fun y hmem hunused => ?_⟩
      · exact fun ⟨y, hmem, hrest⟩ => hn ⟨y, mem_cons_of_mem _ hmem, hrest⟩
      · exact fun ⟨y, hmem, hrest⟩ => hn ⟨y, mem_cons_of_mem _ hmem, hrest⟩
      · rcases mem_cons.mp hmem with rfl | hmem
        · exact absurd huse hunused
        · exact hdropped y hmem hunused
    · obtain ⟨r, hr⟩ := Option.isSome_iff_exists.mp (hrecord x (mem_cons_self ..) huse)
      obtain ⟨hstep, hgone⟩ := dropIfUnused_unused hlaw hok hr huse
      obtain ⟨hframe, hdropped⟩ := ih hnodup (dropIfUnused rs m x) hstep.ok fun y hmem hunused => by
        rw [hstep.record _ (hne y hmem)]
        exact hrecord y (mem_cons_of_mem _ hmem) hunused
      have hlater : ¬∃ y ∈ l, y.1 = x.1 ∧ ¬InUse y.2 := fun ⟨y, hmem, heq, _⟩ => hne y hmem heq
      have hoff : ∀ n, (¬∃ y ∈ x :: l, y.1 = n ∧ ¬InUse y.2) →
          n ≠ x.1 ∧ ¬∃ y ∈ l, y.1 = n ∧ ¬InUse y.2 := by
        intro n hn
        refine ⟨fun heq => hn ⟨x, mem_cons_self .., heq.symm, huse⟩, ?_⟩
        exact fun ⟨y, hmem, hrest⟩ => hn ⟨y, mem_cons_of_mem _ hmem, hrest⟩
      refine ⟨⟨hframe.ok, hframe.refs.trans hstep.refs, fun n hn => ?_, fun n hn => ?_⟩,
        fun y hmem hunused hnone => ?_⟩
      · exact (hframe.find n (hoff n hn).2).trans (hstep.find n (hoff n hn).1)
      · exact (hframe.record n (hoff n hn).2).trans (hstep.record n (hoff n hn).1)
      · rcases mem_cons.mp hmem with rfl | hmem
        · obtain ⟨hfind, hview⟩ := hgone hnone
          exact ⟨(hframe.find _ hlater).trans hfind, (hframe.record _ hlater).trans hview⟩
        · refine hdropped y hmem hunused ?_
          rwa [hstep.refs]

/-! ### Both passes -/

/-- A list of the import records, in any order. -/
structure ListsImports (records : Name → Option ShareMemImportInfo) (l : List ShareMemImportInfo) :
    Prop where
  nodup : (l.map ShareMemImportInfo.name).Nodup
  mem : ∀ n r, records n = some r ↔ r ∈ l ∧ r.name = n

/-- A list of the names with references, in any order, each with its processes. -/
structure ListsRefs (count : Name → UInt32 → Nat) (l : List (Name × List UInt32)) : Prop where
  mem : ∀ name pid, 0 < count name pid ↔ ∃ users, (name, users) ∈ l ∧ pid ∈ users
  users : ∀ ref ∈ l, ref.2 ≠ []

theorem ListsRefs.refUser_iff {count : Name → UInt32 → Nat} (h : ListsRefs count l) (name : Name)
    (pid : Nat) : RefUser l name pid ↔ ∃ user : UInt32, user.toNat = pid ∧ 0 < count name user := by
  constructor
  · rintro ⟨⟨n, users⟩, hmem, rfl, user, huser, rfl⟩
    exact ⟨user, rfl, (h.mem n user).mpr ⟨users, hmem, huser⟩⟩
  · rintro ⟨user, rfl, hpos⟩
    obtain ⟨users, hmem, huser⟩ := (h.mem name user).mp hpos
    exact ⟨(name, users), hmem, rfl, user, huser, rfl⟩

variable (imports refs ok) in
/-- What the first pass makes of the records of a store. -/
structure FirstPass (stage : Name → Int × MemStage) (free : Name → Prop) (store : S)
    (res : Int × ShmManager S × Monitor) : Prop where
  ret : res.1 = ubsmOk
  sound : ok res.2.1.store
  counts : refs res.2.1.store = refs store
  absent : ∀ n, imports store n = none → res.2.1.find n = none ∧ imports res.2.1.store n = none
  outcome : ∀ n record, imports store n = some record → record.name = n ∧
    ImportOutcome imports refs (free n) record (stage n) res.2.1 res.2.2

theorem firstPass_recoverFromRecord (hlaw : rs.Lawful imports refs fits ok) (now : Name → Nat)
    (stage : Name → Int × MemStage) {l : List ShareMemImportInfo} (hok : ok store)
    (hlist : ListsImports (imports store) l) (monitor : Monitor) (free : Name → Prop)
    (hfree : ∀ record ∈ l, free record.name →
      ∀ key ∈ monitor.delayedRemoveKeys, key.name ≠ record.name) :
    FirstPass imports refs ok stage free store
      (recoverFromRecord rs now stage l (⟨∅, store⟩, monitor)) := by
  obtain ⟨hret, hframe, -, houtcome⟩ := recoverFromRecord_outcomes hlaw now stage l hlist.nodup
    (⟨∅, store⟩, monitor) hok
    (fun record hmem => ⟨(hlist.mem _ _).mpr ⟨hmem, rfl⟩, lookup_empty _⟩) free hfree
  refine ⟨hret, hframe.ok, hframe.refs, fun n hnone => ?_, fun n record hr => ?_⟩
  · have hn : n ∉ l.map ShareMemImportInfo.name := by
      intro hin
      obtain ⟨r, hmem, hname⟩ := mem_map.mp hin
      have hsome := (hlist.mem n r).mpr ⟨hmem, hname⟩
      rw [hnone] at hsome
      cases hsome
    exact ⟨(hframe.find n hn).trans (lookup_empty _), (hframe.record n hn).trans hnone⟩
  · obtain ⟨hmem, rfl⟩ := (hlist.mem n record).mp hr
    exact ⟨rfl, houtcome record hmem⟩

theorem FirstPass.recorded {free : Name → Prop} (h : FirstPass imports refs ok stage free store res)
    (n : Name) (memory : AttachedShareMemory) (hfind : res.2.1.find n = some memory) :
    (imports res.2.1.store n).isSome := by
  cases hr : imports store n with
  | none =>
    rw [(h.absent n hr).1] at hfind
    cases hfind
  | some record =>
    obtain ⟨rfl, houtcome⟩ := h.outcome n record hr
    cases houtcome with
    | entry state _ hrecord =>
      rw [hrecord]
      rfl
    | gone _ _ hnone =>
      rw [hnone] at hfind
      cases hfind
    | failed _ _ hnone =>
      rw [hnone] at hfind
      cases hfind

section

variable
  (hframe : PassFrame imports refs ok
    (fun n => ∃ x ∈ m.attachedShareMemory.entries, x.1 = n ∧ ¬InUse x.2) m m')

include hframe

theorem dropUnused_keeps (hfind : m.find n = some memory) (huse : InUse memory) :
    m'.find n = some memory ∧ imports m'.store n = imports m.store n := by
  have hnot : ¬∃ x ∈ m.attachedShareMemory.entries, x.1 = n ∧ ¬InUse x.2 := by
    rintro ⟨⟨n', memory'⟩, hmem, rfl, hunused⟩
    have hfind' : m.find n' = some memory' := mem_lookup_iff.mpr hmem
    obtain rfl : memory' = memory := Option.some.inj (hfind'.symm.trans hfind)
    exact hunused huse
  exact ⟨(hframe.find n hnot).trans hfind, hframe.record n hnot⟩

theorem dropUnused_none (hfind : m.find n = none) :
    m'.find n = none ∧ imports m'.store n = imports m.store n := by
  have hnot : ¬∃ x ∈ m.attachedShareMemory.entries, x.1 = n ∧ ¬InUse x.2 := by
    rintro ⟨⟨n', memory'⟩, hmem, rfl, -⟩
    have hfind' : m.find n' = some memory' := mem_lookup_iff.mpr hmem
    rw [hfind] at hfind'
    cases hfind'
  exact ⟨(hframe.find n hnot).trans hfind, hframe.record n hnot⟩

end

theorem second_loop (hlaw : rs.Lawful imports refs fits ok) (hok : ok m.store)
    (hrecorded : ∀ n memory, m.find n = some memory → (imports m.store n).isSome) :
    let m' := m.attachedShareMemory.entries.foldl (dropIfUnused rs) m
    PassFrame imports refs ok
        (fun n => ∃ x ∈ m.attachedShareMemory.entries, x.1 = n ∧ ¬InUse x.2) m m' ∧
      ∀ n memory, m.find n = some memory → ¬InUse memory → (∀ pid, refs m.store n pid = 0) →
        m'.find n = none ∧ imports m'.store n = none := by
  obtain ⟨hframe, hdropped⟩ := dropUnused_spec hlaw m.attachedShareMemory.entries
    m.attachedShareMemory.nodupKeys m hok fun x hmem _ =>
      hrecorded x.1 x.2 (mem_lookup_iff.mpr hmem)
  exact ⟨hframe, fun n memory hfind =>
    hdropped ⟨n, memory⟩ (mem_lookup_iff.mp hfind)⟩

/-- `RecoverFromRefRecord` gives up, or both loops are carried out. -/
theorem recoverFromRefRecord_cases (rs : ShmRecords S) (l : List (Name × List UInt32))
    (m : ShmManager S) :
    ((recoverRefs l m).1 ≠ ubsmOk ∧ recoverFromRefRecord rs l m = recoverRefs l m) ∨
      ((recoverRefs l m).1 = ubsmOk ∧ recoverFromRefRecord rs l m = (ubsmOk,
        (recoverRefs l m).2.attachedShareMemory.entries.foldl (dropIfUnused rs)
          (recoverRefs l m).2)) := by
  by_cases hret : (recoverRefs l m).1 = ubsmOk
  · exact .inr ⟨hret, if_neg (not_not.mpr hret)⟩
  · exact .inl ⟨hret, if_pos hret⟩

theorem recorded_recoverRefs (hret : (recoverRefs l m).1 = ubsmOk)
    (hrecorded : ∀ n memory, m.find n = some memory → (imports m.store n).isSome) (n : Name)
    (memory : AttachedShareMemory) (hfind : (recoverRefs l m).2.find n = some memory) :
    (imports (recoverRefs l m).2.store n).isSome := by
  obtain ⟨hstore, hnone, -⟩ := recoverRefs_users l m hret
  rw [hstore]
  cases hold : m.find n with
  | none =>
    rw [hnone n hold] at hfind
    cases hfind
  | some memory' => exact hrecorded n memory' hold

/-- A name with a process, or whose memory is being attached, keeps its entry in the
second pass. -/
theorem second_pass_finds (hlaw : rs.Lawful imports refs fits ok) (hok : ok m.store)
    (hlist : ListsRefs (refs m.store) l)
    (hrecorded : ∀ n memory, m.find n = some memory → (imports m.store n).isSome)
    (hfind : m.find n = some memory)
    (huse : memory.state = .preAdd ∨ ∃ pid, 0 < refs m.store n pid) :
    ((recoverFromRefRecord rs l m).2.find n).isSome := by
  rcases recoverFromRefRecord_cases rs l m with ⟨-, heq⟩ | ⟨hret, heq⟩
  · obtain ⟨pids, hfind'⟩ := find_recoverRefs l m hfind
    rw [heq, hfind']
    rfl
  · obtain ⟨hstore, -, husers⟩ := recoverRefs_users l m hret
    obtain ⟨pids, hfind', -, hpids⟩ := husers n memory hfind
    have hinUse : InUse { memory with pids } := by
      rcases huse with hadd | ⟨pid, hpos⟩
      · exact .inl hadd
      · have huser := (hlist.refUser_iff n pid.toNat).mpr ⟨pid, rfl, hpos⟩
        exact .inr (ne_nil_of_mem ((hpids pid.toNat).mpr (.inr huser)))
    obtain ⟨hframe, -⟩ := second_loop hlaw (hstore ▸ hok) (recorded_recoverRefs hret hrecorded)
    rw [heq, (dropUnused_keeps hframe hfind' hinUse).1]
    rfl

/-- `Recovery` once the first pass has succeeded. -/
theorem recovery_eq {now : Name → Nat} {listImports : S → List ShareMemImportInfo}
    {listRefs : S → List (Name × List UInt32)} {s : ShmManager S × Monitor}
    (hret : (recoverFromRecord rs now stage (listImports s.1.store) s).1 = ubsmOk) :
    recovery rs now stage listImports listRefs s =
      let m := (recoverFromRecord rs now stage (listImports s.1.store) s).2.1
      ((recoverFromRefRecord rs (listRefs m.store) m).1,
        (recoverFromRefRecord rs (listRefs m.store) m).2,
        (recoverFromRecord rs now stage (listImports s.1.store) s).2.2) :=
  if_neg (not_not.mpr hret)

/-- **Recovery does not forget a memory in use**: a name keeps an entry if its record says
that it is being attached and the engine does not say that it is gone, or if it has a
process and the engine can be asked when it has to be.  What becomes of other names does
not matter, not even that the second pass gives up because of one. -/
theorem recovery_finds (hlaw : rs.Lawful imports refs fits ok) (now : Name → Nat)
    (stage : Name → Int × MemStage) (listImports : S → List ShareMemImportInfo)
    (listRefs : S → List (Name × List UInt32)) (hok : ok store)
    (himports : ListsImports (imports store) (listImports store))
    (hrefs : ∀ s, ok s → ListsRefs (refs s) (listRefs s)) (monitor : Monitor)
    (hr : imports store n = some record) (hgone : record.state = .preAdd → ¬StageGone (stage n))
    (hfailed : record.state = .preDel → ¬StageFailed (stage n))
    (huse : record.state = .preAdd ∨ ∃ pid, 0 < refs store n pid) :
    ((recovery rs now stage listImports listRefs (⟨∅, store⟩, monitor)).2.1.find n).isSome := by
  have hfirst := firstPass_recoverFromRecord hlaw now stage hok himports monitor (fun _ => False)
    fun _ _ h => h.elim
  obtain ⟨rfl, houtcome⟩ := hfirst.outcome n record hr
  rw [recovery_eq hfirst.ret]
  cases houtcome with
  | gone hstate hg => exact absurd hg (hgone hstate)
  | failed hstate hf => exact absurd hf (hfailed hstate)
  | entry state hfind _ hpre =>
    refine second_pass_finds hlaw hfirst.sound (hrefs _ hfirst.sound) hfirst.recorded hfind ?_
    rw [hfirst.counts]
    exact huse.imp_left hpre.mpr

/-! ### What recovery leaves -/

/-- An entry is that of the import record of its name, its processes are those with
references, and a memory that was being attached is queued for removal. -/
structure EntryMatches (records : Name → Option ShareMemImportInfo) (count : Name → UInt32 → Nat)
    (monitor : Monitor) (name : Name) (memory : AttachedShareMemory) : Prop where
  record : ∃ r, records name = some r ∧ r.name = name ∧
    memory = { entryOfRecord r r.state with pids := memory.pids }
  nodup : memory.pids.Nodup
  users : ∀ pid, pid ∈ memory.pids ↔ ∃ user : UInt32, user.toNat = pid ∧ 0 < count name user
  queued : memory.state = .preAdd → AttachQueued monitor name

/-- Every entry matches its record, and every record that is not skipped has its entry. -/
structure MapMatches (skipped : Name → Prop) (records : Name → Option ShareMemImportInfo)
    (count : Name → UInt32 → Nat) (monitor : Monitor) (m : ShmManager S) : Prop where
  entries : ∀ n memory, m.find n = some memory → EntryMatches records count monitor n memory
  recorded : ∀ n, (records n).isSome → ¬skipped n → (m.find n).isSome

/-- The memory was being detached, and the question about it fails. -/
def Skipped (records : Name → Option ShareMemImportInfo) (stage : Name → Int × MemStage)
    (n : Name) : Prop :=
  ∃ record, records n = some record ∧ record.state = .preDel ∧ StageFailed (stage n)

variable (imports refs) in
/-- Between the passes: an entry without processes, or neither entry nor record, or no entry
for a record that was skipped and has no reference. -/
inductive EnteredAt (skipped : Name → Prop) (m : ShmManager S) (monitor : Monitor) (n : Name) : Prop
  | none (hfind : m.find n = none) (hrecord : imports m.store n = none)
  | skipped (hfind : m.find n = none) (hskipped : skipped n)
      (hunused : ∀ pid, refs m.store n pid = 0)
  | entry (r : ShareMemImportInfo) (hname : r.name = n)
      (hfind : m.find n = some (entryOfRecord r r.state))
      (hrecord : imports m.store n = some r) (hqueued : r.state = .preAdd → AttachQueued monitor n)

/-- The question about a memory that was being attached is answered, and so is the question
about one that was being detached and has a process; no process has a memory that was being
attached and is not there. -/
structure StageSettled (record : ShareMemImportInfo) (reply : Int × MemStage)
    (count : UInt32 → Nat) : Prop where
  attaching : record.state = .preAdd → ¬StageFailed reply
  detaching : record.state = .preDel → StageFailed reply → ∀ pid, count pid = 0
  unused : record.state = .preAdd → StageGone reply → ∀ pid, count pid = 0

theorem FirstPass.entered (h : FirstPass imports refs ok stage (fun _ => True) store res)
    (hsettled : ∀ n record, imports store n = some record →
      StageSettled record (stage n) (refs store n)) (n : Name) :
    EnteredAt imports refs (Skipped (imports store) stage) res.2.1 res.2.2 n := by
  cases hr : imports store n with
  | none => exact .none (h.absent n hr).1 (h.absent n hr).2
  | some record =>
    obtain ⟨rfl, houtcome⟩ := h.outcome n record hr
    have hstage := hsettled _ record hr
    cases houtcome with
    | entry state hfind hrecord hpre hqueued =>
      refine .entry { record with state } rfl hfind hrecord fun hadd => ?_
      exact hqueued hadd (hstage.attaching (hpre.mp hadd)) trivial
    | gone hstate hgone hfind hrecord =>
      refine .none hfind (hrecord ?_)
      rw [h.counts]
      exact hstage.unused hstate hgone
    | failed hstate hfailed hfind =>
      refine .skipped hfind ⟨record, hr, hstate, hfailed⟩ ?_
      rw [h.counts]
      exact hstage.detaching hstate hfailed

theorem second_pass_at {m m₂ m' : ShmManager S} (hlist : ListsRefs (refs m.store) l)
    (hadded : RefsAdded l m m₂) (hframe : PassFrame imports refs ok
      (fun n => ∃ x ∈ m₂.attachedShareMemory.entries, x.1 = n ∧ ¬InUse x.2) m₂ m')
    (hdropped : ∀ n memory, m₂.find n = some memory → ¬InUse memory →
      (∀ pid, refs m₂.store n pid = 0) → m'.find n = none ∧ imports m'.store n = none)
    {skipped : Name → Prop} (hentered : EnteredAt imports refs skipped m monitor n) :
    (m'.find n = none ∧ (imports m'.store n = none ∨ skipped n)) ∨
      ∃ memory, m'.find n = some memory ∧
        EntryMatches (imports m'.store) (refs m'.store) monitor n memory := by
  have hrefs : refs m'.store = refs m.store := hframe.refs.trans (by rw [hadded.store])
  cases hentered with
  | none hfind hrecord =>
    obtain ⟨hfind', hrecord'⟩ := dropUnused_none hframe (hadded.none n hfind)
    rw [hadded.store] at hrecord'
    exact .inl ⟨hfind', .inl (hrecord'.trans hrecord)⟩
  | skipped hfind hskipped =>
    exact .inl ⟨(dropUnused_none hframe (hadded.none n hfind)).1, .inr hskipped⟩
  | entry r hname hfind hrecord hqueued =>
    obtain ⟨pids, hfind', hnodup, hpids⟩ := hadded.users n _ hfind
    have husers : ∀ pid, pid ∈ pids ↔ ∃ user : UInt32, user.toNat = pid ∧
        0 < refs m.store n user := by
      intro pid
      rw [hpids, ← hlist.refUser_iff]
      exact or_iff_right (not_mem_nil)
    by_cases huse : InUse { entryOfRecord r r.state with pids }
    · obtain ⟨hkept, hrecord'⟩ := dropUnused_keeps hframe hfind' huse
      rw [hadded.store] at hrecord'
      refine .inr ⟨_, hkept, ⟨r, hrecord'.trans hrecord, hname, rfl⟩, hnodup nodup_nil, ?_, hqueued⟩
      rw [hrefs]
      exact husers
    · -- no process, hence no reference
      refine .inl ((hdropped n _ hfind' huse fun pid => ?_).imp_right .inl)
      rw [hadded.store]
      by_contra hne
      have hmem := (husers pid.toNat).mpr ⟨pid, rfl, Nat.pos_of_ne_zero hne⟩
      exact huse (.inr (ne_nil_of_mem hmem))

/-- **The second pass** succeeds and completes the map. -/
theorem second_pass_matches (hlaw : rs.Lawful imports refs fits ok) (hok : ok m.store)
    (hlist : ListsRefs (refs m.store) l) {skipped : Name → Prop}
    (hentered : ∀ n, EnteredAt imports refs skipped m monitor n) :
    let res := recoverFromRefRecord rs l m
    res.1 = ubsmOk ∧ ok res.2.store ∧
      MapMatches skipped (imports res.2.store) (refs res.2.store) monitor res.2 := by
  have hrecorded : ∀ n memory, m.find n = some memory → (imports m.store n).isSome := by
    intro n memory hfind
    cases hentered n with
    | none hnone | skipped hnone =>
      rw [hnone] at hfind
      cases hfind
    | entry r _ _ hrecord =>
      rw [hrecord]
      rfl
  -- a name with a process has a record, hence an entry
  have hall : ∀ ref ∈ l, (m.find ref.1).isSome := by
    rintro ⟨n, users⟩ hmem
    obtain ⟨pid, hpid⟩ := exists_mem_of_ne_nil users (hlist.users _ hmem)
    have hpos := (hlist.mem n pid).mpr ⟨users, hmem, hpid⟩
    have htarget := hlaw.target n pid m.store hok hpos
    cases hentered n with
    | none _ hrecord =>
      rw [hrecord] at htarget
      cases htarget
    | skipped _ _ hunused => exact absurd (hunused pid) hpos.ne'
    | entry r _ hfind =>
      rw [hfind]
      rfl
  have hret := recoverRefs_ok l m hall
  have hadded := recoverRefs_users l m hret
  obtain ⟨hframe, hdropped⟩ := second_loop hlaw (hadded.store ▸ hok)
    (recorded_recoverRefs hret hrecorded)
  have hfinal := fun n => second_pass_at hlist hadded hframe hdropped (hentered n)
  rcases recoverFromRefRecord_cases rs l m with ⟨hfailed, -⟩ | ⟨-, heq⟩
  · exact absurd hret hfailed
  rw [heq]
  refine ⟨rfl, hframe.ok, fun n memory hfind => ?_, fun n hrecord hkept => ?_⟩
  · rcases hfinal n with ⟨hgone, -⟩ | ⟨memory', hfind', hmatches⟩
    · exact absurd (hgone.symm.trans hfind) (by simp)
    · obtain rfl : memory' = memory := Option.some.inj (hfind'.symm.trans hfind)
      exact hmatches
  · rcases hfinal n with ⟨-, hgone⟩ | ⟨memory', hfind', -⟩
    · exact absurd hrecord (by simp [hgone.resolve_right hkept])
    · exact Option.isSome_iff_exists.mpr ⟨memory', hfind'⟩

/-- **Recovery** of a store in which every question is settled. -/
theorem recovery_matches (hlaw : rs.Lawful imports refs fits ok) (now : Name → Nat)
    (stage : Name → Int × MemStage) (listImports : S → List ShareMemImportInfo)
    (listRefs : S → List (Name × List UInt32)) (hok : ok store)
    (himports : ListsImports (imports store) (listImports store))
    (hrefs : ∀ s, ok s → ListsRefs (refs s) (listRefs s))
    (hqueue : ∀ key ∈ monitor.delayedRemoveKeys, imports store key.name = none)
    (hsettled : ∀ n record, imports store n = some record →
      StageSettled record (stage n) (refs store n)) :
    let res := recovery rs now stage listImports listRefs (⟨∅, store⟩, monitor)
    res.1 = ubsmOk ∧ ok res.2.1.store ∧ MapMatches (Skipped (imports store) stage)
      (imports res.2.1.store) (refs res.2.1.store) res.2.2 res.2.1 := by
  have hfirst := firstPass_recoverFromRecord hlaw now stage hok himports monitor (fun _ => True)
    fun record hmem _ key hkey heq => by
      have hsome := (himports.mem record.name record).mpr ⟨hmem, rfl⟩
      rw [← heq, hqueue key hkey] at hsome
      cases hsome
  rw [recovery_eq hfirst.ret]
  exact second_pass_matches hlaw hfirst.sound (hrefs _ hfirst.sound) (hfirst.entered hsettled)

end Recovery

/-! ### The record store -/

/-- The names with references and their processes, in the order of the references. -/
def refListing (s : RecordStore) : List (Name × List UInt32) :=
  let nameOf := fun e : RefEntry => cString (s.mem.imports e.index).name
  (s.cache.cachedRefShmIdxRecords.map nameOf).dedup.map fun name =>
    (name, (s.cache.cachedRefShmIdxRecords.filter fun e => nameOf e = name).map RefEntry.pid)

theorem listsRefs_refListing (s : RecordStore) :
    ListsRefs (listShmRefRecordNameF s) (refListing s) := by
  refine ⟨fun name pid => ?_, fun ref href => ?_⟩
  · simp only [listShmRefRecordNameF, countRefs, countP_pos_iff, decide_eq_true_eq, refListing,
      mem_map, mem_dedup, Prod.mk.injEq]
    constructor
    · rintro ⟨e, he, rfl, rfl⟩
      refine ⟨_, ⟨_, ⟨e, he, rfl⟩, rfl, rfl⟩, mem_map.mpr ⟨e, ?_, rfl⟩⟩
      exact mem_filter.mpr ⟨he, decide_eq_true rfl⟩
    · rintro ⟨users, ⟨name', -, rfl, rfl⟩, hpid⟩
      obtain ⟨e, he, rfl⟩ := mem_map.mp hpid
      obtain ⟨he, hname⟩ := mem_filter.mp he
      exact ⟨e, he, of_decide_eq_true hname, rfl⟩
  · obtain ⟨name, hname, rfl⟩ := mem_map.mp href
    obtain ⟨e, he, rfl⟩ := mem_map.mp (mem_dedup.mp hname)
    refine ne_nil_of_mem (mem_map_of_mem (a := e) ?_)
    exact mem_filter.mpr ⟨he, decide_eq_true rfl⟩

theorem listsImports_of_perm {s : RecordStore} {l : List ShareMemImportInfo}
    (hperm : l.Perm (listShmImportRecord s)) : ListsImports (importRecord s) l := by
  refine ⟨?_, fun n r => ?_⟩
  · refine (hperm.map ShareMemImportInfo.name).nodup_iff.mpr ?_
    rw [listShmImportRecord, map_map]
    exact s.cache.cachedImportShmRecords.nodupKeys
  · rw [hperm.mem_iff, listShmImportRecord, mem_map, importRecord, tableView,
      Option.map_eq_some_iff]
    constructor
    · rintro ⟨e, hfound, rfl⟩
      exact ⟨⟨⟨n, e⟩, mem_lookup_iff.mp hfound, rfl⟩, rfl⟩
    · rintro ⟨⟨⟨n', e⟩, hmem, rfl⟩, rfl⟩
      exact ⟨e, mem_lookup_iff.mpr hmem, rfl⟩

/-- **Recovery succeeds and rebuilds the map of attached memories**, whatever the
operations before the crash and in whatever order the store lists its records, if the
engine answers about every memory that was being attached, or that was being detached and
has a process, no process has a memory that was being attached and is not there, and no
removal is queued yet under the name of an import record. -/
theorem recovery_matches_records (config : StoreConfig) (alive alive' : UInt32 → Bool)
    (ops : List StoreOp) (hnames : ∀ op ∈ ops, op.NamesOk) (now : Name → Nat)
    (stage : Name → Int × MemStage) (listImports : RecordStore → List ShareMemImportInfo)
    (himports : ∀ s, (listImports s).Perm (listShmImportRecord s))
    (listRefs : RecordStore → List (Name × List UInt32))
    (hrefs : ∀ s, ListsRefs (listShmRefRecordNameF s) (listRefs s)) (monitor : Monitor)
    (hqueue : ∀ key ∈ monitor.delayedRemoveKeys,
      importRecord (restartedStore config alive alive' ops) key.name = none)
    (hsettled : ∀ record ∈ listShmImportRecord (restartedStore config alive alive' ops),
      StageSettled record (stage record.name)
        (listShmRefRecordNameF (restartedStore config alive alive' ops) record.name)) :
    let res := ShmManager.recovery (storeShmRecords config) now stage listImports listRefs
      (⟨∅, restartedStore config alive alive' ops⟩, monitor)
    res.1 = ubsmOk ∧ StoreSound config res.2.1.store ∧
      MapMatches (Skipped (importRecord (restartedStore config alive alive' ops)) stage)
        (importRecord res.2.1.store) (listShmRefRecordNameF res.2.1.store) res.2.2 res.2.1 := by
  have hsound := storeSound_restarted config alive alive' hnames
  have hlist := listsImports_of_perm (himports (restartedStore config alive alive' ops))
  refine recovery_matches (storeShmRecords_sound config) now stage listImports listRefs hsound hlist
    (fun s _ => hrefs s) hqueue fun n record hr => ?_
  obtain ⟨hmem, rfl⟩ := (hlist.mem n record).mp hr
  exact hsettled record ((himports _).mem_iff.mp hmem)

/-- The daemon crashes while it detaches one memory; another is attached. -/
def detachOps : List StoreOp :=
  [.addShmImportInput ⟨[98], 4096, 11⟩, .addShmImportResult [98] ⟨[], 0, 0, 0, 0, 0⟩,
    .addShmRefRecord 11 [98], .addShmImportInput ⟨[97], 4096, 10⟩,
    .addShmImportResult [97] ⟨[], 0, 0, 0, 0, 0⟩, .addShmRefRecord 10 [97],
    .updateShmImportRecordState [97] .preDel]

theorem detachOps_namesOk : ∀ op ∈ detachOps, op.NamesOk := by
  simp [detachOps, StoreOp.NamesOk, StoreOp.names]

/-- `Recovery` after the crash, when the engine gives one answer to every question. -/
def recoverDetach (reply : Int × MemStage) : Int × ShmManager RecordStore × Monitor :=
  ShmManager.recovery (storeShmRecords smallStoreConfig) (fun _ => 0) (fun _ => reply)
    listShmImportRecord refListing
    (⟨∅, restartedStore smallStoreConfig (fun _ => true) (fun _ => true) detachOps⟩, .empty)

theorem stageSettled_exist (record : ShareMemImportInfo) (count : UInt32 → Nat) :
    StageSettled record (0, .exist) count := by
  refine ⟨fun _ hfailed => hfailed.2 rfl, fun _ hfailed => absurd rfl hfailed.2, fun _ hgone => ?_⟩
  simp [StageGone, mxmErrShmNotExist] at hgone

theorem recovery_matches_records_detach :
    ((recoverDetach (0, .exist)).1 = ubsmOk ∧
      StoreSound smallStoreConfig (recoverDetach (0, .exist)).2.1.store ∧
      MapMatches (Skipped (importRecord (restartedStore smallStoreConfig (fun _ => true)
          (fun _ => true) detachOps)) fun _ => (0, .exist))
        (importRecord (recoverDetach (0, .exist)).2.1.store)
        (listShmRefRecordNameF (recoverDetach (0, .exist)).2.1.store)
        (recoverDetach (0, .exist)).2.2 (recoverDetach (0, .exist)).2.1) ∧
      (recoverDetach (0, .exist)).2.1.users [97] = [10] := by
  constructor
  · exact recovery_matches_records smallStoreConfig (fun _ => true) (fun _ => true) detachOps
      detachOps_namesOk (fun _ => 0) (fun _ => (0, .exist)) listShmImportRecord
      (fun _ => List.Perm.refl _) refListing listsRefs_refListing .empty
      nofun fun record _ => stageSettled_exist record _
  · decide +kernel

/-- **One question that fails aborts recovery**: the memory that was being detached gets no
entry although it has a process and a record, `Recovery` returns an error, and the process
of the other memory is not registered. -/
theorem failed_question_aborts_recovery : let res := recoverDetach (mxmErrUbseInner, .endMark)
    res.1 = mxmErrShmNotFound ∧ res.2.1.find [97] = none ∧
      (importRecord res.2.1.store [97]).isSome ∧ listShmRefRecordNameF res.2.1.store [97] 10 = 1 ∧
      listShmRefRecordNameF res.2.1.store [98] 11 = 1 ∧ res.2.1.users [98] = [] := by
  decide

end UbsMem
