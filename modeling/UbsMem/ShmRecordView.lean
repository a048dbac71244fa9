import Mathlib.Data.List.Count
import UbsMem.LeaseRecordView

/-! # Import and reference records as maps

What the manager of attached shared memories needs of the record store: its import
records as a map from names to records, its reference records as a count for each
name and process, and what each operation does to the two (`ShmRecords.Lawful`).
A record with references is not deleted, and no reference is without a record.
-/
namespace UbsMem

open Function StoreMem List

/-! ### The interface -/

section Interface

variable {S : Type} (imports : S → Name → Option ShareMemImportInfo)
  (refs : S → Name → UInt32 → Nat)

/-- An operation on the import record of a name fails and changes nothing, or finds the
record and replaces it.  References stay. -/
def ImportChange (s : S) (res : Int × S) (name : Name)
    (f : ShareMemImportInfo → Option ShareMemImportInfo) : Prop :=
  refs res.2 = refs s ∧ (res.1 ≠ 0 ∧ imports res.2 = imports s ∨
    res.1 = 0 ∧ ∃ r, imports s name = some r ∧
      imports res.2 = update (imports s) name (f r))

/-- The references of a process to a name become `n`. -/
def setRefs (count : Name → UInt32 → Nat) (name : Name) (pid : UInt32) (n : Nat) :
    Name → UInt32 → Nat :=
  update count name (update (count name) pid n)

/-- A record store whose import records are the map `imports` and whose references are
counted by `refs` while `ok` holds of it, as it does if every name that is added `fits`. -/
structure ShmRecords.Lawful (rs : ShmRecords S) (fits : Name → Prop) (ok : S → Prop) : Prop where
  input : ∀ name size pid s, fits name → ok s →
    ok (rs.addShmImportInput name size pid s).2 ∧
      refs (rs.addShmImportInput name size pid s).2 = refs s ∧
      ((rs.addShmImportInput name size pid s).1 ≠ 0 ∧
          imports (rs.addShmImportInput name size pid s).2 = imports s ∨
        (rs.addShmImportInput name size pid s).1 = 0 ∧ imports s name = none ∧
          imports (rs.addShmImportInput name size pid s).2 = update (imports s) name
            (some ⟨name, size, ⟨pid, 0, 0⟩, [], 0, 0, 0, .preAdd⟩))
  result : ∀ name result s, ok s → ok (rs.addShmImportResult name result s).2 ∧
    ImportChange imports refs s (rs.addShmImportResult name result s) name fun r =>
      some { r with
        appContext := ⟨r.appContext.pid, result.ownerUserId, result.ownerGroupId⟩
        memIds := result.memIds, unitSize := result.unitSize, flag := result.createFlags
        oflag := result.openFlag, state := .finish }
  mark : ∀ name state s, ok s → ok (rs.updateShmImportRecordState name state s).2 ∧
    ImportChange imports refs s (rs.updateShmImportRecordState name state s) name fun r =>
      some { r with state := state }
  delete : ∀ name s, ok s → ok (rs.delShmImportRecord name s).2 ∧
    ImportChange imports refs s (rs.delShmImportRecord name s) name (fun _ => none) ∧
    ((rs.delShmImportRecord name s).1 = 0 → ∀ pid, refs s name pid = 0)
  addRef : ∀ pid name s, ok s → ok (rs.addShmRefRecord pid name s).2 ∧
    imports (rs.addShmRefRecord pid name s).2 = imports s ∧
    ((rs.addShmRefRecord pid name s).1 ≠ 0 ∧ refs (rs.addShmRefRecord pid name s).2 = refs s ∨
      (rs.addShmRefRecord pid name s).1 = 0 ∧
        refs (rs.addShmRefRecord pid name s).2 =
          setRefs (refs s) name (.ofNat pid) (refs s name (.ofNat pid) + 1))
  delRef : ∀ pid name s, ok s → ok (rs.delShmRefRecord pid name s).2 ∧
    imports (rs.delShmRefRecord pid name s).2 = imports s ∧
    ((rs.delShmRefRecord pid name s).1 ≠ 0 ∧ refs (rs.delShmRefRecord pid name s).2 = refs s ∨
      (rs.delShmRefRecord pid name s).1 = 0 ∧
        refs (rs.delShmRefRecord pid name s).2 =
          setRefs (refs s) name (.ofNat pid) (refs s name (.ofNat pid) - 1))
  /-- A record that is there is changed. -/
  marked : ∀ name r state s, imports s name = some r →
    (rs.updateShmImportRecordState name state s).1 = 0
  /-- A record without references is deleted. -/
  deleted : ∀ name r s, ok s → imports s name = some r → (∀ pid, refs s name pid = 0) →
    (rs.delShmImportRecord name s).1 = 0
  /-- No reference is without a record. -/
  target : ∀ name pid s, ok s → 0 < refs s name pid → (imports s name).isSome

/-- What the store has room for it accepts: a reference of a process to a recorded name, and
the result of an attach of one, which takes no room for references. -/
structure ShmRecords.Accepts (rs : ShmRecords S) (refRoom : Nat → Name → S → Prop)
    (resultRoom : Name → ShareMemImportResult → S → Prop) : Prop where
  result : ∀ name result s, (imports s name).isSome → resultRoom name result s →
    (rs.addShmImportResult name result s).1 = 0
  ref : ∀ pid name s, (imports s name).isSome → refRoom pid name s →
    (rs.addShmRefRecord pid name s).1 = 0
  kept : ∀ pid name result s, refRoom pid name s →
    refRoom pid name (rs.addShmImportResult name result s).2

/-- What the store has given out it takes back: a reference that was accepted is for a process
and a name that are `valid`, it can be deleted, and leaves room for itself, whatever becomes of
the states of the import records. -/
structure ShmRecords.TakesBack (rs : ShmRecords S) (ok : S → Prop) (valid : Nat → Name → Prop)
    (refRoom : Nat → Name → S → Prop) : Prop where
  added : ∀ pid name s, (rs.addShmRefRecord pid name s).1 = 0 → valid pid name
  unref : ∀ pid name s, ok s → valid pid name → 0 < refs s name (.ofNat pid) →
    (rs.delShmRefRecord pid name s).1 = 0
  freed : ∀ pid name s, (rs.delShmRefRecord pid name s).1 = 0 →
    refRoom pid name (rs.delShmRefRecord pid name s).2
  kept : ∀ pid name n state s, refRoom pid name s →
    refRoom pid name (rs.updateShmImportRecordState n state s).2

end Interface

/-! ### The record store -/

/-- The record store as the manager of attached shared memories uses it. -/
def storeShmRecords (config : StoreConfig) : ShmRecords RecordStore where
  addShmImportInput name size pid := storeCall config (.addShmImportInput ⟨name, size, pid⟩)
  addShmImportResult name result := storeCall config (.addShmImportResult name result)
  updateShmImportRecordState name state :=
    storeCall config (.updateShmImportRecordState name state)
  delShmImportRecord name := storeCall config (.delShmImportRecord name)
  addShmRefRecord pid name := storeCall config (.addShmRefRecord (.ofNat pid) name)
  delShmRefRecord pid name := storeCall config (.delShmRefRecord (.ofNat pid) name)

/-- The import record of a name. -/
def importRecord (s : RecordStore) : Name → Option ShareMemImportInfo :=
  tableView convertShmImport s.mem.imports s.cache.cachedImportShmRecords

section Store

variable {config : StoreConfig} {s s' : RecordStore} {lines : Owner → List Nat}
  {ids : Owner → List UInt64} {name : Name} {e : WithMemIdsRecord}

theorem importRecord_of_lookup (hfound : s.cache.cachedImportShmRecords.lookup name = some e) :
    importRecord s name = some (convertShmImport name (s.mem.imports e.slot).fields e.memIds) :=
  tableView_of_lookup hfound

theorem lookup_of_importRecord {r : ShareMemImportInfo} (h : importRecord s name = some r) :
    ∃ e, s.cache.cachedImportShmRecords.lookup name = some e := by
  obtain ⟨e, hfound, -⟩ := Option.map_eq_some_iff.mp h
  exact ⟨e, hfound⟩

/-! ### References -/

/-- A reference is to a record in use, which is found under its name. -/
theorem StoreInv.lookup_target (h : StoreInv config s lines ids) {r : RefEntry}
    (hr : r ∈ s.cache.cachedRefShmIdxRecords) :
    s.cache.cachedImportShmRecords.lookup (cString (s.mem.imports r.index).name) =
      some ⟨r.index, ids (.shm r.index)⟩ := by
  obtain ⟨hslot, hpid, heq⟩ := (h.refs.mem r).mp hr
  have hindex : r.index = (s.mem.refs r.slot).shmImportIndex := congrArg RefEntry.index heq
  obtain ⟨hlt, hlive⟩ := h.targets r.slot hslot hpid
  rw [← hindex] at hlt hlive
  exact (h.imports.cached _ _).mpr ⟨hlt, hlive, rfl, rfl⟩

theorem StoreInv.ref_name_iff (h : StoreInv config s lines ids)
    (hfound : s.cache.cachedImportShmRecords.lookup name = some e) {r : RefEntry}
    (hr : r ∈ s.cache.cachedRefShmIdxRecords) :
    cString (s.mem.imports r.index).name = name ↔ r.index = e.slot := by
  constructor
  · intro hname
    have htarget := h.lookup_target hr
    rw [hname, hfound] at htarget
    rw [Option.some.inj htarget]
  · intro hslot
    rw [hslot]
    exact ((h.imports.cached name e).mp hfound).2.2.1

theorem countRefs_congr {m m' : StoreMem} {refs : List RefEntry}
    (hname : ∀ r ∈ refs, cString (m'.imports r.index).name = cString (m.imports r.index).name) :
    countRefs m' refs = countRefs m refs := by
  funext name pid
  refine countP_congr fun r hr => ?_
  rw [hname r hr]

theorem countRefs_scratch {slot : Nat} (r : Named ImportFields)
    (hfree : ∀ ref ∈ s.cache.cachedRefShmIdxRecords, ref.index ≠ slot) (pool : IdPool) :
    countRefs { s.mem with imports := update s.mem.imports slot r, pool }
        s.cache.cachedRefShmIdxRecords = listShmRefRecordNameF s := by
  refine countRefs_congr fun ref href => ?_
  dsimp only
  rw [update_of_ne (hfree ref href)]

theorem StoreInv.ref_ne_idle (h : StoreInv config s lines ids) {slot : Nat}
    (hidle : (s.mem.imports slot).idle = true) :
    ∀ ref ∈ s.cache.cachedRefShmIdxRecords, ref.index ≠ slot := by
  rintro ref href rfl
  have hlive := ((h.imports.cached _ _).mp (h.lookup_target href)).2.1
  rw [hidle] at hlive
  cases hlive

theorem StoreInv.ref_target (h : StoreInv config s lines ids) {pid : UInt32}
    (hpos : 0 < listShmRefRecordNameF s name pid) : (importRecord s name).isSome := by
  obtain ⟨ref, href, hmatch⟩ := countP_pos_iff.mp hpos
  obtain ⟨hname, -⟩ := of_decide_eq_true hmatch
  have htarget := h.lookup_target href
  rw [hname] at htarget
  rw [importRecord_of_lookup htarget]
  rfl

/-! ### The operations -/

section

variable (h : StoreInv config s lines ids)

include h

theorem StoreInv.view_addShmImportInput (input : ShareMemImportInput) :
    let res := (addShmImportInput s input).call s
    listShmRefRecordNameF res.2 = listShmRefRecordNameF s ∧
      (res.1 ≠ 0 ∧ importRecord res.2 = importRecord s ∨
        res.1 = 0 ∧ importRecord s input.name = none ∧
          importRecord res.2 = update (importRecord s) input.name
            (some ⟨input.name, input.size, ⟨input.pid, 0, 0⟩, [], 0, 0, 0, .preAdd⟩)) := by
  unfold addShmImportInput
  split_ifs
  · exact ⟨rfl, .inl ⟨Plan.ret_refuse s, rfl⟩⟩
  cases hlast : s.cache.importIdle.getLast? with
  | none => exact ⟨rfl, .inl ⟨Plan.ret_refuse s, rfl⟩⟩
  | some slot =>
    obtain ⟨-, hidle, -⟩ := h.imports.allocated hlast
    have hfree := h.ref_ne_idle hidle
    cases hfound : s.cache.cachedImportShmRecords.lookup input.name with
    | some e =>
      -- the slot is written, cleared and given back
      simp only [Plan.call, Plan.after]
      rw [← map_singleton, ← map_append, write_onImport]
      exact ⟨countRefs_scratch _ hfree _,
        .inl ⟨by decide, h.imports.slots.scratch (mem_of_getLast? hlast) _⟩⟩
    | none =>
      have hnew : importRecord s input.name = none := by simp [importRecord, tableView, hfound]
      simp only [Plan.call, Plan.after]
      rw [write_onImport, Named.apply_recordChanges]
      refine ⟨countRefs_scratch _ hfree _, .inr ⟨trivial, hnew, ?_⟩⟩
      exact (h.imports.slots.occupy hlast input.name
        ⟨_, applyFields (s.mem.imports slot).fields (importInputFields input)⟩).2

/-- Fields of a record are assigned, and its memory ids; its name stays, and so do the
references to it. -/
theorem StoreInv.view_assignFields (hfound : s.cache.cachedImportShmRecords.lookup name = some e)
    (fields : List (ImportFields → ImportFields)) {memIds : List UInt64}
    (hmem : s'.mem.imports = update s.mem.imports e.slot
      ⟨(s.mem.imports e.slot).name, applyFields (s.mem.imports e.slot).fields fields⟩)
    (hrefs : s'.cache.cachedRefShmIdxRecords = s.cache.cachedRefShmIdxRecords)
    (hcached : ∀ n, s'.cache.cachedImportShmRecords.lookup n =
      if n = name then some ⟨e.slot, memIds⟩ else s.cache.cachedImportShmRecords.lookup n) :
    listShmRefRecordNameF s' = listShmRefRecordNameF s ∧
      importRecord s' = update (importRecord s) name
        (some (convertShmImport name (applyFields (s.mem.imports e.slot).fields fields)
          memIds)) := by
  constructor
  · unfold listShmRefRecordNameF
    rw [hrefs]
    refine countRefs_congr fun ref _ => ?_
    rw [hmem]
    by_cases hslot : ref.index = e.slot
    · rw [hslot, update_self]
    · rw [update_of_ne hslot]
  · unfold importRecord
    rw [hmem]
    exact (h.imports.slots.change hfound _ hcached).2

theorem StoreInv.view_updateShmImportRecordState (name : Name) (state : RecordState) :
    ImportChange importRecord listShmRefRecordNameF s
      ((updateShmImportRecordState s name state).call s) name fun r =>
        some { r with state } := by
  unfold updateShmImportRecordState
  cases hfound : s.cache.cachedImportShmRecords.lookup name with
  | none => exact ⟨rfl, .inl ⟨Plan.ret_refuse s, rfl⟩⟩
  | some e =>
    refine And.imp_right (fun hview => .inr ⟨rfl, _, importRecord_of_lookup hfound, hview⟩) ?_
    refine h.view_assignFields hfound [fun f => { f with recordState := state }] ?_ rfl
      (lookup_same hfound)
    simp only [Plan.call, Plan.after]
    rw [write_onImport, Named.apply_fieldChanges]

theorem StoreInv.view_addShmImportResult (name : Name) (result : ShareMemImportResult) :
    ImportChange importRecord listShmRefRecordNameF s ((addShmImportResult s name result).call s)
      name fun r => some { r with
        appContext := ⟨r.appContext.pid, result.ownerUserId, result.ownerGroupId⟩
        memIds := result.memIds, unitSize := result.unitSize, flag := result.createFlags
        oflag := result.openFlag, state := .finish } := by
  unfold addShmImportResult
  split_ifs
  · exact ⟨rfl, .inl ⟨Plan.ret_refuse s, rfl⟩⟩
  cases hfound : s.cache.cachedImportShmRecords.lookup name with
  | none => exact ⟨rfl, .inl ⟨Plan.ret_refuse s, rfl⟩⟩
  | some e =>
    cases hlines : allocLines s.cache.poolIdle result.memIds with
    | none => exact ⟨rfl, .inl ⟨Plan.ret_refuse s, rfl⟩⟩
    | some alloc =>
      refine And.imp_right (fun hview => .inr ⟨rfl, _, importRecord_of_lookup hfound, hview⟩) ?_
      refine h.view_assignFields hfound (importResultFields result (alloc.1.getD 0 0)) ?_ rfl
        (lookup_insert_same result.memIds)
      simp only [Plan.call, Plan.after]
      rw [write_append, write_onPool, write_onImport, Named.apply_fieldChanges]

theorem StoreInv.unreferenced_iff (hfound : s.cache.cachedImportShmRecords.lookup name = some e) :
    (s.cache.cachedRefShmIdxRecords.any fun r => r.index = e.slot) = false ↔
      ∀ pid, listShmRefRecordNameF s name pid = 0 := by
  simp only [any_eq_false, decide_eq_true_eq, listShmRefRecordNameF, countRefs, countP_eq_zero]
  constructor
  · rintro hnone pid r hr ⟨hname, -⟩
    exact hnone r hr ((h.ref_name_iff hfound hr).mp hname)
  · intro hzero r hr hslot
    exact hzero r.pid r hr ⟨(h.ref_name_iff hfound hr).mpr hslot, rfl⟩

theorem StoreInv.view_delShmImportRecord (name : Name) :
    ImportChange importRecord listShmRefRecordNameF s ((delShmImportRecord config s name).call s)
        name (fun _ => none) ∧
      ((delShmImportRecord config s name).ret = 0 →
        ∀ pid, listShmRefRecordNameF s name pid = 0) := by
  unfold delShmImportRecord
  cases hfound : s.cache.cachedImportShmRecords.lookup name with
  | none => exact
    ⟨⟨rfl, .inl ⟨Plan.ret_refuse s, rfl⟩⟩, fun hret => absurd hret (Plan.ret_refuse s)⟩
  | some e =>
    dsimp only
    split_ifs with hany
    · exact ⟨⟨rfl, .inl ⟨Plan.ret_refuse s, rfl⟩⟩, fun hret => absurd hret (Plan.ret_refuse s)⟩
    have hnone := Bool.not_eq_true _ ▸ hany
    have hfree : ∀ ref ∈ s.cache.cachedRefShmIdxRecords, ref.index ≠ e.slot := by
      intro ref href hslot
      exact hany (any_eq_true.mpr ⟨ref, href, decide_eq_true hslot⟩)
    refine ⟨?_, fun _ => (h.unreferenced_iff hfound).mp hnone⟩
    refine And.imp_right (fun hview => .inr ⟨rfl, _, importRecord_of_lookup hfound, hview⟩) ?_
    simp only [Plan.call, Plan.after]
    rw [write_append, ← map_singleton, write_onImport, write_onPool]
    exact ⟨countRefs_scratch _ hfree _, (h.imports.slots.vacate hfound _).2⟩

theorem StoreInv.ret_delShmImportRecord {r : ShareMemImportInfo} (hr : importRecord s name = some r)
    (hzero : ∀ pid, listShmRefRecordNameF s name pid = 0) :
    (delShmImportRecord config s name).ret = 0 := by
  obtain ⟨e, hfound⟩ := lookup_of_importRecord hr
  simp [delShmImportRecord, hfound, (h.unreferenced_iff hfound).mpr hzero]

/-- A reference of the process to the record is counted for its name. -/
theorem StoreInv.refMatches_iff (hfound : s.cache.cachedImportShmRecords.lookup name = some e)
    (n : Name) (pid p : UInt32) :
    (cString (s.mem.imports e.slot).name = n ∧ pid = p) ↔ n = name ∧ p = pid := by
  rw [((h.imports.cached name e).mp hfound).2.2.1]
  exact and_congr eq_comm eq_comm

end

theorem setRefs_apply (count : Name → UInt32 → Nat) (name n : Name) (pid p : UInt32) (k : Nat) :
    setRefs count name pid k n p = if n = name ∧ p = pid then k else count n p := by
  unfold setRefs
  by_cases hn : n = name
  · subst hn
    by_cases hp : p = pid
    · simp [hp]
    · simp [hp]
  · simp [hn]

section

variable (h : StoreInv config s lines ids)

include h

theorem StoreInv.countRefs_add (hfound : s.cache.cachedImportShmRecords.lookup name = some e)
    (pid : UInt32) (slot : Nat) :
    countRefs s.mem (s.cache.cachedRefShmIdxRecords ++ [⟨e.slot, pid, slot⟩]) =
      setRefs (listShmRefRecordNameF s) name pid (listShmRefRecordNameF s name pid + 1) := by
  funext n p
  rw [setRefs_apply]
  unfold listShmRefRecordNameF countRefs
  rw [countP_append, countP_singleton]
  simp only [h.refMatches_iff hfound, decide_eq_true_eq]
  split_ifs with hmatch
  · rw [hmatch.1, hmatch.2]
  · rfl

theorem StoreInv.view_addShmRefRecord (pid : UInt32) (name : Name) :
    let res := (addShmRefRecord s pid name).call s
    importRecord res.2 = importRecord s ∧
      (res.1 ≠ 0 ∧ listShmRefRecordNameF res.2 = listShmRefRecordNameF s ∨
        res.1 = 0 ∧ listShmRefRecordNameF res.2 = setRefs (listShmRefRecordNameF s) name pid
          (listShmRefRecordNameF s name pid + 1)) := by
  unfold addShmRefRecord
  split_ifs
  · exact ⟨rfl, .inl ⟨Plan.ret_refuse s, rfl⟩⟩
  cases hlast : s.cache.refIdle.getLast? with
  | none => exact ⟨rfl, .inl ⟨Plan.ret_refuse s, rfl⟩⟩
  | some slot =>
    cases hfound : s.cache.cachedImportShmRecords.lookup name with
    | none => exact ⟨rfl, .inl ⟨by simp [Plan.call], rfl⟩⟩
    | some e =>
      exact ⟨rfl, .inr ⟨rfl, h.countRefs_add hfound pid slot⟩⟩

theorem StoreInv.countRefs_remove (hfound : s.cache.cachedImportShmRecords.lookup name = some e)
    {r : RefEntry} {l : List RefEntry} (hr : r ∈ s.cache.cachedRefShmIdxRecords)
    (hindex : r.index = e.slot) (hnodup : l.Nodup)
    (hmem : ∀ r', r' ∈ l ↔ r' ∈ s.cache.cachedRefShmIdxRecords ∧ r' ≠ r) :
    countRefs s.mem l = setRefs (listShmRefRecordNameF s) name r.pid
      (listShmRefRecordNameF s name r.pid - 1) := by
  have hperm : l.Perm (s.cache.cachedRefShmIdxRecords.erase r) := by
    refine (perm_ext_iff_of_nodup hnodup (h.refs.entries.erase r)).mpr fun r' => ?_
    rw [hmem, h.refs.entries.mem_erase_iff]
    exact and_comm
  funext n p
  rw [setRefs_apply]
  unfold listShmRefRecordNameF countRefs
  rw [hperm.countP_eq, countP_erase]
  simp only [hr, true_and, hindex, h.refMatches_iff hfound, decide_eq_true_eq]
  split_ifs with hmatch
  · rw [hmatch.1, hmatch.2]
  · rfl

theorem StoreInv.view_delShmRefRecord (pid : UInt32) (name : Name) :
    let res := (delShmRefRecord s pid name).call s
    importRecord res.2 = importRecord s ∧
      (res.1 ≠ 0 ∧ listShmRefRecordNameF res.2 = listShmRefRecordNameF s ∨
        res.1 = 0 ∧ listShmRefRecordNameF res.2 = setRefs (listShmRefRecordNameF s) name pid
          (listShmRefRecordNameF s name pid - 1)) := by
  unfold delShmRefRecord
  split_ifs
  · exact ⟨rfl, .inl ⟨Plan.ret_refuse s, rfl⟩⟩
  cases hfound : s.cache.cachedImportShmRecords.lookup name with
  | none => exact ⟨rfl, .inl ⟨Plan.ret_refuse s, rfl⟩⟩
  | some e =>
    dsimp only
    rw [h.refs.same]
    rcases eraseLastMultiValue_cases h.refs.entries e.slot pid with
      ⟨herase, -⟩ | ⟨r, hr, ⟨hindex, rfl⟩, l', herase, hnodup, hmem⟩
    · rw [herase]
      exact ⟨rfl, .inl ⟨by simp [Plan.call], rfl⟩⟩
    · rw [herase]
      exact ⟨rfl, .inr ⟨rfl, h.countRefs_remove hfound hr hindex hnodup hmem⟩⟩

end

end Store

/-- **The record store is a map of import records and a count of references**, if the
names that are added are names of records. -/
theorem storeShmRecords_sound (config : StoreConfig) :
    (storeShmRecords config).Lawful importRecord listShmRefRecordNameF NameOk
      (StoreSound config) where
  input name size pid _ hname h := by
    refine ⟨h.step (forall_mem_singleton.mpr hname), ?_⟩
    obtain ⟨lines, ids, h⟩ := h
    exact h.view_addShmImportInput ⟨name, size, pid⟩
  result name result _ h := by
    refine ⟨h.step (forall_mem_nil _), ?_⟩
    obtain ⟨lines, ids, h⟩ := h
    exact h.view_addShmImportResult name result
  mark name state _ h := by
    refine ⟨h.step (forall_mem_nil _), ?_⟩
    obtain ⟨lines, ids, h⟩ := h
    exact h.view_updateShmImportRecordState name state
  delete name _ h := by
    refine ⟨h.step (forall_mem_nil _), ?_⟩
    obtain ⟨lines, ids, h⟩ := h
    exact h.view_delShmImportRecord name
  addRef pid name _ h := by
    refine ⟨h.step (forall_mem_nil _), ?_⟩
    obtain ⟨lines, ids, h⟩ := h
    exact h.view_addShmRefRecord (.ofNat pid) name
  delRef pid name _ h := by
    refine ⟨h.step (forall_mem_nil _), ?_⟩
    obtain ⟨lines, ids, h⟩ := h
    exact h.view_delShmRefRecord (.ofNat pid) name
  marked name r state s h := by
    obtain ⟨e, hfound⟩ := lookup_of_importRecord h
    simp [storeShmRecords, storeCall, plan, updateShmImportRecordState, hfound]
  deleted name r s h hr hzero := by
    obtain ⟨lines, ids, h⟩ := h
    exact h.ret_delShmImportRecord hr hzero
  target name pid s h hpos := by
    obtain ⟨lines, ids, h⟩ := h
    exact h.ref_target hpos

/-- There is a free reference record, and process and name can be stored in it. -/
def RefRoom (pid : Nat) (name : Name) (s : RecordStore) : Prop :=
  refInvalid (.ofNat pid) name = false ∧ s.cache.refIdle ≠ []

/-- The name can be stored, and the memory ids fit into the free lines of the pool. -/
def ResultRoom (name : Name) (result : ShareMemImportResult) (s : RecordStore) : Prop :=
  name.length < recordNameSize ∧ (allocLines s.cache.poolIdle result.memIds).isSome

theorem storeShmRecords_accepts (config : StoreConfig) :
    (storeShmRecords config).Accepts importRecord RefRoom ResultRoom where
  result name result s hrecord hroom := by
    obtain ⟨r, hr⟩ := Option.isSome_iff_exists.mp hrecord
    obtain ⟨e, hfound⟩ := lookup_of_importRecord hr
    obtain ⟨alloc, hlines⟩ := Option.isSome_iff_exists.mp hroom.2
    have hlen : ¬name.length ≥ recordNameSize := not_le.mpr hroom.1
    simp [storeShmRecords, storeCall, plan, addShmImportResult, hlen, hfound, hlines]
  ref pid name s hrecord hroom := by
    obtain ⟨r, hr⟩ := Option.isSome_iff_exists.mp hrecord
    obtain ⟨e, hfound⟩ := lookup_of_importRecord hr
    have hlast := List.getLast?_eq_some_getLast hroom.2
    simp [storeShmRecords, storeCall, plan, addShmRefRecord, hroom.1, hfound, hlast]
  kept pid name result s hroom := by
    refine ⟨hroom.1, ?_⟩
    have hidle : ((storeShmRecords config).addShmImportResult name result s).2.cache.refIdle =
        s.cache.refIdle := by
      simp only [storeShmRecords, storeCall, RecordStore.step, plan, addShmImportResult]
      split_ifs
      · rfl
      · split
        · rfl
        · split <;> rfl
    rw [hidle]
    exact hroom.2

/-- Process and name can be stored in a reference record. -/
def RefValid (pid : Nat) (name : Name) : Prop := refInvalid (.ofNat pid) name = false

theorem storeShmRecords_takesBack (config : StoreConfig) :
    (storeShmRecords config).TakesBack listShmRefRecordNameF (StoreSound config) RefValid
      RefRoom where
  added pid name s h := by
    by_contra hne
    have hinvalid : refInvalid (.ofNat pid) name = true := by simpa [RefValid] using hne
    simp [storeShmRecords, storeCall, plan, addShmRefRecord, hinvalid, Plan.refuse] at h
  unref pid name s hok hvalid hpos := by
    obtain ⟨lines, ids, h⟩ := hok
    obtain ⟨r, hr⟩ := Option.isSome_iff_exists.mp (h.ref_target hpos)
    obtain ⟨e, hfound⟩ := lookup_of_importRecord hr
    obtain ⟨ref, href, hmatch⟩ := countP_pos_iff.mp hpos
    obtain ⟨hname, hpid⟩ := of_decide_eq_true hmatch
    -- the reference is to the slot of the record
    have htarget := h.lookup_target href
    rw [hname, hfound] at htarget
    have hslot : ref.index = e.slot := congrArg WithMemIdsRecord.slot (Option.some.inj htarget).symm
    have hvalid' : refInvalid (.ofNat pid) name = false := hvalid
    rcases eraseLastMultiValue_cases h.refs.entries e.slot (.ofNat pid) with
      ⟨-, hnone⟩ | ⟨ref', -, -, l, herase, -⟩
    · exact absurd ⟨hslot, hpid⟩ (hnone ref href)
    · simp [storeShmRecords, storeCall, plan, delShmRefRecord, hvalid', hfound, herase]
  freed pid name s h := by
    simp only [storeShmRecords, storeCall, RecordStore.step, plan] at h ⊢
    unfold delShmRefRecord at h ⊢
    split_ifs at h ⊢ with hinvalid
    · exact absurd h (Plan.ret_refuse s)
    · cases hfound : s.cache.cachedImportShmRecords.lookup name with
      | none => exact absurd (by rw [hfound] at h; exact h) (Plan.ret_refuse s)
      | some e =>
        rw [hfound] at h
        dsimp only at h ⊢
        split at h
        · cases h
        · exact ⟨by simpa using hinvalid, by simp⟩
  kept pid name n state s hroom := by
    refine ⟨hroom.1, ?_⟩
    have hidle : ((storeShmRecords config).updateShmImportRecordState n state s).2.cache.refIdle =
        s.cache.refIdle := by
      simp only [storeShmRecords, storeCall, RecordStore.step, plan, updateShmImportRecordState]
      split <;> rfl
    rw [hidle]
    exact hroom.2

/-! ### A restart -/

theorem StoreSound.importRecord_restart {config : StoreConfig} {s : RecordStore}
    (h : StoreSound config s) (alive : UInt32 → Bool) :
    importRecord (initializeStore config alive s.mem) = importRecord s ∧
      listShmRefRecordNameF (initializeStore config alive s.mem) = listShmRefRecordNameF s := by
  obtain ⟨lines, ids, h⟩ := h
  obtain ⟨count, pids, hmem⟩ := initializeStore_mem config alive s.mem
  refine ⟨?_, ?_⟩
  · have hnew := (h.mem.restore alive).imports
    rw [hmem] at hnew
    funext n
    unfold importRecord tableView
    rw [hmem, h.imports.lookup_eq hnew]
  · have hnew := (h.mem.restore alive).refs
    rw [hmem] at hnew
    funext n pid
    unfold listShmRefRecordNameF
    rw [hmem]
    exact (h.refs.perm hnew).countP_eq _

theorem importRecord_start (config : StoreConfig) (alive : UInt32 → Bool) (name : Name) :
    importRecord (RecordStore.start config alive) name = none := by
  have hinv := ((memInv_zero config).restore alive).imports
  have hnone :
      (RecordStore.start config alive).cache.cachedImportShmRecords.lookup name = none := by
    by_contra hne
    obtain ⟨e, he⟩ := Option.ne_none_iff_exists'.mp hne
    have hlive := ((hinv.cached name e).mp he).2.1
    obtain ⟨count, pids, hmem⟩ := initializeStore_mem config alive .zero
    rw [hmem] at hlive
    simp [StoreMem.zero, Named.idle] at hlive
  simp [importRecord, tableView, hnone]

end UbsMem
