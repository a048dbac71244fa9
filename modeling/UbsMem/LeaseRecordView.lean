import UbsMem.MlsManager
import UbsMem.RecordStoreInv
import UbsMem.TableView

/-! # Lease records as a map

What the manager of leases needs of the record store: its lease records as a map from
names to records, and what each operation does to that map (`LeaseRecords.Lawful`).  The
record store has this interface as long as its stack of idle slots and its index of names
belong together (`LeaseSlots`).
-/
namespace UbsMem

open List StoreMem Function

/-- A lease record, without its name. -/
structure LeaseRecord where
  fdMode : Bool
  size : Nat
  appContext : AppContext
  state : RecordState
  distance : UInt8
  memIds : List UInt64
  numaId : Int
  unitSize : Nat
  slotId : Nat
  deriving DecidableEq

/-! ### The interface -/

section Interface

variable {S : Type} (view : S → Name → Option LeaseRecord)

/-- An operation on the record of a name fails and changes nothing, or finds the record
and replaces it. -/
def RecordChange (s : S) (res : Int × S) (name : Name) (f : LeaseRecord → Option LeaseRecord) :
    Prop :=
  res.1 ≠ 0 ∧ view res.2 = view s ∨
    res.1 = 0 ∧ ∃ r, view s name = some r ∧ view res.2 = update (view s) name (f r)

/-- A record store whose lease records are the map `view` while `ok` holds of it, as it
does if every name that is added `fits`. -/
structure LeaseRecords.Lawful (rs : LeaseRecords S) (fits : Name → Prop) (ok : S → Prop) :
    Prop where
  add : ∀ input s, fits input.name → ok s → ok (rs.addMemLeaseInput input s).2 ∧
    ((rs.addMemLeaseInput input s).1 ≠ 0 ∧ view (rs.addMemLeaseInput input s).2 = view s ∨
      (rs.addMemLeaseInput input s).1 = 0 ∧ view s input.name = none ∧
        view (rs.addMemLeaseInput input s).2 = update (view s) input.name
          (some { input with memIds := [], numaId := -1, unitSize := 0, slotId := 0 }))
  result : ∀ name result s, ok s → ok (rs.addMemLeaseResult name result s).2 ∧
    RecordChange view s (rs.addMemLeaseResult name result s) name fun r =>
      some { r with
        state := .finish, memIds := result.memIds, numaId := result.numaId
        unitSize := result.unitSize, slotId := result.slotId }
  mark : ∀ name state s, ok s → ok (rs.updateMemLeaseRecordState name state s).2 ∧
    RecordChange view s (rs.updateMemLeaseRecordState name state s) name fun r =>
      some { r with state := state }
  assign : ∀ name context size s, ok s → ok (rs.updateMemLeaseRecord name context size s).2 ∧
    RecordChange view s (rs.updateMemLeaseRecord name context size s) name fun r =>
      some { r with appContext := context, size := size }
  /-- `PreDeleteUsedMem` takes 1 for a lease that went to the cache. -/
  assign_ne_one : ∀ name context size s, (rs.updateMemLeaseRecord name context size s).1 ≠ 1
  delete : ∀ name s, ok s → ok (rs.delMemLeaseRecord name s).2 ∧
    RecordChange view s (rs.delMemLeaseRecord name s) name fun _ => none
  /-- A record that is there is changed and deleted. -/
  found : ∀ name r s, view s name = some r →
    (∀ state, (rs.updateMemLeaseRecordState name state s).1 = 0) ∧
      (rs.delMemLeaseRecord name s).1 = 0

end Interface

/-! ### The record store -/

/-- An operation of the record store as a call. -/
def storeCall (config : StoreConfig) (op : StoreOp) (s : RecordStore) : Int × RecordStore :=
  ((plan config s op).ret, s.step config op)

/-- The record store as the manager of leases uses it, through `MLSRepository`. -/
def storeLeaseRecords (config : StoreConfig) : LeaseRecords RecordStore where
  addMemLeaseInput input := storeCall config (.addMemLeaseInput input)
  addMemLeaseResult name result := storeCall config (.addMemLeaseResult name result)
  updateMemLeaseRecordState name state := storeCall config (.updateMemLeaseRecordState name state)
  updateMemLeaseRecord name context size :=
    storeCall config (.updateMemLeaseRecord name context size)
  delMemLeaseRecord name := storeCall config (.delMemLeaseRecord name)

/-- The fields of a record in the file, with the memory ids of the index. -/
def leaseRecordOf (fields : LeaseFields) (memIds : List UInt64) : LeaseRecord where
  fdMode := fields.fdMode = 1
  size := fields.size
  appContext := ⟨fields.pid, fields.uid, fields.gid⟩
  state := fields.recordState
  distance := fields.distance
  memIds := memIds
  numaId := fields.numaId
  unitSize := fields.unitSize
  slotId := fields.slotId

/-- The lease record of a name. -/
def leaseRecord (s : RecordStore) : Name → Option LeaseRecord :=
  tableView (fun _ => leaseRecordOf) s.mem.leases s.cache.cachedLeaseRecords

/-- The slots under the names are different from each other and from the idle ones. -/
def LeaseSlots (s : RecordStore) : Prop := TableSlots s.cache.leaseIdle s.cache.cachedLeaseRecords

section Store

variable {config : StoreConfig} {s s' : RecordStore} {name : Name} {e : WithMemIdsRecord}

/-! ### The operations -/

theorem leaseRecordOf_input (f : LeaseFields) (input : LeaseMallocInput) :
    leaseRecordOf (applyFields f (leaseInputFields input)) [] =
      { input with memIds := [], numaId := -1, unitSize := 0, slotId := 0 } := by
  cases hmode : input.fdMode <;> simp [leaseRecordOf, applyFields, leaseInputFields, hmode]

theorem leaseRecord_of_lookup (hfound : s.cache.cachedLeaseRecords.lookup name = some e) :
    leaseRecord s name = some (leaseRecordOf (s.mem.leases e.slot).fields e.memIds) :=
  tableView_of_lookup hfound

/-- What an operation that is carried out returns and leaves. -/
def Plan.call (s : RecordStore) (p : Plan) : Int × RecordStore := (p.ret, p.after s)

theorem Plan.ret_refuse (s : RecordStore) : (Plan.refuse s).ret ≠ 0 := by simp [Plan.refuse]

theorem LeaseSlots.addMemLeaseInput (h : LeaseSlots s) (input : LeaseMallocInput) :
    let res := (addMemLeaseInput s input).call s
    LeaseSlots res.2 ∧ (res.1 ≠ 0 ∧ leaseRecord res.2 = leaseRecord s ∨
      res.1 = 0 ∧ leaseRecord s input.name = none ∧
        leaseRecord res.2 = update (leaseRecord s) input.name
          (some { input with memIds := [], numaId := -1, unitSize := 0, slotId := 0 })) := by
  unfold UbsMem.addMemLeaseInput
  split_ifs
  · exact ⟨h, .inl ⟨Plan.ret_refuse s, rfl⟩⟩
  cases hlast : s.cache.leaseIdle.getLast? with
  | none => exact ⟨h, .inl ⟨Plan.ret_refuse s, rfl⟩⟩
  | some slot =>
    cases hfound : s.cache.cachedLeaseRecords.lookup input.name with
    | some e =>
      -- the slot is written, cleared and given back
      simp only [Plan.call, Plan.after, dropLast_append_getLast? slot hlast]
      rw [← map_singleton, ← map_append, write_onLease]
      exact ⟨h, .inl ⟨by decide, TableSlots.scratch h (mem_of_getLast? hlast) _⟩⟩
    | none =>
      have hnew : leaseRecord s input.name = none := by simp [leaseRecord, tableView, hfound]
      simp only [Plan.call, Plan.after]
      rw [write_onLease, Named.apply_recordChanges,
        ← leaseRecordOf_input (s.mem.leases slot).fields]
      refine And.imp_right (fun hview => .inr ⟨trivial, hnew, hview⟩) ?_
      exact TableSlots.occupy h hlast input.name
        ⟨_, applyFields (s.mem.leases slot).fields (leaseInputFields input)⟩

theorem LeaseSlots.assignFields (h : LeaseSlots s)
    (hfound : s.cache.cachedLeaseRecords.lookup name = some e)
    (fields : List (LeaseFields → LeaseFields)) {memIds : List UInt64}
    (hmem : s'.mem.leases = (s.mem.write ((fieldChanges fields).map (onLease e.slot))).leases)
    (hidle : s'.cache.leaseIdle = s.cache.leaseIdle)
    (hcached : ∀ n, s'.cache.cachedLeaseRecords.lookup n =
      if n = name then some ⟨e.slot, memIds⟩ else s.cache.cachedLeaseRecords.lookup n) :
    LeaseSlots s' ∧ leaseRecord s' = update (leaseRecord s) name
      (some (leaseRecordOf (applyFields (s.mem.leases e.slot).fields fields) memIds)) := by
  rw [write_onLease, Named.apply_fieldChanges] at hmem
  unfold LeaseSlots leaseRecord
  rw [hidle, hmem]
  exact TableSlots.change h hfound _ hcached

theorem LeaseSlots.updateMemLeaseRecordState (h : LeaseSlots s) (name : Name)
    (state : RecordState) : let res := (updateMemLeaseRecordState s name state).call s
    LeaseSlots res.2 ∧
      RecordChange leaseRecord s res name fun r => some { r with state } := by
  unfold UbsMem.updateMemLeaseRecordState
  cases hfound : s.cache.cachedLeaseRecords.lookup name with
  | none => exact ⟨h, .inl ⟨Plan.ret_refuse s, rfl⟩⟩
  | some e =>
    refine And.imp_right (fun hview => .inr ⟨rfl, _, leaseRecord_of_lookup hfound, hview⟩) ?_
    exact h.assignFields hfound [fun f => { f with recordState := state }] rfl rfl
      (lookup_same hfound)

theorem LeaseSlots.updateMemLeaseRecord (h : LeaseSlots s) (name : Name) (context : AppContext)
    (size : Nat) : let res := (updateMemLeaseRecord s name context size).call s
    LeaseSlots res.2 ∧ RecordChange leaseRecord s res name fun r =>
      some { r with appContext := context, size } := by
  unfold UbsMem.updateMemLeaseRecord
  cases hfound : s.cache.cachedLeaseRecords.lookup name with
  | none => exact ⟨h, .inl ⟨Plan.ret_refuse s, rfl⟩⟩
  | some e =>
    refine And.imp_right (fun hview => .inr ⟨rfl, _, leaseRecord_of_lookup hfound, hview⟩) ?_
    exact h.assignFields hfound (leaseContextFields context size) rfl rfl (lookup_same hfound)

theorem updateMemLeaseRecord_ne_one (s : RecordStore) (name : Name) (context : AppContext)
    (size : Nat) : (updateMemLeaseRecord s name context size).ret ≠ 1 := by
  unfold UbsMem.updateMemLeaseRecord
  split
  · simp [Plan.refuse]
  · simp

theorem LeaseSlots.addMemLeaseResult (h : LeaseSlots s) (name : Name) (result : LeaseMallocResult) :
    let res := (addMemLeaseResult s name result).call s
    LeaseSlots res.2 ∧ RecordChange leaseRecord s res name fun r =>
      some { r with
        state := .finish, memIds := result.memIds, numaId := result.numaId
        unitSize := result.unitSize, slotId := result.slotId } := by
  unfold UbsMem.addMemLeaseResult
  cases hfound : s.cache.cachedLeaseRecords.lookup name with
  | none => exact ⟨h, .inl ⟨Plan.ret_refuse s, rfl⟩⟩
  | some e =>
    cases hlines : allocLines s.cache.poolIdle result.memIds with
    | none => exact ⟨h, .inl ⟨Plan.ret_refuse s, rfl⟩⟩
    | some alloc =>
      refine And.imp_right (fun hview => .inr ⟨rfl, _, leaseRecord_of_lookup hfound, hview⟩) ?_
      -- the pool is written before the record, and no record is in it
      refine h.assignFields hfound (leaseResultFields result (alloc.1.getD 0 0)) ?_ rfl fun n => ?_
      · simp only [Plan.call, Plan.after]
        rw [write_append, write_onPool, write_onLease, write_onLease]
      · exact lookup_insert_same result.memIds n

theorem LeaseSlots.delMemLeaseRecord (h : LeaseSlots s) (name : Name) :
    let res := (delMemLeaseRecord config s name).call s
    LeaseSlots res.2 ∧ RecordChange leaseRecord s res name fun _ => none := by
  unfold UbsMem.delMemLeaseRecord
  cases hfound : s.cache.cachedLeaseRecords.lookup name with
  | none => exact ⟨h, .inl ⟨Plan.ret_refuse s, rfl⟩⟩
  | some e =>
    refine And.imp_right (fun hview => .inr ⟨rfl, _, leaseRecord_of_lookup hfound, hview⟩) ?_
    have hwrite := write_onLease s.mem e.slot [.clear, .clear]
    simp only [map_cons, map_nil] at hwrite
    simp only [Plan.call, Plan.after]
    rw [write_append, hwrite, write_onPool]
    exact TableSlots.vacate h hfound _

end Store

variable {config : StoreConfig} {s : RecordStore}

theorem found_of_leaseRecord {name : Name} {r : LeaseRecord} (h : leaseRecord s name = some r) :
    (∀ state, (updateMemLeaseRecordState s name state).ret = 0) ∧
      (delMemLeaseRecord config s name).ret = 0 := by
  obtain ⟨e, hfound, -⟩ := Option.map_eq_some_iff.mp h
  simp [updateMemLeaseRecordState, delMemLeaseRecord, hfound]

/-- **The record store is a map of lease records**, whatever names it is given. -/
theorem storeLeaseRecords_lawful (config : StoreConfig) :
    (storeLeaseRecords config).Lawful leaseRecord (fun _ => True) LeaseSlots where
  add input _ _ h := h.addMemLeaseInput input
  result name result _ h := h.addMemLeaseResult name result
  mark name state _ h := h.updateMemLeaseRecordState name state
  assign name context size _ h := h.updateMemLeaseRecord name context size
  assign_ne_one name context size s := updateMemLeaseRecord_ne_one s name context size
  delete name _ h := h.delMemLeaseRecord name
  found _ _ _ h := found_of_leaseRecord h

/-- The name of a record in the file: not empty, and without zeros. -/
def NameOk (name : Name) : Prop := name ≠ [] ∧ (0 : UInt8) ∉ name

/-- The stacks and maps of the store are those of its file. -/
def StoreSound (config : StoreConfig) (s : RecordStore) : Prop :=
  ∃ lines ids, StoreInv config s lines ids

theorem StoreSound.step (h : StoreSound config s) {op : StoreOp}
    (hnames : ∀ name ∈ op.added, NameOk name) : StoreSound config (s.step config op) := by
  obtain ⟨lines, ids, h⟩ := h
  obtain ⟨lines', ids', h', -⟩ := h.carries_step hnames
  exact ⟨lines', ids', h'⟩

theorem StoreSound.leaseSlots (h : StoreSound config s) : LeaseSlots s := by
  obtain ⟨lines, ids, h⟩ := h
  exact h.leases.slots

/-- The stacks and maps stay those of the file when the names that are added are names
of records. -/
theorem storeLeaseRecords_sound (config : StoreConfig) :
    (storeLeaseRecords config).Lawful leaseRecord NameOk (StoreSound config) where
  add input _ hname h :=
    ⟨h.step (forall_mem_singleton.mpr hname), (h.leaseSlots.addMemLeaseInput input).2⟩
  result name result _ h :=
    ⟨h.step (forall_mem_nil _), (h.leaseSlots.addMemLeaseResult name result).2⟩
  mark name state _ h :=
    ⟨h.step (forall_mem_nil _), (h.leaseSlots.updateMemLeaseRecordState name state).2⟩
  assign name context size _ h :=
    ⟨h.step (forall_mem_nil _), (h.leaseSlots.updateMemLeaseRecord name context size).2⟩
  assign_ne_one name context size s := updateMemLeaseRecord_ne_one s name context size
  delete name _ h := ⟨h.step (forall_mem_nil _), (h.leaseSlots.delMemLeaseRecord name).2⟩
  found _ _ _ h := found_of_leaseRecord h

theorem StoreSound.restart (h : StoreSound config s) (alive : UInt32 → Bool) :
    StoreSound config (initializeStore config alive s.mem) := by
  obtain ⟨lines, ids, h⟩ := h
  exact ⟨lines, ids, h.mem.restore alive⟩

theorem StoreSound.leaseRecord_restart (h : StoreSound config s) (alive : UInt32 → Bool) :
    leaseRecord (initializeStore config alive s.mem) = leaseRecord s := by
  obtain ⟨lines, ids, h⟩ := h
  obtain ⟨count, pids, hmem⟩ := initializeStore_mem config alive s.mem
  have hnew := (h.mem.restore alive).leases
  rw [hmem] at hnew
  funext n
  unfold leaseRecord tableView
  rw [hmem, h.leases.lookup_eq hnew]

theorem storeSound_start (config : StoreConfig) (alive : UInt32 → Bool) :
    StoreSound config (RecordStore.start config alive) := ⟨_, _, (memInv_zero config).restore alive⟩

theorem leaseRecord_start (config : StoreConfig) (alive : UInt32 → Bool) (name : Name) :
    leaseRecord (RecordStore.start config alive) name = none := by
  have hinv := ((memInv_zero config).restore alive).leases
  have hnone : (RecordStore.start config alive).cache.cachedLeaseRecords.lookup name = none := by
    by_contra hne
    obtain ⟨e, he⟩ := Option.ne_none_iff_exists'.mp hne
    have hlive := ((hinv.cached name e).mp he).2.1
    obtain ⟨count, pids, hmem⟩ := initializeStore_mem config alive .zero
    rw [hmem] at hlive
    simp [StoreMem.zero, Named.idle] at hlive
  simp [leaseRecord, tableView, hnone]

end UbsMem
