import UbsMem.RecordStoreInv

/-! # A crash in the middle of an operation

The stores of an operation reach the file one by one, so the daemon may die after any
number of them.  `Consistent` is what one expects of the restart then: records that the
operation does not name are listed as before, and every used line of the pool belongs
to exactly one record.

The store has no log and no commit mark, and some orders of its stores leave windows in
which this fails; `CrashSafe` says outside which windows a crash is harmless.
-/
namespace UbsMem

open Function StoreMem List

/-! ### What a crash must not change -/

/-- The operation is about the region of that name. -/
def StoreOp.namesRegion (op : StoreOp) (name : Name) : Prop :=
  match op with
  | .addRegionRecord input => name = input.name
  | .delRegionRecord n => name = n
  | _ => False

/-- The operation is about the lease of that name. -/
def StoreOp.namesLease (op : StoreOp) (name : Name) : Prop :=
  match op with
  | .addMemLeaseInput input => name = input.name
  | .addMemLeaseResult n _ => name = n
  | .updateMemLeaseRecordState n _ => name = n
  | .updateMemLeaseRecord n _ _ => name = n
  | .delMemLeaseRecord n => name = n
  | _ => False

/-- The operation is about the imported shared memory of that name. -/
def StoreOp.namesImport (op : StoreOp) (name : Name) : Prop :=
  match op with
  | .addShmImportInput input => name = input.name
  | .addShmImportResult n _ => name = n
  | .updateShmImportRecordState n _ => name = n
  | .delShmImportRecord n => name = n
  | _ => False

/-- The operation is about the references of a process to a name. -/
def StoreOp.namesRef (op : StoreOp) (name : Name) (pid : UInt32) : Prop :=
  match op with
  | .addShmRefRecord p n => name = n ∧ pid = p
  | .delShmRefRecord p n => name = n ∧ pid = p
  | .delShmRefRecordsByPid p _ => pid = p
  | _ => False

/-- The operation is about that client. -/
def StoreOp.namesClient (op : StoreOp) (pid : UInt32) : Prop :=
  match op with
  | .addSuspendClient p => pid = p
  | .delSuspendClient p => pid = p
  | _ => False

/-- A record is in one of the maps. -/
def RecordStore.restored (s : RecordStore) : Owner → Prop
  | .lease i => ∃ name e, s.cache.cachedLeaseRecords.lookup name = some e ∧ e.slot = i
  | .shm i => ∃ name e, s.cache.cachedImportShmRecords.lookup name = some e ∧ e.slot = i

/-- The lines of the chain that a record points to. -/
def RecordStore.chainLines (config : StoreConfig) (s : RecordStore) (o : Owner) : List Nat :=
  releasedLines config.lineCount s.mem.pool (s.mem.holding config o).memIdCount
    (s.mem.holding config o).memIdBuffer

/-- **What a restart after a crash must preserve**: `s` is the store before the
operation, `s'` the one after the restart. -/
structure Consistent (config : StoreConfig) (alive : UInt32 → Bool) (op : StoreOp)
    (s s' : RecordStore) : Prop where
  regions : ∀ r ∈ listRegionRecord s, ¬op.namesRegion r.name → r ∈ listRegionRecord s'
  leases : ∀ r ∈ listMemLeaseRecord s, ¬op.namesLease r.1.name → r ∈ listMemLeaseRecord s'
  imports : ∀ r ∈ listShmImportRecord s, ¬op.namesImport r.name → r ∈ listShmImportRecord s'
  refsNameF : ∀ name pid, ¬op.namesRef name pid →
    listShmRefRecordNameF s' name pid = listShmRefRecordNameF s name pid
  refsPidF : ∀ name pid, ¬op.namesRef name pid →
    listShmRefRecordPidF s' pid name = listShmRefRecordPidF s pid name
  suspended : ∀ pid ∈ listSuspendClients config s, ¬op.namesClient pid → alive pid = true →
    pid ∈ listSuspendClients config s'
  lines : ∀ l < config.lineCount, (s'.mem.pool.headOf l).used = true →
    ∃! o, s'.restored o ∧ l ∈ s'.chainLines config o

/-! ### Answers read off the file -/

section Answers

variable {config : StoreConfig} {s : RecordStore} {lines : Owner → List Nat}
  {ids : Owner → List UInt64}

/-- What a map lists of a slot, another map lists too if the slot is the same there. -/
theorem TableInv.mem_map_of_same {F V : Type} {capacity : Nat} {t t' : Nat → Named F}
    {idle idle' : List Nat} {cache cache' : Map Name WithMemIdsRecord}
    {ids ids' : Nat → List UInt64}
    (h : TableInv capacity t idle cache ids) (h' : TableInv capacity t' idle' cache' ids')
    (f : Name → Named F → List UInt64 → V) {v : V}
    (hv : v ∈ cache.entries.map fun x => f x.1 (t x.2.slot) x.2.memIds)
    (hsame : ∀ i, (t i).idle = false → v = f (cString (t i).name) (t i) (ids i) →
      t' i = t i ∧ ids' i = ids i) :
    v ∈ cache'.entries.map fun x => f x.1 (t' x.2.slot) x.2.memIds := by
  obtain ⟨⟨name, e⟩, hmem, rfl⟩ := mem_map.mp hv
  obtain ⟨hslot, hlive, hname, hids⟩ := (h.cached name e).mp (AList.mem_lookup_iff.mpr hmem)
  obtain ⟨ht, hids'⟩ := hsame e.slot hlive (by rw [hname, ← hids])
  have hlookup := (h'.cached name e).mpr ⟨hslot, ht ▸ hlive, ht ▸ hname, hids.trans hids'.symm⟩
  exact mem_map.mpr ⟨_, AList.mem_lookup_iff.mp hlookup, by rw [ht]⟩

/-- A reference record is a reference of the process to the name. -/
def StoreMem.IsRef (m : StoreMem) (i : Nat) (name : Name) (pid : UInt32) : Prop :=
  (m.refs i).pid ≠ 0 ∧ cString (m.imports (m.refs i).shmImportIndex).name = name ∧
    (m.refs i).pid = pid

instance (m : StoreMem) (i : Nat) (name : Name) (pid : UInt32) : Decidable (m.IsRef i name pid) :=
  inferInstanceAs (Decidable (_ ∧ _ ∧ _))

theorem StoreInv.countRefs_eq (h : StoreInv config s lines ids) (name : Name) (pid : UInt32) :
    listShmRefRecordNameF s name pid =
        (List.range config.refMax).countP (fun i => s.mem.IsRef i name pid) ∧
      listShmRefRecordPidF s pid name =
        (List.range config.refMax).countP fun i => s.mem.IsRef i name pid := by
  have hperm := (refInv_restore config s.mem.refs).perm h.refs
  have hcount : countRefs s.mem (restoreRefs config s.mem.refs) name pid =
      (List.range config.refMax).countP fun i => s.mem.IsRef i name pid := by
    unfold countRefs restoreRefs
    rw [countP_map, countP_filter]
    refine countP_congr fun i _ => ?_
    simp only [comp_apply, Bool.and_eq_true, decide_eq_true_eq]
    exact and_comm
  unfold listShmRefRecordNameF listShmRefRecordPidF
  rw [h.refs.same, ← hcount]
  exact ⟨hperm.countP_eq _, hperm.countP_eq _⟩

theorem StoreInv.restored_iff (h : StoreInv config s lines ids) (o : Owner) :
    s.restored o ↔ (s.mem.holding config o).live = true := by
  have htable : ∀ (t : IdTable) (i : Nat),
      (∃ name e, (t.cached s.cache).lookup name = some e ∧ e.slot = i) ↔
        (s.mem.holding config (t.owner i)).live = true := by
    intro t i
    constructor
    · rintro ⟨name, e, hfound, rfl⟩
      exact (h.record_live t hfound).2.2
    · intro hlive
      obtain ⟨hi, hused⟩ : i < t.max config ∧ (t.records s.mem i).idle = false := by
        simpa [holding_owner] using hlive
      exact ⟨_, _, ((h.table t).cached _ ⟨i, ids (t.owner i)⟩).mpr ⟨hi, hused, rfl, rfl⟩, rfl⟩
  cases o with
  | lease i => exact htable .lease i
  | shm i => exact htable .shm i

theorem StoreInv.unique_owner (h : StoreInv config s lines ids)
    (hlost : NoLineLost config.lineCount s.mem.pool lines) {l : Nat} (hl : l < config.lineCount)
    (hused : (s.mem.pool.headOf l).used = true) :
    ∃! o, s.restored o ∧ l ∈ s.chainLines config o := by
  have hchain : ∀ o, s.restored o → s.chainLines config o = lines o := fun o ho =>
    h.pool.released ((h.restored_iff o).mp ho)
  obtain ⟨o, ho⟩ := hlost l hl hused
  have hrestored : s.restored o := (h.restored_iff o).mpr (h.pool.chain_of_mem ho).1
  refine ⟨o, ⟨hrestored, by rwa [hchain o hrestored]⟩, ?_⟩
  rintro o' ⟨hrestored', hl'⟩
  rw [hchain o' hrestored'] at hl'
  by_contra hne
  exact h.pool.disjoint o' o hne l hl' ho

end Answers

/-! ### Where a crash is harmless -/

/-- No record in use has the name. -/
def NameFree {F : Type} (capacity : Nat) (t : Nat → Named F) (name : Name) : Prop :=
  ∀ j < capacity, (t j).idle = false → cString (t j).name ≠ name

/-- The name that a record has once `k` characters of a name have been copied over it. -/
def tornName {F : Type} (r : Named F) (name : Name) (k : Nat) : Name :=
  cString (copyName r.name name (min k (cBytes name).length))

/-- **Where the daemon may die between the first and the last store of an operation**,
`k` of which have been made.

- While a record is written, the characters that stand in the place of its name must
  not be the name of another record, and a number of memory ids that an earlier record
  has left there must have been cleared.
- While memory ids are recorded, the record must already point to them.
- A record that is deleted must have no memory ids.
- A reference is written process first: the slot must have had the same import record.
- The client that is removed must be the last of the array. -/
def Harmless (config : StoreConfig) (s : RecordStore) (k : Nat) : StoreOp → Prop
  | .addRegionRecord input => ∀ slot, s.cache.regionIdle.getLast? = some slot →
      NameFree config.regionMax s.mem.regions (tornName (s.mem.regions slot) input.name k)
  | .addMemLeaseInput input => ∀ slot, s.cache.leaseIdle.getLast? = some slot →
      NameFree config.leaseMax s.mem.leases (tornName (s.mem.leases slot) input.name k) ∧
        ((s.mem.leases slot).fields.memIdCount = 0 ∨ (cBytes input.name).length + 7 ≤ k)
  | .addMemLeaseResult _ result =>
      linesNeed result.memIds.length + result.memIds.length + 3 ≤ k
  | .delMemLeaseRecord name => ∀ e, s.cache.cachedLeaseRecords.lookup name = some e →
      (s.mem.leases e.slot).fields.memIdCount = 0
  | .addShmImportInput input => ∀ slot, s.cache.importIdle.getLast? = some slot →
      NameFree config.importMax s.mem.imports (tornName (s.mem.imports slot) input.name k) ∧
        ((s.mem.imports slot).fields.memIdCount = 0 ∨ (cBytes input.name).length + 6 ≤ k)
  | .addShmImportResult _ result =>
      linesNeed result.memIds.length + result.memIds.length + 4 ≤ k
  | .delShmImportRecord name => ∀ e, s.cache.cachedImportShmRecords.lookup name = some e →
      (s.mem.imports e.slot).fields.memIdCount = 0
  | .addShmRefRecord _ name => ∀ slot e, s.cache.refIdle.getLast? = some slot →
      s.cache.cachedImportShmRecords.lookup name = some e →
      (s.mem.refs slot).shmImportIndex = e.slot
  | .delSuspendClient pid => s.mem.suspendPids (s.mem.suspendCount - 1) = pid
  | _ => True

/-- The file when the daemon dies after `k` stores of an operation. -/
def crashMem (config : StoreConfig) (s : RecordStore) (op : StoreOp) (k : Nat) : StoreMem :=
  s.mem.write ((plan config s op).stores.take k)

/-- A crash before the first store, after the last one, or where it is harmless. -/
def CrashSafe (config : StoreConfig) (s : RecordStore) (op : StoreOp) (k : Nat) : Prop :=
  k = 0 ∨ (plan config s op).stores.length ≤ k ∨ Harmless config s k op

/-! ### Prefixes of the stores -/

theorem applyFields_induct {F : Type} {P : F → Prop} {fields : List (F → F)}
    (hstep : ∀ f ∈ fields, ∀ x, P x → P (f x)) {x : F} (hx : P x) : P (applyFields x fields) := by
  induction fields generalizing x with
  | nil => exact hx
  | cons f fields ih =>
    exact ih (fun g hg => hstep g (mem_cons_of_mem _ hg)) (hstep f (mem_cons_self ..) x hx)

/-- A property that holds after `n` assignments and that the others keep. -/
theorem applyFields_take {F : Type} {P : F → Prop} {fields : List (F → F)} {n j : Nat} {x : F}
    (hn : P (applyFields x (fields.take n))) (hstep : ∀ f ∈ fields.drop n, ∀ x, P x → P (f x))
    (hj : n ≤ j) : P (applyFields x (fields.take j)) := by
  have hsplit : fields.take j = fields.take n ++ (fields.drop n).take (j - n) := by
    conv_lhs => rw [show j = n + (j - n) by omega, take_add]
  rw [hsplit, applyFields_append]
  exact applyFields_induct (fun f hf => hstep f (mem_of_mem_take hf)) hn

theorem Named.apply_take_recordChanges {F : Type} (r : Named F) (name : Name)
    (fields : List (F → F)) (k : Nat) :
    r.apply ((recordChanges name fields).take k) =
      ⟨copyName r.name name (min k (cBytes name).length),
        applyFields r.fields (fields.take (k - (cBytes name).length))⟩ := by
  have hlen : (nameChanges name (F := F)).length = (cBytes name).length := by simp [nameChanges]
  have hname : (nameChanges name (F := F)).take k =
      (nameChanges name).take (min k (cBytes name).length) := by
    rw [← hlen, take_eq_take_min]
  rw [recordChanges, take_append, hlen, apply_append, hname,
    apply_nameChanges _ _ (Nat.min_le_right _ _), fieldChanges, ← map_take]
  exact apply_fieldChanges _ _

/-! ### Frames -/

/-- **What of the file an operation leaves alone**: `m` with the memory ids `ids` before
it, `m'` with `ids'` at the crash. -/
structure CrashFrame (config : StoreConfig) (op : StoreOp) (m : StoreMem)
    (ids : Owner → List UInt64) (m' : StoreMem) (ids' : Owner → List UInt64) : Prop where
  regions : ∀ i, (m.regions i).idle = false →
    ¬op.namesRegion (cString (m.regions i).name) → m'.regions i = m.regions i
  leases : ∀ i, (m.leases i).idle = false → ¬op.namesLease (cString (m.leases i).name) →
    m'.leases i = m.leases i ∧ ids' (.lease i) = ids (.lease i)
  imports : ∀ i, (m.imports i).idle = false → ¬op.namesImport (cString (m.imports i).name) →
    m'.imports i = m.imports i ∧ ids' (.shm i) = ids (.shm i)
  refs : ∀ i < config.refMax, ∀ name pid, ¬op.namesRef name pid →
    (m'.IsRef i name pid ↔ m.IsRef i name pid)
  suspendCount : m'.suspendCount ≤ config.suspendMax
  suspended : ∀ pid ∈ m.suspended, ¬op.namesClient pid → pid ∈ m'.suspended

/-- The file at the crash is well formed, has lost no line, and the rest of it stands. -/
def Recoverable (config : StoreConfig) (op : StoreOp) (m : StoreMem) (ids : Owner → List UInt64)
    (m' : StoreMem) : Prop :=
  ∃ lines' ids', MemInv config m' lines' ids' ∧ NoLineLost config.lineCount m'.pool lines' ∧
    CrashFrame config op m ids m' ids'

section Frames

variable {config : StoreConfig} {op : StoreOp} {s : RecordStore} {m m' : StoreMem}
  {lines lines' : Owner → List Nat} {ids ids' : Owner → List UInt64} {F : Type}
  {t : Nat → Named F} {name : Name}
  {k i capacity : Nat} {pid : UInt32} {idle : List Nat} {cache : Map Name WithMemIdsRecord}
  {e : WithMemIdsRecord}

/-- **From a recoverable file `Initialize` restores what it must.** -/
theorem StoreInv.consistent (h : StoreInv config s lines ids)
    (hrec : Recoverable config op s.mem ids m') (alive : UInt32 → Bool) :
    Consistent config alive op s (initializeStore config alive m') := by
  obtain ⟨lines', ids', hmem, hlost, hframe⟩ := hrec
  have h' := hmem.restore alive
  obtain ⟨count, pids, hm⟩ := initializeStore_mem config alive m'
  have hcount : ∀ name pid, ¬op.namesRef name pid →
      (List.range config.refMax).countP (fun i =>
        (initializeStore config alive m').mem.IsRef i name pid) =
      (List.range config.refMax).countP fun i => s.mem.IsRef i name pid := by
    intro name pid hnot
    rw [hm]
    refine countP_congr fun i hi => ?_
    rw [decide_eq_true_iff, decide_eq_true_iff]
    exact hframe.refs i (mem_range.mp hi) name pid hnot
  constructor
  · intro r hr hnot
    refine h.regions.mem_map_of_same h'.regions (fun name t _ => convertRegion name t.fields) hr ?_
    rintro i hlive rfl
    exact ⟨hm ▸ hframe.regions i hlive hnot, rfl⟩
  · intro r hr hnot
    refine h.leases.mem_map_of_same h'.leases (fun _ => convertMemLease) hr ?_
    rintro i hlive rfl
    exact hm ▸ hframe.leases i hlive hnot
  · intro r hr hnot
    refine h.imports.mem_map_of_same h'.imports (fun name t => convertShmImport name t.fields) hr ?_
    rintro i hlive rfl
    exact hm ▸ hframe.imports i hlive hnot
  · intro name pid hnot
    rw [(h.countRefs_eq name pid).1, (h'.countRefs_eq name pid).1, hcount name pid hnot]
  · intro name pid hnot
    rw [(h.countRefs_eq name pid).2, (h'.countRefs_eq name pid).2, hcount name pid hnot]
  · intro pid hpid hnot halive
    have hcount : ¬s.mem.suspendCount > config.suspendMax := not_lt.mpr h.suspendCount
    have hcount' : ¬m'.suspendCount > config.suspendMax := not_lt.mpr hframe.suspendCount
    rw [listSuspendClients, if_neg hcount] at hpid
    rw [(listSuspendClients_initializeStore config alive m').1, keepSuspended, if_neg hcount']
    refine mem_filter.mpr ⟨hframe.suspended pid hpid hnot, ?_⟩
    rw [h.suspended pid hpid, halive]
    rfl
  · intro l hl hused
    refine h'.unique_owner ?_ hl hused
    rw [hm]
    exact hlost

theorem CrashFrame.refl (hcount : m.suspendCount ≤ config.suspendMax) :
    CrashFrame config op m ids m ids :=
  ⟨fun _ _ _ => rfl, fun _ _ _ => ⟨rfl, rfl⟩, fun _ _ _ => ⟨rfl, rfl⟩, fun _ _ _ _ _ => Iff.rfl,
    hcount, fun _ h _ => h⟩

/-- A region record is written that was idle or is named by the operation. -/
theorem CrashFrame.region (hcount : m.suspendCount ≤ config.suspendMax) {r : Named RegionFields}
    (hnamed : (m.regions i).idle = false → op.namesRegion (cString (m.regions i).name)) :
    CrashFrame config op m ids { m with regions := update m.regions i r } ids := by
  refine { CrashFrame.refl hcount with regions := fun j hlive hnot => ?_ }
  refine update_of_ne ?_ _ _
  rintro rfl
  exact hnot (hnamed hlive)

/-- The operation is about the record of that name in the table. -/
def IdTable.Names (op : StoreOp) : IdTable → Name → Prop
  | lease => op.namesLease
  | shm => op.namesImport

/-- A record of a table is written that was idle or is named by the operation; its name
stays where there are references to it. -/
theorem CrashFrame.table (hcount : m.suspendCount ≤ config.suspendMax) (t : IdTable)
    {r : Named t.Fields} {p : IdPool}
    (hnamed : (t.records m i).idle = false → t.Names op (cString (t.records m i).name))
    (hids : ∀ o, o ≠ t.owner i → ids' o = ids o)
    (hrefs : ∀ j, t.Refers config m i j → cString r.name = cString (t.records m i).name) :
    CrashFrame config op m ids (t.set m (update (t.records m) i r) p) ids' := by
  have hrecord : ∀ j, (t.records m j).idle = false → ¬t.Names op (cString (t.records m j).name) →
      update (t.records m) i r j = t.records m j ∧ ids' (t.owner j) = ids (t.owner j) := by
    intro j hlive hnot
    have hj : j ≠ i := by
      rintro rfl
      exact hnot (hnamed hlive)
    exact ⟨update_of_ne hj _ _, hids _ fun heq => hj (t.owner_injective heq)⟩
  cases t with
  | lease => exact ⟨fun _ _ _ => rfl, hrecord, fun j _ _ => ⟨rfl, hids _ (by simp [IdTable.owner])⟩,
      fun _ _ _ _ _ => Iff.rfl, hcount, fun _ h _ => h⟩
  | shm =>
    refine ⟨fun _ _ _ => rfl, fun j _ _ => ⟨rfl, hids _ (by simp [IdTable.owner])⟩, hrecord,
      fun j hj name pid _ => and_congr_right fun hpid => ?_, hcount, fun _ h _ => h⟩
    by_cases hi : (m.refs j).shmImportIndex = i
    · simp only [IdTable.set, IdTable.records, hi, update_self, hrefs j ⟨hj, hpid, hi⟩]
    · simp only [IdTable.set, IdTable.records, update_of_ne hi]

theorem StoreInv.recoverable_set (h : StoreInv config s lines ids) (t : IdTable)
    (ids' : Owner → List UInt64) {r : Named t.Fields} {p : IdPool}
    (hnames : DistinctNames (t.max config) (update (t.records s.mem) i r))
    (hpool : PoolInv config.lineCount p (update (s.mem.holding config) (t.owner i)
      ⟨i < t.max config && !r.idle, t.memIdCount r.fields, t.memIdBuffer r.fields⟩) lines' ids')
    (hlost : NoLineLost config.lineCount p lines')
    (hnamed : (t.records s.mem i).idle = false → t.Names op (cString (t.records s.mem i).name))
    (hids : ∀ o, o ≠ t.owner i → ids' o = ids o) (hrefs : ∀ j, t.Refers config s.mem i j →
      r.idle = false ∧ cString r.name = cString (t.records s.mem i).name) :
    Recoverable config op s.mem ids (t.set s.mem (update (t.records s.mem) i r) p) := by
  rw [← holding_set t config s.mem i r p] at hpool
  have htargets := h.targets.set t p fun j hj => (hrefs j hj).1
  refine ⟨lines', ids', ?_, (t.pool_set _ _ _).symm ▸ hlost,
    CrashFrame.table h.suspendCount t hnamed hids fun j hj => (hrefs j hj).2⟩
  cases t with
  | lease => exact ⟨h.mem.regions, hnames, h.mem.imports, hpool, htargets⟩
  | shm => exact ⟨h.mem.regions, h.mem.leases, hnames, hpool, htargets⟩

theorem TableInv.nameFree {ids : Nat → List UInt64} (h : TableInv capacity t idle cache ids)
    (hnone : cache.lookup name = none) : NameFree capacity t name := by
  intro j hj hlive heq
  rw [(h.cached name ⟨j, ids j⟩).mpr ⟨hj, hlive, heq, rfl⟩] at hnone
  cases hnone

/-- What stands in a slot after some of the stores that write a record and, if `dup`,
clear it again: the record in part, the whole record, or nothing. -/
theorem apply_take_cases (r : Named F) (hfits : NameFits name) (fields : List (F → F)) (dup : Bool)
    (k : Nat) : let changes := addChanges name fields dup
    (changes.length ≤ k ∧ dup = true ∧ (r.apply (changes.take k)).idle = true) ∨
    (changes.length ≤ k ∧ dup = false ∧ cString (r.apply (changes.take k)).name = name ∧
      (r.apply (changes.take k)).fields = applyFields r.fields fields) ∨
    (k < changes.length ∧ cString (r.apply (changes.take k)).name = tornName r name k ∧
      (r.apply (changes.take k)).fields =
        applyFields r.fields (fields.take (k - (cBytes name).length))) := by
  intro changes
  by_cases hk : changes.length ≤ k
  · rw [take_of_length_le hk]
    cases dup with
    | true => exact .inl ⟨hk, rfl, Named.idle_apply_clear _ _⟩
    | false =>
      refine .inr (.inl ⟨hk, rfl, ?_⟩)
      simp only [changes, addChanges, Bool.false_eq_true, if_false, append_nil]
      refine ⟨(hfits.written r fields).2, ?_⟩
      rw [Named.apply_recordChanges]
  · -- Before the last store the record has not been cleared.
    have hle : k ≤ (recordChanges name fields).length := by
      cases dup <;> simp [changes, addChanges] at hk <;> omega
    refine .inr (.inr ⟨not_le.mp hk, ?_⟩)
    rw [show changes = recordChanges name fields ++ _ from rfl, take_append_of_le_length hle,
      Named.apply_take_recordChanges]
    exact ⟨rfl, rfl⟩

/-- The assignments to a new record leave it without memory ids, from the `n`-th on whatever
it had. -/
structure IdTable.ClearsIds (t : IdTable) (fields : List (t.Fields → t.Fields)) (n : Nat) :
    Prop where
  keep : ∀ f ∈ fields, ∀ x, t.memIdCount x = 0 → t.memIdCount (f x) = 0
  clear : ∀ x, t.memIdCount (applyFields x (fields.take n)) = 0

theorem IdTable.ClearsIds.take {t : IdTable} {fields : List (t.Fields → t.Fields)} {n j : Nat}
    (h : t.ClearsIds fields n) {x : t.Fields} (hx : t.memIdCount x = 0 ∨ n ≤ j) :
    t.memIdCount (applyFields x (fields.take j)) = 0 := by
  rcases hx with hx | hj
  · exact applyFields_induct (fun f hf => h.keep f (mem_of_mem_take hf)) hx
  · exact applyFields_take (h.clear x) (fun f hf => h.keep f (mem_of_mem_drop hf)) hj

theorem clearsIds_leaseInput (input : LeaseMallocInput) :
    IdTable.lease.ClearsIds (leaseInputFields input) 7 :=
  ⟨by simp [leaseInputFields, IdTable.memIdCount], fun _ => rfl⟩

theorem clearsIds_importInput (input : ShareMemImportInput) :
    IdTable.shm.ClearsIds (importInputFields input) 6 :=
  ⟨by simp [importInputFields, IdTable.memIdCount], fun _ => rfl⟩

theorem TableInv.name_of_lookup {ids : Nat → List UInt64} (h : TableInv capacity t idle cache ids)
    (hfound : cache.lookup name = some e) : cString (t e.slot).name = name :=
  ((h.cached name e).mp hfound).2.2.1

theorem TableInv.distinct_update {ids : Nat → List UInt64} (h : TableInv capacity t idle cache ids)
    (hfound : cache.lookup name = some e) {r : Named F} (hname : r.name = (t e.slot).name) :
    DistinctNames capacity (update t e.slot r) := by
  obtain ⟨hslot, hlive, -⟩ := (h.cached name e).mp hfound
  refine h.distinct.update fun _ j hj hne hused heq => hne ?_
  exact h.distinct j hj e.slot hslot hused hlive (by rw [heq, hname])

/-- The assignments to a record that gets its memory ids count them and point to them, from
the `n`-th on. -/
structure IdTable.SetsIds (t : IdTable) (fields : Nat → List (t.Fields → t.Fields))
    (memIds : List UInt64) (n : Nat) : Prop where
  keep : ∀ head, ∀ f ∈ (fields head).drop n, ∀ x, t.memIdCount (f x) = t.memIdCount x ∧
    t.memIdBuffer (f x) = t.memIdBuffer x
  done : ∀ head x, t.memIdCount (applyFields x ((fields head).take n)) = memIds.length ∧
    t.memIdBuffer (applyFields x ((fields head).take n)) = head
  le : ∀ head, n ≤ (fields head).length

theorem setsIds_leaseResult (result : LeaseMallocResult) :
    IdTable.lease.SetsIds (leaseResultFields result) result.memIds 3 :=
  ⟨by simp [leaseResultFields, IdTable.memIdCount, IdTable.memIdBuffer], fun _ _ => ⟨rfl, rfl⟩,
    by simp [leaseResultFields]⟩

theorem setsIds_importResult (result : ShareMemImportResult) :
    IdTable.shm.SetsIds (importResultFields result) result.memIds 4 :=
  ⟨by simp [importResultFields, IdTable.memIdCount, IdTable.memIdBuffer], fun _ _ => ⟨rfl, rfl⟩,
    by simp [importResultFields]⟩

theorem length_allocStores {newLines : List Nat} {newIds : List UInt64}
    (hlength : newLines.length = linesNeed newIds.length) :
    (allocStores newLines newIds).length = linesNeed newIds.length + newIds.length := by
  simp [allocStores, hlength]

theorem Named.idle_apply_clears (r : Named F) {changes : List (Named F → Named F)}
    (hne : changes ≠ []) (hall : ∀ c ∈ changes, c = Named.clear) :
    (r.apply changes).idle = true := by
  obtain ⟨init, c, rfl⟩ := changes.eq_nil_or_concat.resolve_left hne
  rw [concat_eq_append, hall c (by simp)]
  exact Named.idle_apply_clear _ _

variable (h : StoreInv config s lines ids) (hlost : NoLineLost config.lineCount s.mem.pool lines)

include h hlost

theorem StoreInv.recoverable_refl : Recoverable config op s.mem ids s.mem :=
  ⟨lines, ids, h.mem, hlost, CrashFrame.refl h.suspendCount⟩

theorem StoreInv.recoverable_region {slot : Nat} {r : Named RegionFields}
    (hidle : (s.mem.regions slot).idle = true)
    (hname : r.idle = false → NameFree config.regionMax s.mem.regions (cString r.name)) :
    Recoverable config op s.mem ids
      { s.mem with regions := update s.mem.regions slot r } := by
  refine ⟨lines, ids, { h.mem with regions := ?_ }, hlost,
    CrashFrame.region h.suspendCount fun hlive => ?_⟩
  · exact h.mem.regions.update fun hlive j hj _ hused => hname hlive j hj hused
  · rw [hidle] at hlive
    cases hlive

/-- An idle slot of a table is written, as a record without memory ids. -/
theorem StoreInv.recoverable_idle (t : IdTable) {slot : Nat}
    {r : Named t.Fields} (hslot : slot < t.max config) (hidle : (t.records s.mem slot).idle = true)
    (hname : r.idle = false → NameFree (t.max config) (t.records s.mem) (cString r.name))
    (hzero : r.idle = false → t.memIdCount r.fields = 0) :
    Recoverable config op s.mem ids
      (t.set s.mem (update (t.records s.mem) slot r) s.mem.pool) := by
  have hdead : (s.mem.holding config (t.owner slot)).live = false := by
    rw [holding_live t _ hslot, hidle]
    rfl
  have hnames := (h.table t).distinct.update (i := slot)
    fun hlive j hj _ hused => hname hlive j hj hused
  have hnamed : (t.records s.mem slot).idle = false →
      t.Names op (cString (t.records s.mem slot).name) := by
    rw [hidle]
    exact nofun
  have hfree := h.targets.not_refers t hidle
  cases hr : r.idle with
  | true =>
    refine h.recoverable_set t ids hnames ?_ hlost hnamed (fun _ _ => rfl)
      fun j hj => absurd hj (hfree j)
    exact h.pool.update_dead hdead (by simp [hr])
  | false =>
    refine h.recoverable_set t (update ids (t.owner slot) []) hnames ?_ hlost hnamed
      (fun o ho => update_of_ne ho _ _) fun j hj => absurd hj (hfree j)
    rw [hr, decide_eq_true hslot, hzero hr]
    exact h.pool.occupy hdead _

/-! ### Records are added -/

theorem StoreInv.recoverable_nil {stores : List (StoreMem → StoreMem)} (hnil : stores = []) :
    Recoverable config op s.mem ids (s.mem.write (stores.take k)) := by
  rw [hnil, take_nil]
  exact h.recoverable_refl hlost

theorem StoreInv.recoverable_addRegionRecord {input : CreateRegionInput}
    (hnames : (StoreOp.addRegionRecord input).NamesOk)
    (hsafe : CrashSafe config s (.addRegionRecord input) k) :
    Recoverable config op s.mem ids (crashMem config s (.addRegionRecord input) k) := by
  obtain ⟨hne, hzero⟩ := hnames input.name (mem_singleton_self _)
  have hplan : plan config s (.addRegionRecord input) = addRegionRecord s input := rfl
  rw [crashMem, hplan]
  rw [CrashSafe, hplan] at hsafe
  rcases addRegionRecord_cases s input with heq | ⟨-, -, slot, hlast, hshort, dup, hnew, heq⟩
  · exact h.recoverable_nil hlost (by rw [heq]; rfl)
  rcases hsafe with rfl | hsafe
  · exact h.recoverable_refl hlost
  rw [heq, length_map] at hsafe
  rw [heq, ← map_take, write_onRegion]
  refine h.recoverable_region hlost (h.regions.allocated hlast).2.1 fun hlive => ?_
  rcases apply_take_cases (s.mem.regions slot) ⟨hne, hzero, hshort⟩ (regionInputFields input) dup k
    with ⟨-, -, hclear⟩ | ⟨-, hdup, hname, -⟩ | ⟨hk, hname, -⟩
  · rw [hclear] at hlive
    cases hlive
  · rw [hname]
    exact h.regions.nameFree (hnew hdup)
  · rw [hname]
    exact hsafe.resolve_left (not_le.mpr hk) slot hlast

theorem StoreInv.recoverable_addInput (t : IdTable) {k n : Nat}
    {fields : List (t.Fields → t.Fields)} (hname : name ≠ [] ∧ (0 : UInt8) ∉ name)
    (hclears : t.ClearsIds fields n) (hsafe : k = 0 ∨ (t.addInput s name fields).stores.length ≤ k ∨
      ∀ slot, (t.idle s.cache).getLast? = some slot →
        NameFree (t.max config) (t.records s.mem) (tornName (t.records s.mem slot) name k) ∧
          (t.memIdCount (t.records s.mem slot).fields = 0 ∨ (cBytes name).length + n ≤ k)) :
    Recoverable config op s.mem ids
      (s.mem.write ((t.addInput s name fields).stores.take k)) := by
  obtain ⟨hne, hzero⟩ := hname
  rcases t.addInput_cases s name fields with heq | ⟨slot, hlast, hshort, dup, hnew, heq⟩
  · exact h.recoverable_nil hlost (by rw [heq]; rfl)
  rcases hsafe with rfl | hsafe
  · exact h.recoverable_refl hlost
  rw [heq, length_map] at hsafe
  rw [heq, ← map_take, write_on]
  obtain ⟨hslot, hidle, -⟩ := (h.table t).allocated hlast
  have hcases := apply_take_cases (t.records s.mem slot) ⟨hne, hzero, hshort⟩ fields dup k
  refine h.recoverable_idle hlost t hslot hidle (fun hlive => ?_) fun hlive => ?_
  · rcases hcases with ⟨-, -, hclear⟩ | ⟨-, hdup, hname, -⟩ | ⟨hk, hname, -⟩
    · rw [hclear] at hlive
      cases hlive
    · rw [hname]
      exact (h.table t).nameFree (hnew hdup)
    · rw [hname]
      exact (hsafe.resolve_left (not_le.mpr hk) slot hlast).1
  · rcases hcases with ⟨-, -, hclear⟩ | ⟨-, -, -, hfields⟩ | ⟨hk, -, hfields⟩
    · rw [hclear] at hlive
      cases hlive
    · have hall := hclears.take (x := (t.records s.mem slot).fields)
        (.inr (Nat.le_max_left n fields.length))
      rwa [take_of_length_le (Nat.le_max_right _ _), ← hfields] at hall
    · rw [hfields]
      refine hclears.take ?_
      exact (hsafe.resolve_left (not_le.mpr hk) slot hlast).2.imp_right fun hle => by omega

/-! ### Records in use are changed -/

/-- Fields of a record in use are assigned in part, but not those of its memory ids. -/
theorem StoreInv.recoverable_assign (t : IdTable) (hop : t.Names op name)
    {fields : List (t.Fields → t.Fields)}
    (hkeep : ∀ f ∈ fields, ∀ x, t.memIdCount (f x) = t.memIdCount x ∧
      t.memIdBuffer (f x) = t.memIdBuffer x) (k : Nat) :
    Recoverable config op s.mem ids (s.mem.write ((t.assign s name fields).stores.take k)) := by
  unfold IdTable.assign
  cases hfound : (t.cached s.cache).lookup name with
  | none => exact h.recoverable_nil hlost rfl
  | some e =>
    rw [← map_take, write_on, fieldChanges, ← map_take]
    rw [show List.map (fun f (r : Named t.Fields) => r.setField f) (fields.take k) =
      fieldChanges (fields.take k) from rfl, Named.apply_fieldChanges]
    have hids : ∀ f ∈ fields.take k, ∀ x,
        t.memIdCount x = t.memIdCount (t.records s.mem e.slot).fields ∧
          t.memIdBuffer x = t.memIdBuffer (t.records s.mem e.slot).fields →
        t.memIdCount (f x) = t.memIdCount (t.records s.mem e.slot).fields ∧
          t.memIdBuffer (f x) = t.memIdBuffer (t.records s.mem e.slot).fields := by
      intro f hf x hx
      obtain ⟨h₁, h₂⟩ := hkeep f (mem_of_mem_take hf) x
      exact ⟨h₁.trans hx.1, h₂.trans hx.2⟩
    obtain ⟨hcount, hbuffer⟩ := applyFields_induct hids ⟨rfl, rfl⟩
    refine h.recoverable_set t ids ((h.table t).distinct_update hfound rfl) ?_ hlost (fun _ => ?_)
      (fun _ _ => rfl) fun _ _ => ⟨(h.record_live t hfound).2.1, rfl⟩
    · have hsame := update_eq_self (t.owner e.slot) (s.mem.holding config)
      rw [holding_owner] at hsame
      rw [hcount, hbuffer]
      exact hsame.symm ▸ h.pool
    · rw [(h.table t).name_of_lookup hfound]
      exact hop

theorem StoreInv.recoverable_addResult (t : IdTable) (hop : t.Names op name) {memIds : List UInt64}
    {fields : Nat → List (t.Fields → t.Fields)} {k n : Nat} (hsets : t.SetsIds fields memIds n)
    (honce : ∀ e, (t.cached s.cache).lookup name = some e →
      t.memIdCount (t.records s.mem e.slot).fields = 0)
    (hsafe : k = 0 ∨ (t.addResult s name memIds fields).stores.length ≤ k ∨
      linesNeed memIds.length + memIds.length + n ≤ k) :
    Recoverable config op s.mem ids
      (s.mem.write ((t.addResult s name memIds fields).stores.take k)) := by
  unfold IdTable.addResult at hsafe ⊢
  cases hfound : (t.cached s.cache).lookup name with
  | none => exact h.recoverable_nil hlost rfl
  | some e =>
    rw [hfound] at hsafe
    cases hlines : allocLines s.cache.poolIdle memIds with
    | none => exact h.recoverable_nil hlost rfl
    | some taken =>
      obtain ⟨newLines, rest⟩ := taken
      rw [hlines] at hsafe
      have halloc := allocLines_eq hlines
      have hlen := length_allocStores halloc.length
      rcases hsafe with rfl | hsafe
      · exact h.recoverable_refl hlost
      -- In both cases all of the chain is there, and the record points to it.
      have hk : (allocStores newLines memIds).length + n ≤ k := by
        rcases hsafe with hall | hpart
        · have := hsets.le (newLines.getD 0 0)
          simp only [length_append, length_map, fieldChanges] at hall
          omega
        · omega
      obtain ⟨hslot, hused, hlive⟩ := h.record_live t hfound
      rw [take_append, length_map, take_of_length_le (by rw [length_map]; omega),
        ← map_take, write_pool_on, fieldChanges, ← map_take]
      rw [show List.map (fun f (r : Named t.Fields) => r.setField f) _ = fieldChanges _ from rfl,
        Named.apply_fieldChanges]
      obtain ⟨hcount, hbuffer⟩ := applyFields_take
        (P := fun x => t.memIdCount x = memIds.length ∧ t.memIdBuffer x = newLines.getD 0 0)
        (hsets.done _ (t.records s.mem e.slot).fields)
        (fun f hf x hx => by
          obtain ⟨h₁, h₂⟩ := hsets.keep _ f hf x
          exact ⟨h₁.trans hx.1, h₂.trans hx.2⟩)
        (show n ≤ k - (allocStores newLines memIds).length by omega)
      refine h.recoverable_set t (update ids (t.owner e.slot) memIds) ((h.table t).distinct_update
        hfound rfl) ?_ (hlost.alloc halloc (h.pool.empty _ hlive ?_).1) (fun _ => ?_) (fun o ho =>
        update_of_ne ho _ _) fun _ _ => ⟨hused, rfl⟩
      · have hpool := h.pool.alloc config.lineCount_le h.poolIdle halloc (t.owner e.slot)
        rw [← hlive, holding_live t _ hslot] at hpool
        rw [hcount, hbuffer, decide_eq_true hslot, Bool.true_and]
        exact hpool
      · rw [holding_owner]
        exact honce e hfound
      · rw [(h.table t).name_of_lookup hfound]
        exact hop

/-! ### Records are deleted -/

theorem StoreInv.recoverable_delRegionRecord : Recoverable config (.delRegionRecord name) s.mem ids
      (crashMem config s (.delRegionRecord name) k) := by
  cases hfound : s.cache.cachedRegionRecords.lookup name with
  | none => exact h.recoverable_nil hlost (by simp [plan, delRegionRecord, hfound, Plan.refuse])
  | some e =>
    rcases Nat.eq_zero_or_pos k with rfl | hpos
    · exact h.recoverable_refl hlost
    have hmem : crashMem config s (.delRegionRecord name) k =
        { s.mem with
          regions := update s.mem.regions e.slot (s.mem.regions e.slot).clear } := by
      simp only [crashMem, plan, delRegionRecord, hfound]
      rw [take_of_length_le hpos]
      rfl
    rw [hmem]
    refine ⟨lines, ids, { h.mem with regions := ?_ }, hlost,
      CrashFrame.region h.suspendCount fun _ => h.regions.name_of_lookup hfound⟩
    refine h.mem.regions.update fun hlive => ?_
    cases hlive

/-- A record without references is deleted: either all its lines have been released, or there
are none. -/
theorem StoreInv.recoverable_delete (t : IdTable) (hfound : (t.cached s.cache).lookup name = some e)
    (hop : t.Names op name) (hfree : ∀ j, ¬t.Refers config s.mem e.slot j)
    {clears : List (Named t.Fields → Named t.Fields)} (hne : clears ≠ [])
    (hclears : ∀ c ∈ clears, c = Named.clear)
    (hsafe : k = 0 ∨ (t.delete config s name e clears).stores.length ≤ k ∨
      t.memIdCount (t.records s.mem e.slot).fields = 0) :
    Recoverable config op s.mem ids
      (s.mem.write ((t.delete config s name e clears).stores.take k)) := by
  obtain ⟨hslot, hused, hlive⟩ := h.record_live t hfound
  simp only [IdTable.delete, h.released t hfound] at hsafe ⊢
  rcases Nat.eq_zero_or_pos k with rfl | hpos
  · exact h.recoverable_refl hlost
  have hrelease : ((releaseStores (lines (t.owner e.slot))).map onPool).take (k - clears.length) =
      (releaseStores (lines (t.owner e.slot))).map onPool := by
    refine take_of_length_le ?_
    rcases hsafe with rfl | hall | hnone
    · cases hpos
    · simp only [length_append, length_map] at hall ⊢
      omega
    · rw [(h.pool.empty _ hlive (by rw [holding_owner]; exact hnone)).1]
      exact Nat.zero_le _
  rw [take_append, length_map, hrelease, ← map_take, write_on_pool]
  have hclear : ((t.records s.mem e.slot).apply (clears.take k)).idle = true := by
    refine Named.idle_apply_clears _ ?_ fun c hc => hclears c (mem_of_mem_take hc)
    simp [hne, hpos.ne']
  refine h.recoverable_set t ids ?_ ?_ (hlost.release h.pool (t.owner e.slot)) (fun _ => ?_)
    (fun _ _ => rfl) fun j hj => absurd hj (hfree j)
  · refine (h.table t).distinct.update fun hlive => ?_
    rw [hclear] at hlive
    cases hlive
  · rw [hclear, Bool.not_true, Bool.and_false]
    exact h.pool.release _ _ _
  · rw [(h.table t).name_of_lookup hfound]
    exact hop

theorem StoreInv.recoverable_delMemLeaseRecord
    (hsafe : CrashSafe config s (.delMemLeaseRecord name) k) :
    Recoverable config (.delMemLeaseRecord name) s.mem ids
      (crashMem config s (.delMemLeaseRecord name) k) := by
  cases hfound : s.cache.cachedLeaseRecords.lookup name with
  | none => exact h.recoverable_nil hlost (by simp [plan, delMemLeaseRecord, hfound, Plan.refuse])
  | some e =>
    have hplan : plan config s (.delMemLeaseRecord name) =
        IdTable.lease.delete config s name e [.clear, .clear] := by
      simp only [plan, delMemLeaseRecord, hfound]
      rfl
    rw [CrashSafe, hplan] at hsafe
    rw [crashMem, hplan]
    exact h.recoverable_delete hlost .lease hfound (by exact rfl) (fun _ => id) (by simp) (by simp)
      (hsafe.imp_right fun hsafe => hsafe.imp_right fun hnone => hnone e hfound)

theorem StoreInv.recoverable_delShmImportRecord
    (hsafe : CrashSafe config s (.delShmImportRecord name) k) :
    Recoverable config (.delShmImportRecord name) s.mem ids
      (crashMem config s (.delShmImportRecord name) k) := by
  cases hfound : s.cache.cachedImportShmRecords.lookup name with
  | none => exact h.recoverable_nil hlost (by simp [plan, delShmImportRecord, hfound, Plan.refuse])
  | some e =>
    by_cases hany : s.cache.cachedRefShmIdxRecords.any (fun r => r.index = e.slot) = true
    · refine h.recoverable_nil hlost ?_
      simp only [plan, delShmImportRecord, hfound]
      rw [if_pos hany]
      rfl
    have hplan : plan config s (.delShmImportRecord name) =
        IdTable.shm.delete config s name e [.clear] := by
      simp only [plan, delShmImportRecord, hfound]
      rw [if_neg hany]
      rfl
    rw [CrashSafe, hplan] at hsafe
    rw [crashMem, hplan]
    exact h.recoverable_delete hlost .shm hfound (by exact rfl) (h.unreferenced hany)
      (by simp) (by simp) (hsafe.imp_right fun hsafe => hsafe.imp_right fun hnone => hnone e hfound)

/-! ### References and suspended clients -/

/-- The records of references change, but only for what the operation names. -/
theorem StoreInv.recoverable_refs {refs : Nat → MemShareRefRecord}
    (htargets : RefTargets config { s.mem with refs })
    (hrefs : ∀ i < config.refMax, ∀ name pid, ¬op.namesRef name pid →
      (({ s.mem with refs } : StoreMem).IsRef i name pid ↔ s.mem.IsRef i name pid)) :
    Recoverable config op s.mem ids { s.mem with refs } :=
  ⟨lines, ids, { h.mem with targets := htargets }, hlost,
    { CrashFrame.refl h.suspendCount with refs := hrefs }⟩

theorem StoreInv.recoverable_clearRefs {slots : List Nat}
    (hnamed : ∀ i ∈ slots, ∀ name pid, s.mem.IsRef i name pid → op.namesRef name pid) :
    Recoverable config op s.mem ids
      (s.mem.write (slots.map fun slot => onRef slot .clear)) := by
  rw [write_clearRefs]
  refine h.recoverable_refs hlost (h.targets.clear slots) fun i _ name pid hnot => ?_
  by_cases hmem : i ∈ slots
  · have hold : ¬s.mem.IsRef i name pid := fun href => hnot (hnamed i hmem name pid href)
    simp [StoreMem.IsRef, hmem, MemShareRefRecord.clear] at hold ⊢
    exact hold
  · simp [StoreMem.IsRef, hmem]

theorem StoreInv.recoverable_addShmRefRecord
    (hsafe : CrashSafe config s (.addShmRefRecord pid name) k) :
    Recoverable config (.addShmRefRecord pid name) s.mem ids
      (crashMem config s (.addShmRefRecord pid name) k) := by
  by_cases hinvalid : refInvalid pid name = true
  · exact h.recoverable_nil hlost (by simp [plan, addShmRefRecord, hinvalid, Plan.refuse])
  cases hlast : s.cache.refIdle.getLast? with
  | none =>
    exact h.recoverable_nil hlost (by simp [plan, addShmRefRecord, hlast, Plan.refuse])
  | some slot =>
    have hidle := ((h.refs.idle slot).mp (mem_of_getLast? hlast)).2
    cases hfound : s.cache.cachedImportShmRecords.lookup name with
    | none =>
      have hstores : (plan config s (.addShmRefRecord pid name)).stores =
          [slot].map fun slot => onRef slot .clear := by
        simp [plan, addShmRefRecord, hinvalid, hlast, hfound]
      rw [crashMem, hstores, ← map_take]
      refine h.recoverable_clearRefs hlost fun i hi name' pid' href => ?_
      obtain rfl : i = slot := by simpa using mem_of_mem_take hi
      exact absurd hidle href.1
    | some e =>
      rcases hsafe with rfl | hsafe
      · exact h.recoverable_refl hlost
      rcases Nat.eq_zero_or_pos k with rfl | hpos
      · exact h.recoverable_refl hlost
      obtain ⟨hslot, hused, -⟩ := h.record_live .shm hfound
      have hstores : (plan config s (.addShmRefRecord pid name)).stores =
          [onRef slot fun r => { r with pid },
            onRef slot fun r => { r with shmImportIndex := e.slot }] := by
        simp [plan, addShmRefRecord, hinvalid, hlast, hfound]
      -- After the first store the record is already the one that is wanted.
      have hmem : crashMem config s (.addShmRefRecord pid name) k =
          { s.mem with refs := update s.mem.refs slot ⟨pid, e.slot⟩ } := by
        rw [crashMem, hstores]
        by_cases hk : 2 ≤ k
        · rw [take_of_length_le hk]
          simp [StoreMem.write, onRef]
        · obtain rfl : k = 1 := by omega
          have hindex : (s.mem.refs slot).shmImportIndex = e.slot := by
            rw [hstores] at hsafe
            exact hsafe.resolve_left hk slot e hlast hfound
          simp [StoreMem.write, onRef, hindex]
      rw [hmem]
      refine h.recoverable_refs hlost (fun j hj hpid => ?_) fun i _ name' pid' hnot => ?_
      · dsimp only at hpid ⊢
        by_cases hji : j = slot
        · subst hji
          simpa using ⟨hslot, hused⟩
        · rw [update_of_ne hji] at hpid ⊢
          exact h.targets j hj hpid
      · by_cases hi : i = slot
        · subst hi
          have hname := h.imports.name_of_lookup hfound
          have hnew : ¬(name = name' ∧ pid = pid') := fun heq => hnot ⟨heq.1.symm, heq.2.symm⟩
          simp only [StoreMem.IsRef, update_self, hname, hidle]
          exact ⟨fun href => absurd ⟨href.2.1, href.2.2⟩ hnew, fun href => absurd rfl href.1⟩
        · simp only [StoreMem.IsRef, update_of_ne hi]

theorem StoreInv.recoverable_delShmRefRecord :
    Recoverable config (.delShmRefRecord pid name) s.mem ids
      (crashMem config s (.delShmRefRecord pid name) k) := by
  by_cases hinvalid : refInvalid pid name = true
  · exact h.recoverable_nil hlost (by simp [plan, delShmRefRecord, hinvalid, Plan.refuse])
  cases hfound : s.cache.cachedImportShmRecords.lookup name with
  | none =>
    exact h.recoverable_nil hlost (by simp [plan, delShmRefRecord, hfound, Plan.refuse])
  | some e =>
    rcases eraseLastMultiValue_cases h.refs.entries e.slot pid with
      ⟨herase, -⟩ | ⟨r, hr, ⟨hindex, hpid⟩, l', herase, -⟩
    · refine h.recoverable_nil hlost ?_
      simp [plan, delShmRefRecord, hinvalid, hfound, h.refs.same, herase]
    · have hstores : (plan config s (.delShmRefRecord pid name)).stores =
          [r.slot].map fun slot => onRef slot .clear := by
        simp [plan, delShmRefRecord, hinvalid, hfound, h.refs.same, herase]
      rw [crashMem, hstores, ← map_take]
      refine h.recoverable_clearRefs hlost fun i hi name' pid' href => ?_
      obtain rfl : i = r.slot := by simpa using mem_of_mem_take hi
      obtain ⟨-, -, hentry⟩ := (h.refs.mem r).mp hr
      have hindex' : (s.mem.refs r.slot).shmImportIndex = e.slot := by
        rw [← hindex]
        exact (congrArg RefEntry.index hentry).symm
      have hpid' : (s.mem.refs r.slot).pid = pid := by
        rw [← hpid]
        exact (congrArg RefEntry.pid hentry).symm
      refine ⟨?_, ?_⟩
      · rw [← href.2.1, hindex', h.imports.name_of_lookup hfound]
      · rw [← href.2.2, hpid']

theorem StoreInv.recoverable_delShmRefRecordsByPid {rank : Nat → Nat} :
    Recoverable config (.delShmRefRecordsByPid pid rank) s.mem ids
      (crashMem config s (.delShmRefRecordsByPid pid rank) k) := by
  by_cases hzero : pid = 0
  · exact h.recoverable_nil hlost (by simp [plan, delShmRefRecordsByPid, hzero, Plan.refuse])
  simp only [crashMem, plan, delShmRefRecordsByPid, if_neg hzero]
  rw [← map_take]
  refine h.recoverable_clearRefs hlost fun i hi name' pid' href => ?_
  obtain ⟨r, hr, rfl⟩ := mem_map.mp (mem_of_mem_take hi)
  rw [(mergeSort_perm _ _).mem_iff, mem_filter, h.refs.same] at hr
  obtain ⟨-, -, hentry⟩ := (h.refs.mem r).mp hr.1
  have hpid : (s.mem.refs r.slot).pid = pid := by
    rw [← of_decide_eq_true hr.2]
    exact (congrArg RefEntry.pid hentry).symm
  exact href.2.2.symm.trans hpid

theorem StoreInv.recoverable_suspended (count : Nat) {pids : Nat → UInt32}
    (hcount : count ≤ config.suspendMax)
    (hkeep : ∀ i < s.mem.suspendCount, ¬op.namesClient (s.mem.suspendPids i) →
      ∃ j < count, pids j = s.mem.suspendPids i) :
    Recoverable config op s.mem ids
      { s.mem with suspendCount := count, suspendPids := pids } := by
  refine ⟨lines, ids, { h.mem with pool := h.pool, targets := h.targets }, hlost,
    { CrashFrame.refl h.suspendCount with
      suspendCount := hcount
      suspended := fun pid hpid hnot => ?_ }⟩
  obtain ⟨i, hi, rfl⟩ := mem_map.mp hpid
  obtain ⟨j, hj, heq⟩ := hkeep i (mem_range.mp hi) hnot
  exact mem_map.mpr ⟨j, mem_range.mpr hj, heq⟩

theorem StoreInv.recoverable_addSuspendClient : Recoverable config (.addSuspendClient pid) s.mem ids
      (crashMem config s (.addSuspendClient pid) k) := by
  simp only [crashMem, plan, addSuspendClient]
  split_ifs with hpositive hmany hmem hfull
  · exact h.recoverable_nil hlost rfl
  · exact h.recoverable_nil hlost rfl
  · exact h.recoverable_nil hlost rfl
  · exact h.recoverable_nil hlost rfl
  -- The new entry stands behind all others.
  · rcases k with _ | _ | k
    · exact h.recoverable_refl hlost
    · exact h.recoverable_suspended hlost (s.mem.suspendCount + 1) (by omega) fun i hi _ =>
        ⟨i, by omega, rfl⟩
    · rw [take_of_length_le (by simp)]
      refine h.recoverable_suspended hlost (s.mem.suspendCount + 1) (by omega) fun i hi _ =>
        ⟨i, by omega, ?_⟩
      exact update_of_ne (by omega) _ _

theorem StoreInv.recoverable_delSuspendClient
    (hsafe : CrashSafe config s (.delSuspendClient pid) k) :
    Recoverable config (.delSuspendClient pid) s.mem ids
      (crashMem config s (.delSuspendClient pid) k) := by
  have hle := h.suspendCount
  by_cases hpositive : (!positivePid pid) = true
  · exact h.recoverable_nil hlost (by simp only [plan, delSuspendClient, hpositive]; rfl)
  cases hfind : (List.range s.mem.suspendCount).find? fun i => s.mem.suspendPids i = pid with
  | none =>
    refine h.recoverable_nil hlost ?_
    simp only [plan, delSuspendClient, if_neg hpositive, if_neg (not_lt.mpr hle), hfind]
  | some j =>
    have hj := mem_range.mp (mem_of_find?_eq_some hfind)
    have hpid : s.mem.suspendPids j = pid := by simpa using List.find?_some hfind
    have hstores : (plan config s (.delSuspendClient pid)).stores =
        [fun m => { m with suspendCount := s.mem.suspendCount - 1 },
          fun m => { m with
            suspendPids := update m.suspendPids j (m.suspendPids m.suspendCount) }] := by
      simp only [plan, delSuspendClient, if_neg hpositive, if_neg (not_lt.mpr hle), hfind]
    rcases k with _ | _ | k
    · exact h.recoverable_refl hlost
    · have hlast : s.mem.suspendPids (s.mem.suspendCount - 1) = pid := by
        rcases hsafe with hzero | hall | hlast
        · cases hzero
        · rw [hstores] at hall
          simp at hall
        · exact hlast
      rw [crashMem, hstores]
      refine h.recoverable_suspended hlost (s.mem.suspendCount - 1) (by omega)
        fun i hi hnot => ⟨i, ?_, rfl⟩
      have hne : i ≠ s.mem.suspendCount - 1 := by
        rintro rfl
        exact hnot hlast
      omega
    · rw [crashMem, hstores, take_of_length_le (by simp)]
      refine h.recoverable_suspended hlost (s.mem.suspendCount - 1) (by omega) fun i hi hnot => ?_
      have hij : i ≠ j := by
        rintro rfl
        exact hnot hpid
      -- The last entry has moved to the place that has become free.
      by_cases hlast : i = s.mem.suspendCount - 1
      · exact ⟨j, by omega, by subst hlast; exact update_self ..⟩
      · exact ⟨i, by omega, update_of_ne hij _ _⟩

/-! ### Every operation -/

/-- **A crash where it is harmless leaves a recoverable file.** -/
theorem StoreInv.recoverable (hnames : op.NamesOk) (honce : op.Once s)
    (hsafe : CrashSafe config s op k) :
    Recoverable config op s.mem ids (crashMem config s op k) := by
  cases op with
  | addRegionRecord input => exact h.recoverable_addRegionRecord hlost hnames hsafe
  | delRegionRecord name => exact h.recoverable_delRegionRecord hlost
  | addMemLeaseInput input =>
    exact h.recoverable_addInput hlost .lease (hnames input.name (mem_singleton_self _))
      (clearsIds_leaseInput input) hsafe
  | addMemLeaseResult name result =>
    exact h.recoverable_addResult hlost .lease (by exact rfl) (setsIds_leaseResult result) honce
      hsafe
  | updateMemLeaseRecordState name state =>
    exact h.recoverable_assign hlost .lease (by exact rfl)
      (by simp [IdTable.memIdCount, IdTable.memIdBuffer]) k
  | updateMemLeaseRecord name context size =>
    exact h.recoverable_assign hlost .lease (by exact rfl)
      (by simp [leaseContextFields, IdTable.memIdCount, IdTable.memIdBuffer]) k
  | delMemLeaseRecord name => exact h.recoverable_delMemLeaseRecord hlost hsafe
  | addShmImportInput input =>
    exact h.recoverable_addInput hlost .shm (hnames input.name (mem_singleton_self _))
      (clearsIds_importInput input) hsafe
  | addShmImportResult name result =>
    by_cases hlong : name.length ≥ recordNameSize
    · exact h.recoverable_nil hlost (by simp [plan, addShmImportResult, hlong, Plan.refuse])
    have hplan : plan config s (.addShmImportResult name result) =
        IdTable.shm.addResult s name result.memIds (importResultFields result) := if_neg hlong
    rw [CrashSafe, hplan] at hsafe
    rw [crashMem, hplan]
    exact h.recoverable_addResult hlost .shm (by exact rfl) (setsIds_importResult result) honce
      hsafe
  | updateShmImportRecordState name state =>
    exact h.recoverable_assign hlost .shm (by exact rfl)
      (by simp [IdTable.memIdCount, IdTable.memIdBuffer]) k
  | delShmImportRecord name => exact h.recoverable_delShmImportRecord hlost hsafe
  | addShmRefRecord pid name => exact h.recoverable_addShmRefRecord hlost hsafe
  | delShmRefRecord pid name => exact h.recoverable_delShmRefRecord hlost
  | delShmRefRecordsByPid pid rank => exact h.recoverable_delShmRefRecordsByPid hlost
  | addSuspendClient pid => exact h.recoverable_addSuspendClient hlost
  | delSuspendClient pid => exact h.recoverable_delSuspendClient hlost hsafe

end Frames

/-! ### Runs with crashes -/

/-- **The states of a daemon that works, dies and starts again**, from a file of zeros:
names are not empty and have no zeros, a result is recorded once, and the daemon dies
only where it is harmless. -/
inductive CrashReach (config : StoreConfig) : RecordStore → Prop
  | start (alive : UInt32 → Bool) : CrashReach config (.start config alive)
  | step {s : RecordStore} {op : StoreOp} (hs : CrashReach config s) (hnames : op.NamesOk)
      (honce : op.Once s) : CrashReach config (s.step config op)
  | crash {s : RecordStore} {op : StoreOp} {k : Nat} (alive : UInt32 → Bool)
      (hs : CrashReach config s) (hnames : op.NamesOk) (honce : op.Once s)
      (hsafe : CrashSafe config s op k) :
      CrashReach config (initializeStore config alive (crashMem config s op k))

theorem CrashReach.inv {config : StoreConfig} {s : RecordStore} (hs : CrashReach config s) :
    ∃ lines ids, StoreInv config s lines ids ∧
      NoLineLost config.lineCount s.mem.pool lines := by
  induction hs with
  | start alive =>
    refine ⟨_, _, (memInv_zero config).restore alive, fun l _ hused => ?_⟩
    obtain ⟨count, pids, hmem⟩ := initializeStore_mem config alive StoreMem.zero
    rw [RecordStore.start, hmem] at hused
    exact absurd hused (by simp [IdPool.headOf, StoreMem.zero])
  | step hs hnames honce ih =>
    obtain ⟨lines, ids, h, hlost⟩ := ih
    obtain ⟨lines', ids', h', hlost'⟩ := h.carries_step hnames.added
    exact ⟨lines', ids', h', hlost' honce hlost⟩
  | crash alive hs hnames honce hsafe ih =>
    obtain ⟨lines, ids, h, hlost⟩ := ih
    obtain ⟨lines', ids', hmem, hlost', -⟩ := h.recoverable hlost hnames honce hsafe
    obtain ⟨count, pids, hm⟩ := initializeStore_mem config alive (crashMem config _ _ _)
    exact ⟨lines', ids', hmem.restore alive, by rw [hm]; exact hlost'⟩

/-- **Crash consistency**: in every state of such a run, a crash where it is harmless
leaves all other records as they were, and every used line with exactly one record. -/
theorem crash_consistent {config : StoreConfig} {s : RecordStore} (hs : CrashReach config s)
    {op : StoreOp} {k : Nat} (hnames : op.NamesOk) (honce : op.Once s)
    (hsafe : CrashSafe config s op k) (alive : UInt32 → Bool) :
    Consistent config alive op s (initializeStore config alive (crashMem config s op k)) := by
  obtain ⟨lines, ids, h, hlost⟩ := hs.inv
  exact h.consistent (h.recoverable hlost hnames honce hsafe) alive

/-! ### A window -/

/-- The daemon dies when `DelMemLeaseRecord` has cleared the name: the lines of the lease
stay used, and no record has them. -/
theorem StoreInv.lines_lost {config : StoreConfig} {s : RecordStore} {lines : Owner → List Nat}
    {ids : Owner → List UInt64} (h : StoreInv config s lines ids) {name : Name}
    {e : WithMemIdsRecord} (hfound : s.cache.cachedLeaseRecords.lookup name = some e)
    (hids : e.memIds ≠ []) (alive : UInt32 → Bool) :
    ¬Consistent config alive (.delMemLeaseRecord name) s
      (initializeStore config alive (crashMem config s (.delMemLeaseRecord name) 1)) := by
  obtain ⟨hslot, -, hlive⟩ := h.record_live .lease hfound
  have hcount : (s.mem.holding config (.lease e.slot)).memIdCount ≠ 0 := by
    intro hzero
    refine hids ?_
    rw [((h.leases.cached name e).mp hfound).2.2.2]
    exact (h.pool.empty _ hlive hzero).2
  have hchain := (h.pool.chain _ hlive hcount).1
  have hl := getD_mem hchain.lines_pos
  have hcrash : crashMem config s (.delMemLeaseRecord name) 1 =
      { s.mem with
        leases := update s.mem.leases e.slot (s.mem.leases e.slot).clear } := by
    simp only [crashMem, plan, delMemLeaseRecord, hfound]
    rfl
  -- What the record owned is nobody's any more; everything else is in order.
  have hpool : PoolInv config.lineCount s.mem.pool
      (update (s.mem.holding config) (.lease e.slot)
        ⟨false, (s.mem.leases e.slot).fields.memIdCount, (s.mem.leases e.slot).fields.memIdBuffer⟩)
      (update lines (.lease e.slot) [])
      (update ids (.lease e.slot) (ids (.lease e.slot))) :=
    h.pool.update (fun _ _ _ _ => rfl) (by simp)
      (by simp) (fun _ => rfl) (by simp) (by simp)
  rw [update_eq_self] at hpool
  have hinv : MemInv config (crashMem config s (.delMemLeaseRecord name) 1)
      (update lines (.lease e.slot) []) ids := by
    rw [hcrash]
    refine { h.mem with leases := h.mem.leases.update fun hfalse => ?_, pool := ?_ }
    · rw [Named.idle_clear] at hfalse
      cases hfalse
    · have hholding := holding_set .lease config s.mem e.slot (s.mem.leases e.slot).clear s.mem.pool
      rw [Named.idle_clear, Bool.not_true, Bool.and_false] at hholding
      exact hholding.symm ▸ hpool
  have h' := hinv.restore alive
  intro hcons
  obtain ⟨count, pids, hmem⟩ := initializeStore_mem config alive
    (crashMem config s (.delMemLeaseRecord name) 1)
  obtain ⟨o, ⟨hrestored, ho⟩, -⟩ := hcons.lines ((lines (.lease e.slot)).getD 0 0)
    (h.pool.bound _ _ hl) (by rw [hmem, hcrash]; exact hchain.used hl)
  have howned : RecordStore.chainLines config _ o = _ :=
    h'.pool.released ((h'.restored_iff o).mp hrestored)
  rw [howned] at ho
  by_cases heq : o = .lease e.slot
  · rw [heq, update_self] at ho
    cases ho
  · rw [update_of_ne heq] at ho
    exact h.pool.disjoint o _ heq _ ho hl

theorem StoreInv.memIdCount_eq_zero {config : StoreConfig} {s : RecordStore}
    {lines : Owner → List Nat} {ids : Owner → List UInt64} (h : StoreInv config s lines ids)
    {name : Name} {e : WithMemIdsRecord} (hfound : s.cache.cachedLeaseRecords.lookup name = some e)
    (hids : e.memIds = []) : (s.mem.leases e.slot).fields.memIdCount = 0 := by
  by_contra hcount
  have hchain := (h.pool.chain (.lease e.slot) (h.record_live .lease hfound).2.2 hcount).1
  rw [((h.leases.cached name e).mp hfound).2.2.2] at hids
  exact hchain.nonempty hids

/-- A lease with one memory id. -/
def leaseOps : List StoreOp :=
  [.addMemLeaseInput ⟨true, [97], 4096, 0, ⟨10, 0, 0⟩, .preAdd⟩,
    .addMemLeaseResult [97] ⟨[7], 1, 4096, 2⟩]

theorem leaseOps_namesOk : ∀ op ∈ leaseOps, op.NamesOk := by
  simp [leaseOps, StoreOp.NamesOk, StoreOp.names]

/-- The store on a file of zeros: no lease, an idle slot for one, and an idle line. -/
theorem start_leases (config : StoreConfig) (hlease : 0 < config.leaseMax)
    (hline : 0 < config.lineCount) (alive : UInt32 → Bool) :
    (∀ name, (RecordStore.start config alive).cache.cachedLeaseRecords.lookup name = none) ∧
      (∃ slot, (RecordStore.start config alive).cache.leaseIdle.getLast? = some slot) ∧
      (RecordStore.start config alive).cache.poolIdle ≠ [] := by
  have h := (memInv_zero config).restore alive
  obtain ⟨count, pids, hmem⟩ := initializeStore_mem config alive StoreMem.zero
  refine ⟨fun name => ?_, ?_, ?_⟩
  · rw [Option.eq_none_iff_forall_ne_some]
    intro e he
    obtain ⟨-, hlive, -⟩ := (h.leases.cached name e).mp he
    rw [hmem] at hlive
    simp [StoreMem.zero, Named.idle] at hlive
  · have hidle : 0 ∈ (RecordStore.start config alive).cache.leaseIdle := by
      refine (h.leases.idle 0).mpr ⟨hlease, ?_⟩
      rw [hmem]
      simp [StoreMem.zero, Named.idle]
    exact ⟨_, List.getLast?_eq_some_getLast (ne_nil_of_mem hidle)⟩
  · have hidle : 0 ∈ (RecordStore.start config alive).cache.poolIdle := by
      refine (h.poolIdle.mem 0).mpr ⟨hline, ?_⟩
      rw [hmem]
      simp [StoreMem.zero, IdPool.headOf]
    exact ne_nil_of_mem hidle

section LeaseOps

variable (config : StoreConfig) (hlease : 0 < config.leaseMax) (hline : 0 < config.lineCount)
  (alive : UInt32 → Bool)

include hlease hline

theorem leaseOps_found :
    ∃ e, ((RecordStore.start config alive).run config leaseOps).cache.cachedLeaseRecords.lookup
      [97] = some e ∧ e.memIds = [7] := by
  obtain ⟨hnone, ⟨slot, hslot⟩, hpool⟩ := start_leases config hlease hline alive
  generalize RecordStore.start config alive = s at hnone hslot hpool
  have hneed : linesNeed 1 = 1 := rfl
  simp [RecordStore.run, leaseOps, RecordStore.step, plan, addMemLeaseInput, hslot, hnone,
    addMemLeaseResult, allocLines, recordNameSize, hneed, hpool]

theorem leaseOps_reach :
    CrashReach config ((RecordStore.start config alive).run config leaseOps) := by
  have hstart : CrashReach config (.start config alive) := .start alive
  have hfirst := hstart.step (leaseOps_namesOk _ (mem_cons_self ..)) trivial
  refine hfirst.step (leaseOps_namesOk _ (by simp [leaseOps])) fun e he => ?_
  -- The record has just been added, so it has no memory ids.
  obtain ⟨lines, ids, h, -⟩ := hfirst.inv
  refine h.memIdCount_eq_zero he ?_
  obtain ⟨hnone, ⟨slot, hslot⟩, -⟩ := start_leases config hlease hline alive
  simp only [RecordStore.step, plan, addMemLeaseInput, hslot, hnone] at he
  exact (congrArg WithMemIdsRecord.memIds (Option.some.inj he)).symm

end LeaseOps

/-- **`DelMemLeaseRecord` has a window**: the daemon records a lease and its memory id,
deletes it, and dies after the first store.  The line of the memory id stays used, and
no record has it. -/
theorem delMemLeaseRecord_loses_line :
    CrashReach recordStoreConfig
        ((RecordStore.start recordStoreConfig fun _ => true).run recordStoreConfig leaseOps) ∧
      (StoreOp.delMemLeaseRecord [97]).NamesOk ∧
      ¬Consistent recordStoreConfig (fun _ => true) (.delMemLeaseRecord [97])
        ((RecordStore.start recordStoreConfig fun _ => true).run recordStoreConfig leaseOps)
        (initializeStore recordStoreConfig (fun _ => true)
          (crashMem recordStoreConfig
            ((RecordStore.start recordStoreConfig fun _ => true).run recordStoreConfig leaseOps)
            (.delMemLeaseRecord [97]) 1)) := by
  have hreach := leaseOps_reach recordStoreConfig (by decide) (by decide) fun _ => true
  refine ⟨hreach, by simp [StoreOp.NamesOk, StoreOp.names], ?_⟩
  obtain ⟨e, hfound, hids⟩ := leaseOps_found recordStoreConfig (by decide) (by decide)
    fun _ => true
  obtain ⟨lines, ids, h, -⟩ := hreach.inv
  exact h.lines_lost hfound (by rw [hids]; simp) _

/-- The daemon dies between two of the stores of `UpdateMemLeaseRecord`. -/
theorem crash_consistent_update :
    Consistent recordStoreConfig (fun _ => true) (.updateMemLeaseRecord [97] ⟨11, 1, 1⟩ 8192)
      ((RecordStore.start recordStoreConfig fun _ => true).run recordStoreConfig leaseOps)
      (initializeStore recordStoreConfig (fun _ => true)
        (crashMem recordStoreConfig
          ((RecordStore.start recordStoreConfig fun _ => true).run recordStoreConfig leaseOps)
          (.updateMemLeaseRecord [97] ⟨11, 1, 1⟩ 8192) 2)) := by
  refine crash_consistent (leaseOps_reach _ (by decide) (by decide) _) ?_ ?_ (.inr (.inr ?_)) _
  · simp [StoreOp.NamesOk, StoreOp.names]
  · exact trivial
  · exact trivial

end UbsMem
