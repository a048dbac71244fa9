import UbsMem.RecordStore

/-! # The invariant of the record store

What the stacks and maps of the store hold is determined by the file: `StoreInv` says
how, and that the file is well formed.  Every operation keeps it, and `Initialize`
establishes it again on the same file, with the same memory ids of each record.  So a
restart without a crash is not seen by any of the functions that list records.
-/
namespace UbsMem

open List StoreMem
open Function (update update_of_ne update_self update_eq_self)

/-! ### The effect of a list of stores -/

@[simp] theorem write_nil (m : StoreMem) : m.write [] = m := rfl

theorem write_append (m : StoreMem) (l l' : List Store) :
    m.write (l ++ l') = (m.write l).write l' := foldl_append

/-- A record after changes. -/
def Named.apply {F : Type} (r : Named F) (changes : List (Named F → Named F)) : Named F :=
  changes.foldl (fun r change => change r) r

theorem Named.apply_append {F : Type} (r : Named F) (l l' : List (Named F → Named F)) :
    r.apply (l ++ l') = (r.apply l).apply l' := foldl_append

/-- Changes of one record, one after another, are one change: in any of the tables, where
`g` reads the record and `u` replaces it. -/
theorem write_record {F : Type} (g : StoreMem → Named F) (u : StoreMem → Named F → StoreMem)
    (hself : ∀ m, u m (g m) = m) (hget : ∀ m r, g (u m r) = r)
    (hset : ∀ m r r', u (u m r) r' = u m r') (m : StoreMem) (changes : List (Named F → Named F)) :
    m.write (changes.map fun f m => u m (f (g m))) = u m ((g m).apply changes) := by
  induction changes generalizing m with
  | nil => exact (hself m).symm
  | cons change changes ih =>
    rw [map_cons, ← singleton_append, write_append, ih]
    simp [StoreMem.write, Named.apply, hget, hset]

section

variable (m : StoreMem) (slot : Nat)

theorem write_onRegion (changes : List (Named RegionFields → Named RegionFields)) :
    m.write (changes.map (onRegion slot)) =
      { m with regions := update m.regions slot ((m.regions slot).apply changes) } :=
  write_record (·.regions slot) (fun m r => { m with regions := update m.regions slot r })
    (by simp) (by simp) (by simp) m changes

theorem write_onLease (changes : List (Named LeaseFields → Named LeaseFields)) :
    m.write (changes.map (onLease slot)) =
      { m with leases := update m.leases slot ((m.leases slot).apply changes) } :=
  write_record (·.leases slot) (fun m r => { m with leases := update m.leases slot r })
    (by simp) (by simp) (by simp) m changes

theorem write_onImport (changes : List (Named ImportFields → Named ImportFields)) :
    m.write (changes.map (onImport slot)) =
      { m with imports := update m.imports slot ((m.imports slot).apply changes) } :=
  write_record (·.imports slot) (fun m r => { m with imports := update m.imports slot r })
    (by simp) (by simp) (by simp) m changes

end

theorem write_onPool (m : StoreMem) (stores : List IdStore) :
    m.write (stores.map onPool) = { m with pool := m.pool.write stores } := by
  induction stores generalizing m with
  | nil => rfl
  | cons store stores ih =>
    rw [map_cons, ← singleton_append, write_append, ih]
    rfl

theorem MemShareRefRecord.clear_of_idle {r : MemShareRefRecord} (h : r.pid = 0) : r.clear = r := by
  cases r
  cases h
  rfl

theorem write_clearRefs (m : StoreMem) (slots : List Nat) :
    m.write (slots.map fun slot => onRef slot .clear) =
      { m with refs := fun i => if i ∈ slots then (m.refs i).clear else m.refs i } := by
  induction slots generalizing m with
  | nil => simp
  | cons slot slots ih =>
    rw [map_cons, ← singleton_append, write_append, ih]
    have hrefs : (fun i => if i ∈ slots then (update m.refs slot (m.refs slot).clear i).clear
        else update m.refs slot (m.refs slot).clear i) =
        fun i => if i ∈ slot :: slots then (m.refs i).clear else m.refs i := by
      funext i
      by_cases hi : i = slot
      · subst hi
        simp [MemShareRefRecord.clear]
      · simp [hi]
    simp only [StoreMem.write, foldl_cons, foldl_nil, onRef]
    rw [← hrefs]

theorem Named.apply_nameChanges {F : Type} (r : Named F) (name : Name) {k : Nat}
    (hk : k ≤ (cBytes name).length) :
    r.apply ((nameChanges name).take k) = ⟨copyName r.name name k, r.fields⟩ := by
  induction k with
  | zero =>
    rfl
  | succ k ih =>
    have htake : (nameChanges name (F := F)).take (k + 1) =
        (nameChanges name).take k ++ [fun r => r.setChar k ((cBytes name).getD k 0)] := by
      rw [take_add_one]
      congr 1
      simp [nameChanges, List.getElem?_range (show k < (cBytes name).length by omega)]
    rw [htake, apply_append, ih (by omega)]
    simp only [Named.apply, foldl_cons, foldl_nil, Named.setChar]
    congr 1
    funext i
    simp only [copyName, Function.update_apply]
    by_cases hi : i = k
    · subst hi
      simp
    · have hlt : i < k + 1 ↔ i < k := by omega
      simp [hi, hlt]

/-- Fields are assigned one after the other. -/
def applyFields {F : Type} (x : F) (fields : List (F → F)) : F := fields.foldl (fun x f => f x) x

theorem applyFields_append {F : Type} (x : F) (l l' : List (F → F)) :
    applyFields x (l ++ l') = applyFields (applyFields x l) l' := foldl_append

theorem Named.apply_fieldChanges {F : Type} (r : Named F) (fields : List (F → F)) :
    r.apply (fieldChanges fields) = ⟨r.name, applyFields r.fields fields⟩ := by
  induction fields generalizing r with
  | nil => rfl
  | cons f fields ih => exact ih _

theorem Named.apply_recordChanges {F : Type} (r : Named F) (name : Name) (fields : List (F → F)) :
    r.apply (recordChanges name fields) =
      ⟨copyName r.name name (cBytes name).length, applyFields r.fields fields⟩ := by
  have hall : nameChanges name (F := F) = (nameChanges name).take (cBytes name).length := by
    rw [take_of_length_le (by simp [nameChanges])]
  rw [recordChanges, hall, apply_append, apply_nameChanges _ _ le_rfl, apply_fieldChanges]

/-! ### References -/

/-- The entry of a reference record. -/
def refEntry (refs : Nat → MemShareRefRecord) (i : Nat) : RefEntry :=
  ⟨(refs i).shmImportIndex, (refs i).pid, i⟩

/-- **The stack and the two maps of references belong to the records.** -/
structure RefInv (capacity : Nat) (refs : Nat → MemShareRefRecord) (idle : List Nat)
    (byIndex byPid : List RefEntry) : Prop where
  nodup : idle.Nodup
  idle : ∀ i, i ∈ idle ↔ i < capacity ∧ (refs i).pid = 0
  same : byPid = byIndex
  entries : byIndex.Nodup
  mem : ∀ e, e ∈ byIndex ↔
    e.slot < capacity ∧ (refs e.slot).pid ≠ 0 ∧ e = refEntry refs e.slot

section Refs

variable {capacity : Nat} {refs : Nat → MemShareRefRecord} {idle : List Nat}
  {byIndex byPid : List RefEntry}

theorem refInv_restore (config : StoreConfig) (refs : Nat → MemShareRefRecord) :
    RefInv config.refMax refs (restoreIdle config.refMax fun i => (refs i).pid = 0)
      (restoreRefs config refs) (restoreRefs config refs) := by
  refine ⟨nodup_range.filter _, fun i => by simp [restoreIdle], rfl, ?_, fun e => ?_⟩
  · refine (nodup_range.filter _).map fun i j hij => ?_
    exact congrArg RefEntry.slot hij
  · simp only [restoreRefs, mem_map, mem_filter, mem_range, decide_eq_true_eq]
    constructor
    · rintro ⟨i, ⟨hi, hpid⟩, rfl⟩
      exact ⟨hi, hpid, rfl⟩
    · rintro ⟨hi, hpid, he⟩
      exact ⟨e.slot, ⟨hi, hpid⟩, he.symm⟩

section

variable (h : RefInv capacity refs idle byIndex byPid)

include h

theorem RefInv.perm {idle' : List Nat} {byIndex' byPid' : List RefEntry}
    (h' : RefInv capacity refs idle' byIndex' byPid') : byIndex'.Perm byIndex := by
  refine (perm_ext_iff_of_nodup h'.entries h.entries).mpr fun e => ?_
  rw [h.mem, h'.mem]

/-- A reference is added in the slot that `Allocate` takes. -/
theorem RefInv.add {i : Nat} (hlast : idle.getLast? = some i) {r : MemShareRefRecord}
    (hpid : r.pid ≠ 0) :
    RefInv capacity (update refs i r) idle.dropLast
      (byIndex ++ [⟨r.shmImportIndex, r.pid, i⟩]) (byPid ++ [⟨r.shmImportIndex, r.pid, i⟩]) := by
  have hmem : i ∈ idle := mem_of_getLast? hlast
  have hsplit : idle = idle.dropLast ++ [i] := (dropLast_append_getLast? i hlast).symm
  have hdrop : i ∉ idle.dropLast := by
    intro hin
    have hnodup := h.nodup
    rw [hsplit, nodup_append'] at hnodup
    exact disjoint_left.mp hnodup.2.2 hin (mem_singleton_self i)
  have hslot : ∀ e ∈ byIndex, e.slot ≠ i := by
    rintro e he rfl
    exact ((h.mem e).mp he).2.1 ((h.idle _).mp hmem).2
  refine ⟨h.nodup.sublist (dropLast_sublist _), fun j => ?_, by rw [h.same], ?_, fun e => ?_⟩
  · by_cases hj : j = i
    · subst hj
      simp [hdrop, hpid]
    · rw [update_of_ne hj, ← h.idle j]
      conv_rhs => rw [hsplit]
      simp [hj]
  · refine nodup_append'.mpr ⟨h.entries, nodup_singleton _, ?_⟩
    rw [disjoint_singleton]
    exact fun he => hslot _ he rfl
  · rw [mem_append, mem_singleton, h.mem]
    by_cases he : e.slot = i
    · obtain ⟨hlt, hold⟩ := (h.idle i).mp hmem
      simp only [hold, ne_eq, not_true_eq_false, false_and, false_or, refEntry, he,
        update_self, hlt, hpid, not_false_eq_true, true_and]
    · simp only [refEntry, update_of_ne he]
      refine or_iff_left fun heq => he ?_
      rw [heq]

theorem RefInv.remove {removed : List RefEntry} (hnodup : removed.Nodup)
    (hsub : ∀ e ∈ removed, e ∈ byIndex) {byIndex' byPid' : List RefEntry}
    (hsame : byPid' = byIndex') (hnodup' : byIndex'.Nodup)
    (hmem : ∀ e, e ∈ byIndex' ↔ e ∈ byIndex ∧ e ∉ removed) :
    RefInv capacity
      (fun i => if i ∈ removed.map RefEntry.slot then (refs i).clear else refs i)
      (idle ++ removed.map RefEntry.slot) byIndex' byPid' := by
  -- An entry of the maps is determined by its slot.
  have hslot : ∀ e ∈ byIndex, ∀ e' ∈ byIndex, e.slot = e'.slot → e = e' := by
    intro e he e' he' heq
    rw [((h.mem e).mp he).2.2, ((h.mem e').mp he').2.2, heq]
  have hremoved : ∀ e, e ∈ byIndex → (e.slot ∈ removed.map RefEntry.slot ↔ e ∈ removed) := by
    intro e he
    constructor
    · intro hin
      obtain ⟨e', he', heq⟩ := mem_map.mp hin
      rwa [hslot e he e' (hsub e' he') heq.symm]
    · exact fun hin => mem_map.mpr ⟨e, hin, rfl⟩
  refine ⟨?_, fun i => ?_, hsame, hnodup', fun e => ?_⟩
  · refine nodup_append'.mpr ⟨h.nodup, ?_, disjoint_left.mpr fun i hi hin => ?_⟩
    · refine List.Nodup.map_on (fun e he e' he' heq => ?_) hnodup
      exact hslot e (hsub e he) e' (hsub e' he') heq
    · obtain ⟨e, he, rfl⟩ := mem_map.mp hin
      exact ((h.mem e).mp (hsub e he)).2.1 ((h.idle _).mp hi).2
  · rw [mem_append, h.idle]
    by_cases hi : i ∈ removed.map RefEntry.slot
    · obtain ⟨e, he, rfl⟩ := mem_map.mp hi
      simp [hi, MemShareRefRecord.clear, ((h.mem e).mp (hsub e he)).1]
    · simp [hi]
  · rw [hmem]
    constructor
    · rintro ⟨he, hnot⟩
      have hnot' := mt (hremoved e he).mp hnot
      obtain ⟨hlt, hpid, heq⟩ := (h.mem e).mp he
      refine ⟨hlt, by simpa only [hnot', if_false] using hpid, ?_⟩
      simp only [refEntry, hnot']
      exact heq
    · rintro ⟨hlt, hpid, heq⟩
      have hnot : e.slot ∉ removed.map RefEntry.slot := by
        intro hin
        simp [hin, MemShareRefRecord.clear] at hpid
      simp only [refEntry, hnot] at hpid heq
      have he : e ∈ byIndex := (h.mem e).mpr ⟨hlt, hpid, heq⟩
      exact ⟨he, mt (hremoved e he).mpr hnot⟩

end

end Refs

/-! ### The invariant -/

/-- The records that can have memory ids. -/
inductive Owner
  | lease (slot : Nat)
  | shm (slot : Nat)
  deriving DecidableEq

/-- What the file says about the memory ids of a record. -/
def StoreMem.holding (config : StoreConfig) (m : StoreMem) : Owner → Holding
  | .lease i => ⟨i < config.leaseMax && !(m.leases i).idle, (m.leases i).fields.memIdCount,
      (m.leases i).fields.memIdBuffer⟩
  | .shm i => ⟨i < config.importMax && !(m.imports i).idle, (m.imports i).fields.memIdCount,
      (m.imports i).fields.memIdBuffer⟩

/-- Every reference is to an import record in use. -/
def RefTargets (config : StoreConfig) (m : StoreMem) : Prop :=
  ∀ i < config.refMax, (m.refs i).pid ≠ 0 →
    (m.refs i).shmImportIndex < config.importMax ∧
      (m.imports (m.refs i).shmImportIndex).idle = false

/-- **The file is well formed**: no two records of a table have one name, every record
owns the chain of its memory ids, and references are to import records. -/
structure MemInv (config : StoreConfig) (m : StoreMem) (lines : Owner → List Nat)
    (ids : Owner → List UInt64) : Prop where
  regions : DistinctNames config.regionMax m.regions
  leases : DistinctNames config.leaseMax m.leases
  imports : DistinctNames config.importMax m.imports
  pool : PoolInv config.lineCount m.pool (m.holding config) lines ids
  targets : RefTargets config m

/-- **The stacks and maps are those of the file.** -/
structure StoreInv (config : StoreConfig) (s : RecordStore) (lines : Owner → List Nat)
    (ids : Owner → List UInt64) : Prop where
  regions : TableInv config.regionMax s.mem.regions s.cache.regionIdle
    s.cache.cachedRegionRecords fun _ => []
  leases : TableInv config.leaseMax s.mem.leases s.cache.leaseIdle
    s.cache.cachedLeaseRecords fun i => ids (.lease i)
  imports : TableInv config.importMax s.mem.imports s.cache.importIdle
    s.cache.cachedImportShmRecords fun i => ids (.shm i)
  pool : PoolInv config.lineCount s.mem.pool (s.mem.holding config) lines ids
  poolIdle : IdleLines config.lineCount s.mem.pool s.cache.poolIdle
  refs : RefInv config.refMax s.mem.refs s.cache.refIdle s.cache.cachedRefShmIdxRecords
    s.cache.cachedRefShmPidRecords
  targets : RefTargets config s.mem
  suspendCount : s.mem.suspendCount ≤ config.suspendMax
  suspended : ∀ pid ∈ s.mem.suspended, positivePid pid = true

section Invariant

variable {config : StoreConfig} {m : StoreMem} {s : RecordStore} {lines : Owner → List Nat}
  {ids : Owner → List UInt64}

theorem StoreInv.mem (h : StoreInv config s lines ids) : MemInv config s.mem lines ids :=
  ⟨h.regions.distinct, h.leases.distinct, h.imports.distinct, h.pool, h.targets⟩

/-- `Initialize` changes the array of suspended clients only. -/
theorem initializeStore_mem (config : StoreConfig) (alive : UInt32 → Bool) (m : StoreMem) :
    ∃ count pids, (initializeStore config alive m).mem =
      { m with suspendCount := count, suspendPids := pids } := by
  unfold initializeStore StoreMem.clearSuspended StoreMem.setSuspended
  split_ifs <;> exact ⟨_, _, rfl⟩

theorem suspended_setSuspended (m : StoreMem) (pids : List UInt32) :
    (m.setSuspended pids).suspended = pids := by
  refine ext_getElem (by simp [StoreMem.suspended, StoreMem.setSuspended]) fun i hi hi' => ?_
  simp [StoreMem.suspended, StoreMem.setSuspended, hi']

/-- What `ListSuspendClients` returns after `Initialize`. -/
theorem listSuspendClients_initializeStore (config : StoreConfig) (alive : UInt32 → Bool)
    (m : StoreMem) :
    listSuspendClients config (initializeStore config alive m) = keepSuspended config alive m ∧
      (initializeStore config alive m).mem.suspendCount ≤ config.suspendMax ∧
      (initializeStore config alive m).mem.suspended = keepSuspended config alive m := by
  unfold listSuspendClients initializeStore
  by_cases hcount : m.suspendCount > config.suspendMax
  · simp [hcount, StoreMem.clearSuspended, StoreMem.suspended, keepSuspended]
  · have hlen : (keepSuspended config alive m).length ≤ config.suspendMax := by
      refine le_trans ?_ (not_lt.mp hcount)
      rw [keepSuspended, if_neg hcount]
      exact le_trans (length_filter_le _ _) (by simp [StoreMem.suspended])
    rw [if_neg hcount, suspended_setSuspended]
    exact ⟨if_neg (by simpa [StoreMem.setSuspended] using hlen), hlen, rfl⟩

/-- **`Initialize` on a well-formed file builds the stacks and maps of the file.** -/
theorem MemInv.restore (h : MemInv config m lines ids) (alive : UInt32 → Bool) :
    StoreInv config (initializeStore config alive m) lines ids := by
  obtain ⟨count, pids, hmem⟩ := initializeStore_mem config alive m
  have hsuspended := listSuspendClients_initializeStore config alive m
  have hcache : (initializeStore config alive m).cache = restoreStore config m := rfl
  constructor
  · rw [hmem, hcache]
    exact TableInv.restore h.regions fun _ _ _ => rfl
  · rw [hmem, hcache]
    refine TableInv.restore h.leases fun i hi hlive => ?_
    exact h.pool.fill (o := .lease i) (by simp [StoreMem.holding, hi, hlive])
  · rw [hmem, hcache]
    refine TableInv.restore h.imports fun i hi hlive => ?_
    exact h.pool.fill (o := .shm i) (by simp [StoreMem.holding, hi, hlive])
  · rw [hmem]
    exact h.pool
  · rw [hmem, hcache]
    exact idleLines_restore _ _
  · rw [hmem, hcache]
    exact refInv_restore config m.refs
  · rw [hmem]
    exact h.targets
  · exact hsuspended.2.1
  · rw [hsuspended.2.2, keepSuspended]
    split_ifs with hcount
    · simp
    · intro pid hpid
      exact (Bool.and_eq_true_iff.mp (mem_filter.mp hpid).2).1

/-! ### Records are written and cleared -/

theorem NameFits.length_lt {name : Name} (h : NameFits name) :
    name.length < (UbsMem.cBytes name).length := by
  rw [h.cBytes]
  simp

theorem NameFits.written {F : Type} {name : Name} (h : NameFits name) (r : Named F)
    (fields : List (F → F)) :
    (r.apply (recordChanges name fields)).idle = false ∧
      cString (r.apply (recordChanges name fields)).name = name := by
  rw [Named.apply_recordChanges]
  have hname := cString_copyName h r.name h.length_lt
  refine ⟨?_, hname⟩
  have hfirst : copyName r.name name (UbsMem.cBytes name).length 0 ≠ 0 := by
    intro hzero
    exact h.nonempty (hname.symm.trans (cString_eq_nil.mpr hzero))
  simpa [Named.idle] using hfirst

@[simp] theorem Named.idle_clear {F : Type} (r : Named F) : r.clear.idle = true := by
  simp [Named.clear, Named.setChar, Named.idle]

theorem Named.idle_apply_clear {F : Type} (r : Named F) (changes : List (Named F → Named F)) :
    (r.apply (changes ++ [Named.clear])).idle = true := by
  rw [apply_append]
  exact idle_clear _

/-! ### The tables with memory ids -/

/-- The tables whose records can have memory ids: leases and imports. -/
inductive IdTable
  | lease
  | shm

namespace IdTable

/-- What follows the name in a record. -/
abbrev Fields : IdTable → Type
  | lease => LeaseFields
  | shm => ImportFields

def memIdCount : (t : IdTable) → t.Fields → Nat
  | lease => LeaseFields.memIdCount
  | shm => ImportFields.memIdCount

def memIdBuffer : (t : IdTable) → t.Fields → Nat
  | lease => LeaseFields.memIdBuffer
  | shm => ImportFields.memIdBuffer

def owner : IdTable → Nat → Owner
  | lease => .lease
  | shm => .shm

def max (config : StoreConfig) : IdTable → Nat
  | lease => config.leaseMax
  | shm => config.importMax

def records (m : StoreMem) : (t : IdTable) → Nat → Named t.Fields
  | lease => m.leases
  | shm => m.imports

/-- The file with other records in the table, and another pool. -/
def set (m : StoreMem) : (t : IdTable) → (Nat → Named t.Fields) → IdPool → StoreMem
  | lease, records, pool => { m with leases := records, pool := pool }
  | shm, records, pool => { m with imports := records, pool := pool }

/-- A store to a record of the table. -/
def on : (t : IdTable) → Nat → (Named t.Fields → Named t.Fields) → Store
  | lease => onLease
  | shm => onImport

def idle (c : StoreCache) : IdTable → List Nat
  | lease => c.leaseIdle
  | shm => c.importIdle

def cached (c : StoreCache) : IdTable → Map Name WithMemIdsRecord
  | lease => c.cachedLeaseRecords
  | shm => c.cachedImportShmRecords

/-- Another stack and map of the table, and another stack of idle lines. -/
def setCache (c : StoreCache) : IdTable → List Nat → Map Name WithMemIdsRecord → List Nat →
    StoreCache
  | lease, idle, cached, lines =>
    { c with leaseIdle := idle, cachedLeaseRecords := cached, poolIdle := lines }
  | shm, idle, cached, lines =>
    { c with importIdle := idle, cachedImportShmRecords := cached, poolIdle := lines }

/-- A reference record is to a record of the table. -/
def Refers (config : StoreConfig) (m : StoreMem) : IdTable → Nat → Nat → Prop
  | lease, _, _ => False
  | shm, i, j => j < config.refMax ∧ (m.refs j).pid ≠ 0 ∧ (m.refs j).shmImportIndex = i

variable (t : IdTable)

/-- What `AddMemLeaseInput` and `AddShmImportInput` have in common. -/
def addInput (s : RecordStore) (name : Name) (fields : List (t.Fields → t.Fields)) : Plan :=
  if name.length ≥ recordNameSize then .refuse s
  else
    match (t.idle s.cache).getLast? with
    | none => .refuse s
    | some slot =>
      let stores := (recordChanges name fields).map (t.on slot)
      let idle := (t.idle s.cache).dropLast
      match (t.cached s.cache).lookup name with
      | some _ => ⟨-1, stores ++ [t.on slot .clear],
          t.setCache s.cache (idle ++ [slot]) (t.cached s.cache) s.cache.poolIdle⟩
      | none => ⟨0, stores, t.setCache s.cache idle ((t.cached s.cache).insert name ⟨slot, []⟩)
          s.cache.poolIdle⟩

/-- What `AddMemLeaseResult` and `AddShmImportResult` have in common. -/
def addResult (s : RecordStore) (name : Name) (memIds : List UInt64)
    (fields : Nat → List (t.Fields → t.Fields)) : Plan :=
  match (t.cached s.cache).lookup name with
  | none => .refuse s
  | some e =>
    match allocLines s.cache.poolIdle memIds with
    | none => .refuse s
    | some (lines, rest) =>
      ⟨0, (allocStores lines memIds).map onPool ++
          (fieldChanges (fields (lines.getD 0 0))).map (t.on e.slot),
        t.setCache s.cache (t.idle s.cache)
          ((t.cached s.cache).insert name ⟨e.slot, memIds⟩) rest⟩

/-- The functions that assign fields of a record. -/
def assign (s : RecordStore) (name : Name) (fields : List (t.Fields → t.Fields)) : Plan :=
  match (t.cached s.cache).lookup name with
  | none => .refuse s
  | some e => ⟨0, (fieldChanges fields).map (t.on e.slot), s.cache⟩

/-- What `DelMemLeaseRecord` and `DelShmImportRecord` do with the record they have found. -/
def delete (config : StoreConfig) (s : RecordStore) (name : Name) (e : WithMemIdsRecord)
    (clears : List (Named t.Fields → Named t.Fields)) : Plan :=
  let fields := (t.records s.mem e.slot).fields
  let lines := releasedLines config.lineCount s.mem.pool (t.memIdCount fields)
    (t.memIdBuffer fields)
  ⟨0, clears.map (t.on e.slot) ++ (releaseStores lines).map onPool,
    t.setCache s.cache (t.idle s.cache ++ [e.slot]) ((t.cached s.cache).erase name)
      (s.cache.poolIdle ++ lines)⟩

end IdTable

section Tables

variable (t : IdTable)

theorem IdTable.owner_injective : Function.Injective t.owner := by
  cases t <;> exact fun _ _ heq => by cases heq; rfl

section

variable (m : StoreMem) (records : Nat → Named t.Fields) (p : IdPool)

theorem IdTable.records_set : t.records (t.set m records p) = records := by
  cases t <;> rfl

theorem IdTable.pool_set : (t.set m records p).pool = p := by
  cases t <;> rfl

end

theorem StoreInv.table (h : StoreInv config s lines ids) :
    TableInv (t.max config) (t.records s.mem) (t.idle s.cache) (t.cached s.cache)
      (ids ∘ t.owner) := by
  cases t with
  | lease => exact h.leases
  | shm => exact h.imports

theorem holding_owner (config : StoreConfig) (m : StoreMem) (i : Nat) :
    m.holding config (t.owner i) = ⟨i < t.max config && !(t.records m i).idle,
      t.memIdCount (t.records m i).fields, t.memIdBuffer (t.records m i).fields⟩ := by
  cases t <;> rfl

theorem holding_live (m : StoreMem) {i : Nat} (hi : i < t.max config) :
    (m.holding config (t.owner i)).live = !(t.records m i).idle := by
  simp [holding_owner, hi]

theorem holding_set (config : StoreConfig) (m : StoreMem) (i : Nat) (r : Named t.Fields)
    (p : IdPool) :
    (t.set m (update (t.records m) i r) p).holding config = update (m.holding config) (t.owner i)
        ⟨i < t.max config && !r.idle, t.memIdCount r.fields, t.memIdBuffer r.fields⟩ := by
  funext o
  by_cases ho : ∃ j, t.owner j = o
  · obtain ⟨j, rfl⟩ := ho
    rw [holding_owner, t.records_set]
    by_cases hj : j = i
    · subst hj
      simp
    · rw [update_of_ne hj, update_of_ne fun heq => hj (t.owner_injective heq), holding_owner]
  · rw [update_of_ne fun heq => ho ⟨i, heq.symm⟩]
    cases t <;> cases o <;> first | rfl | exact absurd ⟨_, rfl⟩ ho

theorem write_on (m : StoreMem) (slot : Nat) (changes : List (Named t.Fields → Named t.Fields)) :
    m.write (changes.map (t.on slot)) =
      t.set m (update (t.records m) slot ((t.records m slot).apply changes)) m.pool := by
  cases t with
  | lease => exact write_onLease m slot changes
  | shm => exact write_onImport m slot changes

section

variable (m : StoreMem) (stores : List IdStore) (slot : Nat)
  (changes : List (Named t.Fields → Named t.Fields))

theorem write_pool_on : m.write (stores.map onPool ++ changes.map (t.on slot)) =
      t.set m (update (t.records m) slot ((t.records m slot).apply changes))
        (m.pool.write stores) := by
  rw [write_append, write_onPool, write_on]
  cases t <;> rfl

theorem write_on_pool : m.write (changes.map (t.on slot) ++ stores.map onPool) =
      t.set m (update (t.records m) slot ((t.records m slot).apply changes))
        (m.pool.write stores) := by
  rw [write_append, write_on, write_onPool]
  cases t <;> rfl

end

/-- References stay references to records in use when a record is written. -/
theorem RefTargets.set (h : RefTargets config m) {i : Nat} {r : Named t.Fields} (p : IdPool)
    (hkeep : ∀ j, t.Refers config m i j → r.idle = false) :
    RefTargets config (t.set m (update (t.records m) i r) p) := by
  cases t with
  | lease => exact h
  | shm =>
    intro j hj hpid
    obtain ⟨hlt, hlive⟩ := h j hj hpid
    refine ⟨hlt, ?_⟩
    dsimp only [IdTable.set] at hpid ⊢
    by_cases hi : (m.refs j).shmImportIndex = i
    · rw [hi, update_self]
      exact hkeep j ⟨hj, hpid, hi⟩
    · rw [update_of_ne hi]
      exact hlive

theorem RefTargets.not_refers (h : RefTargets config m) {i : Nat}
    (hidle : (t.records m i).idle = true) (j : Nat) : ¬t.Refers config m i j := by
  cases t with
  | lease => exact id
  | shm =>
    rintro ⟨hj, hpid, rfl⟩
    have hlive := (h j hj hpid).2
    rw [show (m.imports _).idle = true from hidle] at hlive
    cases hlive

end Tables

/-! ### Operations -/

/-- The store once a plan has been carried out. -/
def Plan.after (s : RecordStore) (p : Plan) : RecordStore := ⟨s.mem.write p.stores, p.cache⟩

/-- The invariant holds after a step; and no line is lost by it, where `once`. -/
def Carries (config : StoreConfig) (s : RecordStore) (lines : Owner → List Nat) (once : Prop)
    (s' : RecordStore) : Prop :=
  ∃ lines' ids', StoreInv config s' lines' ids' ∧
    (once → NoLineLost config.lineCount s.mem.pool lines →
      NoLineLost config.lineCount s'.mem.pool lines')

variable {once : Prop}

theorem StoreInv.carries_of_pool {s' : RecordStore} {i : Owner → List UInt64}
    (h : StoreInv config s' lines i) (hpool : s'.mem.pool = s.mem.pool) :
    Carries config s lines once s' := ⟨lines, i, h, fun _ hlost => hpool ▸ hlost⟩

theorem StoreInv.carries_refuse (h : StoreInv config s lines ids) :
    Carries config s lines once ((Plan.refuse s).after s) := h.carries_of_pool rfl

/-! ### What is added -/

/-- The changes of a slot that a record is added in, and cleared again if its name is taken. -/
def addChanges {F : Type} (name : Name) (fields : List (F → F)) (dup : Bool) :
    List (Named F → Named F) :=
  recordChanges name fields ++ if dup then [Named.clear] else []

theorem TableInv.add {F : Type} {capacity slot : Nat} {t : Nat → Named F} {idle : List Nat}
    {cache : Map Name WithMemIdsRecord} {ids : Nat → List UInt64} {name : Name} {dup : Bool}
    (h : TableInv capacity t idle cache ids) (hlast : idle.getLast? = some slot)
    (hfits : NameFits name) (hnew : dup = false → cache.lookup name = none)
    (fields : List (F → F)) :
    TableInv capacity (update t slot ((t slot).apply (addChanges name fields dup)))
      (if dup then idle else idle.dropLast) (if dup then cache else cache.insert name ⟨slot, []⟩)
      (if dup then ids else update ids slot []) := by
  obtain ⟨hlive, hname⟩ := hfits.written (t slot) fields
  cases dup with
  | true =>
    have hidle := (h.allocated hlast).2.1
    have hclear := Named.idle_apply_clear (t slot) (recordChanges name fields)
    refine h.change (by rw [hidle]; exact hclear) fun hused => ?_
    rw [hidle] at hused
    cases hused
  | false =>
    simpa [addChanges] using h.occupy hlast hlive hname (hnew rfl)

theorem addRegionRecord_cases (s : RecordStore) (input : CreateRegionInput) :
    addRegionRecord s input = .refuse s ∨
    (∀ node ∈ input.nodeIds, node.toNat < regionNodeBitmapCount) ∧
      input.nodeIds.length = input.affinity.length ∧
      ∃ slot, s.cache.regionIdle.getLast? = some slot ∧ input.name.length < recordNameSize ∧
        ∃ dup : Bool, (dup = false → s.cache.cachedRegionRecords.lookup input.name = none) ∧
          addRegionRecord s input = ⟨if dup then -1 else 0,
            (addChanges input.name (regionInputFields input) dup).map (onRegion slot),
            { s.cache with
              regionIdle := if dup then s.cache.regionIdle else s.cache.regionIdle.dropLast
              cachedRegionRecords := if dup then s.cache.cachedRegionRecords
                else s.cache.cachedRegionRecords.insert input.name ⟨slot, []⟩ }⟩ := by
  unfold addRegionRecord
  split_ifs with hlong hnodes hsizes
  · exact .inl rfl
  · exact .inl rfl
  · exact .inl rfl
  cases hlast : s.cache.regionIdle.getLast? with
  | none => exact .inl rfl
  | some slot =>
    refine .inr ⟨fun node hnode => ?_, not_not.mp hsizes, slot, rfl, by omega, ?_⟩
    · by_contra hlarge
      exact hnodes (any_eq_true.mpr ⟨node, hnode, by simpa using hlarge⟩)
    cases hfound : s.cache.cachedRegionRecords.lookup input.name with
    | some e => exact ⟨true, by simp, by simp [addChanges, dropLast_append_getLast? slot hlast]⟩
    | none => exact ⟨false, by simp, by simp [addChanges]⟩

theorem IdTable.setCache_self (t : IdTable) (c : StoreCache) :
    t.setCache c (t.idle c) (t.cached c) c.poolIdle = c := by
  cases t <;> rfl

theorem IdTable.addInput_cases (t : IdTable) (s : RecordStore) (name : Name)
    (fields : List (t.Fields → t.Fields)) :
    t.addInput s name fields = .refuse s ∨
    ∃ slot, (t.idle s.cache).getLast? = some slot ∧ name.length < recordNameSize ∧
      ∃ dup : Bool, (dup = false → (t.cached s.cache).lookup name = none) ∧
        t.addInput s name fields = ⟨if dup then -1 else 0,
          (addChanges name fields dup).map (t.on slot),
          t.setCache s.cache (if dup then t.idle s.cache else (t.idle s.cache).dropLast)
            (if dup then t.cached s.cache else (t.cached s.cache).insert name ⟨slot, []⟩)
            s.cache.poolIdle⟩ := by
  unfold addInput
  split_ifs with hlong
  · exact .inl rfl
  cases hlast : (t.idle s.cache).getLast? with
  | none => exact .inl rfl
  | some slot =>
    refine .inr ⟨slot, rfl, by omega, ?_⟩
    cases hfound : (t.cached s.cache).lookup name with
    | some e => exact ⟨true, by simp, by simp [addChanges, dropLast_append_getLast? slot hlast]⟩
    | none => exact ⟨false, by simp, by simp [addChanges]⟩

section

variable (h : StoreInv config s lines ids)

include h

theorem StoreInv.carries_addRegionRecord {input : CreateRegionInput} (hne : input.name ≠ [])
    (hzero : (0 : UInt8) ∉ input.name) :
    Carries config s lines once ((addRegionRecord s input).after s) := by
  rcases addRegionRecord_cases s input with heq | ⟨-, -, slot, hlast, hshort, dup, hnew, heq⟩
  · rw [heq]
    exact h.carries_refuse
  have hregions := h.regions.add hlast ⟨hne, hzero, hshort⟩ hnew (regionInputFields input)
  rw [heq, Plan.after, write_onRegion]
  refine StoreInv.carries_of_pool { h with regions := ?_ } rfl
  cases dup <;> simpa using hregions

theorem StoreInv.carries_delRegionRecord (name : Name) :
    Carries config s lines once ((delRegionRecord s name).after s) := by
  unfold delRegionRecord
  cases hfound : s.cache.cachedRegionRecords.lookup name with
  | none => exact h.carries_refuse
  | some e =>
    refine StoreInv.carries_of_pool { h with regions := ?_ } rfl
    exact h.regions.vacate hfound (Named.idle_clear _)

section

variable (t : IdTable)

/-- A record of a table is written, and with it the stack and the map of the table, the pool
and the stack of its idle lines. -/
theorem StoreInv.set {slot : Nat} {r : Named t.Fields} {idle poolIdle : List Nat}
    {cached : Map Name WithMemIdsRecord} {p : IdPool} {lines' : Owner → List Nat}
    {newIds : List UInt64}
    (htable : TableInv (t.max config) (update (t.records s.mem) slot r) idle cached
      (update (ids ∘ t.owner) slot newIds)) (hpool : PoolInv config.lineCount p
      (update (s.mem.holding config) (t.owner slot)
        ⟨slot < t.max config && !r.idle, t.memIdCount r.fields, t.memIdBuffer r.fields⟩)
      lines' (update ids (t.owner slot) newIds)) (hidle : IdleLines config.lineCount p poolIdle)
    (htargets : ∀ j, t.Refers config s.mem slot j → r.idle = false) :
    StoreInv config ⟨t.set s.mem (update (t.records s.mem) slot r) p,
      t.setCache s.cache idle cached poolIdle⟩ lines' (update ids (t.owner slot) newIds) := by
  rw [← holding_set t config s.mem slot r p] at hpool
  rw [← Function.update_comp_eq_of_injective ids t.owner_injective] at htable
  have htargets := h.targets.set t p htargets
  cases t with
  | lease =>
    exact { h with leases := htable, pool := hpool, poolIdle := hidle, targets := htargets }
  | shm =>
    exact { h with imports := htable, pool := hpool, poolIdle := hidle, targets := htargets }

theorem StoreInv.set_sameIds {slot : Nat} {r : Named t.Fields} {idle poolIdle : List Nat}
    {cached : Map Name WithMemIdsRecord} {p : IdPool} {lines' : Owner → List Nat}
    (htable : TableInv (t.max config) (update (t.records s.mem) slot r) idle cached
      (ids ∘ t.owner)) (hpool : PoolInv config.lineCount p
      (update (s.mem.holding config) (t.owner slot)
        ⟨slot < t.max config && !r.idle, t.memIdCount r.fields, t.memIdBuffer r.fields⟩) lines' ids)
    (hidle : IdleLines config.lineCount p poolIdle)
    (htargets : ∀ j, t.Refers config s.mem slot j → r.idle = false) :
    StoreInv config ⟨t.set s.mem (update (t.records s.mem) slot r) p,
      t.setCache s.cache idle cached poolIdle⟩ lines' ids := by
  rw [← update_eq_self slot (ids ∘ t.owner)] at htable
  rw [← update_eq_self (t.owner slot) ids] at hpool ⊢
  exact h.set t htable hpool hidle htargets

theorem StoreInv.carries_addInput {name : Name} (hne : name ≠ []) (hzero : (0 : UInt8) ∉ name)
    (fields : List (t.Fields → t.Fields)) (hcount : ∀ f, t.memIdCount (applyFields f fields) = 0) :
    Carries config s lines once ((t.addInput s name fields).after s) := by
  rcases t.addInput_cases s name fields with heq | ⟨slot, hlast, hshort, dup, hnew, heq⟩
  · rw [heq]
    exact h.carries_refuse
  obtain ⟨hslot, hidle, -⟩ := (h.table t).allocated hlast
  have hfree := h.targets.not_refers t hidle
  have hdead : (s.mem.holding config (t.owner slot)).live = false := by
    rw [holding_live t _ hslot, hidle]
    rfl
  have hfits : NameFits name := ⟨hne, hzero, hshort⟩
  have htable := (h.table t).add hlast hfits hnew fields
  rw [heq, Plan.after, write_on]
  cases dup with
  | true =>
    have hclear := Named.idle_apply_clear (t.records s.mem slot) (recordChanges name fields)
    refine (h.set_sameIds t htable ?_ h.poolIdle fun j hj => absurd hj (hfree j)).carries_of_pool
      (t.pool_set _ _ _)
    exact h.pool.update_dead hdead (by simp [addChanges, hclear])
  | false =>
    have hlive := (hfits.written (t.records s.mem slot) fields).1
    refine (h.set t htable ?_ h.poolIdle fun j hj => absurd hj (hfree j)).carries_of_pool
      (t.pool_set _ _ _)
    simp only [addChanges, Bool.false_eq_true, if_false, append_nil]
    rw [hlive, decide_eq_true hslot, Named.apply_recordChanges, hcount]
    exact h.pool.occupy hdead _

theorem StoreInv.record_live {name : Name} {e : WithMemIdsRecord}
    (hfound : (t.cached s.cache).lookup name = some e) :
    e.slot < t.max config ∧ (t.records s.mem e.slot).idle = false ∧
      (s.mem.holding config (t.owner e.slot)).live = true := by
  obtain ⟨hslot, hlive, -⟩ := ((h.table t).cached name e).mp hfound
  refine ⟨hslot, hlive, ?_⟩
  rw [holding_live t _ hslot, hlive]
  rfl

/-- Fields of a record in use are assigned, but not those of its memory ids. -/
theorem StoreInv.carries_assign (name : Name) (fields : List (t.Fields → t.Fields))
    (hcount : ∀ f, t.memIdCount (applyFields f fields) = t.memIdCount f)
    (hbuffer : ∀ f, t.memIdBuffer (applyFields f fields) = t.memIdBuffer f) :
    Carries config s lines once ((t.assign s name fields).after s) := by
  unfold IdTable.assign
  cases hfound : (t.cached s.cache).lookup name with
  | none => exact h.carries_refuse
  | some e =>
    obtain ⟨-, hlive, -⟩ := h.record_live t hfound
    simp only [Plan.after]
    rw [write_on, Named.apply_fieldChanges]
    rw [← t.setCache_self s.cache]
    refine (h.set_sameIds t ?_ ?_ h.poolIdle ?_).carries_of_pool (t.pool_set _ _ _)
    · exact (h.table t).change rfl fun _ => rfl
    · have hsame := update_eq_self (t.owner e.slot) (s.mem.holding config)
      rw [holding_owner] at hsame
      rw [hcount, hbuffer]
      exact hsame.symm ▸ h.pool
    · exact fun _ _ => hlive

theorem StoreInv.carries_addResult (name : Name) {memIds : List UInt64}
    (fields : Nat → List (t.Fields → t.Fields))
    (hcount : ∀ head f, t.memIdCount (applyFields f (fields head)) = memIds.length)
    (hbuffer : ∀ head f, t.memIdBuffer (applyFields f (fields head)) = head)
    (honce : once → ∀ e, (t.cached s.cache).lookup name = some e →
      t.memIdCount (t.records s.mem e.slot).fields = 0) :
    Carries config s lines once ((t.addResult s name memIds fields).after s) := by
  unfold IdTable.addResult
  cases hfound : (t.cached s.cache).lookup name with
  | none => exact h.carries_refuse
  | some e =>
    cases hlines : allocLines s.cache.poolIdle memIds with
    | none => exact h.carries_refuse
    | some taken =>
      obtain ⟨newLines, rest⟩ := taken
      have halloc := allocLines_eq hlines
      obtain ⟨hslot, hused, hlive⟩ := h.record_live t hfound
      simp only [Plan.after]
      rw [write_pool_on, Named.apply_fieldChanges]
      refine ⟨update lines (t.owner e.slot) newLines, update ids (t.owner e.slot) memIds, h.set t ?_
        ?_ (h.poolIdle.alloc config.lineCount_le halloc).2 fun _ _ => hused, fun honly hlost => ?_⟩
      · exact ((h.table t).setIds hfound memIds).change rfl fun _ => rfl
      · have hpool := h.pool.alloc config.lineCount_le h.poolIdle halloc (t.owner e.slot)
        rw [← hlive, holding_live t _ hslot] at hpool
        rw [hcount, hbuffer, decide_eq_true hslot, Bool.true_and]
        exact hpool
      · rw [IdTable.pool_set]
        refine hlost.alloc halloc (h.pool.empty _ hlive ?_).1
        rw [holding_owner]
        exact honce honly e hfound

theorem StoreInv.released {name : Name} {e : WithMemIdsRecord}
    (hfound : (t.cached s.cache).lookup name = some e) :
    releasedLines config.lineCount s.mem.pool (t.memIdCount (t.records s.mem e.slot).fields)
      (t.memIdBuffer (t.records s.mem e.slot).fields) = lines (t.owner e.slot) := by
  have hreleased := h.pool.released (h.record_live t hfound).2.2
  rwa [holding_owner] at hreleased

theorem StoreInv.carries_delete {name : Name} {e : WithMemIdsRecord}
    (hfound : (t.cached s.cache).lookup name = some e)
    (hfree : ∀ j, ¬t.Refers config s.mem e.slot j) (clears : List (Named t.Fields → Named t.Fields))
    (hclear : ((t.records s.mem e.slot).apply clears).idle = true) :
    Carries config s lines once ((t.delete config s name e clears).after s) := by
  unfold IdTable.delete
  simp only [Plan.after, h.released t hfound]
  rw [write_on_pool]
  refine ⟨update lines (t.owner e.slot) [], ids, h.set_sameIds t ?_ ?_ ?_
    (fun j hj => absurd hj (hfree j)), fun _ hlost => ?_⟩
  · exact (h.table t).vacate hfound hclear
  · rw [hclear, Bool.not_true, Bool.and_false]
    exact h.pool.release (t.owner e.slot) _ _
  · exact h.pool.idleLines_release h.poolIdle _
  · rw [IdTable.pool_set]
    exact hlost.release h.pool _

end

/-- A record that `DelShmImportRecord` deletes has no reference. -/
theorem StoreInv.unreferenced {slot : Nat}
    (hnone : ¬s.cache.cachedRefShmIdxRecords.any (fun r => r.index = slot) = true) (j : Nat) :
    ¬IdTable.shm.Refers config s.mem slot j := by
  rintro ⟨hj, hpid, hindex⟩
  refine hnone (any_eq_true.mpr ⟨refEntry s.mem.refs j, ?_, decide_eq_true hindex⟩)
  exact (h.refs.mem _).mpr ⟨hj, hpid, rfl⟩

theorem StoreInv.carries_addShmRefRecord (pid : UInt32) (name : Name) :
    Carries config s lines once ((addShmRefRecord s pid name).after s) := by
  unfold addShmRefRecord
  split_ifs with hinvalid
  · exact h.carries_refuse
  cases hlast : s.cache.refIdle.getLast? with
  | none => exact h.carries_refuse
  | some slot =>
    have hidle := ((h.refs.idle slot).mp (mem_of_getLast? hlast)).2
    cases hfound : s.cache.cachedImportShmRecords.lookup name with
    | none =>
      -- The slot is cleared, which it was, and given back.
      have hmem : s.mem.write [onRef slot .clear] = s.mem := by
        simp [StoreMem.write, onRef, MemShareRefRecord.clear_of_idle hidle]
      simp only [Plan.after, hmem, dropLast_append_getLast? slot hlast]
      exact h.carries_of_pool rfl
    | some e =>
      obtain ⟨hslot, hused, -⟩ := h.record_live .shm hfound
      have hpid : pid ≠ 0 := by
        rintro rfl
        simp [refInvalid] at hinvalid
      have hmem : s.mem.write [onRef slot fun r => { r with pid },
          onRef slot fun r => { r with shmImportIndex := e.slot }] =
          { s.mem with refs := update s.mem.refs slot ⟨pid, e.slot⟩ } := by
        simp [StoreMem.write, onRef]
      simp only [Plan.after, hmem]
      refine StoreInv.carries_of_pool { h with refs := ?_, targets := ?_ } rfl
      · exact h.refs.add hlast hpid
      · intro j hj hne
        dsimp only at hne ⊢
        by_cases hi : j = slot
        · subst hi
          simpa using ⟨hslot, hused⟩
        · rw [update_of_ne hi] at hne ⊢
          exact h.targets j hj hne

end

theorem RefTargets.clear (h : RefTargets config m) (slots : List Nat) : RefTargets config
      { m with refs := fun i => if i ∈ slots then (m.refs i).clear else m.refs i } := by
  intro j hj hpid
  dsimp only at hpid ⊢
  by_cases hmem : j ∈ slots
  · simp [hmem, MemShareRefRecord.clear] at hpid
  · rw [if_neg hmem] at hpid ⊢
    exact h j hj hpid

/-- What `EraseLastMultiValue` does to a map. -/
theorem eraseLastMultiValue_cases {l : List RefEntry} (hnodup : l.Nodup) (index : Nat)
    (pid : UInt32) :
    (eraseLastMultiValue l index pid = (none, l) ∧ ∀ e ∈ l, ¬(e.index = index ∧ e.pid = pid)) ∨
    ∃ e ∈ l, (e.index = index ∧ e.pid = pid) ∧ ∃ l', eraseLastMultiValue l index pid =
      (some e.slot, l') ∧ l'.Nodup ∧ ∀ e', e' ∈ l' ↔ e' ∈ l ∧ e' ≠ e := by
  unfold eraseLastMultiValue
  cases hfind : l.reverse.find? fun e => e.index = index ∧ e.pid = pid with
  | none =>
    refine .inl ⟨rfl, fun e he hmatch => ?_⟩
    have := List.find?_eq_none.mp hfind e (mem_reverse.mpr he)
    simp [hmatch] at this
  | some e =>
    refine .inr ⟨e, mem_reverse.mp (mem_of_find?_eq_some hfind), ?_, _, rfl, ?_, ?_⟩
    · simpa using List.find?_some hfind
    · exact nodup_reverse.mpr ((nodup_reverse.mpr hnodup).erase e)
    · intro e'
      rw [mem_reverse, (nodup_reverse.mpr hnodup).mem_erase_iff, mem_reverse]
      exact and_comm

section

variable (h : StoreInv config s lines ids)

include h

theorem StoreInv.carries_delShmRefRecord (pid : UInt32) (name : Name) :
    Carries config s lines once ((delShmRefRecord s pid name).after s) := by
  unfold delShmRefRecord
  split_ifs with hinvalid
  · exact h.carries_refuse
  cases hfound : s.cache.cachedImportShmRecords.lookup name with
  | none => exact h.carries_refuse
  | some e =>
    dsimp only
    rw [h.refs.same]
    rcases eraseLastMultiValue_cases h.refs.entries e.slot pid with
      ⟨herase, -⟩ | ⟨r, hr, -, l', herase, hnodup, hmem⟩
    · rw [herase]
      refine StoreInv.carries_of_pool { h with refs := ?_ } rfl
      exact { h.refs with same := rfl }
    · rw [herase]
      dsimp only [Option.or, Plan.after]
      rw [← map_singleton (f := fun slot => onRef slot .clear), write_clearRefs]
      refine StoreInv.carries_of_pool { h with refs := ?_, targets := h.targets.clear _ } rfl
      refine h.refs.remove (nodup_singleton r) (by simpa using hr) rfl hnodup fun e' => ?_
      rw [hmem, mem_singleton]

theorem StoreInv.carries_delShmRefRecordsByPid (pid : UInt32) (rank : Nat → Nat) :
    Carries config s lines once ((delShmRefRecordsByPid s pid rank).after s) := by
  unfold delShmRefRecordsByPid
  split_ifs with hzero
  · exact h.carries_refuse
  simp only [Plan.after]
  rw [write_clearRefs, h.refs.same]
  have hremoved : ∀ e, e ∈ (s.cache.cachedRefShmIdxRecords.filter fun r => r.pid = pid).mergeSort
      (fun a b => rank a.index ≤ rank b.index) ↔
      e ∈ s.cache.cachedRefShmIdxRecords ∧ e.pid = pid := by
    simp
  -- Both maps lose exactly the entries of the process.
  have hsame : (s.cache.cachedRefShmIdxRecords.filter fun r => ¬(r.pid = pid ∧
      ((s.cache.cachedRefShmIdxRecords.filter fun r => r.pid = pid).mergeSort
        (fun a b => rank a.index ≤ rank b.index)).any fun e => e.index = r.index)) =
      s.cache.cachedRefShmIdxRecords.filter fun r => r.pid ≠ pid := by
    refine filter_congr fun r hr => ?_
    rw [decide_eq_decide]
    refine ⟨fun hnot heq => hnot ⟨heq, ?_⟩, fun hne hand => hne hand.1⟩
    exact any_eq_true.mpr ⟨r, (hremoved r).mpr ⟨hr, heq⟩, by simp⟩
  rw [hsame]
  refine StoreInv.carries_of_pool { h with refs := ?_, targets := h.targets.clear _ } rfl
  refine h.refs.remove ?_ (fun e he => ((hremoved e).mp he).1) rfl (h.refs.entries.filter _)
    fun e => ?_
  · exact (mergeSort_perm _ _).nodup_iff.mpr (h.refs.entries.filter _)
  · rw [hremoved, mem_filter]
    simp only [decide_eq_true_eq, not_and]
    exact ⟨fun ⟨he, hne⟩ => ⟨he, fun _ => hne⟩, fun ⟨he, hne⟩ => ⟨he, hne he⟩⟩

theorem StoreInv.carries_addSuspendClient (pid : UInt32) :
    Carries config s lines once ((addSuspendClient config s pid).after s) := by
  unfold addSuspendClient
  split_ifs with hpositive hcount hmem hfull
  · exact h.carries_refuse
  · exact h.carries_refuse
  · exact h.carries_of_pool rfl
  · exact h.carries_of_pool rfl
  · refine StoreInv.carries_of_pool { h with suspendCount := ?_, suspended := ?_ } rfl
    · show s.mem.suspendCount + 1 ≤ config.suspendMax
      omega
    · intro q hq
      obtain ⟨i, hi, rfl⟩ := mem_map.mp hq
      have hlt : i < s.mem.suspendCount + 1 := mem_range.mp hi
      simp only [Plan.after, StoreMem.write, foldl_cons, foldl_nil]
      by_cases hlast : i = s.mem.suspendCount
      · subst hlast
        simpa using hpositive
      · rw [update_of_ne hlast]
        exact h.suspended _ (mem_map.mpr ⟨i, mem_range.mpr (by omega), rfl⟩)

theorem StoreInv.carries_delSuspendClient (pid : UInt32) :
    Carries config s lines once ((delSuspendClient config s pid).after s) := by
  unfold delSuspendClient
  split_ifs with hpositive hcount
  · exact h.carries_refuse
  · exact h.carries_refuse
  cases hfind : (List.range s.mem.suspendCount).find? fun i => s.mem.suspendPids i = pid with
  | none => exact h.carries_of_pool rfl
  | some j =>
    refine StoreInv.carries_of_pool { h with suspendCount := ?_, suspended := ?_ } rfl
    · exact le_trans (Nat.sub_le _ _) h.suspendCount
    · intro q hq
      obtain ⟨i, hi, rfl⟩ := mem_map.mp hq
      have hlt : i < s.mem.suspendCount - 1 := mem_range.mp hi
      simp only [Plan.after, StoreMem.write, foldl_cons, foldl_nil]
      by_cases hmoved : i = j
      · subst hmoved
        rw [update_self]
        exact h.suspended _ (mem_map.mpr ⟨s.mem.suspendCount - 1, mem_range.mpr (by omega), rfl⟩)
      · rw [update_of_ne hmoved]
        exact h.suspended _ (mem_map.mpr ⟨i, mem_range.mpr (by omega), rfl⟩)

end

end Invariant

/-! ### Runs -/

/-- The name an operation is about. -/
def StoreOp.names : StoreOp → List Name
  | .addRegionRecord input => [input.name]
  | .delRegionRecord name => [name]
  | .addMemLeaseInput input => [input.name]
  | .addMemLeaseResult name _ => [name]
  | .updateMemLeaseRecordState name _ => [name]
  | .updateMemLeaseRecord name _ _ => [name]
  | .delMemLeaseRecord name => [name]
  | .addShmImportInput input => [input.name]
  | .addShmImportResult name _ => [name]
  | .updateShmImportRecordState name _ => [name]
  | .delShmImportRecord name => [name]
  | .addShmRefRecord _ name => [name]
  | .delShmRefRecord _ name => [name]
  | .delShmRefRecordsByPid _ _ => []
  | .addSuspendClient _ => []
  | .delSuspendClient _ => []

/-- The names of an operation are not empty and have no zeros. -/
def StoreOp.NamesOk (op : StoreOp) : Prop := ∀ name ∈ op.names, name ≠ [] ∧ (0 : UInt8) ∉ name

/-- The result of a lease or an import is recorded for a record that has none yet. -/
def StoreOp.Once (s : RecordStore) : StoreOp → Prop
  | .addMemLeaseResult name _ => ∀ e, s.cache.cachedLeaseRecords.lookup name = some e →
      (s.mem.leases e.slot).fields.memIdCount = 0
  | .addShmImportResult name _ => ∀ e, s.cache.cachedImportShmRecords.lookup name = some e →
      (s.mem.imports e.slot).fields.memIdCount = 0
  | _ => True

/-- The names that an operation adds. -/
def StoreOp.added : StoreOp → List Name
  | .addRegionRecord input => [input.name]
  | .addMemLeaseInput input => [input.name]
  | .addShmImportInput input => [input.name]
  | _ => []

theorem StoreOp.NamesOk.added {op : StoreOp} (h : op.NamesOk) :
    ∀ name ∈ op.added, name ≠ [] ∧ (0 : UInt8) ∉ name := by
  cases op with
  | addRegionRecord input | addMemLeaseInput input | addShmImportInput input => exact h
  | _ => exact fun _ hname => absurd hname not_mem_nil

/-- **Every operation keeps the invariant.** -/
theorem StoreInv.carries_step {config : StoreConfig} {s : RecordStore} {lines : Owner → List Nat}
    {ids : Owner → List UInt64} (h : StoreInv config s lines ids) {op : StoreOp}
    (hnames : ∀ name ∈ op.added, name ≠ [] ∧ (0 : UInt8) ∉ name) :
    Carries config s lines (op.Once s) (s.step config op) := by
  cases op with
  | addRegionRecord input =>
    obtain ⟨hne, hzero⟩ := hnames input.name (mem_singleton_self _)
    exact h.carries_addRegionRecord hne hzero
  | delRegionRecord name => exact h.carries_delRegionRecord name
  | addMemLeaseInput input =>
    obtain ⟨hne, hzero⟩ := hnames input.name (mem_singleton_self _)
    exact h.carries_addInput .lease hne hzero (leaseInputFields input) fun _ => rfl
  | addMemLeaseResult name result =>
    exact h.carries_addResult .lease name (leaseResultFields result) (fun _ _ => rfl)
      (fun _ _ => rfl) fun honce => honce
  | updateMemLeaseRecordState name state =>
    exact h.carries_assign .lease name [fun f => { f with recordState := state }] (fun _ => rfl)
      fun _ => rfl
  | updateMemLeaseRecord name context size =>
    exact h.carries_assign .lease name (leaseContextFields context size) (fun _ => rfl) fun _ => rfl
  | delMemLeaseRecord name =>
    rw [RecordStore.step, plan, delMemLeaseRecord]
    cases hfound : s.cache.cachedLeaseRecords.lookup name with
    | none => exact h.carries_refuse
    | some e =>
      exact h.carries_delete .lease hfound (fun _ => id) [.clear, .clear] (Named.idle_clear _)
  | addShmImportInput input =>
    obtain ⟨hne, hzero⟩ := hnames input.name (mem_singleton_self _)
    exact h.carries_addInput .shm hne hzero (importInputFields input) fun _ => rfl
  | addShmImportResult name result =>
    rw [RecordStore.step, plan, addShmImportResult]
    split_ifs with hlong
    · exact h.carries_refuse
    · exact h.carries_addResult .shm name (importResultFields result) (fun _ _ => rfl)
        (fun _ _ => rfl) fun honce => honce
  | updateShmImportRecordState name state =>
    exact h.carries_assign .shm name [fun f => { f with recordState := state }] (fun _ => rfl)
      fun _ => rfl
  | delShmImportRecord name =>
    rw [RecordStore.step, plan, delShmImportRecord]
    cases hfound : s.cache.cachedImportShmRecords.lookup name with
    | none => exact h.carries_refuse
    | some e =>
      dsimp only
      split_ifs with hany
      · exact h.carries_refuse
      · exact h.carries_delete .shm hfound (h.unreferenced hany) [.clear] (Named.idle_clear _)
  | addShmRefRecord pid name => exact h.carries_addShmRefRecord pid name
  | delShmRefRecord pid name => exact h.carries_delShmRefRecord pid name
  | delShmRefRecordsByPid pid rank => exact h.carries_delShmRefRecordsByPid pid rank
  | addSuspendClient pid => exact h.carries_addSuspendClient pid
  | delSuspendClient pid => exact h.carries_delSuspendClient pid

theorem memInv_zero (config : StoreConfig) : MemInv config .zero (fun _ => []) fun _ => [] := by
  have hidle : ∀ {F : Type} (f : F), (⟨fun _ => 0, f⟩ : Named F).idle = true := fun f => by
    simp [Named.idle]
  have hdead : ∀ o, (StoreMem.zero.holding config o).live = false := by
    intro o
    cases o <;> simp [StoreMem.holding, StoreMem.zero, hidle]
  refine ⟨?_, ?_, ?_, ?_, ?_⟩
  · intro i _ j _ hlive
    simp [StoreMem.zero, hidle] at hlive
  · intro i _ j _ hlive
    simp [StoreMem.zero, hidle] at hlive
  · intro i _ j _ hlive
    simp [StoreMem.zero, hidle] at hlive
  · refine ⟨fun o hlive => ?_, fun o hlive => ?_, fun _ _ => rfl, by simp, by simp⟩
    · rw [hdead] at hlive
      cases hlive
    · rw [hdead] at hlive
      cases hlive
  · intro i _ hpid
    simp [StoreMem.zero] at hpid

/-- The store on a file of zeros. -/
def RecordStore.start (config : StoreConfig) (alive : UInt32 → Bool) : RecordStore :=
  initializeStore config alive .zero

theorem storeInv_run {config : StoreConfig} {s : RecordStore} {lines : Owner → List Nat}
    {ids : Owner → List UInt64} (h : StoreInv config s lines ids) {ops : List StoreOp}
    (hnames : ∀ op ∈ ops, op.NamesOk) :
    ∃ lines' ids', StoreInv config (s.run config ops) lines' ids' := by
  induction ops generalizing s lines ids with
  | nil => exact ⟨lines, ids, h⟩
  | cons op ops ih =>
    obtain ⟨lines', ids', h', -⟩ := h.carries_step (hnames op (mem_cons_self ..)).added
    exact ih h' fun op' hop' => hnames op' (mem_cons_of_mem _ hop')

/-! ### What an operation leaves alone -/

/-- Stores that leave a part of the file alone. -/
def Spares {α : Type} (part : StoreMem → α) (stores : List Store) : Prop :=
  ∀ f ∈ stores, ∀ m, part (f m) = part m

section Spares

variable {config : StoreConfig} {s : RecordStore} {α : Type} {part : StoreMem → α}

theorem Spares.write {stores : List Store} (h : Spares part stores) (m : StoreMem) :
    part (m.write stores) = part m := by
  induction stores generalizing m with
  | nil => rfl
  | cons f stores ih =>
    have hrest : Spares part stores := fun g hg => h g (mem_cons_of_mem _ hg)
    exact (ih hrest (f m)).trans (h f mem_cons_self m)

theorem spares_nil : Spares part [] := fun _ hf => absurd hf not_mem_nil

theorem Spares.append {l l' : List Store} (h : Spares part l) (h' : Spares part l') :
    Spares part (l ++ l') := by
  intro f hf
  rcases mem_append.mp hf with hf | hf
  · exact h f hf
  · exact h' f hf

theorem spares_map {β : Type} {g : β → Store} (h : ∀ b m, part (g b m) = part m) (l : List β) :
    Spares part (l.map g) := by
  intro f hf m
  obtain ⟨b, -, rfl⟩ := mem_map.mp hf
  exact h b m

/-- The plans of the operations on a table with memory ids. -/
inductive IdTable.Plans (t : IdTable) (config : StoreConfig) (s : RecordStore) : Plan → Prop
  | refuse : t.Plans config s (.refuse s)
  | addInput (name : Name) (fields : List (t.Fields → t.Fields)) :
    t.Plans config s (t.addInput s name fields)
  | addResult (name : Name) (memIds : List UInt64) (fields : Nat → List (t.Fields → t.Fields)) :
    t.Plans config s (t.addResult s name memIds fields)
  | assign (name : Name) (fields : List (t.Fields → t.Fields)) :
    t.Plans config s (t.assign s name fields)
  | delete (name : Name) (e : WithMemIdsRecord) (clears : List (Named t.Fields → Named t.Fields)) :
    t.Plans config s (t.delete config s name e clears)

/-- The table with memory ids that an operation is about. -/
def StoreOp.table : StoreOp → Option IdTable
  | .addMemLeaseInput _ | .addMemLeaseResult .. | .updateMemLeaseRecordState ..
  | .updateMemLeaseRecord .. | .delMemLeaseRecord _ => some .lease
  | .addShmImportInput _ | .addShmImportResult .. | .updateShmImportRecordState ..
  | .delShmImportRecord _ => some .shm
  | _ => none

theorem plans_of_table (config : StoreConfig) (s : RecordStore) {op : StoreOp} {t : IdTable}
    (h : op.table = some t) : t.Plans config s (plan config s op) := by
  cases op with
  | addMemLeaseInput input =>
    cases h
    exact .addInput (t := .lease) input.name (leaseInputFields input)
  | addMemLeaseResult name result =>
    cases h
    exact .addResult (t := .lease) name result.memIds (leaseResultFields result)
  | updateMemLeaseRecordState name state =>
    cases h
    exact .assign name _
  | updateMemLeaseRecord name context size =>
    cases h
    exact .assign name _
  | delMemLeaseRecord name =>
    cases h
    rw [plan, delMemLeaseRecord]
    split
    · exact .refuse
    · next e _ => exact .delete name e [.clear, .clear]
  | addShmImportInput input =>
    cases h
    exact .addInput (t := .shm) input.name (importInputFields input)
  | addShmImportResult name result =>
    cases h
    rw [plan, addShmImportResult]
    split_ifs
    · exact .refuse
    · exact .addResult (t := .shm) name result.memIds (importResultFields result)
  | updateShmImportRecordState name state =>
    cases h
    exact .assign name _
  | delShmImportRecord name =>
    cases h
    rw [plan, delShmImportRecord]
    split
    · exact .refuse
    next e _ =>
    split_ifs
    · exact .refuse
    · exact .delete name e [.clear]
  | _ => cases h

namespace IdTable.Plans

variable {t : IdTable} {p : Plan}

theorem spares (h : t.Plans config s p) (hon : ∀ slot change m, part (t.on slot change m) = part m)
    (hpool : ∀ store m, part (onPool store m) = part m) : Spares part p.stores := by
  cases h with
  | refuse => exact spares_nil
  | addInput name fields =>
    unfold IdTable.addInput
    split_ifs
    · exact spares_nil
    split
    · exact spares_nil
    next slot _ =>
    split
    · exact (spares_map (hon slot) _).append (spares_map (hon slot) [.clear])
    · exact spares_map (hon slot) _
  | addResult name memIds fields =>
    unfold IdTable.addResult
    split
    · exact spares_nil
    split
    · exact spares_nil
    · exact (spares_map hpool _).append (spares_map (hon _) _)
  | assign name fields =>
    unfold IdTable.assign
    split
    · exact spares_nil
    · exact spares_map (hon _) _
  | delete name e clears => exact (spares_map (hon _) _).append (spares_map hpool _)

/-- Of what is cached, only the stack and the map of the table change, and the idle lines. -/
theorem cache (h : t.Plans config s p) :
    ∃ idle cached lines, p.cache = t.setCache s.cache idle cached lines := by
  have hsame : ∃ idle cached lines, s.cache = t.setCache s.cache idle cached lines :=
    ⟨_, _, _, (t.setCache_self s.cache).symm⟩
  cases h with
  | refuse => exact hsame
  | addInput name fields =>
    unfold IdTable.addInput
    split_ifs
    · exact hsame
    split
    · exact hsame
    split <;> exact ⟨_, _, _, rfl⟩
  | addResult name memIds fields =>
    unfold IdTable.addResult
    split
    · exact hsame
    split
    · exact hsame
    · exact ⟨_, _, _, rfl⟩
  | assign name fields =>
    unfold IdTable.assign
    split <;> exact hsame
  | delete name e clears => exact ⟨_, _, _, rfl⟩

end IdTable.Plans

/-- A part of the file that is none of those an operation stores to. -/
def StoreOp.Leaves (part : StoreMem → α) (op : StoreOp) : Prop :=
  match op with
  | .addRegionRecord _ | .delRegionRecord _ =>
    ∀ slot change m, part (onRegion slot change m) = part m
  | .addShmRefRecord .. | .delShmRefRecord .. | .delShmRefRecordsByPid .. =>
    ∀ slot change m, part (onRef slot change m) = part m
  | .addSuspendClient _ | .delSuspendClient _ =>
    ∀ count pids m, part { m with suspendCount := count, suspendPids := pids } = part m
  | _ => ∀ t, op.table = some t → (∀ slot change m, part (t.on slot change m) = part m) ∧
      ∀ store m, part (onPool store m) = part m

/-- **An operation stores to the parts it is about only.** -/
theorem spares_plan (config : StoreConfig) (s : RecordStore) {op : StoreOp} (h : op.Leaves part) :
    Spares part (plan config s op).stores := by
  have htable : ∀ t, op.table = some t → op.Leaves part →
      Spares part (plan config s op).stores := by
    intro t ht hleaves
    have hparts : (∀ slot change m, part (t.on slot change m) = part m) ∧
        ∀ store m, part (onPool store m) = part m := by
      cases op <;> first | exact hleaves t ht | cases ht
    exact (plans_of_table config s ht).spares hparts.1 hparts.2
  cases op with
  | addRegionRecord input =>
    rw [plan, addRegionRecord]
    split_ifs
    · exact spares_nil
    · exact spares_nil
    · exact spares_nil
    split
    · exact spares_nil
    next slot _ =>
    split
    · exact (spares_map (h slot) _).append (spares_map (h slot) [.clear])
    · exact spares_map (h slot) _
  | delRegionRecord name =>
    rw [plan, delRegionRecord]
    split
    · exact spares_nil
    · next e _ => exact spares_map (h e.slot) [.clear]
  | addShmRefRecord pid name =>
    rw [plan, addShmRefRecord]
    split_ifs
    · exact spares_nil
    split
    · exact spares_nil
    next slot _ =>
    split
    · exact spares_map (h slot) [.clear]
    · exact spares_map (h slot) [_, _]
  | delShmRefRecord pid name =>
    rw [plan, delShmRefRecord]
    split_ifs
    · exact spares_nil
    split
    · exact spares_nil
    dsimp only
    split
    · exact spares_nil
    · next slot _ => exact spares_map (h slot) [.clear]
  | delShmRefRecordsByPid pid rank =>
    rw [plan, delShmRefRecordsByPid]
    split_ifs
    · exact spares_nil
    · exact spares_map (fun slot => h slot .clear) _
  | addSuspendClient pid =>
    rw [plan, addSuspendClient]
    split_ifs
    · exact spares_nil
    · exact spares_nil
    · exact spares_nil
    · exact spares_nil
    · simpa [Spares] using ⟨fun m => h _ m.suspendPids m, fun m => h m.suspendCount _ m⟩
  | delSuspendClient pid =>
    rw [plan, delSuspendClient]
    split_ifs
    · exact spares_nil
    · exact spares_nil
    split
    · exact spares_nil
    · simpa [Spares] using ⟨fun m => h _ m.suspendPids m, fun m => h m.suspendCount _ m⟩
  | _ => exact htable _ rfl h

end Spares

end UbsMem
