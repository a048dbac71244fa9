import UbsMem.RecordStoreInv

/-! # A restart without a crash

Between two operations the daemon may be stopped and started again: `Destroy` forgets
the stacks and maps, `Initialize` builds new ones from the file.  Whatever the
operations before, every function that lists records answers as before; of the
suspended clients those remain that are still alive.
-/
namespace UbsMem

/-- **The answers after a restart are those before it**, as sets; of the suspended
clients, those that are `alive` remain. -/
structure SameAnswers (config : StoreConfig) (alive : UInt32 → Bool) (s s' : RecordStore) :
    Prop where
  regions : (listRegionRecord s').Perm (listRegionRecord s)
  leases : (listMemLeaseRecord s').Perm (listMemLeaseRecord s)
  imports : (listShmImportRecord s').Perm (listShmImportRecord s)
  refsNameF : ∀ name pid, listShmRefRecordNameF s' name pid = listShmRefRecordNameF s name pid
  refsPidF : ∀ pid name, listShmRefRecordPidF s' pid name = listShmRefRecordPidF s pid name
  suspended : listSuspendClients config s' = (listSuspendClients config s).filter alive

theorem TableInv.entries_perm {F R : Type} {capacity : Nat} {t : Nat → Named F}
    {idle idle' : List Nat} {cache cache' : Map Name WithMemIdsRecord} {ids : Nat → List UInt64}
    (h : TableInv capacity t idle cache ids) (hnew : TableInv capacity t idle' cache' ids)
    (conv : (_ : Name) × WithMemIdsRecord → R) :
    (cache'.entries.map conv).Perm (cache.entries.map conv) :=
  (entries_perm_of_lookup_eq (h.lookup_eq hnew)).map conv

section Restart

variable {config : StoreConfig} {s : RecordStore} {lines : Owner → List Nat}
  {ids : Owner → List UInt64}

section

variable (h : StoreInv config s lines ids)

include h

section

variable (alive : UInt32 → Bool)

theorem StoreInv.restart : StoreInv config (initializeStore config alive s.mem) lines ids :=
  h.mem.restore alive

theorem StoreInv.countRefs_restart (name : Name) (pid : UInt32) :
    listShmRefRecordNameF (initializeStore config alive s.mem) name pid =
        listShmRefRecordNameF s name pid ∧
      listShmRefRecordPidF (initializeStore config alive s.mem) pid name =
        listShmRefRecordPidF s pid name := by
  obtain ⟨count, pids, hmem⟩ := initializeStore_mem config alive s.mem
  have hnew := (h.restart alive).refs
  rw [hmem] at hnew
  have hperm := h.refs.perm hnew
  unfold listShmRefRecordNameF listShmRefRecordPidF
  rw [hmem, h.refs.same, hnew.same]
  exact ⟨hperm.countP_eq _, hperm.countP_eq _⟩

theorem StoreInv.listSuspendClients_restart :
    listSuspendClients config (initializeStore config alive s.mem) =
      (listSuspendClients config s).filter alive := by
  have hcount : ¬s.mem.suspendCount > config.suspendMax := not_lt.mpr h.suspendCount
  rw [(listSuspendClients_initializeStore config alive s.mem).1, keepSuspended, listSuspendClients,
    if_neg hcount, if_neg hcount]
  refine List.filter_congr fun pid hpid => ?_
  rw [h.suspended pid hpid, Bool.true_and]

theorem StoreInv.sameAnswers :
    SameAnswers config alive s (initializeStore config alive s.mem) := by
  obtain ⟨count, pids, hmem⟩ := initializeStore_mem config alive s.mem
  obtain ⟨hregions, hleases, himports, -⟩ := h.restart alive
  rw [hmem] at hregions hleases himports
  refine ⟨?_, ?_, ?_, fun name pid => (h.countRefs_restart alive name pid).1,
    fun pid name => (h.countRefs_restart alive name pid).2, h.listSuspendClients_restart alive⟩
  · unfold listRegionRecord
    rw [hmem]
    exact h.regions.entries_perm hregions _
  · unfold listMemLeaseRecord
    rw [hmem]
    exact h.leases.entries_perm hleases _
  · unfold listShmImportRecord
    rw [hmem]
    exact h.imports.entries_perm himports _

end

end

end Restart

/-- **A restart without a crash is not seen**: after any operations on a file of zeros
whose names are not empty and have no zeros, `Initialize` on the same bytes gives the
same answers.  Nothing is asked of how often a result is recorded. -/
theorem restart_same_answers (config : StoreConfig) (alive alive' : UInt32 → Bool)
    (ops : List StoreOp) (hnames : ∀ op ∈ ops, op.NamesOk) :
    SameAnswers config alive' ((RecordStore.start config alive).run config ops)
      (initializeStore config alive' ((RecordStore.start config alive).run config ops).mem) := by
  obtain ⟨lines, ids, h⟩ := storeInv_run ((memInv_zero config).restore alive) hnames
  exact h.sameAnswers alive'

/-- A lease with memory ids, an import with a reference, and a suspended client. -/
def sampleOps : List StoreOp :=
  [.addMemLeaseInput ⟨true, [97, 98], 4096, 0, ⟨10, 0, 0⟩, .preAdd⟩,
    .addMemLeaseResult [97, 98] ⟨[7, 8, 9], 1, 4096, 2⟩,
    .addShmImportInput ⟨[99], 8192, 10⟩,
    .addShmImportResult [99] ⟨[5], 8192, 0, 2, 0, 0⟩,
    .addShmRefRecord 10 [99],
    .addSuspendClient 11]

theorem sampleOps_namesOk : ∀ op ∈ sampleOps, op.NamesOk := by
  simp [sampleOps, StoreOp.NamesOk, StoreOp.names]

theorem restart_same_answers_sample :
    SameAnswers recordStoreConfig (fun _ => true)
      ((RecordStore.start recordStoreConfig fun _ => true).run recordStoreConfig sampleOps)
      (initializeStore recordStoreConfig (fun _ => true)
        ((RecordStore.start recordStoreConfig fun _ => true).run recordStoreConfig
        sampleOps).mem) :=
  restart_same_answers recordStoreConfig _ _ sampleOps sampleOps_namesOk

end UbsMem
