import UbsMem.ShmCells

/-! # The entries, the records and the references of shared memories

`SHMManager` keeps a map in memory, and the record store keeps an import record for each of its
entries and a reference record for each process of an entry.  A name is *tallied* (`Tallied`) when
the three say the same of it: one state, the same memory ids, and exactly one reference for
each process.  Here is, for every operation of the manager, what becomes of a name that is tallied
and of one that is absent.
-/
namespace UbsMem

open Function List

section Books

variable {S : Type} (imports : S → Name → Option ShareMemImportInfo)
  (refs : S → Name → UInt32 → Nat) (valid : Nat → Name → Prop)

/-- The entry of a name agrees with its import record and its references. -/
structure Tallied (m : ShmManager S) (n : Name) (memory : AttachedShareMemory) : Prop where
  find : m.find n = some memory
  name : memory.name = n
  record : ∃ r, imports m.store n = some r ∧ r.state = memory.state ∧
    r.memIds = memory.result.memIds
  nodup : memory.pids.Nodup
  users : ∀ pid ∈ memory.pids, pid < 2 ^ 32 ∧ valid pid n
  count : ∀ p : UInt32, refs m.store n p = if p.toNat ∈ memory.pids then 1 else 0

/-- A name has neither an entry nor a record. -/
structure Unlisted (m : ShmManager S) (n : Name) : Prop where
  find : m.find n = none
  record : imports m.store n = none

variable {imports refs valid} {ok : S → Prop} {rs : ShmRecords S} {fits : Name → Prop}
  {refRoom : Nat → Name → S → Prop} {resultRoom : Name → ShareMemImportResult → S → Prop}
  {m m' : ShmManager S} {n : Name} {memory : AttachedShareMemory} {pid : Nat}

theorem Tallied.of_same (h : Tallied imports refs valid m n memory)
    (hsame : SameEntry imports refs m m' n) : Tallied imports refs valid m' n memory := by
  refine ⟨hsame.find.trans h.find, h.name, ?_, h.nodup, h.users, fun p => ?_⟩
  · rw [hsame.record]
    exact h.record
  · rw [hsame.count]
    exact h.count p

theorem Unlisted.of_same (h : Unlisted imports m n) (hsame : SameEntry imports refs m m' n) :
    Unlisted imports m' n := ⟨hsame.find.trans h.find, hsame.record.trans h.record⟩

theorem Unlisted.refs_zero (hlaw : rs.Lawful imports refs fits ok) (hok : ok m.store)
    (h : Unlisted imports m n) (p : UInt32) : refs m.store n p = 0 := by
  by_contra hne
  have hsome := hlaw.target n p m.store hok (Nat.pos_of_ne_zero hne)
  rw [h.record] at hsome
  cases hsome

theorem Tallied.recorded (h : Tallied imports refs valid m n memory) :
    (imports m.store n).isSome := by
  obtain ⟨r, hr, -⟩ := h.record
  rw [hr]
  rfl

theorem Tallied.refs_zero (h : Tallied imports refs valid m n memory) (hpids : memory.pids = [])
    (p : UInt32) : refs m.store n p = 0 := by
  rw [h.count p, hpids]
  rfl

theorem eq_ofNat_iff (hpid : pid < 2 ^ 32) (p : UInt32) : p = .ofNat pid ↔ p.toNat = pid := by
  constructor
  · rintro rfl
    exact UInt32.toNat_ofNat_of_lt' hpid
  · rintro rfl
    exact (UInt32.ofNat_toNat).symm

open ShmManager

/-! ### Adding a memory -/

theorem Unlisted.prepare (hlaw : rs.Lawful imports refs fits ok) (hok : ok m.store)
    (h : Unlisted imports m n) (hfits : fits n) (size pid : Nat) :
    let res := prepareAddShareMemoryInfo rs n size pid m
    res.1 ≠ ubsmOk ∧ SameEntry imports refs m res.2 n ∨
      res.1 = ubsmOk ∧ Tallied imports refs valid res.2 n
        ⟨n, size, .preAdd, [], ShareMemImportResult.empty⟩ := by
  obtain ⟨-, hcount, hchange⟩ := hlaw.input n size pid m.store hfits hok
  unfold prepareAddShareMemoryInfo
  rw [h.find]
  dsimp only
  split_ifs with hret
  · obtain ⟨-, hsame⟩ := hchange.resolve_right fun h => hret h.1
    exact .inl ⟨mxmErrRecordAdd_ne, rfl, congrFun hsame n, congrFun hcount n⟩
  · obtain ⟨-, -, hnew⟩ := hchange.resolve_left fun h => hret h.1
    refine .inr ⟨rfl, by simp, rfl, ?_, nodup_nil, fun p hp => absurd hp not_mem_nil, ?_⟩
    · refine ⟨⟨n, size, ⟨pid, 0, 0⟩, [], 0, 0, 0, .preAdd⟩, ?_, rfl, rfl⟩
      rw [store_put, store_withStore, hnew, update_self]
    · intro p
      rw [store_put, store_withStore, hcount]
      exact h.refs_zero hlaw hok p

theorem Tallied.mark (hlaw : rs.Lawful imports refs fits ok) (hok : ok m.store)
    (h : Tallied imports refs valid m n memory) (state : RecordState) :
    (updateShareMemoryRecordState rs n state m).1 = ubsmOk ∧
      Tallied imports refs valid (updateShareMemoryRecordState rs n state m).2 n
        { memory with state } := by
  obtain ⟨r, hr, -, hids⟩ := h.record
  have hret : (updateShareMemoryRecordState rs n state m).1 = ubsmOk := by
    unfold updateShareMemoryRecordState
    simp [h.find, hlaw.marked n r state m.store hr]
  rcases updateShareMemoryRecordState_at n hlaw hok state with
    ⟨hne, -⟩ | ⟨-, memory', r', hfind, hr', hfind', hnew, hcount⟩
  · exact absurd hret hne
  · obtain rfl : memory' = memory := Option.some.inj (hfind.symm.trans h.find)
    obtain rfl : r' = r := Option.some.inj (hr'.symm.trans hr)
    refine ⟨hret, hfind', h.name, ⟨_, hnew, rfl, hids⟩, h.nodup, h.users, fun p => ?_⟩
    rw [hcount]
    exact h.count p

theorem Tallied.insert (h : Tallied imports refs valid m n memory) (hpid : pid < 2 ^ 32)
    (hnew : pid ∉ memory.pids) (hvalid : valid pid n)
    (hfind : m'.find n = some { memory with pids := memory.pids.insert pid })
    (hrecord : imports m'.store n = imports m.store n)
    (hcount : refs m'.store n = update (refs m.store n) (.ofNat pid)
      (refs m.store n (.ofNat pid) + 1)) :
    Tallied imports refs valid m' n { memory with pids := memory.pids.insert pid } := by
  refine ⟨hfind, h.name, hrecord ▸ h.record, h.nodup.insert, fun q hq => ?_, fun p => ?_⟩
  · rcases mem_insert_iff.mp hq with rfl | hq
    · exact ⟨hpid, hvalid⟩
    · exact h.users q hq
  · dsimp only
    rw [hcount]
    by_cases hp : p = .ofNat pid
    · have htoNat := (eq_ofNat_iff hpid p).mp hp
      subst hp
      rw [update_self, h.count, htoNat, if_neg hnew, if_pos mem_insert_self]
    · have htoNat : p.toNat ≠ pid := fun heq => hp ((eq_ofNat_iff hpid p).mpr heq)
      rw [update_of_ne hp, h.count]
      simp only [mem_insert_iff, htoNat, false_or]

section

variable (hlaw : rs.Lawful imports refs fits ok)

include hlaw

theorem unlisted_of_delete {store : S} (hok : ok store) {r : ShareMemImportInfo}
    (hr : imports store n = some r) (hzero : ∀ p, refs store n p = 0) :
    (rs.delShmImportRecord n store).1 = 0 ∧ imports (rs.delShmImportRecord n store).2 n = none := by
  have hret := hlaw.deleted n r store hok hr hzero
  obtain ⟨-, ⟨-, hchange⟩, -⟩ := hlaw.delete n store hok
  obtain ⟨-, r', -, hnew⟩ := hchange.resolve_left fun hfail => hfail.1 hret
  refine ⟨hret, ?_⟩
  rw [hnew, update_self]

/-- The result of an attach is stored with the first process, or nothing changes, where there
is room for the reference or the result is refused. -/
theorem Tallied.full (haccept : rs.Accepts imports refRoom resultRoom)
    (htakes : rs.TakesBack refs ok valid refRoom) (hok : ok m.store)
    (h : Tallied imports refs valid m n memory) (hpid : pid < 2 ^ 32) (hpids : memory.pids = [])
    {result : ShareMemImportResult}
    (hroom : refRoom pid n m.store ∨ (rs.addShmImportResult n result m.store).1 ≠ 0) :
    let res := addFullShareMemoryInfo rs n pid result m
    res.1 ≠ ubsmOk ∧ SameEntry imports refs m res.2 n ∨
      res.1 = ubsmOk ∧ Tallied imports refs valid res.2 n
        { memory with state := .finish, result, pids := [pid] } := by
  obtain ⟨hok', hcount, hchange⟩ := hlaw.result n result m.store hok
  unfold addFullShareMemoryInfo
  rw [h.find]
  dsimp only
  by_cases hret : (rs.addShmImportResult n result m.store).1 = 0
  · obtain ⟨-, r, -, hrecord⟩ := hchange.resolve_left fun hfail => hfail.1 hret
    have hself := (congrFun hrecord n).trans (update_self ..)
    -- the entry with the result, before its process
    have hstored : Tallied imports refs valid
        ((m.withStore (rs.addShmImportResult n result m.store).2).put n
          { memory with state := .finish, result }) n
        { memory with state := .finish, result } := by
      refine ⟨by simp, h.name, ⟨_, hself, rfl, rfl⟩, h.nodup, h.users, ?_⟩
      rw [store_put, store_withStore, hcount]
      exact h.count
    have href : (rs.addShmRefRecord pid n (rs.addShmImportResult n result m.store).2).1 = 0 :=
      haccept.ref pid n _ hstored.recorded
        (haccept.kept pid n result m.store (hroom.resolve_right fun hne => hne hret))
    obtain ⟨-, hsame, hadd⟩ := hlaw.addRef pid n _ hok'
    obtain ⟨-, hrefs⟩ := hadd.resolve_left fun hfail => hfail.1 href
    have hnew : pid ∉ memory.pids := hpids ▸ not_mem_nil
    have hinserted : Tallied imports refs valid
        ((m.withStore (rs.addShmRefRecord pid n (rs.addShmImportResult n result m.store).2).2).put n
          { memory with state := .finish, result, pids := memory.pids.insert pid }) n
        { memory with state := .finish, result, pids := memory.pids.insert pid } := by
      refine hstored.insert hpid hnew (htakes.added pid n _ href) (by simp) (congrFun hsame n) ?_
      rw [store_put, store_withStore, hrefs, setRefs_self]
      rfl
    rw [if_neg (not_not.mpr hret), if_neg (not_not.mpr href)]
    rw [hpids, insert_nil] at hinserted ⊢
    exact .inr ⟨rfl, hinserted⟩
  · obtain ⟨-, hsame⟩ := hchange.resolve_right fun hdone => hret hdone.1
    rw [if_pos hret]
    exact .inl ⟨mxmErrRecordAdd_ne, rfl, congrFun hsame n, congrFun hcount n⟩

/-- When the result of an attach is recorded and the reference is refused, the entry stays and its
record is deleted. -/
theorem Tallied.unreferenced (hok : ok m.store) (h : Tallied imports refs valid m n memory)
    (hpids : memory.pids = []) {result : ShareMemImportResult}
    (hresult : (rs.addShmImportResult n result m.store).1 = 0)
    (hfail : (addFullShareMemoryInfo rs n pid result m).1 ≠ ubsmOk) :
    (addFullShareMemoryInfo rs n pid result m).2.find n = some memory ∧
      imports (addFullShareMemoryInfo rs n pid result m).2.store n = none := by
  obtain ⟨hok', hcount, hchange⟩ := hlaw.result n result m.store hok
  obtain ⟨-, r, -, hrecord⟩ := hchange.resolve_left fun hfail => hfail.1 hresult
  obtain ⟨hok'', hsame, hadd⟩ := hlaw.addRef pid n _ hok'
  unfold addFullShareMemoryInfo at hfail ⊢
  rw [h.find] at hfail ⊢
  dsimp only at hfail ⊢
  rw [if_neg (not_not.mpr hresult)] at hfail ⊢
  split_ifs at hfail ⊢ with href
  · obtain ⟨-, hrefs⟩ := hadd.resolve_right fun hdone => href hdone.1
    have hself := (congrFun hsame n).trans ((congrFun hrecord n).trans (update_self ..))
    refine ⟨h.find, (unlisted_of_delete hlaw hok'' hself fun p => ?_).2⟩
    rw [hrefs, hcount]
    exact h.refs_zero hpids p
  · exact absurd rfl hfail

/-! ### Taking a memory away -/

theorem delShmRefRecords_all (htakes : rs.TakesBack refs ok valid refRoom) {pids : List Nat}
    {store : S} (hok : ok store) (hnodup : pids.Nodup)
    (husers : ∀ pid ∈ pids, pid < 2 ^ 32 ∧ valid pid n)
    (hcount : ∀ p : UInt32, refs store n p = if p.toNat ∈ pids then 1 else 0) :
    (delShmRefRecords rs n pids store).1 = true ∧ ok (delShmRefRecords rs n pids store).2 ∧
      imports (delShmRefRecords rs n pids store).2 n = imports store n ∧
      ∀ p, refs (delShmRefRecords rs n pids store).2 n p = 0 := by
  induction pids generalizing store with
  | nil => exact ⟨rfl, hok, rfl, hcount⟩
  | cons pid pids ih =>
    obtain ⟨hpid, hvalid⟩ := husers pid mem_cons_self
    obtain ⟨hnotMem, hnodup'⟩ := nodup_cons.mp hnodup
    have htoNat : (UInt32.ofNat pid).toNat = pid := UInt32.toNat_ofNat_of_lt' hpid
    have hone : refs store n (.ofNat pid) = 1 := by
      rw [hcount, htoNat, if_pos mem_cons_self]
    have hdel := htakes.unref pid n store hok hvalid (by rw [hone]; exact Nat.one_pos)
    obtain ⟨hok', hrecord, hchange⟩ := hlaw.delRef pid n store hok
    obtain ⟨-, hnew⟩ := hchange.resolve_left fun hfail => hfail.1 hdel
    have hcount' : ∀ p : UInt32, refs (rs.delShmRefRecord pid n store).2 n p =
        if p.toNat ∈ pids then 1 else 0 := by
      intro p
      rw [hnew, setRefs_self, hone]
      by_cases hp : p = .ofNat pid
      · subst hp
        rw [update_self, htoNat, if_neg hnotMem]
      · have hne : p.toNat ≠ pid := fun heq => hp ((eq_ofNat_iff hpid p).mpr heq)
        rw [update_of_ne hp, hcount]
        simp only [mem_cons, hne, false_or]
    obtain ⟨hall, hsound, hsame, hzero⟩ :=
      ih hok' hnodup' (fun q hq => husers q (.tail _ hq)) hcount'
    unfold delShmRefRecords
    rw [if_neg (not_not.mpr hdel)]
    exact ⟨hall, hsound, hsame.trans (congrFun hrecord n), hzero⟩

theorem Tallied.removeUnused (hok : ok m.store) (h : Tallied imports refs valid m n memory)
    (hpids : memory.pids = []) :
    (removeMemoryInfo rs n false m).1 = ubsmOk ∧
      Unlisted imports (removeMemoryInfo rs n false m).2 n := by
  obtain ⟨r, hr, -⟩ := h.record
  obtain ⟨hret, hgone⟩ := unlisted_of_delete hlaw hok hr (h.refs_zero hpids)
  unfold removeMemoryInfo
  rw [h.find]
  simp only [Bool.false_and, Bool.false_eq_true, if_false, Bool.not_true, hpids, ne_eq,
    not_true_eq_false, store_put, store_withStore, hret]
  exact ⟨trivial, by simp, hgone⟩

theorem Tallied.removeDeleted (htakes : rs.TakesBack refs ok valid refRoom) (hok : ok m.store)
    (h : Tallied imports refs valid m n memory) (hstate : memory.state = .deleted) :
    (removeMemoryInfo rs n true m).1 = ubsmOk ∧
      Unlisted imports (removeMemoryInfo rs n true m).2 n := by
  obtain ⟨r, hr, -⟩ := h.record
  obtain ⟨hall, hsound, hsame, hzero⟩ :=
    delShmRefRecords_all hlaw htakes hok h.nodup h.users h.count
  obtain ⟨hret, hgone⟩ := unlisted_of_delete hlaw hsound (hsame.trans hr) hzero
  unfold removeMemoryInfo
  rw [h.find]
  simp only [hstate, decide_true, Bool.and_true, if_true, hall, Bool.not_true, Bool.false_eq_true,
    if_false, ne_eq, not_true_eq_false, store_put, store_withStore, hret]
  exact ⟨trivial, by simp, hgone⟩

end

end Books

end UbsMem
