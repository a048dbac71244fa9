import UbsMem.CommonTypes
import UbsMem.Machine

/-! # Locks and access rights in an application

A process that has mapped a shared memory takes a read or a write lock from the daemon and
then gives itself access to every segment of the mapping with `obmmOwnershipSwitch`; the
unlock takes the access away before it returns the lock.  `RackMemShm` counts its locks in
`isLocked` and keeps the rights of the last one in `lockedStatus`.

The pass over the segments stops at the first switch that fails, and what it has switched
before stays switched.  An unlock takes the access away whatever the count is.  So a lock
call that fails can leave access behind, and a process that still holds a lock can be left
without it (`access_incoherent`).  Where a pass fails at its first segment or not at all,
where an unlock that the daemon refuses can switch back, and where only the last lock is
returned, the access rights of all segments follow the count (`access_follows_lock`).
-/
namespace UbsMem

open Function Option

def mxmErrObmmInner : Int := 900

/-- `RackMemShmOwnStatus`. -/
inductive ShmOwnStatus
  | unaccess
  | write
  | read
  | readWrite
  deriving DecidableEq, Repr

/-- The protection bits of a status. -/
def ShmOwnStatus.prot : ShmOwnStatus → Nat
  | .unaccess => 0
  | .read => 1
  | .write => 2
  | .readWrite => 3

/-- `ShmAppMetaData`, the fields that the lock calls read. -/
structure ShmAppMetaData where
  name : Name
  addr : Nat
  mapSize : Nat
  unitSize : Nat
  fds : List Int
  addrs : List (Nat × Nat)
  flag : Nat
  isLocked : Int
  lockedStatus : ShmOwnStatus

/-- The arguments of `obmmOwnershipSwitch`. -/
structure SwitchCall where
  fd : Int
  startAddr : Nat
  endAddr : Nat
  prot : Nat
  deriving DecidableEq

/-- The last switch of each segment that succeeded. -/
abbrev SegmentAccess := Nat → Option ShmOwnStatus

/-- The metadata of the mapped objects, and the access rights to their segments. -/
structure AppShm where
  metas : Name → Option ShmAppMetaData
  access : Name → SegmentAccess

namespace ShmAppMetaData

/-- The distance of a segment, in units: what the loop over the segments takes for it. -/
def switchOffset (first i idx : Nat) : Nat := if i = 0 then 0 else idx - first - 1

/-- The call for the segment `idx`, the `i`-th of a pass. -/
def switchCall (m : ShmAppMetaData) (start length usedFirst : Nat) (status : ShmOwnStatus)
    (first i idx : Nat) : SwitchCall :=
  let totalOffset := switchOffset first i idx * m.unitSize
  let curLen := if i = 0 then usedFirst else min (length - totalOffset - usedFirst) m.unitSize
  let startAddr := if i = 0 then start else (m.addrs.getD idx (0, 0)).1
  ⟨m.fds.getD idx (-1), startAddr, startAddr + curLen, status.prot⟩

/-- The checks before the call: `size_t` products and sums wrap. -/
def rangeInvalid (m : ShmAppMetaData) (length usedFirst first i idx : Nat) : Bool :=
  let offset := switchOffset first i idx
  let totalOffset := offset * m.unitSize
  decide (m.unitSize = 0) || decide ((2 ^ 64 - 1) / m.unitSize < offset) ||
    (decide (length < usedFirst) || decide (length < totalOffset) ||
      decide (length < (totalOffset + usedFirst) % 2 ^ 64))

/-- The loop of `UbsMemShmSetOwnerShipOpt` from its `i`-th turn on: its code, the calls that
it makes and the access rights that it leaves. -/
def switchLoop (m : ShmAppMetaData) (start length usedFirst : Nat) (status : ShmOwnStatus)
    (obmm : SwitchCall → Int) (first : Nat) :
    Nat → List Nat → SegmentAccess → Int × List SwitchCall × SegmentAccess
  | _, [], access => (ubsmOk, [], access)
  | i, idx :: rest, access =>
    if m.rangeInvalid length usedFirst first i idx then (mxmErrParamInvalid, [], access)
    else
      let call := m.switchCall start length usedFirst status first i idx
      if obmm call ≠ ubsmOk then (mxmErrObmmInner, [call], access)
      else
        let res := switchLoop m start length usedFirst status obmm first (i + 1) rest
          (update access idx (some status))
        (res.1, call :: res.2.1, res.2.2)

/-- `UbsMemShmSetOwnerShipOpt`, with the calls of `obmmOwnershipSwitch` that it makes. -/
def setOwnerShipOpt (m : ShmAppMetaData) (start length : Nat) (status : ShmOwnStatus)
    (usedFirst : Nat) (indices : List Nat) (obmm : SwitchCall → Int) (access : SegmentAccess) :
    Int × List SwitchCall × SegmentAccess :=
  m.switchLoop start length usedFirst status obmm (indices.headD 0) 0 indices access

/-- The pass that the lock functions make, over all segments. -/
def switchAll (m : ShmAppMetaData) (status : ShmOwnStatus) (obmm : SwitchCall → Int)
    (access : SegmentAccess) : Int × List SwitchCall × SegmentAccess :=
  m.setOwnerShipOpt m.addr m.mapSize status m.unitSize (List.range m.addrs.length) obmm access

/-- What the lock functions see of it: the code, and the access rights. -/
def setAll (m : ShmAppMetaData) (status : ShmOwnStatus) (obmm : SwitchCall → Int)
    (access : SegmentAccess) : Int × SegmentAccess :=
  ((m.switchAll status obmm access).1, (m.switchAll status obmm access).2.2)

/-- The checks at the head of the lock functions; `1` is `UBSM_FLAG_WITH_LOCK`. -/
def refused (m : ShmAppMetaData) (name : Name) : Option Int :=
  if m.addrs.length ≠ m.fds.length then some mxmErrShmNotFound
  else if m.name ≠ name then some mxmErrShmNotFound
  else if m.flag ≠ 1 then some mxmErrLockNotReady
  else none

end ShmAppMetaData

/-- The replies to a lock or unlock call: of the daemon to the request, and of the library
in the first pass over the segments and in the one that undoes it. -/
structure LockReplies where
  daemon : Int
  switch : SwitchCall → Int
  undo : SwitchCall → Int

/-- `UpdateMetaData` on the map from names to metadata. -/
def updateMeta (name : Name) (m : ShmAppMetaData) (metas : Name → Option ShmAppMetaData) :
    Int × (Name → Option ShmAppMetaData) :=
  match metas name with
  | none => (mxmErrShmNotFound, metas)
  | some _ => (ubsmOk, update metas name (some m))

theorem updateMeta_of_some {name : Name} {m m' : ShmAppMetaData}
    {metas : Name → Option ShmAppMetaData} (h : metas name = some m) :
    updateMeta name m' metas = (ubsmOk, update metas name (some m')) := by
  unfold updateMeta
  rw [h]

namespace AppShm

/-- The access rights of an object after a pass. -/
def setAccess (s : AppShm) (name : Name) (access : SegmentAccess) : AppShm :=
  { s with access := update s.access name access }

def updateMetaData (s : AppShm) (name : Name) (m : ShmAppMetaData) : Int × AppShm :=
  let res := updateMeta name m s.metas
  (res.1, { s with metas := res.2 })

/-- `UbsMemShmReadLock` and `UbsMemShmWriteLock`. -/
def lockWith (status : ShmOwnStatus) (name : Name) (o : LockReplies) (s : AppShm) : Int × AppShm :=
  match s.metas name with
  | none => (mxmErrShmNotFound, s)
  | some m =>
    match m.refused name with
    | some err => (err, s)
    | none =>
      if o.daemon ≠ ubsmOk then (o.daemon, s)
      else
        let pass := m.setAll status o.switch (s.access name)
        let s₁ := s.setAccess name pass.2
        -- The lock is returned to the daemon; its answer is not looked at.
        if pass.1 ≠ ubsmOk then (pass.1, s₁)
        else
          let m' := { m with isLocked := m.isLocked + 1, lockedStatus := status }
          match s₁.updateMetaData name m' with
          | (ret, s₂) =>
            if ret ≠ ubsmOk then
              (ret, s₂.setAccess name (m'.setAll .unaccess o.undo (s₂.access name)).2)
            else (ubsmOk, s₂)

/-- `UbsMemShmReadLock`. -/
def readLock (name : Name) (o : LockReplies) (s : AppShm) : Int × AppShm :=
  s.lockWith .read name o

/-- `UbsMemShmWriteLock`. -/
def writeLock (name : Name) (o : LockReplies) (s : AppShm) : Int × AppShm :=
  s.lockWith .readWrite name o

/-- `UbsMemShmUnLock`. -/
def unLock (name : Name) (o : LockReplies) (s : AppShm) : Int × AppShm :=
  match s.metas name with
  | none => (mxmErrShmNotFound, s)
  | some m =>
    match m.refused name with
    | some err => (err, s)
    | none =>
      if m.isLocked ≤ 0 then (mxmErrLockNotFound, s)
      else
        let pass := m.setAll .unaccess o.switch (s.access name)
        let s₁ := s.setAccess name pass.2
        if pass.1 ≠ ubsmOk then (pass.1, s₁)
        else if o.daemon ≠ ubsmOk then
          (o.daemon, s₁.setAccess name (m.setAll m.lockedStatus o.undo (s₁.access name)).2)
        else
          s₁.updateMetaData name
            { m with
              isLocked := m.isLocked - 1
              lockedStatus := if m.isLocked - 1 = 0 then .unaccess else m.lockedStatus }

end AppShm

/-- A call of the application. -/
inductive AppCall
  | readLock (name : Name) (o : LockReplies)
  | writeLock (name : Name) (o : LockReplies)
  | unLock (name : Name) (o : LockReplies)

/-- The state after a call. -/
def AppShm.step (s : AppShm) : AppCall → Option AppShm
  | .readLock name o => some (s.readLock name o).2
  | .writeLock name o => some (s.writeLock name o).2
  | .unLock name o => some (s.unLock name o).2

/-! ### Mapped objects -/

/-- The number of segments of a mapping. -/
def mmapCount (mapSize unitSize : Nat) : Nat :=
  if mapSize % unitSize = 0 then mapSize / unitSize else mapSize / unitSize + 1

/-- The metadata that `UbsMemShmMmap` adds, with a file descriptor for each segment. -/
def shmMmap (name : Name) (addr mapSize unitSize : Nat) (fds : List Int) (flag : Nat) :
    ShmAppMetaData where
  name := name
  addr := addr
  mapSize := mapSize
  unitSize := unitSize
  fds := fds
  addrs := (List.range fds.length).map fun i =>
    (addr + i * unitSize, if i = fds.length - 1 then mapSize - i * unitSize else unitSize)
  flag := flag
  isLocked := 0
  lockedStatus := .unaccess

namespace ShmAppMetaData

/-- What the lock calls rely on in a mapped object: the units before the last one lie
inside the mapping. -/
structure Mapped (m : ShmAppMetaData) : Prop where
  unit_pos : 0 < m.unitSize
  size_lt : m.mapSize < 2 ^ 64
  units : ∀ i < m.addrs.length, i * m.unitSize < m.mapSize

variable {unitSize i : Nat} {obmm : SwitchCall → Int} {status : ShmOwnStatus}

theorem mmapCount_spec (mapSize : Nat) (hunit : 0 < unitSize) :
    mapSize ≤ mmapCount mapSize unitSize * unitSize ∧
      ∀ i < mmapCount mapSize unitSize, i * unitSize < mapSize := by
  unfold mmapCount
  have hdiv := Nat.div_add_mod mapSize unitSize
  have hcomm := Nat.mul_comm unitSize (mapSize / unitSize)
  have hmod := Nat.mod_lt mapSize hunit
  split_ifs with hzero
  · refine ⟨by omega, fun i hi => ?_⟩
    have hlt : i * unitSize < mapSize / unitSize * unitSize := (Nat.mul_lt_mul_right hunit).mpr hi
    omega
  · refine ⟨by rw [Nat.succ_mul]; omega, fun i hi => ?_⟩
    have hle : i * unitSize ≤ mapSize / unitSize * unitSize :=
      Nat.mul_le_mul_right unitSize (Nat.le_of_lt_succ hi)
    omega

theorem mapped_shmMmap (name : Name) (addr : Nat) {mapSize : Nat} {fds : List Int} (flag : Nat)
    (hunit : 0 < unitSize) (hsize : mapSize < 2 ^ 64)
    (hfds : fds.length = mmapCount mapSize unitSize) :
    (shmMmap name addr mapSize unitSize fds flag).Mapped := by
  refine ⟨hunit, hsize, fun i hi => ?_⟩
  have hi : i < mmapCount mapSize unitSize := by
    simpa [shmMmap, hfds] using hi
  exact (mmapCount_spec mapSize hunit).2 i hi

/-- The call for a segment in a pass over all of them. -/
def segmentCall (m : ShmAppMetaData) (status : ShmOwnStatus) (i : Nat) : SwitchCall :=
  m.switchCall m.addr m.mapSize m.unitSize status 0 i i

variable {m : ShmAppMetaData}

theorem Mapped.rangeInvalid (h : m.Mapped) (hfits : m.unitSize ≤ m.mapSize)
    (hi : i < m.addrs.length) : m.rangeInvalid m.mapSize m.unitSize 0 i i = false := by
  have hunits := h.units i hi
  have hsize := h.size_lt
  have hpos := h.unit_pos
  have hoffset : switchOffset 0 i i * m.unitSize + m.unitSize ≤ m.mapSize := by
    unfold switchOffset
    split_ifs with hzero
    · omega
    · obtain ⟨j, rfl⟩ := Nat.exists_eq_succ_of_ne_zero hzero
      rw [Nat.succ_mul] at hunits
      simp only [Nat.sub_zero, Nat.succ_eq_add_one, Nat.add_sub_cancel]
      omega
  have hquot : switchOffset 0 i i ≤ (2 ^ 64 - 1) / m.unitSize := by
    rw [Nat.le_div_iff_mul_le hpos]
    omega
  have hsum : (switchOffset 0 i i * m.unitSize + m.unitSize) % 2 ^ 64 =
      switchOffset 0 i i * m.unitSize + m.unitSize := Nat.mod_eq_of_lt (by omega)
  simp only [ShmAppMetaData.rangeInvalid, Bool.or_eq_false_iff, decide_eq_false_iff_not]
  omega

theorem switchLoop_ok {start length usedFirst first : Nat} (n : Nat) (access : SegmentAccess)
    (hok : ∀ j, i ≤ j → j < i + n → m.rangeInvalid length usedFirst first j j = false ∧
      obmm (m.switchCall start length usedFirst status first j j) = ubsmOk) :
    ∃ calls, m.switchLoop start length usedFirst status obmm first i (List.range' i n) access =
      (ubsmOk, calls, fun j => if i ≤ j ∧ j < i + n then some status else access j) := by
  induction n generalizing i access with
  | zero =>
    refine ⟨[], congrArg (ubsmOk, [], ·) ?_⟩
    funext j
    rw [if_neg (by omega)]
  | succ n ih =>
    obtain ⟨hrange, hcall⟩ := hok i (Nat.le_refl i) (by omega)
    obtain ⟨calls, hrest⟩ := ih (i := i + 1) (update access i (some status))
      fun j hj hlt => hok j (by omega) (by omega)
    rw [List.range'_succ, switchLoop, if_neg (by simp [hrange])]
    dsimp only
    rw [if_neg (by simp [hcall]), hrest]
    refine ⟨_, congrArg (ubsmOk, _, ·) ?_⟩
    dsimp only
    funext j
    by_cases hj : j = i
    · subst hj
      rw [if_neg (by omega), update_self, if_pos (by omega)]
    · rw [update_of_ne hj]
      by_cases hin : i ≤ j ∧ j < i + (n + 1)
      · rw [if_pos hin, if_pos (by omega)]
      · rw [if_neg hin, if_neg (by omega)]

/-- Every switch of a pass succeeds. -/
def AllSwitch (m : ShmAppMetaData) (status : ShmOwnStatus) (obmm : SwitchCall → Int) : Prop :=
  ∀ i < m.addrs.length, obmm (m.segmentCall status i) = ubsmOk

/-- A pass does not fail after its first segment. -/
def NotTorn (m : ShmAppMetaData) (status : ShmOwnStatus) (obmm : SwitchCall → Int) : Prop :=
  m.AllSwitch status obmm ∨ obmm (m.segmentCall status 0) ≠ ubsmOk

/-- The first unit lies inside the mapping; the lock functions take it as used in full. -/
def Fits (m : ShmAppMetaData) : Prop := m.addrs.length = 0 ∨ m.unitSize ≤ m.mapSize

/-- The access rights when all segments have the same. -/
def allAccess (m : ShmAppMetaData) (status : ShmOwnStatus) (access : SegmentAccess) :
    SegmentAccess :=
  fun i => if i < m.addrs.length then some status else access i

theorem headD_range (k : Nat) : (List.range k).headD 0 = 0 := by
  cases k with
  | zero => rfl
  | succ k => rw [List.range_succ_eq_map]; rfl

theorem switchAll_eq (m : ShmAppMetaData) (status : ShmOwnStatus) (obmm : SwitchCall → Int)
    (access : SegmentAccess) :
    m.switchAll status obmm access =
      m.switchLoop m.addr m.mapSize m.unitSize status obmm 0 0 (List.range' 0 m.addrs.length)
        access := by
  unfold switchAll setOwnerShipOpt
  rw [headD_range, List.range_eq_range']

theorem Mapped.setAll_ok (h : m.Mapped) (hfits : m.Fits) (hall : m.AllSwitch status obmm)
    (access : SegmentAccess) :
    m.setAll status obmm access = (ubsmOk, m.allAccess status access) := by
  obtain ⟨calls, hloop⟩ : ∃ calls, m.switchLoop m.addr m.mapSize m.unitSize status obmm 0 0
      (List.range' 0 m.addrs.length) access = (ubsmOk, calls, _) := by
    refine switchLoop_ok m.addrs.length access fun j _ hj => ?_
    have hj : j < m.addrs.length := by omega
    rcases hfits with hnone | hfits
    · omega
    · exact ⟨h.rangeInvalid hfits hj, hall j hj⟩
  unfold setAll
  rw [switchAll_eq, hloop]
  simp only [Nat.zero_le, true_and, Nat.zero_add]
  rfl

/-- The range of an object that is smaller than a unit is refused before any switch. -/
theorem switchAll_of_not_fits (hfits : ¬ m.Fits) (access : SegmentAccess) :
    m.switchAll status obmm access = (mxmErrParamInvalid, [], access) := by
  have hpos : m.addrs.length ≠ 0 := fun hnone => hfits (.inl hnone)
  obtain ⟨k, hcount⟩ := Nat.exists_eq_succ_of_ne_zero hpos
  have hlong : m.mapSize < m.unitSize := Nat.lt_of_not_le fun hle => hfits (.inr hle)
  rw [switchAll_eq, hcount, List.range'_succ, switchLoop, if_pos]
  simp [ShmAppMetaData.rangeInvalid, hlong]

/-- **A pass that is not torn switches all segments or none.** -/
theorem Mapped.setAll_cases (h : m.Mapped) (hwhole : m.NotTorn status obmm)
    (access : SegmentAccess) :
    m.Fits ∧ m.setAll status obmm access = (ubsmOk, m.allAccess status access) ∨
      ∃ err, err ≠ ubsmOk ∧ m.setAll status obmm access = (err, access) := by
  by_cases hfits : m.Fits
  · rcases hwhole with hall | hfirst
    · exact .inl ⟨hfits, h.setAll_ok hfits hall access⟩
    · rcases hfits with hnone | hfits
      · have hall : m.AllSwitch status obmm := fun i hi => absurd hi (by omega)
        exact .inl ⟨.inl hnone, h.setAll_ok (.inl hnone) hall access⟩
      · rcases hcount : m.addrs.length with - | k
        · have hall : m.AllSwitch status obmm := fun i hi => absurd hi (by omega)
          exact .inl ⟨.inl hcount, h.setAll_ok (.inl hcount) hall access⟩
        · refine .inr ⟨mxmErrObmmInner, by decide, ?_⟩
          have hrange := h.rangeInvalid hfits (show 0 < m.addrs.length by omega)
          unfold setAll
          unfold segmentCall at hfirst
          rw [switchAll_eq, hcount, List.range'_succ, switchLoop, if_neg (by simp [hrange])]
          dsimp only
          rw [if_pos hfirst]
  · refine .inr ⟨mxmErrParamInvalid, by decide, ?_⟩
    unfold setAll
    rw [switchAll_of_not_fits hfits]

end ShmAppMetaData

/-! ### The invariant -/

/-- The access rights of an object follow its count of locks. -/
structure Coherent (m : ShmAppMetaData) (access : SegmentAccess) : Prop where
  mapped : m.Mapped
  count : 0 ≤ m.isLocked
  locked : 0 < m.isLocked → ∀ i < m.addrs.length, access i = some m.lockedStatus
  free : m.isLocked = 0 → ∀ i < m.addrs.length, access i = none ∨ access i = some .unaccess

namespace AppShm

/-- **The condition on a run.**  No pass is torn; an unlock is of the last lock; and where
the daemon refuses it, all segments can be switched back. -/
def Untorn (s : AppShm) : AppCall → Prop
  | .readLock name o => ∀ m, s.metas name = some m → m.NotTorn .read o.switch
  | .writeLock name o => ∀ m, s.metas name = some m → m.NotTorn .readWrite o.switch
  | .unLock name o => ∀ m, s.metas name = some m →
    m.isLocked ≤ 1 ∧ m.NotTorn .unaccess o.switch ∧
      (o.daemon ≠ ubsmOk → m.AllSwitch m.lockedStatus o.undo)

/-- Every mapped object is coherent. -/
def Inv (s : AppShm) : Prop := ∀ name m, s.metas name = some m → Coherent m (s.access name)

variable {s : AppShm} {name : Name} {m : ShmAppMetaData} {access : SegmentAccess} {o : LockReplies}

theorem Inv.put (h : Inv s) {m' : ShmAppMetaData} (hm' : Coherent m' access) :
    Inv ⟨update s.metas name (some m'), update s.access name access⟩ := by
  intro x n hx
  dsimp only at hx ⊢
  by_cases hxn : x = name
  · subst hxn
    rw [update_self] at hx ⊢
    obtain rfl := some.inj hx
    exact hm'
  · rw [update_of_ne hxn] at hx ⊢
    exact h x n hx

theorem Inv.setAccess (h : Inv s) (hm : s.metas name = some m) (hcoherent : Coherent m access) :
    Inv (s.setAccess name access) := by
  intro x n hx
  by_cases hxn : x = name
  · subst hxn
    obtain rfl := some.inj (hm.symm.trans hx)
    simpa [AppShm.setAccess] using hcoherent
  · simpa [AppShm.setAccess, hxn] using h x n hx

theorem setAccess_setAccess (s : AppShm) (name : Name) (a b : SegmentAccess) :
    (s.setAccess name a).setAccess name b = s.setAccess name b := by
  simp [AppShm.setAccess]

theorem updateMetaData_ok (hm : s.metas name = some m) (access : SegmentAccess)
    (m' : ShmAppMetaData) :
    (s.setAccess name access).updateMetaData name m' =
      (ubsmOk, ⟨update s.metas name (some m'), update s.access name access⟩) := by
  unfold updateMetaData AppShm.setAccess
  rw [updateMeta_of_some hm]

theorem Inv.lockWith (h : Inv s) {status : ShmOwnStatus}
    (hwhole : ∀ m, s.metas name = some m → m.NotTorn status o.switch) :
    Inv (s.lockWith status name o).2 := by
  unfold AppShm.lockWith
  split
  · exact h
  · next m hm =>
    have hcoherent := h name m hm
    split
    · exact h
    · by_cases hdaemon : o.daemon = ubsmOk
      · rw [if_neg (not_not.mpr hdaemon)]
        rcases hcoherent.mapped.setAll_cases (hwhole m hm) (s.access name) with
          ⟨-, heq⟩ | ⟨err, herr, heq⟩
        · rw [heq]
          dsimp only
          rw [updateMetaData_ok hm]
          refine h.put ⟨?_, ?_, ?_, ?_⟩
          · exact { hcoherent.mapped with }
          · have hcount := hcoherent.count
            show 0 ≤ m.isLocked + 1
            omega
          · exact fun _ i hi => if_pos hi
          · intro hzero
            have hcount := hcoherent.count
            have hzero : m.isLocked + 1 = 0 := hzero
            omega
        · rw [heq]
          rw [if_pos herr]
          exact h.setAccess hm hcoherent
      · rw [if_pos hdaemon]
        exact h

theorem Inv.unLock (h : Inv s) (hwhole : s.Untorn (.unLock name o)) : Inv (s.unLock name o).2 := by
  unfold AppShm.unLock
  split
  · exact h
  · next m hm =>
    have hcoherent := h name m hm
    obtain ⟨hlast, hpass, hundo⟩ := hwhole m hm
    split
    · exact h
    · by_cases hheld : m.isLocked ≤ 0
      · rw [if_pos hheld]
        exact h
      · rw [if_neg hheld]
        rcases hcoherent.mapped.setAll_cases hpass (s.access name) with
          ⟨hfits, heq⟩ | ⟨err, herr, heq⟩
        · rw [heq]
          dsimp only
          by_cases hdaemon : o.daemon = ubsmOk
          · rw [if_neg (not_not.mpr hdaemon), updateMetaData_ok hm]
            refine h.put ⟨?_, ?_, ?_, ?_⟩
            · exact { hcoherent.mapped with }
            · show 0 ≤ m.isLocked - 1
              omega
            · intro hpos
              have hpos : 0 < m.isLocked - 1 := hpos
              omega
            · exact fun _ i hi => .inr (if_pos hi)
          · -- The daemon keeps the lock, and all segments are switched back.
            rw [if_pos hdaemon, hcoherent.mapped.setAll_ok hfits (hundo hdaemon),
              setAccess_setAccess]
            refine h.setAccess hm ⟨hcoherent.mapped, hcoherent.count, fun _ i hi => if_pos hi, ?_⟩
            omega
        · rw [heq]
          rw [if_pos herr]
          exact h.setAccess hm hcoherent

theorem Inv.step (h : Inv s) {c : AppCall} (hwhole : s.Untorn c) {s' : AppShm}
    (hstep : s.step c = some s') : Inv s' := by
  cases c with
  | readLock name o =>
    obtain rfl := some.inj hstep
    exact h.lockWith hwhole
  | writeLock name o =>
    obtain rfl := some.inj hstep
    exact h.lockWith hwhole
  | unLock name o =>
    obtain rfl := some.inj hstep
    exact h.unLock hwhole

/-- The objects are as `UbsMemShmMmap` has left them. -/
def JustMapped (s : AppShm) : Prop :=
  ∀ name m, s.metas name = some m →
    (∀ i, s.access name i = none) ∧
      ∃ addr mapSize unitSize fds flag, 0 < unitSize ∧ mapSize < 2 ^ 64 ∧
        fds.length = mmapCount mapSize unitSize ∧
        m = shmMmap name addr mapSize unitSize fds flag

theorem JustMapped.inv (h : JustMapped s) : Inv s := by
  intro name m hm
  obtain ⟨hnone, addr, mapSize, unitSize, fds, flag, hunit, hsize, hfds, rfl⟩ := h name m hm
  refine ⟨ShmAppMetaData.mapped_shmMmap name addr flag hunit hsize hfds, Int.le_refl 0, ?_, ?_⟩
  · exact fun hpos => absurd hpos (by simp [shmMmap])
  · exact fun _ i _ => .inl (hnone i)

end AppShm

/-- **Access follows the lock.**  In every run of lock and unlock calls on mapped objects
whose calls meet the condition, with any replies of the daemon: when a call returns, an
object with locks has every segment switched to the rights of its last lock, and an object
without has no segment switched to anything but no access. -/
theorem access_follows_lock {s₀ s : AppShm} (hmapped : s₀.JustMapped)
    (hrun : Reaches AppShm.step AppShm.Untorn s₀ s) {name : Name} {m : ShmAppMetaData}
    (hm : s.metas name = some m) :
    (0 < m.isLocked → ∀ i < m.addrs.length, s.access name i = some m.lockedStatus) ∧
      (m.isLocked = 0 →
        ∀ i < m.addrs.length, s.access name i = none ∨ s.access name i = some .unaccess) := by
  have hinv : s.Inv := hrun.invariant hmapped.inv fun _ _ _ h hwhole hstep => h.step hwhole hstep
  have hcoherent := hinv name m hm
  exact ⟨hcoherent.locked, hcoherent.free⟩

/-- An object of two segments, mapped with the lock flag. -/
def twoSegments : AppShm :=
  ⟨fun name => if name = [97] then some (shmMmap [97] 0 8 4 [5, 6] 1) else none, fun _ _ => none⟩

theorem justMapped_twoSegments : twoSegments.JustMapped := by
  intro name m hm
  refine ⟨fun _ => rfl, 0, 8, 4, [5, 6], 1, by decide, by decide, by decide, ?_⟩
  by_cases hname : name = [97]
  · subst hname
    exact (some.inj hm).symm
  · exact absurd hm (by simp [twoSegments, hname])

/-- The daemon and the library grant everything. -/
def grantAll : LockReplies := ⟨0, fun _ => 0, fun _ => 0⟩

/-- The object after a read lock. -/
def lockedOnce : AppShm := (twoSegments.readLock [97] grantAll).2

/-- The lock is returned. -/
def returned : AppShm := (lockedOnce.unLock [97] grantAll).2

theorem access_follows_lock_once :
    (∃ m, lockedOnce.metas [97] = some m ∧ 0 < m.isLocked ∧
      ∀ i < m.addrs.length, lockedOnce.access [97] i = some m.lockedStatus) ∧
    ∃ m, returned.metas [97] = some m ∧ m.isLocked = 0 ∧
      ∀ i < m.addrs.length, returned.access [97] i = none ∨
        returned.access [97] i = some .unaccess := by
  have hlock : Reaches AppShm.step AppShm.Untorn twoSegments lockedOnce :=
    .next (e := .readLock [97] grantAll) .refl (fun _ _ => .inl fun _ _ => rfl) rfl
  have hreturn : Reaches AppShm.step AppShm.Untorn twoSegments returned := by
    refine .next (e := .unLock [97] grantAll) hlock (fun m hm => ?_) rfl
    obtain rfl : ShmAppMetaData.mk .. = m := some.inj hm
    exact ⟨by decide, .inl fun _ _ => rfl, fun hne => absurd rfl hne⟩
  exact ⟨⟨_, rfl, by decide, (access_follows_lock justMapped_twoSegments hlock rfl).1 (by decide)⟩,
    _, rfl, by decide, (access_follows_lock justMapped_twoSegments hreturn rfl).2 (by decide)⟩

/-- The switch of the second segment fails. -/
def secondFails : LockReplies := ⟨0, fun c => if c.fd = 6 then 1 else 0, fun _ => 0⟩

/-- **Access and lock fall apart.**  A read lock that fails at the second segment leaves the
first readable without any lock; and of two read locks the return of one leaves the process
with a lock and no access. -/
theorem access_incoherent :
    twoSegments.JustMapped ∧
      (twoSegments.readLock [97] secondFails).1 ≠ ubsmOk ∧
      (((twoSegments.readLock [97] secondFails).2.metas [97]).map (·.isLocked) = some 0 ∧
        (twoSegments.readLock [97] secondFails).2.access [97] 0 = some .read) ∧
      ((((lockedOnce.readLock [97] grantAll).2.unLock [97] grantAll).2.metas [97]).map
          (fun m => (m.isLocked, m.lockedStatus)) = some (1, .read) ∧
        ((lockedOnce.readLock [97] grantAll).2.unLock [97] grantAll).2.access [97] 0 =
          some .unaccess) :=
  ⟨justMapped_twoSegments, by decide, by decide, by decide⟩

end UbsMem
