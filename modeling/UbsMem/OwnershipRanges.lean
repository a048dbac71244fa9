import Mathlib.Data.Nat.Basic
import UbsMem.AppLocks

/-! # Ranges of ownership switches

Access to a range of a mapped object is switched segment by segment: the first call ends
with its segment, the next ones take whole segments, and the last one ends with the range.
`GetSegmentsAndFirstUsage` computes the segments of a range and how much of the first one it
uses; the lock functions take all segments, and the first one as used in full.

If no switch fails, the calls for an accepted range tile it, each within the segment of its
file descriptor (`switches_tile_range`).  The lock functions are right only for an object that
fills its first segment: an object smaller than a unit has a single segment, which is short,
and the length check of `UbsMemShmSetOwnerShipOpt` refuses its whole range
(`lock_refuses_short_object`).
-/
namespace UbsMem

def fourKb : Nat := 4096

namespace ShmAppMetaData

/-! ### The calls -/

/-- `GetSegmentsAndFirstUsage`: the used part of the first segment, and the segments.
Addresses have 64 bits, and the used part is computed modulo that. -/
def getSegmentsAndFirstUsage (m : ShmAppMetaData) (checkAddr checkLen : Nat) :
    Except Int (Nat × List Nat) :=
  if checkAddr = 0 ∨ checkLen = 0 then .error mxmErrParamInvalid
  else if checkAddr < m.addr then .error mxmErrParamInvalid
  else if (checkAddr - m.addr) % fourKb ≠ 0 then .error mxmErrParamInvalid
  else if 2 ^ 64 - 1 - checkAddr < checkLen then .error mxmErrParamInvalid
  else
    let queryEnd := checkAddr + checkLen
    if queryEnd < checkAddr then .error mxmErrParamInvalid
    else if 2 ^ 64 - 1 - m.addr < m.mapSize ∨ m.addr + m.mapSize < queryEnd then
      .error mxmErrParamInvalid
    else if m.unitSize = 0 then .error mxmErrParamInvalid
    else
      let startIdx := (checkAddr - m.addr) / m.unitSize
      let endIdx := (queryEnd - 1 - m.addr) / m.unitSize
      -- the indices are signed: one of 2^63 or more is negative
      if 2 ^ 63 ≤ startIdx ∨ 2 ^ 63 ≤ endIdx ∨ endIdx < startIdx ∨ m.addrs.length ≤ endIdx then
        .error mxmErrParamInvalid
      else
        let usedFirst :=
          (m.unitSize + (m.addrs.getD startIdx (0, 0)).1 + (2 ^ 64 - checkAddr)) % 2 ^ 64
        .ok (if startIdx = endIdx then checkLen else usedFirst,
          List.range' startIdx (endIdx + 1 - startIdx))

end ShmAppMetaData

/-! ### Tilings -/

/-- The ranges of the calls follow each other from `lo` to `hi`, and none is empty. -/
def Tiles : Nat → List SwitchCall → Nat → Prop
  | lo, [], hi => lo = hi
  | lo, c :: cs, hi => c.startAddr = lo ∧ c.startAddr < c.endAddr ∧ Tiles c.endAddr cs hi

/-- The range of a call lies inside the segment of its file descriptor. -/
def ShmAppMetaData.InSegment (m : ShmAppMetaData) (c : SwitchCall) : Prop :=
  ∃ i : Nat, ∃ start length, m.fds[i]? = some c.fd ∧ m.addrs[i]? = some (start, length) ∧
    start ≤ c.startAddr ∧ c.endAddr ≤ start + length

/-- A pass of `UbsMemShmSetOwnerShipOpt` over a range that switches exactly the range. -/
structure SwitchesRange (m : ShmAppMetaData) (start length usedFirst : Nat) (indices : List Nat)
    (status : ShmOwnStatus) (obmm : SwitchCall → Int) (access : SegmentAccess) : Prop where
  code : (m.setOwnerShipOpt start length status usedFirst indices obmm access).1 = ubsmOk
  tiles : Tiles start (m.setOwnerShipOpt start length status usedFirst indices obmm access).2.1
    (start + length)
  inside : ∀ c ∈ (m.setOwnerShipOpt start length status usedFirst indices obmm access).2.1,
    m.InSegment c

/-- None of the switches of the pass fails. -/
def NoneFails (m : ShmAppMetaData) (start length usedFirst : Nat) (indices : List Nat)
    (status : ShmOwnStatus) (obmm : SwitchCall → Int) (access : SegmentAccess) : Prop :=
  ∀ c ∈ (m.setOwnerShipOpt start length status usedFirst indices obmm access).2.1, obmm c = ubsmOk

namespace ShmAppMetaData

/-! ### A pass over a range -/

/-- The range of `length` bytes at offset `a` lies in the `n` segments from `first` on, and
its part in the first one has `usedFirst` bytes. -/
structure Spans (m : ShmAppMetaData) (a length usedFirst first n : Nat) : Prop where
  unit_pos : 0 < m.unitSize
  length_pos : 0 < length
  size_lt : m.mapSize < 2 ^ 64
  count_pos : 0 < n
  first_le : first * m.unitSize ≤ a
  lt_first : a < (first + 1) * m.unitSize
  lt_last : (first + n) * m.unitSize < a + length + m.unitSize
  le_last : a + length ≤ (first + n) * m.unitSize
  used : a + usedFirst = min (a + length) ((first + 1) * m.unitSize)
  inside : a + length ≤ m.mapSize

/-- Where the `i`-th call of the pass begins, and the one before it ends. -/
def cut (m : ShmAppMetaData) (a length first i : Nat) : Nat :=
  min (a + length) (max a ((first + i) * m.unitSize))

variable {m : ShmAppMetaData} {a length usedFirst first n : Nat}

section

variable (h : m.Spans a length usedFirst first n)

include h

theorem Spans.cut_zero : m.cut a length first 0 = a := by
  have hfirst := h.first_le
  unfold cut
  rw [Nat.add_zero]
  omega

theorem Spans.cut_last : m.cut a length first n = a + length := by
  have hlast := h.le_last
  unfold cut
  omega

/-- The unit that the `i`-th call works on, relative to the range. -/
theorem Spans.unit {i : Nat} (hi : i < n) : (first + i) * m.unitSize < a + length ∧
      (first + (i + 1)) * m.unitSize = (first + i) * m.unitSize + m.unitSize ∧
      a < (first + (i + 1)) * m.unitSize := by
  have hsucc : (first + (i + 1)) * m.unitSize = (first + i) * m.unitSize + m.unitSize := by
    rw [← Nat.add_assoc, Nat.succ_mul]
  have hle : (first + (i + 1)) * m.unitSize ≤ (first + n) * m.unitSize :=
    Nat.mul_le_mul_right _ (by omega)
  have hfirst : (first + 1) * m.unitSize ≤ (first + (i + 1)) * m.unitSize :=
    Nat.mul_le_mul_right _ (by omega)
  have hlast := h.lt_last
  have hlt := h.lt_first
  exact ⟨by omega, hsucc, by omega⟩

theorem Spans.cut_lt {i : Nat} (hi : i < n) :
    m.cut a length first i < m.cut a length first (i + 1) := by
  obtain ⟨hlt, hsucc, hafter⟩ := h.unit hi
  have hunit := h.unit_pos
  have hpos := h.length_pos
  unfold cut
  omega

end

/-- The segments begin a unit apart. -/
def LaidOut (m : ShmAppMetaData) : Prop :=
  ∀ i < m.addrs.length, (m.addrs.getD i (0, 0)).1 = m.addr + i * m.unitSize

section

variable (h : m.Spans a length usedFirst first n)

include h

theorem Spans.offset {i : Nat} (hi : i + 1 < n) :
    switchOffset first (i + 1) (first + (i + 1)) * m.unitSize + usedFirst =
      (first + (i + 1)) * m.unitSize - a := by
  obtain ⟨hlt, -, hafter⟩ := h.unit hi
  have hused := h.used
  have hoffset : switchOffset first (i + 1) (first + (i + 1)) = i := by
    unfold switchOffset
    rw [if_neg (Nat.succ_ne_zero i)]
    omega
  have hsum : (first + (i + 1)) * m.unitSize = i * m.unitSize + (first + 1) * m.unitSize := by
    rw [← Nat.add_mul]
    congr 1
    omega
  rw [hoffset]
  omega

theorem Spans.rangeInvalid {i : Nat} (hi : i < n) :
    m.rangeInvalid length usedFirst first i (first + i) = false := by
  have hunit := h.unit_pos
  have hsize := h.size_lt
  have hinside := h.inside
  have hused := h.used
  have hsum : switchOffset first i (first + i) * m.unitSize + usedFirst ≤ length := by
    cases i with
    | zero =>
      have hzero : switchOffset first 0 (first + 0) = 0 := rfl
      rw [hzero, Nat.zero_mul]
      omega
    | succ i =>
      obtain ⟨hlt, -, -⟩ := h.unit hi
      rw [h.offset hi]
      omega
  have hquot : switchOffset first i (first + i) ≤ (2 ^ 64 - 1) / m.unitSize := by
    rw [Nat.le_div_iff_mul_le hunit]
    omega
  have hmod : (switchOffset first i (first + i) * m.unitSize + usedFirst) % 2 ^ 64 =
      switchOffset first i (first + i) * m.unitSize + usedFirst := Nat.mod_eq_of_lt (by omega)
  simp only [ShmAppMetaData.rangeInvalid, Bool.or_eq_false_iff, decide_eq_false_iff_not]
  omega

section

variable (hlaid : m.LaidOut) (hcount : first + n ≤ m.addrs.length) (status : ShmOwnStatus)

include hlaid hcount

/-- The `i`-th call takes the range from its cut to the next one. -/
theorem Spans.switchCall {i : Nat} (hi : i < n) :
    m.switchCall (m.addr + a) length usedFirst status first i (first + i) =
      ⟨m.fds.getD (first + i) (-1), m.addr + m.cut a length first i,
        m.addr + m.cut a length first (i + 1), status.prot⟩ := by
  obtain ⟨hlt, hsucc, hafter⟩ := h.unit hi
  have hused := h.used
  cases i with
  | zero =>
    have hend : a + usedFirst = m.cut a length first (0 + 1) := by
      rw [hused]
      unfold cut
      rw [Nat.zero_add, Nat.max_eq_right (Nat.le_of_lt h.lt_first)]
    rw [h.cut_zero, ← hend, ← Nat.add_assoc]
    rfl
  | succ i =>
    have hstart := hlaid (first + (i + 1)) (by omega)
    have hoffset := h.offset hi
    obtain ⟨-, -, hbefore⟩ := h.unit (Nat.lt_of_succ_lt hi)
    have hthis : m.cut a length first (i + 1) = (first + (i + 1)) * m.unitSize := by
      unfold cut
      omega
    have hlen : min (length - switchOffset first (i + 1) (first + (i + 1)) * m.unitSize - usedFirst)
        m.unitSize = m.cut a length first (i + 1 + 1) - m.cut a length first (i + 1) := by
      unfold cut
      omega
    have hnext := h.cut_lt hi
    unfold ShmAppMetaData.switchCall
    simp only [Nat.succ_ne_zero, if_false, SwitchCall.mk.injEq, true_and, and_true]
    omega

/-! ### The loop -/

/-- What the calls of a pass are, from its `i`-th turn on. -/
theorem Spans.loop {obmm : SwitchCall → Int} (k : Nat) {i : Nat} (hk : i + k = n)
    (access : SegmentAccess)
    (hok : ∀ c ∈ (m.switchLoop (m.addr + a) length usedFirst status obmm first i
      (List.range' (first + i) k) access).2.1, obmm c = ubsmOk) :
    let res := m.switchLoop (m.addr + a) length usedFirst status obmm first i
      (List.range' (first + i) k) access
    res.1 = ubsmOk ∧ Tiles (m.addr + m.cut a length first i) res.2.1 (m.addr + (a + length)) ∧
      ∀ c ∈ res.2.1, ∃ j, first + j < m.addrs.length ∧ j < n ∧
        c = ⟨m.fds.getD (first + j) (-1), m.addr + m.cut a length first j,
          m.addr + m.cut a length first (j + 1), status.prot⟩ := by
  induction k generalizing i access with
  | zero =>
    obtain rfl : i = n := by omega
    refine ⟨rfl, ?_, nofun⟩
    show m.addr + m.cut a length first i = m.addr + (a + length)
    rw [h.cut_last]
  | succ k ih =>
    have hi : i < n := by omega
    have hvalid := h.rangeInvalid hi
    have hcall := h.switchCall hlaid hcount status hi
    rw [List.range'_succ] at hok ⊢
    simp only [switchLoop, hvalid, Bool.false_eq_true, if_false, hcall] at hok ⊢
    -- the call succeeds, whatever follows it
    have hthis : obmm ⟨m.fds.getD (first + i) (-1), m.addr + m.cut a length first i,
        m.addr + m.cut a length first (i + 1), status.prot⟩ = ubsmOk := by
      apply hok
      split_ifs
      · exact List.mem_singleton_self _
      · exact List.mem_cons_self
    rw [if_neg (by rw [hthis]; exact fun hne => hne rfl)] at hok ⊢
    obtain ⟨hcode, htiles, hcalls⟩ := ih (by omega)
      (Function.update access (first + i) (some status))
      fun c hc => hok c (.tail _ hc)
    refine ⟨hcode, ⟨rfl, Nat.add_lt_add_left (h.cut_lt hi) _, htiles⟩, fun c hc => ?_⟩
    rcases List.mem_cons.mp hc with rfl | hc
    · exact ⟨i, by omega, hi, rfl⟩
    · exact hcalls c hc

end

end

end ShmAppMetaData

/-! ### Mapped objects -/

section Mapped

variable {name : Name} {addr mapSize unitSize : Nat} {fds : List Int} {flag : Nat}

theorem length_addrs_shmMmap :
    (shmMmap name addr mapSize unitSize fds flag).addrs.length = fds.length := by
  simp [shmMmap]

theorem laidOut_shmMmap : (shmMmap name addr mapSize unitSize fds flag).LaidOut := by
  intro i hi
  rw [length_addrs_shmMmap] at hi
  simp [shmMmap, hi]

theorem segment_end (hunit : 0 < unitSize) (hfds : fds.length = mmapCount mapSize unitSize)
    {i : Nat} (hi : i < fds.length) :
    ∃ length, (shmMmap name addr mapSize unitSize fds flag).addrs[i]? =
        some (addr + i * unitSize, length) ∧
      i * unitSize + length = min mapSize ((i + 1) * unitSize) := by
  obtain ⟨hcover, hneeded⟩ := ShmAppMetaData.mmapCount_spec mapSize hunit
  rw [← hfds] at hcover hneeded
  have hthis := hneeded i hi
  have hsucc : (i + 1) * unitSize = i * unitSize + unitSize := Nat.succ_mul i unitSize
  refine ⟨if i = fds.length - 1 then mapSize - i * unitSize else unitSize,
    by simp [shmMmap, hi], ?_⟩
  split_ifs with hlast
  · have hcount : fds.length = i + 1 := by omega
    rw [hcount] at hcover
    omega
  · have hnext := hneeded (i + 1) (by omega)
    omega

theorem switchesRange_of_spans (hunit : 0 < unitSize)
    (hfds : fds.length = mmapCount mapSize unitSize) {a length usedFirst first n : Nat}
    (h : (shmMmap name addr mapSize unitSize fds flag).Spans a length usedFirst first n)
    (status : ShmOwnStatus) {obmm : SwitchCall → Int} (access : SegmentAccess)
    (hok : NoneFails (shmMmap name addr mapSize unitSize fds flag) (addr + a) length usedFirst
      (List.range' first n) status obmm access) :
    SwitchesRange (shmMmap name addr mapSize unitSize fds flag) (addr + a) length usedFirst
      (List.range' first n) status obmm access := by
  obtain ⟨hcover, hneeded⟩ := ShmAppMetaData.mmapCount_spec mapSize hunit
  rw [← hfds] at hcover hneeded
  have hinside : a + length ≤ mapSize := h.inside
  have hcount : first + n ≤ (shmMmap name addr mapSize unitSize fds flag).addrs.length := by
    rw [length_addrs_shmMmap]
    have hlast : (first + n) * unitSize < a + length + unitSize := h.lt_last
    by_contra hlt
    have hle : (fds.length + 1) * unitSize ≤ (first + n) * unitSize :=
      Nat.mul_le_mul_right _ (by omega)
    rw [Nat.succ_mul] at hle
    omega
  have hhead : (List.range' first n).headD 0 = first := by
    obtain ⟨k, rfl⟩ := Nat.exists_eq_succ_of_ne_zero (Nat.pos_iff_ne_zero.mp h.count_pos)
    rfl
  unfold NoneFails ShmAppMetaData.setOwnerShipOpt at hok
  rw [hhead] at hok
  obtain ⟨hcode, htiles, hcalls⟩ := h.loop laidOut_shmMmap hcount status n (Nat.zero_add n)
    access hok
  rw [h.cut_zero] at htiles
  constructor <;> unfold ShmAppMetaData.setOwnerShipOpt <;> rw [hhead]
  · exact hcode
  · rw [Nat.add_assoc]
    exact htiles
  · intro c hc
    obtain ⟨j, hj, hjn, rfl⟩ := hcalls c hc
    rw [length_addrs_shmMmap] at hj
    obtain ⟨len, hsegment, hend⟩ :=
      @segment_end name addr mapSize unitSize fds flag hunit hfds (first + j) hj
    obtain ⟨hlt, hsucc, -⟩ := h.unit hjn
    refine ⟨first + j, addr + (first + j) * unitSize, len, ?_, hsegment, ?_, ?_⟩
    · exact (List.getElem?_eq_getElem hj).trans (by simp [shmMmap, hj])
    · refine Nat.add_le_add_left ?_ addr
      have hlt' : (first + j) * unitSize < a + length := hlt
      show (first + j) * unitSize ≤ min (a + length) (max a ((first + j) * unitSize))
      omega
    · show addr + min (a + length) (max a ((first + (j + 1)) * unitSize)) ≤
        addr + (first + j) * unitSize + len
      have hsucc' : (first + (j + 1)) * unitSize = (first + j + 1) * unitSize := by
        rw [Nat.add_assoc]
      have hafter := (h.unit hjn).2.2
      have hafter' : a < (first + (j + 1)) * unitSize := hafter
      omega

/-- What `GetSegmentsAndFirstUsage` accepts and computes. -/
theorem getSegments_ok {m : ShmAppMetaData} {start length usedFirst : Nat} {indices : List Nat}
    (h : m.getSegmentsAndFirstUsage start length = .ok (usedFirst, indices)) :
    length ≠ 0 ∧ m.addr ≤ start ∧ start + length < 2 ^ 64 ∧ start + length ≤ m.addr + m.mapSize ∧
      (start - m.addr) / m.unitSize ≤ (start + length - 1 - m.addr) / m.unitSize ∧
      (start + length - 1 - m.addr) / m.unitSize < m.addrs.length ∧
      usedFirst = (if (start - m.addr) / m.unitSize = (start + length - 1 - m.addr) / m.unitSize
        then length
        else (m.unitSize + (m.addrs.getD ((start - m.addr) / m.unitSize) (0, 0)).1 +
          (2 ^ 64 - start)) % 2 ^ 64) ∧
      indices = List.range' ((start - m.addr) / m.unitSize)
        ((start + length - 1 - m.addr) / m.unitSize + 1 - (start - m.addr) / m.unitSize) := by
  unfold ShmAppMetaData.getSegmentsAndFirstUsage at h
  dsimp only at h
  split at h
  · cases h
  split at h
  · cases h
  split at h
  · cases h
  split at h
  · cases h
  split at h
  · cases h
  split at h
  · cases h
  split at h
  · cases h
  split at h
  · cases h
  cases h
  exact ⟨by omega, by omega, by omega, by omega, by omega, by omega, rfl, rfl⟩

theorem spans_of_getSegments (hunit : 0 < unitSize) (hsize : mapSize < 2 ^ 64)
    {start length usedFirst : Nat} {indices : List Nat}
    (h : (shmMmap name addr mapSize unitSize fds flag).getSegmentsAndFirstUsage start length =
      .ok (usedFirst, indices)) :
    ∃ a first n, start = addr + a ∧ indices = List.range' first n ∧
      (shmMmap name addr mapSize unitSize fds flag).Spans a length usedFirst first n := by
  have haddr : (shmMmap name addr mapSize unitSize fds flag).addr = addr := rfl
  have hmap : (shmMmap name addr mapSize unitSize fds flag).mapSize = mapSize := rfl
  have hunitSize : (shmMmap name addr mapSize unitSize fds flag).unitSize = unitSize := rfl
  have hlaid := @laidOut_shmMmap name addr mapSize unitSize fds flag
  obtain ⟨hlength, hbelow, hwrap, hinside, horder, hindex, hused, rfl⟩ := getSegments_ok h
  obtain ⟨a, rfl⟩ : ∃ a, start = addr + a := ⟨start - addr, by omega⟩
  have hoff : addr + a - addr = a := by omega
  have hlast : addr + a + length - 1 - addr = a + length - 1 := by omega
  rw [haddr, hunitSize, hoff, hlast] at horder hused ⊢
  rw [haddr, hunitSize, hlast] at hindex
  -- the range lies between its first and last unit
  have hfirst := Nat.div_add_mod a unitSize
  have hfirstMod := Nat.mod_lt a hunit
  have hlastDiv := Nat.div_add_mod (a + length - 1) unitSize
  have hlastMod := Nat.mod_lt (a + length - 1) hunit
  rw [Nat.mul_comm] at hfirst hlastDiv
  have hcount : a / unitSize + ((a + length - 1) / unitSize + 1 - a / unitSize) =
      (a + length - 1) / unitSize + 1 := by omega
  have hsucc : ∀ k, (k + 1) * unitSize = k * unitSize + unitSize := fun k => Nat.succ_mul k unitSize
  have hsuccFirst := hsucc (a / unitSize)
  have hsuccLast := hsucc ((a + length - 1) / unitSize)
  refine ⟨a, a / unitSize, _, rfl, rfl, hunit, by omega, hsize, by omega, ?_, ?_, ?_, ?_, ?_, ?_⟩
  · rw [hunitSize]
    omega
  · rw [hunitSize]
    omega
  · rw [hunitSize, hcount]
    omega
  · rw [hunitSize, hcount]
    omega
  · rw [hunitSize]
    subst hused
    split_ifs with heq
    · rw [heq]
      omega
    · have hstart := hlaid (a / unitSize) (by omega)
      rw [haddr, hunitSize] at hstart
      have hmore : (a / unitSize + 1) * unitSize ≤ (a + length - 1) / unitSize * unitSize :=
        Nat.mul_le_mul_right _ (by omega)
      omega
  · rw [hmap]
    omega

theorem spans_whole (hunit : 0 < unitSize) (hsize : mapSize < 2 ^ 64)
    (hfds : fds.length = mmapCount mapSize unitSize) (hfits : unitSize ≤ mapSize) :
    (shmMmap name addr mapSize unitSize fds flag).Spans 0 mapSize unitSize 0 fds.length := by
  obtain ⟨hcover, hneeded⟩ := ShmAppMetaData.mmapCount_spec mapSize hunit
  rw [← hfds] at hcover hneeded
  have hpos : 0 < fds.length := by
    by_contra hnone
    have hempty : fds.length = 0 := by omega
    rw [hempty, Nat.zero_mul] at hcover
    omega
  have hlast := hneeded (fds.length - 1) (by omega)
  have hsucc : fds.length * unitSize = (fds.length - 1) * unitSize + unitSize := by
    rw [← Nat.succ_mul]
    congr 1
    omega
  have hunitSize : (shmMmap name addr mapSize unitSize fds flag).unitSize = unitSize := rfl
  refine ⟨hunit, by omega, hsize, hpos, ?_, ?_, ?_, ?_, ?_, ?_⟩
  · exact Nat.le_of_eq (Nat.zero_mul _)
  · rw [hunitSize]
    omega
  · simp only [hunitSize, Nat.zero_add]
    omega
  · simp only [Nat.zero_add]
    exact hcover
  · rw [hunitSize]
    omega
  · exact Nat.le_of_eq (Nat.zero_add _)

/-- **Switches tile the range they are asked for.**  Whatever range `GetSegmentsAndFirstUsage`
accepts, a pass none of whose switches fails succeeds, and its calls tile the range, each inside
the segment of its file descriptor.  For the whole range, as the lock functions ask for it, this
is so exactly if the object fills its first segment. -/
theorem switches_tile_range (hunit : 0 < unitSize) (hsize : mapSize < 2 ^ 64)
    (hfds : fds.length = mmapCount mapSize unitSize) (status : ShmOwnStatus)
    (obmm : SwitchCall → Int) (access : SegmentAccess) :
    let m := shmMmap name addr mapSize unitSize fds flag
    (∀ start length usedFirst indices,
      m.getSegmentsAndFirstUsage start length = .ok (usedFirst, indices) →
      NoneFails m start length usedFirst indices status obmm access →
      SwitchesRange m start length usedFirst indices status obmm access) ∧
    (0 < mapSize →
      ((NoneFails m m.addr m.mapSize m.unitSize (List.range m.addrs.length) status obmm access →
        SwitchesRange m m.addr m.mapSize m.unitSize (List.range m.addrs.length) status obmm
          access) ↔ unitSize ≤ mapSize)) := by
  intro m
  have hcount : m.addrs.length = fds.length := length_addrs_shmMmap
  refine ⟨fun start length usedFirst indices haccepted hok => ?_, fun hpos => ⟨fun hrange => ?_,
    fun hfits hok => ?_⟩⟩
  · obtain ⟨a, first, n, rfl, rfl, hspans⟩ := spans_of_getSegments hunit hsize haccepted
    exact switchesRange_of_spans hunit hfds hspans status access hok
  · -- otherwise no switch is made, and the range is refused
    by_contra hlong
    have hsome : m.addrs.length ≠ 0 := by
      obtain ⟨hcover, -⟩ := ShmAppMetaData.mmapCount_spec mapSize hunit
      intro hnone
      rw [← hfds, ← hcount, hnone, Nat.zero_mul] at hcover
      omega
    have hrefused : m.switchAll status obmm access = (mxmErrParamInvalid, [], access) :=
      ShmAppMetaData.switchAll_of_not_fits (fun hfits => hfits.elim hsome hlong) access
    have hnone : ∀ c ∈ (m.switchAll status obmm access).2.1, obmm c = ubsmOk := by
      rw [hrefused]
      exact fun c hc => absurd hc List.not_mem_nil
    exact mxmErrParamInvalid_ne ((congrArg Prod.fst hrefused).symm.trans (hrange hnone).code)
  · rw [hcount, List.range_eq_range'] at hok ⊢
    exact switchesRange_of_spans hunit hfds (spans_whole hunit hsize hfds hfits) status access hok

end Mapped

/-- Twelve kilobytes in units of eight: two segments, of which the second is short. -/
def unevenObject : ShmAppMetaData := shmMmap [97] 65536 12288 8192 [3, 4] 0

/-- A range that begins in the first segment and ends in the second. -/
theorem switches_tile_range_uneven :
    unevenObject.getSegmentsAndFirstUsage 69632 8000 = .ok (4096, [0, 1]) ∧
      SwitchesRange unevenObject 69632 8000 4096 [0, 1] .read (fun _ => ubsmOk) (fun _ => none) ∧
      SwitchesRange unevenObject 65536 12288 8192 [0, 1] .read (fun _ => ubsmOk)
        (fun _ => none) := by
  have haccepted : unevenObject.getSegmentsAndFirstUsage 69632 8000 = .ok (4096, [0, 1]) := by
    decide
  obtain ⟨haccept, hwhole⟩ := @switches_tile_range [97] 65536 12288 8192 [3, 4] 0 (by decide)
    (by decide) (by decide) .read (fun _ => ubsmOk) (fun _ => none)
  exact ⟨haccepted, haccept _ _ _ _ haccepted fun _ _ => rfl,
    (hwhole (by decide)).mpr (by decide) fun _ _ => rfl⟩

/-- Four kilobytes in units of eight. -/
def shortObject : ShmAppMetaData := shmMmap [97] 65536 4096 8192 [3] 1

/-- **An object smaller than a unit cannot be locked.**  The lock functions ask for the whole
range with the first segment as used in full, which is more than the range, and are refused
before any switch; the same range is accepted from a caller that sets the ownership. -/
theorem lock_refuses_short_object :
    [3].length = mmapCount 4096 8192 ∧
    shortObject.switchAll .read (fun _ => ubsmOk) (fun _ => none) =
      (mxmErrParamInvalid, [], fun _ => none) ∧
    shortObject.getSegmentsAndFirstUsage 65536 4096 = .ok (4096, [0]) ∧
    (shortObject.setOwnerShipOpt 65536 4096 .read 4096 [0] (fun _ => ubsmOk) fun _ => none).2.1 =
      [⟨3, 65536, 69632, 1⟩] :=
  ⟨rfl, rfl, by decide, by decide⟩

end UbsMem
