import UbsMem.AppLocks
import UbsMem.IntervalMap
import UbsMem.SuspendClients

/-! # The tables of mapped objects in an application

`ShmMetaDataMgr` keeps three tables of the objects that a process has mapped: from the name to
the metadata, from the address to the name, and the ranges of the mappings.  They agree when
each name leads to an address that leads back, and the ranges are those of the names and
disjoint (`Agrees`).  The methods keep the agreement when a name is added once, with a range that
is clear of the others, and removed with the address that it has.
-/
namespace UbsMem

open Function Option

def mxmErrNullptr : Int := 101

theorem mxmErrNullptr_ne : mxmErrNullptr ≠ ubsmOk := by decide

theorem mxmErrMemlib_ne : mxmErrMemlib ≠ ubsmOk := by decide

/-- The tables of `ShmMetaDataMgr`: `mAppShmInfoMap`, `mAddr2NameMap` and
`mMappedMemoryAddress`. -/
structure ShmMetaDataMgr where
  metas : Name → Option ShmAppMetaData
  addrNames : Nat → Option Name
  vmas : List (Nat × Nat)

namespace ShmMetaDataMgr

/-! ### Methods -/

/-- No object is mapped. -/
def empty : ShmMetaDataMgr := ⟨fun _ => none, fun _ => none, []⟩

/-- `GetAddr`: the null pointer for a name that is not mapped. -/
def getAddr (name : Name) (m : ShmMetaDataMgr) : Nat :=
  match m.metas name with
  | none => 0
  | some d => d.addr

def getNameByAddr (start : Nat) (m : ShmMetaDataMgr) : Except Int Name :=
  if start = 0 then .error mxmErrParamInvalid
  else
    match m.addrNames start with
    | none => .error mxmErrShmNotFound
    | some name => .ok name

def getShmMetaFromName (name : Name) (m : ShmMetaDataMgr) : Except Int ShmAppMetaData :=
  match m.metas name with
  | none => .error mxmErrShmNotFound
  | some d => .ok d

theorem metas_of_getShmMetaFromName {name : Name} {m : ShmMetaDataMgr} {d : ShmAppMetaData}
    (h : m.getShmMetaFromName name = .ok d) : m.metas name = some d := by
  unfold getShmMetaFromName at h
  split at h
  · cases h
  · next found =>
    rw [found]
    exact congrArg some (Except.ok.inj h)

def hasOverlapWithKnownVmas (start stop : Nat) (m : ShmMetaDataMgr) : Bool :=
  meetsNeighbour m.vmas start stop

def addMappedMemoryRange (start length : Nat) (m : ShmMetaDataMgr) : Int × ShmMetaDataMgr :=
  if length = 0 then (mxmErrParamInvalid, m)
  else if length > 2 ^ 64 - 1 - start then (mxmErrParamInvalid, m)
  else (ubsmOk, { m with vmas := putInterval (start, start + length) m.vmas })

def removeMappedMemoryRange (start : Nat) (m : ShmMetaDataMgr) : Int × ShmMetaDataMgr :=
  if m.vmas.any fun v => v.1 = start then (ubsmOk, { m with vmas := eraseInterval start m.vmas })
  else (mxmErrShmNotFound, m)

def removeMetaData (start : Nat) (name : Name) (m : ShmMetaDataMgr) : Int × ShmMetaDataMgr :=
  if start = 0 then (mxmErrNullptr, m)
  else if name = [] then (mxmErrParamInvalid, m)
  else
    match m.metas name with
    | none => (mxmErrMemlib, m)
    | some _ =>
      let res := m.removeMappedMemoryRange start
      if res.1 ≠ ubsmOk then res
      else (ubsmOk, { res.2 with
        metas := update res.2.metas name none
        addrNames := update res.2.addrNames start none })

def addMetaData (name : Name) (addr : Nat) (d : ShmAppMetaData) (m : ShmMetaDataMgr) :
    Int × ShmMetaDataMgr :=
  if addr = 0 then (mxmErrNullptr, m)
  else
    let res := m.addMappedMemoryRange addr d.mapSize
    if res.1 ≠ ubsmOk then res
    else (ubsmOk, { res.2 with
      metas := update res.2.metas name (some d)
      addrNames := update res.2.addrNames addr (some name) })

def updateMetaData (name : Name) (d : ShmAppMetaData) (m : ShmMetaDataMgr) : Int × ShmMetaDataMgr :=
  let res := updateMeta name d m.metas
  (res.1, { m with metas := res.2 })

/-! ### What the methods do -/

variable {m : ShmMetaDataMgr} {name : Name} {addr : Nat} {d d' : ShmAppMetaData}

theorem addMetaData_cases (name : Name) (addr : Nat) (d : ShmAppMetaData) (m : ShmMetaDataMgr) :
    (m.addMetaData name addr d).1 ≠ ubsmOk ∧ (m.addMetaData name addr d).2 = m ∨
      m.addMetaData name addr d = (ubsmOk,
        ⟨update m.metas name (some d), update m.addrNames addr (some name),
          putInterval (addr, addr + d.mapSize) m.vmas⟩) ∧ 0 < d.mapSize := by
  unfold addMetaData addMappedMemoryRange
  by_cases hnull : addr = 0
  · rw [if_pos hnull]
    exact .inl ⟨mxmErrNullptr_ne, rfl⟩
  rw [if_neg hnull]
  by_cases hsize : d.mapSize = 0
  · simp only [hsize]
    exact .inl ⟨mxmErrParamInvalid_ne, rfl⟩
  by_cases hlong : d.mapSize > 2 ^ 64 - 1 - addr
  · rw [if_neg hsize, if_pos hlong]
    exact .inl ⟨mxmErrParamInvalid_ne, rfl⟩
  · rw [if_neg hsize, if_neg hlong]
    exact .inr ⟨rfl, Nat.pos_of_ne_zero hsize⟩

/-- A name is removed with the range and the name at the address, or nothing changes. -/
theorem removeMetaData_cases (start : Nat) (name : Name) (m : ShmMetaDataMgr) :
    (m.removeMetaData start name).1 ≠ ubsmOk ∧ (m.removeMetaData start name).2 = m ∨
      m.removeMetaData start name = (ubsmOk,
        ⟨update m.metas name none, update m.addrNames start none,
          eraseInterval start m.vmas⟩) := by
  unfold removeMetaData removeMappedMemoryRange
  by_cases hnull : start = 0
  · rw [if_pos hnull]
    exact .inl ⟨mxmErrNullptr_ne, rfl⟩
  rw [if_neg hnull]
  by_cases hname : name = []
  · rw [if_pos hname]
    exact .inl ⟨mxmErrParamInvalid_ne, rfl⟩
  rw [if_neg hname]
  cases m.metas name with
  | none => exact .inl ⟨mxmErrMemlib_ne, rfl⟩
  | some d =>
    by_cases hrange : (m.vmas.any fun v => v.1 = start) = true
    · simp only [hrange]
      exact .inr rfl
    · simp only [hrange]
      exact .inl ⟨mxmErrShmNotFound_ne, rfl⟩

/-! ### Agreement -/

/-- **The three tables agree.** -/
structure Agrees (m : ShmMetaDataMgr) : Prop where
  addr : ∀ name d, m.metas name = some d → m.addrNames d.addr = some name
  name : ∀ addr name, m.addrNames addr = some name → ∃ d, m.metas name = some d ∧ d.addr = addr
  ranges : ∀ v, v ∈ m.vmas ↔ ∃ name d, m.metas name = some d ∧ v = (d.addr, d.addr + d.mapSize)
  apart : Apart m.vmas
  nonEmpty : NonEmpty m.vmas

theorem agrees_empty : empty.Agrees where
  addr _ _ h := by cases h
  name _ _ h := by cases h
  ranges v := ⟨nofun, fun ⟨_, _, h, _⟩ => (by cases h)⟩
  apart := List.Pairwise.nil
  nonEmpty _ h := by cases h

section

variable (h : m.Agrees)

include h

theorem Agrees.addr_inj {name' : Name} (hd : m.metas name = some d) (hd' : m.metas name' = some d')
    (haddr : d.addr = d'.addr) : name = name' := by
  have hname := h.addr name d hd
  rw [haddr, h.addr name' d' hd'] at hname
  exact (some.inj hname).symm

theorem Agrees.disjoint {name' : Name} (hd : m.metas name = some d) (hd' : m.metas name' = some d')
    (hne : name ≠ name') : d.addr + d.mapSize ≤ d'.addr ∨ d'.addr + d'.mapSize ≤ d.addr := by
  have hv := (h.ranges _).mpr ⟨name, d, hd, rfl⟩
  have hv' := (h.ranges _).mpr ⟨name', d', hd', rfl⟩
  have hdiff : ((d.addr, d.addr + d.mapSize) : Nat × Nat) ≠ (d'.addr, d'.addr + d'.mapSize) :=
    fun heq => hne (h.addr_inj hd hd' (Prod.mk.inj heq).1)
  -- one of two intervals of the list stands before the other
  have hor : m.vmas.Pairwise fun v w => v.2 ≤ w.1 ∨ w.2 ≤ v.1 := h.apart.imp fun h => .inl h
  have : Std.Symm fun v w : Nat × Nat => v.2 ≤ w.1 ∨ w.2 ≤ v.1 := ⟨fun _ _ => Or.symm⟩
  exact hor.forall hv hv' hdiff

/-- **The overlap test is right** where the tables agree. -/
theorem Agrees.hasOverlap_iff {start stop : Nat} :
    m.hasOverlapWithKnownVmas start stop = true ↔ ∃ name d, m.metas name = some d ∧
      start < d.addr + d.mapSize ∧ d.addr < stop := by
  unfold hasOverlapWithKnownVmas
  rw [meetsNeighbour_iff h.apart h.nonEmpty]
  constructor
  · rintro ⟨v, hv, hmeet⟩
    obtain ⟨name, d, hd, rfl⟩ := (h.ranges v).mp hv
    exact ⟨name, d, hd, hmeet⟩
  · rintro ⟨name, d, hd, hmeet⟩
    exact ⟨_, (h.ranges _).mpr ⟨name, d, hd, rfl⟩, hmeet⟩

theorem Agrees.add (hnew : m.metas name = none) (hd : d.addr = addr)
    (hclear : ∀ name' d', m.metas name' = some d' → 0 < d.mapSize →
      addr + d.mapSize ≤ d'.addr ∨ d'.addr + d'.mapSize ≤ addr) :
    (m.addMetaData name addr d).2.Agrees := by
  rcases addMetaData_cases name addr d m with ⟨-, heq⟩ | ⟨heq, hsize⟩
  · rw [heq]
    exact h
  rw [heq]
  subst hd
  have hother : ∀ {name' d'}, m.metas name' = some d' → name' ≠ name := by
    rintro name' d' hd' rfl
    rw [hnew] at hd'
    cases hd'
  have hfresh : ∀ {name' d'}, m.metas name' = some d' → d'.addr ≠ d.addr := by
    intro name' d' hd' haddr
    have hrange := h.nonEmpty _ ((h.ranges _).mpr ⟨name', d', hd', rfl⟩)
    have := hclear name' d' hd' hsize
    omega
  refine ⟨fun name' d' hd' => ?_, fun a name' ha => ?_, fun v => ?_, ?_, fun v hv => ?_⟩
  · dsimp only at hd' ⊢
    by_cases hname : name' = name
    · subst hname
      rw [update_self] at hd'
      rw [← some.inj hd', update_self]
    · rw [update_of_ne hname] at hd'
      rw [update_of_ne (hfresh hd')]
      exact h.addr name' d' hd'
  · dsimp only at ha ⊢
    by_cases haddr : a = d.addr
    · subst haddr
      rw [update_self] at ha
      rw [← some.inj ha, update_self]
      exact ⟨d, rfl, rfl⟩
    · rw [update_of_ne haddr] at ha
      obtain ⟨d', hd', hat⟩ := h.name a name' ha
      rw [update_of_ne (hother hd')]
      exact ⟨d', hd', hat⟩
  · dsimp only
    rw [mem_putInterval]
    constructor
    · rintro (rfl | ⟨hv, -⟩)
      · exact ⟨name, d, update_self .., rfl⟩
      · obtain ⟨name', d', hd', rfl⟩ := (h.ranges v).mp hv
        exact ⟨name', d', (update_of_ne (hother hd') ..).trans hd', rfl⟩
    · rintro ⟨name', d', hd', rfl⟩
      by_cases hname : name' = name
      · subst hname
        rw [update_self] at hd'
        rw [← some.inj hd']
        exact .inl rfl
      · rw [update_of_ne hname] at hd'
        exact .inr ⟨(h.ranges _).mpr ⟨name', d', hd', rfl⟩, hfresh hd'⟩
  · refine h.apart.put h.nonEmpty (by dsimp only; omega) fun v hv => ?_
    obtain ⟨name', d', hd', rfl⟩ := (h.ranges v).mp hv
    exact hclear name' d' hd' hsize
  · rcases mem_putInterval.mp hv with rfl | ⟨hv, -⟩
    · dsimp only
      omega
    · exact h.nonEmpty v hv

theorem Agrees.remove (hd : m.metas name = some d) : (m.removeMetaData d.addr name).2.Agrees := by
  rcases removeMetaData_cases d.addr name m with ⟨-, heq⟩ | heq
  · rw [heq]
    exact h
  rw [heq]
  refine ⟨fun name' d' hd' => ?_, fun a name' ha => ?_, fun v => ?_, h.apart.erase _,
    fun v hv => ?_⟩
  · dsimp only at hd' ⊢
    have hname : name' ≠ name := by
      rintro rfl
      rw [update_self] at hd'
      cases hd'
    rw [update_of_ne hname] at hd'
    rw [update_of_ne fun haddr => hname (h.addr_inj hd' hd haddr)]
    exact h.addr name' d' hd'
  · dsimp only at ha ⊢
    have haddr : a ≠ d.addr := by
      rintro rfl
      rw [update_self] at ha
      cases ha
    rw [update_of_ne haddr] at ha
    obtain ⟨d', hd', rfl⟩ := h.name a name' ha
    have hname : name' ≠ name := by
      rintro rfl
      rw [hd] at hd'
      exact haddr (by rw [some.inj hd'])
    rw [update_of_ne hname]
    exact ⟨d', hd', rfl⟩
  · dsimp only
    rw [mem_eraseInterval, h.ranges]
    constructor
    · rintro ⟨⟨name', d', hd', rfl⟩, haddr⟩
      have hname : name' ≠ name := by
        rintro rfl
        rw [hd] at hd'
        exact haddr (by rw [some.inj hd'])
      exact ⟨name', d', (update_of_ne hname ..).trans hd', rfl⟩
    · rintro ⟨name', d', hd', rfl⟩
      have hname : name' ≠ name := by
        rintro rfl
        rw [update_self] at hd'
        cases hd'
      rw [update_of_ne hname] at hd'
      exact ⟨⟨name', d', hd', rfl⟩, fun haddr => hname (h.addr_inj hd' hd haddr)⟩
  · exact h.nonEmpty v (mem_eraseInterval.mp hv).1

theorem Agrees.update (hd : m.metas name = some d) (haddr : d'.addr = d.addr)
    (hsize : d'.mapSize = d.mapSize) :
    { m with metas := Function.update m.metas name (some d') }.Agrees := by
  have hmetas : ∀ name' d₁, Function.update m.metas name (some d') name' = some d₁ →
      ∃ d₀, m.metas name' = some d₀ ∧ d₁.addr = d₀.addr ∧ d₁.mapSize = d₀.mapSize := by
    intro name' d₁ h₁
    by_cases hname : name' = name
    · subst hname
      rw [update_self] at h₁
      cases h₁
      exact ⟨d, hd, haddr, hsize⟩
    · rw [update_of_ne hname] at h₁
      exact ⟨d₁, h₁, rfl, rfl⟩
  have hmetas' : ∀ name' d₀, m.metas name' = some d₀ →
      ∃ d₁, Function.update m.metas name (some d') name' = some d₁ ∧ d₁.addr = d₀.addr ∧
        d₁.mapSize = d₀.mapSize := by
    intro name' d₀ h₀
    by_cases hname : name' = name
    · subst hname
      rw [hd] at h₀
      cases h₀
      exact ⟨d', update_self .., haddr, hsize⟩
    · exact ⟨d₀, (update_of_ne hname ..).trans h₀, rfl, rfl⟩
  refine ⟨fun name' d₁ h₁ => ?_, fun a name' ha => ?_, fun v => ?_, h.apart, h.nonEmpty⟩
  · obtain ⟨d₀, h₀, ha, -⟩ := hmetas name' d₁ h₁
    rw [ha]
    exact h.addr name' d₀ h₀
  · obtain ⟨d₀, h₀, rfl⟩ := h.name a name' ha
    obtain ⟨d₁, h₁, ha', -⟩ := hmetas' name' d₀ h₀
    exact ⟨d₁, h₁, ha'⟩
  · rw [h.ranges]
    constructor
    · rintro ⟨name', d₀, h₀, rfl⟩
      obtain ⟨d₁, h₁, ha, hs⟩ := hmetas' name' d₀ h₀
      exact ⟨name', d₁, h₁, by rw [ha, hs]⟩
    · rintro ⟨name', d₁, h₁, rfl⟩
      obtain ⟨d₀, h₀, ha, hs⟩ := hmetas name' d₁ h₁
      exact ⟨name', d₀, h₀, by rw [ha, hs]⟩

end

end ShmMetaDataMgr
end UbsMem
