import Mathlib.Data.Nat.Basic
import Mathlib.Tactic.Common
import Mathlib.Tactic.Push

/-! # Address spaces

The pages of a process, each unmapped or with an owner.  A range of bytes takes up the pages
that hold at least one of its bytes, so a mapping may reach beyond its last byte.  The kernel
places a mapping at a given address, replacing what is there, or only where nothing is mapped.
-/
namespace UbsMem

/-- The pages of a process with their owners. -/
abbrev AddressSpace (O : Type) := Nat → Option O

/-- The page `p` holds a byte of the range of `len` bytes at `addr`. -/
def InPages (page addr len p : Nat) : Prop :=
  0 < len ∧ addr / page ≤ p ∧ p ≤ (addr + len - 1) / page

instance (page addr len p : Nat) : Decidable (InPages page addr len p) :=
  inferInstanceAs (Decidable (_ ∧ _))

variable {addr len p page : Nat}

theorem inPages_iff (hpage : 0 < page) :
    InPages page addr len p ↔ ∃ x, addr ≤ x ∧ x < addr + len ∧ x / page = p := by
  constructor
  · rintro ⟨hlen, hlo, hhi⟩
    -- the first byte of the page, or the first one of the range
    refine ⟨max addr (p * page), le_max_left _ _, ?_, ?_⟩
    · have hlast : p * page ≤ addr + len - 1 := (Nat.le_div_iff_mul_le hpage).mp hhi
      omega
    · rcases le_total addr (p * page) with hle | hle
      · rw [max_eq_right hle, Nat.mul_div_cancel p hpage]
      · rw [max_eq_left hle]
        exact le_antisymm hlo ((Nat.le_div_iff_mul_le hpage).mpr hle)
  · rintro ⟨x, hlo, hhi, rfl⟩
    refine ⟨by omega, Nat.div_le_div_right hlo, Nat.div_le_div_right (by omega)⟩

theorem inPages_of_mem {x : Nat} (hpage : 0 < page) (hlo : addr ≤ x) (hhi : x < addr + len) :
    InPages page addr len (x / page) := (inPages_iff hpage).mpr ⟨x, hlo, hhi, rfl⟩

/-- A page of a part is a page of the whole. -/
theorem InPages.mono {addr' len' : Nat} (hpage : 0 < page) (h : InPages page addr len p)
    (hlo : addr' ≤ addr) (hhi : addr + len ≤ addr' + len') : InPages page addr' len' p := by
  obtain ⟨x, hx, hx', rfl⟩ := (inPages_iff hpage).mp h
  exact inPages_of_mem hpage (Nat.le_trans hlo hx) (Nat.lt_of_lt_of_le hx' hhi)

namespace AddressSpace

variable {O : Type} {page : Nat} {sp sp' : AddressSpace O} {addr len p : Nat} {o o' : O}

/-- The pages of a range get an owner. -/
def map (page : Nat) (sp : AddressSpace O) (addr len : Nat) (owner : Nat → O) : AddressSpace O :=
  fun p => if InPages page addr len p then some (owner p) else sp p

/-- The pages of a range are unmapped. -/
def unmap (page : Nat) (sp : AddressSpace O) (addr len : Nat) : AddressSpace O :=
  fun p => if InPages page addr len p then none else sp p

/-- The pages of a range that have one owner get another one. -/
def handOver [DecidableEq O] (page : Nat) (sp : AddressSpace O) (addr len : Nat) (o o' : O) :
    AddressSpace O :=
  fun p => if InPages page addr len p ∧ sp p = some o then some o' else sp p

/-- Nothing is mapped in a range. -/
def Free (page : Nat) (sp : AddressSpace O) (addr len : Nat) : Prop :=
  ∀ p, InPages page addr len p → sp p = none

/-- `Free`, as a test. -/
def freeTest (page : Nat) (sp : AddressSpace O) (addr len : Nat) : Bool :=
  (List.range' (addr / page) ((addr + len - 1) / page + 1 - addr / page)).all fun p =>
    (sp p).isNone

theorem free_of_freeTest (h : freeTest page sp addr len = true) : Free page sp addr len := by
  rintro p ⟨-, hlo, hhi⟩
  refine Option.isNone_iff_eq_none.mp (List.all_eq_true.mp h p ?_)
  rw [List.mem_range'_1]
  omega

/-- All pages of a range have the same owner. -/
def Owned (page : Nat) (sp : AddressSpace O) (addr len : Nat) (o : O) : Prop :=
  ∀ p, InPages page addr len p → sp p = some o

theorem map_of_mem (owner : Nat → O) (h : InPages page addr len p) :
    map page sp addr len owner p = some (owner p) := if_pos h

theorem map_of_not_mem (owner : Nat → O) (h : ¬InPages page addr len p) :
    map page sp addr len owner p = sp p := if_neg h

theorem unmap_of_not_mem (h : ¬InPages page addr len p) : unmap page sp addr len p = sp p :=
  if_neg h

/-- What is mapped stays mapped, with its owner. -/
def Extends (sp sp' : AddressSpace O) : Prop := ∀ p o, sp p = some o → sp' p = some o

theorem Extends.refl (sp : AddressSpace O) : sp.Extends sp := fun _ _ h => h

theorem Extends.trans {sp₁ sp₂ sp₃ : AddressSpace O} (h : sp₁.Extends sp₂) (h' : sp₂.Extends sp₃) :
    sp₁.Extends sp₃ := fun p o hp => h' p o (h p o hp)

/-- What is free when more is mapped was free before. -/
theorem Extends.free (h : sp.Extends sp') (hfree : Free page sp' addr len) :
    Free page sp addr len := by
  intro p hp
  by_contra hne
  obtain ⟨o, ho⟩ := Option.ne_none_iff_exists'.mp hne
  have hmapped := h p o ho
  rw [hfree p hp] at hmapped
  cases hmapped

/-- A mapping that is placed where nothing is mapped keeps all others. -/
theorem Free.extends_map (hfree : Free page sp addr len) (owner : Nat → O) :
    sp.Extends (map page sp addr len owner) := by
  intro p o h
  rw [map_of_not_mem owner fun hp => by rw [hfree p hp] at h; cases h]
  exact h

/-- Ranges of different owners have no byte in common. -/
theorem Owned.disjoint (hpage : 0 < page) {addr' len' : Nat} (h : Owned page sp addr len o)
    (h' : Owned page sp addr' len' o') (hne : o ≠ o') (hlen : 0 < len) (hlen' : 0 < len') :
    addr + len ≤ addr' ∨ addr' + len' ≤ addr := by
  by_contra hmeet
  -- the later of the two first bytes lies in both ranges
  have hp := inPages_of_mem hpage (le_max_left addr addr')
    (show max addr addr' < addr + len by omega)
  have hp' := inPages_of_mem hpage (le_max_right addr addr')
    (show max addr addr' < addr' + len' by omega)
  exact hne (Option.some.inj ((h _ hp).symm.trans (h' _ hp')))

/-! ### Whose pages change -/

variable {mine : O → Prop}

/-- Only pages of `mine` change. -/
def OnlyChanges (mine : O → Prop) (sp sp' : AddressSpace O) : Prop :=
  ∀ p o, sp p = some o → ¬mine o → sp' p = some o

/-- All that is mapped in a range is of `mine`. -/
def Within (page : Nat) (sp : AddressSpace O) (addr len : Nat) (mine : O → Prop) : Prop :=
  ∀ p, InPages page addr len p → ∀ o, sp p = some o → mine o

theorem OnlyChanges.of_extends (h : sp.Extends sp') : OnlyChanges mine sp sp' :=
  fun p o hp _ => h p o hp

theorem Free.within (h : Free page sp addr len) : Within page sp addr len mine := by
  intro p hp o ho
  rw [h p hp] at ho
  cases ho

theorem Owned.within (h : Owned page sp addr len o) (ho : mine o) :
    Within page sp addr len mine := by
  intro p hp o' ho'
  rw [h p hp] at ho'
  rw [← Option.some.inj ho']
  exact ho

theorem Within.map (h : Within page sp addr len mine) (owner : Nat → O) :
    OnlyChanges mine sp (map page sp addr len owner) := by
  intro p o hp ho
  rw [map_of_not_mem owner fun hin => ho (h p hin o hp)]
  exact hp

theorem Within.unmap (h : Within page sp addr len mine) :
    OnlyChanges mine sp (unmap page sp addr len) := by
  intro p o hp ho
  rw [unmap_of_not_mem fun hin => ho (h p hin o hp)]
  exact hp

end AddressSpace

/-! ### Requests to the kernel -/

/-- Where a mapping may be placed. -/
inductive Placement
  | anywhere
  | fixed
  | noReplace
  deriving DecidableEq

namespace AddressSpace

variable {O : Type} {page addr len : Nat} {sp' sp : AddressSpace O} {r : Int}

/-- What a request for a mapping does: it fails and changes nothing, or it maps the range that it
returns, at the given address or where nothing is mapped. -/
def Mmap (page : Nat) (sp : AddressSpace O) (place : Placement) (addr len : Nat) (owner : Nat → O) :
    Option Nat → AddressSpace O → Prop
  | none, sp' => sp' = sp
  | some a, sp' => sp' = map page sp a len owner ∧
      if place = .fixed then a = addr else Free page sp a len

/-- A mapping that replaces nothing keeps what is mapped. -/
theorem Mmap.extends {place : Placement} {owner : Nat → O} {r : Option Nat}
    (h : Mmap page sp place addr len owner r sp') (hplace : place ≠ .fixed) : sp.Extends sp' := by
  cases r with
  | none =>
    obtain rfl : sp' = sp := h
    exact .refl sp'
  | some a =>
    obtain ⟨rfl, hfree⟩ := h
    rw [if_neg hplace] at hfree
    exact hfree.extends_map owner

/-- What an unmapping does: it unmaps the range, or fails and changes nothing. -/
def Munmap (page : Nat) (sp : AddressSpace O) (addr len : Nat) (r : Int) (sp' : AddressSpace O) :
    Prop :=
  sp' = if r = 0 then unmap page sp addr len else sp

theorem Munmap.keeps {p : Nat} (h : Munmap page sp addr len r sp') (hp : ¬InPages page addr len p) :
    sp' p = sp p := by
  rw [show sp' = _ from h]
  split_ifs
  · exact unmap_of_not_mem hp
  · rfl

theorem Munmap.onlyChanges {mine : O → Prop} (h : Munmap page sp addr len r sp')
    (hmine : Within page sp addr len mine) : OnlyChanges mine sp sp' := by
  rw [show sp' = _ from h]
  split_ifs
  · exact hmine.unmap
  · exact .of_extends (.refl sp)

end AddressSpace
end UbsMem
