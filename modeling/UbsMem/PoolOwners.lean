import UbsMem.IdPool
import Mathlib.Logic.Function.Basic

/-! # Who owns the lines of the pool

A record that has memory ids keeps their number and the first line of their chain; the
lines of the chain are its own.  `PoolInv` says so for any family of records: the
chain of every record in use can be followed from the record, and no line is in two
chains.  `NoLineLost` adds that no line is used without being in a chain.

The records change in four ways: one is taken into use without ids, gets its ids,
is given up, or changes in what does not matter here.
-/
namespace UbsMem

open Function

/-- What the pool has to know about a record. -/
structure Holding where
  live : Bool
  memIdCount : Nat
  memIdBuffer : Nat

/-- The memory ids of a record, as a restart reads them. -/
def fillMemIds (lineCount : Nat) (p : IdPool) (memIdCount memIdBuffer : Nat) :
    Option (List UInt64) :=
  if memIdCount ≠ 0 then fillAllocated lineCount p memIdBuffer else some []

/-- The lines that a record gives back to the pool: none when it has no memory ids or
its chain cannot be followed. -/
def releasedLines (lineCount : Nat) (p : IdPool) (memIdCount memIdBuffer : Nat) : List Nat :=
  if memIdCount = 0 then [] else (walk lineCount p memIdBuffer).getD []

section Owners

variable {O : Type}

/-- **Every record in use owns the chain it points to**: with `lines` the lines of each
record and `ids` its memory ids. -/
structure PoolInv (lineCount : Nat) (p : IdPool) (hold : O → Holding) (lines : O → List Nat)
    (ids : O → List UInt64) : Prop where
  empty : ∀ o, (hold o).live = true → (hold o).memIdCount = 0 → lines o = [] ∧ ids o = []
  chain : ∀ o, (hold o).live = true → (hold o).memIdCount ≠ 0 →
    Chain p (lines o) (ids o) ∧ (hold o).memIdBuffer = (lines o).getD 0 0
  dead : ∀ o, (hold o).live = false → lines o = []
  bound : ∀ o, ∀ l ∈ lines o, l < lineCount
  disjoint : ∀ o o', o ≠ o' → ∀ l ∈ lines o, l ∉ lines o'

/-- Every used line is in a chain. -/
def NoLineLost (lineCount : Nat) (p : IdPool) (lines : O → List Nat) : Prop :=
  ∀ l < lineCount, (p.headOf l).used = true → ∃ o, l ∈ lines o

variable {lineCount : Nat} {p : IdPool} {hold : O → Holding} {lines : O → List Nat}
  {ids : O → List UInt64}

section

variable (h : PoolInv lineCount p hold lines ids) {o : O} {l : Nat} {idle : List Nat}

include h

theorem PoolInv.chain_of_mem (hl : l ∈ lines o) :
    (hold o).live = true ∧ (hold o).memIdCount ≠ 0 ∧ Chain p (lines o) (ids o) := by
  have hlive : (hold o).live = true := by
    by_contra hdead
    rw [h.dead o (by simpa using hdead)] at hl
    cases hl
  have hcount : (hold o).memIdCount ≠ 0 := by
    intro hzero
    rw [(h.empty o hlive hzero).1] at hl
    cases hl
  exact ⟨hlive, hcount, (h.chain o hlive hcount).1⟩

theorem PoolInv.used (hl : l ∈ lines o) : (p.headOf l).used = true :=
  (h.chain_of_mem hl).2.2.used hl

theorem PoolInv.fill (hlive : (hold o).live = true) :
    fillMemIds lineCount p (hold o).memIdCount (hold o).memIdBuffer = some (ids o) := by
  unfold fillMemIds
  by_cases hcount : (hold o).memIdCount = 0
  · rw [if_neg (by simpa using hcount), (h.empty o hlive hcount).2]
  · obtain ⟨hchain, hbuffer⟩ := h.chain o hlive hcount
    rw [if_pos hcount, hbuffer]
    exact hchain.fillAllocated (h.bound o)

theorem PoolInv.released (hlive : (hold o).live = true) :
    releasedLines lineCount p (hold o).memIdCount (hold o).memIdBuffer = lines o := by
  unfold releasedLines
  by_cases hcount : (hold o).memIdCount = 0
  · rw [if_pos hcount, (h.empty o hlive hcount).1]
  · obtain ⟨hchain, hbuffer⟩ := h.chain o hlive hcount
    rw [if_neg hcount, hbuffer, hchain.walk (h.bound o)]
    rfl

theorem PoolInv.congr {hold' : O → Holding} (hlive : ∀ o, (hold' o).live = (hold o).live)
    (hsame : ∀ o, (hold o).live = true → hold' o = hold o) :
    PoolInv lineCount p hold' lines ids := by
  refine ⟨fun o ho => ?_, fun o ho => ?_, fun o ho => ?_, h.bound, h.disjoint⟩
  · rw [hlive o] at ho
    rw [hsame o ho]
    exact h.empty o ho
  · rw [hlive o] at ho
    rw [hsame o ho]
    exact h.chain o ho
  · exact h.dead o (by rw [← hlive o]; exact ho)

theorem PoolInv.not_idle (hidle : IdleLines lineCount p idle) (hl : l ∈ lines o) : l ∉ idle := by
  intro hmem
  have hfree := ((hidle.mem l).mp hmem).2
  rw [h.used hl] at hfree
  cases hfree

theorem PoolInv.idleLines_release (hidle : IdleLines lineCount p idle) (o : O) :
    IdleLines lineCount (p.write (releaseStores (lines o))) (idle ++ lines o) := by
  cases hlines : lines o with
  | nil => simpa [releaseStores, IdPool.write] using hidle
  | cons l rest =>
    have hmem : l ∈ lines o := by rw [hlines]; exact List.mem_cons_self ..
    rw [← hlines]
    exact hidle.release ((h.chain_of_mem hmem).2.2.usedLines (h.bound o))

end

variable [DecidableEq O]

section

variable (h : PoolInv lineCount p hold lines ids) {o : O} {newHold : Holding} {newIds : List UInt64}
  {newLines : List Nat}

include h

/-- **One record changes, and the chains of the others are not touched.** -/
theorem PoolInv.update {p' : IdPool} (hagree : ∀ o' ≠ o, ∀ l ∈ lines o', p' l = p l)
    (hempty : newHold.live = true → newHold.memIdCount = 0 → newLines = [] ∧ newIds = [])
    (hchain : newHold.live = true → newHold.memIdCount ≠ 0 →
      Chain p' newLines newIds ∧ newHold.memIdBuffer = newLines.getD 0 0)
    (hdead : newHold.live = false → newLines = []) (hbound : ∀ l ∈ newLines, l < lineCount)
    (hdisjoint : ∀ o' ≠ o, ∀ l ∈ lines o', l ∉ newLines) :
    PoolInv lineCount p' (update hold o newHold) (update lines o newLines)
      (update ids o newIds) := by
  refine ⟨fun o' => ?_, fun o' => ?_, fun o' => ?_, fun o' => ?_, fun o₁ o₂ hne l => ?_⟩
  · by_cases ho : o' = o
    · subst ho
      simpa using hempty
    · simpa only [update_of_ne ho] using h.empty o'
  · by_cases ho : o' = o
    · subst ho
      simpa using hchain
    · simp only [update_of_ne ho]
      intro hlive hcount
      obtain ⟨hc, hbuffer⟩ := h.chain o' hlive hcount
      exact ⟨hc.of_agree (hagree o' ho), hbuffer⟩
  · by_cases ho : o' = o
    · subst ho
      simpa using hdead
    · simpa only [update_of_ne ho] using h.dead o'
  · by_cases ho : o' = o
    · subst ho
      simpa using hbound
    · simpa only [update_of_ne ho] using h.bound o'
  · by_cases h₁ : o₁ = o
    · subst h₁
      rw [update_self, update_of_ne (Ne.symm hne)]
      exact fun hl hmem => hdisjoint o₂ (Ne.symm hne) l hmem hl
    · rw [update_of_ne h₁]
      by_cases h₂ : o₂ = o
      · subst h₂
        rw [update_self]
        exact hdisjoint o₁ h₁ l
      · rw [update_of_ne h₂]
        exact h.disjoint o₁ o₂ hne l

theorem PoolInv.update_dead (hdead : (hold o).live = false) (hnew : newHold.live = false) :
    PoolInv lineCount p (Function.update hold o newHold) lines ids := by
  refine h.congr (fun o' => ?_) fun o' hlive => ?_
  · by_cases ho : o' = o
    · subst ho
      rw [update_self, hnew, hdead]
    · rw [update_of_ne ho]
  · refine update_of_ne ?_ _ _
    rintro rfl
    rw [hdead] at hlive
    cases hlive

theorem PoolInv.occupy (hdead : (hold o).live = false) (buffer : Nat) :
    PoolInv lineCount p (Function.update hold o ⟨true, 0, buffer⟩) lines
      (Function.update ids o []) := by
  have hupdate : PoolInv lineCount p (Function.update hold o ⟨true, 0, buffer⟩)
      (Function.update lines o []) (Function.update ids o []) :=
    h.update (fun _ _ _ _ => rfl) (fun _ _ => ⟨rfl, rfl⟩) (fun _ hne => absurd rfl hne)
      (fun _ => rfl) (by simp) (by simp)
  rwa [← h.dead o hdead, update_eq_self] at hupdate

theorem PoolInv.alloc (hcount : lineCount ≤ 2 ^ 32) {idle rest : List Nat}
    (hidle : IdleLines lineCount p idle) (halloc : Allocated idle newIds newLines rest) (o : O) :
    PoolInv lineCount (p.write (allocStores newLines newIds))
      (Function.update hold o ⟨true, newIds.length, newLines.getD 0 0⟩)
      (Function.update lines o newLines) (Function.update ids o newIds) := by
  -- The new lines were idle, so they are in no chain that was there before.
  have hfresh : ∀ o' l, l ∈ lines o' → l ∉ newLines := fun o' l hl hmem =>
    h.not_idle hidle hl (halloc.mem.mpr (.inr hmem))
  have hlen : newIds.length ≠ 0 := fun hzero => halloc.nonempty (List.length_eq_zero_iff.mp hzero)
  refine h.update (fun o' _ l hl => ?_) (fun _ hzero => absurd hzero hlen) (fun _ _ => ?_)
    nofun (fun l hl => ?_) fun o' _ => hfresh o'
  · exact write_allocStores_of_not_mem p halloc.length (hfresh o' l hl)
  · exact ⟨(hidle.alloc hcount halloc).1, rfl⟩
  · exact ((hidle.mem l).mp (halloc.mem.mpr (.inr hl))).1

theorem PoolInv.release (o : O) (count buffer : Nat) :
    PoolInv lineCount (p.write (releaseStores (lines o)))
      (Function.update hold o ⟨false, count, buffer⟩) (Function.update lines o []) ids := by
  have hupdate : PoolInv lineCount (p.write (releaseStores (lines o)))
      (Function.update hold o ⟨false, count, buffer⟩) (Function.update lines o [])
      (Function.update ids o (ids o)) :=
    h.update (fun o' ho l hl => write_releaseStores_of_not_mem p (h.disjoint o' o ho l hl))
      nofun nofun (fun _ => rfl) (by simp)
      (by simp)
  rwa [update_eq_self] at hupdate

end

theorem NoLineLost.alloc (h : NoLineLost lineCount p lines) {idle rest newLines : List Nat}
    {newIds : List UInt64} (halloc : Allocated idle newIds newLines rest) {o : O}
    (hnone : lines o = []) :
    NoLineLost lineCount (p.write (allocStores newLines newIds))
      (update lines o newLines) := by
  intro l hl hused
  by_cases hmem : l ∈ newLines
  · exact ⟨o, by simpa using hmem⟩
  · have hsame : (p.write (allocStores newLines newIds)).headOf l = p.headOf l := by
      unfold IdPool.headOf
      rw [write_allocStores_of_not_mem p halloc.length hmem]
    obtain ⟨o', ho'⟩ := h l hl (hsame ▸ hused)
    have hne : o' ≠ o := by
      rintro rfl
      rw [hnone] at ho'
      cases ho'
    exact ⟨o', by rwa [update_of_ne hne]⟩

theorem NoLineLost.release (h : NoLineLost lineCount p lines)
    (hinv : PoolInv lineCount p hold lines ids) (o : O) :
    NoLineLost lineCount (p.write (releaseStores (lines o))) (update lines o []) := by
  intro l hl hused
  by_cases hmem : l ∈ lines o
  · have hnodup := (hinv.chain_of_mem hmem).2.2.nodup
    rw [headOf_write_releaseStores p hnodup hmem] at hused
    cases hused
  · have hsame : (p.write (releaseStores (lines o))).headOf l = p.headOf l := by
      unfold IdPool.headOf
      rw [write_releaseStores_of_not_mem p hmem]
    obtain ⟨o', ho'⟩ := h l hl (hsame ▸ hused)
    have hne : o' ≠ o := by
      rintro rfl
      exact hmem ho'
    exact ⟨o', by rwa [update_of_ne hne]⟩

end Owners

end UbsMem
