import Mathlib.Data.List.Basic
import Mathlib.Data.List.TakeWhile
import Mathlib.Data.Nat.Basic
import UbsMem.StdSet

/-! # Ordered maps of intervals

`std::map` from the start of an interval to its end, as a list in the order of the starts.
Whether a range meets one of the intervals is decided by its two neighbours: the last interval
that starts at or before the range, and the first one that starts after its start.  That is
right where the intervals are disjoint (`meetsNeighbour_iff`), and only there: a long interval
can be hidden behind a short one that starts later.
-/
namespace UbsMem

open List Option

/-- Intervals are ordered by their starts. -/
def startLt (v w : Nat × Nat) : Bool := v.1 < w.1

theorem equivKeys_startLt {v w : Nat × Nat} : equivKeys startLt v w = true ↔ v.1 = w.1 := by
  simp only [equivKeys, startLt, Bool.and_eq_true, Bool.not_eq_true', decide_eq_false_iff_not]
  omega

/-- The interval of the same start is replaced, or the interval is added. -/
def putInterval (v : Nat × Nat) (l : List (Nat × Nat)) : List (Nat × Nat) :=
  setInsert startLt v (setErase startLt v l)

/-- The interval that starts at `start` is removed. -/
def eraseInterval (start : Nat) (l : List (Nat × Nat)) : List (Nat × Nat) :=
  setErase startLt (start, 0) l

variable {l : List (Nat × Nat)} {v : Nat × Nat}

theorem mem_eraseInterval {start : Nat} : v ∈ eraseInterval start l ↔ v ∈ l ∧ v.1 ≠ start := by
  rw [eraseInterval, mem_setErase, ← Bool.not_eq_true, equivKeys_startLt]
  exact and_congr Iff.rfl ne_comm

theorem mem_putInterval {v w : Nat × Nat} : w ∈ putInterval v l ↔ w = v ∨ w ∈ l ∧ w.1 ≠ v.1 := by
  have herase : ∀ {w}, w ∈ setErase startLt v l ↔ w ∈ l ∧ w.1 ≠ v.1 := by
    intro w
    rw [mem_setErase, ← Bool.not_eq_true, equivKeys_startLt]
    exact and_congr Iff.rfl ne_comm
  rw [putInterval, mem_setInsert, herase, or_comm]
  refine or_congr (and_iff_left fun y hy => ?_) Iff.rfl
  rw [← Bool.not_eq_true, equivKeys_startLt]
  exact (herase.mp hy).2.symm

/-- In order, and each interval ends before the next one starts. -/
def Apart (l : List (Nat × Nat)) : Prop := l.Pairwise fun v w => v.2 ≤ w.1

/-- No interval is empty. -/
def NonEmpty (l : List (Nat × Nat)) : Prop := ∀ v ∈ l, v.1 < v.2

theorem Apart.erase (h : Apart l) (start : Nat) : Apart (eraseInterval start l) := h.filter _

section

variable (h : Apart l) (hl : NonEmpty l) (hv : v.1 < v.2) (hclear : ∀ w ∈ l, v.2 ≤ w.1 ∨ w.2 ≤ v.1)

include h hl hv hclear

/-- An interval that keeps clear of the others is put between them. -/
theorem Apart.insertOrdered : Apart (insertOrdered startLt v l) := by
  induction l with
  | nil => exact pairwise_singleton _ _
  | cons w l ih =>
    obtain ⟨hw, hrest⟩ := pairwise_cons.mp h
    have hwe := hl w mem_cons_self
    unfold UbsMem.insertOrdered
    split_ifs with hlt
    · have hlt' : v.1 < w.1 := of_decide_eq_true hlt
      have hvw : v.2 ≤ w.1 := (hclear w mem_cons_self).resolve_right (by omega)
      refine pairwise_cons.mpr ⟨fun u hu => ?_, h⟩
      rcases mem_cons.mp hu with rfl | hu
      · exact hvw
      · have := hw u hu
        omega
    · have hle : ¬v.1 < w.1 := fun hlt' => hlt (decide_eq_true hlt')
      have hwv : w.2 ≤ v.1 := (hclear w mem_cons_self).resolve_left (by omega)
      refine pairwise_cons.mpr ⟨fun u hu => ?_, ih hrest ?_ ?_⟩
      · rcases (mem_insertOrdered startLt).mp hu with rfl | hu
        · exact hwv
        · exact hw u hu
      · exact fun u hu => hl u (mem_cons_of_mem w hu)
      · exact fun u hu => hclear u (mem_cons_of_mem w hu)

theorem Apart.put : Apart (putInterval v l) := by
  have hsub : ∀ w ∈ setErase startLt v l, w ∈ l := fun w hw => ((mem_setErase startLt).mp hw).1
  have herased : Apart (setErase startLt v l) := h.filter _
  unfold putInterval setInsert
  split_ifs
  · exact herased
  · exact herased.insertOrdered (fun w hw => hl w (hsub w hw)) hv fun w hw => hclear w (hsub w hw)

end

/-! ### The test of the neighbours -/

/-- The range from `start` to `stop` meets the interval. -/
def meets (start stop : Nat) (v : Nat × Nat) : Bool := start < v.2 && v.1 < stop

/-- The range meets the last interval that starts at or before it, or the next one. -/
def meetsNeighbour (l : List (Nat × Nat)) (start stop : Nat) : Bool :=
  (l.takeWhile fun v => v.1 ≤ start).getLast?.any (meets start stop) ||
    (l.dropWhile fun v => v.1 ≤ start).head?.any (meets start stop)

/-- **The neighbours decide**, where the intervals are disjoint. -/
theorem meetsNeighbour_iff (h : Apart l) (hl : NonEmpty l) (start stop : Nat) :
    meetsNeighbour l start stop = true ↔ ∃ v ∈ l, start < v.2 ∧ v.1 < stop := by
  unfold meetsNeighbour
  induction l with
  | nil => simp
  | cons w l ih =>
    obtain ⟨hw, hrest⟩ := pairwise_cons.mp h
    have hwe := hl w mem_cons_self
    have hl' : NonEmpty l := fun u hu => hl u (mem_cons_of_mem w hu)
    by_cases hle : w.1 ≤ start
    · -- the interval is the neighbour only if it is the last to start so early
      simp only [takeWhile_cons, dropWhile_cons, hle, decide_true, if_true,
        List.getLast?_cons, any_some]
      have ih' := ih hrest hl'
      cases hlast : (l.takeWhile fun v => v.1 ≤ start).getLast? with
      | none =>
        rw [hlast, any_none, Bool.false_or] at ih'
        rw [getD_none, Bool.or_eq_true, ih', exists_mem_cons_iff]
        simp only [meets, Bool.and_eq_true, decide_eq_true_eq]
      | some u =>
        have hu := mem_takeWhile_imp (mem_of_getLast? hlast)
        have hwu := hw u (takeWhile_subset _ (mem_of_getLast? hlast))
        have hu' : u.1 ≤ start := of_decide_eq_true hu
        rw [hlast, any_some] at ih'
        rw [getD_some, ih', exists_mem_cons_iff]
        exact ⟨Or.inr, fun hex => hex.resolve_left (by omega)⟩
    · -- the interval is the first that starts after the start
      simp only [takeWhile_cons, dropWhile_cons, hle, if_false, List.getLast?_nil, any_none,
        Bool.false_or, List.head?_cons, any_some, meets, Bool.and_eq_true, decide_eq_true_eq]
      constructor
      · exact fun hmeet => ⟨w, mem_cons_self, hmeet⟩
      · rintro ⟨v, hv, hmeet⟩
        rcases mem_cons.mp hv with rfl | hv
        · exact hmeet
        · have := hw v hv
          omega

end UbsMem
