import Mathlib.Tactic.Common

/-! # Ordered sets

`std::set` as a list in the order of its comparator.  Keys neither of which precedes
the other are equivalent: an insertion is dropped when an equivalent key is there,
and an erasure removes the equivalent key, whatever its other fields are.
-/
namespace UbsMem

open List

variable {α : Type} (lt : α → α → Bool) {k x : α} {l : List α} {R : α → α → Prop}

/-- Neither key precedes the other. -/
def equivKeys (k₁ k₂ : α) : Bool := !lt k₁ k₂ && !lt k₂ k₁

/-- Put a key in front of the first one it precedes. -/
def insertOrdered (k : α) : List α → List α
  | [] => [k]
  | x :: xs => if lt k x then k :: x :: xs else x :: insertOrdered k xs

/-- `std::set::insert`. -/
def setInsert (k : α) (l : List α) : List α :=
  if l.any (equivKeys lt k) then l else insertOrdered lt k l

/-- `std::set::erase` of a key. -/
def setErase (k : α) (l : List α) : List α := l.filter fun x => !equivKeys lt k x

theorem insertOrdered_perm (k : α) (l : List α) : (insertOrdered lt k l).Perm (k :: l) := by
  induction l with
  | nil => exact .refl _
  | cons y ys ih =>
    unfold insertOrdered
    split
    · exact .refl _
    · exact (ih.cons y).trans (.swap k y ys)

theorem mem_insertOrdered : x ∈ insertOrdered lt k l ↔ x = k ∨ x ∈ l := by
  rw [(insertOrdered_perm lt k l).mem_iff, mem_cons]

theorem mem_setInsert :
    x ∈ setInsert lt k l ↔ x ∈ l ∨ x = k ∧ ∀ y ∈ l, equivKeys lt k y = false := by
  unfold setInsert
  split
  · rename_i hany
    obtain ⟨y, hy, heq⟩ := any_eq_true.mp hany
    constructor
    · exact Or.inl
    · rintro (hx | ⟨-, hnone⟩)
      · exact hx
      · exact absurd heq (by simp [hnone y hy])
  · rename_i hany
    have hnone : ∀ y ∈ l, equivKeys lt k y = false := by
      intro y hy
      by_contra heq
      exact hany (any_eq_true.mpr ⟨y, hy, by simpa using heq⟩)
    rw [mem_insertOrdered]
    tauto

/-- Keys that are pairwise related stay so when one is added that is related to all. -/
theorem pairwise_setInsert (hsymm : ∀ x y, R x y → R y x) (hl : l.Pairwise R)
    (hk : ∀ y ∈ l, R k y) : (setInsert lt k l).Pairwise R := by
  unfold setInsert
  split
  · exact hl
  · rw [(insertOrdered_perm lt k l).pairwise_iff fun h => hsymm _ _ h]
    exact pairwise_cons.mpr ⟨hk, hl⟩

/-- Keys stay in an order that follows the comparator. -/
theorem sorted_setInsert (htrans : ∀ x y z, R x y → R y z → R x z)
    (hbefore : ∀ x, lt k x = true → R k x) (hafter : ∀ x, lt k x = false → R x k)
    (hl : l.Pairwise R) : (setInsert lt k l).Pairwise R := by
  have hinsert : (insertOrdered lt k l).Pairwise R := by
    induction hl with
    | nil => exact pairwise_singleton R k
    | @cons x xs hx hxs ih =>
      unfold insertOrdered
      split
      · next hlt =>
        have hkx := hbefore x hlt
        refine pairwise_cons.mpr ⟨fun y hy => ?_, pairwise_cons.mpr ⟨hx, hxs⟩⟩
        rcases mem_cons.mp hy with rfl | hy
        · exact hkx
        · exact htrans _ _ _ hkx (hx y hy)
      · next hlt =>
        refine pairwise_cons.mpr ⟨fun y hy => ?_, ih⟩
        rcases (mem_insertOrdered lt).mp hy with rfl | hy
        · exact hafter x (by simpa using hlt)
        · exact hx y hy
  unfold setInsert
  split
  · exact hl
  · exact hinsert

theorem mem_setErase : x ∈ setErase lt k l ↔ x ∈ l ∧ equivKeys lt k x = false := by
  simp [setErase]

end UbsMem
