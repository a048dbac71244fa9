import UbsMem.CommonTypes
import UbsMem.StdSet

/-! # The queue of delayed removals

`UBSMemMonitor` keeps what has to be given back later, in two sets that are filled
and emptied together: `delayedRemoveKeys`, ordered by expiry time and name, and
`delayedRemoveKeysByName`, ordered by name alone, which answers whether a name is
busy.  An insertion into a `std::set` is dropped when an equivalent key is there
already, so a set may keep a key other than the one that was just added; the two
sets need not hold the same keys.
-/
namespace UbsMem

open List

def oneMinuteMs : Nat := 60 * 1000

/-- `DelayRemovedKey`: a removal to be carried out at `expiresTime` or later. -/
structure DelayRemovedKey where
  isLease : Bool
  retryTimes : Nat
  expiresTime : Nat
  name : Name
  appCtx : AppContext
  changed : Bool
  isNumaLease : Bool
  timeOutScene : Bool
  isAttach : Bool
  createSeqNo : UInt64
  deriving DecidableEq

/-- The seven-argument constructor, at the steady clock's time `now`. -/
def DelayRemovedKey.make (now : Nat) (name : Name) (delay : Nat) (isLease : Bool)
    (appCtx : AppContext) (changed isNumaLease timeOutScene : Bool) : DelayRemovedKey where
  isLease := isLease
  retryTimes := 0
  expiresTime := now + delay
  name := name
  appCtx := appCtx
  changed := changed
  isNumaLease := isNumaLease
  timeOutScene := timeOutScene
  isAttach := false
  createSeqNo := 0

/-- `DelayKeyComparator`. -/
def delayKeyLt (k₁ k₂ : DelayRemovedKey) : Bool :=
  if k₁.expiresTime ≠ k₂.expiresTime then k₁.expiresTime < k₂.expiresTime else k₁.name < k₂.name

/-- `DelayKeyIsBusyComparator`. -/
def delayKeyIsBusyLt (k₁ k₂ : DelayRemovedKey) : Bool := k₁.name < k₂.name

theorem equivKeys_delayKeyLt {k₁ k₂ : DelayRemovedKey} : equivKeys delayKeyLt k₁ k₂ = true ↔
      k₁.expiresTime = k₂.expiresTime ∧ k₁.name = k₂.name := by
  unfold equivKeys delayKeyLt
  by_cases ht : k₁.expiresTime = k₂.expiresTime
  · constructor
    · intro h
      simp only [ht, ne_eq, not_true_eq_false, if_false, Bool.and_eq_true, Bool.not_eq_true',
        decide_eq_false_iff_not] at h
      exact ⟨ht, List.le_antisymm (List.not_lt.mp h.2) (List.not_lt.mp h.1)⟩
    · rintro ⟨-, hn⟩
      simp [ht, hn]
  · simp [ht, Ne.symm ht]
    omega

theorem equivKeys_delayKeyIsBusyLt {k₁ k₂ : DelayRemovedKey} :
    equivKeys delayKeyIsBusyLt k₁ k₂ = true ↔ k₁.name = k₂.name := by
  unfold equivKeys delayKeyIsBusyLt
  constructor
  · intro h
    simp only [Bool.and_eq_true, Bool.not_eq_true', decide_eq_false_iff_not] at h
    exact List.le_antisymm (List.not_lt.mp h.2) (List.not_lt.mp h.1)
  · intro h
    simp [h]

/-- The two sets of `UBSMemMonitor`. -/
structure Monitor where
  delayedRemoveKeys : List DelayRemovedKey
  delayedRemoveKeysByName : List DelayRemovedKey

namespace Monitor

/-- Nothing to remove. -/
def empty : Monitor := ⟨[], []⟩

def addDelayRemoveRecord (m : Monitor) (key : DelayRemovedKey) : Monitor where
  delayedRemoveKeys := setInsert delayKeyLt key m.delayedRemoveKeys
  delayedRemoveKeysByName := setInsert delayKeyIsBusyLt key m.delayedRemoveKeysByName

/-- `GetDelayRemoveRecord`: whether a removal is pending for the name. -/
def getDelayRemoveRecord (m : Monitor) (name : Name) : Bool :=
  m.delayedRemoveKeysByName.any fun k => k.name = name

/-- The erasures of `RemoveDelayBorrows` after a key has been handled. -/
def eraseKey (m : Monitor) (key : DelayRemovedKey) : Monitor where
  delayedRemoveKeys := setErase delayKeyLt key m.delayedRemoveKeys
  delayedRemoveKeysByName := setErase delayKeyIsBusyLt key m.delayedRemoveKeysByName

variable {m : Monitor} {key k : DelayRemovedKey}

/-- A key is queued unless one of the same name and expiry time is there already. -/
theorem mem_addDelayRemoveRecord : k ∈ (m.addDelayRemoveRecord key).delayedRemoveKeys ↔
      k ∈ m.delayedRemoveKeys ∨
        k = key ∧ ∀ y ∈ m.delayedRemoveKeys, ¬ (key.expiresTime = y.expiresTime ∧
          key.name = y.name) := by
  unfold addDelayRemoveRecord
  rw [mem_setInsert]
  refine or_congr Iff.rfl (and_congr Iff.rfl ?_)
  refine forall₂_congr fun y _ => ?_
  rw [← equivKeys_delayKeyLt, Bool.not_eq_true]

theorem mem_addDelayRemoveRecord_byName : k ∈ (m.addDelayRemoveRecord key).delayedRemoveKeysByName ↔
      k ∈ m.delayedRemoveKeysByName ∨
        k = key ∧ ∀ y ∈ m.delayedRemoveKeysByName, key.name ≠ y.name := by
  unfold addDelayRemoveRecord
  rw [mem_setInsert]
  refine or_congr Iff.rfl (and_congr Iff.rfl ?_)
  refine forall₂_congr fun y _ => ?_
  rw [Ne, ← equivKeys_delayKeyIsBusyLt, Bool.not_eq_true]

theorem mem_eraseKey : k ∈ (m.eraseKey key).delayedRemoveKeys ↔
      k ∈ m.delayedRemoveKeys ∧ ¬(key.expiresTime = k.expiresTime ∧ key.name = k.name) := by
  unfold eraseKey
  rw [mem_setErase, ← equivKeys_delayKeyLt, Bool.not_eq_true]

theorem mem_eraseKey_byName : k ∈ (m.eraseKey key).delayedRemoveKeysByName ↔
      k ∈ m.delayedRemoveKeysByName ∧ key.name ≠ k.name := by
  unfold eraseKey
  rw [mem_setErase, Ne, ← equivKeys_delayKeyIsBusyLt, Bool.not_eq_true]

theorem getDelayRemoveRecord_iff {name : Name} :
    m.getDelayRemoveRecord name = true ↔ ∃ k ∈ m.delayedRemoveKeysByName, k.name = name := by
  simp [getDelayRemoveRecord]

end Monitor
end UbsMem
