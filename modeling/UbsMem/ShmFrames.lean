import UbsMem.ShmHandlers

/-! # What the calls of the handlers change

What each call leaves alone is said once (`frame_of_sem`), and what it does to the manager in
terms of the changes that the operations are made of (`edits_of_sem`).
-/
namespace UbsMem

open Function ShmManager

/-! ### What the calls leave alone -/

/-- The name whose entry a call may change. -/
@[simp]
def ShmCall.entry : ShmCall → Option Name
  | .addMemoryUserInfo name _ => some name
  | .removeMemoryUserInfo name _ => some name
  | .prepareAddShareMemoryInfo name _ _ => some name
  | .addFullShareMemoryInfo name _ _ => some name
  | .updateShareMemoryRecordState name _ => some name
  | .removeMemoryInfo name _ => some name
  | _ => none

/-- Neither locks nor unlocks a mutex. -/
@[simp]
def ShmCall.plain : ShmCall → Bool
  | .lock _ => false
  | .unlock _ => false
  | _ => true

/-- Entries stand under their own names. -/
def NamesMatch {S : Type} (s : ShmWorld S) : Prop :=
  ∀ name memory, s.find name = some memory → memory.name = name

section Calls

variable {S : Type} {rs : ShmRecords S} {mutexOf : Name → Nat} {t : Nat} {c : ShmCall}
  {s s' : ShmWorld S} {r : c.Reply} {name : Name}

/-- **What a call leaves alone**: the mutexes, but for the calls that are about them, and the
attachment of other names. -/
structure CallFrame (c : ShmCall) (s s' : ShmWorld S) : Prop where
  locks : c.plain = true → s'.locks = s.locks
  attached : ∀ n, (∀ info, c ≠ .shmAttach n info) → c ≠ .shmDetach n →
    s'.attached n = s.attached n

theorem frame_of_sem (h : ShmWorld.sem rs mutexOf t c s r s') : CallFrame c s s' := by
  cases c with
  | lock name =>
    obtain ⟨-, rfl⟩ := h
    exact ⟨nofun, fun _ _ _ => rfl⟩
  | unlock name =>
    obtain rfl := h
    exact ⟨nofun, fun _ _ _ => rfl⟩
  | shmAttach name info =>
    obtain ⟨now, attached, -, rfl⟩ := h
    refine ⟨fun _ => rfl, fun n hn _ => update_of_ne ?_ _ _⟩
    rintro rfl
    exact hn info rfl
  | shmDetach name =>
    obtain ⟨attached, -, rfl⟩ := h
    refine ⟨fun _ => rfl, fun n _ hn => update_of_ne ?_ _ _⟩
    rintro rfl
    exact hn rfl
  | addDelayRemoveRecord _ | eraseKey _ | shmGetUserData _ | shmDelete _
  | getTimeOutShmTaskStatus _ _ =>
    obtain rfl := h
    exact ⟨fun _ => rfl, fun _ _ _ => rfl⟩
  | _ =>
    obtain ⟨-, rfl⟩ := h
    exact ⟨fun _ => rfl, fun _ _ _ => rfl⟩

/-- **What a call does to the manager**: nothing, or changes for the name that it is about. -/
theorem edits_of_sem (asks : Nat → Prop) (h : ShmWorld.sem rs mutexOf t c s r s')
    (hasks : ∀ name size pid, c = .prepareAddShareMemoryInfo name size pid →
      s.manager.find name = none → asks size) :
    s'.manager = s.manager ∨
      ∃ name, c.entry = some name ∧ s.manager.Edits rs name asks s'.manager := by
  cases c with
  | addMemoryUserInfo name pid =>
    obtain ⟨-, rfl⟩ := h
    exact .inr ⟨name, rfl, addMemoryUserInfo_edits pid⟩
  | removeMemoryUserInfo name pid =>
    obtain ⟨-, rfl⟩ := h
    exact .inr ⟨name, rfl, removeMemoryUserInfo_edits pid⟩
  | prepareAddShareMemoryInfo name size pid =>
    obtain ⟨-, rfl⟩ := h
    exact .inr ⟨name, rfl, prepareAddShareMemoryInfo_edits (hasks name size pid rfl) pid⟩
  | addFullShareMemoryInfo name pid result =>
    obtain ⟨-, rfl⟩ := h
    exact .inr ⟨name, rfl, addFullShareMemoryInfo_edits pid result⟩
  | updateShareMemoryRecordState name state =>
    obtain ⟨-, rfl⟩ := h
    exact .inr ⟨name, rfl, updateShareMemoryRecordState_edits state⟩
  | removeMemoryInfo name force =>
    obtain ⟨-, rfl⟩ := h
    exact .inr ⟨name, rfl, removeMemoryInfo_edits force⟩
  | shmAttach name info =>
    obtain ⟨now, attached, -, rfl⟩ := h
    exact .inl rfl
  | shmDetach name =>
    obtain ⟨attached, -, rfl⟩ := h
    exact .inl rfl
  | unlock _ | addDelayRemoveRecord _ | eraseKey _ | shmGetUserData _ | shmDelete _
  | getTimeOutShmTaskStatus _ _ =>
    obtain rfl := h
    exact .inl rfl
  | _ =>
    obtain ⟨-, rfl⟩ := h
    exact .inl rfl

theorem find_of_edit {asks : Nat → Prop} {n : Name} (hn : name ≠ n) {m m' : ShmManager S}
    (h : m.Edit rs n asks m') : m'.find name = m.find name := by
  cases h with
  | create | update =>
    rw [find_put]
    exact update_of_ne hn _ _
  | erase =>
    rw [find_erase]
    exact update_of_ne hn _ _
  | _ => rfl

theorem find_of_sem (h : ShmWorld.sem rs mutexOf t c s r s') (hname : c.entry ≠ some name) :
    s'.find name = s.find name := by
  rcases edits_of_sem (fun _ => True) h fun _ _ _ _ _ => trivial with hsame | ⟨n, hentry, hedits⟩
  · exact congrArg (·.find name) hsame
  · have hn : name ≠ n := by
      rintro rfl
      exact hname hentry
    exact hedits.invariant (fun _ _ hedit hm => (find_of_edit hn hedit).trans hm) rfl

theorem NamesMatch.step (hs : NamesMatch s) (h : ShmWorld.sem rs mutexOf t c s r s') :
    NamesMatch s' := by
  rcases edits_of_sem (fun _ => True) h fun _ _ _ _ _ => trivial with hsame | ⟨n, -, hedits⟩
  · intro name memory hfind
    exact hs name memory ((congrArg (·.find name) hsame).symm.trans hfind)
  · refine hedits.invariant (I := fun m => ∀ name memory, m.find name = some memory →
      memory.name = name) (fun m m' hedit hm name memory hfind => ?_) hs
    by_cases hname : name = n
    · subst hname
      cases hedit with
      | create =>
        rw [find_put, update_self] at hfind
        cases hfind
        rfl
      | update hold hold' =>
        rw [find_put, update_self] at hfind
        cases hfind
        rw [hold']
        exact hm name _ hold
      | erase =>
        rw [find_erase, update_self] at hfind
        cases hfind
      | _ => exact hm name memory hfind
    · exact hm name memory ((find_of_edit hname hedit).symm.trans hfind)

section

variable (h : ShmWorld.sem rs mutexOf t c s r s')

include h

theorem locks_of_sem (hplain : c.plain = true) : s'.locks = s.locks := (frame_of_sem h).locks hplain

theorem attached_of_sem (hattach : ∀ name info, c ≠ .shmAttach name info)
    (hdetach : ∀ name, c ≠ .shmDetach name) : s'.attached = s.attached :=
  funext fun n => (frame_of_sem h).attached n (hattach n) (hdetach n)

end

end Calls

section Users

variable {S : Type} {s s' : ShmWorld S} {name : Name} {memory : AttachedShareMemory}

theorem users_of_find (h : s'.find name = s.find name) : s'.users name = s.users name := by
  have h' : s'.manager.find name = s.manager.find name := h
  simp only [ShmWorld.users, ShmManager.users, h']

theorem users_of_some (h : s.find name = some memory) : s.users name = memory.pids := by
  have h' : s.manager.find name = some memory := h
  simp only [ShmWorld.users, ShmManager.users, h']

end Users

end UbsMem
