import UbsMem.ShmFrames

/-! # The tasks of the daemon on shared memory

`ShmMap`, `ShmUnmap`, the handling of dead processes and the cleaner of leaked shared
memory run at the same time.  The handlers hold the mutex of the name they work on; the
cleaner and the handling of dead processes, which share a thread, do not.
-/
namespace UbsMem

open Function

/-! ### Tasks -/

/-- What a thread of the daemon can be doing. -/
inductive ShmTask
  | map (req : ShmMapRequest) (uds : AppContext)
  | unmap (name : Name) (uds : AppContext)
  | deadProcess (now pid : Nat)
  | clean (key : DelayRemovedKey) (expiresTime : Nat)

/-- The program of a task. -/
def ShmTask.body : ShmTask → ShmProg Unit
  | .map req uds => do
    let _ ← shmMap req uds
    return ()
  | .unmap name uds => do
    let _ ← shmUnmap name uds
    return ()
  | .deadProcess now pid => shmProcessDeadProcess now pid
  | .clean key expiresTime => removeDelayShare key expiresTime

/-- The threads of the daemon, over any record store. -/
abbrev ShmPool (S : Type) := Pool Nat ShmTask ShmCall ShmCall.Reply (ShmWorld S)

/-- Nothing is running. -/
def ShmPool.idle {S : Type} (s : ShmWorld S) : ShmPool S := ⟨s, fun _ => none⟩

/-! ### The mutexes of the other threads -/

section Locks

variable {S : Type} {rs : ShmRecords S} {mutexOf : Name → Nat} {t t' i : Nat} {name : Name}
  {s s' : ShmWorld S}

theorem locks_of_lock (hsem : ShmWorld.sem rs mutexOf t (.lock name) s () s')
    (h : s.locks i = some t') : s'.locks i = some t' := by
  obtain ⟨hfree, rfl⟩ := hsem
  -- a mutex that another thread holds is not the one that was free
  have hi : i ≠ mutexOf name := by
    rintro rfl
    rw [hfree] at h
    cases h
  exact (update_of_ne hi _ _).trans h

theorem locks_of_unlock (hsem : ShmWorld.sem rs mutexOf t (.unlock name) s () s')
    (hlock : s.locks (mutexOf name) = some t) (hne : t' ≠ t) (h : s.locks i = some t') :
    s'.locks i = some t' := by
  obtain rfl := hsem
  have hi : i ≠ mutexOf name := by
    rintro rfl
    rw [hlock] at h
    exact hne (by simpa using h.symm)
  exact (update_of_ne hi _ _).trans h

end Locks

/-! ### An object -/

/-- A request to map the object named `a`. -/
def mapA : ShmMapRequest := ⟨[97], 4096, 0o600, protRead⟩

/-- The objects belong to a user of their own and are readable by everyone. -/
def sampleInfo (_ : Name) : UbseUserInfo := ⟨0, 0, 1, 0o644, 0, 0⟩

end UbsMem
