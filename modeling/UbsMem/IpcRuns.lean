import UbsMem.IpcProxy

/-! # Runs of suspend and resume

A run is any sequence of calls of the SDK, with any outcomes of what they call, and of
requests of other clients in between.  The daemon must not take the break of a
connection that `Suspend` or `Resume` stops for the exit of the process: the process has
to be in the array at that time (`suspend_keeps_resources`).

Two paths spoil this.  After a resume whose reply was lost the process may be out of the
array, and a second resume that is rejected stops the client all the same.  And a
`Destroy` whose stop fails leaves `FAILED_STOPPING`, which `Suspend` and `Resume` take
for the state of a process that is in the array.
-/
namespace UbsMem

/-- What can happen: the process calls the SDK, or another client has a request
executed. -/
inductive IpcEvent
  | call (c : IpcCall)
  | otherSuspends (q : UInt32)
  | otherResumes (q : UInt32)
  deriving DecidableEq

namespace IpcWorld

/-- What an event does. -/
def step (config : StoreConfig) (pid : UInt32) (w : IpcWorld) : IpcEvent → Option IpcWorld
  | .call c => some (w.perform config pid c).2
  | .otherSuspends q =>
    if q = pid then none else some { w with store := (ipcSuspend config q w.store).2 }
  | .otherResumes q =>
    if q = pid then none else some { w with store := (ipcResume config q w.store).2 }

/-- **The condition on a run**: while the process is not in the array, a resume that is
sent again after a lost reply is not rejected, and the client can be stopped for
`Destroy`. -/
def Certain (pid : UInt32) (w : IpcWorld) : IpcEvent → Prop
  | .call (.resume o) =>
    w.state = .failedResuming → o.reply.rejected = true → w.Registered pid
  | .call (.destroy stop) => stop ≠ .ok → w.Registered pid
  | _ => True

section Runs

variable {config : StoreConfig} {pid : UInt32} {w w' : IpcWorld}

theorem otherSuspends_spec {q : UInt32} (hok : SuspendOk config w.store) (hq : q ≠ pid) :
    SuspendOk config (ipcSuspend config q w.store).2 ∧
      (pid ∈ (ipcSuspend config q w.store).2.mem.suspended ↔ w.Registered pid) := by
  by_cases hpositive : positivePid q = true
  · obtain ⟨hok', ⟨-, hmem⟩ | ⟨-, hsame⟩⟩ := hok.ipcSuspend hpositive
    · exact ⟨hok', (hmem pid).trans (or_iff_left (Ne.symm hq))⟩
    · rw [hsame]
      exact ⟨hok, Iff.rfl⟩
  · rw [ipcSuspend, if_pos (by simpa using hpositive)]
    exact ⟨hok, Iff.rfl⟩

theorem otherResumes_spec {q : UInt32} (hok : SuspendOk config w.store) (hq : q ≠ pid) :
    SuspendOk config (ipcResume config q w.store).2 ∧
      (pid ∈ (ipcResume config q w.store).2.mem.suspended ↔ w.Registered pid) := by
  by_cases hpositive : positivePid q = true
  · obtain ⟨hok', -, hmem⟩ := hok.ipcResume hpositive
    exact ⟨hok', (hmem pid).trans (and_iff_left (Ne.symm hq))⟩
  · rw [ipcResume, if_pos (by simpa using hpositive)]
    exact ⟨hok, Iff.rfl⟩

/-- The process is in the array whenever it is parked. -/
structure ParkedInv (config : StoreConfig) (pid : UInt32) (w : IpcWorld) : Prop where
  array : SuspendOk config w.store
  parked : w.Parked → w.Registered pid

section

variable (h : ParkedInv config pid w) (hpid : positivePid pid = true)

include h hpid

theorem ParkedInv.suspend (reply : RequestOutcome) (stop : StopOutcome) :
    ParkedInv config pid (w.suspend config pid reply stop).2 ∧
      (w.suspend config pid reply stop).2.exitedPids = w.exitedPids := by
  obtain ⟨hok, hsame | ⟨-, hparked⟩ | ⟨hstate, hexited⟩ | ⟨hstate, -, -, hexited⟩⟩ :=
    suspend_spec h.array hpid reply stop rfl
  · rw [hsame]
    exact ⟨h, rfl⟩
  · obtain ⟨hreg, hexited⟩ := hparked h.parked
    exact ⟨⟨hok, fun _ => hreg⟩, hexited⟩
  · refine ⟨⟨hok, ?_⟩, hexited⟩
    rintro (hp | hp) <;> rw [hstate] at hp <;> cases hp
  · refine ⟨⟨hok, ?_⟩, hexited⟩
    rintro (hp | hp) <;> rw [hstate] at hp <;> cases hp

theorem ParkedInv.resume {o : ResumeOutcomes} (hcertain : w.Certain pid (.call (.resume o))) :
    ParkedInv config pid (w.resume config pid o).2 ∧
      (w.resume config pid o).2.exitedPids = w.exitedPids := by
  have hsafe : ResumeSafe pid o w := ⟨h.parked, hcertain⟩
  obtain ⟨hok, hexited, hcases⟩ := resume_spec h.array hpid o rfl
  refine ⟨⟨hok, ?_⟩, hexited hsafe⟩
  rcases hcases with hsame | ⟨hstate, -⟩ | hstate | hstate | ⟨-, hreg⟩
  · rw [hsame]
    exact h.parked
  · rintro (hp | hp) <;> rw [hstate] at hp <;> cases hp
  · rintro (hp | hp) <;> rw [hstate] at hp <;> cases hp
  · rintro (hp | hp) <;> rw [hstate] at hp <;> cases hp
  · exact fun _ => hreg hsafe

theorem ParkedInv.step {e : IpcEvent} (hcertain : w.Certain pid e)
    (hstep : w.step config pid e = some w') : ParkedInv config pid w' := by
  cases e with
  | call c =>
    obtain rfl : (w.perform config pid c).2 = w' := Option.some.inj hstep
    cases c with
    | init started handlerSet stop =>
      obtain ⟨hstore, hstate⟩ := initializeIpc_spec h.array hpid started handlerSet stop rfl
      refine ⟨hstore ▸ h.array, fun hp => ?_⟩
      rw [Registered, perform, hstore]
      refine h.parked ?_
      rcases hstate with hstate | ⟨-, hrunning⟩
      · rwa [perform, Parked, hstate] at hp
      · rcases hp with hp | hp <;> rw [perform, hrunning] at hp <;> cases hp
    | suspend reply stop => exact (h.suspend hpid reply stop).1
    | resume o => exact (h.resume hpid hcertain).1
    | destroy stop =>
      obtain ⟨hstore, hcases⟩ := destroy_spec h.array hpid stop rfl
      refine ⟨hstore ▸ h.array, fun hp => ?_⟩
      rw [Registered, perform, hstore]
      rcases hcases with hsame | hstate | ⟨-, hfailed⟩
      · rw [perform, hsame] at hp
        exact h.parked hp
      · rcases hp with hp | hp <;> rw [perform, hstate] at hp <;> cases hp
      · exact hcertain hfailed
  | otherSuspends q =>
    rw [IpcWorld.step] at hstep
    split_ifs at hstep with hq
    obtain ⟨hok, hreg⟩ := otherSuspends_spec h.array hq
    cases hstep
    exact ⟨hok, fun hp => hreg.mpr (h.parked hp)⟩
  | otherResumes q =>
    rw [IpcWorld.step] at hstep
    split_ifs at hstep with hq
    obtain ⟨hok, hreg⟩ := otherResumes_spec h.array hq
    cases hstep
    exact ⟨hok, fun hp => hreg.mpr (h.parked hp)⟩

end

end Runs

end IpcWorld

open IpcWorld in
/-- **Suspending keeps the resources of the process**: in every run that meets the
condition, the process is in the array whenever the SDK is suspended, and the break of a
connection that `Suspend` or `Resume` stops is never queued as an exit. -/
theorem suspend_keeps_resources (config : StoreConfig) (pid : UInt32)
    (hpid : positivePid pid = true) (store : RecordStore) (hstore : SuspendOk config store)
    (w : IpcWorld) (hreach : Reaches (IpcWorld.step config pid) (Certain pid) (.start store) w) :
    (w.state = .suspended → w.Registered pid) ∧
      (∀ reply stop, (w.suspend config pid reply stop).2.exitedPids = w.exitedPids) ∧
      ∀ o, w.Certain pid (.call (.resume o)) →
        (w.resume config pid o).2.exitedPids = w.exitedPids := by
  have hinv : ParkedInv config pid w := by
    refine hreach.invariant ⟨hstore, ?_⟩ fun _ _ _ h hcertain hstep => h.step hpid hcertain hstep
    rintro (hp | hp) <;> cases hp
  exact ⟨fun hstate => hinv.parked (.inl hstate),
    fun reply stop => (hinv.suspend hpid reply stop).2,
    fun o hcertain => (hinv.resume hpid hcertain).2⟩

/-- A store without records. -/
def bareStore : RecordStore := ⟨.zero, ⟨[], [], [], [], [], ∅, ∅, ∅, [], []⟩⟩

/-- The outcomes of a resume that goes as it should, up to what happens to the request. -/
def resumeWith (reply : RequestOutcome) : IpcWorld.ResumeOutcomes :=
  ⟨.ok, true, true, .ok, reply, .ok⟩

/-- A process that has suspended its connection. -/
def suspendedWorld : IpcWorld :=
  (execute (IpcWorld.step recordStoreConfig 7) (fun _ _ => true) (.start bareStore)
    [.call (.init true true .ok), .call (.suspend .answered .ok)]).getD (.start bareStore)

theorem suspend_keeps_resources_suspended :
    suspendedWorld.state = .suspended ∧ suspendedWorld.Registered 7 := by
  refine ⟨rfl, (suspend_keeps_resources recordStoreConfig 7 (by decide) bareStore
    (suspendOk_zero _ _) suspendedWorld ?_).1 rfl⟩
  exact (Reaches.refl.next (e := .call (.init true true .ok)) trivial rfl).next
    (e := .call (.suspend .answered .ok)) trivial rfl

/-- The process has suspended its connection; its first resume was executed and the reply
lost; its second one was rejected. -/
def rejectedWorld : IpcWorld :=
  (execute (IpcWorld.step recordStoreConfig 7) (fun _ _ => true) (.start bareStore)
    [.call (.init true true .ok), .call (.suspend .answered .ok),
      .call (.resume (resumeWith .lostAfter)),
      .call (.resume (resumeWith (.refused ⟨mxmErrRecordDelete, by decide⟩)))]).getD
    (.start bareStore)

/-- **A lost reply and a rejected retry**: the SDK is suspended, the process is not in the
array, and its exit is queued. -/
theorem suspended_unregistered :
    Reaches (IpcWorld.step recordStoreConfig 7) (fun _ _ => True) (.start bareStore) rejectedWorld ∧
      rejectedWorld.state = .suspended ∧ ¬ rejectedWorld.Registered 7 ∧
      rejectedWorld.exitedPids = [7] := by
  have hexec : execute (IpcWorld.step recordStoreConfig 7) (fun _ _ => true) (.start bareStore)
      [.call (.init true true .ok), .call (.suspend .answered .ok),
        .call (.resume (resumeWith .lostAfter)),
        .call (.resume (resumeWith (.refused ⟨mxmErrRecordDelete, by decide⟩)))] =
      some rejectedWorld := rfl
  refine ⟨Reaches.refl.of_execute (fun _ _ _ => trivial) hexec, rfl, ?_, rfl⟩
  exact List.not_mem_nil

end UbsMem
