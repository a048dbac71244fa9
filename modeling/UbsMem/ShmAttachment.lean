import UbsMem.ShmCells
import UbsMem.ShmTasks

/-! # Attached memories survive a crash

UBSE keeps a shared memory attached when the daemon dies, so the records that the daemon
leaves behind must tell the next one about it.  `ShmMap` writes a record before it
attaches, and `Recovery` makes an entry of it; but an entry without a process is dropped,
unless it says that the memory is being attached.

The handlers keep every attached memory *covered*: its entry has a process, or it is being
attached.  The cleaner does not: it takes the process out first and detaches then, and a
crash in between leaves a record that recovery drops.  A crash inside
`AddFullShareMemoryInfo`, between the two records that it writes, does the same.  `AttachRun`
admits the runs in which the cleaner and the handlers keep apart and the store has room, and
for these a crash outside of the two windows is survived.
-/
namespace UbsMem

open Function Option List
open Prog hiding ret call

/-! ### Tasks -/

namespace ShmTask

/-- The name on which a task may change something. -/
def site : ShmTask → Option Name
  | .map req _ => some req.name
  | .unmap name _ => some name
  | .deadProcess _ _ => none
  | .clean key _ => if key.timeOutScene && !key.isAttach then none else some key.name

/-- A task that takes the mutex of its name. -/
def IsHandler : ShmTask → Prop
  | .map _ _ => True
  | .unmap _ _ => True
  | _ => False

/-- **What must not overlap**: tasks on one name, unless both take its mutex. -/
def Apart (l l' : ShmTask) : Prop :=
  ∀ n, l.site = some n → l'.site = some n → l.IsHandler ∧ l'.IsHandler

theorem Apart.symm {l l' : ShmTask} (h : l.Apart l') : l'.Apart l :=
  fun n hl' hl => (h n hl hl').symm

end ShmTask

section World

variable {S : Type}

/-- **What is relied on in the replies of UBSE**: an attach that it refuses has not
attached, and a memory that it does not find attached is not attached. -/
def Truthful : (c : ShmCall) → ShmWorld S → c.Reply → ShmWorld S → Prop
  | .shmAttach name _, s, r, s' => r.1 ≠ ubsmOk → s'.attached name = s.attached name
  | .shmDetach name, _, r, s' => r = mxmErrUbseNotAttach → s'.attached name = false
  | _, _, _, _ => True

/-- The calls, with a truthful UBSE. -/
def truthfulSem (rs : ShmRecords S) (mutexOf : Name → Nat) (t : Nat) (c : ShmCall)
    (s : ShmWorld S) (r : c.Reply) (s' : ShmWorld S) : Prop :=
  ShmWorld.sem rs mutexOf t c s r s' ∧ Truthful c s r s'

/-- An attached memory has a process, or it is being attached. -/
def Covered (s : ShmWorld S) (n : Name) : Prop :=
  s.attached n = true → ∃ memory, s.find n = some memory ∧ InUse memory

/-- An attached memory of which only the intent is recorded. -/
def Bare (s : ShmWorld S) (n : Name) : Prop :=
  s.attached n = true ∧ ∃ memory, s.find n = some memory ∧ memory.state = .preAdd

/-- An attached memory has a process. -/
def Settled (s : ShmWorld S) (n : Name) : Prop :=
  s.attached n = true → ∃ memory, s.find n = some memory ∧ memory.pids ≠ []

variable {s s' : ShmWorld S} {n : Name}

theorem Covered.settled (h : Covered s n) (hbare : ¬Bare s n) : Settled s n := by
  intro hn
  obtain ⟨memory, hfind, hstate | hpids⟩ := h hn
  · exact absurd ⟨hn, memory, hfind, hstate⟩ hbare
  · exact ⟨memory, hfind, hpids⟩

variable {imports : S → Name → Option ShareMemImportInfo} {refs : S → Name → UInt32 → Nat}

theorem Covered.of_same (h : Covered s n) (hsame : SameCell imports refs s s' n) :
    Covered s' n := by
  intro hn
  obtain ⟨memory, hfind, huse⟩ := h (hsame.attached ▸ hn)
  exact ⟨memory, hsame.entry.find.trans hfind, huse⟩

theorem Settled.of_same (h : Settled s n) (hsame : SameCell imports refs s s' n) :
    Settled s' n := by
  intro hn
  obtain ⟨memory, hfind, hpids⟩ := h (hsame.attached ▸ hn)
  exact ⟨memory, hsame.entry.find.trans hfind, hpids⟩

theorem Bare.of_same (h : Bare s' n) (hsame : SameCell imports refs s s' n) : Bare s n := by
  obtain ⟨hn, memory, hfind, hstate⟩ := h
  exact ⟨hsame.attached ▸ hn, memory, hsame.entry.find.symm.trans hfind, hstate⟩

end World

/-! ### What the tasks rely on and guarantee -/

section Protocol

variable {S : Type} (imports : S → Name → Option ShareMemImportInfo)
  (refs : S → Name → UInt32 → Nat) (ok : S → Prop) (mutexOf : Name → Nat)

/-- Every attached memory is held, and one of which only the intent is recorded is in the
hands of a handler. -/
structure AttachInv (s : ShmWorld S) : Prop where
  sound : ok s.manager.store
  names : NamesMatch s
  held : ∀ n, s.attached n = true → ∃ memory, Holds imports refs s.manager n memory
  bare : ∀ n, Bare s n → s.locks (mutexOf n) ≠ none

/-- What a handler finds unchanged while it holds the mutex of its name. -/
def UnderMutex (t : Nat) (name : Name) (s s' : ShmWorld S) : Prop :=
  s.locks (mutexOf name) = some t → s'.locks (mutexOf name) = some t ∧
    SameCell imports refs s s' name ∧ ∀ n, mutexOf n = mutexOf name → Bare s' n → Bare s n

/-- What a handler does: it changes its own name, under the mutex, and keeps it covered. -/
structure MutexGuar (t : Nat) (name : Name) (s s' : ShmWorld S) : Prop where
  locks : ∀ i t', t' ≠ t → s.locks i = some t' → s'.locks i = some t'
  cells : ∀ n, n ≠ name ∨ s.locks (mutexOf n) ≠ some t → SameCell imports refs s s' n
  covered : Covered s name → Covered s' name

/-- What a pass of the cleaner does: it changes its own name only, and to roll back an
attach it does not take a process out. -/
structure CleanGuar (key : DelayRemovedKey) (site : Option Name) (s s' : ShmWorld S) : Prop where
  locks : s'.locks = s.locks
  cells : ∀ n, site ≠ some n → SameCell imports refs s s' n
  bare : ∀ n, Bare s' n → Bare s n
  covered : key.timeOutScene = true → ∀ n, Covered s n → Covered s' n

namespace ShmTask

/-- What a thread may find changed between its calls. -/
def AttachRely (t : Nat) (l : ShmTask) (s s' : ShmWorld S) : Prop :=
  match l with
  | .map req _ => UnderMutex imports refs mutexOf t req.name s s'
  | .unmap name _ => UnderMutex imports refs mutexOf t name s s'
  | .deadProcess _ _ => True
  | .clean key e => ∀ n, (ShmTask.clean key e).site = some n → SameCell imports refs s s' n

/-- What a thread leaves to the others; the handling of dead processes is not part of the
runs. -/
def AttachGuar (t : Nat) (l : ShmTask) (s s' : ShmWorld S) : Prop :=
  match l with
  | .map req _ => MutexGuar imports refs mutexOf t req.name s s'
  | .unmap name _ => MutexGuar imports refs mutexOf t name s s'
  | .deadProcess _ _ => False
  | .clean key e => CleanGuar imports refs key (ShmTask.clean key e).site s s'

/-- A pass for a dead process ends with its memory covered. -/
def AttachGood (l : ShmTask) (c : ShmCall) (s : ShmWorld S) : Prop :=
  match l with
  | .clean key _ => key.timeOutScene = false → c = .eraseKey key → Covered s key.name
  | _ => True

/-- **Room in the store**: when an attach is completed, and when the cleaner gives a memory
that it could not detach back to its process. -/
def Room (refRoom : Nat → Name → S → Prop) (resultRoom : Name → ShareMemImportResult → S → Prop) :
    ShmTask → ShmCall → ShmWorld S → Prop
  | .map _ _, .addFullShareMemoryInfo name pid result, s =>
    resultRoom name result s.manager.store ∧ refRoom pid name s.manager.store
  | .clean _ _, .addMemoryUserInfo name pid, s =>
    s.attached name = true → refRoom pid name s.manager.store
  | _, _, _ => True

end ShmTask

variable {imports refs ok mutexOf} {t t' : Nat} {name : Name} {s s' s₁ s₂ : ShmWorld S}

theorem UnderMutex.refl (s : ShmWorld S) : UnderMutex imports refs mutexOf t name s s :=
  fun hlock => ⟨hlock, .refl s name, fun _ _ h => h⟩

theorem UnderMutex.trans (h₁ : UnderMutex imports refs mutexOf t name s s₁)
    (h₂ : UnderMutex imports refs mutexOf t name s₁ s₂) :
    UnderMutex imports refs mutexOf t name s s₂ := by
  intro hlock
  obtain ⟨hlock₁, hsame₁, hbare₁⟩ := h₁ hlock
  obtain ⟨hlock₂, hsame₂, hbare₂⟩ := h₂ hlock₁
  exact ⟨hlock₂, hsame₁.trans hsame₂, fun n hn hbare => hbare₁ n hn (hbare₂ n hn hbare)⟩

theorem MutexGuar.underMutex {n : Name} (h : MutexGuar imports refs mutexOf t name s s')
    (hne : t ≠ t') : UnderMutex imports refs mutexOf t' n s s' := by
  intro hlock
  -- a name with the mutex that `t'` holds is not one that `t` may change
  have hsame : ∀ m, mutexOf m = mutexOf n → SameCell imports refs s s' m := by
    intro m hm
    refine h.cells m (.inr ?_)
    rw [hm, hlock]
    simpa using hne.symm
  exact ⟨h.locks _ t' hne.symm hlock, hsame n rfl, fun m hm hbare => hbare.of_same (hsame m hm)⟩

theorem CleanGuar.underMutex {key : DelayRemovedKey} {site : Option Name}
    (h : CleanGuar imports refs key site s s') (hsite : site ≠ some name) :
    UnderMutex imports refs mutexOf t name s s' := by
  intro hlock
  exact ⟨by rwa [h.locks], h.cells name hsite, fun n _ => h.bare n⟩

theorem ShmTask.attachRely_refl (t : Nat) (l : ShmTask) (s : ShmWorld S) :
    l.AttachRely imports refs mutexOf t s s := by
  cases l with
  | map req uds | unmap name uds => exact .refl s
  | deadProcess now pid => trivial
  | clean key expiresTime => exact fun n _ => .refl s n

theorem ShmTask.attachRely_trans (t : Nat) (l : ShmTask) (s s₁ s₂ : ShmWorld S)
    (h₁ : l.AttachRely imports refs mutexOf t s s₁)
    (h₂ : l.AttachRely imports refs mutexOf t s₁ s₂) :
    l.AttachRely imports refs mutexOf t s s₂ := by
  cases l with
  | map req uds | unmap name uds => exact UnderMutex.trans h₁ h₂
  | deadProcess now pid => trivial
  | clean key expiresTime => exact fun n hn => (h₁ n hn).trans (h₂ n hn)

theorem MutexGuar.rely {l l' : ShmTask} (hl : l.site = some name) (hne : t ≠ t')
    (hapart : l.Apart l') (h : MutexGuar imports refs mutexOf t name s s') :
    l'.AttachRely imports refs mutexOf t' s s' := by
  cases l' with
  | map req uds | unmap n uds => exact h.underMutex hne
  | deadProcess now pid => trivial
  | clean key expiresTime =>
    intro n hn
    refine h.cells n (.inl ?_)
    rintro rfl
    exact (hapart n hl hn).2

theorem ShmTask.attachGuar_rely (t t' : Nat) (l l' : ShmTask) (s s' : ShmWorld S) (hne : t ≠ t')
    (hapart : l.Apart l') (h : l.AttachGuar imports refs mutexOf t s s') :
    l'.AttachRely imports refs mutexOf t' s s' := by
  cases l with
  | map req uds | unmap name uds => exact MutexGuar.rely rfl hne hapart h
  | deadProcess now pid => exact h.elim
  | clean key expiresTime =>
    have hsite : ∀ n, l'.site = some n → (ShmTask.clean key expiresTime).site ≠ some n :=
      fun n hl' hl => (hapart n hl hl').1
    cases l' with
    | map req uds => exact CleanGuar.underMutex h (hsite req.name rfl)
    | unmap n uds => exact CleanGuar.underMutex h (hsite n rfl)
    | deadProcess now pid => trivial
    | clean key' e' => exact fun n hn => h.cells n (hsite n hn)

variable (imports refs ok mutexOf) in
/-- The tasks as a protocol. -/
def attachProtocol (rs : ShmRecords S) (refRoom : Nat → Name → S → Prop)
    (resultRoom : Name → ShareMemImportResult → S → Prop) :
    Protocol Nat ShmTask (truthfulSem rs mutexOf) where
  rely t l := l.AttachRely imports refs mutexOf t
  guar t l := l.AttachGuar imports refs mutexOf t
  inv := AttachInv imports refs ok mutexOf
  assume _ l := l.Room refRoom resultRoom
  expects _ _ _ _ := True
  good _ l := l.AttachGood
  compat := ShmTask.Apart
  rely_refl := ShmTask.attachRely_refl
  rely_trans := ShmTask.attachRely_trans
  guar_rely t t' l l' s s' hne hapart _ := ShmTask.attachGuar_rely t t' l l' s s' hne hapart

end Protocol

/-! ### One call under the mutex -/

section Mutex

variable {S α : Type} {imports : S → Name → Option ShareMemImportInfo}
  {refs : S → Name → UInt32 → Nat} {ok : S → Prop} {mutexOf : Name → Nat} {rs : ShmRecords S}
  {fits : Name → Prop} {t pid : Nat} {name : Name} {s s' : ShmWorld S} {c : ShmCall} {r : c.Reply}
  {A : ShmWorld S → Prop} {p : ShmProg α} {uds : AppContext} {req : ShmMapRequest}

variable (mutexOf) in
/-- A handler holds the mutex of its name, and no other name of this mutex is being
attached. -/
structure InMutex (t : Nat) (name : Name) (s : ShmWorld S) : Prop where
  lock : s.locks (mutexOf name) = some t
  alone : ∀ n, mutexOf n = mutexOf name → n ≠ name → ¬Bare s n

theorem InMutex.rely (h : InMutex mutexOf t name s)
    (hrely : UnderMutex imports refs mutexOf t name s s') : InMutex mutexOf t name s' := by
  obtain ⟨hlock, -, hbare⟩ := hrely h.lock
  exact ⟨hlock, fun n hn hne hb => h.alone n hn hne (hbare n hn hb)⟩

/-- A call on one name that neither locks nor unlocks. -/
def ShmCall.Within (name : Name) (c : ShmCall) : Prop :=
  c.plain = true ∧ ∀ n, c.cell = some n → n = name

theorem ShmCall.Within.of_cell (hplain : c.plain = true) (hcell : c.cell = some name) :
    c.Within name := ⟨hplain, fun _ hn => some.inj (hn.symm.trans hcell)⟩

theorem ShmCall.Within.of_none (hplain : c.plain = true) (hcell : c.cell = none) : c.Within name :=
  ⟨hplain, fun _ hn => nomatch hcell.symm.trans hn⟩

variable (imports refs) in
/-- What a call of a handler owes to its own name. -/
def KeepsName (name : Name) (s s' : ShmWorld S) : Prop :=
  (s'.attached name = true → ∃ memory, Holds imports refs s'.manager name memory) ∧
    (Covered s name → Covered s' name)

theorem not_bare_of_detached (h : s.attached name = false) : ¬Bare s name := by
  rintro ⟨hn, -⟩
  simp [h] at hn

theorem KeepsName.of_detached (h : s'.attached name = false) :
    KeepsName imports refs name s s' := by
  refine ⟨fun hn => ?_, fun _ hn => ?_⟩ <;> simp [h] at hn

theorem KeepsName.of_same (hinv : AttachInv imports refs ok mutexOf s)
    (hsame : SameCell imports refs s s' name) : KeepsName imports refs name s s' := by
  refine ⟨fun hn => ?_, fun hcovered => hcovered.of_same hsame⟩
  obtain ⟨memory, hheld⟩ := hinv.held name (hsame.attached ▸ hn)
  exact ⟨memory, hheld.of_same hsame.entry⟩

/-- **A call under the mutex** keeps the invariant and the guarantee if it keeps its own
name. -/
theorem InMutex.step (hlaw : rs.Lawful imports refs fits ok)
    (hinv : AttachInv imports refs ok mutexOf s) (hin : InMutex mutexOf t name s)
    (hc : c.Within name)
    (hfits : ∀ n size pid, c = .prepareAddShareMemoryInfo n size pid → fits n)
    (hsem : ShmWorld.sem rs mutexOf t c s r s') (hkeeps : KeepsName imports refs name s s') :
    AttachInv imports refs ok mutexOf s' ∧ MutexGuar imports refs mutexOf t name s s' ∧
      InMutex mutexOf t name s' := by
  obtain ⟨hsound, hcells⟩ := cells_of_sem hlaw hinv.sound hfits hsem
  have hlocks := locks_of_sem hsem hc.1
  have hother : ∀ n, n ≠ name → SameCell imports refs s s' n :=
    fun n hn => hcells n fun hcell => hn (hc.2 n hcell)
  refine ⟨⟨hsound, hinv.names.step hsem, fun n hn => ?_, fun n hb => ?_⟩,
    ⟨?_, ?_, hkeeps.2⟩, ?_, ?_⟩
  · by_cases hname : n = name
    · exact hname ▸ hkeeps.1 (hname ▸ hn)
    · obtain ⟨memory, hheld⟩ := hinv.held n ((hother n hname).attached ▸ hn)
      exact ⟨memory, hheld.of_same (hother n hname).entry⟩
  · rw [hlocks]
    by_cases hname : n = name
    · rw [hname, hin.lock]
      simp
    · exact hinv.bare n (hb.of_same (hother n hname))
  · intro i t' _ hi
    rwa [hlocks]
  · rintro n (hname | hlock)
    · exact hother n hname
    · refine hother n ?_
      rintro rfl
      exact hlock hin.lock
  · rw [hlocks]
    exact hin.lock
  · intro n hn hname hb
    exact hin.alone n hn hname (hb.of_same (hother n hname))

variable (imports refs ok mutexOf rs) in
/-- The safety of a program of a handler under the protocol. -/
abbrev MutexSafe (t : Nat) (name : Name) (assume : ShmCall → ShmWorld S → Prop)
    (p : ShmProg Unit) (s : ShmWorld S) : Prop :=
  Prog.Safe (truthfulSem rs mutexOf t) (UnderMutex imports refs mutexOf t name)
    (MutexGuar imports refs mutexOf t name) (AttachInv imports refs ok mutexOf) assume
    (fun _ _ => True) p s

variable {assume : ShmCall → ShmWorld S → Prop} {k : c.Reply → ShmProg Unit}

section

variable (hlaw : rs.Lawful imports refs fits ok)
  (hA : ∀ s s', A s → SameCell imports refs s s' name → A s')

include hlaw hA

/-- The rule for a call under the mutex; `A` is what is known about the name. -/
theorem MutexSafe.call (hc : c.Within name)
    (hfits : ∀ n size pid, c = .prepareAddShareMemoryInfo n size pid → fits n)
    (hin : InMutex mutexOf t name s) (hs : A s)
    (hnext : ∀ s₁ r s₂, AttachInv imports refs ok mutexOf s₁ → A s₁ → assume c s₁ →
      truthfulSem rs mutexOf t c s₁ r s₂ → KeepsName imports refs name s₁ s₂ ∧
        (InMutex mutexOf t name s₂ → MutexSafe imports refs ok mutexOf rs t name assume (k r) s₂)) :
    MutexSafe imports refs ok mutexOf rs t name assume (.call c k) s := by
  intro s₁ hrely hinv hassume
  refine ⟨trivial, fun r s₂ hsem => ?_⟩
  have hA₁ := hA s s₁ hs (hrely hin.lock).2.1
  obtain ⟨hkeeps, hsafe⟩ := hnext s₁ r s₂ hinv hA₁ hassume hsem
  obtain ⟨hinv₂, hguar, hin₂⟩ := (hin.rely hrely).step hlaw hinv hc hfits hsem.1 hkeeps
  exact ⟨hinv₂, hguar, hsafe hin₂⟩

theorem MutexSafe.look (hplain : c.plain = true) (hcell : c.cell = none)
    (hin : InMutex mutexOf t name s) (hs : A s)
    (hnext : ∀ s₁ r s₂, AttachInv imports refs ok mutexOf s₁ → A s₁ →
      truthfulSem rs mutexOf t c s₁ r s₂ → SameCell imports refs s₁ s₂ name →
      InMutex mutexOf t name s₂ → MutexSafe imports refs ok mutexOf rs t name assume (k r) s₂) :
    MutexSafe imports refs ok mutexOf rs t name assume (.call c k) s := by
  have hfits : ∀ n size pid, c = .prepareAddShareMemoryInfo n size pid → fits n := by
    rintro n size pid rfl
    cases hcell
  refine MutexSafe.call hlaw hA (.of_none hplain hcell) hfits hin hs ?_
  intro s₁ r s₂ hinv hA₁ _ hsem
  have hsame := (sameCells_of_sem hlaw hinv.sound hcell hsem.1).2 name
  exact ⟨.of_same hinv hsame, hnext s₁ r s₂ hinv hA₁ hsem hsame⟩

end

theorem MutexSafe.unlock (hin : InMutex mutexOf t name s) (hbare : ¬Bare s name) :
    MutexSafe imports refs ok mutexOf rs t name assume (.call (.unlock name) fun _ => .ret ())
    s := by
  intro s₁ hrely hinv _
  refine ⟨trivial, fun _ s₂ hsem => ?_⟩
  have hin₁ := hin.rely hrely
  have hbare₁ : ¬Bare s₁ name := fun hb => hbare (hb.of_same (hrely hin.lock).2.1)
  have hlocks : ∀ i t', t' ≠ t → s₁.locks i = some t' → s₂.locks i = some t' :=
    fun _ _ => locks_of_unlock hsem.1 hin₁.lock
  obtain ⟨rfl, -⟩ := hsem
  refine ⟨{ hinv with bare := fun n hb => ?_ }, ⟨hlocks,
    fun n _ => ⟨.refl _ n, rfl⟩, id⟩, safe_ret _ _⟩
  -- no name of the mutex that is released is being attached
  have hn : mutexOf n ≠ mutexOf name := by
    intro hn
    by_cases hname : n = name
    · exact hbare₁ (hname ▸ hb)
    · exact hin₁.alone n hn hname hb
  dsimp only
  rw [update_of_ne hn]
  exact hinv.bare n hb

theorem MutexSafe.lock {k : Unit → ShmProg Unit}
    (hk : ∀ s, InMutex mutexOf t name s → ¬Bare s name →
      MutexSafe imports refs ok mutexOf rs t name assume (k ()) s) :
    MutexSafe imports refs ok mutexOf rs t name assume (.call (.lock name) k) s := by
  intro s₁ _ hinv _
  refine ⟨trivial, fun _ s₂ hsem => ?_⟩
  have hlocks : ∀ i t', t' ≠ t → s₁.locks i = some t' → s₂.locks i = some t' :=
    fun _ _ _ => locks_of_lock hsem.1
  obtain ⟨⟨hfree, rfl⟩, -⟩ := hsem
  have hnone : ∀ n, mutexOf n = mutexOf name → ¬Bare s₁ n :=
    fun n hn hb => hinv.bare n hb (hn ▸ hfree)
  refine ⟨{ hinv with bare := fun n hb => ?_ }, ⟨hlocks,
    fun n _ => ⟨.refl _ n, rfl⟩, id⟩, hk _ ⟨update_self .., fun n hn _ => hnone n hn⟩
      (hnone name rfl)⟩
  have hn : mutexOf n ≠ mutexOf name := fun hn => hnone n hn hb
  dsimp only
  rw [update_of_ne hn]
  exact hinv.bare n hb

/-! ### What the calls do to a name -/

theorem detached_of_sem (hsem : ShmWorld.sem rs mutexOf t c s r s')
    (hattach : ∀ n info, c ≠ .shmAttach n info) (h : s.attached name = false) :
    s'.attached name = false := by
  by_cases hdetach : ∃ n, c = .shmDetach n
  · obtain ⟨n, rfl⟩ := hdetach
    obtain ⟨attached, hattached, rfl⟩ := hsem
    by_cases hn : name = n
    · subst hn
      refine (update_self ..).trans ?_
      split_ifs at hattached
      · exact hattached
      · rcases hattached with hfalse | hsame
        · exact hfalse
        · exact hsame.trans h
    · exact (update_of_ne hn _ _).trans h
  · rw [attached_of_sem hsem hattach fun n hn => hdetach ⟨n, hn⟩]
    exact h

variable {memory : AttachedShareMemory} {r : Int}

theorem keepsName_of_holds (hinv : AttachInv imports refs ok mutexOf s)
    (hattached : s'.attached = s.attached) (hbare : ¬Bare s name)
    (hheld : ∀ memory, Holds imports refs s.manager name memory → ∃ memory',
      Holds imports refs s'.manager name memory' ∧
      (memory'.state = .preAdd → memory.state = .preAdd) ∧
        (memory.pids ≠ [] → memory'.pids ≠ [])) :
    KeepsName imports refs name s s' ∧ ¬Bare s' name := by
  by_cases hn : s.attached name = true
  · obtain ⟨memory, hold⟩ := hinv.held name hn
    obtain ⟨memory', hnew, hstate, hpids⟩ := hheld memory hold
    refine ⟨⟨fun _ => ⟨memory', hnew⟩, fun hcovered _ => ⟨memory', hnew.find, .inr (hpids ?_)⟩⟩, ?_⟩
    · obtain ⟨_, hfind, hsettled⟩ := hcovered.settled hbare hn
      obtain rfl := some.inj (hold.find.symm.trans hfind)
      exact hsettled
    · rintro ⟨-, _, hfind, hpre⟩
      obtain rfl := some.inj (hnew.find.symm.trans hfind)
      exact hbare ⟨hn, memory, hold.find, hstate hpre⟩
  · have hfalse : s'.attached name = false := by simpa [hattached] using hn
    exact ⟨.of_detached hfalse, not_bare_of_detached hfalse⟩

section

variable (hlaw : rs.Lawful imports refs fits ok) (hinv : AttachInv imports refs ok mutexOf s)

include hlaw hinv

theorem keepsName_mark {state : RecordState} (hdeleted : state ≠ .deleted)
    (hpreAdd : state ≠ .preAdd)
    (hsem : ShmWorld.sem rs mutexOf t (.updateShareMemoryRecordState name state) s r s')
    (hbare : ¬Bare s name) : KeepsName imports refs name s s' ∧ ¬Bare s' name := by
  refine keepsName_of_holds hinv (attached_of_sem hsem (by simp) (by simp)) hbare
    fun memory hheld => ?_
  obtain ⟨-, rfl⟩ := hsem
  exact ⟨_, (hheld.mark hlaw hinv.sound hdeleted).2, fun h => absurd h hpreAdd, id⟩

theorem keepsName_addUser (hpid : pid < 2 ^ 32)
    (hsem : ShmWorld.sem rs mutexOf t (.addMemoryUserInfo name pid) s r s') (hbare : ¬Bare s name) :
    KeepsName imports refs name s s' ∧ ¬Bare s' name := by
  refine keepsName_of_holds hinv (attached_of_sem hsem (by simp) (by simp)) hbare
    fun memory hheld => ?_
  obtain ⟨-, rfl⟩ := hsem
  rcases hheld.addUser hlaw hinv.sound hpid with ⟨-, hnew⟩ | ⟨-, hnew⟩
  · exact ⟨_, hnew, id, id⟩
  · exact ⟨_, hnew, id, fun _ => ne_nil_of_mem mem_insert_self⟩

theorem keepsName_removeUser
    (hsem : ShmWorld.sem rs mutexOf t (.removeMemoryUserInfo name pid) s r s')
    (hmany : 1 < (s.users name).length) (hbare : ¬Bare s name) :
    KeepsName imports refs name s s' ∧ ¬Bare s' name := by
  refine keepsName_of_holds hinv (attached_of_sem hsem (by simp) (by simp)) hbare
    fun memory hheld => ?_
  rw [users_of_some hheld.find] at hmany
  obtain ⟨-, rfl⟩ := hsem
  rcases hheld.removeUser hlaw hinv.sound pid with hnew | hnew
  · exact ⟨_, hnew, id, id⟩
  · refine ⟨_, hnew, id, fun _ => ?_⟩
    have hlen : memory.pids.length - 1 ≤ (memory.pids.erase pid).length := le_length_erase
    have hpos : 0 < (memory.pids.erase pid).length := by omega
    exact ne_nil_of_length_pos hpos

end

theorem sameCell_or_detached (hsem : ShmWorld.sem rs mutexOf t (.shmDetach name) s r s') :
    s'.attached name = false ∨ r ≠ ubsmOk ∧ SameCell imports refs s s' name := by
  obtain ⟨attached, hattached, rfl⟩ := hsem
  split_ifs at hattached with hr
  · exact .inl ((update_self ..).trans hattached)
  · rcases hattached with hfalse | hsame
    · exact .inl ((update_self ..).trans hfalse)
    · exact .inr ⟨hr, .refl _ name, (update_self ..).trans hsame⟩

/-! ### The handlers -/

/-- A call on one name that does not attach it. -/
def ShmCall.Quiet (name : Name) (c : ShmCall) : Prop :=
  c.Within name ∧ (∀ n info, c ≠ .shmAttach n info) ∧
    ∀ n size pid, c ≠ .prepareAddShareMemoryInfo n size pid

section

variable (hlaw : rs.Lawful imports refs fits ok) (hp : p.All (ShmCall.Quiet name))
  (hin : InMutex mutexOf t name s) (h : s.attached name = false)

include hlaw hp hin h

/-- What a handler does with a name that is not attached, up to the release of the mutex. -/
theorem MutexSafe.quiet {f : α → ShmProg Unit}
    (hf : ∀ a s, InMutex mutexOf t name s → s.attached name = false →
      MutexSafe imports refs ok mutexOf rs t name assume (f a) s) :
    MutexSafe imports refs ok mutexOf rs t name assume (p >>= f) s := by
  refine safe_bind_of_all (I := fun s => InMutex mutexOf t name s ∧ s.attached name = false) ?_ (fun
    _ _ _ _ _ => trivial) ?_ hp (fun a s hs => hf a s hs.1 hs.2) ⟨hin, h⟩
  · rintro s s₁ ⟨hin, h⟩ hrely
    exact ⟨hin.rely hrely, (hrely hin.lock).2.1.attached.trans h⟩
  · rintro c s r s' ⟨hwithin, hattach, hprepare⟩ ⟨hin, h⟩ hinv hsem
    have hfalse := detached_of_sem hsem.1 hattach h
    obtain ⟨hinv', hguar, hin'⟩ := hin.step hlaw hinv hwithin
      (fun n size pid heq => absurd heq (hprepare n size pid)) hsem.1 (.of_detached hfalse)
    exact ⟨hinv', hguar, hin', hfalse⟩

theorem MutexSafe.quiet_unlock : MutexSafe imports refs ok mutexOf rs t name assume
      (p >>= fun _ => .call (.unlock name) fun _ => .ret ()) s :=
  .quiet hlaw hp hin h fun _ _ hin h => .unlock hin (not_bare_of_detached h)

end

theorem not_bare_of_same (s s' : ShmWorld S) (h : ¬Bare s name)
    (hsame : SameCell imports refs s s' name) : ¬Bare s' name :=
  fun hb => h (hb.of_same hsame)

variable {refRoom : Nat → Name → S → Prop} {resultRoom : Name → ShareMemImportResult → S → Prop}

section

variable (hlaw : rs.Lawful imports refs fits ok) (haccept : rs.Accepts imports refRoom resultRoom)

include hlaw haccept

theorem safe_attached (hpid : uds.pid < 2 ^ 32) {result : ShareMemImportResult}
    (res : Int → Int × ShmMapResponse) {res' : Int × ShmMapResponse}
    (hin : InMutex mutexOf t req.name s) (hn : s.attached req.name = true) :
    MutexSafe imports refs ok mutexOf rs t req.name ((ShmTask.map req uds).Room refRoom resultRoom)
      (.call (.addFullShareMemoryInfo req.name uds.pid result) fun hr =>
        (if hr ≠ 0 then rollBackAttachShareMemory req.name >>= fun _ => .ret (res hr)
          else .ret res' : ShmProg _) >>= fun _ => .call (.unlock req.name) fun _ => .ret ())
          s := by
  refine MutexSafe.call hlaw (fun s s' h hsame => hsame.attached.trans h) (.of_cell rfl rfl) (by
    simp) hin hn fun s₁ hr s₂ hinv hn₁ hroom hsem => ?_
  obtain ⟨memory, hheld⟩ := hinv.held req.name hn₁
  obtain ⟨hret, hnew⟩ := hheld.full hlaw haccept hinv.sound hpid hroom.1 hroom.2
  obtain ⟨⟨rfl, rfl⟩, -⟩ := hsem
  refine ⟨⟨fun _ => ⟨_, hnew⟩, fun _ _ => ⟨_, hnew.find, .inr ?_⟩⟩, fun hin₂ => ?_⟩
  · exact ne_nil_of_mem mem_insert_self
  · -- the store has room, so there is nothing to roll back
    have hzero : ¬(ShmManager.addFullShareMemoryInfo rs req.name uds.pid result s₁.manager).1 ≠ 0 :=
      not_not.mpr hret
    rw [if_neg hzero, ret_bind]
    refine .unlock hin₂ ?_
    rintro ⟨-, memory', hfind, hstate⟩
    obtain rfl := some.inj (hnew.find.symm.trans hfind)
    cases hstate

theorem safe_mmapInner (hfits : fits req.name) (hpid : uds.pid < 2 ^ 32)
    (hin : InMutex mutexOf t req.name s) (hbare : ¬Bare s req.name) :
    MutexSafe imports refs ok mutexOf rs t req.name ((ShmTask.map req uds).Room refRoom resultRoom)
      (shmMmapInner req uds >>= fun _ => .call (.unlock req.name) fun _ => .ret ()) s := by
  simp only [shmMmapInner, ask_eq, call_bind, ret_bind]
  refine MutexSafe.look hlaw not_bare_of_same rfl rfl hin hbare ?_
  rintro s₁ ⟨rt, info⟩ s₂ _ hbare₁ _ hsame hin₂
  have hbare₂ := not_bare_of_same s₁ s₂ hbare₁ hsame
  split_ifs
  · exact .unlock hin₂ hbare₂
  · exact .unlock hin₂ hbare₂
  -- the record and the entry are made before the attach
  refine MutexSafe.call hlaw not_bare_of_same (.of_cell rfl rfl) ?_ hin₂ hbare₂ ?_
  · rintro n size pid ⟨⟩
    exact hfits
  intro s₃ hr s₄ hinv₃ hbare₃ _ hsem₄
  obtain ⟨⟨hreply, rfl⟩, -⟩ := hsem₄
  rcases prepareAddShareMemoryInfo_at hlaw hinv₃.sound hfits req.size uds.pid with
    ⟨hret, hsame₄⟩ | ⟨hret, hnone, hheld⟩
  · have hcell : SameCell imports refs s₃ { s₃ with
        manager := (s₃.manager.prepareAddShareMemoryInfo rs req.name req.size uds.pid).2 }
        req.name := ⟨hsame₄, rfl⟩
    refine ⟨.of_same hinv₃ hcell, fun hin₄ => ?_⟩
    have hfailed : hr ≠ 0 := hreply ▸ hret
    dsimp only
    rw [if_pos hfailed]
    exact .unlock hin₄ (not_bare_of_same _ _ hbare₃ hcell)
  -- a name without an entry is not attached
  have hfalse : s₃.attached req.name = false := by
    by_contra hn
    obtain ⟨memory, hold⟩ := hinv₃.held req.name (by simpa using hn)
    rw [hold.find] at hnone
    cases hnone
  refine ⟨.of_detached hfalse, fun hin₄ => ?_⟩
  have hadded : ¬hr ≠ 0 := not_not.mpr (hreply.trans hret)
  dsimp only
  rw [if_neg hadded]
  refine MutexSafe.call hlaw
    (A := fun s => s.attached req.name = false ∧ ∃ memory, memory.state = .preAdd ∧
      Holds imports refs s.manager req.name memory) ?_ (.of_cell rfl rfl) (by simp) hin₄
    ⟨hfalse, _, rfl, hheld⟩ ?_
  · rintro s s' ⟨h, memory, hstate, hheld⟩ hsame
    exact ⟨hsame.attached.trans h, memory, hstate, hheld.of_same hsame.entry⟩
  rintro s₅ ⟨hr, desc⟩ s₆ hinv₅ ⟨hfalse₅, memory, hstate, hheld₅⟩ _ ⟨hsem₆, htruthful⟩
  obtain ⟨now, attached, hattached₆, rfl⟩ := hsem₆
  by_cases hret₆ : hr = ubsmOk
  · have hn : attached = true := by simpa [hret₆] using hattached₆
    refine ⟨⟨fun _ => ⟨memory, hheld₅⟩, fun _ _ => ⟨memory, hheld₅.find, .inl hstate⟩⟩,
      fun hin₆ => ?_⟩
    have hdone : ¬hr ≠ 0 := not_not.mpr hret₆
    dsimp only
    rw [if_neg hdone]
    exact safe_attached hlaw haccept hpid (fun hr => (hr, .error hr)) hin₆
      ((update_self ..).trans hn)
  · have hfalse₆ := (htruthful hret₆).trans hfalse₅
    refine ⟨.of_detached hfalse₆, fun hin₆ => ?_⟩
    have hfailed : hr ≠ 0 := hret₆
    dsimp only
    rw [if_pos hfailed]
    refine MutexSafe.quiet_unlock hlaw ?_ hin₆ hfalse₆
    simp [ShmCall.Quiet, ShmCall.Within]

end

theorem AttachInv.not_deleted (hinv : AttachInv imports refs ok mutexOf s)
    (hfind : s.find name = some memory) (hstate : memory.state = .deleted) :
    s.attached name = false := by
  by_contra hn
  obtain ⟨memory', hheld⟩ := hinv.held name (by simpa using hn)
  obtain rfl : memory' = memory := some.inj (hheld.find.symm.trans hfind)
  exact hheld.live hstate

section

variable (hlaw : rs.Lawful imports refs fits ok) {uds : AppContext} {req : ShmMapRequest}

include hlaw

/-- A call before the mutex is taken that changes nothing about any name. -/
theorem MutexSafe.before (hplain : c.plain = true) (hcell : c.cell = none)
    (hnext : ∀ r s, MutexSafe imports refs ok mutexOf rs t name assume (k r) s) :
    MutexSafe imports refs ok mutexOf rs t name assume (.call c k) s := by
  intro s₁ _ hinv _
  refine ⟨trivial, fun r s₂ hsem => ?_⟩
  obtain ⟨hsound, hsame⟩ := sameCells_of_sem hlaw hinv.sound hcell hsem.1
  have hlocks := locks_of_sem hsem.1 hplain
  refine ⟨⟨hsound, hinv.names.step hsem.1, fun n hn => ?_, fun n hb => ?_⟩,
    ⟨fun i t' _ hi => ?_, fun n _ => hsame n, fun h => h.of_same (hsame name)⟩, hnext r s₂⟩
  · obtain ⟨memory, hheld⟩ := hinv.held n ((hsame n).attached ▸ hn)
    exact ⟨memory, hheld.of_same (hsame n).entry⟩
  · rw [hlocks]
    exact hinv.bare n (hb.of_same (hsame n))
  · rwa [hlocks]

theorem safe_mapLocked (haccept : rs.Accepts imports refRoom resultRoom) (hfits : fits req.name)
    (hpid : uds.pid < 2 ^ 32) (hin : InMutex mutexOf t req.name s) (hbare : ¬Bare s req.name) :
    MutexSafe imports refs ok mutexOf rs t req.name ((ShmTask.map req uds).Room refRoom resultRoom)
      (shmMapLocked req uds >>= fun _ => .call (.unlock req.name) fun _ => .ret ()) s := by
  simp only [shmMapLocked, ask_eq, call_bind, ret_bind]
  refine MutexSafe.look hlaw not_bare_of_same rfl rfl hin hbare ?_
  intro s₁ found s₂ hinv₁ hbare₁ hsem hsame hin₂
  have hbare₂ := not_bare_of_same s₁ s₂ hbare₁ hsame
  obtain ⟨⟨hfound, -⟩, -⟩ := hsem
  cases found with
  | none => exact safe_mmapInner hlaw haccept hfits hpid hin₂ hbare₂
  | some memory =>
    have hfind : s₁.find req.name = some memory := hfound.symm
    dsimp only
    split_ifs with hfinish hdeleted
    · -- another process of an attached memory
      simp only [handleExistingShm, ask_eq, call_bind, ret_bind]
      split_ifs
      · exact .unlock hin₂ hbare₂
      · refine MutexSafe.call hlaw not_bare_of_same (.of_cell rfl rfl)
          (by simp) hin₂ hbare₂ fun s₃ ret s₄ hinv₃ hbare₃ _ hsem₄ => ?_
        obtain ⟨hkeeps, hbare₄⟩ := keepsName_addUser hlaw hinv₃ hpid hsem₄.1 hbare₃
        refine ⟨hkeeps, fun hin₄ => ?_⟩
        dsimp only
        split_ifs <;> exact .unlock hin₄ hbare₄
    · -- a deleted memory, which is not attached, is removed first
      have hname : memory.name = req.name := hinv₁.names req.name memory hfind
      have hfalse := hsame.attached.trans (hinv₁.not_deleted hfind hdeleted)
      rw [hname]
      refine MutexSafe.call hlaw (fun s s' h hsame => hsame.attached.trans h) (.of_cell rfl rfl) (by
        simp) hin₂ hfalse fun s₃ ret s₄ _ hfalse₃ _ hsem₄ => ?_
      have hfalse₄ := detached_of_sem hsem₄.1 (by simp) hfalse₃
      refine ⟨.of_detached hfalse₄, fun hin₄ => ?_⟩
      dsimp only
      split_ifs
      · exact .unlock hin₄ (not_bare_of_detached hfalse₄)
      · exact safe_mmapInner hlaw haccept hfits hpid hin₄ (not_bare_of_detached hfalse₄)
    · exact safe_mmapInner hlaw haccept hfits hpid hin₂ hbare₂

theorem attachSafe_map (haccept : rs.Accepts imports refRoom resultRoom) (t : Nat)
    (hfits : fits req.name) (hpid : uds.pid < 2 ^ 32) (s : ShmWorld S) :
    MutexSafe imports refs ok mutexOf rs t req.name ((ShmTask.map req uds).Room refRoom resultRoom)
      (ShmTask.map req uds).body s := by
  simp only [ShmTask.body, shmMap, ask_eq, Prog.call_bind, Prog.ret_bind]
  refine MutexSafe.before hlaw rfl rfl fun busy s₂ => ?_
  split_ifs
  · exact Prog.safe_ret _ _
  simp only [Prog.call_bind, Prog.bind_assoc]
  exact MutexSafe.lock fun s hin hbare => safe_mapLocked hlaw haccept hfits hpid hin hbare

theorem safe_unMapInner (hin : InMutex mutexOf t name s) (hbare : ¬Bare s name) :
    MutexSafe imports refs ok mutexOf rs t name assume
      (shmUnMapInner name uds >>= fun _ => .call (.unlock name) fun _ => .ret ()) s := by
  have hwithin : ∀ state, (ShmCall.updateShareMemoryRecordState name state).Within name :=
    fun _ => .of_cell rfl rfl
  simp only [shmUnMapInner, ask_eq, call_bind, ret_bind]
  refine MutexSafe.call hlaw not_bare_of_same (hwithin _) (by simp) hin hbare
    fun s₁ ret s₂ hinv₁ hbare₁ _ hsem₂ => ?_
  obtain ⟨hkeeps₂, hbare₂⟩ := keepsName_mark hlaw hinv₁ (by simp) (by simp) hsem₂.1 hbare₁
  refine ⟨hkeeps₂, fun hin₂ => ?_⟩
  split_ifs
  · exact .unlock hin₂ hbare₂
  refine MutexSafe.call hlaw not_bare_of_same (.of_cell rfl rfl) (by simp) hin₂ hbare₂
    fun s₃ hr s₄ hinv₃ hbare₃ _ hsem₄ => ?_
  rcases sameCell_or_detached hsem₄.1 with hfalse | ⟨hret, hsame⟩
  · refine ⟨.of_detached hfalse, fun hin₄ => MutexSafe.quiet_unlock hlaw ?_ hin₄ hfalse⟩
    simp [ShmCall.Quiet, ShmCall.Within]
  · refine ⟨.of_same hinv₃ hsame, fun hin₄ => ?_⟩
    have hbare₄ := not_bare_of_same s₃ s₄ hbare₃ hsame
    by_cases hnot : hr = mxmErrUbseNotAttach
    · -- UBSE says that the memory is not attached
      refine MutexSafe.quiet_unlock hlaw ?_ hin₄ (hsem₄.2 hnot)
      simp [ShmCall.Quiet, ShmCall.Within]
    · -- the memory stays attached, and with its process
      dsimp only
      rw [if_pos ⟨hret, hnot⟩]
      refine MutexSafe.call hlaw not_bare_of_same (hwithin _) (by simp) hin₄ hbare₄
        fun s₅ _ s₆ hinv₅ hbare₅ _ hsem₆ => ?_
      obtain ⟨hkeeps₆, hbare₆⟩ := keepsName_mark hlaw hinv₅ (by simp) (by simp) hsem₆.1 hbare₅
      exact ⟨hkeeps₆, fun hin₆ => .unlock hin₆ hbare₆⟩

theorem attachSafe_unmap (t : Nat) (name : Name) (uds : AppContext) (s : ShmWorld S) :
    MutexSafe imports refs ok mutexOf rs t name assume (ShmTask.unmap name uds).body s := by
  simp only [ShmTask.body, shmUnmap, Prog.bind_assoc]
  refine MutexSafe.lock fun s hin hbare => ?_
  simp only [shmUnmapLocked, ask_eq, Prog.call_bind, Prog.ret_bind]
  refine MutexSafe.look hlaw not_bare_of_same rfl rfl hin hbare ?_
  intro s₁ found s₂ hinv₁ hbare₁ hsem hsame hin₂
  have hbare₂ := not_bare_of_same s₁ s₂ hbare₁ hsame
  obtain ⟨⟨hfound, -⟩, -⟩ := hsem
  cases found with
  | none => exact .unlock hin₂ hbare₂
  | some memory =>
    dsimp only
    split_ifs with hdeleted
    · have hfalse := hsame.attached.trans (hinv₁.not_deleted hfound.symm hdeleted)
      refine MutexSafe.quiet_unlock hlaw ?_ hin₂ hfalse
      simp [ShmCall.Quiet, ShmCall.Within]
    · refine MutexSafe.look hlaw not_bare_of_same rfl rfl hin₂ hbare₂ ?_
      intro s₃ userNum s₄ hinv₃ hbare₃ hsem₄ hsame₄ hin₄
      have hbare₄ := not_bare_of_same s₃ s₄ hbare₃ hsame₄
      obtain ⟨⟨hcount, rfl⟩, -⟩ := hsem₄
      dsimp only
      split_ifs with hnum
      · -- the number of users is still what was counted
        rw [hcount] at hnum
        refine MutexSafe.call hlaw (A := fun s => ¬Bare s name ∧ 1 < (s.users name).length) ?_
          (.of_cell rfl rfl) (by simp) hin₄ ⟨hbare₄, hnum⟩ ?_
        · rintro s s' ⟨hb, hmany⟩ hsame
          exact ⟨not_bare_of_same s s' hb hsame, by rwa [users_of_find hsame.entry.find]⟩
        · rintro s₅ ret s₆ hinv₅ ⟨hbare₅, hmany⟩ _ hsem₆
          obtain ⟨hkeeps, hbare₆⟩ := keepsName_removeUser hlaw hinv₅ hsem₆.1 hmany hbare₅
          exact ⟨hkeeps, fun hin₆ => .unlock hin₆ hbare₆⟩
      · exact safe_unMapInner hlaw hin₄ hbare₄

end

end Mutex

end UbsMem
