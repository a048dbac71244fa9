import UbsMem.AttachRecovery
import UbsMem.ShmApp
import UbsMem.ShmSizes

/-! # The size in a response of `ShmMap`

The first mapping of an object is answered with the size that UBSE reports at the attach.
Later mappings are answered from the entry of the name, which a restart rebuilds from its
record, and the size there is the one that the first request asked for: nothing replaces
it by the size that UBSE has reported.  The application library compares the size in the
response with the one it asked for, and takes its mapping back if they differ; until then
another process that asks for the same wrong size is told that it is right
(`mapped_with_wrong_size`).

If the requests that make an entry ask for the real size, every entry and every record has
it in every state of the daemon, whatever sizes other requests ask for and however handlers,
cleaner and restarts are interleaved, and with them every response
(`response_carries_real_size`).
-/
namespace UbsMem

open Function Option
open Prog hiding ret call

/-! ### The application -/

namespace ShmApp

/-- The request of a mapping is answered with a response. -/
def Answered (response : ShmMapResponse) : (c : ShmAppCall) → c.Reply → Prop
  | .shmMap _, r => r.2 = response
  | _, _ => True

theorem yields_ubsMemShmMmap (alignment : Nat) (args : MmapArgs) (response : ShmMapResponse) :
    (ubsMemShmMmap alignment args).Yields (Answered response) fun out =>
      out.1 = ubsmOk → response.errCode = ubsmOk ∧ args.mapSize = response.shmSize := by
  have hinvalid : mxmErrParamInvalid ≠ ubsmOk := mxmErrParamInvalid_ne
  unfold ubsMemShmMmap
  -- the checks before the request, the request, and the check of the size
  split_ifs
  · exact fun h => absurd h hinvalid
  cases getOwnStatus args.prot with
  | none => exact fun h => absurd h hinvalid
  | some status =>
    have hcheck : (rackMemShmMmapParameterCheck args).Yields (Answered response) fun _ => True :=
      yields_of_forall _ fun _ => trivial
    refine hcheck.bind fun ret _ => ?_
    split_ifs
    · exact fun h => absurd h hinvalid
    simp only [ask_eq, call_bind, ret_bind]
    rintro ⟨hr, r⟩ hresponse
    obtain rfl : r = response := hresponse
    dsimp only
    split_ifs with hcall
    · exact fun h => absurd h hcall
    unfold mapGranted
    split_ifs with hsize
    · exact fun _ _ h => absurd h hinvalid
    all_goals
      push Not at hsize
      refine yields_of_forall _ fun out _ => ⟨errCode_of_ipcCallShmMap (not_not.mp hcall), hsize.2⟩

end ShmApp

/-! ### The daemon -/

/-- A task and the answer that it sends, if it serves `ShmMap`. -/
def ShmTask.serve : ShmTask → ShmProg (Option (Int × ShmMapResponse))
  | .map req uds => do
    let res ← shmMap req uds
    return some res
  | task => do
    task.body
    return none

/-- The state of the daemon, and for each thread the task that it works on with what is left
of it. -/
structure MapDaemon where
  world : ShmWorld RecordStore
  running : Nat → Option (ShmTask × ShmProg (Option (Int × ShmMapResponse)))

namespace MapDaemon

/-- The daemon on an empty store. -/
def start (config : StoreConfig) (alive : UInt32 → Bool) : MapDaemon :=
  ⟨.fresh (RecordStore.start config alive), fun _ => none⟩

/-- The daemon after a restart, with the map that `Recovery` has built. -/
def restarted (config : StoreConfig) (alive : UInt32 → Bool) (now : Name → Nat)
    (stage : Name → Int × MemStage) (listImports : RecordStore → List ShareMemImportInfo)
    (listRefs : RecordStore → List (Name × List UInt32)) (d : MapDaemon) : MapDaemon :=
  let r := ShmManager.recovery (storeShmRecords config) now stage listImports listRefs
    (⟨∅, initializeStore config alive d.world.manager.store.mem⟩, .empty)
  ⟨⟨r.2.1, r.2.2, fun _ => none, d.world.attached⟩, fun _ => none⟩

/-- UBSE reports the size of the object when it has attached it. -/
def Reports (real : Name → Nat) : (c : ShmCall) → c.Reply → Prop
  | .shmAttach name _, r => r.1 = ubsmOk → r.2.shmSize = real name
  | _, _ => True

/-- **The steps of the daemon**, with the call that is made: an idle thread takes up a task,
a thread makes its next call or sends its answer, and the daemon restarts at any point
between two calls.  The store lists its records in any order. -/
inductive Step (config : StoreConfig) (mutexOf : Name → Nat) (real : Name → Nat) (d : MapDaemon) :
    Option ShmCall → MapDaemon → Prop
  | begin {t : Nat} {task : ShmTask} (hidle : d.running t = none) :
      Step config mutexOf real d none
        ⟨d.world, update d.running t (some (task, task.serve))⟩
  | call {t : Nat} {task : ShmTask} {c : ShmCall} {r : c.Reply} {w : ShmWorld RecordStore}
      {k : c.Reply → ShmProg (Option (Int × ShmMapResponse))}
      (hrun : d.running t = some (task, .call c k))
      (hsem : ShmWorld.sem (storeShmRecords config) mutexOf t c d.world r w)
      (hreal : Reports real c r) :
      Step config mutexOf real d (some c) ⟨w, update d.running t (some (task, k r))⟩
  | respond {t : Nat} {task : ShmTask} {answer : Option (Int × ShmMapResponse)}
      (hrun : d.running t = some (task, .ret answer)) :
      Step config mutexOf real d none ⟨d.world, update d.running t none⟩
  | restart (alive : UInt32 → Bool) (now : Name → Nat) (stage : Name → Int × MemStage)
      (listImports : RecordStore → List ShareMemImportInfo)
      (listRefs : RecordStore → List (Name × List UInt32))
      (himports : ∀ s, (listImports s).Perm (listShmImportRecord s))
      (hrefs : ∀ s, ListsRefs (listShmRefRecordNameF s) (listRefs s)) :
      Step config mutexOf real d none
        (d.restarted config alive now stage listImports listRefs)

/-- The states that are reached when every call meets `allow`. -/
inductive Reach (config : StoreConfig) (mutexOf : Name → Nat) (real : Name → Nat)
    (allow : ShmManager RecordStore → ShmCall → Prop) (d₀ : MapDaemon) : MapDaemon → Prop
  | refl : Reach config mutexOf real allow d₀ d₀
  | next {d d' : MapDaemon} {call : Option ShmCall}
      (h : Reach config mutexOf real allow d₀ d)
      (hallow : ∀ c, call = some c → allow d.world.manager c)
      (hstep : Step config mutexOf real d call d') : Reach config mutexOf real allow d₀ d'

/-! ### What the handlers are told and what they answer -/

/-- The replies that tell a handler the size of an object. -/
def Told (real : Name → Nat) : (c : ShmCall) → c.Reply → Prop
  | .getShareMemoryInfo name, r => ∀ memory, r = some memory → memory.size = real name
  | .shmAttach name info, r => Reports real (.shmAttach name info) r
  | _, _ => True

/-- A response is an error or carries the size of the object. -/
structure RightSize (real : Name → Nat) (req : ShmMapRequest) (res : Int × ShmMapResponse) :
    Prop where
  code : res.2.errCode = res.1
  size : res.1 = ubsmOk → res.2.shmSize = real req.name

variable {real : Name → Nat} {req : ShmMapRequest} {w : ShmWorld RecordStore} {t : Nat}

theorem rightSize_error {code : Int} (h : code ≠ ubsmOk) : RightSize real req (code, .error code) :=
  ⟨rfl, fun hok => absurd hok h⟩

theorem yields_shmMmapInner (uds : AppContext) :
    (shmMmapInner req uds).Yields (Told real) (RightSize real req) := by
  simp only [shmMmapInner, ask_eq, call_bind, ret_bind, yields_call]
  rintro ⟨rt, info⟩ -
  split_ifs with hrt hperm
  · exact rightSize_error hrt
  · exact rightSize_error hperm
  intro hr _
  dsimp only
  split_ifs with hprepare
  · exact rightSize_error hprepare
  rintro ⟨hr', desc⟩ htold
  dsimp only
  split_ifs with hattach
  · exact fun _ _ => rightSize_error hattach
  intro hfull _
  dsimp only
  split_ifs with hfailed
  · have hrollback : (rollBackAttachShareMemory req.name).Yields (Told real) fun _ => True :=
      yields_of_forall _ fun _ => trivial
    exact hrollback.bind fun _ _ => rightSize_error hfailed
  · exact ⟨rfl, fun _ => htold (not_ne_iff.mp hattach)⟩

theorem yields_handleExistingShm (uds : AppContext) {memory : AttachedShareMemory}
    (hsize : memory.size = real req.name) :
    (handleExistingShm req uds memory).Yields (Told real) (RightSize real req) := by
  simp only [handleExistingShm, ask_eq, call_bind, ret_bind]
  split_ifs with hin
  · exact rightSize_error mxmErrShmAlreadyExist_ne
  intro ret _
  dsimp only
  split_ifs with hret
  · exact rightSize_error hret
  · exact ⟨rfl, fun _ => hsize⟩

theorem yields_shmMapLocked (uds : AppContext) :
    (shmMapLocked req uds).Yields (Told real) (RightSize real req) := by
  have hinner : (shmMmapInner req uds).Yields (Told real) (RightSize real req) :=
    yields_shmMmapInner uds
  simp only [shmMapLocked, ask_eq, call_bind, ret_bind]
  intro found htold
  cases found with
  | none => exact hinner
  | some memory =>
    dsimp only
    split_ifs
    · exact yields_handleExistingShm uds (htold memory rfl)
    · intro ret _
      dsimp only
      split_ifs with hret
      · exact rightSize_error hret
      · exact hinner
    · exact hinner

theorem yields_shmMap (uds : AppContext) :
    (shmMap req uds).Yields (Told real) (RightSize real req) := by
  simp only [shmMap, ask_eq, call_bind, ret_bind, yields_call]
  intro busy _
  split_ifs
  · exact rightSize_error mxmErrNameBusy_ne
  · exact fun _ _ => (yields_shmMapLocked uds).bind fun res hres _ _ => hres

/-- What a task answers. -/
def RightAnswer (real : Name → Nat) : ShmTask → Option (Int × ShmMapResponse) → Prop
  | .map req _, some res => RightSize real req res
  | _, _ => True

theorem yields_serve (task : ShmTask) : task.serve.Yields (Told real) (RightAnswer real task) := by
  cases task with
  | map req uds => exact (yields_shmMap uds).bind fun res hres => hres
  | unmap _ _ | deadProcess _ _ | clean _ _ =>
    exact yields_of_forall _ fun answer => by cases answer <;> trivial

/-! ### Every state has the real sizes -/

variable {config : StoreConfig} {mutexOf : Name → Nat} {alive : UInt32 → Bool} {d d' : MapDaemon}

/-- **The invariant**: entries and records have the sizes of their objects, and every task is
on its way to a right answer. -/
structure Inv (config : StoreConfig) (real : Name → Nat) (d : MapDaemon) : Prop where
  sized : SizedManager importRecord (StoreSound config) real d.world.manager
  answers : ∀ t task p, d.running t = some (task, p) → p.Yields (Told real) (RightAnswer real task)

theorem inv_start (config : StoreConfig) (alive : UInt32 → Bool) (real : Name → Nat) :
    (start config alive).Inv config real := by
  refine ⟨⟨⟨storeSound_start config alive, fun n r hr => ?_⟩, fun n memory hn => ?_⟩,
    fun t task p h => ?_⟩
  · cases (importRecord_start config alive n).symm.trans hr
  · cases hn
  · cases h

section

variable (h : d.Inv config real)

include h

theorem Inv.told {c : ShmCall} {r : c.Reply}
    (hsem : ShmWorld.sem (storeShmRecords config) mutexOf t c d.world r w)
    (hreal : Reports real c r) : Told real c r := by
  cases c with
  | getShareMemoryInfo name =>
    exact fun memory hr => h.sized.entry name memory (hsem.1.symm.trans hr)
  | shmAttach name info => exact hreal
  | _ => trivial

theorem Inv.update (hsized : SizedManager importRecord (StoreSound config) real w.manager)
    {next : Option (ShmTask × ShmProg (Option (Int × ShmMapResponse)))}
    (hnext : ∀ task p, next = some (task, p) → p.Yields (Told real) (RightAnswer real task)) :
    Inv config real ⟨w, update d.running t next⟩ := by
  refine ⟨hsized, fun t' task p hrun => ?_⟩
  dsimp only at hrun
  by_cases ht : t' = t
  · subst ht
    rw [update_self] at hrun
    exact hnext task p hrun
  · rw [update_of_ne ht] at hrun
    exact h.answers t' task p hrun

theorem Inv.restart (alive : UInt32 → Bool) (now : Name → Nat) (stage : Name → Int × MemStage)
    {listImports : RecordStore → List ShareMemImportInfo}
    (listRefs : RecordStore → List (Name × List UInt32))
    (himports : ∀ s, (listImports s).Perm (listShmImportRecord s)) :
    (d.restarted config alive now stage listImports listRefs).Inv config real := by
  have hstore := h.sized.store
  have hrecords := (StoreSound.importRecord_restart hstore.ok alive).1
  have hempty : SizedManager importRecord (StoreSound config) real
      ⟨∅, initializeStore config alive d.world.manager.store.mem⟩ := by
    refine ⟨⟨StoreSound.restart hstore.ok alive, fun n r hr => ?_⟩, fun n memory hn => ?_⟩
    · exact hstore.record n r (hrecords ▸ hr)
    · cases hn
  refine ⟨?_, fun t task p hrun => ?_⟩
  · exact hempty.recovery (storeShmRecords_sound config) now stage listImports listRefs
      (listsImports_of_perm (himports _))
  · cases hrun

theorem Inv.step {call : Option ShmCall}
    (hallow : ∀ c, call = some c → AsksReal NameOk real d.world.manager c)
    (hstep : Step config mutexOf real d call d') : d'.Inv config real := by
  cases hstep with
  | begin hidle =>
    refine h.update h.sized fun task p hnext => ?_
    cases hnext
    exact yields_serve _
  | @call t task c r w k hrun hsem hreal =>
    have hsized := h.sized.call (storeShmRecords_sound config) (hallow c rfl) hsem
    refine h.update hsized fun task' p hnext => ?_
    cases hnext
    exact h.answers t task _ hrun r (h.told hsem hreal)
  | respond hrun =>
    refine h.update h.sized fun task p hnext => ?_
    cases hnext
  | restart alive now stage listImports listRefs himports hrefs =>
    exact h.restart alive now stage listRefs himports

end

theorem Reach.inv (h : Reach config mutexOf real (AsksReal NameOk real) (start config alive) d) :
    d.Inv config real := by
  induction h with
  | refl => exact inv_start config alive real
  | next _ hallow hstep ih => exact ih.step hallow hstep

end MapDaemon

/-- **A successful response of `ShmMap` carries the real size of the object**, in every run of
handlers, cleaner and restarts in which the requests that make an entry ask for that size, and
`UbsMemShmMmap` succeeds on such a response with no other size. -/
theorem response_carries_real_size (config : StoreConfig) (alive : UInt32 → Bool)
    (mutexOf : Name → Nat) (real : Name → Nat) {d : MapDaemon}
    (hreach : MapDaemon.Reach config mutexOf real (AsksReal NameOk real)
      (.start config alive) d) {t : Nat} {req : ShmMapRequest} {uds : AppContext}
    {res : Int × ShmMapResponse} (hrun : d.running t = some (.map req uds, .ret (some res))) :
    (res.1 = ubsmOk → res.2.shmSize = real req.name) ∧
      ∀ alignment args status, MmapArgs.request args status = req →
        (ShmApp.ubsMemShmMmap alignment args).Yields (ShmApp.Answered res.2) fun out =>
          out.1 = ubsmOk → args.mapSize = real args.name := by
  have hright : MapDaemon.RightSize real req res := hreach.inv.answers t _ _ hrun
  refine ⟨hright.size, fun alignment args status hreq => ?_⟩
  subst hreq
  refine (ShmApp.yields_ubsMemShmMmap alignment args res.2).mono fun out hout hmapped => ?_
  obtain ⟨hcode, hsize⟩ := hout hmapped
  exact hsize.trans (hright.size (hright.code.symm.trans hcode))

/-! ### Examples of runs -/

namespace MapDaemon

variable {config : StoreConfig} {mutexOf real : Name → Nat}
  {allow : ShmManager RecordStore → ShmCall → Prop} {d₀ d : MapDaemon} {w : ShmWorld RecordStore}
  {answer : Option (Int × ShmMapResponse)} {t : Nat}

/-- A thread that works on a task comes to its answer when it runs alone. -/
theorem Reach.of_runs {task : ShmTask} {p : ShmProg (Option (Int × ShmMapResponse))}
    (h : Reach config mutexOf real allow d₀ d) (hrun : d.running t = some (task, p))
    (hruns : p.Runs (fun c s r s' => ShmWorld.sem (storeShmRecords config) mutexOf t c s r s' ∧
      Reports real c r ∧ allow s.manager c) d.world answer w) :
    Reach config mutexOf real allow d₀
      ⟨w, update d.running t (some (task, .ret answer))⟩ := by
  obtain ⟨s, running⟩ := d
  dsimp only at hrun hruns ⊢
  induction hruns generalizing running with
  | @ret a s =>
    rw [← hrun, update_eq_self]
    exact h
  | @call c k s s' w r a hcall _ ih =>
    obtain ⟨hsem, hreal, hallow⟩ := hcall
    have hnext := h.next (fun c' hc' => some.inj hc' ▸ hallow) (.call hrun hsem hreal)
    have hlast := ih (update running t (some (task, k r))) hnext (update_self ..)
    rwa [update_idem] at hlast

theorem Reach.serve (task : ShmTask) (h : Reach config mutexOf real allow d₀ d)
    (hidle : d.running t = none)
    (hruns : task.serve.Runs (fun c s r s' =>
      ShmWorld.sem (storeShmRecords config) mutexOf t c s r s' ∧
      Reports real c r ∧ allow s.manager c) d.world answer w) :
    Reach config mutexOf real allow d₀
      ⟨w, update d.running t (some (task, .ret answer))⟩ := by
  have hbegin : Step config mutexOf real d none
      ⟨d.world, update d.running t (some (task, task.serve))⟩ := .begin hidle
  have hbegun := h.next (fun _ hc => by cases hc) hbegin
  have hlast := hbegun.of_runs (update_self ..) hruns
  rwa [update_idem] at hlast

/-- The objects have two pages. -/
def twoPages (_ : Name) : Nat := 8192

/-- A UBSE that acknowledges every call, and attaches two pages for each object. -/
def pagesAnswer (t : Nat) (c : ShmCall) (s : ShmWorld RecordStore) :
    Option (c.Reply × ShmWorld RecordStore) :=
  match c with
  | .shmAttach name _ =>
    some ((ubsmOk, ⟨8192, 4096, [1, 2], false⟩),
      { s with attached := update s.attached name true })
  | c => ShmWorld.answer smallRecords (fun _ => 0) sampleInfo t c s

theorem reports_of_pagesAnswer {c : ShmCall} {s s' : ShmWorld RecordStore} {r : c.Reply}
    (h : pagesAnswer t c s = some (r, s')) :
    ShmWorld.sem smallRecords (fun _ => 0) t c s r s' ∧ Reports twoPages c r := by
  cases c with
  | shmAttach name info =>
    cases h
    exact ⟨⟨0, true, rfl, rfl⟩, fun _ => rfl⟩
  | _ => exact ⟨@ShmWorld.sem_of_answer _ _ _ sampleInfo _ _ _ _ _ h, trivial⟩

end MapDaemon

/-- A process maps `a` for reading, with a size. -/
def mapWithSize (size pid : Nat) : ShmTask :=
  .map ⟨mapA.name, size, convertToFileMode .read, protRead⟩ ⟨pid, 0, 0⟩

/-- The arguments of `UbsMemShmMmap` for it. -/
def mapArgs (size : Nat) : MmapArgs := ⟨0, size, 1, 1, mapA.name, 0, true⟩

/-- The same UBSE, asked only for the size of the object when an entry is made. -/
def realAnswer (t : Nat) (c : ShmCall) (s : ShmWorld RecordStore) :
    Option (c.Reply × ShmWorld RecordStore) :=
  match c with
  | .prepareAddShareMemoryInfo name size pid =>
    if name = mapA.name ∧ size = MapDaemon.twoPages name then
      MapDaemon.pagesAnswer t (.prepareAddShareMemoryInfo name size pid) s
    else none
  | c => MapDaemon.pagesAnswer t c s

theorem asksReal_of_realAnswer {t : Nat} {c : ShmCall} {s s' : ShmWorld RecordStore} {r : c.Reply}
    (h : realAnswer t c s = some (r, s')) :
    MapDaemon.pagesAnswer t c s = some (r, s') ∧
      AsksReal NameOk MapDaemon.twoPages s.manager c := by
  cases c with
  | prepareAddShareMemoryInfo name size pid =>
    simp only [realAnswer] at h
    split_ifs at h with hreal
    refine ⟨h, fun _ => ⟨?_, hreal.2⟩⟩
    rw [hreal.1]
    simp [NameOk, mapA]
  | _ => exact ⟨h, trivial⟩

/-- The first process maps `a` with its real size, the daemon restarts, and a second process
asks for one page: its answer, with the state after the first mapping and the last one. -/
def restartRun : Option (ShmWorld RecordStore × Option (Int × ShmMapResponse) ×
    ShmWorld RecordStore) :=
  ((mapWithSize 8192 10).serve.exec (realAnswer 0) smallWorld).bind fun x =>
    let d := MapDaemon.restarted smallStoreConfig (fun _ => true) (fun _ => 0)
      (fun _ => (0, .exist)) listShmImportRecord refListing ⟨x.2, fun _ => none⟩
    ((mapWithSize 4096 11).serve.exec (realAnswer 1) d.world).map fun y => (x.2, y)

/-- The second process is told the real size. -/
theorem response_carries_real_size_restarted : ∃ (d : MapDaemon) (res : Int × ShmMapResponse),
    MapDaemon.Reach smallStoreConfig (fun _ => 0) MapDaemon.twoPages
      (AsksReal NameOk MapDaemon.twoPages) (.start smallStoreConfig fun _ => true) d ∧
    d.running 1 = some (mapWithSize 4096 11, .ret (some res)) ∧ res.1 = ubsmOk ∧
    res.2.shmSize = MapDaemon.twoPages mapA.name := by
  have hrun : restartRun.map (fun x => x.2.1.map Prod.fst) = some (some ubsmOk) := by
    decide +kernel
  obtain ⟨⟨w₁, answer, w₂⟩, hexec, hanswer⟩ := map_eq_some_iff.mp hrun
  obtain ⟨res, rfl, hok⟩ := map_eq_some_iff.mp hanswer
  obtain ⟨⟨answer₁, w⟩, hfirst, hrest⟩ := bind_eq_some_iff.mp hexec
  obtain ⟨⟨answer₂, w'⟩, hsecond, heq⟩ := map_eq_some_iff.mp hrest
  cases heq
  have hallowed : ∀ t c s r s', realAnswer t c s = some (r, s') →
      ShmWorld.sem smallRecords (fun _ => 0) t c s r s' ∧
        MapDaemon.Reports MapDaemon.twoPages c r ∧
        AsksReal NameOk MapDaemon.twoPages s.manager c := by
    intro t c s r s' h
    obtain ⟨hpages, hasks⟩ := asksReal_of_realAnswer h
    obtain ⟨hsem, hreal⟩ := MapDaemon.reports_of_pagesAnswer hpages
    exact ⟨hsem, hreal, hasks⟩
  have hstart : MapDaemon.Reach smallStoreConfig (fun _ => 0) MapDaemon.twoPages
      (AsksReal NameOk MapDaemon.twoPages) (.start smallStoreConfig fun _ => true)
      (.start smallStoreConfig fun _ => true) := .refl
  have hmapped := hstart.serve (mapWithSize 8192 10) rfl (Prog.Runs.of_exec (hallowed 0) hfirst)
  have hrestarted := hmapped.next (fun _ hc => by cases hc) (.restart (fun _ => true) (fun _ => 0)
    (fun _ => (0, .exist)) listShmImportRecord refListing (fun _ => .refl _) listsRefs_refListing)
  have hserved := hrestarted.serve (mapWithSize 4096 11) rfl
    (Prog.Runs.of_exec (hallowed 1) hsecond)
  have hanswered : ∀ w, (MapDaemon.mk w (update (fun _ => none) 1
      (some (mapWithSize 4096 11, .ret (some res))))).running 1 =
      some (mapWithSize 4096 11, .ret (some res)) := fun _ => rfl
  obtain ⟨hsize, -⟩ := response_carries_real_size smallStoreConfig (fun _ => true) (fun _ => 0)
    MapDaemon.twoPages hserved (hanswered w₂)
  exact ⟨_, res, hserved, hanswered w₂, hok, hsize hok⟩

/-- A system that answers the request of a mapping with a response. -/
def answerWith (response : ShmMapResponse) (c : ShmAppCall) (s : ShmAppWorld) :
    Option (c.Reply × ShmAppWorld) :=
  match c with
  | .shmMap req =>
    if s.registered req.name = none then
      some ((ubsmOk, response), { s with registered := update s.registered req.name (some 0) })
    else none
  | c => ShmAppWorld.answer 4096 (fun _ => 0) (ubsmOk, response) 65536 0 c s

theorem answered_of_answerWith {response : ShmMapResponse} (hcode : response.errCode = ubsmOk)
    {c : ShmAppCall} {s s' : ShmAppWorld} {r : c.Reply}
    (h : answerWith response c s = some (r, s')) :
    ShmAppWorld.sem 4096 (fun _ => 0) 0 c s r s' ∧ ShmApp.Answered response c r := by
  have hgrant : ShmAppWorld.Granted (ubsmOk, response) := ⟨rfl, hcode⟩
  cases c with
  | shmMap req =>
    simp only [answerWith] at h
    split_ifs at h with hnone
    cases h
    exact ⟨⟨some 0, by rw [if_pos hgrant]; exact ⟨hnone, rfl⟩, rfl⟩, rfl⟩
  | _ => exact ⟨@ShmAppWorld.sem_of_answer 4096 _ _ 65536 0 hgrant _ _ _ _ h, trivial⟩

/-- The answers to two processes that ask for one page of `a`. -/
def wrongSizeRun : Option (ShmWorld RecordStore × Option (Int × ShmMapResponse) ×
    ShmWorld RecordStore) :=
  ((mapWithSize 4096 10).serve.exec (MapDaemon.pagesAnswer 0) smallWorld).bind fun x =>
    ((mapWithSize 4096 11).serve.exec (MapDaemon.pagesAnswer 1) x.2).map fun y => (x.2, y)

/-- **An object is mapped with a wrong size.**  Two processes ask for one page of an object
that has two.  The first attaches it and is told its size; the second is told the size that
the first has asked for, and its mapping succeeds. -/
theorem mapped_with_wrong_size : ∃ (d : MapDaemon) (res : Int × ShmMapResponse),
    MapDaemon.Reach smallStoreConfig (fun _ => 0) MapDaemon.twoPages (fun _ _ => True)
      (.start smallStoreConfig fun _ => true) d ∧
    d.running 1 = some (.map ((mapArgs 4096).request .read) ⟨11, 0, 0⟩, .ret (some res)) ∧
    res.1 = ubsmOk ∧ res.2.shmSize = 4096 ∧ MapDaemon.twoPages mapA.name = 8192 ∧
    ∃ s', Runs (fun c s r s' => ShmAppWorld.sem 4096 (fun _ => 0) 0 c s r s' ∧
        ShmApp.Answered res.2 c r)
      (ShmApp.ubsMemShmMmap hugePages2M (mapArgs 4096)) .start (ubsmOk, some 65536) s' := by
  have hrun : wrongSizeRun.map (fun x => x.2.1) =
      some (some (ubsmOk, ⟨ubsmOk, [1, 2], 4096, 4096, 0, 2⟩)) := by
    decide +kernel
  obtain ⟨⟨w₁, answer, w₂⟩, hexec, rfl⟩ := map_eq_some_iff.mp hrun
  obtain ⟨⟨answer₁, w⟩, hfirst, hrest⟩ := bind_eq_some_iff.mp hexec
  obtain ⟨⟨answer₂, w'⟩, hsecond, heq⟩ := map_eq_some_iff.mp hrest
  cases heq
  have hallowed : ∀ t c s r s', MapDaemon.pagesAnswer t c s = some (r, s') →
      ShmWorld.sem smallRecords (fun _ => 0) t c s r s' ∧
        MapDaemon.Reports MapDaemon.twoPages c r ∧ True := by
    intro t c s r s' h
    obtain ⟨hsem, hreal⟩ := MapDaemon.reports_of_pagesAnswer h
    exact ⟨hsem, hreal, trivial⟩
  have hstart : MapDaemon.Reach smallStoreConfig (fun _ => 0) MapDaemon.twoPages (fun _ _ => True)
      (.start smallStoreConfig fun _ => true) (.start smallStoreConfig fun _ => true) := .refl
  have hmapped := hstart.serve (mapWithSize 4096 10) rfl (Prog.Runs.of_exec (hallowed 0) hfirst)
  have hserved := hmapped.serve (mapWithSize 4096 11) rfl
    (Prog.Runs.of_exec (hallowed 1) hsecond)
  have hmap : ∃ s', exec (answerWith ⟨ubsmOk, [1, 2], 4096, 4096, 0, 2⟩)
      (ShmApp.ubsMemShmMmap hugePages2M (mapArgs 4096)) .start = some ((ubsmOk, some 65536), s') :=
    ⟨_, rfl⟩
  obtain ⟨s', hexec⟩ := hmap
  refine ⟨_, (ubsmOk, ⟨ubsmOk, [1, 2], 4096, 4096, 0, 2⟩), hserved, rfl, rfl, rfl, rfl, s', ?_⟩
  refine .of_exec (fun c s r s' h => ?_) hexec
  exact answered_of_answerWith rfl h

end UbsMem
