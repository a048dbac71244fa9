import UbsMem.ShmApp

/-! # What a failed mapping leaves at the daemon

`UbsMemShmMmap` returns an error from more than ten places.  Once `IpcCallShmMap` has accepted the
reply of the daemon, each of them tells the daemon to unmap the object, but for one: if the metadata
cannot be added and the object is mapped at address 0, `UnMapWhenError` returns early.  And
`IpcCallShmMap` itself refuses replies that the daemon has made after it registered the process, and
then nothing is sent (`refused_reply_not_undone`).  There are no other cases
(`mmap_error_undone`).
-/
namespace UbsMem

open Prog hiding ret call

/-- The daemon has registered the process in this call, and the unmap requests of the call. -/
structure MapLedger where
  registered : Bool
  sent : List Name
  deriving DecidableEq

namespace MapLedger

/-- What the calls do to the ledger: the daemon may have registered the process whatever its reply
is. -/
def sem : (c : ShmAppCall) → MapLedger → c.Reply → MapLedger → Prop
  | .shmMap _, s, _, s' => ∃ registered, s' = { s with registered := registered }
  | .shmUnMap name, s, _, s' => s' = { s with sent := name :: s.sent }
  | _, s, _, s' => s' = s

/-- The answers after which an error is undone: the reply of the daemon is accepted, and the
metadata are not refused for an object at address 0. -/
def Undoable : (Σ c : ShmAppCall, c.Reply) → Prop
  | ⟨.shmMap _, r⟩ => ipcCallShmMap r.1 r.2 = ubsmOk
  | ⟨.addMetaData _ addr _, ret⟩ => addr = 0 → (show Int from ret) = ubsmOk
  | _ => True

/-- With an error, the registration of the name has been undone just if the answers are such. -/
def Undone (name : Name) (res : Int × Option Nat) (y : Traced ShmAppCall.Reply MapLedger) : Prop :=
  res.1 ≠ ubsmOk → (y.1.registered = false ∨ name ∈ y.1.sent ↔
    (y.1.registered = true → ∀ e ∈ y.2, Undoable e))

/-- Nothing has been sent, and every answer is such. -/
structure Clear (y : Traced ShmAppCall.Reply MapLedger) : Prop where
  sent : y.1.sent = []
  undoable : ∀ e ∈ y.2, Undoable e

variable {name : Name} {x y : Traced ShmAppCall.Reply MapLedger} {res : Int × Option Nat}
  {c : ShmAppCall} {r : c.Reply}

theorem undone_of_unregistered (h : y.1.registered = false) : Undone name res y := by
  intro _
  simp [h]

theorem undone_of_sent (hsent : name ∈ y.1.sent) (h : ∀ e ∈ y.2, Undoable e) : Undone name res y :=
  fun _ => iff_of_true (.inr hsent) fun _ => h

theorem undone_of_not_undoable (hsent : y.1.sent = []) {e : Σ c : ShmAppCall, c.Reply}
    (he : e ∈ y.2) (hnot : ¬Undoable e) : Undone name res y := by
  intro _
  rw [hsent]
  constructor
  · rintro (hreg | hmem) hreg'
    · exact absurd (hreg.symm.trans hreg') nofun
    · cases hmem
  · intro h
    refine .inl (Bool.eq_false_iff.mpr fun hreg => ?_)
    exact hnot (h hreg e he)

theorem undoable_of_traced (h : ∀ e ∈ x.2, Undoable e) (hsem : traced sem c x r y)
    (hr : Undoable ⟨c, r⟩) : ∀ e ∈ y.2, Undoable e := by
  intro e he
  rw [hsem.2, List.mem_append, List.mem_singleton] at he
  rcases he with he | rfl
  · exact h e he
  · exact hr

end MapLedger

/-- The calls that neither reach the daemon nor add metadata. -/
def ShmAppCall.LeavesLedger : ShmAppCall → Prop
  | .shmMap _ => False
  | .shmUnMap _ => False
  | .addMetaData .. => False
  | _ => True

namespace ShmApp

open MapLedger

variable {name : Name} {x y : Traced ShmAppCall.Reply MapLedger} {α : Type} {p : ShmAppProg α}
  {c : ShmAppCall} {r : c.Reply}

theorem leavesLedger_of_memoryCall (hc : IsMemoryCall c) : c.LeavesLedger := by
  cases c with
  | shmMap | shmUnMap | addMetaData => cases hc
  | _ => trivial

/-- The ledger is as it was, and what has been added to the trace can be undone. -/
abbrev SameLedger : (_ _ : Traced ShmAppCall.Reply MapLedger) → Prop := Keeps id Undoable

theorem clear_of_sameLedger (h : SameLedger x y) (hx : Clear x) : Clear y :=
  ⟨(congrArg sent h.value).trans hx.sent, fun e he => (h.new e he).elim (hx.undoable e) id⟩

theorem sameLedger_of_leavesLedger {s s' : MapLedger} (hc : c.LeavesLedger) (hsem : sem c s r s') :
    s' = s ∧ Undoable ⟨c, r⟩ := by
  cases c with
  | shmMap | shmUnMap | addMetaData => cases hc
  | _ => exact ⟨hsem, trivial⟩

theorem wp_sameLedger (hp : p.All ShmAppCall.LeavesLedger) (x : Traced ShmAppCall.Reply MapLedger) :
    p.wp (traced sem) (fun _ y => SameLedger x y) x :=
  hp.wp_keeps (f := id) (fun _ _ _ _ hc hsem => sameLedger_of_leavesLedger hc hsem) x

theorem wp_undone_giveBack (code : Int) (hx : Clear x) :
    (giveBack name code).wp (traced sem) (Undone name) x := by
  intro r y hsem
  refine undone_of_sent ?_ (undoable_of_traced hx.undoable hsem trivial)
  rw [show y.1 = _ from hsem.1]
  exact List.mem_cons_self ..

/-- The metadata are refused: the daemon is told, unless the object is mapped at address 0. -/
theorem wp_undone_unMapWhenError {startAddr totalSize : Nat} {res : Int × Option Nat}
    {d d' : ShmAppMetaData} {code : Int} (hsize : totalSize ≠ 0) (hcode : code ≠ ubsmOk)
    (hx : Clear x) (hsem : traced sem (.addMetaData name startAddr d') x code y) :
    (unMapWhenError startAddr totalSize name d).wp (traced sem) (fun _ => Undone name res) y := by
  have hledger : y.1 = x.1 := hsem.1
  unfold unMapWhenError
  rw [if_neg hsize, wp_bind]
  refine wp_mono (fun _ z hsame => ?_)
    (wp_sameLedger (all_closeAllFd (fun _ => trivial) d.fds) y)
  split_ifs with hstart
  · refine undone_of_not_undoable ?_ (hsame.old (mem_of_traced hsem)) fun h => hcode (h hstart)
    rw [show z.1 = y.1 from hsame.value, hledger]
    exact hx.sent
  · have hy : Clear y := ⟨hledger ▸ hx.sent,
      undoable_of_traced hx.undoable hsem fun h => absurd h hstart⟩
    intro ret z₁ hunmap ret' z₂ htell
    refine undone_of_sent ?_ (undoable_of_traced
      (clear_of_sameLedger (hsame.step hunmap ⟨hunmap.1, trivial⟩) hy).undoable htell trivial)
    rw [show z₂.1 = _ from htell.1]
    exact List.mem_cons_self ..

theorem wp_undone_bindSegments {args : MmapArgs} (response : ShmMapResponse) (mmapAddr : Nat)
    (hsize : args.mapSize ≠ 0) (hx : Clear x) :
    (bindSegments args response mmapAddr).wp (traced sem) (Undone args.name) x := by
  simp only [bindSegments, ask_eq, call_bind, ret_bind]
  rw [wp_bind]
  refine wp_mono (fun res y hsame => ?_) (wp_sameLedger
    (all_rackMemShmMmapByMemID (fun _ => leavesLedger_of_memoryCall) _ _) x)
  obtain ⟨code, d⟩ := res
  have hy := clear_of_sameLedger hsame hx
  dsimp only
  split_ifs
  · intro ret z hunmap
    exact wp_undone_giveBack code (clear_of_sameLedger (hsame.step hunmap ⟨hunmap.1, trivial⟩) hx)
  · intro addResult z hsem
    dsimp only
    split_ifs with hadd
    · rw [wp_bind]
      exact wp_undone_unMapWhenError hsize hadd hy hsem
    · exact fun h => absurd rfl h

theorem wp_undone_mapGranted (alignment : Nat) (args : MmapArgs) (response : ShmMapResponse)
    (hx : Clear x) : (mapGranted alignment args response).wp (traced sem) (Undone args.name) x := by
  unfold mapGranted
  split_ifs with hsize
  · exact wp_undone_giveBack _ hx
  · exact wp_undone_giveBack _ hx
  · exact wp_undone_giveBack _ hx
  · push Not at hsize
    rw [wp_bind]
    refine wp_mono (fun ⟨code, mmapAddr⟩ y hsame => ?_) (wp_sameLedger
      (all_preAllocate (fun _ => leavesLedger_of_memoryCall) alignment args _) x)
    dsimp only
    split_ifs
    · exact wp_undone_giveBack code (clear_of_sameLedger hsame hx)
    · exact wp_undone_bindSegments response mmapAddr (hsize.2 ▸ hsize.1)
        (clear_of_sameLedger hsame hx)

/-- **When an error leaves a registration behind.**  In every run in which `UbsMemShmMmap`
returns an error: the daemon has not registered the process, or has been told to unmap the
object, just if a daemon that registers the process gives a reply that is accepted, and the
metadata are not refused for an object that is mapped at address 0. -/
theorem mmap_error_undone (alignment : Nat) (args : MmapArgs) {res : Int × Option Nat}
    {s : MapLedger} {trace : List (Σ c : ShmAppCall, c.Reply)}
    (hrun : Runs (traced sem) (ubsMemShmMmap alignment args) (⟨false, []⟩, []) res (s, trace))
    (herror : res.1 ≠ ubsmOk) :
    s.registered = false ∨ args.name ∈ s.sent ↔
      (s.registered = true → ∀ e ∈ trace, Undoable e) := by
  refine hrun.of_wp (?_ : wp _ _ (Undone args.name) _) herror
  have hstart : Clear ((⟨false, []⟩, []) : Traced ShmAppCall.Reply MapLedger) := ⟨rfl, nofun⟩
  simp only [ubsMemShmMmap, ask_eq, call_bind, ret_bind]
  split_ifs
  · exact undone_of_unregistered rfl
  cases getOwnStatus args.prot with
  | none => exact undone_of_unregistered rfl
  | some status =>
    rw [wp_bind]
    refine wp_mono (fun ret x hsame => ?_)
      (wp_sameLedger (all_parameterCheck (fun _ => trivial) (fun _ _ => trivial) args) _)
    have hx := clear_of_sameLedger hsame hstart
    split_ifs
    · exact undone_of_unregistered (congrArg registered hsame.value)
    intro r y hsem
    have hsent : y.1.sent = [] := by
      obtain ⟨⟨registered, hy⟩, -⟩ := hsem
      rw [hy]
      exact hx.sent
    dsimp only
    split_ifs with haccepted
    · exact undone_of_not_undoable hsent (mem_of_traced hsem) haccepted
    · exact wp_undone_mapGranted alignment args r.2
        ⟨hsent, undoable_of_traced hx.undoable hsem (not_not.mp haccepted)⟩

/-- A daemon that registers the process and gives the reply. -/
def registering (reply : Int × ShmMapResponse) :
    (c : ShmAppCall) → MapLedger → Option (c.Reply × MapLedger)
  | .getAddr _, s => some (0, s)
  | .shmMap _, s => some (reply, { s with registered := true })
  | .shmUnMap name, s => some (ubsmOk, { s with sent := name :: s.sent })
  | _, _ => none

theorem sem_of_registering {reply : Int × ShmMapResponse} {c : ShmAppCall} {s s' : MapLedger}
    {r : c.Reply} (h : registering reply c s = some (r, s')) : sem c s r s' := by
  cases c with
  | getAddr name =>
    cases h
    rfl
  | shmMap req =>
    cases h
    exact ⟨true, rfl⟩
  | shmUnMap name =>
    cases h
    rfl
  | _ => cases h

/-- A process maps one page of `a` for reading. -/
def readArgs : MmapArgs := ⟨0, 4096, 1, 1, [97], 0, true⟩

/-- **A reply with another open flag is refused after the daemon has registered the process**, and
no unmap request is sent. -/
theorem refused_reply_not_undone :
    Runs sem (ubsMemShmMmap hugePages2M readArgs) ⟨false, []⟩ (mxmErrCheckResource, none)
      ⟨true, []⟩ := by
  refine .of_exec (fun _ _ _ _ h => ?_)
    (show exec (registering (ubsmOk, ⟨ubsmOk, [1], 4096, 4096, 0, 1⟩)) _ _ = _ from rfl)
  exact sem_of_registering h

/-- An object of another size than the one asked for is given back, and every answer of the run can
be undone. -/
theorem mmap_error_undone_size : ∃ trace,
    Runs (traced sem) (ubsMemShmMmap hugePages2M readArgs) (⟨false, []⟩, [])
      (mxmErrParamInvalid, none) (⟨true, [[97]]⟩, trace) ∧ ∀ e ∈ trace, Undoable e := by
  have hrun : Runs sem (ubsMemShmMmap hugePages2M readArgs) ⟨false, []⟩
      (mxmErrParamInvalid, none) ⟨true, [[97]]⟩ := by
    refine .of_exec (fun _ _ _ _ h => ?_)
      (show exec (registering (ubsmOk, ⟨ubsmOk, [1], 8192, 4096, 0, 0⟩)) _ _ = _ from rfl)
    exact sem_of_registering h
  obtain ⟨trace, htraced⟩ := hrun.traced []
  refine ⟨trace, htraced, ?_⟩
  exact (mmap_error_undone hugePages2M readArgs htraced (by decide)).mp (.inr (.head _)) rfl

end ShmApp
end UbsMem
