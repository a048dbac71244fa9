import UbsMem.DLockServer
import UbsMem.LockContext

/-! # Reinitialisation of a dlock client

`DlockClientReinit` takes a client through three calls of the dlock library: `ClientReinit`,
`UpdateAllLocks` and `ClientReinitDone`.  Each of them is repeated as its reply asks for it.
When the reply to `ClientReinitDone` is lost (`DLOCK_BAD_RESPONSE`), the client begins again
with `ClientReinit`, and the locks, which are up to date, are skipped.

The loop ends when the last reply was a success and the stage is the last one.  The skip moves
to the last stage before `ClientReinitDone` is called in it, on the success of `ClientReinit`:
the loop ends there, and the client reports success without the last call
(`reinit_reported_without_done`).  Exactly if no `ClientReinit` succeeds after a lost reply, a
success is reported after `ClientReinitDone` has succeeded, over locks that are up to date
(`reinit_success_is_done`).
-/
namespace UbsMem

open List Option

def dlockEnomem : Int := 0x1001

def dlockClientRemovedByServer : Int := 0x200d

def dlockServerNoResource : Int := 0x200f

/-- The calls of the dlock library. -/
inductive ReinitCall
  | clientReinit
  | updateAllLocks
  | clientReinitDone
  deriving DecidableEq, Repr

inductive ReinitStages
  | clientReinit
  | updateLock
  | clientReinitDone
  deriving DecidableEq, Repr

/-- The variables of `DlockClientReinit`. -/
structure ReinitState where
  retryCount : Nat
  ret : Int
  stages : ReinitStages
  skipUpdate : Bool
  updateRetryTimes : Nat

namespace ReinitState

/-- The variables before the loop. -/
def start : ReinitState := ⟨0, dlockBadResponse, .clientReinit, false, 0⟩

/-- The loop does not go on after this code. -/
def isFinal (ret : Int) : Bool :=
  ret = -1 || ret = dlockEinval || ret = dlockClientNotInit || ret = dlockClientRemovedByServer ||
    ret = dlockServerNoResource

/-- `ClientReInitStagesClientReInit`, when `ClientReinit` returns `reply`: the code, and the
new number of retries. -/
def clientReInitStagesClientReInit (reply : Int) (retryCount : Nat) : Int × Nat :=
  if reply = -1 ∨ reply = dlockServerNoResource ∨ reply = dlockEinval then (reply, retryCount)
  else if reply = dlockNotReady then
    if retryCount ≥ defaultTryCount then (-1, retryCount + 1) else (reply, retryCount + 1)
  else (reply, retryCount)

/-- The stage of `CLIENT_REINIT`. -/
def reinitStage (s : ReinitState) (reply : Int) : ReinitState :=
  let (ret, retryCount) := clientReInitStagesClientReInit reply s.retryCount
  let s := { s with ret := ret, retryCount := retryCount }
  if ret = dlockSuccess then
    { s with
      stages := if s.skipUpdate then .clientReinitDone else .updateLock
      skipUpdate := false }
  else s

def clientReInitStagesUpdateLocks (s : ReinitState) (reply : Int) : ReinitState :=
  if reply = dlockBadResponse then { s with ret := reply }
  else if reply = dlockEagain then { s with ret := reply, stages := .updateLock }
  else if reply = dlockEnomem then
    if s.updateRetryTimes ≥ defaultTryCount then
      { s with ret := -1, updateRetryTimes := s.updateRetryTimes + 1 }
    else
      { s with ret := reply, updateRetryTimes := s.updateRetryTimes + 1, stages := .updateLock }
  else { s with ret := reply }

def clientReInitStagesClientReInitDone (s : ReinitState) (reply : Int) : ReinitState :=
  if reply = dlockBadResponse then { s with ret := reply, stages := .clientReinit }
  else if reply = dlockEnomem ∨ reply = dlockSuccess then
    { s with ret := reply, stages := .clientReinitDone }
  else { s with ret := reply }

def doClientReInitStagesClientReInit (s : ReinitState) (reply : Int) : ReinitState :=
  let s := s.clientReInitStagesClientReInitDone reply
  if s.ret = dlockBadResponse then { s with skipUpdate := true } else s

/-- The check at the end of a turn. -/
def isDone (s : ReinitState) : Bool := s.ret = dlockSuccess && s.stages = .clientReinitDone

/-- What follows a reply: the function returns, the loop goes on, or `ClientReinitDone` is
called in the same turn. -/
inductive Next
  | returns (ret : Int)
  | again (s : ReinitState)
  | andDone (s : ReinitState)

/-- The end of a turn. -/
def endTurn (s : ReinitState) : Next := if s.isDone then .returns s.ret else .again s

/-- The call that is made next; `updated` says that the turn has updated the locks. -/
def nextCall (s : ReinitState) (updated : Bool) : ReinitCall :=
  if updated then .clientReinitDone
  else
    match s.stages with
    | .clientReinit => .clientReinit
    | .updateLock => .updateAllLocks
    | .clientReinitDone => .clientReinitDone

/-- The body of the loop, after the reply to a call. -/
def onReply (s : ReinitState) (reply : Int) : ReinitCall → Next
  | .clientReinit => (s.reinitStage reply).endTurn
  | .updateAllLocks =>
    let s := s.clientReInitStagesUpdateLocks reply
    if s.ret = dlockBadResponse then .returns s.ret
    else if s.ret ≠ dlockSuccess then s.endTurn
    else .andDone s
  | .clientReinitDone => (s.doClientReInitStagesClientReInit reply).endTurn

end ReinitState

open ReinitState

/-- A list of calls, each with its reply. -/
abbrev ReinitTrace := List (ReinitCall × Int)

/-- The loop of `DlockClientReinit` on the replies that the library gives, one after another:
the code, and the calls that were made.  `none` if the replies do not suffice. -/
def reinitLoop : List Int → ReinitState → Bool → Option (Int × ReinitTrace)
  | replies, s, updated =>
    if !updated && isFinal s.ret then some (s.ret, [])
    else
      match replies with
      | [] => none
      | reply :: rest =>
        let call := s.nextCall updated
        match s.onReply reply call with
        | .returns ret => some (ret, [(call, reply)])
        | .again s => (reinitLoop rest s false).map fun r => (r.1, (call, reply) :: r.2)
        | .andDone s => (reinitLoop rest s true).map fun r => (r.1, (call, reply) :: r.2)

def dlockClientReinit (replies : List Int) : Option (Int × ReinitTrace) :=
  reinitLoop replies .start false

/-! ### What a success stands for -/

/-- A reply that is lost. -/
abbrev lostDone : ReinitCall × Int := (.clientReinitDone, dlockBadResponse)

/-- **The protocol is complete**: the last call is a `ClientReinitDone` that succeeds, over locks
that were updated after a `ClientReinit` that succeeds; a later `ClientReinit` only repeats one
after a lost reply to `ClientReinitDone`. -/
def ReinitComplete (trace : ReinitTrace) : Prop :=
  ∃ before between, trace =
      before ++ (.updateAllLocks, dlockSuccess) :: between ++ [(.clientReinitDone, dlockSuccess)] ∧
    (.clientReinit, dlockSuccess) ∈ before ∧
    ∀ pre post, between = pre ++ (.clientReinit, dlockSuccess) :: post → lostDone ∈ pre

/-- No `ClientReinit` succeeds after a lost reply to `ClientReinitDone`. -/
def NoReinitAfterLoss (trace : ReinitTrace) : Prop :=
  ∀ pre post, trace = pre ++ (.clientReinit, dlockSuccess) :: post → lostDone ∉ pre

/-- The locks are up to date: since they were updated only `ClientReinitDone` was called. -/
def LocksUpdated (past : ReinitTrace) : Prop :=
  ∃ before between, past = before ++ (.updateAllLocks, dlockSuccess) :: between ∧
    (.clientReinit, dlockSuccess) ∈ before ∧ ∀ c ∈ between, c.1 = .clientReinitDone

variable {past trace : ReinitTrace} {updated : Bool} {s : ReinitState}

theorem LocksUpdated.done (h : LocksUpdated past) (reply : Int) :
    LocksUpdated (past ++ [(.clientReinitDone, reply)]) := by
  obtain ⟨before, between, rfl, hreinit, hcalls⟩ := h
  refine ⟨before, between ++ [(.clientReinitDone, reply)], by simp, hreinit, fun c hc => ?_⟩
  rcases mem_append.mp hc with hc | hc
  · exact hcalls c hc
  · rw [mem_singleton.mp hc]

theorem LocksUpdated.complete (h : LocksUpdated past) :
    ReinitComplete (past ++ [(.clientReinitDone, dlockSuccess)]) := by
  obtain ⟨before, between, rfl, hreinit, hcalls⟩ := h
  refine ⟨before, between, rfl, hreinit, fun pre post heq => ?_⟩
  have hmem : (.clientReinit, dlockSuccess) ∈ between := by
    rw [heq]
    exact mem_append_right pre mem_cons_self
  cases hcalls _ hmem

namespace ReinitState

/-- What the variables say about the calls so far: a skip is due to a lost reply, the locks are
updated after a `ClientReinit`, and the last call is made over updated locks. -/
structure Inv (past : ReinitTrace) (s : ReinitState) (updated : Bool) : Prop where
  skip : s.skipUpdate = true → lostDone ∈ past
  reinit : s.stages = .updateLock → (.clientReinit, dlockSuccess) ∈ past
  locks : updated = true ∨ s.stages = .clientReinitDone → LocksUpdated past

variable {past : ReinitTrace} {s : ReinitState} {updated : Bool} {reply : Int}

/-- What follows a reply keeps the invariant, and a success is returned for the reply to
`ClientReinitDone` only. -/
def Next.Keeps (past : ReinitTrace) (call : ReinitCall) (reply : Int) : Next → Prop
  | .returns ret => ret = dlockSuccess →
    call = .clientReinitDone ∧ reply = dlockSuccess ∧ LocksUpdated past
  | .again s => s.Inv (past ++ [(call, reply)]) false
  | .andDone s => s.Inv (past ++ [(call, reply)]) true

theorem endTurn_of_ret {s : ReinitState} (h : s.ret ≠ dlockSuccess) : s.endTurn = .again s := by
  simp [endTurn, isDone, h]

theorem Inv.keeps_clientReinit (h : s.Inv past updated) (hstage : s.stages = .clientReinit)
    (hloss : reply = dlockSuccess → lostDone ∉ past) :
    (s.onReply reply .clientReinit).Keeps past .clientReinit reply := by
  rcases hcall : clientReInitStagesClientReInit reply s.retryCount with ⟨ret, retryCount⟩
  have hreply : ret = dlockSuccess → reply = dlockSuccess := by
    intro hok
    have hret : (clientReInitStagesClientReInit reply s.retryCount).1 = dlockSuccess := by
      rw [hcall]
      exact hok
    unfold clientReInitStagesClientReInit at hret
    split_ifs at hret
    · exact hret
    · cases hret
    · exact hret
    · exact hret
  simp only [onReply, reinitStage, hcall]
  split_ifs with hok hskip
  · exact absurd (h.skip hskip) (hloss (hreply hok))
  · obtain rfl := hreply hok
    rw [endTurn, if_neg (by simp [isDone])]
    refine ⟨nofun, fun _ => (by simp), ?_⟩
    rintro (hupdated | hdone)
    · cases hupdated
    · cases hdone
  · rw [endTurn_of_ret hok]
    refine ⟨fun hskip => mem_append_left _ (h.skip hskip), fun hlock => ?_, ?_⟩
    · cases hstage.symm.trans hlock
    · rintro (hupdated | hdone)
      · cases hupdated
      · cases hstage.symm.trans hdone

/-- What `ClientReInitStagesUpdateLocks` changes. -/
theorem updateLocks_spec (s : ReinitState) (hstage : s.stages = .updateLock) (reply : Int) :
    (s.clientReInitStagesUpdateLocks reply).stages = .updateLock ∧
      (s.clientReInitStagesUpdateLocks reply).skipUpdate = s.skipUpdate ∧
      ((s.clientReInitStagesUpdateLocks reply).ret = dlockSuccess → reply = dlockSuccess) := by
  unfold clientReInitStagesUpdateLocks
  split_ifs
  · exact ⟨hstage, rfl, fun hok => hok⟩
  · exact ⟨rfl, rfl, fun hok => hok⟩
  · exact ⟨hstage, rfl, nofun⟩
  · exact ⟨rfl, rfl, fun hok => hok⟩
  · exact ⟨hstage, rfl, fun hok => hok⟩

theorem Inv.keeps_updateAllLocks (h : s.Inv past updated) (hstage : s.stages = .updateLock)
    (reply : Int) : (s.onReply reply .updateAllLocks).Keeps past .updateAllLocks reply := by
  obtain ⟨hnext, hskip, hreply⟩ := updateLocks_spec s hstage reply
  have hreinit := h.reinit hstage
  simp only [onReply]
  split_ifs with hbad hfailed
  · intro hok
    rw [hbad] at hok
    cases hok
  · rw [endTurn_of_ret hfailed]
    refine ⟨fun hs => ?_, fun _ => mem_append_left _ hreinit, ?_⟩
    · rw [hskip] at hs
      exact mem_append_left _ (h.skip hs)
    · rintro (hupdated | hdone)
      · cases hupdated
      · cases hnext.symm.trans hdone
  · obtain rfl := hreply (not_ne_iff.mp hfailed)
    refine ⟨fun hs => ?_, fun _ => mem_append_left _ hreinit, fun _ => ?_⟩
    · rw [hskip] at hs
      exact mem_append_left _ (h.skip hs)
    · exact ⟨past, [], rfl, hreinit, nofun⟩

/-- What `ClientReinitDone` leads to: the first stage, the last stage, or no change. -/
theorem doDone_cases (s : ReinitState) (reply : Int) :
    reply = dlockBadResponse ∧ s.doClientReInitStagesClientReInit reply =
        { s with ret := reply, stages := .clientReinit, skipUpdate := true } ∨
      (reply = dlockEnomem ∨ reply = dlockSuccess) ∧ s.doClientReInitStagesClientReInit reply =
        { s with ret := reply, stages := .clientReinitDone } ∨
      reply ≠ dlockSuccess ∧ s.doClientReInitStagesClientReInit reply =
        { s with ret := reply } := by
  have hstage : s.clientReInitStagesClientReInitDone reply =
      if reply = dlockBadResponse then { s with ret := reply, stages := .clientReinit }
      else if reply = dlockEnomem ∨ reply = dlockSuccess then
        { s with ret := reply, stages := .clientReinitDone }
      else { s with ret := reply } := rfl
  unfold doClientReInitStagesClientReInit
  split_ifs at hstage with hbad hlast
  · subst hbad
    exact .inl ⟨rfl, by simp [hstage]⟩
  · exact .inr (.inl ⟨hlast, by simp [hstage, hbad]⟩)
  · exact .inr (.inr ⟨fun hok => hlast (.inr hok), by simp [hstage, hbad]⟩)

theorem Inv.keeps_clientReinitDone (h : s.Inv past updated)
    (hlocks : updated = true ∨ s.stages = .clientReinitDone) (reply : Int) :
    (s.onReply reply .clientReinitDone).Keeps past .clientReinitDone reply := by
  have hupdated := h.locks hlocks
  have hskip : s.skipUpdate = true → lostDone ∈ past ++ [(.clientReinitDone, reply)] :=
    fun hs => mem_append_left _ (h.skip hs)
  rw [onReply]
  rcases s.doDone_cases reply with ⟨rfl, hnext⟩ | ⟨hlast, hnext⟩ | ⟨hfailed, hnext⟩
  · have hlost : dlockBadResponse ≠ dlockSuccess := by decide
    refine ⟨fun _ => (by simp), nofun, ?_⟩
    rintro (hlater | hdone)
    · cases hlater
    · cases hdone
  · rw [hnext, endTurn]
    split_ifs with hdone
    · intro hok
      exact ⟨rfl, hok, hupdated⟩
    · exact ⟨hskip, nofun, fun _ => hupdated.done reply⟩
  · rw [hnext, endTurn_of_ret hfailed]
    exact ⟨hskip, fun hlock => mem_append_left _ (h.reinit hlock), fun _ => hupdated.done reply⟩

theorem Inv.keeps (h : s.Inv past updated)
    (hloss : s.nextCall updated = .clientReinit → reply = dlockSuccess → lostDone ∉ past) :
    (s.onReply reply (s.nextCall updated)).Keeps past (s.nextCall updated) reply := by
  unfold nextCall at hloss ⊢
  cases updated with
  | true => exact h.keeps_clientReinitDone (.inl rfl) reply
  | false =>
    cases hstage : s.stages with
    | clientReinit =>
      rw [hstage] at hloss
      exact h.keeps_clientReinit hstage (hloss rfl)
    | updateLock => exact h.keeps_updateAllLocks hstage reply
    | clientReinitDone => exact h.keeps_clientReinitDone (.inr hstage) reply

end ReinitState

theorem isFinal_success : isFinal dlockSuccess = false := rfl

/-- The runs of the loop that return `ret`, by their calls. -/
inductive ReinitRun (ret : Int) : ReinitState → Bool → ReinitTrace → Prop
  | stop {s : ReinitState} (hfinal : isFinal s.ret = true) (hret : s.ret = ret) :
      ReinitRun ret s false []
  | returns {s : ReinitState} {updated : Bool} {reply : Int}
      (hnext : s.onReply reply (s.nextCall updated) = .returns ret) :
      ReinitRun ret s updated [(s.nextCall updated, reply)]
  | again {s s' : ReinitState} {updated : Bool} {reply : Int} {trace : ReinitTrace}
      (hnext : s.onReply reply (s.nextCall updated) = .again s')
      (hrun : ReinitRun ret s' false trace) :
      ReinitRun ret s updated ((s.nextCall updated, reply) :: trace)
  | andDone {s s' : ReinitState} {updated : Bool} {reply : Int} {trace : ReinitTrace}
      (hnext : s.onReply reply (s.nextCall updated) = .andDone s')
      (hrun : ReinitRun ret s' true trace) :
      ReinitRun ret s updated ((s.nextCall updated, reply) :: trace)

theorem reinitRun_of_loop {replies : List Int} {ret : Int}
    (hrun : reinitLoop replies s updated = some (ret, trace)) : ReinitRun ret s updated trace := by
  induction replies generalizing s updated trace with
  | nil =>
    rw [reinitLoop] at hrun
    split_ifs at hrun with hfinal
    cases hrun
    rw [Bool.and_eq_true, Bool.not_eq_true'] at hfinal
    rw [hfinal.1]
    exact .stop hfinal.2 rfl
  | cons reply rest ih =>
    rw [reinitLoop] at hrun
    split_ifs at hrun with hfinal
    · cases hrun
      rw [Bool.and_eq_true, Bool.not_eq_true'] at hfinal
      rw [hfinal.1]
      exact .stop hfinal.2 rfl
    dsimp only at hrun
    split at hrun
    · next hnext =>
      cases hrun
      exact .returns hnext
    · next s' hnext =>
      obtain ⟨r, hloop, heq⟩ := map_eq_some_iff.mp hrun
      cases heq
      exact .again hnext (ih hloop)
    · next s' hnext =>
      obtain ⟨r, hloop, heq⟩ := map_eq_some_iff.mp hrun
      cases heq
      exact .andDone hnext (ih hloop)

/-- A run that returns success from a state in which the invariant holds. -/
theorem ReinitRun.complete (hrun : ReinitRun dlockSuccess s updated trace)
    (h : s.Inv past updated) (hloss : NoReinitAfterLoss (past ++ trace)) :
    ReinitComplete (past ++ trace) := by
  induction hrun generalizing past with
  | stop hfinal hret =>
    -- a code that ends the loop at its head is not a success
    rw [hret, isFinal_success] at hfinal
    cases hfinal
  | @returns s updated reply hnext =>
    have hkeeps := h.keeps fun hcall (hok : reply = _) hlost =>
      hloss past [] (by rw [hcall, hok]) hlost
    rw [hnext] at hkeeps
    obtain ⟨hcall, rfl, hlocks⟩ := hkeeps rfl
    rw [hcall]
    exact hlocks.complete
  | @again s s' updated reply trace hnext _ ih | @andDone s s' updated reply trace hnext _ ih =>
    have hkeeps := h.keeps fun hcall (hok : reply = _) hlost =>
      hloss past trace (by rw [hcall, hok]) hlost
    rw [hnext] at hkeeps
    rw [append_cons] at hloss ⊢
    exact ih hkeeps hloss

/-- The client begins again after a lost reply. -/
def ReinitState.AfterLoss (s : ReinitState) : Prop :=
  s.stages = .clientReinit ∧ s.skipUpdate = true

/-- After a lost reply the loop calls `ClientReinit` until it ends. -/
theorem ReinitRun.calls_afterLoss {ret : Int} (hrun : ReinitRun ret s updated trace)
    (hs : s.AfterLoss) (hupdated : updated = false) : ∀ c ∈ trace, c.1 = .clientReinit := by
  induction hrun with
  | stop _ _ => exact nofun
  | @returns s updated reply _ =>
    subst hupdated
    rw [nextCall, if_neg (by decide), hs.1]
    simp
  | @again s s' updated reply trace hnext _ ih =>
    subst hupdated
    have hcall : s.nextCall false = .clientReinit := by rw [nextCall, if_neg (by decide), hs.1]
    rw [hcall] at hnext ⊢
    refine forall_mem_cons.mpr ⟨rfl, ih ?_ rfl⟩
    -- a success would end the loop, as the skip leads to the last stage
    simp only [onReply, reinitStage, hs.2, if_true] at hnext
    split_ifs at hnext with hok
    · simp [endTurn, isDone, hok] at hnext
    · rw [endTurn_of_ret hok] at hnext
      cases hnext
      exact ⟨hs.1, rfl⟩
  | @andDone s s' updated reply trace hnext _ _ =>
    subst hupdated
    rw [nextCall, if_neg (by decide), hs.1, onReply, endTurn] at hnext
    split_ifs at hnext

theorem ReinitRun.calls_of_loss {ret : Int} (hrun : ReinitRun ret s updated trace)
    {before after : ReinitTrace} (htrace : trace = before ++ lostDone :: after) :
    ∀ c ∈ after, c.1 = .clientReinit := by
  induction hrun generalizing before with
  | stop _ _ => simp at htrace
  | returns _ =>
    cases before with
    | nil =>
      obtain ⟨-, rfl⟩ := cons.inj htrace
      exact nofun
    | cons _ _ => simp at htrace
  | @again s s' updated reply trace hnext hrest ih
  | @andDone s s' updated reply trace hnext hrest ih =>
    cases before with
    | cons c before => exact ih (cons.inj htrace).2
    | nil =>
      obtain ⟨hhead, rfl⟩ := cons.inj htrace
      obtain ⟨hcall, rfl⟩ := Prod.mk.inj hhead
      rw [hcall] at hnext
      cases hnext
      all_goals exact hrest.calls_afterLoss ⟨rfl, rfl⟩ rfl

/-- A protocol that is complete has no `ClientReinit` that succeeds after a lost reply. -/
theorem ReinitRun.noReinitAfterLoss {ret : Int} (hrun : ReinitRun ret s updated trace)
    (h : ReinitComplete trace) : NoReinitAfterLoss trace := by
  rintro pre post htrace hlost
  obtain ⟨before, after, rfl⟩ := append_of_mem hlost
  have hcalls := hrun.calls_of_loss (htrace.trans (append_assoc ..))
  obtain ⟨done, between, heq, -, -⟩ := h
  have hlast := congrArg List.getLast? (htrace.symm.trans heq)
  rw [List.getLast?_concat, List.getLast?_append_of_ne_nil _ (cons_ne_nil _ _)] at hlast
  cases hcalls _ (mem_append_right after (mem_of_getLast? hlast))

/-- **When a client that reports success has called `ClientReinitDone`**, whatever the replies: if
and only if no `ClientReinit` succeeds after a lost reply to `ClientReinitDone`. -/
theorem reinit_success_is_done (replies : List Int) {trace : ReinitTrace}
    (hrun : dlockClientReinit replies = some (dlockSuccess, trace)) :
    ReinitComplete trace ↔ NoReinitAfterLoss trace := by
  have hstart : ReinitState.start.Inv [] false := by
    refine ⟨nofun, nofun, ?_⟩
    rintro (hupdated | hdone)
    · cases hupdated
    · cases hdone
  have hrun := reinitRun_of_loop hrun
  exact ⟨hrun.noReinitAfterLoss, hrun.complete hstart⟩

/-- The server is not ready at first, and the locks and the last call are repeated. -/
theorem reinit_success_is_done_repeated :
    ReinitComplete [(.clientReinit, dlockNotReady), (.clientReinit, dlockSuccess),
      (.updateAllLocks, dlockEagain), (.updateAllLocks, dlockSuccess),
      (.clientReinitDone, dlockEnomem), (.clientReinitDone, dlockSuccess)] := by
  refine (reinit_success_is_done
    [dlockNotReady, dlockSuccess, dlockEagain, dlockSuccess, dlockEnomem, dlockSuccess]
    (by decide)).mpr fun pre post heq hlost => ?_
  have hmem := mem_append_left ((.clientReinit, dlockSuccess) :: post) hlost
  rw [← heq] at hmem
  revert hmem
  decide

/-- **A client reports success without `ClientReinitDone`.**  Its reply is lost, and the
`ClientReinit` that follows succeeds: the loop ends there. -/
theorem reinit_reported_without_done : ∃ trace,
    dlockClientReinit [dlockSuccess, dlockSuccess, dlockBadResponse, dlockSuccess] =
      some (dlockSuccess, trace) ∧
    trace.getLast? = some (.clientReinit, dlockSuccess) ∧
    (.clientReinitDone, dlockSuccess) ∉ trace ∧ ¬ReinitComplete trace := by
  refine ⟨[(.clientReinit, dlockSuccess), (.updateAllLocks, dlockSuccess),
    (.clientReinitDone, dlockBadResponse), (.clientReinit, dlockSuccess)], by decide,
    rfl, by decide, ?_⟩
  rintro ⟨before, between, heq, -, -⟩
  have hlast := congrArg List.getLast? heq
  rw [List.getLast?_concat] at hlast
  cases hlast

end UbsMem
