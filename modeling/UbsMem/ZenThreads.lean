import UbsMem.Machine
import UbsMem.ZenSteps

/-! # The threads of a node

`ZenDiscovery` writes `state_`, `electedMaster_` and the node table from three threads: the
discovery loop, the election loop and the handlers of messages.  A handler of a broadcast
holds the lock of the table throughout.  The discovery loop and `BecomeTempMaster` do not:
here each of their assignments is a step of its own, and a message or another thread can
come in between.

`LoopPoint` is where the discovery loop stands inside one of its functions, `Becoming` is a
call of `BecomeTempMaster` that has not returned; there can be several.  What the steps of
`ZenNode` do at once is a run of these steps (`reaches_of_step`).
-/
namespace UbsMem

open Option

/-- Where the discovery thread stands, by its next assignment. -/
inductive LoopPoint
  /-- Outside the functions below, or in a wait. -/
  | between
  /-- `PerformInitialDiscovery`: the table is filled, `state_ = MASTER_CANDIDATE` is next. -/
  | discovered
  /-- `HandleAllJoined`: `MASTER_ELECTED` is queued, `ModifyNodeList` is next. -/
  | electing
  /-- `HandleAllJoined`: `state_ = ELECTED_MASTER` is next. -/
  | marked
  /-- `CheckElectionResult`: too few joined, `state_ = MASTER_CANDIDATE` is next. -/
  | rejecting
  /-- `StepDownAsMaster` is called, `state_ = MASTER_CANDIDATE` is next. -/
  | demoting
  /-- `StepDownAsMaster`: `electedMaster_` and the table are cleared next. -/
  | demoted
  /-- `MaintainAsClusterMember`: `state_ = INITIAL` is next, and then, when there was a
  master, `electedMaster_` is cleared. -/
  | quitting (forget : Bool)
  /-- `MaintainAsClusterMember`: `electedMaster_` is cleared next. -/
  | forgetting
  deriving DecidableEq, Repr

/-- How far a call of `BecomeTempMaster` is. -/
inductive BecomingPoint
  /-- The node was neither temporary nor elected master. -/
  | checked
  /-- `state_ = TEMP_MASTER` is done. -/
  | stateSet
  /-- `electedMaster_ = nodeId_` is done. -/
  | masterSet
  deriving DecidableEq, Repr

/-- A call of `BecomeTempMaster`. -/
structure Becoming where
  candidates : List Name
  point : BecomingPoint
  deriving DecidableEq, Repr

/-- A node with its threads. -/
structure ThreadedNode where
  node : ZenNode
  point : LoopPoint
  becoming : List Becoming

/-- What a thread does. -/
inductive ThreadEvent
  /-- An event that is one step: a message, or a step of a thread that is not cut. -/
  | whole (e : NodeEvent)
  /-- The discovery loop looks at the state and enters the function for it. -/
  | turn
  /-- A turn of the loop that waits for the invited nodes. -/
  | check (timedOut : Bool)
  /-- The next assignment of the discovery thread. -/
  | assign
  /-- `HandleSendTransElected` up to the check of `BecomeTempMaster`. -/
  | transElected (nodeList : List Name) (term : Int)
  /-- The end of an election up to the check of `BecomeTempMaster`. -/
  | pollVotes (timedOut : Bool) (outcome : SendOutcome Unit)
  /-- The next assignment of a call of `BecomeTempMaster`. -/
  | become (i : Nat)

/-- The events that are one step, those of the discovery thread apart. -/
def NodeEvent.isWhole : NodeEvent → Bool
  | .discover | .checkElectionResult _ | .transElected _ _ _ | .pollVotes _ _ => false
  | _ => true

/-- The events of the discovery thread, and of the first ping before it. -/
def NodeEvent.ofLoop : NodeEvent → Bool
  | .start | .firstDiscovery | .leaveInvite | .sendBroadcast _ => true
  | _ => false

namespace ZenNode

/-- `PerformInitialDiscovery` up to its assignment of the state. -/
def fillNodes (n : ZenNode) : ZenNode :=
  if n.type = .votingOnlyNode then n
  else
    { n with
      nodes := n.configured.foldl
        (fun nodes id => setNode id ⟨id, false, true, .eligibleNode⟩ nodes) n.nodes }

/-- The discovery thread leaves the loop of `InviteNodesToJoin`. -/
def leaving : DiscoveryPhase → DiscoveryPhase
  | .inviting pending => .leaving pending
  | phase => phase

/-- `HandleAllJoined` up to its assignment of the state. -/
def markJoined (n : ZenNode) : ZenNode :=
  let n := n.modifyNodeList
  let joined := n.nodes.filter fun entry =>
    entry.2.isActive && decide (entry.2.type = .votingOnlyNode)
  { n with
    listenerQueue := n.listenerQueue ++
      joined.map fun entry => ⟨.haveJoined, n.nodeId, entry.1⟩ }

/-- `StepDownAsMaster` after its assignment of the state. -/
def clearMaster (n : ZenNode) : ZenNode :=
  notifyListeners
    { n with
      electedMaster := []
      nodes := n.nodes.map fun entry => (entry.1, { entry.2 with isMaster := false }) }
    .nodeDemoted [] []

end ZenNode

namespace ThreadedNode

/-- The discovery loop enters the function for the state it finds. -/
def turn (t : ThreadedNode) : ThreadedNode :=
  match t.node.state with
  | .initial => { t with node := t.node.fillNodes, point := .discovered }
  | .tempMaster => { t with node := t.node.inviteNodesToJoin }
  | .electedMaster =>
    if t.node.nodes.countP (fun entry => entry.2.isActive) + 1 < t.node.minimumMasterNodes then
      { t with point := .demoting }
    else { t with node := t.node.maintainAsMaster }
  | .joinedCluster =>
    if t.node.electedMaster = [] then { t with point := .quitting false }
    else if (findNode t.node.electedMaster t.node.nodes).any (·.isActive) then t
    else { t with point := .quitting true }
  | .uninitialized | .joiningMaster | .masterCandidate => t

/-- A turn of the loop that waits for the invited nodes, up to the first assignment. -/
def check (t : ThreadedNode) (timedOut : Bool) : ThreadedNode :=
  if timedOut then
    if t.node.minimumMasterNodes ≤ t.node.joinsReceived.card then
      { t with node := t.node.notifyListeners .masterElected t.node.nodeId [], point := .electing }
    else
      { t with node := t.node.notifyListeners .nodeDemoted t.node.nodeId [], point := .rejecting }
  else if t.node.tempNodeList.length ≤ t.node.joinsReceived.card then
    { t with node := t.node.notifyListeners .masterElected t.node.nodeId [], point := .electing }
  else t

/-- The next assignment of the discovery thread. -/
def assign (t : ThreadedNode) : Option ThreadedNode :=
  match t.point with
  | .between => none
  | .discovered =>
    some { t with node := { t.node with state := .masterCandidate }, point := .between }
  | .electing => some { t with node := t.node.markJoined, point := .marked }
  | .marked =>
    some
      { t with
        node := { t.node with state := .electedMaster, phase := ZenNode.leaving t.node.phase }
        point := .between }
  | .rejecting =>
    some
      { t with
        node := { t.node with state := .masterCandidate, phase := ZenNode.leaving t.node.phase }
        point := .between }
  | .demoting =>
    some { t with node := { t.node with state := .masterCandidate }, point := .demoted }
  | .demoted => some { t with node := t.node.clearMaster, point := .between }
  | .quitting forget =>
    some
      { t with
        node := { t.node with state := .initial }
        point := if forget then .forgetting else .between }
  | .forgetting => some { t with node := { t.node with electedMaster := [] }, point := .between }

/-- `BecomeTempMaster` up to its first assignment. -/
def callBecome (t : ThreadedNode) (candidates : List Name) : ThreadedNode :=
  if t.node.state = .tempMaster ∨ t.node.state = .electedMaster then t
  else { t with becoming := t.becoming ++ [⟨candidates, .checked⟩] }

/-- The next assignment of a call of `BecomeTempMaster`. -/
def become (t : ThreadedNode) (i : Nat) : Option ThreadedNode :=
  t.becoming[i]?.map fun b =>
    match b.point with
    | .checked =>
      { t with
        node := { t.node with state := .tempMaster }
        becoming := t.becoming.set i ⟨b.candidates, .stateSet⟩ }
    | .stateSet =>
      { t with
        node := { t.node with electedMaster := t.node.nodeId }
        becoming := t.becoming.set i ⟨b.candidates, .masterSet⟩ }
    | .masterSet =>
      { t with
        node := { t.node with tempNodeList := b.candidates }
        becoming := t.becoming.eraseIdx i }

/-- The end of an election.  `electionInProgress_` is reset here and not after the call has
returned; that admits more runs. -/
def endElection (t : ThreadedNode) (v : Voting) (outcome : SendOutcome Unit) : ThreadedNode :=
  let n := t.node.notifyListeners .votingCompleted [] []
  if v.tempMaster ≠ n.nodeId then
    { t with node := { n.connectToRpcNode v.tempMaster outcome with voting := none } }
  else callBecome { t with node := { n with voting := none } } v.masterCandidates

/-- A step of a node with its threads. -/
def step (t : ThreadedNode) : ThreadEvent → Option ThreadedNode
  | .whole e =>
    if e.isWhole = true ∧ (e.ofLoop = true → t.point = .between) then
      (t.node.step e).map fun n => { t with node := n }
    else none
  | .turn => if t.node.phase = .idle ∧ t.point = .between then some t.turn else none
  | .check timedOut =>
    match t.node.phase with
    | .inviting _ => if t.point = .between then some (t.check timedOut) else none
    | _ => none
  | .assign => t.assign
  | .transElected nodeList term =>
    if term < t.node.currentTerm then some t
    else some (callBecome { t with node := t.node.raiseTerm term } nodeList)
  | .pollVotes timedOut outcome =>
    match t.node.voting with
    | some ⟨tempMaster, masterCandidates, [], none⟩ =>
      if timedOut then some { t with node := { t.node with voting := none } }
      else if t.node.minimumMasterNodes ≤ t.node.votesReceived.card then
        some (t.endElection ⟨tempMaster, masterCandidates, [], none⟩ outcome)
      else some t
    | _ => none
  | .become i => t.become i

/-! ### The steps of a node as runs -/

/-- A node none of whose threads is inside a function. -/
def atRest (n : ZenNode) : ThreadedNode := ⟨n, .between, []⟩

/-- Some run of the threads. -/
def Runs (t t' : ThreadedNode) : Prop := Reaches step (fun _ _ => True) t t'

variable {n n' : ZenNode} {t t' t₁ : ThreadedNode} {timedOut : Bool}

theorem Runs.then (h : Runs t t₁) (e : ThreadEvent) (hstep : t₁.step e = some t') : Runs t t' :=
  .next h trivial hstep

theorem turn_electedMaster (h : n.state = .electedMaster) : (atRest n).turn =
      if n.nodes.countP (fun entry => entry.2.isActive) + 1 < n.minimumMasterNodes then
        ⟨n, .demoting, []⟩
      else atRest n.maintainAsMaster := by
  unfold turn
  rw [show (atRest n).node.state = .electedMaster from h]
  rfl

theorem turn_joinedCluster (h : n.state = .joinedCluster) : (atRest n).turn =
      if n.electedMaster = [] then ⟨n, .quitting false, []⟩
      else if (findNode n.electedMaster n.nodes).any (·.isActive) then atRest n
      else ⟨n, .quitting true, []⟩ := by
  unfold turn
  rw [show (atRest n).node.state = .joinedCluster from h]
  rfl

theorem performInitialDiscovery_eq_fillNodes (n : ZenNode) :
    n.performInitialDiscovery = { n.fillNodes with state := .masterCandidate } := by
  unfold ZenNode.performInitialDiscovery ZenNode.fillNodes
  split_ifs <;> rfl

theorem runs_discover (hphase : n.phase = .idle) : Runs (atRest n) (atRest n.discover) := by
  have hturn : Runs (atRest n) (atRest n).turn := Runs.then .refl .turn (if_pos ⟨hphase, rfl⟩)
  unfold ZenNode.discover
  cases hstate : n.state with
  | initial =>
    have heq : (atRest n).turn = ⟨n.fillNodes, .discovered, []⟩ := by
      simp only [turn, atRest, hstate]
    rw [heq] at hturn
    refine hturn.then .assign ?_
    rw [performInitialDiscovery_eq_fillNodes]
    rfl
  | tempMaster =>
    have heq : (atRest n).turn = atRest n.inviteNodesToJoin := by
      simp only [turn, atRest, hstate]
    exact heq ▸ hturn
  | electedMaster =>
    rw [turn_electedMaster hstate] at hturn
    split_ifs at hturn with hfew
    · have hdown : n.maintainAsMaster = n.stepDownAsMaster := if_pos hfew
      rw [hdown]
      exact (hturn.then .assign rfl).then .assign rfl
    · exact hturn
  | joinedCluster =>
    rw [turn_joinedCluster hstate] at hturn
    unfold ZenNode.maintainAsClusterMember
    split_ifs at hturn with hnone hactive
    · rw [if_pos hnone]
      exact hturn.then .assign rfl
    · rw [if_neg hnone, if_pos hactive]
      exact .refl
    · rw [if_neg hnone, if_neg hactive]
      exact (hturn.then .assign rfl).then .assign rfl
  | uninitialized | joiningMaster | masterCandidate => exact .refl

/-- The two forms of `CheckElectionResult` take the same branch. -/
theorem check_cases (n : ZenNode) (timedOut : Bool) :
    n.checkElectionResult timedOut = (true, n.handleAllJoined) ∧ (atRest n).check timedOut =
          ⟨n.notifyListeners .masterElected n.nodeId [], .electing, []⟩ ∨
      n.checkElectionResult timedOut =
          (true, { n.notifyListeners .nodeDemoted n.nodeId [] with state := .masterCandidate }) ∧
        (atRest n).check timedOut = ⟨n.notifyListeners .nodeDemoted n.nodeId [], .rejecting, []⟩ ∨
      n.checkElectionResult timedOut = (false, n) ∧ (atRest n).check timedOut = atRest n := by
  unfold ZenNode.checkElectionResult check
  dsimp only [atRest]
  split_ifs with _ hjoins hall
  · exact .inl ⟨rfl, if_pos hjoins⟩
  · exact .inr (.inl ⟨rfl, if_neg hjoins⟩)
  · exact .inl ⟨rfl, if_pos hall⟩
  · exact .inr (.inr ⟨rfl, if_neg hall⟩)

theorem runs_checkElectionResult (h : n.step (.checkElectionResult timedOut) = some n') :
    Runs (atRest n) (atRest n') := by
  simp only [ZenNode.step] at h
  split at h
  · next pending hphase =>
    have hcheck : (atRest n).step (.check timedOut) = some ((atRest n).check timedOut) := by
      simp only [step, atRest, hphase, if_true]
    have hrun : Runs (atRest n) ((atRest n).check timedOut) := Runs.then .refl _ hcheck
    have hleaving : ZenNode.leaving n.phase = .leaving pending := by rw [hphase]; rfl
    rcases check_cases n timedOut with ⟨hcoarse, hfine⟩ | ⟨hcoarse, hfine⟩ | ⟨hcoarse, hfine⟩ <;>
      rw [hcoarse] at h <;> obtain rfl := some.inj h <;> rw [hfine] at hrun
    · rw [← hleaving]
      exact (hrun.then .assign rfl).then .assign rfl
    · rw [← hleaving]
      exact hrun.then .assign rfl
    · exact .refl
  · cases h

/-- A call of `BecomeTempMaster` that runs to its end. -/
theorem runs_becomeTempMaster (n : ZenNode) (candidates : List Name) :
    Runs ((atRest n).callBecome candidates) (atRest (n.becomeTempMaster candidates)) := by
  unfold callBecome ZenNode.becomeTempMaster
  by_cases hmaster : n.state = .tempMaster ∨ n.state = .electedMaster
  · rw [if_pos (show (atRest n).node.state = .tempMaster ∨
      (atRest n).node.state = .electedMaster from
      hmaster), if_pos hmaster]
    exact .refl
  · rw [if_neg (show ¬ ((atRest n).node.state = .tempMaster ∨
      (atRest n).node.state = .electedMaster) from hmaster), if_neg hmaster]
    exact ((Runs.then .refl (.become 0) rfl).then (.become 0) rfl).then (.become 0) rfl

theorem Runs.trans (h : Runs t t₁) (h' : Runs t₁ t') : Runs t t' := by
  induction h' with
  | refl => exact h
  | next _ _ hstep ih => exact ih.then _ hstep

theorem runs_transElected (nodeList : List Name) (term : Int) :
    Runs (atRest n) (atRest (n.handleSendTransElected nodeList term)) := by
  unfold ZenNode.handleSendTransElected
  split_ifs with hold
  · exact .refl
  · have hcall : (atRest n).step (.transElected nodeList term) =
        some ((atRest (n.raiseTerm term)).callBecome nodeList) := if_neg hold
    exact (Runs.then .refl _ hcall).trans (runs_becomeTempMaster _ nodeList)

theorem runs_endElection (v : Voting) (outcome : SendOutcome Unit)
    (henough : n.minimumMasterNodes ≤ n.votesReceived.card) :
    Runs ((atRest n).endElection v outcome)
      (atRest { n.processVotingResults v outcome with voting := none }) := by
  have hnot : ¬ (n.notifyListeners .votingCompleted [] []).votesReceived.card <
      (n.notifyListeners .votingCompleted [] []).minimumMasterNodes := Nat.not_lt.mpr henough
  unfold endElection ZenNode.processVotingResults
  dsimp only [atRest]
  rw [if_neg hnot]
  by_cases hself : v.tempMaster ≠ (n.notifyListeners .votingCompleted [] []).nodeId
  · rw [if_pos hself, if_pos hself]
    exact .refl
  · rw [if_neg hself, if_neg hself]
    have hlast : ({ (n.notifyListeners .votingCompleted [] []).becomeTempMaster v.masterCandidates
        with voting := none } : ZenNode) =
        ZenNode.becomeTempMaster { n.notifyListeners .votingCompleted [] [] with voting := none }
          v.masterCandidates := by
      unfold ZenNode.becomeTempMaster
      split_ifs <;> rfl
    rw [hlast]
    exact runs_becomeTempMaster _ v.masterCandidates

theorem runs_pollVotes {outcome : SendOutcome Unit}
    (h : n.step (.pollVotes timedOut outcome) = some n') : Runs (atRest n) (atRest n') := by
  simp only [ZenNode.step] at h
  split at h
  · next tempMaster masterCandidates hvoting =>
    have hpoll : (atRest n).step (.pollVotes timedOut outcome) =
        if timedOut then some (atRest { n with voting := none })
        else if n.minimumMasterNodes ≤ n.votesReceived.card then
          some ((atRest n).endElection ⟨tempMaster, masterCandidates, [], none⟩ outcome)
        else some (atRest n) := by
      unfold step
      rw [show (atRest n).node.voting = some ⟨tempMaster, masterCandidates, [], none⟩ from hvoting]
      rfl
    split_ifs at h hpoll with htime henough
    · obtain rfl := some.inj h
      exact Runs.then .refl _ hpoll
    · obtain rfl := some.inj h
      exact (Runs.then .refl _ hpoll).trans (runs_endElection _ outcome henough)
    · obtain rfl := some.inj h
      exact .refl
  · cases h

/-- **A step of a node is a run of its threads.** -/
theorem reaches_of_step {e : NodeEvent} (h : n.step e = some n') : Runs (atRest n) (atRest n') := by
  by_cases hwhole : e.isWhole = true
  · refine Runs.then .refl (.whole e) ?_
    have hok : e.isWhole = true ∧ (e.ofLoop = true → (atRest n).point = .between) :=
      ⟨hwhole, fun _ => rfl⟩
    simp only [step, if_pos hok]
    exact congrArg (Option.map _) h
  · cases e with
    | discover =>
      obtain ⟨hphase, rfl⟩ := ZenNode.step_discover h
      exact runs_discover hphase
    | checkElectionResult timedOut => exact runs_checkElectionResult h
    | transElected fromNodeId nodeList term =>
      obtain rfl := some.inj h
      exact runs_transElected nodeList term
    | pollVotes timedOut outcome => exact runs_pollVotes h
    | _ => exact absurd rfl hwhole

/-- **A run of a node is a run of its threads.** -/
theorem runs_of_reaches (allow : ZenNode → NodeEvent → Prop)
    (h : Reaches ZenNode.step allow n n') : Runs (atRest n) (atRest n') := by
  induction h with
  | refl => exact .refl
  | next _ _ hstep ih => exact ih.trans (reaches_of_step hstep)

/-- The first of three nodes is elected, and then hears of a later term. -/
theorem runs_of_reaches_start : ∃ n, execute ZenNode.step (fun _ _ => true)
      (.beforeStart [49] 2 [[49], [50], [51]]) (electFirst ++ [.transElected [50] [[50]] 7]) =
      some n ∧
    n.state = .electedMaster ∧ n.currentTerm = 7 ∧
    Runs (atRest (.beforeStart [49] 2 [[49], [50], [51]])) (atRest n) := by
  obtain ⟨n, hexec, hn⟩ : ∃ n, execute ZenNode.step (fun _ _ => true)
      (.beforeStart [49] 2 [[49], [50], [51]]) (electFirst ++ [.transElected [50] [[50]] 7]) =
        some n ∧ n.state = .electedMaster ∧ n.currentTerm = 7 := ⟨_, rfl, rfl, rfl⟩
  exact ⟨n, hexec, hn.1, hn.2,
    runs_of_reaches (fun _ _ => True) (.of_execute (fun _ _ _ => trivial) .refl hexec)⟩

end ThreadedNode

end UbsMem
