import UbsMem.MasterDemotion
import UbsMem.SoleMaster

/-! # The node of the lock client

The lock client runs on the active node of type `VOTING_ONLY`, which `GetVoteOnlyNode` reads
from the table.  The master chooses such a node when no active one is there.  A ping that fails
takes the type from the node it was sent to; a connection that fails for another request, and
`ModifyNodeList` for a node that has not joined, only mark the node inactive.  Its entry keeps
the type, another node is chosen, and the next ping of the first one makes it active again:
the table then holds two (`two_lock_clients`).

There is at most one in every run in which the master chooses only when no inactive entry has
the type, a node that joins as voting-only is the one that the table has as such, the tables
that are adopted hold at most one, and entries of unknown nodes begin as eligible
(`one_lock_client`).
-/
namespace UbsMem

open List

/-- An entry that names the lock client. -/
def NodeEntry.IsVoter (node : NodeEntry) : Prop :=
  node.isActive = true ∧ node.type = .votingOnlyNode

def ZenNode.getVoteOnlyNode (n : ZenNode) : Option Name :=
  (n.nodes.find? fun entry =>
    entry.2.isActive && decide (entry.2.type = .votingOnlyNode)).map fun entry => entry.2.id

/-- At most one node has the type, active or not. -/
def OneVoter (nodes : NodeMap) : Prop :=
  ∀ entry ∈ nodes, ∀ entry' ∈ nodes, entry.2.type = .votingOnlyNode →
    entry'.2.type = .votingOnlyNode → entry.1 = entry'.1

/-! ### Changes that give no node the type -/

/-- Every node that has the type had it before. -/
def NoNewVoter (nodes nodes' : NodeMap) : Prop :=
  ∀ entry' ∈ nodes', entry'.2.type = .votingOnlyNode →
    ∃ entry ∈ nodes, entry.1 = entry'.1 ∧ entry.2.type = .votingOnlyNode

section NoNewVoter

variable {nodes nodes' nodes'' : NodeMap} {id : Name}

theorem NoNewVoter.refl (nodes : NodeMap) : NoNewVoter nodes nodes :=
  fun entry hentry htype => ⟨entry, hentry, rfl, htype⟩

theorem NoNewVoter.trans (h : NoNewVoter nodes nodes') (h' : NoNewVoter nodes' nodes'') :
    NoNewVoter nodes nodes'' := by
  intro entry'' hentry'' htype''
  obtain ⟨entry', hentry', hkey', htype'⟩ := h' entry'' hentry'' htype''
  obtain ⟨entry, hentry, hkey, htype⟩ := h entry' hentry' htype'
  exact ⟨entry, hentry, hkey.trans hkey', htype⟩

theorem OneVoter.of_noNew (h : OneVoter nodes) (hnew : NoNewVoter nodes nodes') :
    OneVoter nodes' := by
  intro entry₁ hentry₁ entry₂ hentry₂ htype₁ htype₂
  obtain ⟨old₁, hold₁, hkey₁, hvoter₁⟩ := hnew entry₁ hentry₁ htype₁
  obtain ⟨old₂, hold₂, hkey₂, hvoter₂⟩ := hnew entry₂ hentry₂ htype₂
  rw [← hkey₁, ← hkey₂]
  exact h old₁ hold₁ old₂ hold₂ hvoter₁ hvoter₂

theorem noNewVoter_setNode {node : NodeEntry} (h : node.type = .eligibleNode) :
    NoNewVoter nodes (setNode id node nodes) := by
  intro entry hentry htype
  rcases mem_setNode hentry with rfl | hold
  · rw [h] at htype
    cases htype
  · exact ⟨entry, hold, rfl, htype⟩

/-- A map over the entries that keeps the keys and gives no entry the type. -/
theorem noNewVoter_map {f : Name × NodeEntry → Name × NodeEntry}
    (hkey : ∀ entry, (f entry).1 = entry.1)
    (htype : ∀ entry, (f entry).2.type = .votingOnlyNode → entry.2.type = .votingOnlyNode) :
    NoNewVoter nodes (nodes.map f) := by
  intro entry' hentry' htype'
  obtain ⟨entry, hentry, rfl⟩ := mem_map.mp hentry'
  exact ⟨entry, hentry, (hkey entry).symm, htype entry htype'⟩

theorem noNewVoter_modifyNode {f : NodeEntry → NodeEntry}
    (h : ∀ node, (f node).type = .votingOnlyNode → node.type = .votingOnlyNode) :
    NoNewVoter nodes (modifyNode id f nodes) := by
  refine noNewVoter_map (fun entry => ?_) fun entry => ?_
  · split_ifs <;> rfl
  · split_ifs
    · exact h entry.2
    · exact fun htype => htype

theorem noNewVoter_rel :
    ZenNode.TableRel NoNewVoter (· = .eligibleNode) fun _ => True where
  refl := .refl
  trans := .trans
  seen _ htype := noNewVoter_setNode htype
  mark _ _ := noNewVoter_modifyNode fun _ htype => htype
  eligible _ := noNewVoter_modifyNode nofun

end NoNewVoter

namespace ZenNode

/-- What a new entry begins with, where the outcome of a request adds one. -/
def FreshEligible {R : Type} (outcome : SendOutcome R) : Prop :=
  ∀ fresh, outcome = .notConnected fresh → fresh = .eligibleNode

/-- **The condition on a run.**  The type of a new entry, which `UpdateNodeLastSeen` leaves
without a value, is `ELIGIBLE`.  No inactive entry has the type when the master chooses.  A node
that joins as voting-only is the one that the table has as such, if it has one.  The tables in
broadcasts hold at most one. -/
def KeepsVoter (n : ZenNode) : NodeEvent → Prop
  | .discover =>
    n.state = .electedMaster →
      ∀ entry ∈ n.nodes, entry.2.type = .votingOnlyNode → entry.2.isActive = true
  | .pingRequest _ fresh => fresh = .eligibleNode
  | .joinRequest _ fresh => fresh = .eligibleNode
  | .pingResult _ _ fresh => fresh = .eligibleNode
  | .broadcast _ nodeList _ => OneVoter nodeList
  | .joinResult id outcome =>
    FreshEligible outcome ∧
      (outcome = .answered .votingOnlyNode →
        ∀ entry ∈ n.nodes, entry.2.type = .votingOnlyNode → entry.1 = id)
  | .sendBroadcast outcome => FreshEligible outcome
  | .voteResult outcome => FreshEligible outcome
  | .pollVotes _ outcome => FreshEligible outcome
  | _ => True

/-! ### The functions of a node -/

variable {n n' : ZenNode}

theorem noNewVoter_connectToRpcNode {R : Type} (n : ZenNode) (id : Name) {outcome : SendOutcome R}
    (hfresh : FreshEligible outcome) :
    NoNewVoter n.nodes (n.connectToRpcNode id outcome).nodes :=
  noNewVoter_rel.connectToRpcNode n id fun type htype => ⟨hfresh type htype, trivial⟩

theorem oneVoter_sendJoinRequest (h : OneVoter n.nodes) {id : Name} {outcome : SendOutcome NodeType}
    (hkeeps : n.KeepsVoter (.joinResult id outcome)) :
    OneVoter (n.sendJoinRequest id outcome).nodes := by
  cases outcome with
  | answered type =>
    cases type with
    | eligibleNode => exact h
    | votingOnlyNode =>
      -- both entries are under the key of the node that has joined
      have hkey : ∀ entry ∈ (n.sendJoinRequest id (.answered .votingOnlyNode)).nodes,
          entry.2.type = .votingOnlyNode → entry.1 = id := by
        intro entry hentry htype
        rcases mem_setNode hentry with rfl | hold
        · rfl
        · exact hkeeps.2 rfl entry hold htype
      intro entry hentry entry' hentry' htype htype'
      rw [hkey entry hentry htype, hkey entry' hentry' htype']
  | _ => exact h.of_noNew (noNewVoter_connectToRpcNode n id hkeeps.1)

theorem noNewVoter_performInitialDiscovery (n : ZenNode) :
    NoNewVoter n.nodes n.performInitialDiscovery.nodes :=
  noNewVoter_rel.performInitialDiscovery n fun _ _ => noNewVoter_setNode rfl

theorem noNewVoter_handleAllJoined (n : ZenNode) : NoNewVoter n.nodes n.handleAllJoined.nodes := by
  refine noNewVoter_map (fun entry => ?_) fun entry => ?_
  · split_ifs <;> rfl
  · split_ifs <;> exact fun htype => htype

theorem oneVoter_chooseVoteOnlyNode (h : OneVoter n.nodes)
    (hactive : ∀ entry ∈ n.nodes, entry.2.type = .votingOnlyNode → entry.2.isActive = true) :
    OneVoter n.chooseVoteOnlyNode.nodes := by
  unfold chooseVoteOnlyNode
  split_ifs with hsome
  · exact h
  · have hkey : ∀ entry ∈ modifyNode n.getBiggestNodeId
        (fun node => { node with type := .votingOnlyNode }) n.nodes,
        entry.2.type = .votingOnlyNode → entry.1 = n.getBiggestNodeId := by
      intro entry' hentry' htype
      obtain ⟨entry, hentry, rfl⟩ := mem_map.mp hentry'
      by_cases hid : entry.1 = n.getBiggestNodeId
      · rw [if_pos hid]
        exact hid
      · rw [if_neg hid] at htype
        refine absurd (any_eq_true.mpr ⟨entry, hentry, ?_⟩) hsome
        rw [hactive entry hentry htype, Bool.and_true]
        exact decide_eq_true htype
    intro entry hentry entry' hentry' htype htype'
    rw [hkey entry hentry htype, hkey entry' hentry' htype']

/-! ### The steps -/

theorem OneVoter.discover (h : OneVoter n.nodes) (hkeeps : n.KeepsVoter .discover) :
    OneVoter n.discover.nodes := by
  unfold ZenNode.discover
  split
  · exact h.of_noNew (noNewVoter_performInitialDiscovery n)
  · exact h
  · rename_i hstate
    unfold maintainAsMaster
    split_ifs
    · exact h.of_noNew (noNewVoter_map (fun _ => rfl) fun _ htype => htype)
    · exact oneVoter_chooseVoteOnlyNode h (hkeeps hstate)
  · unfold maintainAsClusterMember
    split_ifs <;> exact h
  all_goals exact h

theorem nodes_becomeTempMaster (n : ZenNode) (candidates : List Name) :
    (n.becomeTempMaster candidates).nodes = n.nodes := by
  rcases becomeTempMaster_cases n candidates with ⟨-, heq⟩ | ⟨-, heq⟩ <;> rw [heq]

theorem nodes_raiseTerm (n : ZenNode) (term : Int) : (n.raiseTerm term).nodes = n.nodes := by
  rw [raiseTerm_eq]

theorem noNewVoter_processVotingResults (n : ZenNode) (v : Voting) {outcome : SendOutcome Unit}
    (hfresh : FreshEligible outcome) :
    NoNewVoter n.nodes (n.processVotingResults v outcome).nodes := by
  unfold processVotingResults
  dsimp only
  split_ifs
  · exact .refl _
  · exact noNewVoter_connectToRpcNode (n.notifyListeners .votingCompleted [] []) _ hfresh
  · rw [nodes_becomeTempMaster]
    exact .refl _

theorem noNewVoter_handleVoteResponse (n : ZenNode) (id : Name) {outcome : SendOutcome Bool}
    (hfresh : FreshEligible outcome) :
    NoNewVoter n.nodes (n.handleVoteResponse id outcome).nodes := by
  unfold handleVoteResponse
  split
  · exact .refl _
  · exact noNewVoter_connectToRpcNode n id hfresh

theorem OneVoter.step (h : OneVoter n.nodes) {e : NodeEvent} (hkeeps : n.KeepsVoter e)
    (hstep : n.step e = some n') : OneVoter n'.nodes := by
  cases e with
  | start =>
    obtain ⟨-, rfl⟩ := step_start hstep
    exact h
  | firstDiscovery =>
    simp only [ZenNode.step] at hstep
    split_ifs at hstep
    cases hstep
    exact h.of_noNew (noNewVoter_performInitialDiscovery n)
  | discover =>
    obtain ⟨-, rfl⟩ := step_discover hstep
    exact OneVoter.discover h hkeeps
  | pingRequest fromNodeId fresh | joinRequest fromNodeId fresh =>
    cases hstep
    exact h.of_noNew (noNewVoter_rel.markNodeActive n fromNodeId hkeeps (.inl rfl))
  | voteRequest fromNodeId candidate term =>
    cases hstep
    show OneVoter (n.raiseTerm term).nodes
    rw [nodes_raiseTerm]
    exact h
  | transElected fromNodeId nodeList term =>
    cases hstep
    unfold handleSendTransElected
    split_ifs
    · exact h
    · rw [nodes_becomeTempMaster, nodes_raiseTerm]
      exact h
  | broadcast fromNodeId nodeList isServerInited =>
    cases hstep
    obtain ⟨type, es, -, heq⟩ := handleBroadCastRequest_eq n fromNodeId nodeList isServerInited
    rw [heq]
    exact hkeeps
  | pingResult id reached fresh =>
    cases hstep
    exact h.of_noNew (noNewVoter_rel.sendPingRequest n id hkeeps (.inr trivial))
  | joinResult id outcome =>
    obtain ⟨pending, phase, rfl, -⟩ := step_joinResult hstep
    exact oneVoter_sendJoinRequest h hkeeps
  | checkElectionResult timedOut =>
    obtain ⟨pending, -, rfl | rfl | rfl⟩ := step_checkElectionResult hstep
    · exact h.of_noNew (noNewVoter_handleAllJoined n)
    · exact h
    · exact h
  | leaveInvite =>
    obtain ⟨-, rfl⟩ := step_leaveInvite hstep
    exact h
  | sendBroadcast outcome =>
    obtain ⟨snapshot, id, targets, -, rfl⟩ := step_sendBroadcast hstep
    exact h.of_noNew (noNewVoter_connectToRpcNode n id hkeeps)
  | runElection =>
    obtain ⟨-, -, rfl⟩ := step_runElection hstep
    obtain ⟨es, -, heq | ⟨tempMaster, masterCandidates, toAsk, heq⟩⟩ := runElection_cases n
    · rw [heq]
      exact h
    · rw [heq]
      exact h
  | sendVoteRequest =>
    obtain ⟨tempMaster, masterCandidates, id, toAsk, -, rfl⟩ := step_sendVoteRequest hstep
    exact h
  | voteResult outcome =>
    obtain ⟨tempMaster, masterCandidates, toAsk, id, -, rfl⟩ := step_voteResult hstep
    exact h.of_noNew (noNewVoter_handleVoteResponse n id hkeeps)
  | pollVotes timedOut outcome =>
    obtain ⟨v, -, rfl | ⟨-, rfl⟩ | rfl⟩ := step_pollVotes hstep
    · exact h
    · exact h.of_noNew (noNewVoter_processVotingResults n v hkeeps)
    · exact h
  | handleEvent outcomes =>
    obtain ⟨p, queue, -, rfl⟩ := step_handleEvent hstep
    exact h
  | clientReinit outcome =>
    cases hstep
    exact h

theorem getVoteOnlyNode_of_voter (h : OneVoter n.nodes) {entry : Name × NodeEntry}
    (hentry : entry ∈ n.nodes) (hvoter : entry.2.IsVoter) :
    ∃ node, (entry.1, node) ∈ n.nodes ∧ node.IsVoter ∧ n.getVoteOnlyNode = some node.id := by
  unfold getVoteOnlyNode
  cases hfind : n.nodes.find? fun entry =>
      entry.2.isActive && decide (entry.2.type = .votingOnlyNode) with
  | none =>
    refine absurd (List.find?_eq_none.mp hfind entry hentry) (not_not.mpr ?_)
    rw [hvoter.1, Bool.true_and]
    exact decide_eq_true hvoter.2
  | some found =>
    have hmem := mem_of_find?_eq_some hfind
    have hfound := List.find?_some hfind
    simp only [Bool.and_eq_true, decide_eq_true_eq] at hfound
    obtain ⟨hactive, htype⟩ := hfound
    have hkey := h entry hentry found hmem hvoter.2 htype
    exact ⟨found.2, hkey ▸ hmem, ⟨hactive, htype⟩, rfl⟩

theorem getVoteOnlyNode_adopted (m : ZenNode) (fromNodeId : Name) (inited : Bool) :
    (m.handleBroadCastRequest fromNodeId n.nodes inited).getVoteOnlyNode = n.getVoteOnlyNode := by
  obtain ⟨type, es, -, heq⟩ := handleBroadCastRequest_eq m fromNodeId n.nodes inited
  rw [heq]
  rfl

end ZenNode

/-- **At most one node of the table is the lock client**, in every run that meets the condition;
and every node that adopts the table names this one. -/
theorem one_lock_client {nodeId : Name} {minimumMasterNodes : Nat} {configured : List Name}
    {n : ZenNode} (hreach : Reaches ZenNode.step ZenNode.KeepsVoter
      (.beforeStart nodeId minimumMasterNodes configured) n) :
    (∀ entry ∈ n.nodes, ∀ entry' ∈ n.nodes, entry.2.IsVoter → entry'.2.IsVoter →
      entry.1 = entry'.1) ∧
      ∀ entry ∈ n.nodes, entry.2.IsVoter → ∃ node, (entry.1, node) ∈ n.nodes ∧ node.IsVoter ∧
        ∀ (m : ZenNode) fromNodeId inited,
          (m.handleBroadCastRequest fromNodeId n.nodes inited).getVoteOnlyNode = some node.id := by
  have hone : OneVoter n.nodes := by
    refine hreach.invariant ?_ fun _ _ _ h hkeeps hstep =>
      ZenNode.OneVoter.step h hkeeps hstep
    exact fun entry hentry => absurd hentry not_mem_nil
  refine ⟨fun entry hentry entry' hentry' hvoter hvoter' =>
    hone entry hentry entry' hentry' hvoter.2 hvoter'.2, fun entry hentry hvoter => ?_⟩
  obtain ⟨node, hmem, hnode, hname⟩ := ZenNode.getVoteOnlyNode_of_voter hone hentry hvoter
  refine ⟨node, hmem, hnode, fun m fromNodeId inited => ?_⟩
  rw [ZenNode.getVoteOnlyNode_adopted]
  exact hname

/-- Enough for `KeepsVoter`, as a test. -/
def keepsVoterTest (n : ZenNode) : NodeEvent → Bool
  | .discover => n.nodes.all fun entry =>
    decide (entry.2.type = .votingOnlyNode → entry.2.isActive = true)
  | .pingRequest _ fresh => decide (fresh = .eligibleNode)
  | .joinRequest _ fresh => decide (fresh = .eligibleNode)
  | .pingResult _ _ fresh => decide (fresh = .eligibleNode)
  | .broadcast _ _ _ => false
  | .joinResult _ outcome => decide (outcome = .answered .eligibleNode)
  | .sendBroadcast outcome => decide (outcome = .answered ())
  | .voteResult outcome => decide (outcome = .answered true)
  | .pollVotes _ outcome => decide (outcome = .notAnswered)
  | _ => true

theorem keepsVoter_of_test (n : ZenNode) (e : NodeEvent) (h : keepsVoterTest n e = true) :
    n.KeepsVoter e := by
  have heligible : ∀ fresh : NodeType, decide (fresh = .eligibleNode) = true →
      fresh = .eligibleNode := fun _ => of_decide_eq_true
  cases e with
  | discover =>
    intro _ entry hentry
    exact of_decide_eq_true (all_eq_true.mp h entry hentry)
  | pingRequest fromNodeId fresh => exact heligible fresh h
  | joinRequest fromNodeId fresh => exact heligible fresh h
  | pingResult id reached fresh => exact heligible fresh h
  | broadcast fromNodeId nodeList inited => cases h
  | joinResult id outcome =>
    rw [of_decide_eq_true h]
    exact ⟨nofun, nofun⟩
  | sendBroadcast outcome =>
    rw [of_decide_eq_true h]
    exact nofun
  | voteResult outcome =>
    rw [of_decide_eq_true h]
    exact nofun
  | pollVotes timedOut outcome =>
    rw [of_decide_eq_true h]
    exact nofun
  | _ => trivial

/-- The master has chosen the third node, has lost it to a failed ping, and has chosen the
second; then the third comes back. -/
def voterReplaced : ZenNode :=
  (execute ZenNode.step keepsVoterTest (.beforeStart [49] 2 [[49], [50], [51]])
    (electFirst ++ [.discover, .sendBroadcast (.answered ()), .sendBroadcast (.answered ()),
      .pingResult [51] false .eligibleNode, .discover, .sendBroadcast (.answered ()),
      .pingRequest [51] .eligibleNode])).getD (.beforeStart [49] 2 [])

theorem one_lock_client_replaced :
    voterReplaced.getVoteOnlyNode = some [50] ∧
      (voterReplaced.nodes.map fun entry => entry.2.isActive) = [true, true, true] ∧
      ∀ entry ∈ voterReplaced.nodes, ∀ entry' ∈ voterReplaced.nodes, entry.2.IsVoter →
        entry'.2.IsVoter → entry.1 = entry'.1 := by
  have hexec : execute ZenNode.step keepsVoterTest (.beforeStart [49] 2 [[49], [50], [51]])
      (electFirst ++ [.discover, .sendBroadcast (.answered ()), .sendBroadcast (.answered ()),
        .pingResult [51] false .eligibleNode, .discover, .sendBroadcast (.answered ()),
        .pingRequest [51] .eligibleNode]) = some voterReplaced := rfl
  have hreach := Reaches.of_execute keepsVoter_of_test .refl hexec
  exact ⟨rfl, rfl, (one_lock_client hreach).1⟩

/-- The master has chosen the third node and has failed to connect to it for its broadcast, and
has chosen the second; then the third comes back. -/
def voterKept : ZenNode :=
  (execute ZenNode.step (fun _ _ => true) (.beforeStart [49] 2 [[49], [50], [51]])
    (electFirst ++ [.discover, .sendBroadcast (.answered ()),
      .sendBroadcast (.notConnected .eligibleNode), .discover, .sendBroadcast (.answered ()),
      .pingRequest [51] .eligibleNode])).getD (.beforeStart [49] 2 [])

/-- **Two active nodes of the table are voting-only.** -/
theorem two_lock_clients :
    Reaches ZenNode.step (fun _ _ => True) (.beforeStart [49] 2 [[49], [50], [51]]) voterKept ∧
      voterKept.state = .electedMaster ∧
      ∃ node node', ([50], node) ∈ voterKept.nodes ∧ ([51], node') ∈ voterKept.nodes ∧
        node.IsVoter ∧ node'.IsVoter := by
  have hexec : execute ZenNode.step (fun _ _ => true) (.beforeStart [49] 2 [[49], [50], [51]])
      (electFirst ++ [.discover, .sendBroadcast (.answered ()),
        .sendBroadcast (.notConnected .eligibleNode), .discover, .sendBroadcast (.answered ()),
        .pingRequest [51] .eligibleNode]) = some voterKept := rfl
  refine ⟨Reaches.of_execute (fun _ _ _ => trivial) .refl hexec, rfl,
    ⟨[50], false, true, .votingOnlyNode⟩, ⟨[51], false, true, .votingOnlyNode⟩, ?_, ?_,
    ⟨rfl, rfl⟩, ⟨rfl, rfl⟩⟩
  · decide
  · decide

end UbsMem
