import UbsMem.ZenDiscovery

/-! # What the steps of a node change

One lemma for each function of the discovery module says which fields it changes and how,
and one for each kind of event says when it can happen and what the node is afterwards.
The results about a node and about a cluster go by these alone.
-/
namespace UbsMem

open List

namespace ZenNode

/-! ### What the parts of a step change -/

/-- Nothing but the tables of nodes and of joined nodes. -/
def TablesOnly (n n' : ZenNode) : Prop :=
  ∃ nodes joins, n' = { n with nodes := nodes, joinsReceived := joins }

theorem TablesOnly.trans {n n' n'' : ZenNode} (h : TablesOnly n n') (h' : TablesOnly n' n'') :
    TablesOnly n n'' := by
  obtain ⟨_, _, rfl⟩ := h
  obtain ⟨nodes, joins, rfl⟩ := h'
  exact ⟨nodes, joins, rfl⟩

section

variable (n : ZenNode) (id : Name)

theorem tablesOnly_updateNodeLastSeen (fresh : NodeType) :
    TablesOnly n (n.updateNodeLastSeen id fresh) := by
  unfold updateNodeLastSeen
  split
  · exact ⟨n.nodes, n.joinsReceived, rfl⟩
  · exact ⟨_, n.joinsReceived, rfl⟩

theorem tablesOnly_mark (fresh : NodeType) (active : Bool) :
    TablesOnly n ((n.updateNodeLastSeen id fresh).markNodeActive id active) :=
  (tablesOnly_updateNodeLastSeen n id fresh).trans ⟨_, _, rfl⟩

theorem tablesOnly_connectToRpcNode {R : Type} (outcome : SendOutcome R) :
    TablesOnly n (n.connectToRpcNode id outcome) := by
  cases outcome with
  | notConnected fresh => exact tablesOnly_mark n id fresh false
  | unknownNode | notAnswered | answered reply => exact ⟨_, _, rfl⟩

theorem tablesOnly_sendPingRequest (reached : Bool) (fresh : NodeType) :
    TablesOnly n (n.sendPingRequest id reached fresh) := by
  unfold sendPingRequest
  by_cases hreached : reached = true
  · rw [if_pos hreached]
    exact tablesOnly_mark n id fresh true
  · rw [if_neg hreached]
    dsimp only
    split
    · exact (tablesOnly_mark n id fresh false).trans ⟨_, _, rfl⟩
    · exact tablesOnly_mark n id fresh false

theorem tablesOnly_sendJoinRequest (outcome : SendOutcome NodeType) :
    TablesOnly n (n.sendJoinRequest id outcome) := by
  cases outcome with
  | answered type => exact ⟨_, _, rfl⟩
  | notConnected fresh => exact tablesOnly_mark n id fresh false
  | unknownNode | notAnswered => exact ⟨_, _, rfl⟩

end

/-- The events that a broadcast can queue. -/
def ClientEvents (es : List ListenerParam) : Prop :=
  ∀ p ∈ es, p.event = .nodeDemoted ∨ p.event = .becomeVoteNode

theorem acceptEntry_eq (inited : Bool) (n : ZenNode) (node : NodeEntry) :
    ∃ type es, ClientEvents es ∧
      n.acceptEntry inited node = { n with type, listenerQueue := n.listenerQueue ++ es } := by
  unfold acceptEntry
  split_ifs
  · exact ⟨.votingOnlyNode, [⟨.becomeVoteNode, n.electedMaster, n.nodeId⟩], by simp [ClientEvents],
      rfl⟩
  · exact ⟨.votingOnlyNode, [], by simp [ClientEvents], by rw [append_nil]⟩
  · exact ⟨.eligibleNode, [⟨.nodeDemoted, n.electedMaster, n.nodeId⟩], by simp [ClientEvents], rfl⟩
  · exact ⟨n.type, [], by simp [ClientEvents], by rw [append_nil]⟩

theorem foldl_acceptEntry_eq (inited : Bool) (entries : List NodeEntry) (n : ZenNode) :
    ∃ type es, ClientEvents es ∧ entries.foldl (acceptEntry inited) n =
        { n with type, listenerQueue := n.listenerQueue ++ es } := by
  induction entries generalizing n with
  | nil => exact ⟨n.type, [], by simp [ClientEvents], by rw [foldl_nil, append_nil]⟩
  | cons node entries ih =>
    obtain ⟨type, es, hes, heq⟩ := acceptEntry_eq inited n node
    obtain ⟨type', es', hes', heq'⟩ := ih (n.acceptEntry inited node)
    refine ⟨type', es ++ es', fun p hp => ?_, ?_⟩
    · rcases mem_append.mp hp with hp | hp
      · exact hes p hp
      · exact hes' p hp
    · rw [foldl_cons, heq', heq, append_assoc]

theorem handleBroadCastRequest_eq (n : ZenNode) (fromNodeId : Name) (nodeList : NodeMap)
    (inited : Bool) :
    ∃ type es, ClientEvents es ∧ n.handleBroadCastRequest fromNodeId nodeList inited =
        { n with
          nodes := nodeList, electedMaster := fromNodeId, state := .joinedCluster, type,
          listenerQueue := n.listenerQueue ++ es } :=
  foldl_acceptEntry_eq inited (nodeList.map Prod.snd) _

theorem handleAllJoined_eq (n : ZenNode) : ∃ es nodes, (∀ q ∈ es, q.event = .haveJoined) ∧
      n.handleAllJoined =
        { n with
          nodes := nodes
          listenerQueue := n.listenerQueue ++ [⟨.masterElected, n.nodeId, []⟩] ++ es
          state := .electedMaster } := by
  refine ⟨_, _, ?_, rfl⟩
  intro q hq
  obtain ⟨entry, -, rfl⟩ := mem_map.mp hq
  rfl

theorem becomeTempMaster_cases (n : ZenNode) (candidates : List Name) :
    (n.state = .tempMaster ∨ n.state = .electedMaster) ∧ n.becomeTempMaster candidates = n ∨
      n.state ≠ .electedMaster ∧ n.becomeTempMaster candidates =
          { n with
            state := .tempMaster, electedMaster := n.nodeId, tempNodeList := candidates } := by
  by_cases hmaster : n.state = .tempMaster ∨ n.state = .electedMaster
  · exact .inl ⟨hmaster, if_pos hmaster⟩
  · exact .inr ⟨fun h => hmaster (.inr h), if_neg hmaster⟩

theorem raiseTerm_eq (n : ZenNode) (term : Int) :
    n.raiseTerm term = { n with currentTerm := max n.currentTerm term } := by
  unfold raiseTerm
  split
  · rw [max_eq_right (by omega)]
  · rw [max_eq_left (by omega)]

theorem handleVoteResponse_cases (n : ZenNode) (id : Name) (outcome : SendOutcome Bool) :
    outcome = .answered true ∧
        n.handleVoteResponse id outcome = { n with votesReceived := insert id n.votesReceived } ∨
      outcome ≠ .answered true ∧ TablesOnly n (n.handleVoteResponse id outcome) := by
  unfold handleVoteResponse
  split
  · exact .inl ⟨rfl, rfl⟩
  · rename_i hrefused
    exact .inr ⟨hrefused, tablesOnly_connectToRpcNode n id outcome⟩

/-- Events that have no effect on the lock module. -/
def NeutralEvents (es : List ListenerParam) : Prop :=
  ∀ p ∈ es, p.event = .electionStarted ∨ p.event = .votingCompleted ∨ p.event = .electionFailed

theorem neutralEvents_singleton {p : ListenerParam}
    (h : p.event = .electionStarted ∨ p.event = .votingCompleted ∨ p.event = .electionFailed) :
    NeutralEvents [p] := by
  intro q hq
  rw [mem_singleton.mp hq]
  exact h

section

variable (n : ZenNode)

/-- An election is given up at once or begins with the node's own vote. -/
theorem runElection_cases : ∃ es, NeutralEvents es ∧ (n.runElection =
          { n with
            currentTerm := nextTerm n.currentTerm
            votesReceived := ∅
            listenerQueue := n.listenerQueue ++ es } ∨
        ∃ tempMaster masterCandidates toAsk, n.runElection =
          { n with
            currentTerm := nextTerm n.currentTerm
            votesReceived := {n.nodeId}
            voting := some ⟨tempMaster, masterCandidates, toAsk, none⟩
            listenerQueue := n.listenerQueue ++ es }) := by
  unfold runElection
  dsimp only
  split
  · refine ⟨[⟨.electionStarted, [], []⟩] ++ [⟨.electionFailed, [], []⟩], ?_, .inl ?_⟩
    · intro p hp
      rcases mem_append.mp hp with hp | hp
      · exact neutralEvents_singleton (.inl rfl) p hp
      · exact neutralEvents_singleton (.inr (.inr rfl)) p hp
    · rw [← append_assoc]
      rfl
  · exact ⟨_, neutralEvents_singleton (.inl rfl), .inr ⟨_, _, _, rfl⟩⟩

theorem processVotingResults_cases (v : Voting) (outcome : SendOutcome Unit)
    (henough : n.minimumMasterNodes ≤ n.votesReceived.card) :
    v.tempMaster ≠ n.nodeId ∧
        TablesOnly (n.notifyListeners .votingCompleted [] []) (n.processVotingResults v outcome) ∨
      v.tempMaster = n.nodeId ∧ n.processVotingResults v outcome =
          (n.notifyListeners .votingCompleted [] []).becomeTempMaster v.masterCandidates := by
  have hnot : ¬ (n.notifyListeners .votingCompleted [] []).votesReceived.card <
      (n.notifyListeners .votingCompleted [] []).minimumMasterNodes := Nat.not_lt.mpr henough
  unfold processVotingResults
  rw [if_neg hnot]
  by_cases hself : v.tempMaster = n.nodeId
  · exact .inr ⟨hself, if_neg (not_not.mpr hself)⟩
  · refine .inl ⟨hself, ?_⟩
    have hother : v.tempMaster ≠ (n.notifyListeners .votingCompleted [] []).nodeId := hself
    rw [if_pos hother]
    exact tablesOnly_connectToRpcNode _ _ outcome

theorem performInitialDiscovery_eq :
    ∃ nodes, n.performInitialDiscovery = { n with nodes, state := .masterCandidate } := by
  unfold performInitialDiscovery
  split
  · exact ⟨n.nodes, rfl⟩
  · exact ⟨_, rfl⟩

theorem maintainAsMaster_cases : n.maintainAsMaster = n.stepDownAsMaster ∨ ∃ nodes targets,
        n.maintainAsMaster = { n with nodes, phase := broadcastPhase nodes targets } := by
  unfold maintainAsMaster
  split
  · exact .inl rfl
  · unfold chooseVoteOnlyNode
    split <;> exact .inr ⟨_, _, rfl⟩

theorem discover_cases : (∃ nodes, n.state = .initial ∧
        n.discover = { n with nodes, state := .masterCandidate }) ∨
      (n.state = .tempMaster ∧ n.discover = n.inviteNodesToJoin) ∨
      (n.state = .electedMaster ∧ n.discover = n.stepDownAsMaster) ∨
      (∃ nodes targets, n.state = .electedMaster ∧
        n.discover = { n with nodes, phase := broadcastPhase nodes targets }) ∨
      (∃ master, n.state = .joinedCluster ∧
        n.discover = { n with state := .initial, electedMaster := master }) ∨
      n.discover = n := by
  unfold discover
  split
  · rename_i hstate
    obtain ⟨nodes, heq⟩ := performInitialDiscovery_eq n
    exact .inl ⟨nodes, hstate, heq⟩
  · rename_i hstate
    exact .inr (.inl ⟨hstate, rfl⟩)
  · rename_i hstate
    rcases maintainAsMaster_cases n with heq | ⟨nodes, targets, heq⟩
    · exact .inr (.inr (.inl ⟨hstate, heq⟩))
    · exact .inr (.inr (.inr (.inl ⟨nodes, targets, hstate, heq⟩)))
  · rename_i hstate
    refine .inr (.inr (.inr (.inr ?_)))
    unfold maintainAsClusterMember
    split_ifs
    · exact .inl ⟨n.electedMaster, hstate, rfl⟩
    · exact .inr rfl
    · exact .inl ⟨[], hstate, rfl⟩
  all_goals exact .inr (.inr (.inr (.inr (.inr rfl))))

theorem checkElectionResult_cases (timedOut : Bool) :
    n.checkElectionResult timedOut = (true, n.handleAllJoined) ∨ n.checkElectionResult timedOut =
        (true, { n.notifyListeners .nodeDemoted n.nodeId [] with state := .masterCandidate }) ∨
      n.checkElectionResult timedOut = (false, n) := by
  unfold checkElectionResult
  split_ifs
  · exact .inl rfl
  · exact .inr (.inl rfl)
  · exact .inl rfl
  · exact .inr (.inr rfl)

end

/-- The discovery thread is in the loop of `InviteNodesToJoin`. -/
def Inviting (n : ZenNode) : Prop := ∃ pending, n.phase = .inviting pending

/-! ### When an event can happen -/

variable {n n' : ZenNode} {timedOut : Bool} {outcome : SendOutcome Unit}

theorem step_start (h : n.step .start = some n') :
    n.phase = .stopped ∧ n' = { n with state := .initial, phase := .firstPing } := by
  simp only [step] at h
  split_ifs at h with hphase
  exact ⟨hphase, (Option.some.inj h).symm⟩

theorem step_firstDiscovery (h : n.step .firstDiscovery = some n') : n.phase = .firstPing ∧
      ∃ nodes, n' = { n with nodes, state := .masterCandidate, phase := .idle } := by
  simp only [step] at h
  split_ifs at h with hphase
  obtain ⟨nodes, heq⟩ := performInitialDiscovery_eq n
  rw [heq] at h
  exact ⟨hphase, nodes, (Option.some.inj h).symm⟩

theorem step_discover (h : n.step .discover = some n') : n.phase = .idle ∧ n' = n.discover := by
  simp only [step] at h
  split_ifs at h with hphase
  exact ⟨hphase, (Option.some.inj h).symm⟩

theorem step_joinResult {id : Name} {outcome : SendOutcome NodeType}
    (h : n.step (.joinResult id outcome) = some n') :
    ∃ pending phase, n' = { n.sendJoinRequest id outcome with phase } ∧
      (n.phase = .inviting pending ∧ phase = .inviting (pending.erase id) ∨
        n.phase = .leaving pending ∧ phase = .leaving (pending.erase id)) := by
  simp only [step] at h
  split at h
  · rename_i pending hphase
    split_ifs at h
    exact ⟨pending, _, (Option.some.inj h).symm, .inl ⟨hphase, rfl⟩⟩
  · rename_i pending hphase
    split_ifs at h
    exact ⟨pending, _, (Option.some.inj h).symm, .inr ⟨hphase, rfl⟩⟩
  · cases h

theorem step_checkElectionResult (h : n.step (.checkElectionResult timedOut) = some n') :
    ∃ pending, n.phase = .inviting pending ∧
      (n' = { n.handleAllJoined with phase := .leaving pending } ∨
        n' = { n.notifyListeners .nodeDemoted n.nodeId [] with
          state := .masterCandidate, phase := .leaving pending } ∨
        n' = n) := by
  simp only [step] at h
  split at h
  · rename_i pending hphase
    refine ⟨pending, hphase, ?_⟩
    rcases checkElectionResult_cases n timedOut with heq | heq | heq <;> rw [heq] at h
    · exact .inl (Option.some.inj h).symm
    · exact .inr (.inl (Option.some.inj h).symm)
    · exact .inr (.inr (Option.some.inj h).symm)
  · cases h

theorem step_leaveInvite (h : n.step .leaveInvite = some n') :
    n.phase = .leaving [] ∧ n' = { n with phase := .idle } := by
  simp only [step] at h
  split_ifs at h with hphase
  exact ⟨hphase, (Option.some.inj h).symm⟩

theorem step_sendBroadcast (h : n.step (.sendBroadcast outcome) = some n') :
    ∃ snapshot id targets, n.phase = .broadcasting snapshot (id :: targets) ∧
      n' = { n.connectToRpcNode id outcome with phase := broadcastPhase snapshot targets } := by
  simp only [step] at h
  split at h
  · rename_i snapshot id targets hphase
    exact ⟨snapshot, id, targets, hphase, (Option.some.inj h).symm⟩
  · cases h

theorem step_runElection (h : n.step .runElection = some n') :
    n.state = .masterCandidate ∧ n.voting = none ∧ n' = n.runElection := by
  simp only [step] at h
  split_ifs at h with hcandidate
  exact ⟨hcandidate.2.2.1, hcandidate.2.2.2, (Option.some.inj h).symm⟩

theorem step_sendVoteRequest (h : n.step .sendVoteRequest = some n') :
    ∃ tempMaster masterCandidates id toAsk,
      n.voting = some ⟨tempMaster, masterCandidates, id :: toAsk, none⟩ ∧
        n' = { n with voting := some ⟨tempMaster, masterCandidates, toAsk, some id⟩ } := by
  simp only [step] at h
  split at h
  · rename_i tempMaster masterCandidates id toAsk hvoting
    exact ⟨tempMaster, masterCandidates, id, toAsk, hvoting, (Option.some.inj h).symm⟩
  · cases h

theorem step_voteResult {outcome : SendOutcome Bool} (h : n.step (.voteResult outcome) = some n') :
    ∃ tempMaster masterCandidates toAsk id,
      n.voting = some ⟨tempMaster, masterCandidates, toAsk, some id⟩ ∧
        n' = { n.handleVoteResponse id outcome with
          voting := some ⟨tempMaster, masterCandidates, toAsk, none⟩ } := by
  simp only [step] at h
  split at h
  · rename_i tempMaster masterCandidates toAsk id hvoting
    exact ⟨tempMaster, masterCandidates, toAsk, id, hvoting, (Option.some.inj h).symm⟩
  · cases h

theorem step_pollVotes (h : n.step (.pollVotes timedOut outcome) = some n') :
    ∃ v, n.voting = some v ∧
      (n' = { n with voting := none } ∨
        n.minimumMasterNodes ≤ n.votesReceived.card ∧
          n' = { n.processVotingResults v outcome with voting := none } ∨
        n' = n) := by
  simp only [step] at h
  split at h
  · rename_i hvoting
    refine ⟨_, hvoting, ?_⟩
    split_ifs at h with htimedOut henough
    · exact .inl (Option.some.inj h).symm
    · exact .inr (.inl ⟨henough, (Option.some.inj h).symm⟩)
    · exact .inr (.inr (Option.some.inj h).symm)
  · cases h

theorem step_handleEvent {outcomes : LockOutcomes} (h : n.step (.handleEvent outcomes) = some n') :
    ∃ p queue, n.listenerQueue = p :: queue ∧
      n' = { n with
        listenerQueue := queue, lock := n.lock.handleElectionEvent n.nodeId p outcomes } := by
  simp only [step] at h
  split at h
  · cases h
  · rename_i p queue hqueue
    exact ⟨p, queue, hqueue, (Option.some.inj h).symm⟩

/-! ### Events that change little -/

/-- The discovery thread is not back at its start, and invites only if it did before. -/
structure PhaseKept (n : ZenNode) (phase : DiscoveryPhase) : Prop where
  started : phase = .stopped ∨ phase = .firstPing → phase = n.phase
  inviting : (∃ pending, phase = .inviting pending) → n.Inviting

/-- Nothing but the tables and the phase. -/
def Works (n n' : ZenNode) : Prop :=
  ∃ nodes joins phase, PhaseKept n phase ∧
    n' = { n with nodes := nodes, joinsReceived := joins, phase := phase }

theorem Works.of_phase (h : TablesOnly n n') {phase : DiscoveryPhase} (hphase : PhaseKept n phase) :
    Works n { n' with phase } := by
  obtain ⟨nodes, joins, rfl⟩ := h
  exact ⟨nodes, joins, phase, hphase, rfl⟩

theorem Works.of_tables (h : TablesOnly n n') : Works n n' := by
  obtain ⟨nodes, joins, rfl⟩ := h
  exact ⟨nodes, joins, n.phase, ⟨fun _ => rfl, id⟩, rfl⟩

end ZenNode

/-- The events of pings, invitations and broadcasts. -/
def NodeEvent.isWork : NodeEvent → Bool
  | .pingRequest _ _ | .joinRequest _ _ | .pingResult _ _ _ | .joinResult _ _ | .leaveInvite
  | .sendBroadcast _ => true
  | _ => false

/-- Those and the events of elections. -/
def NodeEvent.isQuiet : NodeEvent → Bool
  | .voteRequest _ _ _ | .transElected _ _ _ | .runElection | .sendVoteRequest | .voteResult _
  | .pollVotes _ _ => true
  | e => e.isWork

namespace ZenNode

variable {n n' : ZenNode} {e : NodeEvent}

theorem works_step (h : n.step e = some n') (he : e.isWork = true) : Works n n' := by
  cases e with
  | pingRequest fromNodeId fresh | joinRequest fromNodeId fresh =>
    cases h
    exact .of_tables (tablesOnly_mark n fromNodeId fresh true)
  | pingResult id reached fresh =>
    cases h
    exact .of_tables (tablesOnly_sendPingRequest n id reached fresh)
  | joinResult id outcome =>
    obtain ⟨pending, phase, rfl, ⟨hphase, rfl⟩ | ⟨-, rfl⟩⟩ := step_joinResult h
    · exact .of_phase (tablesOnly_sendJoinRequest n id outcome)
        ⟨by simp, fun _ => ⟨pending, hphase⟩⟩
    · exact .of_phase (tablesOnly_sendJoinRequest n id outcome) ⟨by simp, by simp⟩
  | leaveInvite =>
    obtain ⟨-, rfl⟩ := step_leaveInvite h
    exact .of_phase ⟨n.nodes, n.joinsReceived, rfl⟩ ⟨by simp, by simp⟩
  | sendBroadcast outcome =>
    obtain ⟨snapshot, id, targets, -, rfl⟩ := step_sendBroadcast h
    refine .of_phase (tablesOnly_connectToRpcNode n id outcome) ?_
    cases targets <;> exact ⟨by simp [broadcastPhase], by simp [broadcastPhase]⟩
  | _ => cases he

/-- The events of an election also change its fields, and queue events that do not matter to the
lock module. -/
def Quiet (n n' : ZenNode) : Prop :=
  ∃ m term voting votes es, Works n m ∧ NeutralEvents es ∧
    n' = { m with
      currentTerm := term, voting := voting, votesReceived := votes
      listenerQueue := m.listenerQueue ++ es }

theorem Quiet.of_works (h : Works n n') : Quiet n n' :=
  ⟨n', n'.currentTerm, n'.voting, n'.votesReceived, [], h, nofun, by rw [append_nil]⟩

theorem Quiet.of_election (n : ZenNode) (term : Int) (voting : Option Voting)
    (votes : Finset Name) :
    Quiet n { n with currentTerm := term, voting, votesReceived := votes } :=
  ⟨n, term, voting, votes, [], .of_tables ⟨_, _, rfl⟩, nofun, by rw [append_nil]⟩

/-- A quiet event, after which the node can be temporary master if it was not the elected one. -/
theorem quiet_step (h : n.step e = some n') (he : e.isQuiet = true) :
    ∃ m, Quiet n m ∧ (n' = m ∨ m.state ≠ .electedMaster ∧ ∃ candidates,
      n' = { m with
        state := .tempMaster, electedMaster := m.nodeId, tempNodeList := candidates }) := by
  cases e with
  | voteRequest fromNodeId candidate term =>
    cases h
    unfold handleVoteRequest
    rw [raiseTerm_eq]
    exact ⟨_, .of_election n _ n.voting n.votesReceived, .inl rfl⟩
  | transElected fromNodeId nodeList term =>
    cases h
    unfold handleSendTransElected
    split_ifs
    · exact ⟨n, .of_works (.of_tables ⟨_, _, rfl⟩), .inl rfl⟩
    · rw [raiseTerm_eq]
      refine ⟨_, .of_election n (max n.currentTerm term) n.voting n.votesReceived, ?_⟩
      exact (becomeTempMaster_cases _ nodeList).imp And.right fun h => ⟨h.1, nodeList, h.2⟩
  | runElection =>
    obtain ⟨-, -, rfl⟩ := step_runElection h
    obtain ⟨es, hes, heq | ⟨tempMaster, masterCandidates, toAsk, heq⟩⟩ := runElection_cases n <;>
      exact ⟨_, ⟨n, _, _, _, es, .of_tables ⟨_, _, rfl⟩, hes, heq⟩, .inl rfl⟩
  | sendVoteRequest =>
    obtain ⟨tempMaster, masterCandidates, id, toAsk, -, rfl⟩ := step_sendVoteRequest h
    exact ⟨_, .of_election n n.currentTerm _ n.votesReceived, .inl rfl⟩
  | voteResult outcome =>
    obtain ⟨tempMaster, masterCandidates, toAsk, id, -, rfl⟩ := step_voteResult h
    rcases handleVoteResponse_cases n id outcome with ⟨-, heq⟩ | ⟨-, htables⟩
    · rw [heq]
      exact ⟨_, .of_election n n.currentTerm _ _, .inl rfl⟩
    · exact ⟨_, ⟨_, _, _, _, [], .of_tables htables, nofun, by rw [append_nil]⟩, .inl rfl⟩
  | pollVotes timedOut outcome =>
    obtain ⟨v, -, rfl | ⟨henough, rfl⟩ | rfl⟩ := step_pollVotes h
    · exact ⟨_, .of_election n n.currentTerm none n.votesReceived, .inl rfl⟩
    · have hcompleted : NeutralEvents [⟨.votingCompleted, [], []⟩] :=
        neutralEvents_singleton (.inr (.inl rfl))
      rcases processVotingResults_cases n v outcome henough with
        ⟨-, nodes, joins, heq⟩ | ⟨-, heq⟩ <;> rw [heq]
      · exact ⟨_, ⟨_, n.currentTerm, none, n.votesReceived, _, .of_tables ⟨nodes, joins, rfl⟩,
          hcompleted, rfl⟩, .inl rfl⟩
      · refine ⟨_, ⟨n, n.currentTerm, none, n.votesReceived, _, .of_tables ⟨_, _, rfl⟩,
          hcompleted, rfl⟩, ?_⟩
        rcases becomeTempMaster_cases (n.notifyListeners .votingCompleted [] [])
          v.masterCandidates with ⟨-, heq⟩ | ⟨hne, heq⟩ <;> rw [heq]
        · exact .inl rfl
        · exact .inr ⟨hne, v.masterCandidates, rfl⟩
    · exact ⟨n', .of_works (.of_tables ⟨_, _, rfl⟩), .inl rfl⟩
  | _ => exact ⟨n', .of_works (works_step h he), .inl rfl⟩

/-! ### What the calls keep of the table -/

/-- A relation between tables that holds across what a call writes: a new entry, of a type that
`fresh` allows; marks; and an inactive node, where `gone` allows it. -/
structure TableRel (Rel : NodeMap → NodeMap → Prop) (fresh : NodeType → Prop)
    (gone : Name → Prop) : Prop where
  refl : ∀ nodes, Rel nodes nodes
  trans : ∀ {nodes nodes' nodes''}, Rel nodes nodes' → Rel nodes' nodes'' → Rel nodes nodes''
  seen : ∀ {id nodes type}, findNode id nodes = none → fresh type →
    Rel nodes (setNode id ⟨id, false, true, type⟩ nodes)
  mark : ∀ {id active} nodes, active = true ∨ gone id →
    Rel nodes (modifyNode id (fun node => { node with isActive := active }) nodes)
  eligible : ∀ {id} nodes,
    Rel nodes (modifyNode id (fun node => { node with type := .eligibleNode }) nodes)

namespace TableRel

variable {Rel : NodeMap → NodeMap → Prop} {fresh : NodeType → Prop} {gone : Name → Prop}
  (hrel : TableRel Rel fresh gone) (n : ZenNode) (id : Name) {type : NodeType}

include hrel

theorem markNodeActive {active : Bool} (htype : fresh type) (hgone : active = true ∨ gone id) :
    Rel n.nodes ((n.updateNodeLastSeen id type).markNodeActive id active).nodes := by
  refine hrel.trans ?_ (hrel.mark _ hgone)
  unfold updateNodeLastSeen
  split
  · exact hrel.refl _
  · next hfind => exact hrel.seen hfind htype

theorem connectToRpcNode {R : Type} {outcome : SendOutcome R}
    (h : ∀ type, outcome = .notConnected type → fresh type ∧ gone id) :
    Rel n.nodes (n.connectToRpcNode id outcome).nodes := by
  cases outcome with
  | notConnected type => exact hrel.markNodeActive n id (h type rfl).1 (.inr (h type rfl).2)
  | _ => exact hrel.refl _

theorem sendPingRequest {reached : Bool} (htype : fresh type) (hgone : reached = true ∨ gone id) :
    Rel n.nodes (n.sendPingRequest id reached type).nodes := by
  cases reached with
  | true => exact hrel.markNodeActive n id htype hgone
  | false =>
    have hmark := hrel.markNodeActive n id htype hgone
    unfold ZenNode.sendPingRequest
    dsimp only
    rw [if_neg Bool.false_ne_true]
    split_ifs
    · exact hrel.trans hmark (hrel.eligible _)
    · exact hmark

theorem sendJoinRequest {outcome : SendOutcome NodeType}
    (h : ∀ type, outcome = .notConnected type → fresh type ∧ gone id)
    (hvoting : Rel n.nodes (n.sendJoinRequest id (.answered .votingOnlyNode)).nodes) :
    Rel n.nodes (n.sendJoinRequest id outcome).nodes := by
  cases outcome with
  | answered type =>
    cases type with
    | eligibleNode => exact hrel.refl _
    | votingOnlyNode => exact hvoting
  | _ => exact hrel.connectToRpcNode n id h

theorem chooseVoteOnlyNode (hvoting : ∀ id, Rel n.nodes
      (modifyNode id (fun node => { node with type := .votingOnlyNode }) n.nodes)) :
    Rel n.nodes n.chooseVoteOnlyNode.nodes := by
  unfold ZenNode.chooseVoteOnlyNode
  split_ifs
  · exact hrel.refl _
  · exact hvoting _

theorem performInitialDiscovery
    (hset : ∀ id nodes, Rel nodes (setNode id ⟨id, false, true, .eligibleNode⟩ nodes)) :
    Rel n.nodes n.performInitialDiscovery.nodes := by
  have hfold : ∀ (ids : List Name) (nodes : NodeMap), Rel nodes
      (ids.foldl (fun nodes id => setNode id ⟨id, false, true, .eligibleNode⟩ nodes) nodes) := by
    intro ids
    induction ids with
    | nil => exact hrel.refl
    | cons id ids ih => exact fun nodes => hrel.trans (hset id nodes) (ih _)
  unfold ZenNode.performInitialDiscovery
  split_ifs
  · exact hrel.refl _
  · exact hfold n.configured n.nodes

end TableRel

end ZenNode

/-! ### An election -/

/-- A dlock library whose calls all succeed. -/
def dlockWorks : LockOutcomes := ⟨fun _ => LockService.allWell, true, true⟩

/-- The first of three nodes is elected, with the votes and the joins of all. -/
def electFirst : List NodeEvent :=
  [.start, .firstDiscovery, .runElection, .sendVoteRequest, .voteResult (.answered true),
    .sendVoteRequest, .voteResult (.answered true), .pollVotes false .notAnswered, .discover,
    .joinResult [50] (.answered .eligibleNode), .joinResult [51] (.answered .eligibleNode),
    .checkElectionResult false, .leaveInvite, .handleEvent dlockWorks, .handleEvent dlockWorks,
    .handleEvent dlockWorks]

end UbsMem
