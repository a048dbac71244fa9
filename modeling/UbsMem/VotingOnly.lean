import UbsMem.ZenCluster

/-! # The node that only votes

The master assigns the type `VOTING_ONLY` to one node and tells it in a broadcast.  Others
leave such a node out when they collect the candidates of an election.  The node itself
does not: `CollectNodeInfo` puts its own id among the candidates whatever its type is,
`HandleVoteRequest` looks at ids alone, and neither `BecomeTempMaster` nor the loop that
collects the joins looks at the type.  So the node that only votes leads once it is the
smallest of those that are left (`voting_only_leads`).

It stays out of the lead in a run where it is outranked whenever it starts an election,
where the results of elections that reach it are outdated, and where it is not made
voting-only while it is on the way to the lead (`voting_only_never_leads`).
-/
namespace UbsMem

open List Function

/-! ### The order of the ids -/

variable {ids : List Name}

theorem mem_insertId {id x : Name} : x ∈ insertId id ids ↔ x = id ∨ x ∈ ids := by
  unfold insertId
  rw [mem_setInsert]
  constructor
  · rintro (hx | ⟨hx, -⟩)
    · exact .inr hx
    · exact .inl hx
  · rintro (rfl | hx)
    · by_cases hmem : x ∈ ids
      · exact .inl hmem
      · refine .inr ⟨rfl, fun y hy => ?_⟩
        have hne : x ≠ y := fun h => hmem (h ▸ hy)
        simp only [equivKeys, Bool.and_eq_false_iff, Bool.not_eq_false', decide_eq_true_eq]
        by_contra hnone
        rw [not_or] at hnone
        exact hne (List.le_antisymm hnone.2 hnone.1)
    · exact .inl hx

/-- The fold of `std::min_element` is the start or an element. -/
theorem foldl_min_mem (ids : List Name) (least : Name) :
    ids.foldl (fun least x => if x < least then x else least) least ∈ least :: ids := by
  induction ids generalizing least with
  | nil => exact mem_cons_self
  | cons id ids ih =>
    rw [foldl_cons]
    rcases mem_cons.mp (ih (if id < least then id else least)) with h | h
    · rw [h]
      split_ifs
      · exact .tail _ (.head _)
      · exact .head _
    · exact .tail _ (.tail _ h)

/-- No element precedes the fold of `std::min_element`. -/
theorem not_lt_foldl_min (ids : List Name) (least : Name) :
    ∀ x ∈ least :: ids, ¬ x < ids.foldl (fun least x => if x < least then x else least) least := by
  induction ids generalizing least with
  | nil =>
    intro x hx
    rw [mem_singleton.mp hx]
    exact List.lt_irrefl least
  | cons id ids ih =>
    intro x hx hlt
    rw [foldl_cons] at hlt
    have hrest := ih (if id < least then id else least)
    rcases mem_cons.mp hx with rfl | hx
    · by_cases hid : id < x
      · simp only [if_pos hid] at hlt hrest
        exact hrest id List.mem_cons_self (List.lt_trans hid hlt)
      · simp only [if_neg hid] at hlt hrest
        exact hrest x mem_cons_self hlt
    · rcases mem_cons.mp hx with rfl | hx
      · by_cases hid : x < least
        · simp only [if_pos hid] at hlt hrest
          exact hrest x mem_cons_self hlt
        · simp only [if_neg hid] at hlt hrest
          exact hrest least List.mem_cons_self (List.lt_of_le_of_lt hid hlt)
      · exact hrest x (mem_cons_of_mem _ hx) hlt

theorem minElement_mem (h : ids ≠ []) : minElement ids ∈ ids := by
  cases ids with
  | nil => exact absurd rfl h
  | cons id ids => exact foldl_min_mem ids id

theorem minElement_ne {x y : Name} (hx : x ∈ ids) (hlt : x < y) : minElement ids ≠ y := by
  rintro rfl
  cases ids with
  | nil => cases hx
  | cons id ids => exact not_lt_foldl_min ids id x hx hlt

/-! ### Whom a node selects -/

namespace ZenNode

/-- An entry that counts as a candidate. -/
def Candidate (node : NodeEntry) : Prop := node.type = .eligibleNode ∧ node.isActive = true

theorem mem_collectEntry (c : NodeCollections) (node : NodeEntry) (x : Name) :
    (x ∈ (collectEntry c node).masterCandidates ↔
        x ∈ c.masterCandidates ∨ Candidate node ∧ node.id = x) ∧
      (x ∈ (collectEntry c node).activeMasters ↔
        x ∈ c.activeMasters ∨ (Candidate node ∧ node.isMaster = true) ∧ node.id = x) := by
  unfold collectEntry Candidate
  cases htype : node.type with
  | votingOnlyNode => simp
  | eligibleNode =>
    cases hactive : node.isActive <;> cases hmaster : node.isMaster <;>
      simp [mem_insertId, eq_comm, or_comm]

theorem mem_foldl_collectEntry (entries : List NodeEntry) (c : NodeCollections) (x : Name) :
    (x ∈ (entries.foldl collectEntry c).masterCandidates ↔
        x ∈ c.masterCandidates ∨ ∃ node ∈ entries, Candidate node ∧ node.id = x) ∧
      (x ∈ (entries.foldl collectEntry c).activeMasters ↔ x ∈ c.activeMasters ∨
          ∃ node ∈ entries, (Candidate node ∧ node.isMaster = true) ∧ node.id = x) := by
  induction entries generalizing c with
  | nil => simp
  | cons node entries ih =>
    obtain ⟨hcandidates, hmasters⟩ := ih (collectEntry c node)
    obtain ⟨hcandidates', hmasters'⟩ := mem_collectEntry c node x
    simp only [foldl_cons, hcandidates, hmasters, hcandidates', hmasters',
      exists_mem_cons_iff, or_assoc, and_self]

/-- Another node is before this one in its own table: a candidate with a smaller id, where
this node's own entry is not that of an active master. -/
def Outranked (n : ZenNode) : Prop :=
  (∃ entry ∈ n.nodes, Candidate entry.2 ∧ entry.2.id < n.nodeId) ∧
    ∀ entry ∈ n.nodes, Candidate entry.2 → entry.2.isMaster = true → entry.2.id ≠ n.nodeId

theorem selectTemporaryMaster_ne {n : ZenNode} (h : n.Outranked) :
    selectTemporaryMaster n.collectNodeInfo ≠ n.nodeId := by
  obtain ⟨⟨entry, hentry, hcandidate, hlt⟩, hmasters⟩ := h
  have hmem := mem_foldl_collectEntry (n.nodes.map Prod.snd) ⟨[], [], []⟩
  unfold selectTemporaryMaster
  split_ifs with hactive
  · have hleast := minElement_mem hactive
    rcases (hmem _).2.mp hleast with hnil | ⟨node, hnode, ⟨hcand, hmaster⟩, hid⟩
    · cases hnil
    · obtain ⟨entry', hentry', rfl⟩ := mem_map.mp hnode
      rw [← hid]
      exact hmasters entry' hentry' hcand hmaster
  · refine minElement_ne (mem_insertId.mpr (.inr ((hmem _).1.mpr (.inr ?_)))) hlt
    exact ⟨entry.2, mem_map_of_mem hentry, hcandidate, rfl⟩

/-! ### One node -/

/-- A node that only votes is out of the lead, and not on the way to it. -/
structure OutOfLead (n : ZenNode) : Prop where
  state : n.state ≠ .tempMaster ∧ n.state ≠ .electedMaster
  joins : ¬ n.Inviting
  election : ∀ v, n.voting = some v → v.tempMaster ≠ n.nodeId

/-- The invariant of a node. -/
def OnlyVotes (n : ZenNode) : Prop := n.type = .votingOnlyNode → n.OutOfLead

/-- The node list names the node as voting-only. -/
def ListedVotingOnly (n : ZenNode) (nodeList : NodeMap) : Prop :=
  ∃ entry ∈ nodeList, entry.2.id = n.nodeId ∧ entry.2.type = .votingOnlyNode

/-- **The condition on the events of a node.**  A node that only votes is outranked when it
starts an election; an elected-master message that it receives is of an earlier term; and a
node is made voting-only by a broadcast only while it neither collects joins nor runs an
election for itself. -/
def KeepsOut (n : ZenNode) : NodeEvent → Prop
  | .runElection => n.type = .votingOnlyNode → n.Outranked
  | .transElected _ _ term => n.type = .votingOnlyNode → term < n.currentTerm
  | .broadcast _ nodeList _ =>
    n.ListedVotingOnly nodeList →
      ¬ n.Inviting ∧ ∀ v, n.voting = some v → v.tempMaster ≠ n.nodeId
  | _ => True

variable {n n' : ZenNode} {fromNodeId : Name} {e : NodeEvent}

theorem type_foldl_acceptEntry (inited : Bool) (entries : List NodeEntry) (n : ZenNode)
    (h : (entries.foldl (acceptEntry inited) n).type = .votingOnlyNode) :
    n.type = .votingOnlyNode ∨
      ∃ node ∈ entries, node.id = n.nodeId ∧ node.type = .votingOnlyNode := by
  induction entries generalizing n with
  | nil => exact .inl h
  | cons node entries ih =>
    obtain ⟨type, es, -, heq⟩ := acceptEntry_eq inited n node
    have hid : (n.acceptEntry inited node).nodeId = n.nodeId := by rw [heq]
    rcases ih (n.acceptEntry inited node) h with htype | ⟨node', hnode', hlisted⟩
    · unfold acceptEntry at htype
      split_ifs at htype with hown
      · exact .inr ⟨node, mem_cons_self, hown⟩
      · exact .inr ⟨node, mem_cons_self, hown⟩
      · cases htype
      · exact .inl htype
    · rw [hid] at hlisted
      exact .inr ⟨node', mem_cons_of_mem _ hnode', hlisted⟩

theorem OnlyVotes.broadcast (h : n.OnlyVotes) {nodeList : NodeMap} {inited : Bool}
    (hkeeps : n.KeepsOut (.broadcast fromNodeId nodeList inited)) :
    (n.handleBroadCastRequest fromNodeId nodeList inited).OnlyVotes := by
  intro htype
  have hout : ¬ n.Inviting ∧ ∀ v, n.voting = some v → v.tempMaster ≠ n.nodeId := by
    rcases type_foldl_acceptEntry inited (nodeList.map Prod.snd) _ htype with
      hold | ⟨node, hnode, hown⟩
    · exact ⟨(h hold).joins, (h hold).election⟩
    · obtain ⟨entry, hentry, rfl⟩ := mem_map.mp hnode
      exact hkeeps ⟨entry, hentry, hown⟩
  obtain ⟨type, es, -, heq⟩ := handleBroadCastRequest_eq n fromNodeId nodeList inited
  rw [heq]
  exact ⟨by simp, hout.1, hout.2⟩

/-- A step that keeps the type, and with it everything that leads to the lead. -/
theorem OnlyVotes.of_passive (h : n.OnlyVotes) (hpassive : Passive n n')
    (htype : n'.type = n.type) : n'.OnlyVotes := by
  intro hvoting
  obtain ⟨⟨htemp, helected⟩, hjoins, helection⟩ := h (htype ▸ hvoting)
  have hnot : ¬ n'.Leading := by
    intro hleading
    rcases hpassive.leading hleading with hstate | hstate | hinviting
    · exact htemp hstate
    · exact helected hstate
    · exact hjoins hinviting
  refine ⟨⟨fun hstate => hnot (.inl hstate), fun hstate => hnot (.inr (.inl hstate))⟩,
    fun hinviting => hnot (.inr (.inr hinviting)), ?_⟩
  rw [hpassive.voting, hpassive.nodeId]
  exact helection

theorem type_step (hbroadcast : ∀ fromNodeId nodeList inited,
    e ≠ .broadcast fromNodeId nodeList inited) (hstep : n.step e = some n') : n'.type = n.type := by
  cases e with
  | start =>
    obtain ⟨-, rfl⟩ := step_start hstep
    rfl
  | firstDiscovery =>
    obtain ⟨-, nodes, rfl⟩ := step_firstDiscovery hstep
    rfl
  | discover =>
    obtain ⟨-, rfl⟩ := step_discover hstep
    rcases discover_cases n with ⟨_, _, heq⟩ | ⟨_, heq⟩ | ⟨_, heq⟩ | ⟨_, _, _, heq⟩ | ⟨_, _, heq⟩ |
      heq <;> rw [heq] <;> rfl
  | broadcast fromNodeId nodeList inited => exact absurd rfl (hbroadcast _ _ _)
  | checkElectionResult timedOut =>
    obtain ⟨pending, -, rfl | rfl | rfl⟩ := step_checkElectionResult hstep <;> rfl
  | handleEvent outcomes =>
    obtain ⟨_, _, -, rfl⟩ := step_handleEvent hstep
    rfl
  | clientReinit outcome =>
    cases hstep
    rfl
  | _ =>
    obtain ⟨_, ⟨_, _, _, _, _, ⟨_, _, _, -, rfl⟩, -, rfl⟩, rfl | ⟨-, _, rfl⟩⟩ :=
      quiet_step hstep rfl <;> rfl

theorem tempMaster_runElection {v : Voting} (hv : n.runElection.voting = some v) :
    n.voting = some v ∨ v.tempMaster = selectTemporaryMaster n.collectNodeInfo := by
  unfold runElection at hv
  dsimp only at hv
  split at hv
  · exact .inl hv
  · obtain rfl := Option.some.inj hv
    exact .inr rfl

theorem OnlyVotes.runElection (h : n.OnlyVotes) (hkeeps : n.KeepsOut .runElection) :
    n.runElection.OnlyVotes := by
  intro htype
  have hframe : n.runElection.type = n.type ∧ n.runElection.state = n.state ∧
      n.runElection.phase = n.phase ∧ n.runElection.nodeId = n.nodeId := by
    obtain ⟨es, -, heq | ⟨_, _, _, heq⟩⟩ := runElection_cases n <;> rw [heq] <;>
      exact ⟨rfl, rfl, rfl, rfl⟩
  obtain ⟨htype', hstate, hphase, hid⟩ := hframe
  rw [htype'] at htype
  obtain ⟨hout, hjoins, helection⟩ := h htype
  refine ⟨by rwa [hstate], ?_, fun v hv => ?_⟩
  · rintro ⟨pending, hinviting⟩
    exact hjoins ⟨pending, hphase ▸ hinviting⟩
  · rw [hid]
    rcases tempMaster_runElection hv with hold | hnew
    · exact helection v hold
    · rw [hnew]
      exact selectTemporaryMaster_ne (hkeeps htype)

theorem OnlyVotes.transElected (h : n.OnlyVotes) {nodeList : List Name} {term : Int}
    (hkeeps : n.KeepsOut (.transElected fromNodeId nodeList term)) :
    (n.handleSendTransElected nodeList term).OnlyVotes := by
  have hframe := type_step (n := n) (e := .transElected fromNodeId nodeList term) (by simp) rfl
  unfold handleSendTransElected at hframe ⊢
  split_ifs at hframe ⊢ with hold
  · exact h
  · exact fun htype => absurd (hkeeps (hframe ▸ htype)) hold

/-- The end of an election makes no master of a node that only votes. -/
theorem OnlyVotes.pollVotes (h : n.OnlyVotes) {timedOut : Bool} {outcome : SendOutcome Unit}
    (hstep : n.step (.pollVotes timedOut outcome) = some n') : n'.OnlyVotes := by
  obtain ⟨v, hv, rfl | ⟨henough, rfl⟩ | rfl⟩ := step_pollVotes hstep
  · exact fun htype => ⟨(h htype).state, (h htype).joins, fun _ hnone => absurd hnone (by simp)⟩
  · rcases processVotingResults_cases n v outcome henough with ⟨-, nodes, joins, heq⟩ | ⟨hself, -⟩
    · rw [heq]
      exact fun htype => ⟨(h htype).state, (h htype).joins, fun _ hnone => absurd hnone (by simp)⟩
    · intro htype
      have hframe := type_step (by simp) hstep
      exact absurd hself ((h (hframe ▸ htype)).election v hv)
  · exact h

/-- **What keeps a node that only votes out of the lead, step by step.** -/
theorem OnlyVotes.step (h : n.OnlyVotes) (hkeeps : n.KeepsOut e) (hstep : n.step e = some n') :
    n'.OnlyVotes := by
  cases e with
  | voteRequest fromNodeId candidate term =>
    cases hstep
    unfold handleVoteRequest
    rw [raiseTerm_eq]
    exact fun htype => ⟨(h htype).state, (h htype).joins, (h htype).election⟩
  | transElected fromNodeId nodeList term =>
    cases hstep
    exact h.transElected hkeeps
  | broadcast fromNodeId nodeList inited =>
    cases hstep
    exact h.broadcast hkeeps
  | runElection =>
    obtain ⟨-, -, rfl⟩ := step_runElection hstep
    exact h.runElection hkeeps
  | sendVoteRequest =>
    obtain ⟨tempMaster, masterCandidates, id, toAsk, hvoting, rfl⟩ := step_sendVoteRequest hstep
    refine fun htype => ⟨(h htype).state, (h htype).joins, fun v hv => ?_⟩
    obtain rfl := Option.some.inj hv
    have hother := (h htype).election _ hvoting
    exact hother
  | voteResult outcome =>
    obtain ⟨tempMaster, masterCandidates, toAsk, id, hvoting, rfl⟩ := step_voteResult hstep
    have hsame : ∀ v, (⟨tempMaster, masterCandidates, toAsk, none⟩ : Voting) = v →
        n.type = .votingOnlyNode → v.tempMaster ≠ n.nodeId := by
      rintro v rfl htype
      have hother := (h htype).election _ hvoting
      exact hother
    rcases handleVoteResponse_cases n id outcome with ⟨-, heq⟩ | ⟨-, nodes, joins, heq⟩ <;>
      rw [heq] <;>
      exact fun htype => ⟨(h htype).state, (h htype).joins,
        fun v hv => hsame v (Option.some.inj hv) htype⟩
  | pollVotes timedOut outcome => exact h.pollVotes hstep
  | _ => exact h.of_passive (passive_step rfl hstep) (type_step (by simp) hstep)

end ZenNode

/-! ### The cluster -/

namespace Cluster

/-- Which node an event of the cluster is about, and what happens on it. -/
def onNode (s : Cluster) : ClusterEvent → Option (Name × NodeEvent)
  | .work x e => some (x, e)
  | .runElection x => some (x, .runElection)
  | .sendVoteRequest x => some (x, .sendVoteRequest)
  | .deliverVote call =>
    s.voteCalls[call]?.map fun r => (r.dst, .voteRequest r.src r.candidate r.term)
  | .voteReply x granted => some (x, .voteResult (.answered granted))
  | .voteLost x outcome => some (x, .voteResult outcome)
  | .pollVotes x timedOut outcome => some (x, .pollVotes timedOut outcome)
  | .deliverElected m => some (m.dst, .transElected m.dst m.nodeList m.term)
  | .sendBroadcast x outcome => some (x, .sendBroadcast outcome)
  | .deliverBroadcast m => some (m.dst, .broadcast m.fromNodeId m.nodeList m.isServerInited)

variable {members : Finset Name} {s s' : Cluster}

theorem nodes_ownVote (s : Cluster) (x : Name) : (s.ownVote x).nodes = s.nodes := by
  unfold ownVote
  split <;> rfl

theorem step_onNode {e : ClusterEvent} (h : s.step members e = some s') :
    ∃ x ne n', s.onNode e = some (x, ne) ∧ (s.nodes x).step ne = some n' ∧
      s'.nodes = update s.nodes x n' := by
  cases e with
  | work x ne =>
    simp only [step] at h
    split_ifs at h
    obtain ⟨n', hstep, rfl⟩ := act_eq h
    exact ⟨x, ne, n', rfl, hstep, rfl⟩
  | runElection x =>
    simp only [step] at h
    split_ifs at h
    obtain ⟨s₁, hact, rfl⟩ := Option.map_eq_some_iff.mp h
    obtain ⟨n', hstep, rfl⟩ := act_eq hact
    exact ⟨x, _, n', rfl, hstep, nodes_ownVote _ _⟩
  | sendVoteRequest x =>
    simp only [step] at h
    split at h
    · split_ifs at h
      obtain ⟨s₁, hact, rfl⟩ := Option.map_eq_some_iff.mp h
      obtain ⟨n', hstep, rfl⟩ := act_eq hact
      exact ⟨x, _, n', rfl, hstep, rfl⟩
    · cases h
  | deliverVote call =>
    obtain ⟨r, hr, h⟩ := Option.bind_eq_some_iff.mp h
    split_ifs at h
    all_goals
      obtain ⟨s₁, hact, rfl⟩ := Option.map_eq_some_iff.mp h
      obtain ⟨n', hstep, rfl⟩ := act_eq hact
      exact ⟨r.dst, _, n', by rw [onNode, hr]; rfl, hstep, rfl⟩
  | voteReply x granted =>
    obtain ⟨call, -, h⟩ := Option.bind_eq_some_iff.mp h
    split_ifs at h
    obtain ⟨n', hstep, rfl⟩ := act_eq h
    exact ⟨x, _, n', rfl, hstep, rfl⟩
  | voteLost x outcome =>
    simp only [step] at h
    split_ifs at h
    obtain ⟨n', hstep, rfl⟩ := act_eq h
    exact ⟨x, _, n', rfl, hstep, rfl⟩
  | pollVotes x timedOut outcome =>
    simp only [step] at h
    split_ifs at h
    obtain ⟨s₁, hact, rfl⟩ := Option.map_eq_some_iff.mp h
    obtain ⟨n', hstep, rfl⟩ := act_eq hact
    exact ⟨x, _, n', rfl, hstep, rfl⟩
  | deliverElected m =>
    simp only [step] at h
    split_ifs at h
    obtain ⟨n', hstep, rfl⟩ := act_eq h
    exact ⟨m.dst, _, n', rfl, hstep, rfl⟩
  | sendBroadcast x outcome =>
    simp only [step] at h
    split at h
    · split_ifs at h
      all_goals
        obtain ⟨s₁, hact, rfl⟩ := Option.map_eq_some_iff.mp h
        obtain ⟨n', hstep, rfl⟩ := act_eq hact
        exact ⟨x, _, n', rfl, hstep, rfl⟩
    · cases h
  | deliverBroadcast m =>
    simp only [step] at h
    split_ifs at h
    obtain ⟨n', hstep, rfl⟩ := act_eq h
    exact ⟨m.dst, _, n', rfl, hstep, rfl⟩

/-- What happens in a cluster whose nodes fail and return. -/
inductive LifeEvent
  | happens (e : ClusterEvent)
  /-- The process of a node ends, and it is started again from its configuration. -/
  | restart (x : Name)

/-- A step of a cluster whose nodes fail and return.  A node that has failed is one that
takes no step until its restart; messages to and from it stay in the network. -/
def lifeStep (members : Finset Name) (s : Cluster) : LifeEvent → Option Cluster
  | .happens e => s.step members e
  | .restart x =>
    if x ∈ members then
      some
        { s with
          nodes := update s.nodes x
            (.beforeStart (s.nodes x).nodeId (s.nodes x).minimumMasterNodes (s.nodes x).configured)
          asking := update s.asking x none }
    else none

/-- The condition on a run: every event meets the condition of the node it happens on. -/
def KeepsOut (s : Cluster) : LifeEvent → Prop
  | .happens e => ∀ p, s.onNode e = some p → (s.nodes p.1).KeepsOut p.2
  | .restart _ => True

theorem onlyVotes_update {x : Name} {n' : ZenNode} (h : ∀ y, (s.nodes y).OnlyVotes)
    (hn' : n'.OnlyVotes) (y : Name) : (update s.nodes x n' y).OnlyVotes := by
  by_cases hy : y = x
  · rw [hy, update_self]
    exact hn'
  · rw [update_of_ne hy]
    exact h y

theorem onlyVotes_lifeStep {e : LifeEvent} (h : ∀ y, (s.nodes y).OnlyVotes) (hkeeps : s.KeepsOut e)
    (hstep : s.lifeStep members e = some s') : ∀ y, (s'.nodes y).OnlyVotes := by
  cases e with
  | happens e =>
    obtain ⟨x, ne, n', hon, hnode, hnodes⟩ := step_onNode hstep
    rw [hnodes]
    exact onlyVotes_update h ((h x).step (hkeeps (x, ne) hon) hnode)
  | restart x =>
    simp only [lifeStep] at hstep
    split_ifs at hstep
    obtain rfl := Option.some.inj hstep
    exact onlyVotes_update h nofun

end Cluster

/-- **A node that only votes does not lead.**  In every run whose events meet the condition,
from the start of a cluster of any size and with any failures and returns of its nodes, a
node whose own type is `VOTING_ONLY` is neither temporary nor elected master. -/
theorem voting_only_never_leads {members : Finset Name} {minimumMasterNodes : Name → Nat}
    {configured : List Name} {s : Cluster}
    (hrun : Reaches (Cluster.lifeStep members) Cluster.KeepsOut
      (.start minimumMasterNodes configured) s)
    (x : Name) (htype : (s.nodes x).type = .votingOnlyNode) :
    (s.nodes x).state ≠ .tempMaster ∧ (s.nodes x).state ≠ .electedMaster := by
  have hinv : ∀ y, (s.nodes y).OnlyVotes :=
    hrun.invariant nofun
      fun _ _ _ h hkeeps hstep => Cluster.onlyVotes_lifeStep h hkeeps hstep
  exact (hinv x htype).state

/-- The node list that the first node of three sends: the second one, which is the biggest
that is active, only votes. -/
def trioNodeList : NodeMap :=
  [([49], ⟨[49], true, true, .eligibleNode⟩), ([50], ⟨[50], false, true, .votingOnlyNode⟩),
    ([51], ⟨[51], false, false, .eligibleNode⟩)]

/-- The first node is master and makes the second one voting-only, before the third is
there. -/
def assignVotingOnly : List Cluster.LifeEvent :=
  electFirstOfTrio.map .happens ++
    [.happens (.work [49] (.joinResult [51] .notAnswered)), .happens (.work [49] .leaveInvite),
      .happens (.work [49] .discover), .happens (.sendBroadcast [49] (.answered ())),
      .happens (.deliverBroadcast ⟨[50], [49], trioNodeList, false⟩)]

/-- A test for the condition on the events of a run. -/
def keepsOutTest (s : Cluster) : Cluster.LifeEvent → Bool
  | .happens (.work _ e) => e.isLocal
  | .happens (.runElection x) => decide ((s.nodes x).type = .eligibleNode)
  | .happens (.deliverElected _) => false
  | .happens (.deliverBroadcast m) =>
    decide ((s.nodes m.dst).phase = .idle ∧ (s.nodes m.dst).voting = none)
  | _ => true

theorem keepsOut_of_test (s : Cluster) (e : Cluster.LifeEvent) (h : keepsOutTest s e = true) :
    s.KeepsOut e := by
  cases e with
  | restart x => trivial
  | happens e =>
    rintro ⟨x, ne⟩ hon
    cases e with
    | work y ne' =>
      obtain ⟨rfl, rfl⟩ := Prod.mk.inj (Option.some.inj hon)
      cases ne' with
      | runElection | transElected _ _ _ | broadcast _ _ _ => cases h
      | _ => trivial
    | runElection y =>
      obtain ⟨rfl, rfl⟩ := Prod.mk.inj (Option.some.inj hon)
      intro hvoting
      exact absurd (hvoting.symm.trans (of_decide_eq_true h)) (by simp)
    | deliverVote call =>
      obtain ⟨r, -, heq⟩ := Option.map_eq_some_iff.mp hon
      obtain ⟨rfl, rfl⟩ := Prod.mk.inj heq
      trivial
    | deliverElected m => cases h
    | deliverBroadcast m =>
      obtain ⟨rfl, rfl⟩ := Prod.mk.inj (Option.some.inj hon)
      obtain ⟨hphase, hvoting⟩ := of_decide_eq_true h
      intro _
      refine ⟨?_, fun v hv => absurd (hvoting.symm.trans hv) (by simp)⟩
      rintro ⟨pending, hinviting⟩
      exact absurd (hphase.symm.trans hinviting) (by simp)
    | _ =>
      obtain ⟨rfl, rfl⟩ := Prod.mk.inj (Option.some.inj hon)
      trivial

/-- The cluster in which the second node only votes. -/
def trioVotingOnly : Cluster :=
  (execute (Cluster.lifeStep trio) keepsOutTest trioStart assignVotingOnly).getD trioStart

theorem voting_only_never_leads_second :
    (trioVotingOnly.nodes [50]).type = .votingOnlyNode ∧
      (trioVotingOnly.nodes [50]).state ≠ .tempMaster ∧
      (trioVotingOnly.nodes [50]).state ≠ .electedMaster := by
  have hexec : execute (Cluster.lifeStep trio) keepsOutTest trioStart assignVotingOnly =
      some trioVotingOnly := rfl
  exact ⟨rfl, voting_only_never_leads (Reaches.of_execute keepsOut_of_test .refl hexec) [50] rfl⟩

/-- Then the third node returns and the first one fails.  The second one is the smallest of
those that are left, it starts an election and gets the vote of the third. -/
def loseFirstOfTrio : List Cluster.LifeEvent :=
  [.restart [51], .happens (.work [51] .start), .happens (.work [51] .firstDiscovery),
    .happens (.work [50] (.pingRequest [51] .eligibleNode)),
    .happens (.work [50] (.pingResult [49] false .eligibleNode)),
    .happens (.work [51] (.pingResult [49] false .eligibleNode)),
    .happens (.work [50] .discover), .happens (.work [50] .discover),
    .happens (.runElection [50]), .happens (.sendVoteRequest [50]), .happens (.deliverVote 2),
    .happens (.voteReply [50] true), .happens (.pollVotes [50] false .notAnswered),
    .happens (.work [50] .discover),
    .happens (.work [50] (.joinResult [51] (.answered .eligibleNode))),
    .happens (.work [50] (.checkElectionResult false))]

/-- The cluster that the node that only votes leads. -/
def trioLedByVoter : Cluster :=
  (execute (Cluster.lifeStep trio) (fun _ _ => true) trioStart
    (assignVotingOnly ++ loseFirstOfTrio)).getD trioStart

/-- **A node that only votes is elected master.** -/
theorem voting_only_leads :
    Reaches (Cluster.lifeStep trio) (fun _ _ => True) trioStart trioLedByVoter ∧
      (trioLedByVoter.nodes [50]).type = .votingOnlyNode ∧
      (trioLedByVoter.nodes [50]).state = .electedMaster := by
  have hexec : execute (Cluster.lifeStep trio) (fun _ _ => true) trioStart
      (assignVotingOnly ++ loseFirstOfTrio) = some trioLedByVoter := rfl
  exact ⟨Reaches.of_execute (fun _ _ _ => trivial) .refl hexec, rfl, rfl⟩

end UbsMem
