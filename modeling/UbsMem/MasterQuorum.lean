import UbsMem.MasterDemotion
import UbsMem.SoleMaster

/-! # The quorum of an elected master

`MaintainAsMaster` counts the active entries of the table, adds one for the node itself, and
steps down when the sum is below `minimumMasterNodes`.  But the node is in its own table: the
initial discovery inserts it and `ModifyNodeList` marks it active.  So it is counted twice, and
a master that is one node short stays.  The broadcasts that follow can lose further nodes, and
the count is not repeated after them (`master_without_quorum`).

A master that is still elected after the call has its quorum in every run in which it never
makes the call with exactly one node missing, and loses no node while it sends the broadcasts
(`master_has_quorum`).
-/
namespace UbsMem

open List

/-! ### The table as a map -/

/-- The keys of a `std::map` are in order, each of them once. -/
def NodeMap.Ordered (nodes : NodeMap) : Prop := (nodes.map Prod.fst).Pairwise (· < ·)

/-- The active nodes of a table. -/
def activeIds (nodes : NodeMap) : Finset Name :=
  ((nodes.filter fun entry => entry.2.isActive).map Prod.fst).toFinset

variable {nodes : NodeMap} {id : Name}

theorem mem_activeIds :
    id ∈ activeIds nodes ↔ ∃ node, (id, node) ∈ nodes ∧ node.isActive = true := by
  simp [activeIds]

theorem card_activeIds (h : nodes.Ordered) :
    (activeIds nodes).card = nodes.countP fun entry => entry.2.isActive := by
  have hnodup : ((nodes.filter fun entry => entry.2.isActive).map Prod.fst).Nodup := by
    refine List.Nodup.sublist (filter_sublist.map Prod.fst) ?_
    exact List.Pairwise.imp (fun {x y} (hlt : x < y) (heq : x = y) =>
      List.lt_irrefl y (heq ▸ hlt)) h
  rw [activeIds, toFinset_card_of_nodup hnodup, length_map, countP_eq_length_filter]

theorem ordered_setNode {node : NodeEntry} (h : nodes.Ordered) :
    NodeMap.Ordered (setNode id node nodes) := by
  induction nodes with
  | nil => exact pairwise_singleton _ _
  | cons first rest ih =>
    obtain ⟨hfirst, hrest⟩ := pairwise_cons.mp h
    unfold setNode
    split_ifs with heq hlt
    · subst heq
      exact h
    · refine pairwise_cons.mpr ⟨fun other hother => ?_, h⟩
      rcases mem_cons.mp hother with rfl | hother
      · exact hlt
      · exact List.lt_trans hlt (hfirst other hother)
    · refine pairwise_cons.mpr ⟨fun other hother => ?_, ih hrest⟩
      rcases (mem_keys_setNode id node rest).mp hother with rfl | hother
      · by_contra hle
        exact heq (List.le_antisymm hlt hle)
      · exact hfirst other hother

theorem keys_map {f : Name × NodeEntry → Name × NodeEntry} (h : ∀ entry, (f entry).1 = entry.1) :
    (nodes.map f).map Prod.fst = nodes.map Prod.fst := by
  rw [map_map]
  exact map_congr_left fun entry _ => h entry

/-! ### What a change keeps -/

/-- What a change keeps of a table when it marks no node inactive but those of `lost`. -/
structure KeepsActive (lost : Finset Name) (nodes nodes' : NodeMap) : Prop where
  ordered : nodes.Ordered → nodes'.Ordered
  keys : ∀ id ∈ nodes.map Prod.fst, id ∈ nodes'.map Prod.fst
  active : ∀ id ∈ activeIds nodes, id ∉ lost → id ∈ activeIds nodes'

section KeepsActive

variable {lost : Finset Name} {nodes nodes' nodes'' : NodeMap} {id : Name}

theorem KeepsActive.refl (lost : Finset Name) (nodes : NodeMap) : KeepsActive lost nodes nodes :=
  ⟨fun h => h, fun _ h => h, fun _ h _ => h⟩

theorem KeepsActive.trans (h : KeepsActive lost nodes nodes')
    (h' : KeepsActive lost nodes' nodes'') : KeepsActive lost nodes nodes'' := by
  refine ⟨fun ho => h'.ordered (h.ordered ho), fun x hx => h'.keys x (h.keys x hx), ?_⟩
  intro x hx hlost
  exact h'.active x (h.active x hx hlost) hlost

/-- An entry is added, or replaced by one that is active if the old one was. -/
theorem keepsActive_setNode {node : NodeEntry}
    (h : ∀ old, findNode id nodes = some old → old.isActive = true → node.isActive = true) :
    KeepsActive lost nodes (setNode id node nodes) := by
  refine ⟨ordered_setNode, fun x hx => (mem_keys_setNode id node nodes).mpr (.inr hx), ?_⟩
  intro x hx _
  rw [mem_activeIds] at hx ⊢
  obtain ⟨old, hold, hactive⟩ := hx
  induction nodes with
  | nil => cases hold
  | cons first rest ih =>
    obtain ⟨key, first⟩ := first
    have hlookup : findNode id ((key, first) :: rest) =
        if id = key then some first else findNode id rest := by
      unfold findNode
      rw [lookup_cons]
      split_ifs with heq
      · rw [heq, beq_self_eq_true]
      · rw [beq_false_of_ne heq]
    unfold setNode
    split_ifs with heq hlt
    · rcases mem_cons.mp hold with hfirst | hrest
      · obtain ⟨rfl, rfl⟩ := Prod.mk.inj hfirst
        rw [hlookup, if_pos heq.symm] at h
        exact ⟨node, heq ▸ mem_cons_self, h old rfl hactive⟩
      · exact ⟨old, .tail _ hrest, hactive⟩
    · exact ⟨old, .tail _ hold, hactive⟩
    · rcases mem_cons.mp hold with hfirst | hrest
      · exact ⟨old, hfirst ▸ mem_cons_self, hactive⟩
      · rw [hlookup, if_neg (Ne.symm heq)] at h
        obtain ⟨node', hmem, hactive'⟩ := ih h hrest
        exact ⟨node', .tail _ hmem, hactive'⟩

/-- A map over the entries keeps the keys, and every mark that is not lost. -/
theorem keepsActive_map {f : Name × NodeEntry → Name × NodeEntry}
    (hkey : ∀ entry, (f entry).1 = entry.1)
    (h : ∀ entry, entry.1 ∉ lost → entry.2.isActive = true → (f entry).2.isActive = true) :
    KeepsActive lost nodes (nodes.map f) := by
  have hkeys : (nodes.map f).map Prod.fst = nodes.map Prod.fst := keys_map hkey
  refine ⟨fun ho => ?_, fun x hx => hkeys.symm ▸ hx, fun x hx hlost => ?_⟩
  · unfold NodeMap.Ordered
    rw [hkeys]
    exact ho
  · rw [mem_activeIds] at hx ⊢
    obtain ⟨node, hmem, hactive⟩ := hx
    refine ⟨(f (x, node)).2, ?_, h (x, node) hlost hactive⟩
    exact mem_map.mpr ⟨(x, node), hmem, Prod.ext (hkey (x, node)) rfl⟩

theorem keepsActive_modifyNode {f : NodeEntry → NodeEntry}
    (h : id ∉ lost → ∀ node, node.isActive = true → (f node).isActive = true) :
    KeepsActive lost nodes (modifyNode id f nodes) := by
  refine keepsActive_map (fun entry => ?_) fun entry hlost hactive => ?_
  · split_ifs <;> rfl
  · split_ifs with heq
    · exact h (heq ▸ hlost) entry.2 hactive
    · exact hactive

theorem keepsActive_rel (lost : Finset Name) :
    ZenNode.TableRel (KeepsActive lost) (fun _ => True) (· ∈ lost) where
  refl := .refl lost
  trans := .trans
  seen _ _ := keepsActive_setNode fun _ _ _ => rfl
  mark _ hgone := keepsActive_modifyNode fun hlost _ _ => hgone.resolve_right hlost
  eligible _ := keepsActive_modifyNode fun _ _ hactive => hactive

end KeepsActive

namespace ZenNode

/-! ### The functions of a node -/

/-- The nodes that are marked inactive when a request has this outcome. -/
def lostBy {R : Type} (id : Name) : SendOutcome R → Finset Name
  | .notConnected _ => {id}
  | _ => ∅

variable {R : Type} {n : ZenNode} {outcome : SendOutcome R}

theorem mem_lostBy_self {id : Name} : ∀ type, outcome = .notConnected type →
    True ∧ id ∈ lostBy id outcome := by
  rintro type rfl
  exact ⟨trivial, Finset.mem_singleton_self id⟩

theorem keepsActive_connectToRpcNode (n : ZenNode) (id : Name) (outcome : SendOutcome R) :
    KeepsActive (lostBy id outcome) n.nodes (n.connectToRpcNode id outcome).nodes :=
  (keepsActive_rel _).connectToRpcNode n id mem_lostBy_self

theorem keepsActive_sendPingRequest (n : ZenNode) (id : Name) (reached : Bool) (fresh : NodeType) :
    KeepsActive (if reached then ∅ else {id}) n.nodes
      (n.sendPingRequest id reached fresh).nodes := by
  refine (keepsActive_rel _).sendPingRequest n id trivial ?_
  cases reached with
  | true => exact .inl rfl
  | false => exact .inr (Finset.mem_singleton_self id)

theorem keepsActive_sendJoinRequest (n : ZenNode) (id : Name) (outcome : SendOutcome NodeType) :
    KeepsActive (lostBy id outcome) n.nodes (n.sendJoinRequest id outcome).nodes := by
  refine (keepsActive_rel _).sendJoinRequest n id mem_lostBy_self
    (keepsActive_setNode fun old hold hactive => ?_)
  rw [hold]
  exact hactive

theorem keepsActive_stepDownAsMaster (n : ZenNode) :
    KeepsActive ∅ n.nodes n.stepDownAsMaster.nodes :=
  keepsActive_map (fun _ => rfl) fun _ _ hactive => hactive

theorem keys_modifyNodeList (n : ZenNode) :
    n.modifyNodeList.nodes.map Prod.fst = n.nodes.map Prod.fst := by
  refine keys_map fun entry => ?_
  split_ifs <;> rfl

/-- `ModifyNodeList` marks the node itself active. -/
theorem mem_activeIds_modifyNodeList (h : n.nodeId ∈ n.nodes.map Prod.fst) :
    n.nodeId ∈ activeIds n.modifyNodeList.nodes := by
  obtain ⟨entry, hentry, hid⟩ := mem_map.mp h
  refine mem_activeIds.mpr ⟨{ entry.2 with isActive := true, isMaster := true }, ?_, rfl⟩
  refine mem_map.mpr ⟨entry, hentry, ?_⟩
  rw [if_pos hid, hid]

theorem mem_keys_performInitialDiscovery (hown : n.nodeId ∈ n.configured)
    (hvoting : n.type = .votingOnlyNode → n.nodeId ∈ n.nodes.map Prod.fst) :
    n.nodeId ∈ n.performInitialDiscovery.nodes.map Prod.fst := by
  rw [ThreadedNode.performInitialDiscovery_eq_fillNodes]
  exact mem_keys_fillNodes hown hvoting

/-! ### The invariant -/

/-- A call of `MaintainAsMaster` sends its broadcasts. -/
def Maintaining (n : ZenNode) : Prop :=
  n.state = .electedMaster ∧ ∃ snapshot targets, n.phase = .broadcasting snapshot targets

/-- The table holds enough active nodes, the node itself among them. -/
def HasQuorum (n : ZenNode) : Prop :=
  n.nodeId ∈ activeIds n.nodes ∧ n.minimumMasterNodes ≤ (activeIds n.nodes).card

/-- A connection was there, or was not asked for. -/
def Connected {R : Type} (outcome : SendOutcome R) : Prop := ∀ fresh, outcome ≠ .notConnected fresh

/-- **The condition on a run.**  A master does not make the call with exactly one node missing,
and no connection fails while it sends the broadcasts.  The tables that arrive in broadcasts are
maps that hold the node, and the ping loop leaves the node itself out. -/
def KeepsContact (n : ZenNode) : NodeEvent → Prop
  | .discover =>
    n.state = .electedMaster →
      ((activeIds n.nodes).erase n.nodeId).card + 2 ≠ n.minimumMasterNodes
  | .broadcast _ nodeList _ => nodeList.Ordered ∧ n.nodeId ∈ nodeList.map Prod.fst
  | .pingResult id reached _ => id ≠ n.nodeId ∧ (n.Maintaining → reached = true)
  | .sendBroadcast outcome => n.Maintaining → Connected outcome
  | .voteResult outcome => n.Maintaining → Connected outcome
  | .pollVotes _ outcome => n.Maintaining → Connected outcome
  | _ => True

/-- The nodes that the discovery thread still sends to. -/
def phaseIds : DiscoveryPhase → List Name
  | .inviting pending => pending
  | .leaving pending => pending
  | .broadcasting _ targets => targets
  | _ => []

/-- The nodes that the election thread still asks, or waits for. -/
def votingIds : Option Voting → List Name
  | some v => v.toAsk ++ v.asked.toList
  | none => []

/-- **The invariant**: the table is a map, in which the master is active; no request goes to the
node itself; and a call of `MaintainAsMaster` that goes on has found a quorum. -/
structure QuorumInv (n : ZenNode) : Prop where
  ordered : n.nodes.Ordered
  own : n.nodeId ∈ n.configured
  listed : n.phase.Started ∨ n.type = .votingOnlyNode → n.nodeId ∈ n.nodes.map Prod.fst
  elected : n.state = .electedMaster → n.phase.Started ∧ n.nodeId ∈ activeIds n.nodes
  peers : n.nodeId ∉ phaseIds n.phase
  voters : n.nodeId ∉ votingIds n.voting
  quorum : n.Maintaining → n.HasQuorum

variable {n n' : ZenNode} {lost : Finset Name}

theorem HasQuorum.of_keeps (h : n.HasQuorum) (hid : n'.nodeId = n.nodeId)
    (hmin : n'.minimumMasterNodes = n.minimumMasterNodes)
    (hkeeps : KeepsActive ∅ n.nodes n'.nodes) : n'.HasQuorum := by
  have hsub : activeIds n.nodes ⊆ activeIds n'.nodes :=
    fun x hx => hkeeps.active x hx (Finset.notMem_empty x)
  refine ⟨hid ▸ hsub h.1, ?_⟩
  rw [hmin]
  exact h.2.trans (Finset.card_le_card hsub)

/-- Only the tables change, and the node itself is not lost, nor any node during the call. -/
theorem QuorumInv.of_tables (h : n.QuorumInv) (htables : TablesOnly n n')
    (hkeeps : KeepsActive lost n.nodes n'.nodes) (hown : n.nodeId ∉ lost)
    (hlost : n.Maintaining → lost = ∅) : n'.QuorumInv := by
  obtain ⟨nodes, joins, rfl⟩ := htables
  refine ⟨hkeeps.ordered h.ordered, h.own, fun hl => hkeeps.keys _ (h.listed hl), fun he => ?_,
    h.peers, h.voters, fun hm => ?_⟩
  · exact ⟨(h.elected he).1, hkeeps.active _ (h.elected he).2 hown⟩
  · obtain rfl := hlost hm
    exact (h.quorum hm).of_keeps rfl rfl hkeeps

theorem QuorumInv.rephase (h : n.QuorumInv) {phase : DiscoveryPhase}
    (hstarted : phase.Started ↔ n.phase.Started) (hpeers : n.nodeId ∉ phaseIds phase)
    (hquorum : ZenNode.Maintaining { n with phase } → n.HasQuorum) :
    QuorumInv { n with phase } := by
  refine ⟨h.ordered, h.own, fun hl => h.listed (hl.imp_left hstarted.mp), fun he => ?_, hpeers,
    h.voters, hquorum⟩
  exact ⟨hstarted.mpr (h.elected he).1, (h.elected he).2⟩

theorem QuorumInv.setElection (h : n.QuorumInv) (term : Int) (votes : Finset Name)
    {voting : Option Voting} (hvoters : n.nodeId ∉ votingIds voting)
    (queue : List ListenerParam) (lock : LockService Unit) :
    QuorumInv
      { n with
        currentTerm := term, votesReceived := votes, voting, listenerQueue := queue,
        lock } :=
  { h with voters := hvoters }

theorem QuorumInv.setState (h : n.QuorumInv) {state : NodeState} (hstate : state ≠ .electedMaster)
    (master : Name) (candidates : List Name) (queue : List ListenerParam) :
    QuorumInv
      { n with
        state, electedMaster := master, tempNodeList := candidates,
        listenerQueue := queue } :=
  { h with elected := fun he => absurd he hstate, quorum := fun hm => absurd hm.1 hstate }

/-! ### The steps -/

theorem started_of_idle (h : n.phase = .idle) : n.phase.Started := by
  simp [DiscoveryPhase.Started, h]

theorem started_inviting (pending : List Name) : (DiscoveryPhase.inviting pending).Started := by
  simp [DiscoveryPhase.Started]

theorem started_leaving (pending : List Name) : (DiscoveryPhase.leaving pending).Started := by
  simp [DiscoveryPhase.Started]

theorem phaseIds_broadcastPhase (snapshot : NodeMap) (targets : List Name) :
    phaseIds (broadcastPhase snapshot targets) = targets := by
  cases targets <;> rfl

theorem started_broadcastPhase (snapshot : NodeMap) (targets : List Name) :
    (broadcastPhase snapshot targets).Started := by
  cases targets <;> simp [DiscoveryPhase.Started, broadcastPhase]

/-- The call goes on when the active entries and one more are enough; the targets of the
broadcasts are other nodes. -/
theorem maintainAsMaster_spec (n : ZenNode) : n.maintainAsMaster = n.stepDownAsMaster ∨
      n.minimumMasterNodes ≤ n.nodes.countP (fun entry => entry.2.isActive) + 1 ∧
        ∃ nodes targets, KeepsActive ∅ n.nodes nodes ∧ n.nodeId ∉ targets ∧
          n.maintainAsMaster = { n with nodes, phase := broadcastPhase nodes targets } := by
  unfold maintainAsMaster
  split_ifs with hfew
  · exact .inl rfl
  · have hkeeps := (keepsActive_rel ∅).chooseVoteOnlyNode n fun id =>
      keepsActive_modifyNode fun _ _ hactive => hactive
    obtain ⟨nodes, heq⟩ : ∃ nodes, n.chooseVoteOnlyNode = { n with nodes } := by
      unfold chooseVoteOnlyNode
      split_ifs
      · exact ⟨n.nodes, rfl⟩
      · exact ⟨_, rfl⟩
    rw [heq] at hkeeps ⊢
    refine .inr ⟨Nat.not_lt.mp hfew, nodes, _, hkeeps, fun hmem => ?_, rfl⟩
    obtain ⟨entry, hentry, hid⟩ := mem_map.mp hmem
    have hother := (mem_filter.mp hentry).2
    simp only [Bool.and_eq_true, decide_eq_true_eq] at hother
    exact hother.1 hid

section

variable (h : n.QuorumInv)

include h

/-- With the node itself in the table, the count is one too high; unless exactly one node is
missing, it decides all the same. -/
theorem QuorumInv.quorum_of_count (hstate : n.state = .electedMaster)
    (hkeeps : n.KeepsContact .discover)
    (hcount : n.minimumMasterNodes ≤ n.nodes.countP (fun entry => entry.2.isActive) + 1) :
    n.HasQuorum := by
  have hown := (h.elected hstate).2
  have hshort := hkeeps hstate
  rw [← card_activeIds h.ordered] at hcount
  have herase := Finset.card_erase_add_one hown
  exact ⟨hown, by omega⟩

theorem QuorumInv.maintainAsMaster (hstate : n.state = .electedMaster)
    (hkeeps : n.KeepsContact .discover) (hphase : n.phase = .idle) :
    n.maintainAsMaster.QuorumInv ∧
      (n.maintainAsMaster = n.stepDownAsMaster ∨ n.HasQuorum ∧ n.maintainAsMaster.HasQuorum) := by
  rcases maintainAsMaster_spec n with heq | ⟨hcount, nodes, targets, hnodes, htargets, heq⟩
  · refine ⟨?_, .inl heq⟩
    rw [heq]
    refine QuorumInv.setState (h.of_tables ⟨_, n.joinsReceived, rfl⟩
      (keepsActive_stepDownAsMaster n) (Finset.notMem_empty _) fun _ => rfl) ?_ _ _ _
    exact nofun
  · have hquorum := h.quorum_of_count hstate hkeeps hcount
    have hinv : QuorumInv { n with nodes } :=
      h.of_tables ⟨_, n.joinsReceived, rfl⟩ hnodes (Finset.notMem_empty _) fun _ => rfl
    have hquorum' : HasQuorum { n with nodes } := hquorum.of_keeps rfl rfl hnodes
    rw [heq]
    refine ⟨hinv.rephase ?_ ?_ fun _ => hquorum', .inr ⟨hquorum, hquorum'⟩⟩
    · exact iff_of_true (started_broadcastPhase nodes targets) (started_of_idle hphase)
    · rw [phaseIds_broadcastPhase]
      exact htargets

theorem QuorumInv.performInitialDiscovery {phase : DiscoveryPhase} (hphase : phaseIds phase = []) :
    QuorumInv { n.performInitialDiscovery with phase } := by
  have hkeeps := (keepsActive_rel ∅).performInitialDiscovery n fun _ _ =>
    keepsActive_setNode fun _ _ _ => rfl
  have hlisted := mem_keys_performInitialDiscovery h.own fun htype => h.listed (.inr htype)
  obtain ⟨nodes, heq⟩ := performInitialDiscovery_eq n
  rw [heq] at hkeeps hlisted ⊢
  refine ⟨hkeeps.ordered h.ordered, h.own, fun _ => hlisted, nofun, ?_, h.voters,
    fun hm => (by cases hm.1)⟩
  rw [hphase]
  exact not_mem_nil

theorem QuorumInv.discover (hkeeps : n.KeepsContact .discover) (hphase : n.phase = .idle) :
    n.discover.QuorumInv := by
  have hstarted := started_of_idle hphase
  unfold ZenNode.discover
  split
  · obtain ⟨nodes, heq⟩ := performInitialDiscovery_eq n
    have hinv : QuorumInv { n.performInitialDiscovery with phase := n.phase } :=
      h.performInitialDiscovery (by rw [hphase]; rfl)
    rw [heq] at hinv ⊢
    exact hinv
  · refine (h.of_tables ⟨n.nodes, {n.nodeId}, rfl⟩ (.refl ∅ _) (Finset.notMem_empty _)
      fun _ => rfl).rephase (iff_of_true (started_inviting _) hstarted) ?_ ?_
    · exact fun hmem => absurd rfl (of_decide_eq_true (mem_filter.mp hmem).2)
    · rintro ⟨-, snapshot, targets, hbroadcasting⟩
      cases hbroadcasting
  · rename_i hstate
    exact (h.maintainAsMaster hstate hkeeps hphase).1
  · unfold maintainAsClusterMember
    split_ifs
    · exact h.setState (fun h => (by cases h)) n.electedMaster n.tempNodeList n.listenerQueue
    · exact h
    · exact h.setState (fun h => (by cases h)) [] n.tempNodeList n.listenerQueue
  all_goals exact h

theorem QuorumInv.becomeTempMaster (candidates : List Name) :
    (n.becomeTempMaster candidates).QuorumInv := by
  rcases becomeTempMaster_cases n candidates with ⟨-, heq⟩ | ⟨-, heq⟩
  · rw [heq]
    exact h
  · rw [heq]
    exact h.setState (fun h => (by cases h)) _ _ n.listenerQueue

theorem QuorumInv.handleBroadCastRequest {fromNodeId : Name} {nodeList : NodeMap} {inited : Bool}
    (hkeeps : n.KeepsContact (.broadcast fromNodeId nodeList inited)) :
    (n.handleBroadCastRequest fromNodeId nodeList inited).QuorumInv := by
  obtain ⟨type, es, -, heq⟩ := handleBroadCastRequest_eq n fromNodeId nodeList inited
  rw [heq]
  exact ⟨hkeeps.1, h.own, fun _ => hkeeps.2, nofun, h.peers, h.voters, fun hm => (by cases hm.1)⟩

theorem QuorumInv.handleAllJoined {pending : List Name} (hphase : n.phase = .inviting pending) :
    QuorumInv { n.handleAllJoined with phase := .leaving pending } := by
  have hlisted := h.listed (.inl (hphase ▸ started_inviting pending))
  have hkeys := keys_modifyNodeList (n.notifyListeners .masterElected n.nodeId [])
  have hactive := mem_activeIds_modifyNodeList
    hlisted
  have hpeers := h.peers
  rw [hphase] at hpeers
  refine ⟨?_, h.own, fun _ => ?_, fun _ => ⟨?_, hactive⟩, hpeers, h.voters, ?_⟩
  · show List.Pairwise _ _
    rw [show ({ n.handleAllJoined with phase := DiscoveryPhase.leaving pending } : ZenNode).nodes =
      (n.notifyListeners .masterElected n.nodeId []).modifyNodeList.nodes from rfl, hkeys]
    exact h.ordered
  · exact hkeys.symm ▸ hlisted
  · exact started_leaving pending
  · rintro ⟨-, snapshot, targets, hbroadcasting⟩
    cases hbroadcasting

end

theorem mem_lostBy {id x : Name} (h : x ∈ lostBy id outcome) : x = id := by
  cases outcome with
  | notConnected fresh => exact Finset.mem_singleton.mp h
  | _ => cases h

theorem lostBy_of_connected (h : Connected outcome) (id : Name) : lostBy id outcome = ∅ := by
  cases outcome with
  | notConnected fresh => exact absurd rfl (h fresh)
  | _ => rfl

section

variable (h : n.QuorumInv) {id : Name} {timedOut : Bool} {outcome : SendOutcome Unit}

include h

theorem QuorumInv.connectToRpcNode {R : Type} {outcome : SendOutcome R} (hid : id ≠ n.nodeId)
    (hconn : n.Maintaining → Connected outcome) : (n.connectToRpcNode id outcome).QuorumInv :=
  h.of_tables (tablesOnly_connectToRpcNode n id outcome) (keepsActive_connectToRpcNode n id outcome)
    (fun hmem => hid (mem_lostBy hmem).symm) fun hm => lostBy_of_connected (hconn hm) id

theorem QuorumInv.joinResult {outcome : SendOutcome NodeType}
    (hstep : n.step (.joinResult id outcome) = some n') : n'.QuorumInv := by
  -- the invitations are those of another phase than the broadcasts
  have hgo : ∀ pending phase, id ∈ pending → phaseIds n.phase = pending →
      phaseIds phase = pending.erase id → (phase.Started ↔ n.phase.Started) →
      (∀ snapshot targets, n.phase ≠ .broadcasting snapshot targets) →
      (∀ snapshot targets, phase ≠ .broadcasting snapshot targets) →
      QuorumInv { n.sendJoinRequest id outcome with phase } := by
    intro pending phase hmem hids hids' hstarted hnot hnot'
    have hpeers := h.peers
    rw [hids] at hpeers
    have htables := tablesOnly_sendJoinRequest n id outcome
    have hinv : (n.sendJoinRequest id outcome).QuorumInv := by
      refine h.of_tables htables (keepsActive_sendJoinRequest n id outcome)
        (fun hlost => hpeers ((mem_lostBy hlost).symm ▸ hmem)) ?_
      rintro ⟨-, snapshot, targets, hbroadcasting⟩
      exact absurd hbroadcasting (hnot snapshot targets)
    obtain ⟨nodes, joins, heq⟩ := htables
    rw [heq] at hinv ⊢
    refine hinv.rephase hstarted ?_ ?_
    · rw [hids']
      exact fun hpending => hpeers (mem_of_mem_erase hpending)
    · rintro ⟨-, snapshot, targets, hbroadcasting⟩
      exact absurd hbroadcasting (hnot' snapshot targets)
  simp only [step] at hstep
  split at hstep
  · rename_i pending hphase
    split_ifs at hstep with hmem
    cases hstep
    rw [hphase] at hgo
    exact hgo pending _ hmem rfl rfl (iff_of_true (started_inviting _) (started_inviting _))
      (fun _ _ h => by cases h) (fun _ _ h => by cases h)
  · rename_i pending hphase
    split_ifs at hstep with hmem
    cases hstep
    rw [hphase] at hgo
    exact hgo pending _ hmem rfl rfl (iff_of_true (started_leaving _) (started_leaving _))
      (fun _ _ h => by cases h) (fun _ _ h => by cases h)
  · cases hstep

theorem QuorumInv.checkElectionResult (hstep : n.step (.checkElectionResult timedOut) = some n') :
    n'.QuorumInv := by
  obtain ⟨pending, hphase, rfl | rfl | rfl⟩ := step_checkElectionResult hstep
  · exact h.handleAllJoined hphase
  · have hstarted : (DiscoveryPhase.leaving pending).Started ↔ n.phase.Started := by
      rw [hphase]
      exact iff_of_true (started_leaving _) (started_inviting _)
    have hpeers := h.peers
    rw [hphase] at hpeers
    have hinv : QuorumInv { n with phase := .leaving pending } := by
      refine h.rephase hstarted hpeers ?_
      rintro ⟨-, snapshot, targets, hbroadcasting⟩
      cases hbroadcasting
    exact hinv.setState (fun h => (by cases h)) n.electedMaster n.tempNodeList _
  · exact h

theorem QuorumInv.sendBroadcast (hkeeps : n.KeepsContact (.sendBroadcast outcome))
    (hstep : n.step (.sendBroadcast outcome) = some n') :
    n'.QuorumInv ∧ (n'.state = .electedMaster → n'.HasQuorum) := by
  obtain ⟨snapshot, id, targets, hphase, rfl⟩ := step_sendBroadcast hstep
  have hpeers := h.peers
  rw [hphase] at hpeers
  have htables := tablesOnly_connectToRpcNode n id outcome
  have hinv : (n.connectToRpcNode id outcome).QuorumInv :=
    h.connectToRpcNode (fun heq => hpeers (heq ▸ mem_cons_self)) hkeeps
  obtain ⟨nodes, joins, heq⟩ := htables
  rw [heq] at hinv ⊢
  have hquorum : n.state = .electedMaster →
      HasQuorum { n with nodes, joinsReceived := joins } :=
    fun hstate => hinv.quorum ⟨hstate, snapshot, id :: targets, hphase⟩
  refine ⟨hinv.rephase ?_ ?_ fun hm => hquorum hm.1, hquorum⟩
  · have hstarted : n.phase.Started := by simp [DiscoveryPhase.Started, hphase]
    exact iff_of_true (started_broadcastPhase snapshot targets) hstarted
  · rw [phaseIds_broadcastPhase]
    exact fun hmem => hpeers (.tail _ hmem)

theorem QuorumInv.runElection (hnone : n.voting = none) : n.runElection.QuorumInv := by
  unfold ZenNode.runElection
  dsimp only
  split_ifs
  · exact h.setElection _ _ (by rw [hnone]; exact not_mem_nil) _ n.lock
  all_goals
    refine h.setElection _ _ (fun hmem => ?_) _ n.lock
    rcases mem_append.mp hmem with hmem | hmem
    · exact absurd rfl (of_decide_eq_true (mem_filter.mp hmem).2)
    · cases hmem

theorem QuorumInv.voteResult {outcome : SendOutcome Bool}
    (hkeeps : n.KeepsContact (.voteResult outcome))
    (hstep : n.step (.voteResult outcome) = some n') : n'.QuorumInv := by
  obtain ⟨tempMaster, masterCandidates, toAsk, id, hvoting, rfl⟩ := step_voteResult hstep
  have hvoters := h.voters
  rw [hvoting] at hvoters
  have hrest : n.nodeId ∉ votingIds (some ⟨tempMaster, masterCandidates, toAsk, none⟩) := by
    intro hmem
    rcases mem_append.mp hmem with hmem | hmem
    · exact hvoters (mem_append_left _ hmem)
    · cases hmem
  have hid : id ≠ n.nodeId := by
    rintro rfl
    exact hvoters (mem_append_right _ mem_cons_self)
  unfold handleVoteResponse
  split
  · exact h.setElection n.currentTerm _ hrest n.listenerQueue n.lock
  · obtain ⟨nodes, joins, heq⟩ := tablesOnly_connectToRpcNode n id outcome
    have hinv := h.connectToRpcNode hid hkeeps
    rw [heq] at hinv ⊢
    exact hinv.setElection n.currentTerm n.votesReceived hrest n.listenerQueue n.lock

theorem QuorumInv.pollVotes (hkeeps : n.KeepsContact (.pollVotes timedOut outcome))
    (hstep : n.step (.pollVotes timedOut outcome) = some n') : n'.QuorumInv := by
  obtain ⟨v, -, rfl | ⟨henough, rfl⟩ | rfl⟩ := step_pollVotes hstep
  · exact h.setElection n.currentTerm n.votesReceived not_mem_nil n.listenerQueue n.lock
  · have hquiet : (n.notifyListeners .votingCompleted [] []).QuorumInv :=
      h.setElection n.currentTerm n.votesReceived h.voters _ n.lock
    have hinv : (n.processVotingResults v outcome).QuorumInv := by
      unfold processVotingResults
      dsimp only
      split_ifs with hfew hself
      · exact hquiet.setElection n.currentTerm n.votesReceived h.voters _ n.lock
      · exact hquiet.connectToRpcNode hself hkeeps
      · exact hquiet.becomeTempMaster v.masterCandidates
    exact hinv.setElection _ _ not_mem_nil _ _
  · exact h

theorem QuorumInv.step {e : NodeEvent} (hkeeps : n.KeepsContact e) (hstep : n.step e = some n') :
    n'.QuorumInv := by
  cases e with
  | start =>
    obtain ⟨hphase, rfl⟩ := step_start hstep
    have hstarted : DiscoveryPhase.firstPing.Started ↔ n.phase.Started := by
      simp [DiscoveryPhase.Started, hphase]
    have hinv : QuorumInv { n with phase := .firstPing } := by
      refine h.rephase hstarted not_mem_nil ?_
      rintro ⟨-, snapshot, targets, hbroadcasting⟩
      cases hbroadcasting
    exact hinv.setState (fun h => (by cases h)) n.electedMaster n.tempNodeList n.listenerQueue
  | firstDiscovery =>
    simp only [ZenNode.step] at hstep
    split_ifs at hstep
    cases hstep
    exact h.performInitialDiscovery rfl
  | discover =>
    obtain ⟨hphase, rfl⟩ := step_discover hstep
    exact h.discover hkeeps hphase
  | pingRequest fromNodeId fresh | joinRequest fromNodeId fresh =>
    cases hstep
    exact h.of_tables (tablesOnly_mark n fromNodeId fresh true)
      ((keepsActive_rel ∅).markNodeActive n fromNodeId trivial (.inl rfl))
      (Finset.notMem_empty _) fun _ => rfl
  | voteRequest fromNodeId candidate term =>
    cases hstep
    show (n.raiseTerm term).QuorumInv
    rw [raiseTerm_eq]
    exact h.setElection _ n.votesReceived h.voters n.listenerQueue n.lock
  | transElected fromNodeId nodeList term =>
    cases hstep
    unfold handleSendTransElected
    split_ifs
    · exact h
    · rw [raiseTerm_eq]
      exact (h.setElection _ n.votesReceived h.voters n.listenerQueue n.lock).becomeTempMaster _
  | broadcast fromNodeId nodeList isServerInited =>
    cases hstep
    exact h.handleBroadCastRequest hkeeps
  | pingResult id reached fresh =>
    cases hstep
    refine h.of_tables (tablesOnly_sendPingRequest n id reached fresh)
      (keepsActive_sendPingRequest n id reached fresh) (fun hmem => ?_) fun hm => ?_
    · split_ifs at hmem
      · cases hmem
      · exact hkeeps.1 (Finset.mem_singleton.mp hmem).symm
    · rw [if_pos (hkeeps.2 hm)]
  | joinResult id outcome => exact h.joinResult hstep
  | checkElectionResult timedOut => exact h.checkElectionResult hstep
  | leaveInvite =>
    obtain ⟨hphase, rfl⟩ := step_leaveInvite hstep
    refine h.rephase ?_ not_mem_nil ?_
    · rw [hphase]
      exact iff_of_true (by simp [DiscoveryPhase.Started]) (started_leaving [])
    · rintro ⟨-, snapshot, targets, hbroadcasting⟩
      cases hbroadcasting
  | sendBroadcast outcome => exact (h.sendBroadcast hkeeps hstep).1
  | runElection =>
    obtain ⟨-, hnone, rfl⟩ := step_runElection hstep
    exact h.runElection hnone
  | sendVoteRequest =>
    obtain ⟨tempMaster, masterCandidates, id, toAsk, hvoting, rfl⟩ := step_sendVoteRequest hstep
    have hvoters := h.voters
    rw [hvoting] at hvoters
    refine h.setElection n.currentTerm n.votesReceived (fun hmem => hvoters ?_) n.listenerQueue
      n.lock
    rcases mem_append.mp hmem with hmem | hmem
    · exact mem_append_left _ (.tail _ hmem)
    · rw [Option.toList_some, mem_singleton] at hmem
      exact mem_append_left _ (hmem ▸ mem_cons_self)
  | voteResult outcome => exact h.voteResult hkeeps hstep
  | pollVotes timedOut outcome => exact h.pollVotes hkeeps hstep
  | handleEvent outcomes =>
    obtain ⟨p, queue, -, rfl⟩ := step_handleEvent hstep
    exact h.setElection n.currentTerm n.votesReceived h.voters _ _
  | clientReinit outcome =>
    cases hstep
    exact h.setElection n.currentTerm n.votesReceived h.voters n.listenerQueue _

end

theorem quorumInv_beforeStart {nodeId : Name} {configured : List Name} (hown : nodeId ∈ configured)
    (minimumMasterNodes : Nat) : (beforeStart nodeId minimumMasterNodes configured).QuorumInv := by
  refine ⟨.nil, hown, ?_, nofun, not_mem_nil, not_mem_nil, fun hm => (by cases hm.1)⟩
  rintro (hstarted | htype)
  · exact absurd rfl hstarted.1
  · cases htype

end ZenNode

/-- **A master that stays has its quorum**: after its call of `MaintainAsMaster`, up to the last
broadcast of the call, in every run in which no call is made with exactly one node missing and
no connection fails during the broadcasts.  A master without a quorum steps down. -/
theorem master_has_quorum {nodeId : Name} {minimumMasterNodes : Nat} {configured : List Name}
    {n : ZenNode} (hown : nodeId ∈ configured)
    (hreach : Reaches ZenNode.step ZenNode.KeepsContact
      (.beforeStart nodeId minimumMasterNodes configured) n) :
    (∀ n', n.KeepsContact .discover → n.step .discover = some n' → n.state = .electedMaster →
      (n'.state = .electedMaster → n'.HasQuorum) ∧
        (¬ n.HasQuorum → n'.state = .masterCandidate)) ∧
      ∀ outcome n', n.KeepsContact (.sendBroadcast outcome) →
        n.step (.sendBroadcast outcome) = some n' → n'.state = .electedMaster → n'.HasQuorum := by
  have hinv : n.QuorumInv := hreach.invariant
    (ZenNode.quorumInv_beforeStart hown minimumMasterNodes)
    fun _ _ _ h hkeeps hstep => h.step hkeeps hstep
  refine ⟨fun n' hkeeps hstep hstate => ?_, fun outcome n' hkeeps hstep =>
    (hinv.sendBroadcast hkeeps hstep).2⟩
  obtain ⟨hphase, rfl⟩ := ZenNode.step_discover hstep
  have hcall : n.discover = n.maintainAsMaster := by
    unfold ZenNode.discover
    rw [hstate]
  rw [hcall]
  rcases (hinv.maintainAsMaster hstate hkeeps hphase).2 with heq | ⟨hquorum, hquorum'⟩
  · rw [heq]
    exact ⟨nofun, fun _ => rfl⟩
  · exact ⟨fun _ => hquorum', fun hnone => absurd hquorum hnone⟩

/-- `SendOutcome` other than a failure to connect, as a test. -/
def connectedTest {R : Type} : SendOutcome R → Bool
  | .notConnected _ => false
  | _ => true

theorem connected_of_test {R : Type} {outcome : SendOutcome R} (h : connectedTest outcome = true) :
    ZenNode.Connected outcome := by
  rintro fresh rfl
  cases h

/-- Enough for `KeepsContact`, as a test. -/
def keepsContactTest (n : ZenNode) : NodeEvent → Bool
  | .discover => decide (n.state ≠ .electedMaster)
  | .broadcast _ _ _ => false
  | .pingResult id _ _ => decide (id ≠ n.nodeId) && decide (n.phase = .idle)
  | .sendBroadcast outcome => connectedTest outcome
  | .voteResult outcome => connectedTest outcome
  | .pollVotes _ outcome => connectedTest outcome
  | _ => true

theorem keepsContact_of_test (n : ZenNode) (e : NodeEvent) (h : keepsContactTest n e = true) :
    n.KeepsContact e := by
  cases e with
  | discover => exact fun hstate => absurd hstate (of_decide_eq_true h)
  | broadcast fromNodeId nodeList inited => cases h
  | pingResult id reached fresh =>
    obtain ⟨hid, hphase⟩ := Bool.and_eq_true_iff.mp h
    refine ⟨of_decide_eq_true hid, ?_⟩
    rintro ⟨-, snapshot, targets, hbroadcasting⟩
    rw [of_decide_eq_true hphase] at hbroadcasting
    cases hbroadcasting
  | sendBroadcast outcome | voteResult outcome | pollVotes timedOut outcome =>
    exact fun _ => connected_of_test h
  | _ => trivial

/-- The master of three nodes, of which two are needed, has lost the third. -/
def masterOfTwo : ZenNode :=
  (execute ZenNode.step keepsContactTest (.beforeStart [49] 2 [[49], [50], [51]])
    (electFirst ++ [.pingResult [51] false .eligibleNode])).getD (.beforeStart [49] 2 [])

theorem master_has_quorum_two :
    ∃ n', masterOfTwo.step .discover = some n' ∧ masterOfTwo.state = .electedMaster ∧
      n'.state = .electedMaster ∧ n'.HasQuorum ∧ activeIds n'.nodes = {[49], [50]} := by
  have hexec : execute ZenNode.step keepsContactTest (.beforeStart [49] 2 [[49], [50], [51]])
      (electFirst ++ [.pingResult [51] false .eligibleNode]) = some masterOfTwo := rfl
  have hreach := Reaches.of_execute keepsContact_of_test .refl hexec
  have hkeeps : masterOfTwo.KeepsContact .discover := fun _ => (by decide)
  have hstep : masterOfTwo.step .discover = some masterOfTwo.maintainAsMaster := rfl
  exact ⟨_, hstep, rfl, rfl,
    ((master_has_quorum (by decide) hreach).1 _ hkeeps hstep rfl).1 rfl, by decide⟩

/-- The master of three nodes, of which two are needed, has lost the two others. -/
def masterAlone : ZenNode :=
  (execute ZenNode.step (fun _ _ => true) (.beforeStart [49] 2 [[49], [50], [51]])
    (electFirst ++ [.pingResult [50] false .eligibleNode,
    .pingResult [51] false .eligibleNode])).getD (.beforeStart [49] 2 [])

/-- The master of three nodes, which are all needed, has found them active, and then could not
connect to the two others. -/
def masterUnheard : ZenNode :=
  (execute ZenNode.step (fun _ _ => true) (.beforeStart [49] 3 [[49], [50], [51]])
    (electFirst ++ [.discover, .sendBroadcast (.notConnected .eligibleNode),
      .sendBroadcast (.notConnected .eligibleNode)])).getD (.beforeStart [49] 3 [])

/-- **A master stays without its quorum.**  Alone in its table where two nodes are needed, it
counts itself twice and stays.  And a call that has counted three nodes and then loses two of
them with its broadcasts returns without a second count. -/
theorem master_without_quorum :
    (∃ n', Reaches ZenNode.step (fun _ _ => True) (.beforeStart [49] 2 [[49], [50], [51]])
        masterAlone ∧
      masterAlone.step .discover = some n' ∧ masterAlone.state = .electedMaster ∧
      n'.state = .electedMaster ∧ n'.phase = .idle ∧ n'.minimumMasterNodes = 2 ∧
      activeIds n'.nodes = {[49]}) ∧
    Reaches ZenNode.step (fun _ _ => True) (.beforeStart [49] 3 [[49], [50], [51]]) masterUnheard ∧
      masterUnheard.state = .electedMaster ∧ masterUnheard.phase = .idle ∧
      masterUnheard.minimumMasterNodes = 3 ∧ activeIds masterUnheard.nodes = {[49]} := by
  have halone : execute ZenNode.step (fun _ _ => true) (.beforeStart [49] 2 [[49], [50], [51]])
      (electFirst ++
        [.pingResult [50] false .eligibleNode, .pingResult [51] false .eligibleNode]) =
        some masterAlone := rfl
  have hunheard : execute ZenNode.step (fun _ _ => true) (.beforeStart [49] 3 [[49], [50], [51]])
      (electFirst ++ [.discover, .sendBroadcast (.notConnected .eligibleNode),
        .sendBroadcast (.notConnected .eligibleNode)]) = some masterUnheard := rfl
  exact ⟨⟨_, Reaches.of_execute (fun _ _ _ => trivial) .refl halone, rfl, rfl, rfl, rfl, rfl,
    by decide⟩, Reaches.of_execute (fun _ _ _ => trivial) .refl hunheard, rfl, rfl, rfl, by decide⟩

end UbsMem
