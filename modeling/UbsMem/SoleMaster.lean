import UbsMem.ZenThreads

/-! # The fields of an elected master

When `state_` is `ELECTED_MASTER`, `electedMaster_` should be the node itself and its entry
the only one in the table that is marked as master.  The three are written by different
threads.  A broadcast that is handled while the node collects joins overwrites
`electedMaster_` and the table, and the loop that collects the joins goes on and makes the
node master all the same (`elected_over_broadcast`).

The fields agree in every run in which no broadcast is handled inside `InviteNodesToJoin`,
the discovery loop finds `TEMP_MASTER` only after `BecomeTempMaster` has written
`electedMaster_`, and no call of `BecomeTempMaster` writes the state while the discovery
loop is between its own state and the clearing of `electedMaster_` (`elected_master_sole`).
-/
namespace UbsMem

open List ZenNode

/-! ### The marks in the table -/

/-- The node is in the table, and no other one is marked as master. -/
def SoleMaster (id : Name) (nodes : NodeMap) : Prop :=
  id ∈ nodes.map Prod.fst ∧ ∀ entry ∈ nodes, entry.2.isMaster = true ↔ entry.1 = id

/-- No mark changes, and entries are added without one. -/
structure SameMasters (nodes nodes' : NodeMap) : Prop where
  keys : ∀ id ∈ nodes.map Prod.fst, id ∈ nodes'.map Prod.fst
  entries : ∀ entry' ∈ nodes',
    (∃ entry ∈ nodes, entry.1 = entry'.1 ∧ entry.2.isMaster = entry'.2.isMaster) ∨
      entry'.1 ∉ nodes.map Prod.fst ∧ entry'.2.isMaster = false

theorem SameMasters.refl (nodes : NodeMap) : SameMasters nodes nodes :=
  ⟨fun _ h => h, fun entry hentry => .inl ⟨entry, hentry, rfl, rfl⟩⟩

theorem SameMasters.trans {nodes₁ nodes₂ nodes₃ : NodeMap} (h : SameMasters nodes₁ nodes₂)
    (h' : SameMasters nodes₂ nodes₃) : SameMasters nodes₁ nodes₃ := by
  refine ⟨fun id hid => h'.keys id (h.keys id hid), fun entry₃ hentry₃ => ?_⟩
  rcases h'.entries entry₃ hentry₃ with ⟨entry₂, hentry₂, hkey, hmaster⟩ | ⟨hnew, hmaster⟩
  · rw [← hkey, ← hmaster]
    exact h.entries entry₂ hentry₂
  · exact .inr ⟨fun hold => hnew (h.keys _ hold), hmaster⟩

variable {id : Name} {nodes : NodeMap} {node : NodeEntry}

theorem SoleMaster.of_same {nodes nodes' : NodeMap} (h : SoleMaster id nodes)
    (hsame : SameMasters nodes nodes') : SoleMaster id nodes' := by
  refine ⟨hsame.keys id h.1, fun entry' hentry' => ?_⟩
  rcases hsame.entries entry' hentry' with ⟨entry, hentry, hkey, hmaster⟩ | ⟨hnew, hmaster⟩
  · rw [← hkey, ← hmaster]
    exact h.2 entry hentry
  · have hne : entry'.1 ≠ id := fun heq => hnew (heq ▸ h.1)
    simp [hmaster, hne]

theorem mem_setNode {entry : Name × NodeEntry} (h : entry ∈ setNode id node nodes) :
    entry = (id, node) ∨ entry ∈ nodes := by
  induction nodes with
  | nil => exact .inl (mem_singleton.mp h)
  | cons first rest ih =>
    unfold setNode at h
    split_ifs at h
    · rcases mem_cons.mp h with h | h
      · exact .inl h
      · exact .inr (mem_cons_of_mem _ h)
    · rcases mem_cons.mp h with h | h
      · exact .inl h
      · exact .inr h
    · rcases mem_cons.mp h with h | h
      · exact .inr (h ▸ mem_cons_self)
      · rcases ih h with h | h
        · exact .inl h
        · exact .inr (mem_cons_of_mem _ h)

theorem mem_keys_setNode (id : Name) (node : NodeEntry) (nodes : NodeMap) {key : Name} :
    key ∈ (setNode id node nodes).map Prod.fst ↔ key = id ∨ key ∈ nodes.map Prod.fst := by
  induction nodes with
  | nil => simp [setNode]
  | cons first rest ih =>
    unfold setNode
    split_ifs with heq hlt
    · simp [heq]
    · simp
    · simp only [map_cons, mem_cons]
      exact ⟨fun h => by tauto, fun h => by tauto⟩

theorem not_mem_keys_of_findNode (h : findNode id nodes = none) : id ∉ nodes.map Prod.fst := by
  unfold findNode at h
  rw [lookup_eq_none_iff] at h
  intro hmem
  obtain ⟨entry, hentry, rfl⟩ := mem_map.mp hmem
  exact absurd (h entry hentry) (by simp)

theorem mem_of_findNode (h : findNode id nodes = some node) : (id, node) ∈ nodes := by
  induction nodes with
  | nil => cases h
  | cons first rest ih =>
    unfold findNode at h ih
    rw [lookup_cons] at h
    split at h
    · next heq =>
      obtain rfl := Option.some.inj h
      rw [eq_of_beq heq]
      exact mem_cons_self
    · exact mem_cons_of_mem _ (ih h)

/-- An entry is replaced by one with the same mark, or added without one. -/
theorem sameMasters_setNode
    (h : node.isMaster = ((findNode id nodes).map NodeEntry.isMaster).getD false) :
    SameMasters nodes (setNode id node nodes) := by
  refine ⟨fun key hkey => (mem_keys_setNode id node nodes).mpr (.inr hkey), fun entry hentry => ?_⟩
  rcases mem_setNode hentry with rfl | hold
  · cases hfind : findNode id nodes with
    | none => exact .inr ⟨not_mem_keys_of_findNode hfind, by rw [h, hfind]; rfl⟩
    | some old => exact .inl ⟨(id, old), mem_of_findNode hfind, rfl, by rw [h, hfind]; rfl⟩
  · exact .inl ⟨entry, hold, rfl, rfl⟩

theorem sameMasters_modifyNode (id : Name) (nodes : NodeMap) {f : NodeEntry → NodeEntry}
    (hf : ∀ node, (f node).isMaster = node.isMaster) :
    SameMasters nodes (modifyNode id f nodes) := by
  refine ⟨fun key hkey => ?_, fun entry' hentry' => .inl ?_⟩
  · obtain ⟨entry, hentry, rfl⟩ := mem_map.mp hkey
    refine mem_map.mpr ⟨_, mem_map_of_mem hentry, ?_⟩
    split_ifs <;> rfl
  · obtain ⟨entry, hentry, rfl⟩ := mem_map.mp hentry'
    refine ⟨entry, hentry, ?_⟩
    split_ifs
    · exact ⟨rfl, (hf entry.2).symm⟩
    · exact ⟨rfl, rfl⟩

theorem sameMasters_setType (id : Name) (type : NodeType) (nodes : NodeMap) :
    SameMasters nodes (modifyNode id (fun node => { node with type }) nodes) :=
  sameMasters_modifyNode id nodes fun _ => rfl

namespace ZenNode

theorem sameMasters_rel : TableRel SameMasters (fun _ => True) fun _ => True where
  refl := .refl
  trans := .trans
  seen hfind _ := sameMasters_setNode (by rw [hfind]; rfl)
  mark nodes _ := sameMasters_modifyNode _ nodes fun _ => rfl
  eligible nodes := sameMasters_setType _ .eligibleNode nodes

theorem sameMasters_connectToRpcNode {R : Type} (n : ZenNode) (id : Name)
    (outcome : SendOutcome R) : SameMasters n.nodes (n.connectToRpcNode id outcome).nodes :=
  sameMasters_rel.connectToRpcNode n id fun _ _ => ⟨trivial, trivial⟩

theorem sameMasters_sendJoinRequest (n : ZenNode) (id : Name) (outcome : SendOutcome NodeType) :
    SameMasters n.nodes (n.sendJoinRequest id outcome).nodes := by
  refine sameMasters_rel.sendJoinRequest n id (fun _ _ => ⟨trivial, trivial⟩)
    (sameMasters_setNode ?_)
  cases findNode id n.nodes <;> rfl

variable {n : ZenNode}

/-- `ModifyNodeList` marks the node and no other. -/
theorem soleMaster_modifyNodeList (h : n.nodeId ∈ n.nodes.map Prod.fst) :
    SoleMaster n.nodeId n.modifyNodeList.nodes := by
  refine ⟨?_, fun entry' hentry' => ?_⟩
  · obtain ⟨entry, hentry, hid⟩ := mem_map.mp h
    refine mem_map.mpr ⟨_, mem_map_of_mem hentry, ?_⟩
    rw [if_pos hid]
    exact hid
  · obtain ⟨entry, -, rfl⟩ := mem_map.mp hentry'
    by_cases hid : entry.1 = n.nodeId
    · simp [hid]
    · simp [hid]

theorem mem_keys_fillNodes (hown : n.nodeId ∈ n.configured)
    (hvoting : n.type = .votingOnlyNode → n.nodeId ∈ n.nodes.map Prod.fst) :
    n.nodeId ∈ n.fillNodes.nodes.map Prod.fst := by
  unfold fillNodes
  split_ifs with htype
  · exact hvoting htype
  · have hfold : ∀ (ids : List Name) (nodes : NodeMap), n.nodeId ∈ ids ∨
        n.nodeId ∈ nodes.map Prod.fst → n.nodeId ∈ (ids.foldl
          (fun nodes id => setNode id ⟨id, false, true, .eligibleNode⟩ nodes) nodes).map
          Prod.fst := by
      intro ids
      induction ids with
      | nil =>
        rintro nodes (hid | hid)
        · cases hid
        · exact hid
      | cons id ids ih =>
        intro nodes hid
        apply ih
        rw [mem_keys_setNode]
        rcases hid with hid | hid
        · rcases mem_cons.mp hid with hid | hid
          · exact .inr (.inl hid)
          · exact .inl hid
        · exact .inr (.inr hid)
    exact hfold n.configured n.nodes (.inl hown)

end ZenNode

/-! ### The invariant -/

/-- Inside `InviteNodesToJoin`, past its loop. -/
def LoopPoint.inInvite : LoopPoint → Bool
  | .electing | .marked | .rejecting => true
  | _ => false

/-- Inside a function that a turn of the discovery loop calls when it does not invite. -/
def LoopPoint.inTurn : LoopPoint → Bool
  | .discovered | .demoting | .demoted | .quitting _ | .forgetting => true
  | _ => false

/-- The first ping is over. -/
def DiscoveryPhase.Started (phase : DiscoveryPhase) : Prop :=
  phase ≠ .stopped ∧ phase ≠ .firstPing

namespace ThreadedNode

/-- What holds between any two steps. -/
structure LeadInv (t : ThreadedNode) : Prop where
  elected : t.node.state = .electedMaster →
    t.node.electedMaster = t.node.nodeId ∧ SoleMaster t.node.nodeId t.node.nodes
  inviting : t.node.Inviting → t.node.electedMaster = t.node.nodeId
  marked : t.point = .marked → SoleMaster t.node.nodeId t.node.nodes
  temp : t.node.state = .tempMaster →
    t.node.electedMaster = t.node.nodeId ∨ ∃ b ∈ t.becoming, b.point = .stateSet
  clearing : t.point = .demoted ∨ t.point = .forgetting →
    t.node.state ≠ .tempMaster ∧ t.node.state ≠ .electedMaster
  invitePoint : t.point.inInvite = true → t.node.Inviting
  turnPoint : t.point.inTurn = true → t.node.phase = .idle
  listed : t.node.phase.Started ∨ t.node.type = .votingOnlyNode →
    t.node.nodeId ∈ t.node.nodes.map Prod.fst
  own : t.node.nodeId ∈ t.node.configured

/-- **The condition on a run.**  A broadcast lists the node, and is not handled inside
`InviteNodesToJoin`.  The discovery loop begins to invite only when no call of
`BecomeTempMaster` is between its writes of the state and of the elected master.  And no such
call writes the state while the discovery loop is between its own write of the state and
the clearing of the elected master. -/
def Undisturbed (t : ThreadedNode) : ThreadEvent → Prop
  | .whole (.broadcast _ nodeList _) =>
    ¬ t.node.Inviting ∧ t.node.nodeId ∈ nodeList.map Prod.fst
  | .turn => t.node.state = .tempMaster → ∀ b ∈ t.becoming, b.point ≠ .stateSet
  | .become i =>
    ∀ b, t.becoming[i]? = some b → b.point = .checked → t.point ≠ .demoted ∧ t.point ≠ .forgetting
  | _ => True

/-- The step of a node leaves what the invariant speaks about. -/
structure Unnoticed (n n' : ZenNode) : Prop where
  nodeId : n'.nodeId = n.nodeId
  configured : n'.configured = n.configured
  type : n'.type = n.type
  state : n'.state = n.state
  electedMaster : n'.electedMaster = n.electedMaster
  phase : n'.phase = n.phase
  nodes : SameMasters n.nodes n'.nodes

variable {t t' : ThreadedNode} {n n' : ZenNode}

theorem Unnoticed.of_tables (h : ZenNode.TablesOnly n n') (hsame : SameMasters n.nodes n'.nodes) :
    Unnoticed n n' := by
  obtain ⟨nodes, joins, rfl⟩ := h
  exact ⟨rfl, rfl, rfl, rfl, rfl, rfl, hsame⟩

theorem LeadInv.of_unnoticed (h : LeadInv t) (hn : Unnoticed t.node n') :
    LeadInv { t with node := n' } := by
  obtain ⟨hid, hconf, htype, hstate, hmaster, hphase, hnodes⟩ := hn
  have hinviting : n'.Inviting ↔ t.node.Inviting := by
    unfold ZenNode.Inviting
    rw [hphase]
  constructor
  · intro helected
    rw [hid, hmaster]
    obtain ⟨hown, hsole⟩ := h.elected (hstate ▸ helected)
    exact ⟨hown, hsole.of_same hnodes⟩
  · intro hinv
    rw [hid, hmaster]
    exact h.inviting (hinviting.mp hinv)
  · intro hpoint
    rw [hid]
    exact (h.marked hpoint).of_same hnodes
  · intro htemp
    rw [hid, hmaster]
    exact h.temp (hstate ▸ htemp)
  · intro hpoint
    rw [hstate]
    exact h.clearing hpoint
  · exact fun hpoint => hinviting.mpr (h.invitePoint hpoint)
  · intro hpoint
    rw [hphase]
    exact h.turnPoint hpoint
  · intro hlisted
    rw [hid]
    rw [hphase, htype] at hlisted
    exact hnodes.keys _ (h.listed hlisted)
  · rw [hid, hconf]
    exact h.own

/-- The discovery thread moves to another phase, while it is in no function or stays in
the loop of invitations. -/
theorem LeadInv.rephase (h : LeadInv t) {phase : DiscoveryPhase}
    (hinviting : (∃ pending, phase = .inviting pending) → t.node.Inviting)
    (hpoint : t.point = .between ∨ (∃ pending, phase = .inviting pending) ∧ t.node.Inviting)
    (hstarted : phase.Started → t.node.phase.Started) :
    LeadInv { t with node := { t.node with phase } } := by
  refine ⟨h.elected, fun hinv => h.inviting (hinviting hinv), h.marked, h.temp, h.clearing, ?_, ?_,
    ?_, h.own⟩
  · intro hinvite
    rcases hpoint with hbetween | ⟨hphase, -⟩
    · exact absurd hinvite (by simp [hbetween, LoopPoint.inInvite])
    · exact hphase
  · intro hturn
    rcases hpoint with hbetween | ⟨-, pending, hphase⟩
    · exact absurd hturn (by simp [hbetween, LoopPoint.inTurn])
    · exact absurd ((h.turnPoint hturn).symm.trans hphase) (by simp)
  · rintro (hphase | htype)
    · exact h.listed (.inl (hstarted hphase))
    · exact h.listed (.inr htype)

/-! ### Messages and steps that are not cut -/

theorem unnoticed_handleVoteResponse (n : ZenNode) (id : Name) (outcome : SendOutcome Bool) :
    Unnoticed n (n.handleVoteResponse id outcome) := by
  unfold ZenNode.handleVoteResponse
  split
  · exact ⟨rfl, rfl, rfl, rfl, rfl, rfl, .refl _⟩
  · exact .of_tables (tablesOnly_connectToRpcNode n id outcome)
      (sameMasters_connectToRpcNode n id outcome)

theorem unnoticed_runElection (n : ZenNode) : Unnoticed n n.runElection := by
  obtain ⟨es, -, heq | ⟨tempMaster, masterCandidates, toAsk, heq⟩⟩ := runElection_cases n <;>
    rw [heq] <;> exact ⟨rfl, rfl, rfl, rfl, rfl, rfl, .refl _⟩

theorem unnoticed_raiseTerm (n : ZenNode) (term : Int) : Unnoticed n (n.raiseTerm term) := by
  rw [raiseTerm_eq]
  exact ⟨rfl, rfl, rfl, rfl, rfl, rfl, .refl _⟩

/-- A broadcast outside `InviteNodesToJoin` takes the node out of the lead. -/
theorem LeadInv.broadcast (h : LeadInv t) {fromNodeId : Name} {nodeList : NodeMap} {inited : Bool}
    (hquiet : t.Undisturbed (.whole (.broadcast fromNodeId nodeList inited))) :
    LeadInv { t with node := t.node.handleBroadCastRequest fromNodeId nodeList inited } := by
  obtain ⟨hjoins, hlisted⟩ := hquiet
  obtain ⟨type, es, -, heq⟩ := handleBroadCastRequest_eq t.node fromNodeId nodeList inited
  rw [heq]
  refine ⟨nofun, fun hinv => absurd hinv hjoins, ?_, nofun,
    fun _ => ⟨by simp, by simp⟩, ?_, h.turnPoint, fun _ => hlisted, h.own⟩
  · intro hpoint
    exact absurd (h.invitePoint (by rw [hpoint]; rfl)) hjoins
  · intro hpoint
    exact absurd (h.invitePoint hpoint) hjoins

theorem LeadInv.joinResult (h : LeadInv t) {outcome : SendOutcome NodeType}
    (hstep : t.node.step (.joinResult id outcome) = some n') : LeadInv { t with node := n' } := by
  obtain ⟨pending, phase, rfl, hphase⟩ := step_joinResult hstep
  have hsent : Unnoticed t.node (t.node.sendJoinRequest id outcome) :=
    .of_tables (tablesOnly_sendJoinRequest t.node id outcome)
      (sameMasters_sendJoinRequest t.node id outcome)
  have hafter := h.of_unnoticed hsent
  have hstarted : t.node.phase.Started → (t.node.sendJoinRequest id outcome).phase.Started := by
    rw [hsent.phase]
    exact fun hold => hold
  rcases hphase with ⟨hold, rfl⟩ | ⟨hold, rfl⟩
  · have hinv : (t.node.sendJoinRequest id outcome).Inviting := ⟨pending, by rw [hsent.phase, hold]⟩
    refine hafter.rephase (fun _ => hinv) (.inr ⟨⟨_, rfl⟩, hinv⟩) fun _ => hstarted ?_
    rw [hold]
    exact ⟨by simp, by simp⟩
  · have hbetween : t.point = .between := by
      cases hpoint : t.point with
      | between => rfl
      | electing | marked | rejecting =>
        obtain ⟨_, hphase⟩ := h.invitePoint (by rw [hpoint]; rfl)
        exact absurd (hold.symm.trans hphase) (by simp)
      | _ =>
        exact absurd (hold.symm.trans (h.turnPoint (by rw [hpoint]; rfl))) (by simp)
    refine hafter.rephase (by rintro ⟨_, hphase⟩; cases hphase) (.inl hbetween) fun _ => hstarted ?_
    rw [hold]
    exact ⟨by simp, by simp⟩

theorem fillNodes_eq (n : ZenNode) : ∃ nodes, n.fillNodes = { n with nodes } := by
  unfold ZenNode.fillNodes
  split_ifs
  · exact ⟨n.nodes, rfl⟩
  · exact ⟨_, rfl⟩

section

variable (h : LeadInv t) {point : LoopPoint}

include h

theorem LeadInv.filled (state : NodeState) (hpoint : point = .discovered ∨ point = .between)
    (htemp : state ≠ .tempMaster) (helected : state ≠ .electedMaster) :
    LeadInv
      { t with node := { t.node.fillNodes with state, phase := .idle }, point } := by
  have hlisted := mem_keys_fillNodes h.own fun htype => h.listed (.inr htype)
  obtain ⟨nodes, heq⟩ := fillNodes_eq t.node
  rw [heq] at hlisted ⊢
  refine ⟨fun hstate => absurd hstate helected, (by rintro ⟨_, hinv⟩; cases hinv), ?_, fun hstate =>
    absurd hstate htemp, fun _ => ⟨htemp, helected⟩, ?_, fun _ => rfl, fun _ => hlisted, h.own⟩
  · rintro rfl
    rcases hpoint with hpoint | hpoint <;> cases hpoint
  · intro hinvite
    rcases hpoint with rfl | rfl <;> cases hinvite

theorem LeadInv.whole {e : NodeEvent} (hquiet : t.Undisturbed (.whole e))
    (hwhole : e.isWhole = true) (hloop : e.ofLoop = true → t.point = .between)
    (hstep : t.node.step e = some n') : LeadInv { t with node := n' } := by
  cases e with
  | start =>
    obtain ⟨hphase, rfl⟩ := step_start hstep
    have hbetween := hloop rfl
    refine ⟨nofun, (by rintro ⟨_, hinv⟩; cases hinv), h.marked,
      nofun, fun _ => ⟨by simp, by simp⟩, ?_, ?_, ?_, h.own⟩
    · exact fun hpoint => absurd hpoint (by simp [hbetween, LoopPoint.inInvite])
    · exact fun hpoint => absurd hpoint (by simp [hbetween, LoopPoint.inTurn])
    · rintro (hstarted | htype)
      · exact absurd rfl hstarted.2
      · exact h.listed (.inr htype)
  | firstDiscovery =>
    simp only [ZenNode.step] at hstep
    split_ifs at hstep with hphase
    obtain rfl := Option.some.inj hstep
    rw [performInitialDiscovery_eq_fillNodes]
    exact h.filled .masterCandidate (.inr (hloop rfl)) (by simp) (by simp)
  | pingRequest fromNodeId fresh | joinRequest fromNodeId fresh =>
    cases hstep
    exact h.of_unnoticed (.of_tables (tablesOnly_mark t.node fromNodeId fresh true)
      (sameMasters_rel.markNodeActive t.node fromNodeId trivial (.inl rfl)))
  | voteRequest fromNodeId candidate term =>
    cases hstep
    exact h.of_unnoticed (unnoticed_raiseTerm t.node term)
  | broadcast fromNodeId nodeList inited =>
    cases hstep
    exact h.broadcast hquiet
  | pingResult id reached fresh =>
    cases hstep
    exact h.of_unnoticed (.of_tables (tablesOnly_sendPingRequest t.node id reached fresh)
      (sameMasters_rel.sendPingRequest t.node id trivial (.inr trivial)))
  | joinResult id outcome => exact h.joinResult hstep
  | leaveInvite =>
    obtain ⟨hphase, rfl⟩ := step_leaveInvite hstep
    refine h.rephase (by rintro ⟨_, hidle⟩; cases hidle) (.inl (hloop rfl)) fun _ => ?_
    rw [hphase]
    exact ⟨by simp, by simp⟩
  | sendBroadcast outcome =>
    obtain ⟨snapshot, id, targets, hphase, rfl⟩ := step_sendBroadcast hstep
    have hsent : Unnoticed t.node (t.node.connectToRpcNode id outcome) :=
      .of_tables (tablesOnly_connectToRpcNode t.node id outcome)
        (sameMasters_connectToRpcNode t.node id outcome)
    refine (h.of_unnoticed hsent).rephase ?_ (.inl (hloop rfl)) fun _ => ?_
    · rintro ⟨pending, hinv⟩
      cases targets <;> cases hinv
    · show (t.node.connectToRpcNode id outcome).phase.Started
      rw [hsent.phase, hphase]
      exact ⟨by simp, by simp⟩
  | runElection =>
    obtain ⟨-, -, rfl⟩ := step_runElection hstep
    exact h.of_unnoticed (unnoticed_runElection t.node)
  | sendVoteRequest =>
    obtain ⟨_, _, _, _, -, rfl⟩ := step_sendVoteRequest hstep
    exact h.of_unnoticed ⟨rfl, rfl, rfl, rfl, rfl, rfl, .refl _⟩
  | voteResult outcome =>
    obtain ⟨_, _, _, id, -, rfl⟩ := step_voteResult hstep
    obtain ⟨hid, hconf, htype, hstate, hmaster, hphase, hnodes⟩ :=
      unnoticed_handleVoteResponse t.node id outcome
    exact h.of_unnoticed ⟨hid, hconf, htype, hstate, hmaster, hphase, hnodes⟩
  | handleEvent outcomes =>
    obtain ⟨_, _, -, rfl⟩ := step_handleEvent hstep
    exact h.of_unnoticed ⟨rfl, rfl, rfl, rfl, rfl, rfl, .refl _⟩
  | clientReinit outcome =>
    cases hstep
    exact h.of_unnoticed ⟨rfl, rfl, rfl, rfl, rfl, rfl, .refl _⟩
  | discover | checkElectionResult _ | transElected _ _ _ | pollVotes _ _ => cases hwhole

/-! ### The discovery loop -/

/-- The discovery thread enters a function in which it will change nothing but the state
and the elected master. -/
theorem LeadInv.enter (hphase : t.node.phase = .idle)
    (hturn : point = .demoting ∨ ∃ forget, point = .quitting forget) :
    LeadInv { t with point } := by
  refine ⟨h.elected, h.inviting, ?_, h.temp, ?_, ?_, fun _ => hphase, h.listed, h.own⟩
  · rintro rfl
    rcases hturn with hturn | ⟨_, hturn⟩ <;> cases hturn
  · rintro (rfl | rfl) <;> rcases hturn with hturn | ⟨_, hturn⟩ <;> cases hturn
  · intro hinvite
    rcases hturn with rfl | ⟨_, rfl⟩ <;> cases hinvite

theorem LeadInv.turn (hquiet : t.Undisturbed .turn) (hphase : t.node.phase = .idle)
    (hpoint : t.point = .between) : LeadInv t.turn := by
  unfold ThreadedNode.turn
  split
  · next hstate =>
    have hfilled := h.filled .initial (.inl rfl) (by simp) (by simp)
    obtain ⟨nodes, heq⟩ := fillNodes_eq t.node
    rw [heq] at hfilled ⊢
    have hsame : ({ t.node with nodes, state := .initial, phase := .idle } : ZenNode) =
        { t.node with nodes } := by rw [← hstate, ← hphase]
    rwa [hsame] at hfilled
  · next hstate =>
    have hown : t.node.electedMaster = t.node.nodeId := by
      rcases h.temp hstate with hown | ⟨b, hb, hset⟩
      · exact hown
      · exact absurd hset (hquiet hstate b hb)
    refine ⟨h.elected, fun _ => hown, ?_, h.temp, h.clearing, fun _ => ⟨_, rfl⟩, ?_, ?_, h.own⟩
    · exact fun hmarked => absurd (hpoint.symm.trans hmarked) (by simp)
    · exact fun hturn => absurd hturn (by simp [hpoint, LoopPoint.inTurn])
    · rintro -
      exact h.listed (.inl (by rw [hphase]; exact ⟨by simp, by simp⟩))
  · split_ifs with hfew
    · exact h.enter hphase (.inl rfl)
    · unfold ZenNode.maintainAsMaster
      rw [if_neg hfew]
      have hchoose : Unnoticed t.node t.node.chooseVoteOnlyNode := by
        have hsame := sameMasters_rel.chooseVoteOnlyNode t.node fun id =>
          sameMasters_setType id .votingOnlyNode t.node.nodes
        unfold ZenNode.chooseVoteOnlyNode at hsame ⊢
        split_ifs at hsame ⊢ <;> exact ⟨rfl, rfl, rfl, rfl, rfl, rfl, hsame⟩
      refine (h.of_unnoticed hchoose).rephase ?_ (.inl hpoint) fun _ => ?_
      · rintro ⟨pending, hinv⟩
        generalize List.map Prod.fst _ = targets at hinv
        cases targets <;> cases hinv
      · show t.node.chooseVoteOnlyNode.phase.Started
        rw [hchoose.phase, hphase]
        exact ⟨by simp, by simp⟩
  · split_ifs
    · exact h.enter hphase (.inr ⟨_, rfl⟩)
    · exact h
    · exact h.enter hphase (.inr ⟨_, rfl⟩)
  all_goals exact h

theorem LeadInv.decide (hinv : t.node.Inviting) (event : ZenElectionEventType) (masterId : Name)
    (hpoint : point = .electing ∨ point = .rejecting) :
    LeadInv { t with node := t.node.notifyListeners event masterId [], point } := by
  refine ⟨h.elected, h.inviting, ?_, h.temp, ?_, fun _ => hinv, ?_, h.listed, h.own⟩
  · rintro rfl
    rcases hpoint with hpoint | hpoint <;> cases hpoint
  · rintro (rfl | rfl) <;> rcases hpoint with hpoint | hpoint <;> cases hpoint
  · intro hturn
    rcases hpoint with rfl | rfl <;> cases hturn

theorem LeadInv.check (hinv : t.node.Inviting) (timedOut : Bool) : LeadInv (t.check timedOut) := by
  unfold ThreadedNode.check
  split_ifs
  · exact h.decide hinv _ _ (.inl rfl)
  · exact h.decide hinv _ _ (.inr rfl)
  · exact h.decide hinv _ _ (.inl rfl)
  · exact h

/-- The discovery thread writes a state outside the lead and returns. -/
theorem LeadInv.assignState {state : NodeState} (htemp : state ≠ .tempMaster)
    (helected : state ≠ .electedMaster) {phase : DiscoveryPhase}
    (hphase : ¬ ∃ pending, phase = .inviting pending)
    (hstarted : phase.Started → t.node.phase.Started) :
    LeadInv { t with node := { t.node with state, phase }, point := .between } := by
  refine ⟨fun hstate => absurd hstate helected, fun hinv => absurd hinv hphase,
    nofun, fun hstate => absurd hstate htemp, fun _ => ⟨htemp, helected⟩, nofun, nofun, ?_, h.own⟩
  rintro (hphase' | htype)
  · exact h.listed (.inl (hstarted hphase'))
  · exact h.listed (.inr htype)

end

theorem leaving_not_inviting (phase : DiscoveryPhase) :
    ¬ ∃ pending, ZenNode.leaving phase = .inviting pending := by
  rintro ⟨pending, h⟩
  cases phase <;> cases h

theorem started_leaving (phase : DiscoveryPhase) :
    (ZenNode.leaving phase).Started ↔ phase.Started := by
  cases phase <;> simp [ZenNode.leaving, DiscoveryPhase.Started]

section

variable (h : LeadInv t)

include h

theorem LeadInv.markJoined (hpoint : t.point = .electing) :
    LeadInv { t with node := t.node.markJoined, point := .marked } := by
  have hinv := h.invitePoint (by rw [hpoint]; rfl)
  obtain ⟨pending, hphase⟩ := hinv
  have hown : t.node.nodeId ∈ t.node.nodes.map Prod.fst :=
    h.listed (.inl (by rw [hphase]; exact ⟨by simp, by simp⟩))
  have hsole : SoleMaster t.node.nodeId t.node.modifyNodeList.nodes :=
    soleMaster_modifyNodeList hown
  refine ⟨fun hstate => ⟨(h.elected hstate).1, hsole⟩, fun _ => h.inviting ⟨pending, hphase⟩,
    fun _ => hsole, h.temp, ?_, fun _ => ⟨pending, hphase⟩, nofun, fun _ => hsole.1, h.own⟩
  rintro (hpoint | hpoint) <;> cases hpoint

/-- **The state becomes `ELECTED_MASTER`** with the fields that belong to it. -/
theorem LeadInv.becomeElected (hpoint : t.point = .marked) : LeadInv
      { t with
        node := { t.node with state := .electedMaster, phase := ZenNode.leaving t.node.phase }
        point := .between } := by
  have hinv := h.invitePoint (by rw [hpoint]; rfl)
  refine ⟨fun _ => ⟨h.inviting hinv, h.marked hpoint⟩,
    fun hinv' => absurd hinv' (leaving_not_inviting _), nofun, nofun, ?_, nofun, nofun, ?_, h.own⟩
  · rintro (hpoint | hpoint) <;> cases hpoint
  · rintro (hphase | htype)
    · exact h.listed (.inl ((started_leaving _).mp hphase))
    · exact h.listed (.inr htype)

theorem LeadInv.clear (hpoint : t.point = .demoted ∨ t.point = .forgetting)
    (hid : n'.nodeId = t.node.nodeId) (hconf : n'.configured = t.node.configured)
    (htype : n'.type = t.node.type) (hstate : n'.state = t.node.state)
    (hphase : n'.phase = t.node.phase) (hkeys : n'.nodes.map Prod.fst = t.node.nodes.map Prod.fst) :
    LeadInv { t with node := n', point := .between } := by
  obtain ⟨htemp, helected⟩ := h.clearing hpoint
  have hidle : t.node.phase = .idle := by
    rcases hpoint with hpoint | hpoint <;> exact h.turnPoint (by rw [hpoint]; rfl)
  refine ⟨fun h' => absurd (hstate.symm.trans h') helected, ?_, nofun,
    fun h' => absurd (hstate.symm.trans h') htemp, ?_, nofun, nofun, ?_, ?_⟩
  · rintro ⟨pending, hinv⟩
    exact absurd ((hphase.trans hidle).symm.trans hinv) (by simp)
  · rintro (hpoint | hpoint) <;> cases hpoint
  · rw [hphase, htype, hid, hkeys]
    exact h.listed
  · rw [hid, hconf]
    exact h.own

theorem LeadInv.assign (hstep : t.assign = some t') : LeadInv t' := by
  unfold ThreadedNode.assign at hstep
  have hidle : t.point.inTurn = true → ¬ ∃ pending, t.node.phase = .inviting pending := by
    rintro hturn ⟨pending, hinv⟩
    exact absurd ((h.turnPoint hturn).symm.trans hinv) (by simp)
  split at hstep
  · cases hstep
  all_goals obtain rfl := Option.some.inj hstep
  · next hpoint =>
      exact h.assignState (by simp) (by simp) (hidle (by rw [hpoint]; rfl)) fun hs => hs
  · next hpoint => exact h.markJoined hpoint
  · next hpoint => exact h.becomeElected hpoint
  · exact h.assignState (by simp) (by simp) (leaving_not_inviting _) (started_leaving _).mp
  · next hpoint =>
    have hphase := h.turnPoint (by rw [hpoint]; rfl)
    refine ⟨nofun, h.inviting, nofun, nofun, fun _ => ⟨by simp, by simp⟩, nofun, fun _ => hphase,
      h.listed, h.own⟩
  · next hpoint =>
    refine h.clear (.inl hpoint) rfl rfl rfl rfl rfl ?_
    show List.map Prod.fst (t.node.nodes.map _) = _
    rw [map_map]
    rfl
  · next forget hpoint =>
    have hphase := h.turnPoint (by rw [hpoint]; rfl)
    cases forget with
    | false => exact h.assignState (by simp) (by simp) (hidle (by rw [hpoint]; rfl)) fun hs => hs
    | true =>
      refine ⟨nofun, h.inviting, nofun, nofun, fun _ => ⟨by simp, by simp⟩, nofun, fun _ => hphase,
        h.listed, h.own⟩
  · next hpoint => exact h.clear (.inr hpoint) rfl rfl rfl rfl rfl rfl

/-! ### Becoming temporary master -/

theorem LeadInv.callBecome (candidates : List Name) : LeadInv (t.callBecome candidates) := by
  unfold ThreadedNode.callBecome
  split_ifs with hlead
  · exact h
  · refine { h with temp := fun htemp => absurd (.inl htemp) hlead }

theorem LeadInv.become {i : Nat} (hquiet : t.Undisturbed (.become i))
    (hstep : t.become i = some t') : LeadInv t' := by
  obtain ⟨b, hb, rfl⟩ := Option.map_eq_some_iff.mp hstep
  obtain ⟨hi, -⟩ := List.getElem?_eq_some_iff.mp hb
  obtain ⟨candidates, point⟩ := b
  cases point with
  | checked =>
    have hpoint := hquiet _ hb rfl
    refine { h with elected := nofun, temp := fun _ => .inr ?_, clearing := ?_ }
    · refine ⟨⟨candidates, .stateSet⟩, ?_, rfl⟩
      exact mem_of_getElem? (List.getElem?_set_self hi)
    · rintro (hold | hold)
      · exact absurd hold hpoint.1
      · exact absurd hold hpoint.2
  | stateSet =>
    exact { h with
      elected := fun hstate => ⟨rfl, (h.elected hstate).2⟩
      inviting := fun _ => rfl
      temp := fun _ => .inl rfl }
  | masterSet =>
    refine { h with temp := fun htemp => ?_ }
    rcases h.temp htemp with hown | ⟨b, hmem, hset⟩
    · exact .inl hown
    · -- The call that is between its writes is not the one that returns.
      obtain ⟨j, hj⟩ := mem_iff_getElem?.mp hmem
      refine .inr ⟨b, mem_eraseIdx_iff_getElem?.mpr ⟨j, ?_, hj⟩, hset⟩
      rintro rfl
      obtain rfl := Option.some.inj (hb.symm.trans hj)
      cases hset

theorem LeadInv.endElection (v : Voting) (outcome : SendOutcome Unit) :
    LeadInv (t.endElection v outcome) := by
  unfold ThreadedNode.endElection
  dsimp only
  split_ifs
  · obtain ⟨hid, hconf, htype, hstate, hmaster, hphase, hnodes⟩ := Unnoticed.of_tables
      (tablesOnly_connectToRpcNode (t.node.notifyListeners .votingCompleted [] [])
        v.tempMaster outcome)
      (sameMasters_connectToRpcNode _ v.tempMaster outcome)
    exact h.of_unnoticed ⟨hid, hconf, htype, hstate, hmaster, hphase, hnodes⟩
  · refine LeadInv.callBecome ?_ v.masterCandidates
    exact h.of_unnoticed ⟨rfl, rfl, rfl, rfl, rfl, rfl, .refl _⟩

/-- **The invariant is kept by every step that meets the condition.** -/
theorem LeadInv.step {e : ThreadEvent} (hquiet : t.Undisturbed e) (hstep : t.step e = some t') :
    LeadInv t' := by
  cases e with
  | whole e =>
    simp only [ThreadedNode.step] at hstep
    split_ifs at hstep with hok
    obtain ⟨n', hnode, rfl⟩ := Option.map_eq_some_iff.mp hstep
    exact h.whole hquiet hok.1 hok.2 hnode
  | turn =>
    simp only [ThreadedNode.step] at hstep
    split_ifs at hstep with hok
    obtain rfl := Option.some.inj hstep
    exact h.turn hquiet hok.1 hok.2
  | check timedOut =>
    simp only [ThreadedNode.step] at hstep
    split at hstep
    · next pending hphase =>
      split_ifs at hstep
      obtain rfl := Option.some.inj hstep
      exact h.check ⟨pending, hphase⟩ timedOut
    · cases hstep
  | assign => exact h.assign hstep
  | transElected nodeList term =>
    simp only [ThreadedNode.step] at hstep
    split_ifs at hstep <;> obtain rfl := Option.some.inj hstep
    · exact h
    · exact (h.of_unnoticed (unnoticed_raiseTerm t.node term)).callBecome nodeList
  | pollVotes timedOut outcome =>
    simp only [ThreadedNode.step] at hstep
    split at hstep
    · split_ifs at hstep <;> obtain rfl := Option.some.inj hstep
      · exact h.of_unnoticed ⟨rfl, rfl, rfl, rfl, rfl, rfl, .refl _⟩
      · exact h.endElection _ outcome
      · exact h
    · cases hstep
  | become i => exact h.become hquiet hstep

end

theorem leadInv_beforeStart {nodeId : Name} {configured : List Name} (hown : nodeId ∈ configured)
    (minimumMasterNodes : Nat) :
    LeadInv (atRest (.beforeStart nodeId minimumMasterNodes configured)) := by
  refine ⟨nofun, (by rintro ⟨_, hinv⟩; cases hinv), nofun, nofun, ?_, nofun, nofun, ?_, hown⟩
  · rintro (hpoint | hpoint) <;> cases hpoint
  · rintro (hphase | htype)
    · exact absurd rfl hphase.1
    · cases htype

end ThreadedNode

/-- **An elected master is the master of its own fields.**  In every run of the threads of
a node whose steps meet the condition, with any messages: when the state is
`ELECTED_MASTER`, the elected master is the node, and its entry in the table is the only one
that is marked; and while it collects joins it has not accepted another master. -/
theorem elected_master_sole {nodeId : Name} {minimumMasterNodes : Nat} {configured : List Name}
    (hown : nodeId ∈ configured) {t : ThreadedNode}
    (hrun : Reaches ThreadedNode.step ThreadedNode.Undisturbed
      (.atRest (.beforeStart nodeId minimumMasterNodes configured)) t) :
    (t.node.state = .electedMaster →
        t.node.electedMaster = t.node.nodeId ∧ SoleMaster t.node.nodeId t.node.nodes) ∧
      (t.node.Inviting → t.node.electedMaster = t.node.nodeId) := by
  have hinv : t.LeadInv := hrun.invariant (ThreadedNode.leadInv_beforeStart hown minimumMasterNodes)
    fun _ _ _ h hquiet hstep => h.step hquiet hstep
  exact ⟨hinv.elected, hinv.inviting⟩

/-- A node of two, whose id is `1`. -/
def pairNode : ThreadedNode := .atRest (.beforeStart [49] 2 [[49], [50]])

/-- The result of an election reaches the node, and it begins to invite the other. -/
def inviteOther : List ThreadEvent :=
  [.whole .start, .whole .firstDiscovery, .transElected [[49], [50]] 0, .become 0, .become 0,
    .become 0, .turn, .whole (.joinResult [50] (.answered .eligibleNode))]

/-- A test for the condition on a run. -/
def undisturbedTest (t : ThreadedNode) : ThreadEvent → Bool
  | .whole (.broadcast _ _ _) => false
  | .turn => t.becoming.isEmpty
  | .become _ => decide (t.point = .between)
  | _ => true

theorem undisturbed_of_test (t : ThreadedNode) (e : ThreadEvent) (h : undisturbedTest t e = true) :
    t.Undisturbed e := by
  cases e with
  | whole e => cases e <;> trivial
  | turn =>
    intro _ b hb
    rw [isEmpty_iff.mp h] at hb
    cases hb
  | become i =>
    intro b _ _
    rw [of_decide_eq_true h]
    exact ⟨by simp, by simp⟩
  | _ => trivial

/-- The node after the other one has joined. -/
def pairElected : ThreadedNode :=
  (execute ThreadedNode.step undisturbedTest pairNode
    (inviteOther ++ [.check false, .assign, .assign])).getD pairNode

theorem elected_master_sole_pair :
    pairElected.node.state = .electedMaster ∧ pairElected.node.electedMaster = [49] ∧
      SoleMaster [49] pairElected.node.nodes := by
  have hexec : execute ThreadedNode.step undisturbedTest pairNode
      (inviteOther ++ [.check false, .assign, .assign]) = some pairElected := rfl
  have hrun := Reaches.of_execute undisturbed_of_test .refl hexec
  exact ⟨rfl, (elected_master_sole (by decide) hrun).1 rfl⟩

/-- The other node has become master meanwhile, and its broadcast arrives before the joins
are counted. -/
def joinOver : List ThreadEvent :=
  [.whole (.broadcast [50]
    [([49], ⟨[49], false, true, .eligibleNode⟩), ([50], ⟨[50], true, true, .eligibleNode⟩)] false),
    .check false, .assign, .assign]

/-- The node after the broadcast and the count. -/
def pairOver : ThreadedNode :=
  (execute ThreadedNode.step (fun _ _ => true) pairNode (inviteOther ++ joinOver)).getD pairNode

/-- **A node becomes master over the one it has accepted.** -/
theorem elected_over_broadcast :
    Reaches ThreadedNode.step (fun _ _ => True) pairNode pairOver ∧
      pairOver.node.state = .electedMaster ∧ pairOver.node.nodeId = [49] ∧
      pairOver.node.electedMaster = [50] := by
  have hexec : execute ThreadedNode.step (fun _ _ => true) pairNode (inviteOther ++ joinOver) =
      some pairOver := rfl
  exact ⟨Reaches.of_execute (fun _ _ _ => trivial) .refl hexec, rfl, rfl, rfl⟩

end UbsMem
