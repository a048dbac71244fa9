import UbsMem.Machine
import UbsMem.ZenSteps

/-! # A master that is demoted stops its lock server

Only two things take a node out of `ELECTED_MASTER`: `StepDownAsMaster`, which queues
`NODE_DEMOTED` once, and a broadcast of another master.  `HandleBroadCastRequest` sets the
state without looking at the old one, and queues `NODE_DEMOTED` only for a node that was
voting-only and is listed as eligible.  Where every broadcast that reaches an elected
master is of that kind, each transition out of `ELECTED_MASTER` queues exactly one
`NODE_DEMOTED`, and a lock server that runs on a node that is not the master has its
demotion in the queue (`demotion_notified`).
-/
namespace UbsMem

open List ZenNode

namespace ZenNode

theorem foldl_acceptEntry_filter (inited : Bool) (entries : List NodeEntry) (n : ZenNode) :
    entries.foldl (acceptEntry inited) n =
      (entries.filter fun node => node.id = n.nodeId).foldl (acceptEntry inited) n := by
  induction entries generalizing n with
  | nil => rfl
  | cons node entries ih =>
    obtain ⟨type, es, -, heq⟩ := acceptEntry_eq inited n node
    have hid : (n.acceptEntry inited node).nodeId = n.nodeId := by rw [heq]
    by_cases hown : node.id = n.nodeId
    · rw [filter_cons_of_pos (by simpa using hown), foldl_cons, foldl_cons, ih, hid]
    · have hskip : n.acceptEntry inited node = n := by
        unfold acceptEntry
        rw [if_neg (fun h => hown h.1), if_neg (fun h => hown h.1)]
      rw [filter_cons_of_neg (by simpa using hown), foldl_cons, hskip, ih]

variable {nodeList : NodeMap} {queue es : List ListenerParam} {p : ListenerParam}
  {phase : DiscoveryPhase} {timedOut : Bool} {e : NodeEvent}

/-- The one kind of broadcast that queues a demotion, and exactly one. -/
theorem handleBroadCastRequest_demotes {n : ZenNode} {node : NodeEntry}
    (hvoting : n.type = .votingOnlyNode)
    (hown : (nodeList.map Prod.snd).filter (fun entry => entry.id = n.nodeId) = [node])
    (heligible : node.type = .eligibleNode) (fromNodeId : Name) (inited : Bool) :
    (n.handleBroadCastRequest fromNodeId nodeList inited).listenerQueue =
      n.listenerQueue ++ [⟨.nodeDemoted, fromNodeId, n.nodeId⟩] := by
  have hid : node.id = n.nodeId := by
    have hmem : node ∈ (nodeList.map Prod.snd).filter (fun entry => entry.id = n.nodeId) := by
      rw [hown]
      exact mem_singleton_self node
    simpa using (mem_filter.mp hmem).2
  unfold handleBroadCastRequest
  rw [foldl_acceptEntry_filter]
  rw [hown, foldl_cons, foldl_nil]
  unfold acceptEntry
  rw [if_neg (by rw [heligible]; simp), if_pos ⟨hid, heligible, hvoting⟩]
  rfl

/-! ### The queue and the server -/

/-- Whether the server may run once the events have been handled; `none` when a node that
may run the server would turn into a client on the way. -/
def serverAfter : Bool → List ListenerParam → Option Bool
  | running, [] => some running
  | running, p :: queue =>
    match p.event with
    | .masterElected | .haveJoined => serverAfter true queue
    | .nodeDemoted => serverAfter false queue
    | .becomeVoteNode => if running then none else serverAfter false queue
    | .electionStarted | .votingCompleted | .electionFailed | .broadcast =>
      serverAfter running queue

theorem serverAfter_append (running : Bool) (queue es : List ListenerParam) :
    serverAfter running (queue ++ es) =
      (serverAfter running queue).bind fun running' => serverAfter running' es := by
  induction queue generalizing running with
  | nil => rfl
  | cons p queue ih =>
    rw [cons_append, serverAfter, serverAfter]
    cases p.event <;> simp only [ih]
    split_ifs <;> rfl

/-- A server that does not run gives no more reason for one to run later. -/
theorem serverAfter_mono {final : Bool} (h : serverAfter true queue = some final) :
    ∃ final', serverAfter false queue = some final' ∧ (final = false → final' = false) := by
  induction queue with
  | nil => exact ⟨false, rfl, fun _ => rfl⟩
  | cons p queue ih =>
    rw [serverAfter] at h ⊢
    cases hp : p.event <;> simp only [hp] at h ⊢
    case masterElected => exact ⟨final, h, id⟩
    case haveJoined => exact ⟨final, h, id⟩
    case nodeDemoted => exact ⟨final, h, id⟩
    case becomeVoteNode => exact absurd h (by simp)
    all_goals exact ih h

theorem serverAfter_clientEvents (h : ClientEvents es) : serverAfter false es = some false := by
  induction es with
  | nil => rfl
  | cons p es ih =>
    have hes := ih fun q hq => h q (mem_cons_of_mem p hq)
    rw [serverAfter]
    rcases h p mem_cons_self with hp | hp <;> rw [hp]
    · exact hes
    · exact hes

theorem serverAfter_neutral (h : NeutralEvents es) (running : Bool) :
    serverAfter running es = some running := by
  induction es with
  | nil => rfl
  | cons p es ih =>
    have hes := ih fun q hq => h q (mem_cons_of_mem p hq)
    rw [serverAfter]
    rcases h p mem_cons_self with hp | hp | hp <;> rw [hp] <;> exact hes

/-- The discovery thread is at a point that only a node that is not the master comes to. -/
def Waiting (phase : DiscoveryPhase) : Prop :=
  phase = .stopped ∨ phase = .firstPing ∨ ∃ pending, phase = .inviting pending

/-- The invariant of a node: unless it is the master, the server is gone when the queue has
been handled. -/
structure MasterInv (n : ZenNode) : Prop where
  known : n.lock.ServerKnown
  settled : ∃ final, serverAfter n.lock.isDlockServer n.listenerQueue = some final ∧
    (n.state ≠ .electedMaster → final = false)
  waiting : Waiting n.phase → n.state ≠ .electedMaster

variable {n n' : ZenNode} {es : List ListenerParam}

section

variable (h : MasterInv n) (hlock : n'.lock = n.lock)

include h hlock

/-- A step that does not make or unmake a master and tells the lock module nothing. -/
theorem MasterInv.of_neutral (hqueue : n'.listenerQueue = n.listenerQueue ++ es)
    (hes : NeutralEvents es)
    (hstate : n'.state = n.state ∨ n.state ≠ .electedMaster ∧ n'.state ≠ .electedMaster)
    (hwaiting : Waiting n'.phase → n'.state ≠ .electedMaster) : MasterInv n' := by
  obtain ⟨final, hfinal, hoff⟩ := h.settled
  refine ⟨hlock ▸ h.known, ⟨final, ?_, fun hne => ?_⟩, hwaiting⟩
  · rw [hlock, hqueue, serverAfter_append, hfinal]
    exact serverAfter_neutral hes final
  · rcases hstate with hsame | ⟨hold, -⟩
    · exact hoff (hsame ▸ hne)
    · exact hoff hold

theorem MasterInv.of_silent (hqueue : n'.listenerQueue = n.listenerQueue)
    (hstate : n'.state = n.state ∨ n.state ≠ .electedMaster ∧ n'.state ≠ .electedMaster)
    (hwaiting : Waiting n'.phase → n'.state ≠ .electedMaster) : MasterInv n' :=
  h.of_neutral hlock (hqueue.trans (append_nil _).symm) nofun hstate
    hwaiting

/-- A step that tells nothing, between states that are not the master's. -/
theorem MasterInv.of_silent_off (hqueue : n'.listenerQueue = n.listenerQueue)
    (hstate : n.state ≠ .electedMaster) (hstate' : n'.state ≠ .electedMaster) : MasterInv n' :=
  h.of_silent hlock hqueue (.inr ⟨hstate, hstate'⟩) fun _ => hstate'

/-- A step between states that are not the master's may tell the lock module to stop, or to
turn into a client. -/
theorem MasterInv.of_clientEvents (hqueue : n'.listenerQueue = n.listenerQueue ++ es)
    (hes : ClientEvents es) (hstate : n.state ≠ .electedMaster)
    (hstate' : n'.state ≠ .electedMaster) : MasterInv n' := by
  obtain ⟨final, hfinal, hoff⟩ := h.settled
  refine ⟨hlock ▸ h.known, ⟨false, ?_, fun _ => rfl⟩, fun _ => hstate'⟩
  rw [hlock, hqueue, serverAfter_append, hfinal, hoff hstate]
  exact serverAfter_clientEvents hes

theorem MasterInv.of_demoted (hqueue : n'.listenerQueue = n.listenerQueue ++ [p])
    (hp : p.event = .nodeDemoted) (hstate' : n'.state ≠ .electedMaster) : MasterInv n' := by
  obtain ⟨final, hfinal, -⟩ := h.settled
  refine ⟨hlock ▸ h.known, ⟨false, ?_, fun _ => rfl⟩, fun _ => hstate'⟩
  rw [hlock, hqueue, serverAfter_append, hfinal]
  show serverAfter final [p] = some false
  rw [serverAfter, hp]
  rfl

end

theorem serverAfter_haveJoined (hes : ∀ q ∈ es, q.event = .haveJoined) :
    serverAfter true es = some true := by
  induction es with
  | nil => rfl
  | cons q es ih =>
    rw [serverAfter, hes q mem_cons_self]
    exact ih fun q' hq' => hes q' (mem_cons_of_mem q hq')

/-- The events of `HandleAllJoined` start the server, on the new master. -/
theorem MasterInv.handleAllJoined (h : MasterInv n) (hphase : ¬ Waiting phase) :
    MasterInv { n.handleAllJoined with phase } := by
  obtain ⟨es, nodes, hes, heq⟩ := handleAllJoined_eq n
  obtain ⟨final, hfinal, -⟩ := h.settled
  rw [heq]
  refine ⟨h.known, ⟨true, ?_, fun hne => absurd rfl hne⟩, fun hwaiting => absurd hwaiting hphase⟩
  rw [serverAfter_append, serverAfter_append, hfinal]
  exact serverAfter_haveJoined hes

theorem not_waiting_leaving (pending : List Name) : ¬ Waiting (.leaving pending) := by
  simp [Waiting]

theorem not_waiting_broadcastPhase (snapshot : NodeMap) (targets : List Name) :
    ¬ Waiting (broadcastPhase snapshot targets) := by
  cases targets <;> simp [Waiting, broadcastPhase]

theorem MasterInv.of_quiet (h : MasterInv n) (hquiet : Quiet n n') : MasterInv n' := by
  obtain ⟨m, term, voting, votes, es, ⟨nodes, joins, phase, hphase, rfl⟩, hes, rfl⟩ := hquiet
  refine h.of_neutral rfl rfl hes (.inl rfl) fun hwaiting => h.waiting ?_
  rcases hwaiting with hstopped | hfirst | hinviting
  · exact .inl ((hphase.started (.inl hstopped)).symm.trans hstopped)
  · exact .inr (.inl ((hphase.started (.inr hfirst)).symm.trans hfirst))
  · exact .inr (.inr (hphase.inviting hinviting))

theorem MasterInv.discover (h : MasterInv n) : MasterInv n.discover := by
  rcases discover_cases n with ⟨nodes, hstate, heq⟩ | ⟨hstate, heq⟩ | ⟨hstate, heq⟩ |
    ⟨nodes, targets, hstate, heq⟩ | ⟨master, hstate, heq⟩ | heq <;> rw [heq]
  · exact h.of_silent_off rfl rfl (by simp [hstate]) (by simp)
  · exact h.of_silent_off rfl rfl (by simp [hstate]) (by simp [inviteNodesToJoin, hstate])
  · exact h.of_demoted rfl rfl rfl (by simp [stepDownAsMaster, notifyListeners])
  · exact h.of_silent rfl rfl (.inl rfl)
      fun hwaiting => absurd hwaiting (not_waiting_broadcastPhase nodes targets)
  · exact h.of_silent_off rfl rfl (by simp [hstate]) (by simp)
  · exact h

theorem MasterInv.handleEvent (h : MasterInv n) (hqueue : n.listenerQueue = p :: queue)
    (o : LockOutcomes) :
    MasterInv
      { n with listenerQueue := queue, lock := n.lock.handleElectionEvent n.nodeId p o } := by
  obtain ⟨final, hfinal, hoff⟩ := h.settled
  rw [hqueue, serverAfter] at hfinal
  -- where the configuration says less than the queue allows for, `serverAfter_mono` closes the gap
  have hweaken : ∀ running, serverAfter true queue = some final →
      ∃ final', serverAfter running queue = some final' ∧
        (n.state ≠ .electedMaster → final' = false) := by
    intro running hall
    obtain ⟨final', hfinal', hle⟩ := serverAfter_mono hall
    cases running with
    | true => exact ⟨final, hall, hoff⟩
    | false => exact ⟨final', hfinal', fun hne => hle (hoff hne)⟩
  have hclient : p.event = .becomeVoteNode → n.lock.isDlockServer = false := by
    intro hp
    by_contra hserver
    rw [hp, Bool.not_eq_false _ |>.mp hserver] at hfinal
    cases hfinal
  refine ⟨LockService.serverKnown_handleElectionEvent h.known n.nodeId hclient o, ?_, h.waiting⟩
  unfold LockService.handleElectionEvent
  cases hp : p.event <;> simp only [hp] at hfinal ⊢
  case masterElected => exact hweaken _ hfinal
  case haveJoined => exact hweaken _ hfinal
  case nodeDemoted =>
    rw [(LockService.onDLockDemoted_spec h.known).1]
    exact ⟨final, hfinal, hoff⟩
  case becomeVoteNode =>
    rw [hclient hp] at hfinal
    rw [LockService.isDlockServer_onDLockClientInit (hclient hp)]
    exact ⟨final, hfinal, hoff⟩
  all_goals exact ⟨final, hfinal, hoff⟩

/-- **The condition on a run**: a broadcast that reaches the elected master finds it
voting-only, and lists it once, as eligible. -/
def Demotes (n : ZenNode) : NodeEvent → Prop
  | .broadcast _ nodeList _ => n.state = .electedMaster → n.type = .votingOnlyNode ∧
      ∃ node, (nodeList.map Prod.snd).filter (fun entry => entry.id = n.nodeId) = [node] ∧
        node.type = .eligibleNode
  | _ => True

theorem MasterInv.handleBroadCastRequest (h : MasterInv n) {fromNodeId : Name} {inited : Bool}
    (hallow : n.Demotes (.broadcast fromNodeId nodeList inited)) :
    MasterInv (n.handleBroadCastRequest fromNodeId nodeList inited) := by
  obtain ⟨type, es, hes, heq⟩ := handleBroadCastRequest_eq n fromNodeId nodeList inited
  have hlock : (n.handleBroadCastRequest fromNodeId nodeList inited).lock = n.lock := by rw [heq]
  have hstate : (n.handleBroadCastRequest fromNodeId nodeList inited).state ≠ .electedMaster := by
    rw [heq]
    simp
  by_cases hmaster : n.state = .electedMaster
  · obtain ⟨hvoting, node, hown, heligible⟩ := hallow hmaster
    exact h.of_demoted hlock (handleBroadCastRequest_demotes hvoting hown heligible _ _) rfl hstate
  · exact h.of_clientEvents hlock (by rw [heq]) hes hmaster hstate

theorem MasterInv.checkElectionResult (h : MasterInv n)
    (hstep : n.step (.checkElectionResult timedOut) = some n') : MasterInv n' := by
  obtain ⟨pending, hphase, hn'⟩ := step_checkElectionResult hstep
  have hne : n.state ≠ .electedMaster := h.waiting (.inr (.inr ⟨pending, hphase⟩))
  rcases hn' with rfl | rfl | rfl
  · exact h.handleAllJoined (not_waiting_leaving pending)
  · refine h.of_clientEvents rfl rfl (fun p hp => ?_) hne (by simp)
    rw [mem_singleton.mp hp]
    exact .inl rfl
  · exact h

/-- **The invariant is kept by every event.** -/
theorem MasterInv.step (h : MasterInv n) (hallow : n.Demotes e) (hstep : n.step e = some n') :
    MasterInv n' := by
  cases e with
  | start =>
    obtain ⟨hphase, rfl⟩ := step_start hstep
    exact h.of_silent_off rfl rfl (h.waiting (.inl hphase)) (by simp)
  | firstDiscovery =>
    obtain ⟨hphase, nodes, rfl⟩ := step_firstDiscovery hstep
    exact h.of_silent_off rfl rfl (h.waiting (.inr (.inl hphase))) (by simp)
  | discover =>
    obtain ⟨-, rfl⟩ := step_discover hstep
    exact h.discover
  | broadcast fromNodeId nodeList inited =>
    cases hstep
    exact h.handleBroadCastRequest hallow
  | checkElectionResult timedOut => exact h.checkElectionResult hstep
  | handleEvent outcomes =>
    obtain ⟨p, queue, hqueue, rfl⟩ := step_handleEvent hstep
    exact h.handleEvent hqueue outcomes
  | clientReinit outcome =>
    cases hstep
    obtain ⟨hrole, hknown⟩ := LockService.sameRole_reinit n.lock outcome
    exact ⟨hknown h.known, hrole ▸ h.settled, h.waiting⟩
  | _ =>
    obtain ⟨m, hquiet, rfl | ⟨hne, candidates, rfl⟩⟩ := quiet_step hstep rfl
    · exact h.of_quiet hquiet
    · exact (h.of_quiet hquiet).of_silent_off rfl rfl hne (by simp)

end ZenNode

end UbsMem
