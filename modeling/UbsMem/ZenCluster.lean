import Mathlib.Algebra.Group.Int.Defs
import UbsMem.Machine
import UbsMem.ZenSteps
import Mathlib.Data.Finset.Lattice.Lemmas

/-! # Elections in a cluster

The nodes of a cluster with the vote, elected-master and broadcast messages between them.
A message that was sent can be delivered at any later time, any number of times, or never.
A vote is asked for by a call that is answered with the vote of the node that handles it;
the reply counts only for the call that is waited for.

`HandleVoteRequest` grants whenever the candidate is the smallest node that the receiver
takes for active, so a node can vote for two candidates in one term, and two masters can be
elected in it (`two_masters_in_term`).  A majority of votes gives a single master where no
node does so, and where the term of a master or of a running election is not raised by
the requests of others (`one_master_per_term`).
-/
namespace UbsMem

open Function ZenNode List

/-- A request for a vote; its number in the list of calls ties the reply to it. -/
structure VoteCall where
  src : Name
  dst : Name
  candidate : Name
  term : Int
  deriving DecidableEq, Repr

/-- `TransElectedRequest`. -/
structure ElectedCall where
  dst : Name
  nodeList : List Name
  term : Int
  deriving DecidableEq, Repr

/-- `BroadcastRequest`. -/
structure BroadcastCall where
  dst : Name
  fromNodeId : Name
  nodeList : NodeMap
  isServerInited : Bool
  deriving DecidableEq, Repr

/-- The nodes and the messages that were sent.  `votes` records the votes that every node
gave, its own ones in the elections it ran included. -/
structure Cluster where
  nodes : Name → ZenNode
  voteCalls : List VoteCall
  voteReplies : List (Nat × Bool)
  /-- The call whose reply a node waits for. -/
  asking : Name → Option Nat
  electedCalls : List ElectedCall
  broadcastCalls : List BroadcastCall
  votes : Name → List (Int × Name)

/-- What happens in a cluster. -/
inductive ClusterEvent
  /-- An event of one node that does not depend on the messages. -/
  | work (x : Name) (e : NodeEvent)
  | runElection (x : Name)
  | sendVoteRequest (x : Name)
  | deliverVote (call : Nat)
  | voteReply (x : Name) (granted : Bool)
  /-- The request or its reply is lost. -/
  | voteLost (x : Name) (outcome : SendOutcome Bool)
  | pollVotes (x : Name) (timedOut : Bool) (outcome : SendOutcome Unit)
  | deliverElected (m : ElectedCall)
  | sendBroadcast (x : Name) (outcome : SendOutcome Unit)
  | deliverBroadcast (m : BroadcastCall)

/-- Events that belong to an election. -/
def NodeEvent.inElection : NodeEvent → Bool
  | .voteRequest _ _ _ | .transElected _ _ _ | .runElection | .sendVoteRequest | .voteResult _
  | .pollVotes _ _ => true
  | _ => false

/-- Events of a node that neither send nor receive one of the messages. -/
def NodeEvent.isLocal : NodeEvent → Bool
  | .broadcast _ _ _ | .sendBroadcast _ => false
  | e => !e.inElection

/-- The request may have reached the other node. -/
def SendOutcome.sent {R : Type} : SendOutcome R → Bool
  | .notAnswered | .answered _ => true
  | .unknownNode | .notConnected _ => false

def SendOutcome.isAnswered {R : Type} : SendOutcome R → Bool
  | .answered _ => true
  | _ => false

namespace Cluster

/-- A step of one node. -/
def act (s : Cluster) (x : Name) (e : NodeEvent) : Option Cluster :=
  ((s.nodes x).step e).map fun n => { s with nodes := update s.nodes x n }

/-- A node gives a vote. -/
def vote (s : Cluster) (x : Name) (term : Int) (candidate : Name) : Cluster :=
  { s with votes := update s.votes x ((term, candidate) :: s.votes x) }

/-- The node's own vote in the election it has just begun. -/
def ownVote (s : Cluster) (x : Name) : Cluster :=
  match (s.nodes x).voting with
  | some v => s.vote x (s.nodes x).currentTerm v.tempMaster
  | none => s

/-- The result that the end of an election sends to the node that was voted for. -/
def electedCall (n : ZenNode) (timedOut : Bool) (outcome : SendOutcome Unit) : List ElectedCall :=
  match n.voting with
  | some v =>
    if timedOut = false ∧ n.minimumMasterNodes ≤ n.votesReceived.card ∧ v.tempMaster ≠ n.nodeId ∧
        outcome.sent = true then
      [⟨v.tempMaster, v.masterCandidates, n.currentTerm⟩]
    else []
  | none => []

/-- A step of the cluster. -/
def step (members : Finset Name) (s : Cluster) : ClusterEvent → Option Cluster
  | .work x e => if x ∈ members ∧ e.isLocal = true then s.act x e else none
  | .runElection x =>
    if x ∈ members then (s.act x .runElection).map fun s' => s'.ownVote x else none
  | .sendVoteRequest x =>
    match (s.nodes x).voting with
    | some ⟨tempMaster, _, id :: _, none⟩ =>
      if x ∈ members then
        (s.act x .sendVoteRequest).map fun s' =>
          { s' with
            voteCalls := s.voteCalls ++ [⟨x, id, tempMaster, (s.nodes x).currentTerm⟩]
            asking := update s.asking x (some s.voteCalls.length) }
      else none
    | _ => none
  | .deliverVote call =>
    s.voteCalls[call]?.bind fun r =>
      if r.dst ∈ members then
        (s.act r.dst (.voteRequest r.src r.candidate r.term)).map fun s' =>
          if ((s.nodes r.dst).handleVoteRequest r.candidate r.term).1 then
            vote { s' with voteReplies := (call, true) :: s.voteReplies } r.dst r.term r.candidate
          else { s' with voteReplies := (call, false) :: s.voteReplies }
      else none
  | .voteReply x granted =>
    (s.asking x).bind fun call =>
      if x ∈ members ∧ (call, granted) ∈ s.voteReplies then
        s.act x (.voteResult (.answered granted))
      else none
  | .voteLost x outcome =>
    if x ∈ members ∧ outcome.isAnswered = false then s.act x (.voteResult outcome) else none
  | .pollVotes x timedOut outcome =>
    if x ∈ members then
      (s.act x (.pollVotes timedOut outcome)).map fun s' =>
        { s' with electedCalls := s.electedCalls ++ electedCall (s.nodes x) timedOut outcome }
    else none
  | .deliverElected m =>
    if m ∈ s.electedCalls ∧ m.dst ∈ members then
      s.act m.dst (.transElected m.dst m.nodeList m.term)
    else none
  | .sendBroadcast x outcome =>
    match (s.nodes x).phase with
    | .broadcasting snapshot (id :: _) =>
      if x ∈ members then
        (s.act x (.sendBroadcast outcome)).map fun s' =>
          if outcome.sent then
            { s' with
              broadcastCalls := s.broadcastCalls ++
                [⟨id, (s.nodes x).electedMaster, snapshot, (s.nodes x).lock.isUbsmLockInit⟩] }
          else s'
      else none
    | _ => none
  | .deliverBroadcast m =>
    if m ∈ s.broadcastCalls ∧ m.dst ∈ members then
      s.act m.dst (.broadcast m.fromNodeId m.nodeList m.isServerInited)
    else none

end Cluster

/-! ### Steps outside elections -/

namespace ZenNode

/-- The node is a master, or on the way from temporary to elected master. -/
def Leading (n : ZenNode) : Prop :=
  n.state = .tempMaster ∨ n.state = .electedMaster ∨ n.Inviting

/-- A step that leaves the election alone and makes no node a temporary master. -/
structure Passive (n n' : ZenNode) : Prop where
  nodeId : n'.nodeId = n.nodeId
  minimumMasterNodes : n'.minimumMasterNodes = n.minimumMasterNodes
  currentTerm : n'.currentTerm = n.currentTerm
  voting : n'.voting = n.voting
  votesReceived : n'.votesReceived = n.votesReceived
  leading : n'.Leading → n.Leading
  inviting : (n.Inviting → n.state ≠ .masterCandidate) → n'.Inviting → n'.state ≠ .masterCandidate

variable {n n' : ZenNode}

theorem Passive.of_works (h : Works n n') : Passive n n' := by
  obtain ⟨nodes, joins, phase, hphase, rfl⟩ := h
  refine ⟨rfl, rfl, rfl, rfl, rfl, ?_, fun hold hinviting => hold (hphase.inviting hinviting)⟩
  rintro (hstate | hstate | hinviting)
  · exact .inl hstate
  · exact .inr (.inl hstate)
  · exact .inr (.inr (hphase.inviting hinviting))

theorem not_inviting_broadcastPhase (snapshot : NodeMap) (targets : List Name) :
    ¬ ∃ pending, broadcastPhase snapshot targets = .inviting pending := by
  rintro ⟨pending, h⟩
  cases targets <;> cases h

theorem passive_discover (hphase : n.phase = .idle) : Passive n n.discover := by
  have hidle : ¬ n.Inviting := by
    rintro ⟨pending, h⟩
    rw [hphase] at h
    cases h
  rcases discover_cases n with ⟨nodes, hstate, heq⟩ | ⟨hstate, heq⟩ | ⟨hstate, heq⟩ |
    ⟨nodes, targets, hstate, heq⟩ | ⟨master, hstate, heq⟩ | heq <;> rw [heq]
  · refine ⟨rfl, rfl, rfl, rfl, rfl, ?_, fun _ hinviting => absurd hinviting hidle⟩
    rintro (h | h | hinviting)
    · cases h
    · cases h
    · exact absurd hinviting hidle
  · refine ⟨rfl, rfl, rfl, rfl, rfl, fun _ => .inl hstate, fun _ _ hcandidate => ?_⟩
    exact absurd (hstate.symm.trans hcandidate) (by simp)
  · exact ⟨rfl, rfl, rfl, rfl, rfl, fun _ => .inr (.inl hstate),
      fun _ hinviting => absurd hinviting hidle⟩
  · exact ⟨rfl, rfl, rfl, rfl, rfl, fun _ => .inr (.inl hstate),
      fun _ hinviting => absurd hinviting (not_inviting_broadcastPhase nodes targets)⟩
  · refine ⟨rfl, rfl, rfl, rfl, rfl, ?_, fun _ hinviting => absurd hinviting hidle⟩
    rintro (h | h | hinviting)
    · cases h
    · cases h
    · exact absurd hinviting hidle
  · exact ⟨rfl, rfl, rfl, rfl, rfl, id, id⟩

theorem passive_checkElectionResult {timedOut : Bool}
    (hstep : n.step (.checkElectionResult timedOut) = some n') : Passive n n' := by
  obtain ⟨pending, hphase, hn'⟩ := step_checkElectionResult hstep
  have hinviting : n.Inviting := ⟨pending, hphase⟩
  rcases hn' with rfl | rfl | rfl
  · obtain ⟨es, nodes, -, heq⟩ := handleAllJoined_eq n
    refine ⟨rfl, rfl, rfl, rfl, rfl, fun _ => .inr (.inr hinviting), ?_⟩
    rintro - ⟨pending', h⟩
    cases h
  · refine ⟨rfl, rfl, rfl, rfl, rfl, fun _ => .inr (.inr hinviting), ?_⟩
    rintro - ⟨pending', h⟩
    cases h
  · exact ⟨rfl, rfl, rfl, rfl, rfl, id, id⟩

theorem passive_step {e : NodeEvent} (he : e.inElection = false) (hstep : n.step e = some n') :
    Passive n n' := by
  cases e with
  | start =>
    obtain ⟨hphase, rfl⟩ := step_start hstep
    refine ⟨rfl, rfl, rfl, rfl, rfl, ?_, ?_⟩
    · rintro (h | h | ⟨pending, h⟩) <;> cases h
    · rintro - ⟨pending, h⟩
      cases h
  | firstDiscovery =>
    obtain ⟨hphase, nodes, rfl⟩ := step_firstDiscovery hstep
    refine ⟨rfl, rfl, rfl, rfl, rfl, ?_, ?_⟩
    · rintro (h | h | ⟨pending, h⟩) <;> cases h
    · rintro - ⟨pending, h⟩
      cases h
  | discover =>
    obtain ⟨hphase, rfl⟩ := step_discover hstep
    exact passive_discover hphase
  | broadcast fromNodeId nodeList inited =>
    cases hstep
    obtain ⟨type, es, -, heq⟩ := handleBroadCastRequest_eq n fromNodeId nodeList inited
    rw [heq]
    refine ⟨rfl, rfl, rfl, rfl, rfl, ?_, fun _ _ => by simp⟩
    rintro (h | h | hinviting)
    · cases h
    · cases h
    · exact .inr (.inr hinviting)
  | checkElectionResult timedOut => exact passive_checkElectionResult hstep
  | handleEvent outcomes =>
    obtain ⟨p, queue, -, rfl⟩ := step_handleEvent hstep
    exact ⟨rfl, rfl, rfl, rfl, rfl, id, id⟩
  | clientReinit outcome =>
    cases hstep
    exact ⟨rfl, rfl, rfl, rfl, rfl, id, id⟩
  | pingRequest _ _ | joinRequest _ _ | pingResult _ _ _ | joinResult _ _ | leaveInvite
  | sendBroadcast _ => exact .of_works (works_step hstep rfl)
  | _ => cases he

end ZenNode

/-! ### The votes behind a master -/

namespace Cluster

/-- A majority of the members voted for the candidate in the term. -/
def Won (members : Finset Name) (s : Cluster) (candidate : Name) (term : Int) : Prop :=
  ∃ voters : Finset Name, voters ⊆ members ∧ members.card < 2 * voters.card ∧
    ∀ y ∈ voters, (term, candidate) ∈ s.votes y

/-- What holds of a node: it votes once in a term, the votes that it counts were given in
its term for the candidate of its election, and where it leads it has won its term. -/
structure NodeOk (members : Finset Name) (s : Cluster) (x : Name) (n : ZenNode) : Prop where
  nodeId : n.nodeId = x
  quorum : members.card < 2 * n.minimumMasterNodes
  bound : ∀ term c, (term, c) ∈ s.votes x → term ≤ n.currentTerm
  once : ∀ term c c', (term, c) ∈ s.votes x → (term, c') ∈ s.votes x → c = c'
  counted : ∀ v, n.voting = some v → n.votesReceived ⊆ members ∧
    ∀ y ∈ n.votesReceived, (n.currentTerm, v.tempMaster) ∈ s.votes y
  waited : ∀ v id, n.voting = some v → v.asked = some id →
    ∃ call r, s.asking x = some call ∧ s.voteCalls[call]? = some r ∧ r.dst = id ∧
      r.candidate = v.tempMaster ∧ r.term = n.currentTerm
  won : n.Leading → s.Won members x n.currentTerm
  inviting : n.Inviting → n.state ≠ .masterCandidate

/-- The invariant of a cluster. -/
structure Ok (members : Finset Name) (s : Cluster) : Prop where
  node : ∀ x ∈ members, NodeOk members s x (s.nodes x)
  replied : ∀ call r, s.voteCalls[call]? = some r → (call, true) ∈ s.voteReplies →
    r.dst ∈ members ∧ (r.term, r.candidate) ∈ s.votes r.dst
  numbered : ∀ call granted, (call, granted) ∈ s.voteReplies → call < s.voteCalls.length
  elected : ∀ m ∈ s.electedCalls, s.Won members m.dst m.term

variable {members : Finset Name} {s s' : Cluster} {x candidate : Name} {n n' : ZenNode} {call : Nat}
  {term : Int} {e : NodeEvent} {outcome : SendOutcome Unit}

/-- Messages and votes are only added. -/
structure Grows (s s' : Cluster) : Prop where
  votes : ∀ y, s.votes y ⊆ s'.votes y
  voteCalls : ∃ calls, s'.voteCalls = s.voteCalls ++ calls

theorem Grows.same (hvotes : s'.votes = s.votes) (hcalls : s'.voteCalls = s.voteCalls) :
    Grows s s' :=
  ⟨fun y => hvotes ▸ List.Subset.refl _, [], by rw [hcalls, append_nil]⟩

theorem Grows.getElem (h : Grows s s') {r : VoteCall} (hr : s.voteCalls[call]? = some r) :
    s'.voteCalls[call]? = some r := by
  obtain ⟨calls, heq⟩ := h.voteCalls
  have hlt : call < s.voteCalls.length := (List.getElem?_eq_some_iff.mp hr).1
  rw [heq, List.getElem?_append_left hlt, hr]

theorem Won.mono (h : s.Won members candidate term) (hgrows : ∀ y, s.votes y ⊆ s'.votes y) :
    s'.Won members candidate term := by
  obtain ⟨voters, hsub, hcard, hvotes⟩ := h
  exact ⟨voters, hsub, hcard, fun y hy => hgrows y (hvotes y hy)⟩

theorem Won.unique {c c' : Name} (h : s.Won members c term) (h' : s.Won members c' term)
    (honce : ∀ y ∈ members, (term, c) ∈ s.votes y → (term, c') ∈ s.votes y → c = c') : c = c' := by
  obtain ⟨voters, hsub, hcard, hvotes⟩ := h
  obtain ⟨voters', hsub', hcard', hvotes'⟩ := h'
  have hmeet : (voters ∩ voters').Nonempty := by
    by_contra hempty
    have hdisjoint : Disjoint voters voters' :=
      Finset.disjoint_iff_inter_eq_empty.mpr (Finset.not_nonempty_iff_eq_empty.mp hempty)
    have hunion := Finset.card_le_card (Finset.union_subset hsub hsub')
    rw [Finset.card_union_of_disjoint hdisjoint] at hunion
    omega
  obtain ⟨y, hy⟩ := hmeet
  obtain ⟨hy, hy'⟩ := Finset.mem_inter.mp hy
  exact honce y (hsub hy) (hvotes y hy) (hvotes' y hy')

theorem NodeOk.mono (h : NodeOk members s x n) (hgrows : Grows s s')
    (hvotes : s'.votes x = s.votes x) (hasking : s'.asking x = s.asking x) :
    NodeOk members s' x n where
  nodeId := h.nodeId
  quorum := h.quorum
  bound := hvotes ▸ h.bound
  once := hvotes ▸ h.once
  counted v hv := ⟨(h.counted v hv).1, fun y hy => hgrows.votes y ((h.counted v hv).2 y hy)⟩
  waited v id hv hid := by
    obtain ⟨call, r, hcall, hr, hrest⟩ := h.waited v id hv hid
    exact ⟨call, r, hasking.trans hcall, hgrows.getElem hr, hrest⟩
  won hleading := (h.won hleading).mono hgrows.votes
  inviting := h.inviting

theorem NodeOk.of_passive (h : NodeOk members s x n) (hpassive : n.Passive n') :
    NodeOk members s x n' where
  nodeId := hpassive.nodeId.trans h.nodeId
  quorum := hpassive.minimumMasterNodes ▸ h.quorum
  bound := hpassive.currentTerm ▸ h.bound
  once := h.once
  counted v hv := by
    rw [hpassive.votesReceived, hpassive.currentTerm]
    exact h.counted v (hpassive.voting.symm.trans hv)
  waited v id hv hid := by
    rw [hpassive.currentTerm]
    exact h.waited v id (hpassive.voting.symm.trans hv) hid
  won hleading := by
    rw [hpassive.currentTerm]
    exact h.won (hpassive.leading hleading)
  inviting := hpassive.inviting h.inviting

theorem Ok.update (h : Ok members s) (hgrows : Grows s s')
    (hnodes : s'.nodes = update s.nodes x n')
    (hvotes : ∀ y, y ≠ x → s'.votes y = s.votes y) (hasking : ∀ y, y ≠ x → s'.asking y = s.asking y)
    (hself : NodeOk members s' x n')
    (hreplied : ∀ call r, s'.voteCalls[call]? = some r → (call, true) ∈ s'.voteReplies →
      r.dst ∈ members ∧ (r.term, r.candidate) ∈ s'.votes r.dst)
    (hnumbered : ∀ call granted, (call, granted) ∈ s'.voteReplies → call < s'.voteCalls.length)
    (helected : ∀ m ∈ s'.electedCalls, s'.Won members m.dst m.term) : Ok members s' := by
  refine ⟨fun y hy => ?_, hreplied, hnumbered, helected⟩
  rw [hnodes]
  by_cases hyx : y = x
  · subst hyx
    rw [update_self]
    exact hself
  · rw [update_of_ne hyx]
    exact (h.node y hy).mono hgrows (hvotes y hyx) (hasking y hyx)

theorem Ok.set (h : Ok members s) (hself : NodeOk members s x n') :
    Ok members { s with nodes := Function.update s.nodes x n' } := by
  have hgrows : Grows s { s with nodes := Function.update s.nodes x n' } := .same rfl rfl
  exact h.update hgrows rfl (fun _ _ => rfl) (fun _ _ => rfl) (hself.mono hgrows rfl rfl)
    h.replied h.numbered h.elected

theorem act_eq (h : s.act x e = some s') :
    ∃ n', (s.nodes x).step e = some n' ∧ s' = { s with nodes := update s.nodes x n' } := by
  obtain ⟨n', hstep, rfl⟩ := Option.map_eq_some_iff.mp h
  exact ⟨n', hstep, rfl⟩

/-- **The condition on a run.**  A vote request that the receiver would grant finds it
without a vote for another candidate in that term; a request or an elected-master message
that raises the term finds no election running on the receiver, and a vote request that
raises it finds the receiver neither leading; the term does not overflow. -/
def Careful (s : Cluster) : ClusterEvent → Prop
  | .deliverVote call => ∀ r, s.voteCalls[call]? = some r →
      ((s.nodes r.dst).getSmallestNodeId = r.candidate →
        ∀ c, (r.term, c) ∈ s.votes r.dst → c = r.candidate) ∧
      ((s.nodes r.dst).currentTerm < r.term →
        ¬ (s.nodes r.dst).Leading ∧ (s.nodes r.dst).voting = none)
  | .deliverElected m => (s.nodes m.dst).currentTerm < m.term → (s.nodes m.dst).voting = none
  | .runElection x => (s.nodes x).currentTerm < 2 ^ 31 - 1 ∧ -(2 ^ 31) ≤ (s.nodes x).currentTerm
  | _ => True

theorem nextTerm_eq (hlow : -(2 ^ 31) ≤ term) (hhigh : term < 2 ^ 31 - 1) :
    nextTerm term = term + 1 := by
  unfold nextTerm
  rw [Int.bmod_eq_of_le] <;> omega

theorem grows_vote (s : Cluster) (x : Name) (term : Int) (candidate : Name) :
    ∀ y, s.votes y ⊆ (s.vote x term candidate).votes y := by
  intro y
  by_cases hy : y = x
  · subst hy
    show s.votes y ⊆ update s.votes y _ y
    rw [update_self]
    exact subset_cons_self _ _
  · show s.votes y ⊆ update s.votes x _ y
    rw [update_of_ne hy]
    exact List.Subset.refl _

theorem votes_vote_self (s : Cluster) (x : Name) (term : Int) (candidate : Name) :
    (s.vote x term candidate).votes x = (term, candidate) :: s.votes x := update_self ..

theorem NodeOk.setTerm (h : NodeOk members s x n) (hle : n.currentTerm ≤ term)
    (hvoting : n.voting = none) (hwon : n.Leading → s.Won members x term) :
    NodeOk members s x { n with currentTerm := term } where
  nodeId := h.nodeId
  quorum := h.quorum
  bound t c hc := (h.bound t c hc).trans hle
  once := h.once
  counted v hv := absurd (hvoting.symm.trans hv) (by simp)
  waited v id hv := absurd (hvoting.symm.trans hv) (by simp)
  won := hwon
  inviting := h.inviting

/-- The end of the first phase of an election: its own vote is the first in the new term. -/
theorem NodeOk.runElection (h : NodeOk members s x n) (hx : x ∈ members)
    (hcandidate : n.state = .masterCandidate) (hvoting : n.voting = none)
    (hterm : nextTerm n.currentTerm = n.currentTerm + 1) :
    n.runElection.voting = none ∧ NodeOk members s x n.runElection ∨
      ∃ v, n.runElection.voting = some v ∧
        NodeOk members (s.vote x n.runElection.currentTerm v.tempMaster) x n.runElection := by
  have hidle : ¬ n.Leading := by
    rintro (hstate | hstate | hinviting)
    · exact absurd (hcandidate.symm.trans hstate) (by simp)
    · exact absurd (hcandidate.symm.trans hstate) (by simp)
    · exact h.inviting hinviting hcandidate
  obtain ⟨es, -, heq | ⟨tempMaster, masterCandidates, toAsk, heq⟩⟩ := runElection_cases n
  · refine .inl ⟨by rw [heq]; exact hvoting, ?_⟩
    rw [heq]
    have hraised := h.setTerm (show n.currentTerm ≤ nextTerm n.currentTerm by omega) hvoting
      fun hleading => absurd hleading hidle
    exact { hraised with counted := fun v hv => absurd (hvoting.symm.trans hv) (by simp) }
  · refine .inr ⟨_, by rw [heq], ?_⟩
    have hcurrent : n.runElection.currentTerm = n.currentTerm + 1 := by
      rw [heq]
      exact hterm
    rw [hcurrent, heq]
    refine ⟨h.nodeId, h.quorum, fun term c hc => ?_, fun term c c' hc hc' => ?_,
      fun v hv => ?_, fun v id hv hid => ?_, fun hleading => absurd hleading hidle, h.inviting⟩
    · show term ≤ nextTerm n.currentTerm
      rw [votes_vote_self] at hc
      rcases mem_cons.mp hc with hc | hc
      · cases hc
        omega
      · have hbound := h.bound term c hc
        omega
    · -- votes that were given before are of earlier terms
      rw [votes_vote_self] at hc hc'
      rcases mem_cons.mp hc with hc | hc <;> rcases mem_cons.mp hc' with hc' | hc'
      · cases hc
        cases hc'
        rfl
      · cases hc
        have hbound := h.bound _ _ hc'
        omega
      · cases hc'
        have hbound := h.bound _ _ hc
        omega
      · exact h.once term c c' hc hc'
    · cases hv
      refine ⟨Finset.singleton_subset_iff.mpr (h.nodeId ▸ hx), fun y hy => ?_⟩
      rw [Finset.mem_singleton.mp hy, h.nodeId, votes_vote_self]
      rw [hterm]
      exact mem_cons_self
    · cases hv
      cases hid

theorem Ok.runElection (h : Ok members s) (hallow : s.Careful (.runElection x))
    (hstep : s.step members (.runElection x) = some s') : Ok members s' := by
  simp only [step] at hstep
  split_ifs at hstep with hx
  obtain ⟨s₁, hact, rfl⟩ := Option.map_eq_some_iff.mp hstep
  obtain ⟨n', hnode, rfl⟩ := act_eq hact
  obtain ⟨hcandidate, hvoting, rfl⟩ := step_runElection hnode
  have hterm := nextTerm_eq hallow.2 hallow.1
  unfold ownVote
  dsimp only
  rw [update_self]
  rcases (h.node x hx).runElection hx hcandidate hvoting hterm with ⟨hnone, hok⟩ | ⟨v, hv, hok⟩
  · rw [hnone]
    exact h.set hok
  · rw [hv]
    have hvotes := grows_vote s x (s.nodes x).runElection.currentTerm v.tempMaster
    refine h.update ⟨hvotes, [], (append_nil _).symm⟩ rfl (fun y hy => update_of_ne hy _ _) (fun _ _
      => rfl) ?_ (fun call r hr hreply => ?_) h.numbered fun m hm => (h.elected m hm).mono hvotes
    · exact hok.mono (.same rfl rfl) rfl rfl
    · obtain ⟨hmember, hvote⟩ := h.replied call r hr hreply
      exact ⟨hmember, hvotes r.dst hvote⟩

theorem Ok.sendVoteRequest (h : Ok members s)
    (hstep : s.step members (.sendVoteRequest x) = some s') : Ok members s' := by
  simp only [step] at hstep
  split at hstep
  · rename_i tempMaster masterCandidates id toAsk hvoting
    split_ifs at hstep with hx
    obtain ⟨s₁, hact, rfl⟩ := Option.map_eq_some_iff.mp hstep
    obtain ⟨n', hnode, rfl⟩ := act_eq hact
    obtain ⟨tempMaster', masterCandidates', id', toAsk', hvoting', rfl⟩ :=
      step_sendVoteRequest hnode
    cases hvoting.symm.trans hvoting'
    have hok := h.node x hx
    refine h.update ⟨fun _ => List.Subset.refl _, _, rfl⟩ rfl (fun _ _ => rfl) (fun y hy =>
      update_of_ne hy _ _) { hok with counted := fun v hv => ?_, waited := fun v id hv hid => ?_ }
      (fun call r hr hreply => ?_) (fun call granted hreply => ?_) h.elected
    · cases hv
      have hcounted := hok.counted _ hvoting
      exact hcounted
    · cases hv
      cases hid
      exact ⟨s.voteCalls.length, _, update_self .., List.getElem?_concat_length, rfl, rfl, rfl⟩
    · have hlt := h.numbered call true hreply
      have hold : s.voteCalls[call]? = some r := by
        rw [← hr]
        exact (List.getElem?_append_left hlt).symm
      exact h.replied call r hold hreply
    · have hlt := h.numbered call granted hreply
      rw [length_append]
      omega
  · cases hstep

theorem NodeOk.raiseTerm (h : NodeOk members s x n)
    (hfree : n.currentTerm < term → ¬ n.Leading ∧ n.voting = none) :
    NodeOk members s x (n.raiseTerm term) := by
  by_cases hlt : n.currentTerm < term
  · obtain ⟨hidle, hvoting⟩ := hfree hlt
    rw [ZenNode.raiseTerm, if_pos hlt]
    exact h.setTerm hlt.le hvoting fun hleading => absurd hleading hidle
  · rw [ZenNode.raiseTerm, if_neg hlt]
    exact h

/-- A vote in a term that is not ahead of the node, for the only candidate it votes for. -/
theorem NodeOk.vote (h : NodeOk members s x n) (hterm : term ≤ n.currentTerm)
    (honly : ∀ c, (term, c) ∈ s.votes x → c = candidate) :
    NodeOk members (s.vote x term candidate) x n := by
  have hvotes := grows_vote s x term candidate
  refine { h with
    bound := fun t c hc => ?_
    once := fun t c c' hc hc' => ?_
    counted := fun v hv => ⟨(h.counted v hv).1, fun y hy => hvotes y ((h.counted v hv).2 y hy)⟩
    won := fun hleading => (h.won hleading).mono hvotes }
  · rw [votes_vote_self] at hc
    rcases mem_cons.mp hc with hc | hc
    · cases hc
      exact hterm
    · exact h.bound t c hc
  · rw [votes_vote_self] at hc hc'
    rcases mem_cons.mp hc with hc | hc <;> rcases mem_cons.mp hc' with hc' | hc'
    · cases hc
      cases hc'
      rfl
    · cases hc
      exact (honly c' hc').symm
    · cases hc'
      exact honly c hc
    · exact h.once t c c' hc hc'

theorem le_raiseTerm (n : ZenNode) (term : Int) : term ≤ (n.raiseTerm term).currentTerm := by
  rw [raiseTerm_eq]
  exact le_max_right _ _

theorem Ok.deliverVote (h : Ok members s) (hallow : s.Careful (.deliverVote call))
    (hstep : s.step members (.deliverVote call) = some s') : Ok members s' := by
  obtain ⟨r, hr, hstep⟩ := Option.bind_eq_some_iff.mp hstep
  obtain ⟨honly, hfree⟩ := hallow r hr
  split at hstep
  case isFalse => cases hstep
  rename_i hdst
  obtain ⟨s₁, hact, hs'⟩ := Option.map_eq_some_iff.mp hstep
  obtain ⟨n', hnode, rfl⟩ := act_eq hact
  obtain rfl : (s.nodes r.dst).raiseTerm r.term = n' := Option.some.inj hnode
  have hlt : call < s.voteCalls.length := (List.getElem?_eq_some_iff.mp hr).1
  have hraised := (h.node r.dst hdst).raiseTerm hfree
  have hnumbered : ∀ granted call' granted', (call', granted') ∈ (call, granted) :: s.voteReplies →
      call' < s.voteCalls.length := by
    intro granted call' granted' hreply
    rcases mem_cons.mp hreply with hreply | hreply
    · cases hreply
      exact hlt
    · exact h.numbered call' granted' hreply
  split_ifs at hs' with hgranted
  · -- the vote is recorded before the reply
    have hsmallest : (s.nodes r.dst).getSmallestNodeId = r.candidate := of_decide_eq_true hgranted
    have hvotes := grows_vote s r.dst r.term r.candidate
    have hvoted := hraised.vote (le_raiseTerm _ _) (honly hsmallest)
    subst hs'
    refine h.update ⟨hvotes, [], (append_nil _).symm⟩ rfl
      (fun y hy => update_of_ne hy _ _) (fun _ _ => rfl) ?_ (fun call' r' hr' hreply => ?_)
      (hnumbered true) fun m hm => (h.elected m hm).mono hvotes
    · exact hvoted.mono (.same rfl rfl) rfl rfl
    · rcases mem_cons.mp hreply with hreply | hreply
      · cases hreply
        cases hr.symm.trans hr'
        refine ⟨hdst, ?_⟩
        rw [votes_vote_self]
        exact mem_cons_self
      · obtain ⟨hmember, hvote⟩ := h.replied call' r' hr' hreply
        exact ⟨hmember, hvotes r'.dst hvote⟩
  · subst hs'
    refine h.update (.same rfl rfl) rfl
      (fun _ _ => rfl) (fun _ _ => rfl) ?_ (fun call' r' hr' hreply => ?_) (hnumbered false)
      h.elected
    · exact hraised.mono (.same rfl rfl) rfl rfl
    · rcases mem_cons.mp hreply with hreply | hreply
      · cases hreply
      · exact h.replied call' r' hr' hreply

theorem Ok.voteReply (h : Ok members s) {granted : Bool}
    (hstep : s.step members (.voteReply x granted) = some s') : Ok members s' := by
  obtain ⟨call, hasking, hstep⟩ := Option.bind_eq_some_iff.mp hstep
  split_ifs at hstep with hreply
  obtain ⟨hx, hreply⟩ := hreply
  obtain ⟨n', hnode, rfl⟩ := act_eq hstep
  obtain ⟨tempMaster, masterCandidates, toAsk, id, hvoting, rfl⟩ := step_voteResult hnode
  have hok := h.node x hx
  obtain ⟨call', r, hasking', hr, rfl, hcandidate, hterm⟩ := hok.waited _ _ hvoting rfl
  cases hasking.symm.trans hasking'
  have hcounted := hok.counted _ hvoting
  refine h.set ?_
  rcases handleVoteResponse_cases (s.nodes x) r.dst (.answered granted) with
    ⟨hanswered, heq⟩ | ⟨-, nodes, joins, heq⟩ <;> rw [heq]
  · -- the vote that is counted was given for this call
    cases hanswered
    obtain ⟨hmember, hvote⟩ := h.replied call r hr hreply
    rw [hcandidate, hterm] at hvote
    refine { hok with counted := fun v hv => ?_, waited := fun v id hv hid => ?_ }
    · cases hv
      refine ⟨Finset.insert_subset hmember hcounted.1, fun y hy => ?_⟩
      rcases Finset.mem_insert.mp hy with rfl | hy
      · exact hvote
      · exact hcounted.2 y hy
    · cases hv
      cases hid
  · refine { hok with counted := fun v hv => ?_, waited := fun v id hv hid => ?_ }
    · cases hv
      exact hcounted
    · cases hv
      cases hid

theorem Ok.voteLost (h : Ok members s) {outcome : SendOutcome Bool}
    (hstep : s.step members (.voteLost x outcome) = some s') : Ok members s' := by
  simp only [step] at hstep
  split_ifs at hstep with hlost
  obtain ⟨hx, hlost⟩ := hlost
  obtain ⟨n', hnode, rfl⟩ := act_eq hstep
  obtain ⟨tempMaster, masterCandidates, toAsk, id, hvoting, rfl⟩ := step_voteResult hnode
  have hok := h.node x hx
  have hcounted := hok.counted _ hvoting
  refine h.set ?_
  rcases handleVoteResponse_cases (s.nodes x) id outcome with ⟨rfl, -⟩ | ⟨-, nodes, joins, heq⟩
  · cases hlost
  · rw [heq]
    refine { hok with counted := fun v hv => ?_, waited := fun v id hv hid => ?_ }
    · cases hv
      exact hcounted
    · cases hv
      cases hid

section

variable (h : NodeOk members s x n) {timedOut : Bool} {outcome : SendOutcome Unit}

include h

/-- Enough counted votes win the term for the candidate of the election. -/
theorem NodeOk.won_of_counted {v : Voting} (hv : n.voting = some v)
    (henough : n.minimumMasterNodes ≤ n.votesReceived.card) :
    s.Won members v.tempMaster n.currentTerm := by
  obtain ⟨hsub, hvotes⟩ := h.counted v hv
  have hquorum := h.quorum
  exact ⟨n.votesReceived, hsub, by omega, hvotes⟩

theorem NodeOk.becomeTempMaster (hwon : s.Won members x n.currentTerm) (candidates : List Name) :
    NodeOk members s x (n.becomeTempMaster candidates) := by
  rcases becomeTempMaster_cases n candidates with ⟨-, heq⟩ | ⟨-, heq⟩ <;> rw [heq]
  · exact h
  · exact { h with won := fun _ => hwon, inviting := fun _ => by simp }

theorem NodeOk.endElection : NodeOk members s x { n with voting := none } :=
  { h with counted := fun _ hv => absurd hv (by simp), waited := fun _ _ hv => absurd hv (by simp) }

theorem NodeOk.pollVotes (hstep : n.step (.pollVotes timedOut outcome) = some n') :
    NodeOk members s x n' := by
  obtain ⟨v, hv, rfl | ⟨henough, rfl⟩ | rfl⟩ := step_pollVotes hstep
  · exact h.endElection
  · have hwon := h.won_of_counted hv henough
    have hcompleted : NodeOk members s x (n.notifyListeners .votingCompleted [] []) :=
      h.of_passive ⟨rfl, rfl, rfl, rfl, rfl, id, id⟩
    rcases processVotingResults_cases n v outcome henough with ⟨-, htables⟩ | ⟨hself, heq⟩
    · exact (hcompleted.of_passive (.of_works (.of_tables htables))).endElection
    · rw [hself, h.nodeId] at hwon
      rw [heq]
      exact (hcompleted.becomeTempMaster hwon v.masterCandidates).endElection
  · exact h

theorem NodeOk.electedCall {m : ElectedCall} (hm : m ∈ electedCall n timedOut outcome) :
    s.Won members m.dst m.term := by
  unfold Cluster.electedCall at hm
  split at hm
  · rename_i v hv
    split_ifs at hm with hsent
    · rw [mem_singleton.mp hm]
      exact h.won_of_counted hv hsent.2.1
    · cases hm
  · cases hm

end

theorem Ok.pollVotes (h : Ok members s) {timedOut : Bool}
    (hstep : s.step members (.pollVotes x timedOut outcome) = some s') : Ok members s' := by
  simp only [step] at hstep
  split_ifs at hstep with hx
  obtain ⟨s₁, hact, rfl⟩ := Option.map_eq_some_iff.mp hstep
  obtain ⟨n', hnode, rfl⟩ := act_eq hact
  have hok := h.node x hx
  refine h.update (.same rfl rfl) rfl (fun _ _ => rfl)
    (fun _ _ => rfl) ?_ h.replied h.numbered fun m hm => ?_
  · exact (hok.pollVotes hnode).mono (.same rfl rfl) rfl rfl
  · rcases mem_append.mp hm with hm | hm
    · exact h.elected m hm
    · exact hok.electedCall hm

theorem Ok.deliverElected (h : Ok members s) {m : ElectedCall}
    (hallow : s.Careful (.deliverElected m))
    (hstep : s.step members (.deliverElected m) = some s') : Ok members s' := by
  simp only [step] at hstep
  split_ifs at hstep with hm
  obtain ⟨hm, hdst⟩ := hm
  obtain ⟨n', hnode, rfl⟩ := act_eq hstep
  obtain rfl : (s.nodes m.dst).handleSendTransElected m.nodeList m.term = n' :=
    Option.some.inj hnode
  have hok := h.node m.dst hdst
  have hwon := h.elected m hm
  refine h.set ?_
  unfold ZenNode.handleSendTransElected
  split
  · exact hok
  · rename_i hterm
    refine NodeOk.becomeTempMaster ?_ ?_ m.nodeList
    · by_cases hlt : (s.nodes m.dst).currentTerm < m.term
      · -- the message raises the term to one that the node has won
        rw [ZenNode.raiseTerm, if_pos hlt]
        exact hok.setTerm hlt.le (hallow hlt) fun _ => hwon
      · rw [ZenNode.raiseTerm, if_neg hlt]
        exact hok
    · rw [raiseTerm_eq]
      rw [max_eq_right (by omega)]
      exact hwon

theorem Ok.passive (h : Ok members s) (hx : x ∈ members) (he : e.inElection = false)
    (hact : s.act x e = some s') : Ok members s' := by
  obtain ⟨n', hnode, rfl⟩ := act_eq hact
  exact h.set ((h.node x hx).of_passive (passive_step he hnode))

theorem Ok.sendBroadcast (h : Ok members s)
    (hstep : s.step members (.sendBroadcast x outcome) = some s') : Ok members s' := by
  simp only [step] at hstep
  split at hstep
  · rename_i snapshot id targets hphase
    by_cases hx : x ∈ members
    · rw [if_pos hx] at hstep
      obtain ⟨s₁, hact, rfl⟩ := Option.map_eq_some_iff.mp hstep
      have hok := h.passive hx rfl hact
      split_ifs
      · refine { hok with node := fun y hy => ?_ }
        exact (hok.node y hy).mono (.same rfl rfl) rfl rfl
      · exact hok
    · rw [if_neg hx] at hstep
      cases hstep
  · cases hstep

theorem isLocal_inElection (h : e.isLocal = true) : e.inElection = false := by
  cases e <;> first | rfl | cases h

/-- **The invariant is kept by every event that meets the condition.** -/
theorem Ok.step (h : Ok members s) {e : ClusterEvent} (hallow : s.Careful e)
    (hstep : s.step members e = some s') : Ok members s' := by
  cases e with
  | work x e =>
    simp only [Cluster.step] at hstep
    split_ifs at hstep with hlocal
    exact h.passive hlocal.1 (isLocal_inElection hlocal.2) hstep
  | runElection x => exact h.runElection hallow hstep
  | sendVoteRequest x => exact h.sendVoteRequest hstep
  | deliverVote call => exact h.deliverVote hallow hstep
  | voteReply x granted => exact h.voteReply hstep
  | voteLost x outcome => exact h.voteLost hstep
  | pollVotes x timedOut outcome => exact h.pollVotes hstep
  | deliverElected m => exact h.deliverElected hallow hstep
  | sendBroadcast x outcome => exact h.sendBroadcast hstep
  | deliverBroadcast m =>
    simp only [Cluster.step] at hstep
    split_ifs at hstep with hm
    exact h.passive hm.2 rfl hstep

/-- The cluster before any node is started. -/
def start (minimumMasterNodes : Name → Nat) (configured : List Name) : Cluster where
  nodes x := .beforeStart x (minimumMasterNodes x) configured
  voteCalls := []
  voteReplies := []
  asking _ := none
  electedCalls := []
  broadcastCalls := []
  votes _ := []

theorem ok_start {minimumMasterNodes : Name → Nat} (configured : List Name)
    (hmajority : ∀ x ∈ members, members.card < 2 * minimumMasterNodes x) :
    Ok members (start minimumMasterNodes configured) := by
  refine ⟨fun x hx => ⟨rfl, hmajority x hx, ?_, ?_, ?_, ?_, ?_, ?_⟩, ?_, ?_, ?_⟩
  · rintro term c ⟨⟩
  · rintro term c c' ⟨⟩
  · rintro v ⟨⟩
  · rintro v id ⟨⟩
  · rintro (h | h | ⟨pending, h⟩) <;> cases h
  · rintro ⟨pending, h⟩
    cases h
  · rintro call r hr ⟨⟩
  · rintro call granted ⟨⟩
  · rintro m ⟨⟩

/-- **Elected-master messages agree**: those of a term are for one node, and no other leads in
it. -/
theorem elected_calls_agree {quorum : Name → Nat} {configured : List Name}
    (hmajority : ∀ x ∈ members, members.card < 2 * quorum x)
    (h : Reaches (step members) Careful (start quorum configured) s) {m : ElectedCall}
    (hm : m ∈ s.electedCalls) : (∀ m' ∈ s.electedCalls, m'.term = m.term → m'.dst = m.dst) ∧
      ∀ x ∈ members, (s.nodes x).Leading → (s.nodes x).currentTerm = m.term → x = m.dst := by
  have hok : Ok members s := h.invariant (ok_start configured hmajority)
    fun _ _ _ hs hallow hstep => hs.step hallow hstep
  have hone : ∀ c, s.Won members c m.term → c = m.dst := fun c hc =>
    hc.unique (hok.elected m hm) fun z hz => (hok.node z hz).once _ c m.dst
  exact ⟨fun m' hm' hterm => hone _ (hterm ▸ hok.elected m' hm'),
    fun x hx hlead hterm => hone x (hterm ▸ (hok.node x hx).won hlead)⟩

end Cluster

/-- **One master in a term.**  In a cluster whose nodes all need a majority, and in a run in
which every vote is given for one candidate in a term and no term is raised under a leading
node or a running election, two nodes that are elected masters of one term are the same. -/
theorem one_master_per_term {members : Finset Name} {minimumMasterNodes : Name → Nat}
    {configured : List Name} {s : Cluster}
    (hmajority : ∀ x ∈ members, members.card < 2 * minimumMasterNodes x)
    (h : Reaches (Cluster.step members) Cluster.Careful
      (Cluster.start minimumMasterNodes configured) s)
    {x y : Name} (hx : x ∈ members) (hy : y ∈ members)
    (hmasterx : (s.nodes x).state = .electedMaster) (hmastery : (s.nodes y).state = .electedMaster)
    (hterm : (s.nodes x).currentTerm = (s.nodes y).currentTerm) : x = y := by
  have hok : Cluster.Ok members s := h.invariant (Cluster.ok_start configured hmajority)
    fun _ _ _ hs hallow hstep => hs.step hallow hstep
  have hwonx := (hok.node x hx).won (.inr (.inl hmasterx))
  have hwony := (hok.node y hy).won (.inr (.inl hmastery))
  rw [← hterm] at hwony
  exact hwonx.unique hwony fun z hz => (hok.node z hz).once _ x y

/-- Three nodes that need two votes. -/
def trio : Finset Name := {[49], [50], [51]}

def trioStart : Cluster := .start (fun _ => 2) [[49], [50], [51]]

/-- The first node is elected in term 1 with the vote of the second; the third is started
later, and hears nothing. -/
def electFirstOfTrio : List ClusterEvent :=
  [.work [49] .start, .work [49] .firstDiscovery, .work [50] .start, .work [50] .firstDiscovery,
    .runElection [49], .sendVoteRequest [49], .deliverVote 0, .voteReply [49] true,
    .sendVoteRequest [49], .voteLost [49] .notAnswered, .pollVotes [49] false .notAnswered,
    .work [49] .discover, .work [49] (.joinResult [50] (.answered .eligibleNode)),
    .work [49] (.checkElectionResult true)]

/-- A request is delivered to a node that has given its votes to the candidate only and that
is behind only where it neither leads nor votes, an elected-master message to one that runs
no election, and the terms are small. -/
def harmless (s : Cluster) : ClusterEvent → Bool
  | .deliverVote call =>
    s.voteCalls[call]?.all fun r =>
      decide ((∀ vote ∈ s.votes r.dst, vote.2 = r.candidate) ∧
        (r.term ≤ (s.nodes r.dst).currentTerm ∨ (s.nodes r.dst).state = .masterCandidate ∧
          (s.nodes r.dst).phase = .idle ∧ (s.nodes r.dst).voting = none))
  | .deliverElected m => decide ((s.nodes m.dst).voting = none)
  | .runElection x => decide ((s.nodes x).currentTerm < 10 ∧ 0 ≤ (s.nodes x).currentTerm)
  | _ => true

theorem careful_of_harmless (s : Cluster) (e : ClusterEvent) (h : harmless s e = true) :
    s.Careful e := by
  cases e with
  | deliverVote call =>
    intro r hr
    rw [harmless, hr, Option.all_some] at h
    obtain ⟨hvotes, hbehind⟩ := of_decide_eq_true h
    refine ⟨fun _ c hc => hvotes _ hc, fun hlt => ?_⟩
    obtain ⟨hstate, hphase, hvoting⟩ := hbehind.resolve_left (not_le.mpr hlt)
    refine ⟨?_, hvoting⟩
    rintro (hlead | hlead | ⟨pending, hlead⟩)
    · exact absurd (hstate.symm.trans hlead) (by simp)
    · exact absurd (hstate.symm.trans hlead) (by simp)
    · exact absurd (hphase.symm.trans hlead) (by simp)
  | deliverElected m => exact fun _ => of_decide_eq_true h
  | runElection x =>
    obtain ⟨hhigh, hlow⟩ := of_decide_eq_true h
    exact ⟨by omega, by omega⟩
  | _ => trivial

/-- The cluster after the election of the first node. -/
def trioElected : Cluster :=
  (execute (Cluster.step trio) harmless trioStart electFirstOfTrio).getD trioStart

theorem one_master_per_term_elected :
    (trioElected.nodes [49]).state = .electedMaster ∧
      ∀ y ∈ trio, (trioElected.nodes y).state = .electedMaster →
        (trioElected.nodes [49]).currentTerm = (trioElected.nodes y).currentTerm → [49] = y := by
  have hexec : execute (Cluster.step trio) harmless trioStart electFirstOfTrio =
      some trioElected := rfl
  have hreach := Reaches.of_execute careful_of_harmless .refl hexec
  refine ⟨rfl, fun y hy hmaster hterm => ?_⟩
  exact one_master_per_term (fun _ _ => by decide) hreach (by decide) hy rfl hmaster hterm

/-- The second and the third node each run an election in term 1 that the first node wins; the
first node gets the message of the second. -/
def electFirstTwice : List ClusterEvent :=
  electFirstOfTrio.take 4 ++
    [.work [51] .start, .work [51] .firstDiscovery, .runElection [50], .sendVoteRequest [50],
      .deliverVote 0, .voteReply [50] true, .sendVoteRequest [50], .voteLost [50] .notAnswered,
      .pollVotes [50] false (.answered ()), .work [51] (.pingResult [50] false .eligibleNode),
      .runElection [51], .sendVoteRequest [51], .deliverVote 2, .voteReply [51] true,
      .pollVotes [51] false (.answered ()), .deliverElected ⟨[49], [[49], [50], [51]], 1⟩]

theorem elected_calls_agree_first : ∃ s : Cluster,
    s.electedCalls = [⟨[49], [[49], [50], [51]], 1⟩, ⟨[49], [[49], [51]], 1⟩] ∧
    (s.nodes [49]).state = .tempMaster ∧
    ∀ x ∈ trio, (s.nodes x).Leading → (s.nodes x).currentTerm = 1 → x = [49] := by
  obtain ⟨s, hexec, hcalls, hstate⟩ : ∃ s,
      execute (Cluster.step trio) harmless trioStart electFirstTwice = some s ∧
      s.electedCalls = [⟨[49], [[49], [50], [51]], 1⟩, ⟨[49], [[49], [51]], 1⟩] ∧
      (s.nodes [49]).state = .tempMaster := ⟨_, rfl, rfl, rfl⟩
  refine ⟨s, hcalls, hstate, ?_⟩
  have hreach := Reaches.of_execute careful_of_harmless .refl hexec
  exact (Cluster.elected_calls_agree (fun _ _ => by decide) hreach (hcalls ▸ mem_cons_self)).2

/-- The second and the third node take the first one for dead.  The third asks the second
to vote for itself, in its own term 1, in which the second has voted for the first. -/
def electSecondOfTrio : List ClusterEvent :=
  [.work [50] (.pingResult [49] false .eligibleNode), .work [51] .start,
    .work [51] .firstDiscovery, .work [51] (.pingResult [49] false .eligibleNode),
    .runElection [51], .sendVoteRequest [51], .deliverVote 2, .voteReply [51] true,
    .pollVotes [51] false (.answered ()), .deliverElected ⟨[50], [[50], [51]], 1⟩,
    .work [50] .discover, .work [50] (.joinResult [51] (.answered .eligibleNode)),
    .work [50] (.checkElectionResult false)]

/-- The cluster after both elections. -/
def trioTwice : Cluster :=
  (execute (Cluster.step trio) (fun _ _ => true) trioStart
    (electFirstOfTrio ++ electSecondOfTrio)).getD trioStart

/-- **Two masters in one term.** -/
theorem two_masters_in_term :
    (∀ x ∈ trio, trio.card < 2 * (trioStart.nodes x).minimumMasterNodes) ∧
      Reaches (Cluster.step trio) (fun _ _ => True) trioStart trioTwice ∧
      (trioTwice.nodes [49]).state = .electedMaster ∧ (trioTwice.nodes [49]).currentTerm = 1 ∧
      (trioTwice.nodes [50]).state = .electedMaster ∧ (trioTwice.nodes [50]).currentTerm = 1 := by
  have hexec : execute (Cluster.step trio) (fun _ _ => true) trioStart
      (electFirstOfTrio ++ electSecondOfTrio) = some trioTwice := rfl
  have hmajority : trio.card < 2 * 2 := by decide
  exact ⟨fun _ _ => hmajority, Reaches.of_execute (fun _ _ _ => trivial) .refl hexec, rfl, rfl, rfl,
    rfl⟩

end UbsMem
