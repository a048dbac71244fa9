import UbsMem.DLockServer
import UbsMem.StdSet
import Mathlib.Data.Finset.Basic
import Mathlib.Data.Finset.Card

/-! # Discovery and election of the master

`ZenDiscovery` and `ElectionModule` of one node.  A handler of a received message is one
step, and so is what a thread does between two waits.  The loops that wait for other nodes
are cut at their waits: the election thread while it asks for votes (`Voting`), and the
discovery thread while it invites nodes and while it sends broadcasts (`DiscoveryPhase`).
Time stamps and addresses of the nodes are left out, nothing reads them.
-/
namespace UbsMem

inductive NodeState
  | uninitialized
  | initial
  | joiningMaster
  | joinedCluster
  | masterCandidate
  | tempMaster
  | electedMaster
  deriving DecidableEq, Repr

inductive NodeType
  | eligibleNode
  | votingOnlyNode
  deriving DecidableEq, Repr

/-- `rpc::ClusterNode`, the fields that discovery reads. -/
structure NodeEntry where
  id : Name
  isMaster : Bool
  isActive : Bool
  type : NodeType
  deriving DecidableEq, Repr

/-- `std::map<std::string, ClusterNode>`, in the order of the keys. -/
abbrev NodeMap := List (Name × NodeEntry)

def findNode (id : Name) (nodes : NodeMap) : Option NodeEntry :=
  nodes.lookup id

/-- Assign to the entry of a key, which is inserted when it is not there. -/
def setNode (id : Name) (node : NodeEntry) : NodeMap → NodeMap
  | [] => [(id, node)]
  | (key, old) :: rest =>
    if key = id then (id, node) :: rest
    else if id < key then (id, node) :: (key, old) :: rest
    else (key, old) :: setNode id node rest

/-- Change the entry of a key, if there is one. -/
def modifyNode (id : Name) (f : NodeEntry → NodeEntry) (nodes : NodeMap) : NodeMap :=
  nodes.map fun entry => if entry.1 = id then (entry.1, f entry.2) else entry

/-- `std::set<std::string>::insert`. -/
def insertId (id : Name) (ids : List Name) : List Name :=
  setInsert (fun x y => decide (x < y)) id ids

/-- `*std::min_element`. -/
def minElement : List Name → Name
  | [] => []
  | id :: ids => ids.foldl (fun least x => if x < least then x else least) id

/-- What `RunElection` holds while it asks for votes: whom it still has to ask, and whose
answer it waits for. -/
structure Voting where
  tempMaster : Name
  masterCandidates : List Name
  toAsk : List Name
  asked : Option Name
  deriving DecidableEq, Repr

/-- Where the discovery thread stands. -/
inductive DiscoveryPhase
  /-- `Start` was not called. -/
  | stopped
  /-- The thread of the first ping has not discovered the nodes. -/
  | firstPing
  | idle
  /-- In the loop of `InviteNodesToJoin`; invitations without an answer. -/
  | inviting (pending : List Name)
  /-- The loop is left, and its invitations are waited for. -/
  | leaving (pending : List Name)
  /-- In the loop of `MaintainAsMaster` that sends broadcasts. -/
  | broadcasting (snapshot : NodeMap) (targets : List Name)
  deriving DecidableEq, Repr

/-- A node: its configuration, the members of `ZenDiscovery` and `ElectionModule`, and the
lock module that listens to it. -/
structure ZenNode where
  nodeId : Name
  minimumMasterNodes : Nat
  /-- The ids in `NetRpcConfig`, this node's among them. -/
  configured : List Name
  state : NodeState
  type : NodeType
  electedMaster : Name
  tempNodeList : List Name
  nodes : NodeMap
  phase : DiscoveryPhase
  currentTerm : Int
  /-- `electionInProgress_`, with the variables of the election. -/
  voting : Option Voting
  votesReceived : Finset Name
  joinsReceived : Finset Name
  listenerQueue : List ListenerParam
  lock : LockService Unit

/-- How a request to another node went. -/
inductive SendOutcome (R : Type)
  /-- The node id is not configured. -/
  | unknownNode
  /-- No connection; the type that a new entry of the node table is left with. -/
  | notConnected (fresh : NodeType)
  /-- The request was not answered. -/
  | notAnswered
  | answered (reply : R)
  deriving DecidableEq, Repr

structure NodeCollections where
  activeMasters : List Name
  masterCandidates : List Name
  voteOnlyNode : Name
  deriving DecidableEq, Repr

/-- The increment of the term, a 32-bit atomic. -/
def nextTerm (term : Int) : Int := Int.bmod (term + 1) (2 ^ 32)

namespace ZenNode

/-- A node before `Start`. -/
def beforeStart (nodeId : Name) (minimumMasterNodes : Nat) (configured : List Name) : ZenNode where
  nodeId := nodeId
  minimumMasterNodes := minimumMasterNodes
  configured := configured
  state := .uninitialized
  type := .eligibleNode
  electedMaster := []
  tempNodeList := []
  nodes := []
  phase := .stopped
  currentTerm := 0
  voting := none
  votesReceived := ∅
  joinsReceived := ∅
  listenerQueue := []
  lock := .initial ()

def notifyListeners (n : ZenNode) (event : ZenElectionEventType) (masterId voteOnlyId : Name) :
    ZenNode :=
  { n with listenerQueue := n.listenerQueue ++ [⟨event, masterId, voteOnlyId⟩] }

/-- `UpdateNodeLastSeen`: a new entry has no type assigned, `fresh` is what it happens to
be. -/
def updateNodeLastSeen (n : ZenNode) (id : Name) (fresh : NodeType) : ZenNode :=
  match findNode id n.nodes with
  | some _ => n
  | none => { n with nodes := setNode id ⟨id, false, true, fresh⟩ n.nodes }

def markNodeActive (n : ZenNode) (id : Name) (active : Bool) : ZenNode :=
  { n with nodes := modifyNode id (fun node => { node with isActive := active }) n.nodes }

/-- `HandlePingRequest`, `HandlePingResponse`. -/
def handlePingRequest (n : ZenNode) (fromNodeId : Name) (fresh : NodeType) : ZenNode :=
  (n.updateNodeLastSeen fromNodeId fresh).markNodeActive fromNodeId true

def handleJoinRequest (n : ZenNode) (fromNodeId : Name) (fresh : NodeType) : NodeType × ZenNode :=
  (n.type, (n.updateNodeLastSeen fromNodeId fresh).markNodeActive fromNodeId true)

def getSmallestNodeId (n : ZenNode) : Name :=
  n.nodes.foldl
    (fun minId entry => if entry.1 < minId ∧ entry.2.isActive = true then entry.1 else minId)
    n.nodeId

def getBiggestNodeId (n : ZenNode) : Name :=
  n.nodes.foldl
    (fun maxId entry =>
      if maxId < entry.1 ∧ entry.2.isActive = true ∧ entry.2.isMaster = false then entry.1
      else maxId)
    []

/-- `SetCurrentTerm` with the comparison that guards it. -/
def raiseTerm (n : ZenNode) (term : Int) : ZenNode :=
  if n.currentTerm < term then { n with currentTerm := term } else n

def handleVoteRequest (n : ZenNode) (candidate : Name) (term : Int) : Bool × ZenNode :=
  (decide (n.getSmallestNodeId = candidate), n.raiseTerm term)

def becomeTempMaster (n : ZenNode) (candidates : List Name) : ZenNode :=
  if n.state = .tempMaster ∨ n.state = .electedMaster then n
  else { n with state := .tempMaster, electedMaster := n.nodeId, tempNodeList := candidates }

def handleSendTransElected (n : ZenNode) (nodeList : List Name) (term : Int) : ZenNode :=
  if term < n.currentTerm then n else (n.raiseTerm term).becomeTempMaster nodeList

/-- The body of the loop in `HandleBroadCastRequest`. -/
def acceptEntry (isServerInited : Bool) (n : ZenNode) (node : NodeEntry) : ZenNode :=
  if node.id = n.nodeId ∧ node.type = .votingOnlyNode then
    if isServerInited then
      notifyListeners { n with type := .votingOnlyNode } .becomeVoteNode n.electedMaster n.nodeId
    else { n with type := .votingOnlyNode }
  else if node.id = n.nodeId ∧ node.type = .eligibleNode ∧ n.type = .votingOnlyNode then
    notifyListeners { n with type := .eligibleNode } .nodeDemoted n.electedMaster n.nodeId
  else n

def handleBroadCastRequest (n : ZenNode) (fromNodeId : Name) (nodeList : NodeMap)
    (isServerInited : Bool) : ZenNode :=
  (nodeList.map Prod.snd).foldl (acceptEntry isServerInited)
    { n with nodes := nodeList, electedMaster := fromNodeId, state := .joinedCluster }

def stepDownAsMaster (n : ZenNode) : ZenNode :=
  notifyListeners
    { n with
      state := .masterCandidate
      electedMaster := []
      nodes := n.nodes.map fun entry => (entry.1, { entry.2 with isMaster := false }) }
    .nodeDemoted [] []

def performInitialDiscovery (n : ZenNode) : ZenNode :=
  if n.type = .votingOnlyNode then { n with state := .masterCandidate }
  else
    { n with
      nodes := n.configured.foldl
        (fun nodes id => setNode id ⟨id, false, true, .eligibleNode⟩ nodes) n.nodes
      state := .masterCandidate }

/-- `InviteNodesToJoin` up to its loop. -/
def inviteNodesToJoin (n : ZenNode) : ZenNode :=
  { n with
    joinsReceived := {n.nodeId}
    phase := .inviting (n.tempNodeList.filter (· ≠ n.nodeId)) }

def modifyNodeList (n : ZenNode) : ZenNode :=
  { n with
    nodes := n.nodes.map fun entry =>
      if entry.1 = n.nodeId then (entry.1, { entry.2 with isActive := true, isMaster := true })
      else
        (entry.1, { entry.2 with
          isActive := decide (entry.1 ∈ n.joinsReceived), isMaster := false }) }

def handleAllJoined (n : ZenNode) : ZenNode :=
  let n := (n.notifyListeners .masterElected n.nodeId []).modifyNodeList
  let joined := n.nodes.filter fun entry =>
    entry.2.isActive && decide (entry.2.type = .votingOnlyNode)
  { n with
    listenerQueue := n.listenerQueue ++
      joined.map fun entry => ⟨.haveJoined, n.nodeId, entry.1⟩
    state := .electedMaster }

def checkElectionResult (n : ZenNode) (timedOut : Bool) : Bool × ZenNode :=
  if timedOut then
    if n.minimumMasterNodes ≤ n.joinsReceived.card then (true, n.handleAllJoined)
    else
      (true, { n.notifyListeners .nodeDemoted n.nodeId [] with state := .masterCandidate })
  else if n.tempNodeList.length ≤ n.joinsReceived.card then (true, n.handleAllJoined)
  else (false, n)

/-- The discovery thread while there are targets left to send a broadcast to. -/
def broadcastPhase (snapshot : NodeMap) : List Name → DiscoveryPhase
  | [] => .idle
  | id :: targets => .broadcasting snapshot (id :: targets)

/-- The node that only votes is chosen by the master when there is none. -/
def chooseVoteOnlyNode (n : ZenNode) : ZenNode :=
  if n.nodes.any fun entry => decide (entry.2.type = .votingOnlyNode) && entry.2.isActive then n
  else
    { n with
      nodes := modifyNode n.getBiggestNodeId
        (fun node => { node with type := .votingOnlyNode }) n.nodes }

/-- `MaintainAsMaster` up to the loop that sends the broadcasts. -/
def maintainAsMaster (n : ZenNode) : ZenNode :=
  if n.nodes.countP (fun entry => entry.2.isActive) + 1 < n.minimumMasterNodes then
    n.stepDownAsMaster
  else
    let n := n.chooseVoteOnlyNode
    { n with
      phase := broadcastPhase n.nodes
        ((n.nodes.filter fun entry => decide (entry.1 ≠ n.nodeId) && entry.2.isActive).map
          Prod.fst) }

def maintainAsClusterMember (n : ZenNode) : ZenNode :=
  if n.electedMaster = [] then { n with state := .initial }
  else if (findNode n.electedMaster n.nodes).any (·.isActive) then n
  else { n with state := .initial, electedMaster := [] }

/-- One turn of `DiscoveryLoop`. -/
def discover (n : ZenNode) : ZenNode :=
  match n.state with
  | .initial => n.performInitialDiscovery
  | .tempMaster => n.inviteNodesToJoin
  | .electedMaster => n.maintainAsMaster
  | .joinedCluster => n.maintainAsClusterMember
  | .uninitialized | .joiningMaster | .masterCandidate => n

/-- What the failure to connect does in `ConnectToRpcNode`. -/
def connectToRpcNode {R : Type} (n : ZenNode) (id : Name) : SendOutcome R → ZenNode
  | .notConnected fresh => (n.updateNodeLastSeen id fresh).markNodeActive id false
  | _ => n

/-- `SendPingRequest`: a node that only votes and is lost is eligible again. -/
def sendPingRequest (n : ZenNode) (id : Name) (reached : Bool) (fresh : NodeType) : ZenNode :=
  if reached then (n.updateNodeLastSeen id fresh).markNodeActive id true
  else
    let n := (n.updateNodeLastSeen id fresh).markNodeActive id false
    if n.state = .electedMaster ∧
        ((findNode id n.nodes).any fun node => decide (node.type = .votingOnlyNode)) = true then
      { n with nodes := modifyNode id (fun node => { node with type := .eligibleNode }) n.nodes }
    else n

/-- `SendJoinRequest`: the type in the answer is kept, in an entry that is created when the
node has none. -/
def sendJoinRequest (n : ZenNode) (id : Name) (outcome : SendOutcome NodeType) : ZenNode :=
  match outcome with
  | .answered type =>
    let nodes := match type with
      | .votingOnlyNode =>
        setNode id
          { (findNode id n.nodes).getD ⟨[], false, false, .eligibleNode⟩ with
            type := .votingOnlyNode } n.nodes
      | .eligibleNode => n.nodes
    { n with nodes := nodes, joinsReceived := insert id n.joinsReceived }
  | _ => n.connectToRpcNode id outcome

/-- The body of the loop in `CollectNodeInfo`. -/
def collectEntry (c : NodeCollections) (node : NodeEntry) : NodeCollections :=
  if node.type = .votingOnlyNode then { c with voteOnlyNode := node.id }
  else if node.isActive then
    { c with
      masterCandidates := insertId node.id c.masterCandidates
      activeMasters := if node.isMaster then insertId node.id c.activeMasters else c.activeMasters }
  else c

def collectNodeInfo (n : ZenNode) : NodeCollections :=
  let collected := (n.nodes.map Prod.snd).foldl collectEntry ⟨[], [], []⟩
  { collected with masterCandidates := insertId n.nodeId collected.masterCandidates }

def selectTemporaryMaster (c : NodeCollections) : Name :=
  if c.activeMasters ≠ [] then minElement c.activeMasters else minElement c.masterCandidates

/-- `RunElection` up to the first request for a vote. -/
def runElection (n : ZenNode) : ZenNode :=
  let n := notifyListeners { n with currentTerm := nextTerm n.currentTerm, votesReceived := ∅ }
    .electionStarted [] []
  let collections := n.collectNodeInfo
  if collections.masterCandidates.length < n.minimumMasterNodes then
    n.notifyListeners .electionFailed [] []
  else
    let asked := if collections.voteOnlyNode ≠ [] then
        insertId collections.voteOnlyNode collections.masterCandidates
      else collections.masterCandidates
    { n with
      votesReceived := {n.nodeId}
      voting := some
        { tempMaster := selectTemporaryMaster collections
          masterCandidates := collections.masterCandidates
          toAsk := asked.filter (· ≠ n.nodeId)
          asked := none } }

/-- `SendVoteRequest` after the answer, with `HandleVoteResponse`. -/
def handleVoteResponse (n : ZenNode) (id : Name) (outcome : SendOutcome Bool) : ZenNode :=
  match outcome with
  | .answered true => { n with votesReceived := insert id n.votesReceived }
  | _ => n.connectToRpcNode id outcome

/-- `ProcessVotingResults`; `outcome` is that of `SendTransElectedRequest`. -/
def processVotingResults (n : ZenNode) (v : Voting) (outcome : SendOutcome Unit) : ZenNode :=
  let n := n.notifyListeners .votingCompleted [] []
  if n.votesReceived.card < n.minimumMasterNodes then n.notifyListeners .electionFailed [] []
  else if v.tempMaster ≠ n.nodeId then n.connectToRpcNode v.tempMaster outcome
  else n.becomeTempMaster v.masterCandidates

end ZenNode

/-- What happens on a node. -/
inductive NodeEvent
  | start
  /-- The first ping thread discovers the nodes and starts the loops. -/
  | firstDiscovery
  /-- A turn of the discovery loop. -/
  | discover
  | pingRequest (fromNodeId : Name) (fresh : NodeType)
  | joinRequest (fromNodeId : Name) (fresh : NodeType)
  | voteRequest (fromNodeId candidate : Name) (term : Int)
  | transElected (fromNodeId : Name) (nodeList : List Name) (term : Int)
  | broadcast (fromNodeId : Name) (nodeList : NodeMap) (isServerInited : Bool)
  /-- A ping of the ping loop is over. -/
  | pingResult (id : Name) (reached : Bool) (fresh : NodeType)
  /-- An invitation is over. -/
  | joinResult (id : Name) (outcome : SendOutcome NodeType)
  /-- A turn of the loop that waits for the invited nodes. -/
  | checkElectionResult (timedOut : Bool)
  | leaveInvite
  /-- The next broadcast of the master. -/
  | sendBroadcast (outcome : SendOutcome Unit)
  | runElection
  /-- The next request for a vote is sent. -/
  | sendVoteRequest
  | voteResult (outcome : SendOutcome Bool)
  /-- A turn of the loop that waits for enough votes. -/
  | pollVotes (timedOut : Bool) (outcome : SendOutcome Unit)
  /-- The listener thread takes an event from the queue. -/
  | handleEvent (outcomes : LockOutcomes)
  /-- The master of the locks makes this node's lock clients reinitialise. -/
  | clientReinit (outcome : LockOutcome)

/-- A step of a node. -/
def ZenNode.step (n : ZenNode) : NodeEvent → Option ZenNode
  | .start => if n.phase = .stopped then some { n with state := .initial, phase := .firstPing }
      else none
  | .firstDiscovery =>
    if n.phase = .firstPing then some { n.performInitialDiscovery with phase := .idle } else none
  | .discover => if n.phase = .idle then some n.discover else none
  | .pingRequest fromNodeId fresh => some (n.handlePingRequest fromNodeId fresh)
  | .joinRequest fromNodeId fresh => some (n.handleJoinRequest fromNodeId fresh).2
  | .voteRequest _ candidate term => some (n.handleVoteRequest candidate term).2
  | .transElected _ nodeList term => some (n.handleSendTransElected nodeList term)
  | .broadcast fromNodeId nodeList isServerInited =>
    some (n.handleBroadCastRequest fromNodeId nodeList isServerInited)
  | .pingResult id reached fresh => some (n.sendPingRequest id reached fresh)
  | .joinResult id outcome =>
    match n.phase with
    | .inviting pending =>
      if id ∈ pending then
        some { n.sendJoinRequest id outcome with phase := .inviting (pending.erase id) }
      else none
    | .leaving pending =>
      if id ∈ pending then
        some { n.sendJoinRequest id outcome with phase := .leaving (pending.erase id) }
      else none
    | _ => none
  | .checkElectionResult timedOut =>
    match n.phase with
    | .inviting pending =>
      if (n.checkElectionResult timedOut).1 then
        some { (n.checkElectionResult timedOut).2 with phase := .leaving pending }
      else some n
    | _ => none
  | .leaveInvite => if n.phase = .leaving [] then some { n with phase := .idle } else none
  | .sendBroadcast outcome =>
    match n.phase with
    | .broadcasting snapshot (id :: targets) =>
      some { n.connectToRpcNode id outcome with phase := broadcastPhase snapshot targets }
    | _ => none
  | .runElection =>
    if n.phase ≠ .stopped ∧ n.phase ≠ .firstPing ∧ n.state = .masterCandidate ∧ n.voting = none then
      some n.runElection
    else none
  | .sendVoteRequest =>
    match n.voting with
    | some ⟨tempMaster, masterCandidates, id :: toAsk, none⟩ =>
      some { n with voting := some ⟨tempMaster, masterCandidates, toAsk, some id⟩ }
    | _ => none
  | .voteResult outcome =>
    match n.voting with
    | some ⟨tempMaster, masterCandidates, toAsk, some id⟩ =>
      some
        { n.handleVoteResponse id outcome with
          voting := some ⟨tempMaster, masterCandidates, toAsk, none⟩ }
    | _ => none
  | .pollVotes timedOut outcome =>
    match n.voting with
    | some ⟨tempMaster, masterCandidates, [], none⟩ =>
      if timedOut then some { n with voting := none }
      else if n.minimumMasterNodes ≤ n.votesReceived.card then
        some
          { n.processVotingResults ⟨tempMaster, masterCandidates, [], none⟩ outcome with
            voting := none }
      else some n
    | _ => none
  | .handleEvent outcomes =>
    match n.listenerQueue with
    | [] => none
    | p :: queue =>
      some
        { n with
          listenerQueue := queue
          lock := n.lock.handleElectionEvent n.nodeId p outcomes }
  | .clientReinit outcome => some { n with lock := (n.lock.reinit outcome).2 }

end UbsMem
