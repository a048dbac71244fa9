import UbsMem.ZenDiscovery

/-! # The exchange of a join

A node that invites another to join sends it `PingRequest`, and the receiver refreshes the entry
of the id in it.  `SendPingRequest` puts the sender's id there, but `SendJoinRequest` the
receiver's: a node that has joined has refreshed its own entry, and knows no more of its master
than before (`join_unknown_master`).
-/
namespace UbsMem

open Function

theorem findNode_setNode (id key : Name) (node : NodeEntry) (nodes : NodeMap) :
    findNode id (setNode key node nodes) = if id = key then some node else findNode id nodes := by
  unfold findNode
  induction nodes with
  | nil => grind [setNode]
  | cons entry rest ih => grind [setNode]

theorem findNode_modifyNode (id key : Name) (f : NodeEntry → NodeEntry) (nodes : NodeMap) :
    findNode id (modifyNode key f nodes) =
      if id = key then (findNode id nodes).map f else findNode id nodes := by
  unfold findNode modifyNode
  induction nodes with
  | nil => simp
  | cons entry rest ih => grind

/-- A node with the time stamps of its table. -/
structure TimedNode where
  node : ZenNode
  lastSeen : Name → Int

namespace TimedNode

/-- `HandleJoinRequest`, which `JoinRequestInfo` calls with the id of the request. -/
def handleJoinRequest (b : TimedNode) (fromNodeId : Name) (fresh : NodeType) (now : Int) :
    NodeType × TimedNode :=
  let res := b.node.handleJoinRequest fromNodeId fresh
  (res.1, ⟨res.2, update b.lastSeen fromNodeId now⟩)

/-- `SendJoinRequest` of `a` to `b`: whether it returns 0, and both nodes.  A request without an
answer may have been `delivered`. -/
def sendJoinRequest (a b : TimedNode) (fresh : NodeType) (now : Int) (delivered : Bool)
    (outcome : SendOutcome Unit) : Bool × TimedNode × TimedNode :=
  let nodeId := b.node.nodeId
  -- the request is made with the id of the node that it is sent to
  let handled := b.handleJoinRequest nodeId fresh now
  match outcome with
  | .answered () =>
    (true, { a with node := a.node.sendJoinRequest nodeId (.answered handled.1) }, handled.2)
  | .notAnswered =>
    (false, { a with node := a.node.sendJoinRequest nodeId .notAnswered },
      if delivered then handled.2 else b)
  | .notConnected fresh =>
    (false, ⟨a.node.sendJoinRequest nodeId (.notConnected fresh), update a.lastSeen nodeId now⟩, b)
  | .unknownNode => (false, { a with node := a.node.sendJoinRequest nodeId .unknownNode }, b)

/-- The entry of a node is active and seen now. -/
def Refreshed (n : TimedNode) (now : Int) (id : Name) : Prop :=
  (findNode id n.node.nodes).any (·.isActive) = true ∧ n.lastSeen id = now

variable {b : TimedNode} {fresh : NodeType} {now : Int}

/-- The entry of the id in the request is refreshed, the others stay. -/
theorem refreshed_handleJoinRequest (id fromNodeId : Name) :
    (b.handleJoinRequest fromNodeId fresh now).2.Refreshed now id ↔
      id = fromNodeId ∨ b.Refreshed now id := by
  have hfound : findNode id (b.node.handleJoinRequest fromNodeId fresh).2.nodes =
      if id = fromNodeId then
        some { (findNode id b.node.nodes).getD ⟨id, false, true, fresh⟩ with isActive := true }
      else findNode id b.node.nodes := by
    simp only [ZenNode.handleJoinRequest, ZenNode.markNodeActive, findNode_modifyNode,
      ZenNode.updateNodeLastSeen]
    cases hold : findNode fromNodeId b.node.nodes with
    | some node => split_ifs with hid <;> simp [*]
    | none =>
      rw [findNode_setNode]
      split_ifs with hid <;> simp [*]
  unfold Refreshed
  simp only [handleJoinRequest, hfound]
  rcases eq_or_ne id fromNodeId with rfl | hne
  · simp
  · rw [if_neg hne, update_of_ne hne]
    exact ⟨.inr, fun h => h.resolve_left hne⟩

theorem Refreshed.member {id : Name} (h : b.Refreshed now id) (hne : id ≠ [])
    (hmaster : b.node.electedMaster = id) : b.node.maintainAsClusterMember = b.node := by
  subst hmaster
  rw [ZenNode.maintainAsClusterMember, if_neg hne, if_pos h.1]

end TimedNode

open TimedNode

/-- **After a join that `a` counts as received**, `b` has `a` as an active node that was seen now
exactly if it had before, or if both have one id; and where `b` has it so and takes `a` for its
master, it goes on as a member. -/
theorem join_refreshes (a b : TimedNode) (fresh : NodeType) (now : Int) (delivered : Bool)
    (outcome : SendOutcome Unit)
    (hret : (a.sendJoinRequest b fresh now delivered outcome).1 = true) :
    let b' := (a.sendJoinRequest b fresh now delivered outcome).2.2
    (b'.Refreshed now a.node.nodeId ↔
      a.node.nodeId = b.node.nodeId ∨ b.Refreshed now a.node.nodeId) ∧
    (b'.Refreshed now a.node.nodeId → a.node.nodeId ≠ [] →
      b'.node.electedMaster = a.node.nodeId → b'.node.maintainAsClusterMember = b'.node) := by
  cases outcome with
  | answered => exact ⟨refreshed_handleJoinRequest _ _, Refreshed.member⟩
  | notAnswered | notConnected fresh | unknownNode => cases hret

/-- Node 1, which has been elected, and node 2 with an empty table. -/
def joinPair : TimedNode × TimedNode :=
  (⟨{ ZenNode.beforeStart [49] 2 [[49], [50]] with state := .tempMaster }, fun _ => 0⟩,
    ⟨{ ZenNode.beforeStart [50] 2 [[49], [50]] with nodes := [] }, fun _ => 0⟩)

/-- **The join request carries the wrong id**: node 2 has joined, but node 1 is not in its table. -/
theorem join_unknown_master :
    let res := joinPair.1.sendJoinRequest joinPair.2 .eligibleNode 5 true (.answered ())
    res.1 = true ∧ findNode [49] res.2.2.node.nodes = none ∧
      res.2.2.lastSeen [49] = 0 ∧ res.2.2.lastSeen [50] = 5 := by
  decide

/-- A node that is seen at the moment of the exchange. -/
theorem join_refreshes_seen : let b : TimedNode := ⟨{ joinPair.2.node with
      nodes := [([49], ⟨[49], true, true, .eligibleNode⟩)] }, fun _ => 5⟩
    let res := joinPair.1.sendJoinRequest b .eligibleNode 5 true (.answered ())
    res.1 = true ∧ res.2.2.Refreshed 5 [49] :=
  ⟨rfl, (join_refreshes joinPair.1 _ .eligibleNode 5 true (.answered ()) rfl).1.mpr
    (.inr ⟨rfl, rfl⟩)⟩

end UbsMem
