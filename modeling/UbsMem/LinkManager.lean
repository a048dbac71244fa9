import UbsMem.CommonTypes
import UbsMem.Machine

/-! # Connections between two nodes

`MxmComLinkManager` keeps the connections of an engine in two maps: `nodeChannelMap`
selects the connection on which a request to a node is sent, `channelIdMap` finds the
connection on which a request came in and has to be answered.  Both ends of a
connection insert it, the end that opened it when `Connect` returns (`CreateChannel`)
and the other end when the transport announces it (`NewChannel`).  A connection that is
inserted replaces the one that was selected before, whose id is forgotten while the
connection itself stays up.

`Peers` is two nodes with all the connections that either has opened to the other.  The
transport decides when each end hears of a connection, of its failure, and of its
break.  The question is whether what one end selects, the other end can answer.
-/
namespace UbsMem

open Function Option

/-- `MxmChannelType`. -/
inductive ChannelType
  | singleSide
  | normal
  | emergency
  | heartbeat
  deriving DecidableEq

/-- `MxmComChannelInfo`, with the id of its channel. -/
structure ChannelInfo where
  isServerSide : Bool
  channelType : ChannelType
  channelId : Nat
  remoteNodeId : Name
  deriving DecidableEq

/-- `MxmComLinkManager`. -/
structure LinkManager where
  nodeChannelMap : Name → ChannelType → Option ChannelInfo
  channelIdMap : Nat → Option ChannelInfo

namespace LinkManager

/-- No channels. -/
def empty : LinkManager := ⟨fun _ _ => none, fun _ => none⟩

/-- `channelIdMap.emplace`: an id that is there keeps its channel. -/
def emplaceId (ids : Nat → Option ChannelInfo) (info : ChannelInfo) : Nat → Option ChannelInfo :=
  match ids info.channelId with
  | some _ => ids
  | none => update ids info.channelId (some info)

def isChannelExists (m : LinkManager) (nodeId : Name) (chType : ChannelType) : Bool :=
  (m.nodeChannelMap nodeId chType).isSome

/-- Select a channel for a node, or none. -/
def select (m : LinkManager) (nodeId : Name) (chType : ChannelType) (info : Option ChannelInfo) :
    Name → ChannelType → Option ChannelInfo :=
  update m.nodeChannelMap nodeId (update (m.nodeChannelMap nodeId) chType info)

def insertChannel (m : LinkManager) (info : ChannelInfo) : LinkManager :=
  if info.channelType = .singleSide ∧ info.isServerSide = true then
    { m with channelIdMap := emplaceId m.channelIdMap info }
  else
    let ids := match m.nodeChannelMap info.remoteNodeId info.channelType with
      | none => m.channelIdMap
      | some old => update m.channelIdMap old.channelId none
    { nodeChannelMap := m.select info.remoteNodeId info.channelType (some info)
      channelIdMap := emplaceId ids info }

def removeChannelByChannelId (m : LinkManager) (id : Nat) : LinkManager :=
  match m.channelIdMap id with
  | none => m
  | some info =>
    { nodeChannelMap := m.select info.remoteNodeId info.channelType none
      channelIdMap := update m.channelIdMap id none }

@[simp] theorem select_self (m : LinkManager) (nodeId : Name) (chType : ChannelType)
    (info : Option ChannelInfo) : m.select nodeId chType info nodeId chType = info := by
  simp [select]

end LinkManager

/-! ### Two nodes -/

/-- One of the two nodes. -/
inductive Side
  | a
  | b
  deriving DecidableEq

/-- The node at the other end. -/
def Side.other : Side → Side
  | .a => .b
  | .b => .a

/-- What has happened to a connection: who opened it, which ends have still to hear
whether it was set up, which ends have inserted it, and whether it is down. -/
structure Connection where
  opener : Side
  waiting : Side → Bool
  inserted : Side → Bool
  down : Bool

/-- **Two nodes and the connections between them.** -/
structure Peers where
  link : Side → LinkManager
  connections : Nat → Option Connection
  opened : Nat

namespace Peers

/-- Nothing has been opened. -/
def start : Peers := ⟨fun _ => .empty, fun _ => none, 0⟩

/-- The channel that an end of a connection inserts.  `CreateChannel` of the opener
sends its own node id as payload, and `NewChannel` takes it from there. -/
def channelInfo (nodeId : Side → Name) (x : Side) (id : Nat) (c : Connection) : ChannelInfo :=
  ⟨x ≠ c.opener, .normal, id, nodeId x.other⟩

/-- Change what is known of a connection. -/
def setConnection (s : Peers) (id : Nat) (c : Connection) : Peers :=
  { s with connections := update s.connections id (some c) }

/-- Change the link manager of a node. -/
def setLink (s : Peers) (x : Side) (m : LinkManager) : Peers :=
  { s with link := update s.link x m }

@[simp] theorem link_setLink_self (s : Peers) (x : Side) (m : LinkManager) :
    (s.setLink x m).link x = m := update_self ..

theorem link_setLink_of_ne (s : Peers) {x y : Side} (m : LinkManager) (h : y ≠ x) :
    (s.setLink x m).link y = s.link y := update_of_ne h _ _

end Peers

/-- What can happen. -/
inductive PeersEvent
  /-- `CreateChannel` finds no channel for the other node and starts to connect. -/
  | connect (x : Side)
  /-- An end inserts the connection: the opener in `CreateChannel`, once `Connect` has
  returned, the other end in `NewChannel`. -/
  | insert (x : Side) (id : Nat)
  /-- An end will never hear of the connection: `Connect` failed, or the connection
  went down before it was announced. -/
  | giveUp (x : Side) (id : Nat)
  /-- The connection goes down. -/
  | goDown (id : Nat)
  /-- `BrokenChannel`. -/
  | broken (x : Side) (id : Nat)
  deriving DecidableEq

namespace Peers

/-- What an event does, on nodes with the ids `nodeId`. -/
def step (nodeId : Side → Name) (s : Peers) : PeersEvent → Option Peers
  | .connect x =>
    if (s.link x).isChannelExists (nodeId x.other) .normal then none
    else some { s.setConnection s.opened ⟨x, fun _ => true, fun _ => false, false⟩ with
      opened := s.opened + 1 }
  | .insert x id => (s.connections id).bind fun c =>
    if c.waiting x then
      some ((s.setConnection id { c with
        waiting := update c.waiting x false
        inserted := update c.inserted x true }).setLink x
          ((s.link x).insertChannel (channelInfo nodeId x id c)))
    else none
  | .giveUp x id => (s.connections id).bind fun c =>
    if c.waiting x then
      some (s.setConnection id { c with waiting := update c.waiting x false })
    else none
  | .goDown id => (s.connections id).bind fun c => some (s.setConnection id { c with down := true })
  | .broken x id => (s.connections id).bind fun c =>
    if c.down then some (s.setLink x ((s.link x).removeChannelByChannelId id)) else none

/-- A connection that both ends have inserted and that is up. -/
def Live (s : Peers) (id : Nat) : Prop :=
  ∃ c, s.connections id = some c ∧ (∀ x, c.inserted x = true) ∧ c.down = false

/-- Whether an end has still to hear of a connection. -/
def Pending (s : Peers) (id : Nat) : Prop :=
  ∃ c x, s.connections id = some c ∧ c.waiting x = true

/-- **One connection at a time**: a node starts to connect only when no connection
between the two is still being set up. -/
def OneAtATime (s : Peers) : PeersEvent → Prop
  | .connect _ => ∀ id, ¬ s.Pending id
  | _ => True

/-! ### What a node keeps -/

/-- The two maps of a node agree: the channel that is selected for the other node is the
only one whose id is known. -/
structure LinkOk (other : Name) (m : LinkManager) : Prop where
  selected : ∀ info, m.nodeChannelMap other .normal = some info →
    m.channelIdMap info.channelId = some info
  known : ∀ id info, m.channelIdMap id = some info →
    info.channelId = id ∧ info.remoteNodeId = other ∧ info.channelType = .normal ∧
      m.nodeChannelMap other .normal = some info

theorem linkOk_empty (other : Name) : LinkOk other .empty := by
  constructor
  · nofun
  · nofun

variable {other : Name} {m : LinkManager}

/-- A channel that is inserted is selected, and its id is the only one left. -/
theorem LinkOk.insertChannel (h : LinkOk other m) {info : ChannelInfo}
    (hother : info.remoteNodeId = other) (htype : info.channelType = .normal) :
    LinkOk other (m.insertChannel info) ∧
      (m.insertChannel info).nodeChannelMap other .normal = some info := by
  subst hother
  have hinsert : m.insertChannel info = ⟨m.select info.remoteNodeId .normal (some info),
        update (fun _ => none) info.channelId (some info)⟩ := by
    have hids : ∀ id known, m.channelIdMap id = some known →
        m.nodeChannelMap info.remoteNodeId .normal = some known ∧ known.channelId = id :=
      fun id known hid => ⟨(h.known id known hid).2.2.2, (h.known id known hid).1⟩
    rw [LinkManager.insertChannel, if_neg (by simp [htype]), htype]
    -- forgetting the channel that was selected leaves no id
    have hforgotten : (match m.nodeChannelMap info.remoteNodeId .normal with
        | none => m.channelIdMap
        | some old => update m.channelIdMap old.channelId none) = fun _ => none := by
      funext id
      cases hold : m.nodeChannelMap info.remoteNodeId .normal with
      | none =>
        by_contra hne
        obtain ⟨known, hknown⟩ := ne_none_iff_exists'.mp hne
        rw [(hids id known hknown).1] at hold
        cases hold
      | some old =>
        dsimp only
        by_cases hid : id = old.channelId
        · simp [hid]
        · rw [update_of_ne hid]
          by_contra hne
          obtain ⟨known, hknown⟩ := ne_none_iff_exists'.mp hne
          obtain ⟨hselected, hknownId⟩ := hids id known hknown
          rw [hold] at hselected
          cases hselected
          exact hid hknownId.symm
    rw [hforgotten]
    rfl
  rw [hinsert]
  refine ⟨⟨fun info' h' => ?_, fun id info' h' => ?_⟩, m.select_self _ _ _⟩
  · obtain rfl : info = info' := by simpa using h'
    simp
  · by_cases hid : id = info.channelId
    · obtain rfl : info = info' := by simpa [hid] using h'
      exact ⟨hid.symm, rfl, htype, by simp⟩
    · simp [hid] at h'

/-- After `RemoveChannelByChannelId` the other node has its channel still, unless it is
the one that was removed. -/
theorem LinkOk.removeChannel (h : LinkOk other m) (id : Nat) :
    LinkOk other (m.removeChannelByChannelId id) ∧
      ∀ info, m.nodeChannelMap other .normal = some info → info.channelId ≠ id →
        (m.removeChannelByChannelId id).nodeChannelMap other .normal = some info := by
  cases hid : m.channelIdMap id with
  | none =>
    have hsame : m.removeChannelByChannelId id = m := by
      rw [LinkManager.removeChannelByChannelId, hid]
    rw [hsame]
    exact ⟨h, fun info hinfo _ => hinfo⟩
  | some removed =>
    obtain ⟨hchannel, hremote, htype, hselected⟩ := h.known id removed hid
    have hremoved : m.removeChannelByChannelId id =
        ⟨m.select other .normal none, update m.channelIdMap id none⟩ := by
      rw [LinkManager.removeChannelByChannelId, hid]
      dsimp only
      rw [hremote, htype]
    rw [hremoved]
    refine ⟨⟨fun info hinfo => ?_, fun id' info hinfo => ?_⟩, fun info hinfo hne => ?_⟩
    · simp at hinfo
    · by_cases hid' : id' = id
      · simp [hid'] at hinfo
      · -- no other id is known
        have hinfo' : m.channelIdMap id' = some info := by simpa [hid'] using hinfo
        obtain ⟨hchannel', -, -, hselected'⟩ := h.known id' info hinfo'
        rw [hselected] at hselected'
        cases hselected'
        exact absurd (hchannel'.symm.trans hchannel) hid'
    · rw [hselected] at hinfo
      cases hinfo
      exact absurd hchannel hne

/-! ### Runs with one connection at a time -/

/-- **What holds in runs with one connection at a time**: only the newest connection can
be pending or live, and an end that has inserted it selects it until it is down. -/
structure PeersInv (nodeId : Side → Name) (s : Peers) : Prop where
  link : ∀ x, LinkOk (nodeId x.other) (s.link x)
  opened : ∀ id c, s.connections id = some c → id < s.opened
  settled : ∀ id c x, s.connections id = some c → c.waiting x = true → id + 1 = s.opened
  newest : ∀ id, s.Live id → id + 1 = s.opened
  selected : ∀ id c x, s.connections id = some c → id + 1 = s.opened → c.inserted x = true →
    c.down = false →
    (s.link x).nodeChannelMap (nodeId x.other) .normal = some (channelInfo nodeId x id c)

variable {nodeId : Side → Name} {s s' : Peers}

theorem peersInv_start : PeersInv nodeId start := by
  refine ⟨fun x => linkOk_empty _, ?_, ?_, ?_, ?_⟩
  · nofun
  · nofun
  · rintro id ⟨c, h, -⟩
    cases h
  · nofun

theorem connections_setConnection {id id' : Nat} {c c' : Connection}
    (h : (s.setConnection id c).connections id' = some c') :
    id' = id ∧ c' = c ∨ id' ≠ id ∧ s.connections id' = some c' := by
  by_cases hid : id' = id
  · subst hid
    have hc : c = c' := by simpa [setConnection] using h
    exact .inl ⟨rfl, hc.symm⟩
  · exact .inr ⟨hid, by simpa [setConnection, hid] using h⟩

section

variable (h : PeersInv nodeId s) {x : Side} {id : Nat}

include h

theorem PeersInv.connect (hnone : ∀ id, ¬ s.Pending id)
    (hstep : s.step nodeId (.connect x) = some s') : PeersInv nodeId s' := by
  rw [step] at hstep
  split_ifs at hstep with hexists
  have hlive : ∀ id, ¬ s.Live id := by
    rintro id ⟨c, hc, hinserted, hdown⟩
    have hsel := h.selected id c x hc (h.newest id ⟨c, hc, hinserted, hdown⟩) (hinserted x) hdown
    rw [LinkManager.isChannelExists, hsel] at hexists
    exact hexists rfl
  cases hstep
  refine ⟨h.link, fun id c hc => ?_, fun id c y hc hwait => ?_, ?_, fun id c y hc hid hins => ?_⟩
  · rcases connections_setConnection hc with ⟨rfl, -⟩ | ⟨-, hold⟩
    · exact Nat.lt_succ_self _
    · exact Nat.lt_succ_of_lt (h.opened id c hold)
  · rcases connections_setConnection hc with ⟨rfl, -⟩ | ⟨-, hold⟩
    · rfl
    · exact absurd ⟨c, y, hold, hwait⟩ (hnone id)
  · rintro id ⟨c, hc, hinserted, hdown⟩
    rcases connections_setConnection hc with ⟨rfl, -⟩ | ⟨-, hold⟩
    · rfl
    · exact absurd ⟨c, hold, hinserted, hdown⟩ (hlive id)
  · rcases connections_setConnection hc with ⟨-, rfl⟩ | ⟨hne, -⟩
    · cases hins
    · exact absurd (Nat.succ.inj hid) hne

theorem PeersInv.insert (hstep : s.step nodeId (.insert x id) = some s') : PeersInv nodeId s' := by
  obtain ⟨c, hc, hstep⟩ := bind_eq_some_iff.mp hstep
  split_ifs at hstep with hwait
  have hnewest : id + 1 = s.opened := h.settled id c x hc hwait
  obtain ⟨hlink, hsel⟩ := @LinkOk.insertChannel _ _ (h.link x) (channelInfo nodeId x id c) rfl rfl
  cases hstep
  refine ⟨fun y => ?_, fun id' c' hc' => ?_, fun id' c' y hc' hwait' => ?_, ?_,
    fun id' c' y hc' hid' hins hdown => ?_⟩
  · by_cases hy : y = x
    · subst hy
      rw [link_setLink_self]
      exact hlink
    · rw [link_setLink_of_ne _ _ hy]
      exact h.link y
  · rcases connections_setConnection hc' with ⟨rfl, -⟩ | ⟨-, hold⟩
    · exact h.opened id' c hc
    · exact h.opened id' c' hold
  · rcases connections_setConnection hc' with ⟨rfl, -⟩ | ⟨-, hold⟩
    · exact hnewest
    · exact h.settled id' c' y hold hwait'
  · rintro id' ⟨c', hc', hinserted, hdown⟩
    rcases connections_setConnection hc' with ⟨rfl, -⟩ | ⟨-, hold⟩
    · exact hnewest
    · exact h.newest id' ⟨c', hold, hinserted, hdown⟩
  · rcases connections_setConnection hc' with ⟨rfl, rfl⟩ | ⟨hne, -⟩
    · by_cases hy : y = x
      · subst hy
        rw [link_setLink_self]
        exact hsel
      · have hins' : c.inserted y = true := by simpa [hy] using hins
        rw [link_setLink_of_ne _ _ hy]
        exact h.selected id' c y hc hid' hins' hdown
    · exact absurd (Nat.succ.inj (hid'.trans hnewest.symm)) hne

theorem PeersInv.giveUp (hstep : s.step nodeId (.giveUp x id) = some s') : PeersInv nodeId s' := by
  obtain ⟨c, hc, hstep⟩ := bind_eq_some_iff.mp hstep
  split_ifs at hstep with hwait
  have hnewest : id + 1 = s.opened := h.settled id c x hc hwait
  cases hstep
  refine ⟨h.link, fun id' c' hc' => ?_, fun id' c' y hc' hwait' => ?_, ?_,
    fun id' c' y hc' hid' hins hdown => ?_⟩
  · rcases connections_setConnection hc' with ⟨rfl, -⟩ | ⟨-, hold⟩
    · exact h.opened id' c hc
    · exact h.opened id' c' hold
  · rcases connections_setConnection hc' with ⟨rfl, -⟩ | ⟨-, hold⟩
    · exact hnewest
    · exact h.settled id' c' y hold hwait'
  · rintro id' ⟨c', hc', hinserted, hdown⟩
    rcases connections_setConnection hc' with ⟨rfl, -⟩ | ⟨-, hold⟩
    · exact hnewest
    · exact h.newest id' ⟨c', hold, hinserted, hdown⟩
  · rcases connections_setConnection hc' with ⟨rfl, rfl⟩ | ⟨-, hold⟩
    · exact h.selected id' c y hc hid' hins hdown
    · exact h.selected id' c' y hold hid' hins hdown

theorem PeersInv.goDown (hstep : s.step nodeId (.goDown id) = some s') : PeersInv nodeId s' := by
  obtain ⟨c, hc, hstep⟩ := bind_eq_some_iff.mp hstep
  cases hstep
  refine ⟨h.link, fun id' c' hc' => ?_, fun id' c' y hc' hwait' => ?_, ?_,
    fun id' c' y hc' hid' hins hdown => ?_⟩
  · rcases connections_setConnection hc' with ⟨rfl, -⟩ | ⟨-, hold⟩
    · exact h.opened id' c hc
    · exact h.opened id' c' hold
  · rcases connections_setConnection hc' with ⟨rfl, rfl⟩ | ⟨-, hold⟩
    · exact h.settled id' c y hc hwait'
    · exact h.settled id' c' y hold hwait'
  · rintro id' ⟨c', hc', hinserted, hdown⟩
    rcases connections_setConnection hc' with ⟨-, rfl⟩ | ⟨-, hold⟩
    · cases hdown
    · exact h.newest id' ⟨c', hold, hinserted, hdown⟩
  · rcases connections_setConnection hc' with ⟨-, rfl⟩ | ⟨-, hold⟩
    · cases hdown
    · exact h.selected id' c' y hold hid' hins hdown

theorem PeersInv.broken (hstep : s.step nodeId (.broken x id) = some s') : PeersInv nodeId s' := by
  obtain ⟨c, hc, hstep⟩ := bind_eq_some_iff.mp hstep
  split_ifs at hstep with hdown
  obtain ⟨hlink, hkept⟩ := (h.link x).removeChannel id
  cases hstep
  refine { h with link := fun y => ?_, selected := fun id' c' y hc' hid' hins hup => ?_ }
  · by_cases hy : y = x
    · subst hy
      rw [link_setLink_self]
      exact hlink
    · rw [link_setLink_of_ne _ _ hy]
      exact h.link y
  · have hold := h.selected id' c' y hc' hid' hins hup
    by_cases hy : y = x
    · subst hy
      have hne : (channelInfo nodeId y id' c').channelId ≠ id := by
        rintro rfl
        obtain rfl : c' = c := some.inj (hc'.symm.trans hc)
        rw [hup] at hdown
        cases hdown
      rw [link_setLink_self]
      exact hkept _ hold hne
    · rw [link_setLink_of_ne _ _ hy]
      exact hold

theorem PeersInv.step {e : PeersEvent} (hone : s.OneAtATime e) (hstep : s.step nodeId e = some s') :
    PeersInv nodeId s' := by
  cases e with
  | connect x => exact h.connect hone hstep
  | insert x id => exact h.insert hstep
  | giveUp x id => exact h.giveUp hstep
  | goDown id => exact h.goDown hstep
  | broken x id => exact h.broken hstep

end

end Peers

open Peers in
/-- **What a node selects can be answered**: in every run in which the nodes open one
connection at a time, a live connection that a node selects for the other is registered
at the other end. -/
theorem selected_channel_registered (nodeId : Side → Name) (s : Peers)
    (hreach : Reaches (Peers.step nodeId) Peers.OneAtATime Peers.start s) (x : Side)
    (info : ChannelInfo) :
    (s.link x).nodeChannelMap (nodeId x.other) .normal = some info → s.Live info.channelId →
      ((s.link x.other).channelIdMap info.channelId).isSome = true := by
  intro _ hlive
  have hinv : PeersInv nodeId s := hreach.invariant peersInv_start fun _ _ _ h hone hstep =>
    h.step hone hstep
  have hnewest := hinv.newest _ hlive
  obtain ⟨c, hc, hinserted, hdown⟩ := hlive
  have hother := hinv.selected _ c x.other hc hnewest (hinserted x.other) hdown
  have hid := (hinv.link x.other).selected _ hother
  rw [show info.channelId = (channelInfo nodeId x.other info.channelId c).channelId from rfl, hid]
  rfl

/-- Two node ids. -/
def sampleNodeId : Side → Name
  | .a => [97]
  | .b => [98]

/-- One node has connected to the other. -/
def connectedPeers : Peers :=
  (execute (Peers.step sampleNodeId) (fun _ _ => true) .start
    [.connect .a, .insert .a 0, .insert .b 0]).getD .start

theorem selected_channel_registered_connected :
    (connectedPeers.link .a).nodeChannelMap [98] .normal = some ⟨false, .normal, 0, [98]⟩ ∧
      ((connectedPeers.link .b).channelIdMap 0).isSome = true := by
  refine ⟨rfl, ?_⟩
  have hnone : ∀ id, ¬ Peers.start.Pending id := by
    rintro id ⟨c, x, hc, -⟩
    cases hc
  refine selected_channel_registered sampleNodeId connectedPeers ?_ .a ⟨false, .normal, 0, [98]⟩ rfl
    ⟨_, rfl, fun x => by cases x <;> rfl, rfl⟩
  exact ((Reaches.refl.next (e := .connect .a) hnone rfl).next (e := .insert .a 0) trivial rfl).next
    (e := .insert .b 0) trivial rfl

/-- Both nodes have connected to each other, and each has heard of its own connection
first. -/
def crossedPeers : Peers :=
  (execute (Peers.step sampleNodeId) (fun _ _ => true) .start
    [.connect .a, .connect .b, .insert .a 0, .insert .b 1, .insert .a 1, .insert .b 0]).getD .start

/-- **Connections that cross**: each node is left with the connection of the other, and
neither can answer. -/
theorem selected_channel_unregistered :
    Reaches (Peers.step sampleNodeId) (fun _ _ => True) .start crossedPeers ∧
      ∃ info, (crossedPeers.link .a).nodeChannelMap (sampleNodeId .b) .normal = some info ∧
        crossedPeers.Live info.channelId ∧
        (crossedPeers.link .b).channelIdMap info.channelId = none := by
  have hexec : execute (Peers.step sampleNodeId) (fun _ _ => true) .start
      [.connect .a, .connect .b, .insert .a 0, .insert .b 1, .insert .a 1, .insert .b 0] =
        some crossedPeers := rfl
  exact ⟨Reaches.refl.of_execute (fun _ _ _ => trivial) hexec, ⟨true, .normal, 1, [98]⟩, rfl,
    ⟨_, rfl, fun x => by cases x <;> rfl, rfl⟩, rfl⟩

end UbsMem
