import Mathlib.Data.List.Induction
import UbsMem.RegionManager

/-! # The nodes of the regions

`InitializeRegionList` divides the neighbours of the own node by one of them: those that it is
linked to itself, and the others.  The two sets have all neighbours and share the own node only;
in a mesh whose nodes are linked when they are in one row or in one column they are the row and
the column of the own node (`regions_of_links`).

`GetRegionInfo` makes of a region the list of nodes that UBSE may take memory from.  When UBSE
names none of the nodes of the regions, `LookupRegionList` succeeds with no region, and
`GetRegionInfo` succeeds with an empty list (`default_region_empty`); otherwise the list is that
of the nodes with affinity (`candidates_of_region`).
-/
namespace UbsMem

open Function List

/-! ### Neighbours -/

/-- Two nodes are at the ends of a link, in either order. -/
def Linked (links : List TopoLink) (a b : UInt32) : Prop :=
  ∃ link ∈ links, link.slotId = a ∧ link.peerSlotId = b ∨ link.slotId = b ∧ link.peerSlotId = a

theorem Linked.symm {links : List TopoLink} {a b : UInt32} (h : Linked links a b) :
    Linked links b a := by
  obtain ⟨link, hmem, hends⟩ := h
  exact ⟨link, hmem, hends.symm⟩

variable {l nodes : List UInt32} {k : UInt32} {r : ShmRegionDesc} {α : Type} {e : Int}

theorem mem_setInsert_slotLt {x : UInt32} : x ∈ setInsert slotLt k l ↔ x = k ∨ x ∈ l := by
  have heq : ∀ y, equivKeys slotLt k y = true ↔ y = k := by
    simp only [equivKeys, slotLt, Bool.and_eq_true, Bool.not_eq_true', decide_eq_false_iff_not,
      UInt32.not_lt, ← UInt32.toNat_inj, UInt32.le_iff_toNat_le]
    omega
  rw [mem_setInsert]
  constructor
  · rintro (hx | ⟨rfl, -⟩)
    · exact .inr hx
    · exact .inl rfl
  · rintro (rfl | hx)
    · by_cases hin : x ∈ l
      · exact .inl hin
      · refine .inr ⟨rfl, fun y hy => ?_⟩
        rw [Bool.eq_false_iff]
        intro hequiv
        exact hin ((heq y).mp hequiv ▸ hy)
    · exact .inl hx

theorem nodup_setInsert_slotLt (h : l.Nodup) : (setInsert slotLt k l).Nodup := by
  unfold setInsert
  split
  · exact h
  · next hnone =>
    rw [(insertOrdered_perm slotLt k l).nodup_iff]
    refine nodup_cons.mpr ⟨fun hmem => hnone (any_eq_true.mpr ⟨k, hmem, ?_⟩), h⟩
    simp [equivKeys, slotLt]

theorem neiborNode_concat (links : List TopoLink) (link : TopoLink) : neiborNode (links ++ [link]) =
      let nodes := update (neiborNode links) link.slotId
        (setInsert slotLt link.peerSlotId (neiborNode links link.slotId))
      update nodes link.peerSlotId
        (setInsert slotLt link.slotId (nodes link.peerSlotId)) := by
  simp only [neiborNode, foldl_append, foldl_cons, foldl_nil]

/-- **The sets of neighbours are those of the links.** -/
theorem mem_neiborNode (links : List TopoLink) (a b : UInt32) :
    b ∈ neiborNode links a ↔ Linked links a b := by
  induction links using reverseRecOn with
  | nil => simp [neiborNode, Linked]
  | append_singleton links link ih =>
    have hlast : Linked (links ++ [link]) a b ↔ Linked links a b ∨
        (link.slotId = a ∧ link.peerSlotId = b ∨ link.slotId = b ∧ link.peerSlotId = a) := by
      simp only [Linked, mem_append, mem_singleton, or_and_right, exists_or, exists_eq_left]
    rw [hlast, ← ih, neiborNode_concat]
    simp only [update_apply]
    split_ifs <;> grind [mem_setInsert_slotLt]

theorem nodup_neiborNode (links : List TopoLink) (a : UInt32) : (neiborNode links a).Nodup := by
  induction links using reverseRecOn with
  | nil => exact nodup_nil
  | append_singleton links link ih =>
    rw [neiborNode_concat]
    simp only [update_apply]
    split_ifs <;> grind [nodup_setInsert_slotLt]

/-! ### Regions -/

/-- The nodes of a region, by their numbers. -/
def ShmRegionDesc.slots (r : ShmRegionDesc) : List UInt32 :=
  r.hosts.filterMap fun i => strToUint (r.nodeId i)

theorem slots_of_fillRegionDesc (h : fillRegionDesc nodes = .ok r) : r.slots = nodes := by
  unfold fillRegionDesc at h
  split at h
  · cases h
  cases h
  have hnode : ∀ i ∈ List.range nodes.length,
      strToUint ((nodes.map fun n => toDecimal n.toNat).getD i []) = some (nodes.getD i 0) := by
    intro i hi
    have hlt := mem_range.mp hi
    simp [hlt, strToUint_toDecimal]
  simp only [ShmRegionDesc.slots, ShmRegionDesc.hosts, Int.toNat_natCast]
  rw [filterMap_congr hnode]
  exact ext_getElem (by simp) fun i _ hi => by simp [hi]

theorem slots_of_addRegion {regions regions' : List ShmRegionDesc}
    (h : addRegion nodes regions = .ok regions') :
    regions'.map ShmRegionDesc.slots =
      regions.map ShmRegionDesc.slots ++ if nodes.length > 1 then [nodes] else [] := by
  unfold addRegion at h
  split_ifs at h with hsize
  · cases hfill : fillRegionDesc nodes with
    | error e =>
      rw [hfill] at h
      cases h
    | ok r =>
      rw [hfill] at h
      cases h
      simp [hsize, slots_of_fillRegionDesc hfill]
  · cases h
    simp [hsize]

section Sets

variable {links : List TopoLink} {self first : UInt32}

/-- How the neighbours are divided by the first of them. -/
def Divides (links : List TopoLink) (self first : UInt32) (sets : List UInt32 × List UInt32) :
    Prop :=
  ∀ n, (n ∈ sets.1 ↔ n = self ∨ Linked links self n ∧ (n = first ∨ Linked links first n)) ∧
    (n ∈ sets.2 ↔ n = self ∨ Linked links self n ∧ n ∉ sets.1)

theorem divides_regionSets (hfirst : Linked links self first) :
    Divides links self first (regionSets self (neiborNode links) first) := by
  intro n
  simp only [regionSets, mem_setInsert_slotLt, mem_filter, mem_neiborNode, decide_eq_true_eq]
  grind

theorem nodup_regionSets (links : List TopoLink) (self first : UInt32) :
    (regionSets self (neiborNode links) first).1.Nodup ∧
      (regionSets self (neiborNode links) first).2.Nodup :=
  ⟨nodup_setInsert_slotLt (nodup_setInsert_slotLt ((nodup_neiborNode links self).filter _)),
    nodup_setInsert_slotLt ((nodup_neiborNode links self).filter _)⟩

theorem one_lt_length_iff {l : List UInt32} (hnodup : l.Nodup) (hself : self ∈ l) :
    l.length > 1 ↔ ∃ n ∈ l, n ≠ self := by
  constructor
  · intro hlength
    by_contra hnone
    have hall : ∀ n ∈ l, n = self := fun n hn => by_contra fun hne => hnone ⟨n, hn, hne⟩
    rw [eq_replicate_of_mem hall, nodup_replicate] at hnodup
    omega
  · rintro ⟨n, hn, hne⟩
    match l with
    | [x] => exact absurd ((mem_singleton.mp hn).trans (mem_singleton.mp hself).symm) hne
    | x :: y :: l => simp

/-- **The regions are the two sets**, where they have more than the own node. -/
theorem slots_of_initializeRegionList {o : UbseReplies} {regions : List ShmRegionDesc}
    (h : initializeRegionList o = .ok regions) (hlinks : o.links.2 = some links) :
    regions ≠ [] ∧ ∃ first sets, Linked links o.localNode.2 first ∧
      Divides links o.localNode.2 first sets ∧ (sets.1.Nodup ∧ sets.2.Nodup) ∧
      regions.map ShmRegionDesc.slots = [sets.1, sets.2].filter fun l => l.length > 1 := by
  unfold initializeRegionList at h
  split at h
  · cases h
  split at h
  · cases h
  next res links' hreply =>
  obtain rfl : links' = links := by
    rw [hreply] at hlinks
    exact Option.some.inj hlinks
  split at h
  · cases h
  split at h
  · cases h
  split at h
  · cases h
  next first rest hneighbours =>
  obtain ⟨regions₁, hfirst, h⟩ := ok_of_bind h
  obtain ⟨regions₂, hsecond, h⟩ := ok_of_bind h
  split at h
  · cases h
  next hsome =>
  cases h
  have hlinked := (mem_neiborNode _ _ _).mp (hneighbours ▸ mem_cons_self)
  refine ⟨fun hnil => hsome (by rw [hnil]; rfl), first, _, hlinked, divides_regionSets hlinked,
    nodup_regionSets links' _ first, ?_⟩
  rw [slots_of_addRegion hsecond, slots_of_addRegion hfirst]
  simp only [filter_cons, decide_eq_true_eq]
  split_ifs <;> rfl

/-! ### Rows and columns -/

/-- The node is at the end of a link. -/
def OnLink (links : List TopoLink) (n : UInt32) : Prop := ∃ m, Linked links n m

/-- A two-dimensional full mesh: no two nodes are in one row and in one column, and nodes are
linked when they are in one row or in one column. -/
structure FullMesh (links : List TopoLink) (row col : UInt32 → Nat) : Prop where
  apart : ∀ a b, OnLink links a → OnLink links b → row a = row b → col a = col b → a = b
  linked : ∀ a b, OnLink links a → OnLink links b →
    (Linked links a b ↔ a ≠ b ∧ (row a = row b ∨ col a = col b))

/-- The nodes of the own row, or of the own column. -/
def IsLine (links : List TopoLink) (line : UInt32 → Nat) (self : UInt32) (l : List UInt32) : Prop :=
  ∀ n, n ∈ l ↔ OnLink links n ∧ line n = line self

variable {row col : UInt32 → Nat}

theorem FullMesh.swap (h : FullMesh links row col) : FullMesh links col row :=
  ⟨fun a b ha hb hcol hrow => h.apart a b ha hb hrow hcol,
    fun a b ha hb => (h.linked a b ha hb).trans (and_congr_right fun _ => or_comm)⟩

/-- A neighbour in the own row divides the neighbours into the row and the column. -/
theorem FullMesh.sets (h : FullMesh links row col) (hfirst : Linked links self first)
    {sets : List UInt32 × List UInt32} (hsets : Divides links self first sets)
    (hrow : row first = row self) :
    IsLine links row self sets.1 ∧ IsLine links col self sets.2 := by
  have hself : OnLink links self := ⟨first, hfirst⟩
  have hend : OnLink links first := ⟨self, hfirst.symm⟩
  have hlinked : ∀ n, Linked links self n ↔
      OnLink links n ∧ n ≠ self ∧ (row n = row self ∨ col n = col self) := by
    intro n
    constructor
    · intro hn
      have hon : OnLink links n := ⟨self, hn.symm⟩
      obtain ⟨hne, hline⟩ := (h.linked self n hself hon).mp hn
      exact ⟨hon, hne.symm, hline.imp Eq.symm Eq.symm⟩
    · rintro ⟨hon, hne, hline⟩
      exact (h.linked self n hself hon).mpr ⟨hne.symm, hline.imp Eq.symm Eq.symm⟩
  -- a node of the own column is linked to the neighbour only if it is in the own row
  have hrowSet : IsLine links row self sets.1 := by
    intro n
    rw [(hsets n).1, hlinked]
    have hthird := h.linked first n hend
    have hcross' := h.apart first self hend hself hrow
    grind
  refine ⟨hrowSet, fun n => ?_⟩
  rw [(hsets n).2, hlinked, hrowSet n]
  have hcross := h.apart n self
  grind

end Sets

/-- **The regions of the own node.**  They have its neighbours and the node itself, each of them
has the node and another one, and they share the node only.  In a full mesh they are its row and
its column, and so the nodes of a region are all linked. -/
theorem regions_of_links (o : UbseReplies) (links : List TopoLink) (regions : List ShmRegionDesc)
    (hlinks : o.links.2 = some links) (hok : initializeRegionList o = .ok regions) :
    let self := o.localNode.2
    (∀ n, (∃ r ∈ regions, n ∈ r.slots) ↔ n = self ∨ Linked links self n) ∧
      (∀ r ∈ regions, self ∈ r.slots ∧ ∃ n ∈ r.slots, n ≠ self) ∧
      (regions.Pairwise fun r r' => ∀ n ∈ r.slots, n ∈ r'.slots → n = self) ∧
      ∀ row col, FullMesh links row col →
        (∀ r ∈ regions, IsLine links row self r.slots ∨ IsLine links col self r.slots) ∧
          (∀ line, line = row ∨ line = col → (∃ n, OnLink links n ∧ n ≠ self ∧ line n = line self) →
            ∃ r ∈ regions, IsLine links line self r.slots) ∧
          ∀ r ∈ regions, ∀ a ∈ r.slots, ∀ b ∈ r.slots, a ≠ b → Linked links a b := by
  intro self
  obtain ⟨hne, first, sets, hfirst, hmem, hnodup, hslots⟩ :=
    slots_of_initializeRegionList hok hlinks
  have hlines : ∀ row col, FullMesh links row col →
      IsLine links row self sets.1 ∧ IsLine links col self sets.2 ∨
        IsLine links col self sets.1 ∧ IsLine links row self sets.2 := by
    intro row col hmesh
    obtain ⟨-, hrow | hcol⟩ := (hmesh.linked _ _ ⟨_, hfirst⟩ ⟨_, hfirst.symm⟩).mp hfirst
    · exact .inl (hmesh.sets hfirst hmem hrow.symm)
    · exact .inr (hmesh.swap.sets hfirst hmem hcol.symm)
  -- a set is a region when it has another node
  have hother : ∀ l, l = sets.1 ∨ l = sets.2 → (l.length > 1 ↔ ∃ n ∈ l, n ≠ self) := by
    rintro l (rfl | rfl)
    · exact one_lt_length_iff hnodup.1 ((hmem self).1.mpr (.inl rfl))
    · exact one_lt_length_iff hnodup.2 ((hmem self).2.mpr (.inl rfl))
  have hregion : ∀ r ∈ regions,
      (r.slots = sets.1 ∨ r.slots = sets.2) ∧ ∃ n ∈ r.slots, n ≠ self := by
    intro r hr
    have hin := mem_map_of_mem (f := ShmRegionDesc.slots) hr
    rw [hslots, mem_filter, mem_pair, decide_eq_true_eq] at hin
    exact ⟨hin.1, (hother _ hin.1).mp hin.2⟩
  have hset : ∀ l, l = sets.1 ∨ l = sets.2 → (∃ n ∈ l, n ≠ self) → ∃ r ∈ regions, r.slots = l := by
    intro l hl hn
    rw [← mem_map, hslots, mem_filter, mem_pair, decide_eq_true_eq]
    exact ⟨hl, (hother l hl).mpr hn⟩
  have hself : ∀ r ∈ regions, self ∈ r.slots := by
    intro r hr
    rcases (hregion r hr).1 with heq | heq
    · exact heq ▸ (hmem self).1.mpr (.inl rfl)
    · exact heq ▸ (hmem self).2.mpr (.inl rfl)
  refine ⟨fun n => ⟨?_, fun hn => ?_⟩, fun r hr => ⟨hself r hr, (hregion r hr).2⟩, ?_, ?_⟩
  · rintro ⟨r, hr, hn⟩
    rcases (hregion r hr).1 with heq | heq
    · exact ((hmem n).1.mp (heq ▸ hn)).imp_right And.left
    · exact ((hmem n).2.mp (heq ▸ hn)).imp_right And.left
  · by_cases hs : n = self
    · obtain ⟨r, hr⟩ := exists_mem_of_ne_nil regions hne
      exact ⟨r, hr, hs ▸ hself r hr⟩
    by_cases hin : n ∈ sets.1
    · obtain ⟨r, hr, heq⟩ := hset _ (.inl rfl) ⟨n, hin, hs⟩
      exact ⟨r, hr, heq ▸ hin⟩
    · have hin' := (hmem n).2.mpr (.inr ⟨hn.resolve_left hs, hin⟩)
      obtain ⟨r, hr, heq⟩ := hset _ (.inr rfl) ⟨n, hin', hs⟩
      exact ⟨r, hr, heq ▸ hin'⟩
  · have hshare : [sets.1, sets.2].Pairwise fun l l' => ∀ n ∈ l, n ∈ l' → n = self := by
      refine pairwise_pair.mpr fun n hn hn' => ?_
      exact ((hmem n).2.mp hn').resolve_right fun h => h.2 hn
    have hmap := hshare.filter fun l => decide (l.length > 1)
    rw [← hslots] at hmap
    exact pairwise_map.mp hmap
  intro row col hmesh
  have hline : ∀ r ∈ regions, IsLine links row self r.slots ∨ IsLine links col self r.slots := by
    intro r hr
    rcases (hregion r hr).1 with heq | heq <;> rw [heq]
    · exact (hlines row col hmesh).imp And.left And.left
    · exact (hlines row col hmesh).symm.imp And.right And.right
  refine ⟨hline, ?_, fun r hr a ha b hb hab => ?_⟩
  · rintro line hline ⟨n, hon, hne, hn⟩
    have hfound : ∃ l, (l = sets.1 ∨ l = sets.2) ∧ IsLine links line self l := by
      rcases hlines row col hmesh with ⟨h₁, h₂⟩ | ⟨h₁, h₂⟩ <;> rcases hline with rfl | rfl
      · exact ⟨_, .inl rfl, h₁⟩
      · exact ⟨_, .inr rfl, h₂⟩
      · exact ⟨_, .inr rfl, h₂⟩
      · exact ⟨_, .inl rfl, h₁⟩
    obtain ⟨l, hl, hisLine⟩ := hfound
    obtain ⟨r, hr, rfl⟩ := hset l hl ⟨n, (hisLine n).mpr ⟨hon, hn⟩, hne⟩
    exact ⟨r, hr, hisLine⟩
  · rcases hline r hr with hisLine | hisLine
    · obtain ⟨hona, hrowa⟩ := (hisLine a).mp ha
      obtain ⟨honb, hrowb⟩ := (hisLine b).mp hb
      exact (hmesh.linked a b hona honb).mpr ⟨hab, .inl (hrowa.trans hrowb.symm)⟩
    · obtain ⟨hona, hcola⟩ := (hisLine a).mp ha
      obtain ⟨honb, hcolb⟩ := (hisLine b).mp hb
      exact (hmesh.linked a b hona honb).mpr ⟨hab, .inr (hcola.trans hcolb.symm)⟩

/-- Four nodes in two rows and two columns. -/
def squareLinks : List TopoLink := [⟨0, 1⟩, ⟨2, 0⟩, ⟨1, 3⟩, ⟨3, 2⟩]

/-- The own node is 0. -/
def squareReplies : UbseReplies where
  load := 0
  localNode := (0, 0)
  links := (0, some squareLinks)
  nodeList := (0, some [⟨0, [97]⟩, ⟨1, [98]⟩])

theorem fullMesh_squareLinks : FullMesh squareLinks (·.toNat / 2) (·.toNat % 2) := by
  have hon : ∀ n, OnLink squareLinks n → n ∈ [0, 1, 2, 3] := by
    rintro n ⟨m, link, hmem, hends⟩
    have hlinks : ∀ link ∈ squareLinks, link.slotId ∈ [0, 1, 2, 3] ∧
        link.peerSlotId ∈ [0, 1, 2, 3] := by
      decide
    rcases hends with ⟨rfl, -⟩ | ⟨-, rfl⟩
    · exact (hlinks link hmem).1
    · exact (hlinks link hmem).2
  refine ⟨fun a b _ _ hrow hcol => UInt32.toNat_inj.mp (by omega), fun a b ha hb => ?_⟩
  have hall : ∀ a ∈ [0, 1, 2, 3], ∀ b ∈ [0, 1, 2, 3], Linked squareLinks a b ↔
      a ≠ b ∧ (a.toNat / 2 = b.toNat / 2 ∨ a.toNat % 2 = b.toNat % 2) := by
    simp [Linked, squareLinks]
  exact hall a (hon a ha) b (hon b hb)

theorem regions_of_square :
    ∃ regions, initializeRegionList squareReplies = .ok regions ∧
      regions.map ShmRegionDesc.slots = [[0, 1], [0, 2]] ∧
      (∀ r ∈ regions, 0 ∈ r.slots ∧ ∃ n ∈ r.slots, n ≠ 0) ∧
      FullMesh squareLinks (·.toNat / 2) (·.toNat % 2) ∧
      ∀ r ∈ regions, ∀ a ∈ r.slots, ∀ b ∈ r.slots, a ≠ b → Linked squareLinks a b := by
  obtain ⟨regions, hok, hslots⟩ : ∃ regions, initializeRegionList squareReplies = .ok regions ∧
      regions.map ShmRegionDesc.slots = [[0, 1], [0, 2]] := ⟨_, rfl, by decide +kernel⟩
  obtain ⟨-, hself, -, hmesh⟩ := regions_of_links squareReplies _ regions rfl hok
  exact ⟨regions, hok, hslots, hself, fullMesh_squareLinks,
    (hmesh _ _ fullMesh_squareLinks).2.2⟩

/-! ### The nodes that memory may be taken from -/

def mxmErrRegionNotFound : Int := 500

/-- The last loop of `GetRegionInfo`: the nodes with affinity. -/
def collectSlots (r : ShmRegionDesc) : List Nat → List UInt32 → Int × List UInt32
  | [], slotIds => (if slotIds = [] then mxmErrParamInvalid else 0, slotIds)
  | i :: rest, slotIds =>
    if r.affinity i then
      match strToUint (r.nodeId i) with
      | none => (mxmErrParamInvalid, slotIds)
      | some slot => collectSlots r rest (slotIds ++ [slot])
    else collectSlots r rest slotIds

/-- `UbseMemAdapter::GetRegionInfo`: the code and `slotIds`. -/
def getRegionInfo (regionMap : Map Name RegionInfo) (o : UbseReplies) (regionName : Name) :
    Int × List UInt32 :=
  if regionName = defaultRegion then
    match lookupRegionList o with
    | .error hr => (hr, [])
    | .ok [] => (0, [])
    | .ok (region :: _) =>
      collectSlots { region with affinity := fun _ => true } region.hosts []
  else
    match regionMap.lookup regionName with
    | none => (mxmErrRegionNotFound, [])
    | some info => collectSlots info.region info.region.hosts []

/-- The candidates that `LeaseMalloc` gives to UBSE, if it comes to that; `ready` and `localNode`
are the codes of `Initialize` and of `pUbseNodeLocalGet`, `allocated` says that there is an array
for the candidates. -/
def leaseMallocCandidates (regionMap : Map Name RegionInfo) (o : UbseReplies)
    (ready localNode : Int) (allocated : Bool) (regionName : Name) : Option (List UInt32) :=
  if ready ≠ 0 then none
  else if (getRegionInfo regionMap o regionName).1 ≠ 0 then none
  else if !allocated then none
  else if localNode ≠ 0 then none
  else some (getRegionInfo regionMap o regionName).2

theorem collectSlots_ok {is : List Nat} {slotIds : List UInt32}
    (h : (collectSlots r is slotIds).1 = 0) :
    (collectSlots r is slotIds).2 ≠ [] ∧ (collectSlots r is slotIds).2.map some =
      slotIds.map some ++ (is.filter r.affinity).map fun i => strToUint (r.nodeId i) := by
  have hinvalid : mxmErrParamInvalid ≠ 0 := by decide
  induction is generalizing slotIds with
  | nil =>
    refine ⟨fun hnil => hinvalid ?_, by simp [collectSlots]⟩
    rw [← h]
    exact (if_pos hnil).symm
  | cons i is ih =>
    unfold collectSlots at h ⊢
    split_ifs at h ⊢ with haffine
    · cases hslot : strToUint (r.nodeId i) with
      | none =>
        rw [hslot] at h
        exact absurd h hinvalid
      | some slot =>
        rw [hslot] at h
        obtain ⟨hne, hall⟩ := ih h
        exact ⟨hne, by simp [hall, haffine, hslot]⟩
    · obtain ⟨hne, hall⟩ := ih h
      exact ⟨hne, by simp [hall, haffine]⟩

/-- An error is not 0. -/
def Fails {α : Type} (x : Except Int α) : Prop := ∀ e, x = .error e → e ≠ 0

theorem Fails.ok (a : α) : Fails (.ok a) := nofun

theorem Fails.error (h : e ≠ 0) : Fails (.error e : Except Int α) := by
  rintro _ ⟨⟩
  exact h

theorem Fails.bind {β : Type} {x : Except Int α} {f : α → Except Int β} (hx : Fails x)
    (hf : ∀ a, Fails (f a)) : Fails (x.bind f) := by
  cases x with
  | error e => exact .error (hx e rfl)
  | ok a => exact hf a

theorem fails_initializeRegionList (o : UbseReplies) : Fails (initializeRegionList o) := by
  have hadd : ∀ nodes regions, Fails (addRegion nodes regions) := by
    intro nodes regions
    unfold addRegion fillRegionDesc
    repeat' first | exact .ok _ | exact .error (by decide) | split
  unfold initializeRegionList
  repeat' first
    | exact .ok _ | exact .error (by decide) | refine (hadd _ _).bind fun _ => ?_ | split

theorem regionError_ne {names : UInt32 → Option (List UInt8)} (h : regionError names r = some e) :
    e ≠ 0 := by
  unfold regionError at h
  split at h
  · cases h
    decide
  · obtain ⟨j, -, hj⟩ := exists_of_findSome?_eq_some h
    unfold hostError at hj
    grind [mxmErrParamInvalid, erangeAndReset]

theorem fails_populateHostNameMap (o : UbseReplies) (regions : List ShmRegionDesc) :
    Fails (populateHostNameMap o regions) := by
  unfold populateHostNameMap
  repeat' first | exact .ok _ | exact .error (by decide) | split
  next hfound =>
  obtain ⟨r, -, hr⟩ := exists_of_findSome?_eq_some hfound
  exact .error (regionError_ne hr)

theorem fails_lookupRegionList (o : UbseReplies) : Fails (lookupRegionList o) := by
  unfold lookupRegionList
  split_ifs with hload
  · exact .error hload
  · refine (fails_initializeRegionList o).bind fun regions =>
      (fails_populateHostNameMap o regions).bind fun regions => ?_
    unfold checkAndCopyRegionStatus
    repeat' first | exact .ok _ | exact .error (by decide) | split

/-- The region that a name stands for: the first that is active for the default name, with all its
nodes, and the stored one otherwise. -/
def namedRegion (regionMap : Map Name RegionInfo) (o : UbseReplies) (regionName : Name) :
    Option ShmRegionDesc :=
  if regionName = defaultRegion then
    (lookupRegionList o).toOption.bind fun regions =>
      regions.head?.map fun region => { region with affinity := fun _ => true }
  else (regionMap.lookup regionName).map RegionInfo.region

/-- Some region is active, where the default one is asked for. -/
def HasRegion (o : UbseReplies) (regionName : Name) : Prop :=
  regionName = defaultRegion → lookupRegionList o ≠ .ok []

/-- The slots are those of the nodes of the named region that have affinity, at least one. -/
def SlotsOf (regionMap : Map Name RegionInfo) (o : UbseReplies) (regionName : Name)
    (slotIds : List UInt32) : Prop :=
  slotIds ≠ [] ∧ ∃ region, namedRegion regionMap o regionName = some region ∧
    slotIds.map some =
      (region.hosts.filter region.affinity).map fun i => strToUint (region.nodeId i)

section

variable {regionMap : Map Name RegionInfo} {o : UbseReplies} {regionName : Name}

theorem slotsOf_getRegionInfo (hregion : HasRegion o regionName)
    (h : (getRegionInfo regionMap o regionName).1 = 0) :
    SlotsOf regionMap o regionName (getRegionInfo regionMap o regionName).2 := by
  have hinfo : ∃ region, namedRegion regionMap o regionName = some region ∧
      getRegionInfo regionMap o regionName = collectSlots region region.hosts [] := by
    unfold getRegionInfo at h ⊢
    unfold namedRegion
    split_ifs at h ⊢ with hname
    · cases hlook : lookupRegionList o with
      | error hr =>
        rw [hlook] at h
        exact absurd h (fails_lookupRegionList o hr hlook)
      | ok regions =>
        cases regions with
        | nil => exact absurd hlook (hregion hname)
        | cons region rest => exact ⟨_, rfl, rfl⟩
    · cases hstored : regionMap.lookup regionName with
      | none =>
        rw [hstored] at h
        exact absurd h (by decide)
      | some info => exact ⟨_, rfl, rfl⟩
  obtain ⟨region, hnamed, heq⟩ := hinfo
  rw [heq] at h ⊢
  obtain ⟨hne, hall⟩ := collectSlots_ok h
  exact ⟨hne, region, hnamed, hall⟩

theorem getRegionInfo_empty (hnone : ¬ HasRegion o regionName) :
    getRegionInfo regionMap o regionName = (0, []) := by
  obtain ⟨rfl, hlook⟩ := Classical.not_imp.mp hnone
  rw [getRegionInfo, if_pos rfl, not_not.mp hlook]

end

/-- **`GetRegionInfo` succeeds only with the nodes of the named region** that have affinity, at
least one, and `LeaseMalloc` never asks UBSE without a candidate, exactly if some region is active
where the default one is asked for. -/
theorem candidates_of_region (regionMap : Map Name RegionInfo) (o : UbseReplies)
    (regionName : Name) :
    (((getRegionInfo regionMap o regionName).1 = 0 →
        SlotsOf regionMap o regionName (getRegionInfo regionMap o regionName).2) ↔
      HasRegion o regionName) ∧
    ((∀ ready localNode allocated candidates,
        leaseMallocCandidates regionMap o ready localNode allocated regionName = some candidates →
        candidates ≠ []) ↔ HasRegion o regionName) := by
  refine ⟨⟨fun h => ?_, slotsOf_getRegionInfo⟩, fun h => ?_, fun hregion => ?_⟩
  · by_contra hnone
    rw [getRegionInfo_empty hnone] at h
    exact (h rfl).1 rfl
  · by_contra hnone
    refine h 0 0 true [] ?_ rfl
    simp [leaseMallocCandidates, getRegionInfo_empty hnone]
  · intro ready localNode allocated candidates h
    unfold leaseMallocCandidates at h
    split_ifs at h with hready hcode
    cases h
    exact (slotsOf_getRegionInfo hregion (not_not.mp hcode)).1

theorem candidates_of_square :
    (getRegionInfo ∅ squareReplies defaultRegion).1 = 0 ∧
    (getRegionInfo ∅ squareReplies defaultRegion).2 = [0, 1] ∧
    SlotsOf ∅ squareReplies defaultRegion [0, 1] :=
  have hok : getRegionInfo ∅ squareReplies defaultRegion = (0, [0, 1]) := by decide +kernel
  have hregion : HasRegion squareReplies defaultRegion := by
    by_contra hnone
    rw [getRegionInfo_empty hnone] at hok
    exact absurd hok (by decide)
  have hslots := (candidates_of_region ∅ squareReplies defaultRegion).1.mpr hregion (by rw [hok])
  ⟨by rw [hok], by rw [hok], by rwa [hok] at hslots⟩

/-- The own node is linked, but the list of nodes names neither it nor its neighbour: no region is
active, and the default region has no node. -/
def unlistedReplies : UbseReplies where
  load := 0
  localNode := (0, 1)
  links := (0, some [⟨1, 2⟩])
  nodeList := (0, some [⟨3, [97]⟩, ⟨4, [98]⟩])

theorem default_region_empty :
    getRegionInfo ∅ unlistedReplies defaultRegion = (0, []) ∧
    leaseMallocCandidates ∅ unlistedReplies 0 0 true defaultRegion = some [] := by
  decide +kernel

end UbsMem
