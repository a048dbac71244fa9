import UbsMem.CommonTypes
import UbsMem.MsgTypes

/-! # Serializing and deserializing whole messages

A message is serialized field by field and deserialized field by field into an
object that already exists; `DeserializeResult` turns the unpacker's flag into the
return value.  The results follow from the two halves of the field codec:

* what `Serialize` writes is read back, for every message type
  (`deserialize_serialize`), once the two field orders are known to agree
  (`serializeFields_eq`);
* on arbitrary bytes `Deserialize` either reads every field from the buffer or
  reports `MXM_ERR_PARAM_INVALID`, with bounded work, and a truncated message is
  always rejected (`deserialize_any_bytes`).

The second part needs no knowledge of the message types beyond that none reads a
field twice.
-/
namespace UbsMem

open Unpacker List

def deserializeResult (u : Unpacker) : Int := if !u.valid then mxmErrParamInvalid else ubsmOk

/-- Read fields in order into an object. -/
def readFields : List Member → Msg → Unpacker → Msg × Unpacker
  | [], o, u => (o, u)
  | f :: fs, o, u => readFields fs (o.set f (deserialize f.ty u).1) (deserialize f.ty u).2

/-- `Serialize` of a message. -/
def MsgType.serialize (m : MsgType) (o : Msg) : Bytes :=
  m.serializeFields.flatMap fun f => UbsMem.serialize f.ty (o f)

/-- What a call of `Deserialize` leaves behind. -/
structure Decoded where
  ret : Int
  msg : Msg
  unpacker : Unpacker

/-- `Deserialize` of a message, on an unpacker created from `b`. -/
def MsgType.deserialize (m : MsgType) (o : Msg) (b : Bytes) : Decoded :=
  let r := readFields m.deserializeFields o (Unpacker.ofBytes b)
  ⟨deserializeResult r.2, r.1, r.2⟩

/-- A message whose serialized fields are within the limits. -/
def MsgType.Fits (m : MsgType) (o : Msg) : Prop :=
  ∀ f ∈ m.serializeFields, UbsMem.Fits f.ty (o f)

/-! ### Facts about the message types -/

/-- `Deserialize` reads the fields that `Serialize` writes, in the same order. -/
theorem MsgType.serializeFields_eq (m : MsgType) : m.serializeFields = m.deserializeFields := by
  cases m <;> rfl

theorem MsgType.nodup_deserializeFields (m : MsgType) : m.deserializeFields.Nodup := by
  cases m <;> decide

/-! ### Reading a list of fields -/

theorem readFields_append (fs gs : List Member) (o : Msg) (u : Unpacker) :
    readFields (fs ++ gs) o u = readFields gs (readFields fs o u).1 (readFields fs o u).2 := by
  induction fs generalizing o u with
  | nil => rfl
  | cons f fs ih => exact ih _ _

variable {fs : List Member} {u : Unpacker} {o : Msg} {m : MsgType}

theorem readFields_frame {f : Member} (h : f ∉ fs) (o : Msg) (u : Unpacker) :
    (readFields fs o u).1 f = o f := by
  induction fs generalizing o u with
  | nil => rfl
  | cons g fs ih =>
    obtain ⟨hne, hmem⟩ : f ≠ g ∧ f ∉ fs := by simpa using h
    rw [readFields, ih hmem, Msg.set_of_ne hne]

/-- After a failure every later field fails too: it is left at its default, and
nothing more is read. -/
theorem readFields_sticky (hu : u.valid = false) (fs : List Member) (o : Msg) :
    (readFields fs o u).2 = u ∧ ∀ f ∈ fs, (readFields fs o u).1 f = f.ty.fresh := by
  induction fs generalizing o with
  | nil => simp [readFields]
  | cons g fs ih =>
    have hskip := (deserialize_complies g.ty).sticky u hu
    have hstep : readFields (g :: fs) o u = readFields fs (o.set g g.ty.fresh) u := by
      rw [readFields, hskip]
    obtain ⟨hstate, hfields⟩ := ih (o.set g g.ty.fresh)
    rw [hstep]
    refine ⟨hstate, fun f hf => ?_⟩
    by_cases hmem : f ∈ fs
    · exact hfields f hmem
    · obtain rfl : f = g := (mem_cons.mp hf).resolve_right hmem
      rw [readFields_frame hmem, Msg.set_self]

/-- The segments `segs` spell the fields `fs` of an object. -/
def FieldsRead (fs : List Member) (o : Msg) (segs : List Bytes) : Prop :=
  List.Forall₂ (fun f seg => Reads f.ty seg (o f)) fs segs

theorem readFields_sound (hnd : fs.Nodup) (o : Msg) (u : Unpacker) (hu : u.Ready) :
    (∃ segs, FieldsRead fs (readFields fs o u).1 segs ∧ (readFields fs o u).2.Ready ∧
      u.rest = segs.flatten ++ (readFields fs o u).2.rest ∧
      (readFields fs o u).2.inStream.data = u.inStream.data ∧
      (readFields fs o u).2.iterations ≤ u.iterations + segs.flatten.length) ∨
    Rejects u (readFields fs o u).2 := by
  induction fs generalizing o u with
  | nil => exact .inl ⟨[], .nil, hu, rfl, rfl, Nat.le_refl _⟩
  | cons f fs ih =>
    obtain ⟨hf, hnd⟩ := nodup_cons.mp hnd
    rcases (deserialize_complies f.ty).sound u hu with ⟨seg, hseg, hadv⟩ | hrej
    · rcases ih hnd (o.set f (deserialize f.ty u).1) (deserialize f.ty u).2 hadv.ready with
        ⟨segs, hsegs, hready, hrest, hdata, hit⟩ | hrej
      · refine .inl ⟨seg :: segs, .cons ?_ hsegs, hready, ?_, hdata.trans hadv.data, ?_⟩
        · rw [readFields, readFields_frame hf, Msg.set_self]
          exact hseg
        · rw [hadv.split, hrest, flatten_cons, append_assoc]
          rfl
        · have hcount := hadv.count
          show (readFields fs _ (deserialize f.ty u).2).2.iterations ≤ _
          rw [flatten_cons, length_append]
          omega
      · exact .inr (hadv.rejects hrej)
    · have hskip := (readFields_sticky hrej.invalid fs (o.set f (deserialize f.ty u).1)).1
      refine .inr ?_
      rw [readFields, hskip]
      exact hrej

theorem readFields_complete {o' : Msg} {segs : List Bytes} (h : FieldsRead fs o' segs) :
    ∀ (o : Msg) (u : Unpacker) (rest : Bytes), u.Ready → u.rest = segs.flatten ++ rest →
      (∀ f ∈ fs, (readFields fs o u).1 f = o' f) ∧ (readFields fs o u).2.Ready ∧
        (readFields fs o u).2.rest = rest := by
  induction h with
  | nil =>
    intro o u rest hu hrest
    exact ⟨by simp, hu, hrest⟩
  | @cons f seg fs segs hf _ ih =>
    intro o u rest hu hrest
    obtain ⟨hval, hready, hrest'⟩ := (deserialize_complies f.ty).complete u seg
      (segs.flatten ++ rest) (o' f) hu (by rw [hrest, flatten_cons, append_assoc]) hf
    obtain ⟨hfields, hready', hrest''⟩ :=
      ih (o.set f (deserialize f.ty u).1) (deserialize f.ty u).2 rest hready hrest'
    refine ⟨fun g hg => ?_, hready', hrest''⟩
    by_cases hmem : g ∈ fs
    · exact hfields g hmem
    · obtain rfl : g = f := (mem_cons.mp hg).resolve_right hmem
      rw [readFields, readFields_frame hmem, Msg.set_self, hval]

theorem fieldsRead_serialize (h : ∀ f ∈ fs, UbsMem.Fits f.ty (o f)) :
    FieldsRead fs o (fs.map fun f => UbsMem.serialize f.ty (o f)) := by
  induction fs with
  | nil => exact .nil
  | cons f fs ih =>
    exact .cons (reads_serialize f.ty (o f) (h f mem_cons_self))
      (ih fun g hg => h g (mem_cons_of_mem f hg))

/-! ### Whole messages -/

theorem deserializeResult_of_valid (h : u.valid = true) : deserializeResult u = ubsmOk := by
  simp [deserializeResult, h]

theorem deserializeResult_of_invalid (h : u.valid = false) :
    deserializeResult u = mxmErrParamInvalid := by
  simp [deserializeResult, h]

/-- What `Serialize` writes is accepted, read back and used up. -/
theorem deserialize_roundTrip (h : m.Fits o) (o₀ : Msg) :
    (∀ f ∈ m.deserializeFields, (m.deserialize o₀ (m.serialize o)).msg f = o f) ∧
      (m.deserialize o₀ (m.serialize o)).unpacker.Ready ∧
      (m.deserialize o₀ (m.serialize o)).unpacker.rest = [] := by
  have hflat : m.serialize o =
      (m.deserializeFields.map fun f => UbsMem.serialize f.ty (o f)).flatten := by
    rfl
  have hread : FieldsRead m.deserializeFields o
      (m.deserializeFields.map fun f => UbsMem.serialize f.ty (o f)) :=
    fieldsRead_serialize fun f hf => h f (by rw [m.serializeFields_eq]; exact hf)
  exact readFields_complete hread o₀ (Unpacker.ofBytes (m.serialize o)) [] (ready_ofBytes _)
    (by rw [append_nil, ← hflat]; rfl)

/-- **Round trip.** For every message type, every object whose serialized fields
are within the limits, and every object it is read into: the bytes produced by
`Serialize` are accepted, every serialized field is restored, and the whole buffer
is consumed. -/
theorem deserialize_serialize (m : MsgType) (o o₀ : Msg) (h : m.Fits o) :
    (m.deserialize o₀ (m.serialize o)).ret = ubsmOk ∧
      (∀ f ∈ m.serializeFields, (m.deserialize o₀ (m.serialize o)).msg f = o f) ∧
      (m.deserialize o₀ (m.serialize o)).unpacker.remaining = 0 := by
  obtain ⟨hfields, hready, hrest⟩ := deserialize_roundTrip h o₀
  refine ⟨deserializeResult_of_valid hready.1, ?_, ?_⟩
  · rw [m.serializeFields_eq]
    exact hfields
  · have hlen := InStream.length_rest (m.deserialize o₀ (m.serialize o)).unpacker.inStream
    rw [Unpacker.remaining, ← hlen]
    exact length_eq_zero_iff.mpr hrest

/-- An object of freshly constructed fields. -/
def Msg.fresh : Msg := fun f => f.ty.fresh

/-- A broadcast of the node `"1"` with one entry in its node table. -/
def sampleBroadcast : Msg :=
  (Msg.fresh.set .nodeId [49]).set .nodesById
    (StdMap.empty.emplace ([49], { ClusterNode.empty with ip := [49, 48], port := ⟨[1, 2], rfl⟩ }))

theorem sampleBroadcast_fits : MsgType.broadcastRequest.Fits sampleBroadcast := by
  intro f hf
  simp only [MsgType.serializeFields, msgBase, MsgType.writes, cons_append, nil_append, mem_cons,
    not_mem_nil, or_false] at hf
  rcases hf with rfl | rfl | rfl | rfl | rfl | rfl
  · trivial
  · trivial
  · trivial
  · show (sampleBroadcast .nodeId : Bytes).length ≤ maxAllowedSize
    decide
  · show (sampleBroadcast .nodesById : StdMap ClusterNode).entries.length ≤ maxAllowedSize ∧
      ∀ item ∈ (sampleBroadcast .nodesById : StdMap ClusterNode).entries, _
    refine ⟨by decide, fun item hitem => ?_⟩
    obtain rfl := mem_singleton.mp hitem
    exact ⟨by decide, by decide, by decide⟩
  · trivial

/-- The round trip at a broadcast with a node table. -/
theorem sampleBroadcast_roundTrip :
    (MsgType.broadcastRequest.deserialize Msg.fresh
        (MsgType.broadcastRequest.serialize sampleBroadcast)).ret = ubsmOk ∧
      (∀ f ∈ MsgType.broadcastRequest.serializeFields,
        (MsgType.broadcastRequest.deserialize Msg.fresh
          (MsgType.broadcastRequest.serialize sampleBroadcast)).msg f = sampleBroadcast f) ∧
      (MsgType.broadcastRequest.deserialize Msg.fresh
        (MsgType.broadcastRequest.serialize sampleBroadcast)).unpacker.remaining = 0 :=
  deserialize_serialize .broadcastRequest sampleBroadcast Msg.fresh sampleBroadcast_fits

/-- **No message can be read in two ways**, whatever follows it. -/
theorem serialize_unambiguous {o' : Msg} (h : m.Fits o) (h' : m.Fits o') {t t' : Bytes}
    (heq : m.serialize o ++ t = m.serialize o' ++ t') :
    t = t' ∧ ∀ f ∈ m.serializeFields, o f = o' f := by
  have hread := fun {o t} (h : m.Fits o) => readFields_complete (fieldsRead_serialize h) .fresh
    (.ofBytes (m.serialize o ++ t)) t (ready_ofBytes _) rfl
  obtain ⟨hfields, -, hrest⟩ := hread h
  obtain ⟨hfields', -, hrest'⟩ := hread h'
  rw [heq] at hfields hrest
  exact ⟨hrest.symm.trans hrest', fun f hf => (hfields f hf).symm.trans (hfields' f hf)⟩

theorem MsgType.Fits.set {f : Member} (h : m.Fits o) (hf : f ∉ m.serializeFields) (v : f.ty.Val) :
    m.Fits (o.set f v) := by
  intro g hg
  have hne : g ≠ f := by
    rintro rfl
    exact hf hg
  rw [Msg.set_of_ne hne]
  exact h g hg

/-- Two broadcasts that differ in a field which is not sent, before other bytes. -/
theorem sampleBroadcast_unambiguous : ∃ o o' : Msg, (o .name : Bytes) ≠ o' .name ∧
    MsgType.broadcastRequest.serialize o ++ [1, 2] =
      MsgType.broadcastRequest.serialize o' ++ [1, 2] ∧
    ∀ f ∈ MsgType.broadcastRequest.serializeFields, o f = o' f := by
  have heq : MsgType.broadcastRequest.serialize sampleBroadcast ++ [1, 2] =
      MsgType.broadcastRequest.serialize (sampleBroadcast.set .name [7]) ++ [1, 2] := rfl
  have hname : ([] : Bytes) ≠ [7] := by decide
  exact ⟨_, _, hname, heq, (serialize_unambiguous sampleBroadcast_fits
    (sampleBroadcast_fits.set (by decide) _) heq).2⟩

/-- **A truncated message is rejected.**  If `b` is accepted and used up, no strict
prefix of it is accepted: what a prefix spells would be read from `b` as well and
leave the missing bytes over. -/
theorem deserialize_strict_take {o₁ : Msg} {b p t : Bytes} (hb : b = p ++ t) (ht : t ≠ [])
    (hrest : (m.deserialize o₁ b).unpacker.rest = []) (o₀ : Msg) :
    (m.deserialize o₀ p).ret = mxmErrParamInvalid := by
  rcases readFields_sound m.nodup_deserializeFields o₀ (Unpacker.ofBytes p) (ready_ofBytes p) with
    ⟨segs, hsegs, -, hsplit, -, -⟩ | hrej
  · have hb' : (Unpacker.ofBytes b).rest =
        segs.flatten ++ ((m.deserialize o₀ p).unpacker.rest ++ t) := by
      rw [rest_ofBytes, hb, ← append_assoc]
      exact congrArg (· ++ t) hsplit
    obtain ⟨-, -, hleft⟩ :=
      readFields_complete hsegs o₁ (Unpacker.ofBytes b) _ (ready_ofBytes b) hb'
    have hnil : (m.deserialize o₀ p).unpacker.rest ++ t = [] := hleft.symm.trans hrest
    exact absurd (append_eq_nil_iff.mp hnil).2 ht
  · exact deserializeResult_of_invalid hrej.invalid

/-- **Deserialization of arbitrary bytes.**  For every message type, every object
read into and every byte string:

* the read position stays inside the buffer, and there are at most as many
  container iterations as the buffer has bytes;
* the call returns success, with every field spelled by its own segment of the
  buffer, or `MXM_ERR_PARAM_INVALID`;
* once the fields before some point have failed, the fields after it are left at
  their defaults, nothing more is read and the call fails;
* no strict prefix of a buffer that is accepted and used up is accepted, and no
  strict prefix of the bytes written for a message within the limits. -/
theorem deserialize_any_bytes (m : MsgType) (o : Msg) (b : Bytes) :
    ((m.deserialize o b).unpacker.inStream.data = b ∧
      (m.deserialize o b).unpacker.inStream.pos ≤ b.length) ∧
    (m.deserialize o b).unpacker.iterations ≤ b.length ∧
    ((m.deserialize o b).ret = ubsmOk ∧
        (∃ segs, FieldsRead m.deserializeFields (m.deserialize o b).msg segs ∧
          b = segs.flatten ++ (m.deserialize o b).unpacker.rest) ∨
      (m.deserialize o b).ret = mxmErrParamInvalid) ∧
    (∀ fs gs, m.deserializeFields = fs ++ gs →
      (readFields fs o (Unpacker.ofBytes b)).2.valid = false →
      (m.deserialize o b).unpacker = (readFields fs o (Unpacker.ofBytes b)).2 ∧
        (∀ f ∈ gs, (m.deserialize o b).msg f = f.ty.fresh) ∧
        (m.deserialize o b).ret = mxmErrParamInvalid) ∧
    (∀ p t, b = p ++ t → t ≠ [] → (m.deserialize o b).ret = ubsmOk →
      (m.deserialize o b).unpacker.remaining = 0 →
      (m.deserialize o p).ret = mxmErrParamInvalid) ∧
    (∀ o', m.Fits o' → ∀ p t, m.serialize o' = p ++ t → t ≠ [] →
      (m.deserialize o p).ret = mxmErrParamInvalid) := by
  have hsound := readFields_sound m.nodup_deserializeFields o (Unpacker.ofBytes b) (ready_ofBytes b)
  have hdata : (m.deserialize o b).unpacker.inStream.data = b := by
    rcases hsound with ⟨segs, -, -, -, hdata, -⟩ | hrej
    · exact hdata
    · exact hrej.data
  refine ⟨⟨hdata, ?_⟩, ?_, ?_, ?_, ?_, ?_⟩
  · have hpos := (m.deserialize o b).unpacker.inStream.pos_le
    rwa [hdata] at hpos
  · rcases hsound with ⟨segs, -, -, hsplit, -, hit⟩ | hrej
    · have hlen := congrArg List.length hsplit
      rw [rest_ofBytes, length_append] at hlen
      have h0 : (Unpacker.ofBytes b).iterations = 0 := rfl
      show (readFields m.deserializeFields o (Unpacker.ofBytes b)).2.iterations ≤ b.length
      omega
    · have hcount := hrej.count
      exact hcount.trans_eq (Nat.zero_add _)
  · rcases hsound with ⟨segs, hsegs, hready, hsplit, -, -⟩ | hrej
    · exact .inl ⟨deserializeResult_of_valid hready.1, segs, hsegs, hsplit⟩
    · exact .inr (deserializeResult_of_invalid hrej.invalid)
  · intro fs gs hfs hinv
    obtain ⟨hstate, hfields⟩ :=
      readFields_sticky hinv gs (readFields fs o (Unpacker.ofBytes b)).1
    have happ := readFields_append fs gs o (Unpacker.ofBytes b)
    rw [← hfs] at happ
    have hstate' : (m.deserialize o b).unpacker = (readFields fs o (Unpacker.ofBytes b)).2 := by
      show (readFields m.deserializeFields o (Unpacker.ofBytes b)).2 = _
      rw [happ, hstate]
    refine ⟨hstate', fun f hf => ?_, ?_⟩
    · show (readFields m.deserializeFields o (Unpacker.ofBytes b)).1 f = _
      rw [happ, hfields f hf]
    · show deserializeResult (m.deserialize o b).unpacker = _
      rw [hstate']
      exact deserializeResult_of_invalid hinv
  · intro p t hb ht _ hrem
    have hrest : (m.deserialize o b).unpacker.rest = [] := by
      apply length_eq_zero_iff.mp
      exact (InStream.length_rest _).trans hrem
    exact deserialize_strict_take hb ht hrest o
  · intro o' hfits p t hb ht
    obtain ⟨-, -, hrest⟩ := deserialize_roundTrip hfits o
    exact deserialize_strict_take hb ht hrest o

end UbsMem
