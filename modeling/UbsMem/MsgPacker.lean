import UbsMem.StickyDecoder
import Mathlib.Data.List.Sort

/-! # The message packer and unpacker

`NetMsgPacker` writes a field as follows: a trivially copyable object as its
bytes, a string as a 32-bit length and its bytes, a vector or a map as a 64-bit
element count and its elements in order.  `NetMsgUnpacker` reads the same layout
from untrusted bytes; every length is checked against `MAX_ALLOWED_SIZE` and
against what is left in the buffer before it drives a loop.

`FieldTy` describes the C++ types that occur in messages and `FieldTy.Val` their
values.  `Reads t seg v` states the layout without reference to the code.  The
two halves of the module meet there: the unpacker implements `Reads`
(`deserialize_complies`) and the packer produces it for every value within the
limits (`reads_serialize`).
-/
namespace UbsMem

open List

/-- `MAX_ALLOWED_SIZE`: 1 MiB. -/
def maxAllowedSize : Nat := 1024 * 1024

/-! ### Field types and their values -/

/-- A trivially copyable object of `n` bytes. -/
structure Pod (n : Nat) where
  bytes : Bytes
  length_eq : bytes.length = n

/-- `T{}`: all bytes zero. -/
def Pod.zero (n : Nat) : Pod n := ⟨List.replicate n 0, length_replicate⟩

/-- The object with the given bytes, if there are as many as it has. -/
def Pod.ofBytes (n : Nat) (b : Bytes) : Pod n :=
  if h : b.length = n then ⟨b, h⟩ else Pod.zero n

variable {n : Nat} {α : Type} {v : Bytes}

theorem Pod.bytes_ofBytes {b : Bytes} (h : b.length = n) : (Pod.ofBytes n b).bytes = b := by
  unfold Pod.ofBytes
  rw [dif_pos h]

@[simp] theorem Pod.ofBytes_bytes (v : Pod n) : Pod.ofBytes n v.bytes = v := by
  unfold Pod.ofBytes
  rw [dif_pos v.length_eq]

theorem Pod.leBytes_leNat (v : Pod n) : leBytes n (leNat v.bytes) = v.bytes := by
  obtain ⟨b, rfl⟩ := v
  exact UbsMem.leBytes_leNat b

structure ClusterNode where
  id : Bytes
  ip : Bytes
  port : Pod 2
  isMaster : Pod 1
  lastSeen : Pod 8
  isActive : Pod 1
  type : Pod 4

/-- `ClusterNode{}`. -/
def ClusterNode.empty : ClusterNode := ⟨[], [], .zero 2, .zero 1, .zero 8, .zero 1, .zero 4⟩

/-- A `std::map` with string keys: its entries in strictly increasing key order. -/
@[ext] structure StdMap (V : Type) where
  entries : List (Bytes × V)
  sorted : entries.Pairwise (fun a b => a.1 < b.1)

namespace StdMap

variable {V : Type}

/-- The empty map. -/
def empty : StdMap V := ⟨[], .nil⟩

/-- Insert into a sorted list, keeping an entry that is already there. -/
def insertEntry (k : Bytes) (v : V) : List (Bytes × V) → List (Bytes × V)
  | [] => [(k, v)]
  | e :: es =>
    if k < e.1 then (k, v) :: e :: es
    else if k = e.1 then e :: es
    else e :: insertEntry k v es

variable {l : List (Bytes × V)} {k : Bytes} {v : V}

theorem mem_insertEntry {e : Bytes × V} (h : e ∈ insertEntry k v l) : e = (k, v) ∨ e ∈ l := by
  induction l with
  | nil => simpa [insertEntry] using h
  | cons x xs ih =>
    unfold insertEntry at h
    split_ifs at h with h1 h2
    · simpa using h
    · exact .inr h
    · rcases mem_cons.mp h with rfl | h
      · exact .inr mem_cons_self
      · exact (ih h).imp_right (mem_cons_of_mem x)

theorem pairwise_insertEntry (h : l.Pairwise (fun a b => a.1 < b.1)) :
    (insertEntry k v l).Pairwise (fun a b => a.1 < b.1) := by
  induction l with
  | nil => exact pairwise_singleton _ _
  | cons x xs ih =>
    obtain ⟨hx, hxs⟩ := pairwise_cons.mp h
    unfold insertEntry
    split_ifs with h1 h2
    · refine pairwise_cons.mpr ⟨fun e he => ?_, h⟩
      rcases mem_cons.mp he with rfl | he
      · exact h1
      · exact List.lt_trans h1 (hx e he)
    · exact h
    · refine pairwise_cons.mpr ⟨fun e he => ?_, ih hxs⟩
      rcases mem_insertEntry he with rfl | he
      · by_contra h3
        exact h2 (List.le_antisymm (List.not_lt.mp h3) (List.not_lt.mp h1))
      · exact hx e he

/-- `emplace`: the first entry of a key wins. -/
def emplace (m : StdMap V) (e : Bytes × V) : StdMap V :=
  ⟨insertEntry e.1 e.2 m.entries, pairwise_insertEntry m.sorted⟩

theorem insertEntry_append (h : ∀ e ∈ l, e.1 < k) : insertEntry k v l = l ++ [(k, v)] := by
  induction l with
  | nil => rfl
  | cons x xs ih =>
    have hx : x.1 < k := h x mem_cons_self
    have hne : ¬ k = x.1 := fun heq => List.lt_irrefl k (by rw [← heq] at hx; exact hx)
    rw [insertEntry, if_neg (List.lt_asymm hx), if_neg hne,
      ih fun e he => h e (mem_cons_of_mem x he), cons_append]

/-- Emplacing the entries of a map in order, behind smaller ones, rebuilds it. -/
theorem foldl_emplace (m : StdMap V) (h : (m.entries ++ l).Pairwise (fun a b => a.1 < b.1)) :
    (l.foldl emplace m).entries = m.entries ++ l := by
  induction l generalizing m with
  | nil => simp
  | cons e l ih =>
    have hlt : ∀ x ∈ m.entries, x.1 < e.1 := fun x hx =>
      (pairwise_append.mp h).2.2 x hx e mem_cons_self
    have hentries : (m.emplace e).entries = m.entries ++ [e] := insertEntry_append hlt
    rw [foldl_cons, ih (m.emplace e) (by rw [hentries]; simpa using h), hentries]
    simp

@[simp] theorem foldl_emplace_empty (m : StdMap V) : m.entries.foldl emplace empty = m := by
  have h := foldl_emplace (empty : StdMap V) (by simpa [empty] using m.sorted)
  simpa [StdMap.ext_iff, empty] using h

end StdMap

/-- The C++ types of message fields.  `pod` is any trivially copyable type, with
its `sizeof`; maps have string keys. -/
inductive FieldTy
  | pod (size : Nat) (pos : 0 < size)
  | string
  | clusterNode
  | vector (elem : FieldTy)
  | map (value : FieldTy)
  deriving DecidableEq

/-- The values of a field type. -/
def FieldTy.Val : FieldTy → Type
  | .pod n _ => Pod n
  | .string => Bytes
  | .clusterNode => ClusterNode
  | .vector t => List t.Val
  | .map t => StdMap t.Val

/-- The value of a freshly constructed field. -/
def FieldTy.fresh : (t : FieldTy) → t.Val
  | .pod n _ => Pod.zero n
  | .string => ([] : Bytes)
  | .clusterNode => ClusterNode.empty
  | .vector t => ([] : List t.Val)
  | .map t => (StdMap.empty : StdMap t.Val)

/-! ### `NetMsgPacker` -/

/-- `Serialize(const std::string &)`: the size is a `uint32_t`, and only that
many bytes are written. -/
def serializeString (v : Bytes) : Bytes :=
  leBytes 4 (v.length % 2 ^ 32) ++ v.take (v.length % 2 ^ 32)

/-- `Serialize(const rpc::ClusterNode &)`. -/
def serializeClusterNode (v : ClusterNode) : Bytes :=
  serializeString v.id ++ (serializeString v.ip ++ (v.port.bytes ++ (v.isMaster.bytes ++
    (v.lastSeen.bytes ++ (v.isActive.bytes ++ v.type.bytes)))))

/-- The bytes `NetMsgPacker::Serialize` appends for a field. -/
def serialize : (t : FieldTy) → t.Val → Bytes
  | .pod _ _, v => Pod.bytes v
  | .string, v => serializeString v
  | .clusterNode, v => serializeClusterNode v
  | .vector t, v => leBytes 8 (List.length v) ++ List.flatMap (serialize t) v
  | .map t, v =>
    leBytes 8 (StdMap.entries v).length ++
      (StdMap.entries v).flatMap fun item => serializeString item.1 ++ serialize t item.2

/-! ### `NetMsgUnpacker` -/

def Unpacker.remaining (u : Unpacker) : Nat := u.inStream.inAvail

/-- `Deserialize(T &)` for a trivially copyable `T` of `n` bytes. -/
def deserializePod (n : Nat) : Unpack (Pod n) := fun u =>
  if u.valid && !(u.inStream.read n).2.fail then
    (Pod.ofBytes n (u.inStream.read n).1, { u with inStream := (u.inStream.read n).2 })
  else if u.valid then (Pod.zero n, { u with inStream := (u.inStream.read n).2, valid := false })
  else (Pod.zero n, u.reject)

/-- A `w`-byte size, the checks on it, and what is read under that size: the
common shape of strings, vectors and maps.  `limit` turns the bytes that are left
into the largest size accepted. -/
def deserializeSized {α : Type} (w : Nat) (limit : Nat → Nat) (empty : α)
    (body : Nat → Unpack α) : Unpack α := fun u =>
  let r := deserializePod w u
  let size := leNat r.1.bytes
  if !r.2.valid || decide (maxAllowedSize < size) || decide (limit r.2.remaining < size) then
    (empty, r.2.reject)
  else body size r.2

/-- The characters of a string whose size has been read. -/
def deserializeChars (size : Nat) : Unpack Bytes := fun u =>
  if size ≠ 0 then
    if (u.inStream.read size).2.fail then
      ([], { u with inStream := (u.inStream.read size).2, valid := false })
    else ((u.inStream.read size).1, { u with inStream := (u.inStream.read size).2 })
  else ([], u)

/-- `Deserialize(std::string &)`. -/
def deserializeString : Unpack Bytes := deserializeSized 4 id [] deserializeChars

/-- The fields of a node in the order they are read. -/
def ClusterNode.ofFields
    (v : Bytes × Bytes × Pod 2 × Pod 1 × Pod 8 × Pod 1 × Pod 4) : ClusterNode :=
  ⟨v.1, v.2.1, v.2.2.1, v.2.2.2.1, v.2.2.2.2.1, v.2.2.2.2.2.1, v.2.2.2.2.2.2⟩

/-- `Deserialize(rpc::ClusterNode &)`: the node is assigned only if every field
was read. -/
def deserializeClusterNode : Unpack ClusterNode :=
  Unpack.assign
    (Unpack.pair deserializeString (Unpack.pair deserializeString
      (Unpack.pair (deserializePod 2) (Unpack.pair (deserializePod 1)
        (Unpack.pair (deserializePod 8) (Unpack.pair (deserializePod 1) (deserializePod 4)))))))
    ClusterNode.ofFields ClusterNode.empty

def emplaceBack {α : Type} (container : List α) (item : α) : List α := container ++ [item]

/-- `NetMsgUnpacker::Deserialize` of a field. -/
def deserialize : (t : FieldTy) → Unpack t.Val
  | .pod n _ => deserializePod n
  | .string => deserializeString
  | .clusterNode => deserializeClusterNode
  | .vector t =>
    deserializeSized 8 id [] fun size => Unpack.loop (deserialize t) emplaceBack [] size []
  | .map t =>
    deserializeSized 8 (· / 2) StdMap.empty fun size =>
      Unpack.loop (Unpack.pair deserializeString (deserialize t)) StdMap.emplace StdMap.empty size
        StdMap.empty

/-! ### The layout -/

/-- The bytes of an object spell it. -/
def PodReads (n : Nat) (seg : Bytes) (v : Pod n) : Prop := seg = v.bytes

/-- A size within the limits, then a body of that size. -/
def SizedReads {α : Type} (w : Nat) (B : Nat → Bytes → α → Prop) (seg : Bytes) (v : α) : Prop :=
  ∃ size s, size ≤ maxAllowedSize ∧ seg = leBytes w size ++ s ∧ B size s v

/-- As many characters as the size says. -/
def CharsReads (size : Nat) (seg v : Bytes) : Prop := seg = v ∧ v.length = size

/-- The layout of a string. -/
def StringReads : Bytes → Bytes → Prop := SizedReads 4 CharsReads

/-- The layout of a node. -/
def ClusterNodeReads : Bytes → ClusterNode → Prop :=
  MapReads (PairReads StringReads (PairReads StringReads (PairReads (PodReads 2)
    (PairReads (PodReads 1) (PairReads (PodReads 8) (PairReads (PodReads 1) (PodReads 4)))))))
    ClusterNode.ofFields

/-- **The layout of a field**: the bytes `seg` spell the value `v` of type `t`. -/
def Reads : (t : FieldTy) → Bytes → t.Val → Prop
  | .pod n _ => PodReads n
  | .string => StringReads
  | .clusterNode => ClusterNodeReads
  | .vector t => SizedReads 8 (LoopReads (Reads t) emplaceBack [])
  | .map t => SizedReads 8 (LoopReads (PairReads StringReads (Reads t)) StdMap.emplace StdMap.empty)

/-! ### The unpacker implements the layout -/

theorem deserializePod_complies (hn : 0 < n) :
    Complies (deserializePod n) (PodReads n) (Pod.zero n) where
  sticky u hu := by
    cases u
    simp_all [deserializePod, Unpacker.reject]
  sound u hu := by
    obtain ⟨hvalid, hfail⟩ := hu
    by_cases hlen : n ≤ u.rest.length
    · obtain ⟨hbytes, hok, hrest⟩ := InStream.read_of_le hfail hlen
      have hlen' : (u.inStream.read n).1.length = n := by
        rw [hbytes, length_take]
        exact Nat.min_eq_left hlen
      refine .inl ⟨(u.inStream.read n).1, ?_, ?_⟩
      · simp [deserializePod, hvalid, hok, PodReads, Pod.bytes_ofBytes hlen']
      · have hres : (deserializePod n u).2 = { u with inStream := (u.inStream.read n).2 } := by
          simp [deserializePod, hvalid, hok]
        rw [hres]
        refine ⟨⟨hvalid, hok⟩, ?_, InStream.read_data _ _, ?_⟩
        · show u.inStream.rest = (u.inStream.read n).1 ++ (u.inStream.read n).2.rest
          rw [hbytes, hrest, take_append_drop]
        · show u.iterations < u.iterations + _
          omega
    · have hfail' := InStream.read_of_lt hfail (Nat.lt_of_not_le hlen)
      have hres : (deserializePod n u).2 =
          { u with inStream := (u.inStream.read n).2, valid := false } := by
        simp [deserializePod, hvalid, hfail']
      rw [hres]
      exact .inr ⟨rfl, InStream.read_data _ _, Nat.le_add_right _ _⟩
  complete u seg rest v hu hrest hv := by
    obtain ⟨hvalid, hfail⟩ := hu
    obtain rfl : seg = v.bytes := hv
    have hlen : n ≤ u.inStream.rest.length := by
      show n ≤ u.rest.length
      rw [hrest, length_append, v.length_eq]
      exact Nat.le_add_right _ _
    obtain ⟨hbytes, hok, hrest'⟩ := InStream.read_of_le hfail hlen
    have htake : u.inStream.rest = v.bytes ++ rest := hrest
    have hval : (u.inStream.read n).1 = v.bytes := by
      rw [hbytes, htake, take_left' v.length_eq]
    have hres : deserializePod n u = (v, { u with inStream := (u.inStream.read n).2 }) := by
      simp [deserializePod, hvalid, hok, hval]
    rw [hres]
    refine ⟨rfl, ⟨hvalid, hok⟩, ?_⟩
    show (u.inStream.read n).2.rest = rest
    rw [hrest', htake, drop_left' v.length_eq]

theorem deserializeChars_body : BodyComplies deserializeChars CharsReads where
  sound size u hu := by
    obtain ⟨hvalid, hfail⟩ := hu
    by_cases hsize : size = 0
    · subst hsize
      exact .inl ⟨[], ⟨rfl, rfl⟩, ⟨hvalid, hfail⟩, rfl, rfl, Nat.le_refl _⟩
    by_cases hlen : size ≤ u.rest.length
    · obtain ⟨hbytes, hok, hrest⟩ := InStream.read_of_le hfail hlen
      have hres : deserializeChars size u =
          ((u.inStream.read size).1, { u with inStream := (u.inStream.read size).2 }) := by
        simp [deserializeChars, hsize, hok]
      rw [hres]
      refine .inl ⟨(u.inStream.read size).1, ⟨rfl, ?_⟩, ⟨hvalid, hok⟩, ?_,
        InStream.read_data _ _, Nat.le_add_right _ _⟩
      · rw [hbytes, length_take]
        exact Nat.min_eq_left hlen
      · show u.inStream.rest = (u.inStream.read size).1 ++ (u.inStream.read size).2.rest
        rw [hbytes, hrest, take_append_drop]
    · have hfail' := InStream.read_of_lt hfail (Nat.lt_of_not_le hlen)
      have hres : (deserializeChars size u).2 =
          { u with inStream := (u.inStream.read size).2, valid := false } := by
        simp [deserializeChars, hsize, hfail']
      rw [hres]
      refine .inr ⟨rfl, InStream.read_data _ _, ?_⟩
      show u.iterations ≤ _
      omega
  complete size u seg rest v hu hrest hv := by
    obtain ⟨hvalid, hfail⟩ := hu
    obtain ⟨rfl, rfl⟩ := hv
    by_cases hsize : seg.length = 0
    · have hnil : seg = [] := length_eq_zero_iff.mp hsize
      subst hnil
      exact ⟨rfl, ⟨hvalid, hfail⟩, hrest⟩
    have htake : u.inStream.rest = seg ++ rest := hrest
    obtain ⟨hbytes, hok, hrest'⟩ :=
      InStream.read_of_le (n := seg.length) hfail (by rw [htake, length_append]; omega)
    have hres : deserializeChars seg.length u = ((u.inStream.read seg.length).1,
          { u with inStream := (u.inStream.read seg.length).2 }) := by
      simp [deserializeChars, hsize, hok]
    rw [hres]
    refine ⟨?_, ⟨hvalid, hok⟩, ?_⟩
    · show (u.inStream.read seg.length).1 = seg
      rw [hbytes, htake, take_left]
    · show (u.inStream.read seg.length).2.rest = rest
      rw [hrest', htake, drop_left]

/-- **Sized reads comply**, provided a body of a given size has enough bytes to
pass the check against what is left. -/
theorem deserializeSized_complies {w : Nat} {limit : Nat → Nat} {empty : α} {body : Nat → Unpack α}
    {B : Nat → Bytes → α → Prop} (hw : 0 < w) (hfit : maxAllowedSize < 256 ^ w)
    (hbody : BodyComplies body B)
    (hlimit : ∀ size s v n, B size s v → s.length ≤ n → size ≤ limit n) :
    Complies (deserializeSized w limit empty body) (SizedReads w B) empty where
  sticky u hu := by
    have hpod := (deserializePod_complies hw).sticky u hu
    cases u
    simp_all [deserializeSized, Unpacker.reject]
  sound u hu := by
    rcases (deserializePod_complies hw).sound u hu with ⟨hd, hhd, hadv⟩ | hrej
    · by_cases hok : leNat (deserializePod w u).1.bytes ≤ maxAllowedSize ∧
          leNat (deserializePod w u).1.bytes ≤ limit (deserializePod w u).2.remaining
      · have hres : deserializeSized w limit empty body u =
            body (leNat (deserializePod w u).1.bytes) (deserializePod w u).2 := by
          simp [deserializeSized, hadv.ready.1, Nat.not_lt.mpr hok.1, Nat.not_lt.mpr hok.2]
        have hcount := hadv.count
        have hlen := hadv.length_rest
        have hhead : hd = leBytes w (leNat (deserializePod w u).1.bytes) := by
          rw [Pod.leBytes_leNat]
          exact hhd
        rw [hres]
        rcases hbody.sound _ _ hadv.ready with
          ⟨s, hs, hready, hrest, hdata, hit⟩ | ⟨hinv, hdata, hit⟩
        · refine .inl ⟨hd ++ s, ⟨_, s, hok.1, by rw [← hhead], hs⟩, hready, ?_,
            hdata.trans hadv.data, ?_⟩
          · rw [hadv.split, hrest, append_assoc]
          · rw [length_append]
            omega
        · -- The failing iteration is paid for by the bytes of the size itself.
          exact .inr ⟨hinv, hdata.trans hadv.data, by omega⟩
      · have hres : deserializeSized w limit empty body u =
            (empty, (deserializePod w u).2.reject) := by
          have hbad : maxAllowedSize < leNat (deserializePod w u).1.bytes ∨
              limit (deserializePod w u).2.remaining < leNat (deserializePod w u).1.bytes := by
            omega
          simpa [deserializeSized, hadv.ready.1] using fun h1 h2 => absurd hbad (by omega)
        rw [hres]
        have hcount := hadv.count
        have hlen := hadv.length_rest
        refine .inr ⟨rfl, hadv.data, ?_⟩
        show (deserializePod w u).2.iterations ≤ _
        omega
    · have hres : deserializeSized w limit empty body u =
          (empty, (deserializePod w u).2.reject) := by
        simp [deserializeSized, hrej.invalid]
      rw [hres]
      exact .inr ⟨rfl, hrej.data, hrej.count⟩
  complete u seg rest v hu hrest hv := by
    obtain ⟨size, s, hmax, rfl, hs⟩ := hv
    obtain ⟨hval, hready, hrest'⟩ := (deserializePod_complies hw).complete u (leBytes w size) (s ++
      rest) ⟨leBytes w size, leBytes_length w size⟩ hu (by rw [hrest, append_assoc]) rfl
    have hsize : leNat (deserializePod w u).1.bytes = size := by
      rw [hval]
      exact leNat_leBytes (Nat.lt_of_le_of_lt hmax hfit)
    have hleft : (deserializePod w u).2.remaining = (s ++ rest).length := by
      rw [← hrest']
      exact (InStream.length_rest _).symm
    have hlim : size ≤ limit (deserializePod w u).2.remaining := by
      rw [hleft]
      exact hlimit size s v _ hs (by rw [length_append]; exact Nat.le_add_right _ _)
    have hres : deserializeSized w limit empty body u = body size (deserializePod w u).2 := by
      simp [deserializeSized, hready.1, hsize, Nat.not_lt.mpr hmax, Nat.not_lt.mpr hlim]
    rw [hres]
    exact hbody.complete size (deserializePod w u).2 s rest v hready hrest' hs

theorem deserializeString_complies : Complies deserializeString StringReads [] :=
  deserializeSized_complies (by decide) (by decide) deserializeChars_body
    (by rintro size s v n ⟨rfl, rfl⟩ hn; exact hn)

theorem deserializeClusterNode_complies :
    Complies deserializeClusterNode ClusterNodeReads ClusterNode.empty :=
  (deserializeString_complies.pair (deserializeString_complies.pair
    ((deserializePod_complies (by decide)).pair ((deserializePod_complies (by decide)).pair
      ((deserializePod_complies (by decide)).pair ((deserializePod_complies (by decide)).pair
        (deserializePod_complies (by decide)))))))).assign _ _

theorem StringReads.four_le {seg : Bytes} (h : StringReads seg v) : 4 ≤ seg.length := by
  obtain ⟨size, s, -, rfl, -⟩ := h
  rw [length_append, leBytes_length]
  exact Nat.le_add_right _ _

/-- **The unpacker implements the layout**, for every field type. -/
theorem deserialize_complies : ∀ t : FieldTy, Complies (deserialize t) (Reads t) t.fresh
  | .pod _ pos => deserializePod_complies pos
  | .string => deserializeString_complies
  | .clusterNode => deserializeClusterNode_complies
  | .vector t => by
      have helem := deserialize_complies t
      refine deserializeSized_complies (by decide) (by decide) (loop_body helem _ _) ?_
      rintro size s v n ⟨vs, hvs, rfl, -⟩ hn
      have := hvs.length_mul_le fun _ _ h => helem.length_pos h
      show vs.length ≤ n
      omega
  | .map t => by
      have hpair := deserializeString_complies.pair (deserialize_complies t)
      refine deserializeSized_complies (by decide) (by decide) (loop_body hpair _ _) ?_
      rintro size s v n ⟨vs, hvs, rfl, -⟩ hn
      have := hvs.length_mul_le (k := 2) fun _ _ h => by
        obtain ⟨s1, s2, rfl, h1, -⟩ := h
        have := h1.four_le
        rw [length_append]
        omega
      show vs.length ≤ n / 2
      omega

/-! ### The packer produces the layout -/

/-- **The values within the limits**: strings of at most `MAX_ALLOWED_SIZE` bytes
and containers of at most `MAX_ALLOWED_SIZE` elements, at every depth. -/
def Fits : (t : FieldTy) → t.Val → Prop
  | .pod _ _, _ => True
  | .string, v => List.length v ≤ maxAllowedSize
  | .clusterNode, v =>
    (ClusterNode.id v).length ≤ maxAllowedSize ∧ (ClusterNode.ip v).length ≤ maxAllowedSize
  | .vector t, v => List.length v ≤ maxAllowedSize ∧ ∀ item, List.Mem item v → Fits t item
  | .map t, v =>
    (StdMap.entries v).length ≤ maxAllowedSize ∧
      ∀ item ∈ StdMap.entries v, item.1.length ≤ maxAllowedSize ∧ Fits t item.2

theorem reads_serializeString (h : v.length ≤ maxAllowedSize) :
    StringReads (serializeString v) v := by
  have hlt : v.length < 2 ^ 32 := Nat.lt_of_le_of_lt h (by decide)
  refine ⟨v.length, v, h, ?_, rfl, rfl⟩
  rw [serializeString, Nat.mod_eq_of_lt hlt, take_length]

theorem reads_serializeClusterNode {v : ClusterNode} (hid : v.id.length ≤ maxAllowedSize)
    (hip : v.ip.length ≤ maxAllowedSize) : ClusterNodeReads (serializeClusterNode v) v :=
  ⟨(v.id, v.ip, v.port, v.isMaster, v.lastSeen, v.isActive, v.type),
    ⟨_, _, rfl, reads_serializeString hid, _, _, rfl, reads_serializeString hip,
      _, _, rfl, rfl, _, _, rfl, rfl, _, _, rfl, rfl, _, _, rfl, rfl, rfl⟩, rfl⟩

theorem items_flatMap {R : Bytes → α → Prop} {f : α → Bytes} {l : List α} (h : ∀ v ∈ l, R (f v) v) :
    Items R (l.flatMap f) l := by
  induction l with
  | nil => exact .nil
  | cons v l ih =>
    exact .cons (h v mem_cons_self) (ih fun x hx => h x (mem_cons_of_mem v hx))

theorem foldl_emplaceBack (l acc : List α) : l.foldl emplaceBack acc = acc ++ l := by
  induction l generalizing acc with
  | nil => simp
  | cons v l ih => rw [foldl_cons, ih, emplaceBack, append_assoc, singleton_append]

/-- **The packer produces the layout** of every value within the limits. -/
theorem reads_serialize : ∀ (t : FieldTy) (v : t.Val), Fits t v → Reads t (serialize t v) v
  | .pod _ _, _, _ => rfl
  | .string, _, h => reads_serializeString h
  | .clusterNode, _, h => reads_serializeClusterNode h.1 h.2
  | .vector t, v, h => by
      refine ⟨List.length v, _, h.1, rfl, v, ?_, rfl, ?_⟩
      · exact items_flatMap fun item hitem => reads_serialize t item (h.2 item hitem)
      · exact (foldl_emplaceBack v []).symm
  | .map t, v, h => by
      refine ⟨_, _, h.1, rfl, StdMap.entries v, ?_, rfl, ?_⟩
      · exact items_flatMap fun item hitem =>
          ⟨_, _, rfl, reads_serializeString (h.2 item hitem).1,
            reads_serialize t item.2 (h.2 item hitem).2⟩
      · exact (StdMap.foldl_emplace_empty v).symm

end UbsMem
