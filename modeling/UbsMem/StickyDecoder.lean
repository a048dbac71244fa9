import UbsMem.ByteStream

/-! # Decoders with a sticky failure flag

A decoder reads values one after another from an `InStream` and keeps a flag
`valid` that, once false, stays false and turns every later read into a no-op.
`Complies p R d` says that the decoder step `p` implements the declarative
relation `R seg v` ("the bytes `seg` spell the value `v`"):

* on an invalid state it returns the default `d` and changes nothing (`sticky`);
* on a usable state it either consumes a segment that spells the value returned,
  or it rejects (`sound`);
* whenever some prefix of the unread bytes spells a value, that value is
  returned and exactly that prefix is consumed (`complete`).

`complete` makes `R` prefix-free, which is what rejects truncated input.  Both
halves also count loop iterations against consumed bytes: a successful step makes
fewer iterations than it consumes bytes, a rejected one no more than were left.

The rules `Complies.pair` and `Complies.assign` carry compliance through
sequencing and guarded assignment.  What follows a length prefix is described by
the weaker `BodyComplies`, which lets the iteration count use up the bytes of the
prefix; a counted loop over a compliant item satisfies it (`loop_body`).
-/
namespace UbsMem

open List

/-- The state of a decoder: the stream, the validity flag, and how many
container iterations have been made so far. -/
structure Unpacker where
  inStream : InStream
  valid : Bool
  iterations : Nat

/-- A decoder step: a value and the state after it. -/
abbrev Unpack (α : Type) := Unpacker → α × Unpacker

namespace Unpacker

/-- A decoder at the start of a buffer. -/
def ofBytes (s : Bytes) : Unpacker := ⟨InStream.ofBytes s, true, 0⟩

/-- The unread bytes. -/
def rest (u : Unpacker) : Bytes := u.inStream.rest

/-- Valid, and the stream has not failed. -/
def Ready (u : Unpacker) : Prop := u.valid = true ∧ u.inStream.fail = false

/-- Clear the validity flag. -/
def reject (u : Unpacker) : Unpacker := { u with valid := false }

/-- Enter one more container iteration. -/
def tick (u : Unpacker) : Unpacker := { u with iterations := u.iterations + 1 }

theorem ready_ofBytes (s : Bytes) : (ofBytes s).Ready := ⟨rfl, rfl⟩

@[simp] theorem rest_ofBytes (s : Bytes) : (ofBytes s).rest = s := rfl

variable {u : Unpacker} {s : Bytes}

theorem Ready.tick (h : u.Ready) : u.tick.Ready := h

@[simp] theorem tick_rest (u : Unpacker) : u.tick.rest = u.rest := rfl

@[simp] theorem tick_inStream (u : Unpacker) : u.tick.inStream = u.inStream := rfl

@[simp] theorem tick_iterations (u : Unpacker) : u.tick.iterations = u.iterations + 1 := rfl

/-- `u'` is `u` after the segment `seg` was consumed with success. -/
structure Advances (u : Unpacker) (seg : Bytes) (u' : Unpacker) : Prop where
  ready : u'.Ready
  split : u.rest = seg ++ u'.rest
  data : u'.inStream.data = u.inStream.data
  count : u'.iterations < u.iterations + seg.length

/-- `u'` is `u` after a rejected read. -/
structure Rejects (u u' : Unpacker) : Prop where
  invalid : u'.valid = false
  data : u'.inStream.data = u.inStream.data
  count : u'.iterations ≤ u.iterations + u.rest.length

theorem Advances.trans {v w : Unpacker} {t : Bytes} (h : Advances u s v) (k : Advances v t w) :
    Advances u (s ++ t) w where
  ready := k.ready
  split := by rw [h.split, k.split, append_assoc]
  data := k.data.trans h.data
  count := by
    have h1 := h.count
    have h2 := k.count
    rw [length_append]
    omega

theorem Advances.length_rest {v : Unpacker} (h : Advances u s v) :
    u.rest.length = s.length + v.rest.length := by
  rw [h.split, length_append]

theorem Advances.rejects {v w : Unpacker} (h : Advances u s v) (k : Rejects v w) :
    Rejects u w where
  invalid := k.invalid
  data := k.data.trans h.data
  count := by
    have h1 := h.count
    have h2 := k.count
    have h3 := h.length_rest
    omega

end Unpacker

open Unpacker

/-- The decoder step `p` implements the relation `R`, with default `d`. -/
structure Complies {α : Type} (p : Unpack α) (R : Bytes → α → Prop) (d : α) : Prop where
  sticky : ∀ u, u.valid = false → p u = (d, u)
  sound : ∀ u, u.Ready → (∃ seg, R seg (p u).1 ∧ Advances u seg (p u).2) ∨ Rejects u (p u).2
  complete : ∀ u seg rest v, u.Ready → u.rest = seg ++ rest → R seg v →
    (p u).1 = v ∧ (p u).2.Ready ∧ (p u).2.rest = rest

section Rules

variable {α β : Type} {p : Unpack α} {q : Unpack β} {R : Bytes → α → Prop} {S : Bytes → β → Prop}
  {d : α} {e : β} {seg : Bytes} {vs : List α}

/-- Every value takes at least one byte: the strict iteration count leaves no
room for an empty segment. -/
theorem Complies.length_pos (hp : Complies p R d) {v : α} (h : R seg v) : 0 < seg.length := by
  obtain ⟨-, hready, hrest⟩ := hp.complete (ofBytes seg) seg [] v (ready_ofBytes seg) (by simp) h
  rcases hp.sound (ofBytes seg) (ready_ofBytes seg) with ⟨t, -, hadv⟩ | hrej
  · have hseg : seg = t := by simpa [hrest] using hadv.split
    have hcount := hadv.count
    rw [hseg]
    have h0 : (ofBytes seg).iterations = 0 := rfl
    omega
  · exact absurd hready.1 (by simp [hrej.invalid])

/-! ### Sequencing -/

/-- Read `p`, then `q`. -/
def Unpack.pair (p : Unpack α) (q : Unpack β) : Unpack (α × β) := fun u =>
  (((p u).1, (q (p u).2).1), (q (p u).2).2)

/-- A segment that spells one value after another. -/
def PairReads (R : Bytes → α → Prop) (S : Bytes → β → Prop) (seg : Bytes) (v : α × β) : Prop :=
  ∃ s t, seg = s ++ t ∧ R s v.1 ∧ S t v.2

theorem Complies.pair (hp : Complies p R d) (hq : Complies q S e) :
    Complies (Unpack.pair p q) (PairReads R S) (d, e) where
  sticky u hu := by simp [Unpack.pair, hp.sticky u hu, hq.sticky u hu]
  sound u hu := by
    rcases hp.sound u hu with ⟨s, hs, hadv⟩ | hrej
    · rcases hq.sound (p u).2 hadv.ready with ⟨t, ht, hadv'⟩ | hrej'
      · exact .inl ⟨s ++ t, ⟨s, t, rfl, hs, ht⟩, hadv.trans hadv'⟩
      · exact .inr (hadv.rejects hrej')
    · have hskip : (q (p u).2).2 = (p u).2 := by rw [hq.sticky _ hrej.invalid]
      exact .inr (by simpa only [Unpack.pair, hskip] using hrej)
  complete u seg rest v hu hrest hv := by
    obtain ⟨s, t, rfl, hs, ht⟩ := hv
    obtain ⟨hv1, hready, hrest1⟩ :=
      hp.complete u s (t ++ rest) v.1 hu (by rw [hrest, append_assoc]) hs
    obtain ⟨hv2, hready2, hrest2⟩ := hq.complete (p u).2 t rest v.2 hready hrest1 ht
    exact ⟨Prod.ext hv1 hv2, hready2, hrest2⟩

/-! ### Assignment under the validity flag -/

/-- Read with `p` and hand out `f` of the value; an invalid read leaves `old`. -/
def Unpack.assign (p : Unpack α) (f : α → β) (old : β) : Unpack β := fun u =>
  (if (p u).2.valid then f (p u).1 else old, (p u).2)

/-- A segment that spells the image of a value. -/
def MapReads (R : Bytes → α → Prop) (f : α → β) (seg : Bytes) (w : β) : Prop :=
  ∃ v, R seg v ∧ w = f v

theorem Complies.assign (hp : Complies p R d) (f : α → β) (old : β) :
    Complies (Unpack.assign p f old) (MapReads R f) old where
  sticky u hu := by simp [Unpack.assign, hp.sticky u hu, hu]
  sound u hu := by
    rcases hp.sound u hu with ⟨seg, hseg, hadv⟩ | hrej
    · exact .inl ⟨seg, ⟨(p u).1, hseg, by simp [Unpack.assign, hadv.ready.1]⟩, hadv⟩
    · exact .inr hrej
  complete u seg rest w hu hrest hw := by
    obtain ⟨v, hv, rfl⟩ := hw
    obtain ⟨hv1, hready, hrest1⟩ := hp.complete u seg rest v hu hrest hv
    exact ⟨by simp [Unpack.assign, hready.1, hv1], hready, hrest1⟩

/-! ### Counted loops -/

/-- `n` items read in turn and put into an accumulator; an item that fails
stops the loop and leaves `empty`. -/
def Unpack.loop (p : Unpack α) (ins : β → α → β) (empty : β) : Nat → β → Unpack β
  | 0, acc => fun u => (acc, u)
  | n + 1, acc => fun u =>
    if (p u.tick).2.valid then loop p ins empty n (ins acc (p u.tick).1) (p u.tick).2
    else (empty, (p u.tick).2)

/-- A segment that spells a list of items one after another. -/
inductive Items (R : Bytes → α → Prop) : Bytes → List α → Prop
  | nil : Items R [] []
  | cons {s t : Bytes} {v : α} {vs : List α} : R s v → Items R t vs → Items R (s ++ t) (v :: vs)

/-- Items of at least `k` bytes each take at least `k` bytes per item. -/
theorem Items.length_mul_le {k : Nat} (hk : ∀ s v, R s v → k ≤ s.length) (h : Items R seg vs) :
    k * vs.length ≤ seg.length := by
  induction h with
  | nil => simp
  | cons hv _ ih =>
    have := hk _ _ hv
    rw [length_cons, length_append, Nat.mul_succ]
    omega

/-- The part of a decoder after a length prefix `n` implements the relation
`B n`. -/
structure BodyComplies (f : Nat → Unpack β) (B : Nat → Bytes → β → Prop) : Prop where
  sound : ∀ n u, u.Ready →
    (∃ seg, B n seg (f n u).1 ∧ (f n u).2.Ready ∧ u.rest = seg ++ (f n u).2.rest ∧
      (f n u).2.inStream.data = u.inStream.data ∧
      (f n u).2.iterations ≤ u.iterations + seg.length) ∨
    ((f n u).2.valid = false ∧ (f n u).2.inStream.data = u.inStream.data ∧
      (f n u).2.iterations ≤ u.iterations + 1 + u.rest.length)
  complete : ∀ n u seg rest v, u.Ready → u.rest = seg ++ rest → B n seg v →
    (f n u).1 = v ∧ (f n u).2.Ready ∧ (f n u).2.rest = rest

/-- `n` items, accumulated from `acc`. -/
def LoopReads (R : Bytes → α → Prop) (ins : β → α → β) (acc : β) (n : Nat) (seg : Bytes)
    (w : β) : Prop :=
  ∃ vs, Items R seg vs ∧ vs.length = n ∧ w = vs.foldl ins acc

section

variable (hp : Complies p R d) (ins : β → α → β) (empty : β)

include hp

theorem loop_sound (n : Nat) : ∀ (acc : β) (u : Unpacker), u.Ready →
      (∃ seg, LoopReads R ins acc n seg (Unpack.loop p ins empty n acc u).1 ∧
        (Unpack.loop p ins empty n acc u).2.Ready ∧
        u.rest = seg ++ (Unpack.loop p ins empty n acc u).2.rest ∧
        (Unpack.loop p ins empty n acc u).2.inStream.data = u.inStream.data ∧
        (Unpack.loop p ins empty n acc u).2.iterations ≤ u.iterations + seg.length) ∨
      ((Unpack.loop p ins empty n acc u).2.valid = false ∧
        (Unpack.loop p ins empty n acc u).2.inStream.data = u.inStream.data ∧
        (Unpack.loop p ins empty n acc u).2.iterations ≤ u.iterations + 1 + u.rest.length) := by
  induction n with
  | zero =>
    intro acc u hu
    exact .inl ⟨[], ⟨[], .nil, rfl, rfl⟩, hu, rfl, rfl, Nat.le_refl _⟩
  | succ n ih =>
    intro acc u hu
    rcases hp.sound u.tick hu.tick with ⟨s, hs, hadv⟩ | hrej
    · have hstep : Unpack.loop p ins empty (n + 1) acc u =
          Unpack.loop p ins empty n (ins acc (p u.tick).1) (p u.tick).2 := by
        simp [Unpack.loop, hadv.ready.1]
      have hcount := hadv.count
      have hlen := hadv.length_rest
      have hsplit := hadv.split
      simp only [tick_iterations, tick_rest] at hcount hlen hsplit
      rw [hstep]
      rcases ih (ins acc (p u.tick).1) (p u.tick).2 hadv.ready with
        ⟨t, ⟨vs, hvs, hn, hval⟩, hready, hrest, hdata, hit⟩ | ⟨hinv, hdata, hit⟩
      · refine .inl ⟨s ++ t, ⟨(p u.tick).1 :: vs, .cons hs hvs, by simp [hn], hval⟩, hready, ?_,
          hdata.trans hadv.data, ?_⟩
        · rw [append_assoc, ← hrest, hsplit]
        · rw [length_append]
          omega
      · exact .inr ⟨hinv, hdata.trans hadv.data, by omega⟩
    · have hstep : Unpack.loop p ins empty (n + 1) acc u = (empty, (p u.tick).2) := by
        simp [Unpack.loop, hrej.invalid]
      rw [hstep]
      exact .inr ⟨hrej.invalid, hrej.data, hrej.count⟩

theorem loop_complete (h : Items R seg vs) :
    ∀ (acc : β) (u : Unpacker) (rest : Bytes), u.Ready → u.rest = seg ++ rest →
      (Unpack.loop p ins empty vs.length acc u).1 = vs.foldl ins acc ∧
        (Unpack.loop p ins empty vs.length acc u).2.Ready ∧
        (Unpack.loop p ins empty vs.length acc u).2.rest = rest := by
  induction h with
  | nil =>
    intro acc u rest hu hrest
    exact ⟨rfl, hu, hrest⟩
  | @cons s t v vs hv _ ih =>
    intro acc u rest hu hrest
    obtain ⟨hval, hready, hrest'⟩ :=
      hp.complete u.tick s (t ++ rest) v hu.tick (by rw [tick_rest, hrest, append_assoc]) hv
    have hstep : Unpack.loop p ins empty (v :: vs).length acc u =
        Unpack.loop p ins empty vs.length (ins acc v) (p u.tick).2 := by
      simp [Unpack.loop, hready.1, hval]
    rw [hstep]
    exact ih (ins acc v) (p u.tick).2 rest hready hrest'

/-- **A counted loop over a compliant item is a compliant body.** -/
theorem loop_body :
    BodyComplies (fun n => Unpack.loop p ins empty n empty) (LoopReads R ins empty) where
  sound n u hu := loop_sound hp ins empty n empty u hu
  complete n u seg rest w hu hrest hw := by
    obtain ⟨vs, hvs, rfl, rfl⟩ := hw
    exact loop_complete hp ins empty hvs empty u rest hu hrest

end

end Rules
end UbsMem
