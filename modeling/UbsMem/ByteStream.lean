import Mathlib.Algebra.Group.Nat.Defs
import Mathlib.Data.List.Basic
import Mathlib.Tactic.Common

/-! # Byte strings, little-endian counts and an input stream

The wire format writes every trivially copyable object as its bytes in memory
and every length as an unsigned little-endian integer.  `leBytes w n` is the
`w`-byte image of `n`, `leNat` reads it back, and the two are inverse below
`256 ^ w` (`leNat_leBytes`).

An `InStream` is a read-only buffer with a read position, as a string stream
gives it: `read n` hands out at most the bytes that are left and sets the fail
bit when there are fewer than `n` (`InStream.read_of_le`,
`InStream.read_of_lt`).  The position never leaves the buffer, which the type
records.
-/
namespace UbsMem

/-- A string of bytes: the content of a `std::string` or of a buffer. -/
abbrev Bytes := List UInt8

/-! ### Little-endian counts -/

/-- The `w` low bytes of `n`, least significant first. -/
def leBytes : Nat → Nat → Bytes
  | 0, _ => []
  | w + 1, n => UInt8.ofNat n :: leBytes w (n / 256)

/-- The number a little-endian byte string denotes. -/
def leNat : Bytes → Nat
  | [] => 0
  | b :: s => b.toNat + 256 * leNat s

@[simp] theorem leBytes_length (w n : Nat) : (leBytes w n).length = w := by
  induction w generalizing n with
  | zero => rfl
  | succ w ih => simp [leBytes, ih]

theorem leNat_leBytes {w n : Nat} (h : n < 256 ^ w) : leNat (leBytes w n) = n := by
  induction w generalizing n with
  | zero => simp at h; simp [leBytes, leNat, h]
  | succ w ih =>
    have hdiv : n / 256 < 256 ^ w := by
      rw [Nat.div_lt_iff_lt_mul (by decide), ← Nat.pow_succ]
      exact h
    have hlow : (UInt8.ofNat n).toNat = n % 256 := by simp
    rw [leBytes, leNat, ih hdiv]
    omega

theorem leBytes_leNat (s : Bytes) : leBytes s.length (leNat s) = s := by
  induction s with
  | nil => rfl
  | cons b s ih =>
    have hb : b.toNat < 256 := b.toNat_lt
    have hlow : UInt8.ofNat (b.toNat + 256 * leNat s) = b := by
      apply UInt8.toNat_inj.mp
      simp only [UInt8.toNat_ofNat']
      omega
    have hrest : (b.toNat + 256 * leNat s) / 256 = leNat s := by omega
    rw [leNat, List.length_cons, leBytes, hlow, hrest, ih]

/-! ### The input stream -/

/-- A buffer with a read position and a fail bit. -/
structure InStream where
  data : Bytes
  pos : Nat
  fail : Bool
  pos_le : pos ≤ data.length

namespace InStream

/-- The stream at the start of a buffer. -/
def ofBytes (s : Bytes) : InStream := ⟨s, 0, false, Nat.zero_le _⟩

/-- What has not been read yet. -/
def rest (i : InStream) : Bytes := i.data.drop i.pos

/-- `rdbuf()->in_avail()`: how many bytes are left. -/
def inAvail (i : InStream) : Nat := i.data.length - i.pos

/-- `read(buf, n)`: the bytes handed out, and the stream afterwards.  A failed
stream hands out nothing; a short one hands out what it has and fails. -/
def read (i : InStream) (n : Nat) : Bytes × InStream :=
  if i.fail then ([], i)
  else
    (i.rest.take n,
      { data := i.data
        pos := min (i.pos + n) i.data.length
        fail := decide (i.inAvail < n)
        pos_le := Nat.min_le_right .. })

@[simp] theorem rest_ofBytes (s : Bytes) : (ofBytes s).rest = s := rfl

@[simp] theorem fail_ofBytes (s : Bytes) : (ofBytes s).fail = false := rfl

@[simp] theorem data_ofBytes (s : Bytes) : (ofBytes s).data = s := rfl

theorem length_rest (i : InStream) : i.rest.length = i.inAvail := by
  simp [rest, inAvail]

@[simp] theorem read_data (i : InStream) (n : Nat) : (i.read n).2.data = i.data := by
  unfold read
  split <;> rfl

theorem read_of_le {i : InStream} {n : Nat} (hf : i.fail = false) (h : n ≤ i.rest.length) :
    (i.read n).1 = i.rest.take n ∧ (i.read n).2.fail = false ∧
      (i.read n).2.rest = i.rest.drop n := by
  rw [length_rest] at h
  have hpos : i.pos + n ≤ i.data.length := by
    have := i.pos_le
    unfold inAvail at h
    omega
  refine ⟨by simp [read, hf], by simp [read, hf, h], ?_⟩
  simp [read, hf, rest]

theorem read_of_lt {i : InStream} {n : Nat} (hf : i.fail = false) (h : i.rest.length < n) :
    (i.read n).2.fail = true := by
  rw [length_rest] at h
  simp [read, hf, h]

end InStream
end UbsMem
