import Mathlib.Data.List.DropRight
import Mathlib.Data.List.TakeWhile
import UbsMem.CommonTypes

/-! # Numbers in text

`StrUtil::StrToUint` reads a number with `strtoul`, which skips blanks, takes a sign and
stops at the first character that is no digit.  The result is cut to 32 bits, so different
texts can be read as one number; what `std::to_string` writes is read back.
-/
namespace UbsMem

open List

/-- `isspace` in the C locale. -/
def isSpace (c : UInt8) : Bool := c = 32 || (9 ≤ c && c ≤ 13)

def isDigit (c : UInt8) : Bool := 48 ≤ c && c ≤ 57

/-- The number that digits are. -/
def digitsValue (digits : Bytes) : Nat := digits.foldl (fun acc c => 10 * acc + (c.toNat - 48)) 0

/-- `strtoul` in base ten: the value, the text after the number and whether the
number was out of range. -/
def strtoul (src : Bytes) : Nat × Bytes × Bool :=
  let text := src.dropWhile isSpace
  let (negative, text) := match text with
    | 45 :: rest => (true, rest)
    | 43 :: rest => (false, rest)
    | _ => (false, text)
  let digits := text.takeWhile isDigit
  if digits = [] then (0, src, false)
  else
    let value := digitsValue digits
    if 2 ^ 64 ≤ value then (2 ^ 64 - 1, text.dropWhile isDigit, true)
    else (if negative then (2 ^ 64 - value) % 2 ^ 64 else value, text.dropWhile isDigit, false)

/-- `StrUtil::StrToUint`: the value is stored to a 32-bit variable before the checks. -/
def strToUint (src : Bytes) : Option UInt32 :=
  let (value, remain, erange) := strtoul src
  let value := UInt32.ofNat value
  if (value = 0 ∧ src ≠ [48]) ∨ remain ≠ [] ∨ erange then none else some value

def ockTrimString (str : Name) : Name :=
  (str.dropWhile (· == 32)).rdropWhile (· == 32)

/-- `std::to_string` of an unsigned number. -/
def toDecimal (n : Nat) : List UInt8 := (Nat.toDigits 10 n).map fun c => UInt8.ofNat c.toNat

/-! ### A number that was written is read back -/

theorem isDigit_ofNat {c : Char} (h : c.isDigit = true) :
    isDigit (UInt8.ofNat c.toNat) = true ∧ (UInt8.ofNat c.toNat).toNat = c.toNat := by
  obtain ⟨hlow, hhigh⟩ : 48 ≤ c.toNat ∧ c.toNat ≤ 57 := by
    simpa [Char.isDigit, UInt32.le_iff_toNat_le] using h
  have hcode : (UInt8.ofNat c.toNat).toNat = c.toNat := by
    rw [UInt8.toNat_ofNat']
    omega
  refine ⟨?_, hcode⟩
  simp [isDigit, UInt8.le_iff_toNat_le, hcode, hlow, hhigh]

theorem isDigit_of_mem_toDecimal {n : Nat} {c : UInt8} (h : c ∈ toDecimal n) :
    isDigit c = true := by
  obtain ⟨d, hd, rfl⟩ := mem_map.mp h
  exact (isDigit_ofNat (Nat.isDigit_of_mem_toDigits (by omega) (by omega) hd)).1

theorem digitsValue_toDecimal (n : Nat) : digitsValue (toDecimal n) = n := by
  have hfold : ∀ (l : List Char) (k : Nat), (∀ c ∈ l, c.isDigit = true) →
      (l.map fun c => UInt8.ofNat c.toNat).foldl (fun n c => 10 * n + (c.toNat - 48)) k =
        Nat.ofDigitChars 10 l k := by
    intro l
    induction l with
    | nil => exact fun _ _ => rfl
    | cons c l ih =>
      intro k hdigits
      have hcode := (isDigit_ofNat (hdigits c (mem_cons_self ..))).2
      rw [map_cons, foldl_cons, ih _ fun d hd => hdigits d (mem_cons_of_mem _ hd), hcode]
      rfl
  rw [digitsValue, toDecimal, hfold _ _ fun c hc =>
    Nat.isDigit_of_mem_toDigits (by omega) (by omega) hc]
  exact Nat.ofDigitChars_toDigits (by omega) (by omega)

theorem toDecimal_ne_nil (n : Nat) : toDecimal n ≠ [] := by
  simp [toDecimal]

theorem isDigit_plain : ∀ c, isDigit c = true → isSpace c = false ∧ c ≠ 45 ∧ c ≠ 43 := by
  intro c h
  simp [isDigit, isSpace, UInt8.le_iff_toNat_le, ← UInt8.toNat_inj] at h ⊢
  omega

section

variable {src : Bytes} (hne : src ≠ []) (hdigits : ∀ c ∈ src, isDigit c = true)

include hne hdigits

theorem plain_digits : src.dropWhile isSpace = src ∧ src.takeWhile isDigit = src ∧
    ∀ rest, src ≠ 45 :: rest ∧ src ≠ 43 :: rest := by
  obtain ⟨c, rest, rfl⟩ := exists_cons_of_ne_nil hne
  obtain ⟨hspace, hminus, hplus⟩ := isDigit_plain c (hdigits c mem_cons_self)
  exact ⟨dropWhile_cons_of_neg (by simp [hspace]), takeWhile_eq_self_iff.mpr hdigits,
    by simp [hminus, hplus]⟩

theorem strtoul_of_digits (hrange : digitsValue src < 2 ^ 64) :
    strtoul src = (digitsValue src, [], false) := by
  obtain ⟨hbody, htake, hsign⟩ := plain_digits hne hdigits
  have hdrop : src.dropWhile isDigit = [] := dropWhile_eq_nil_iff.mpr hdigits
  unfold strtoul
  rw [hbody]
  dsimp only
  split
  · next rest => exact absurd rfl (hsign rest).1
  · next rest => exact absurd rfl (hsign rest).2
  · rw [htake, hdrop, if_neg hne]
    exact if_neg (not_le.mpr hrange)

end

theorem strToUint_toDecimal (n : UInt32) : strToUint (toDecimal n.toNat) = some n := by
  have hvalue := digitsValue_toDecimal n.toNat
  have hread := strtoul_of_digits (toDecimal_ne_nil n.toNat)
    (fun _ => isDigit_of_mem_toDecimal) (by rw [hvalue]; have := n.toNat_lt; omega)
  rw [hvalue] at hread
  unfold strToUint
  rw [hread]
  by_cases hzero : n = 0
  · subst hzero
    rfl
  · simp [hzero]

theorem length_toDecimal (n : UInt32) : (toDecimal n.toNat).length ≤ 10 := by
  rw [toDecimal, length_map, Nat.length_toDigits_le_iff (by omega) (by omega)]
  have := n.toNat_lt
  omega

end UbsMem
