import Mathlib.Algebra.Group.Int.Defs
import Mathlib.Data.List.Induction
import UbsMem.StrUtil

/-! # The identity of a node

A node is configured as an address and a port.  `VIpAndPort` splits the text at `:`, trims the
parts and reads the port with `std::stoi`; the node is named by the address and the number.
`ParseRpcNodeFromId` splits a name with `std::getline` and reads the port with `StrToUint`.

Neither the splitting nor the reading sees the whole text: a separator at the end is lost, `stoi`
stops at the first character that is no digit, and both functions skip blanks, a sign and leading
zeros (`other_texts_accepted`).  A name that was made of a configured node is read back, and the two
are exact for just those accepted texts and names that are without such things (`node_identity`).
-/
namespace UbsMem

open List

/-- The loop of `std::getline`: the parts between the separators, without an empty last one. -/
def getlines (sep : UInt8) : Bytes → List Bytes
  | [] => []
  | c :: rest =>
    if c = sep then [] :: getlines sep rest
    else
      match getlines sep rest with
      | [] => [[c]]
      | part :: parts => (c :: part) :: parts

/-- `SplitStr` at `:`, which leaves out an empty last part, too. -/
def splitStr (str : Bytes) : List Bytes := (getlines 58 str).map ockTrimString

/-- `std::stoi`; nothing, where it throws. -/
def stoi (str : Bytes) : Option Int :=
  let text := str.dropWhile isSpace
  let (negative, text) := match text with
    | 45 :: rest => (true, rest)
    | 43 :: rest => (false, rest)
    | _ => (false, text)
  let digits := text.takeWhile isDigit
  let value : Int := if negative then -digitsValue digits else digitsValue digits
  if digits = [] ∨ value < -2 ^ 31 ∨ 2 ^ 31 ≤ value then none else some value

/-- The checks that `ValidateIp` makes for a part of the address. -/
def validSegment (token : Bytes) : Bool :=
  token ≠ [] && token.length ≤ 3 && token.all isDigit && digitsValue token ≤ 255 &&
    !(token.head? = some 48 && token.length > 1)

def validateIp (ip : Bytes) : Bool :=
  (getlines 46 ip).all validSegment && (getlines 46 ip).length = 4

def validateIpAndPort (ipSeg : Bytes) : Option (Bytes × Nat) :=
  match splitStr ipSeg with
  | [ip, text] =>
    (stoi text).bind fun port =>
      if port < 7201 ∨ port > 7800 then none
      else if !validateIp ip then none
      else some (ip, port.toNat)
  | _ => none

structure RpcNode where
  name : Bytes
  ip : Bytes
  port : Nat
deriving DecidableEq

/-- The node that `SetLocalNode` and `SetRemoteNodes` make. -/
def rpcNode (ipAndPort : Bytes × Nat) : RpcNode :=
  ⟨ipAndPort.1 ++ 58 :: toDecimal ipAndPort.2, ipAndPort.1, ipAndPort.2⟩

/-- `StrToUint` of a text that can have zeros: it is read as far as the first one. -/
def strToUintOf (src : Bytes) : Option UInt32 :=
  (strToUint (src.takeWhile (· ≠ 0))).filter fun value => value ≠ 0 ∨ src = [48]

def parseRpcNodeFromId (nodeId : Bytes) : Option RpcNode :=
  match getlines 58 nodeId with
  | [ip, text] =>
    (strToUintOf text).bind fun port =>
      if port.toNat > 65535 then none else some ⟨nodeId, ip, port.toNat⟩
  | _ => none

variable {sep : UInt8} {s a b ip text : Bytes} {port : Nat}

/-! ### Parts -/

theorem getlines_pair (ha : sep ∉ a) (hb : sep ∉ b) (hne : b ≠ []) :
    getlines sep (a ++ sep :: b) = [a, b] := by
  have hlast : getlines sep b = [b] := by
    induction b with
    | nil => exact absurd rfl hne
    | cons c b ih =>
      cases b <;> grind [getlines]
  induction a with
  | nil => grind [getlines]
  | cons c a ih => grind [getlines]

theorem not_mem_of_mem_getlines (h : a ∈ getlines sep s) : sep ∉ a := by
  induction s generalizing a with
  | nil => cases h
  | cons c s ih =>
    unfold getlines at h
    split_ifs at h <;> grind

/-- The parts with the separators between them are the text, if it does not end in one. -/
theorem intercalate_getlines (h : s.getLast? ≠ some sep) :
    [sep].intercalate (getlines sep s) = s := by
  induction s with
  | nil => rfl
  | cons c s ih =>
    cases s with
    | nil =>
      have hc : c ≠ sep := fun heq => h (heq ▸ rfl)
      rw [getlines, if_neg hc]
      simp [getlines]
    | cons d s =>
      have ih := ih (by rwa [getLast?_cons_cons] at h)
      unfold getlines
      generalize getlines sep (d :: s) = parts at ih ⊢
      cases parts with
      | nil => cases ih
      | cons part parts =>
        split_ifs with hc
        · rw [intercalate_cons_cons, ih, hc]
          rfl
        · cases parts <;> simp_all [intercalate]

theorem exists_blanks (s : Bytes) :
    ∃ l r, (∀ c ∈ l ++ r, c = 32) ∧ s = l ++ ockTrimString s ++ r := by
  refine ⟨s.takeWhile (· == 32), (s.dropWhile (· == 32)).rtakeWhile (· == 32), fun c hc => ?_, ?_⟩
  · rcases mem_append.mp hc with hc | hc
    · simpa using mem_takeWhile_imp hc
    · simpa using mem_rtakeWhile_imp hc
  · rw [append_assoc, ockTrimString, rdropWhile_append_rtakeWhile, takeWhile_append_dropWhile]

theorem ockTrimString_blanks {l r : Bytes} (hblank : ∀ c ∈ l ++ r, c = 32) (htext : 32 ∉ text) :
    ockTrimString (l ++ text ++ r) = text := by
  have hself (s : Bytes) (hs : 32 ∉ s) : s.dropWhile (· == 32) = s := by
    cases s with
    | nil => rfl
    | cons c s => exact dropWhile_cons_of_neg (by simpa using (ne_of_not_mem_cons hs).symm)
  have hdrop {l s : Bytes} (hl : ∀ c ∈ l, c = 32) :
      (l ++ s).dropWhile (· == 32) = s.dropWhile (· == 32) :=
    dropWhile_append_of_pos fun c hc => by simpa using hl c hc
  rw [ockTrimString, append_assoc, hdrop fun c hc => hblank c (mem_append_left r hc)]
  by_cases hnil : text = []
  · have hr : ∀ c ∈ r, c = 32 := fun c hc => hblank c (mem_append_right l hc)
    have hempty := hdrop (s := []) hr
    rw [append_nil] at hempty
    rw [hnil, nil_append, hempty]
    rfl
  · obtain ⟨c, t, rfl⟩ := exists_cons_of_ne_nil hnil
    rw [cons_append, dropWhile_cons_of_neg (by simpa using (ne_of_not_mem_cons htext).symm),
      rdropWhile, ← cons_append, reverse_append,
      hdrop fun c hc => hblank c (mem_append_right l (mem_reverse.mp hc)),
      hself _ (mt mem_reverse.mp htext), reverse_reverse]

/-! ### Numbers -/

/-- Digits without a leading zero. -/
structure Canonical (digits : Bytes) : Prop where
  ne_nil : digits ≠ []
  digit : ∀ c ∈ digits, isDigit c = true
  leading : digits.head? = some 48 → digits.length = 1

theorem toDecimal_digit : ∀ c : UInt8, isDigit c = true → toDecimal (c.toNat - 48) = [c] := by
  intro c h
  have hsmall : ∀ d < 10, toDecimal d = [UInt8.ofNat (48 + d)] := by decide
  obtain ⟨hlow, hhigh⟩ : 48 ≤ c.toNat ∧ c.toNat ≤ 57 := by
    simpa [isDigit, UInt8.le_iff_toNat_le] using h
  rw [hsmall _ (by omega), Nat.add_sub_cancel' hlow, UInt8.ofNat_toNat]

/-- Digits without a leading zero are what is written for their number. -/
theorem toDecimal_digitsValue (h : Canonical text) : toDecimal (digitsValue text) = text := by
  induction text using reverseRecOn with
  | nil => exact absurd rfl h.ne_nil
  | append_singleton digits c ih =>
    have hc := h.digit c (mem_append_right _ (mem_singleton_self c))
    have hvalue : digitsValue (digits ++ [c]) = 10 * digitsValue digits + (c.toNat - 48) := by
      simp [digitsValue]
    by_cases hnil : digits = []
    · simpa [hnil, digitsValue] using toDecimal_digit c hc
    have hlead : digits.head? ≠ some 48 := by
      intro hzero
      have hlen := h.leading (by rw [head?_append_of_ne_nil _ hnil, hzero])
      rw [length_append, length_singleton] at hlen
      exact hnil (length_eq_zero_iff.mp (by omega))
    have ih := ih ⟨hnil, fun d hd => h.digit d (mem_append_left _ hd),
      fun hzero => absurd hzero hlead⟩
    have hpos : 0 < digitsValue digits := by
      refine Nat.pos_of_ne_zero fun hzero => hlead ?_
      rw [← ih, hzero]
      rfl
    have hlast : c.toNat - 48 < 10 := by
      have : c.toNat ≤ 57 := by simpa [UInt8.le_iff_toNat_le] using (Bool.and_eq_true_iff.mp hc).2
      omega
    rw [hvalue, toDecimal, ← Nat.toDigits_append_toDigits (by omega) hpos hlast, map_append]
    exact congrArg₂ (· ++ ·) ih (toDecimal_digit c hc)

theorem canonical_toDecimal (n : Nat) : Canonical (toDecimal n) := by
  refine ⟨toDecimal_ne_nil n, fun c => isDigit_of_mem_toDecimal, ?_⟩
  induction n using Nat.strongRecOn with
  | ind n ih =>
    intro hzero
    by_cases hsmall : n < 10
    · rw [toDecimal, length_map, Nat.toDigits_of_lt_base hsmall]
      rfl
    · -- the digits before the last one are those of a positive number
      have hsplit : toDecimal n = toDecimal (n / 10) ++ toDecimal (n % 10) := by
        rw [toDecimal, toDecimal, toDecimal, ← map_append,
          Nat.toDigits_append_toDigits (by omega) (by omega) (by omega), Nat.div_add_mod]
      rw [hsplit, head?_append_of_ne_nil _ (toDecimal_ne_nil _)] at hzero
      have hlength := ih (n / 10) (by omega) hzero
      obtain ⟨c, hc⟩ := length_eq_one_iff.mp hlength
      have hvalue := digitsValue_toDecimal (n / 10)
      rw [hc] at hzero hvalue
      cases hzero
      have : digitsValue [48] = 0 := rfl
      omega

theorem canonical_of_validSegment (h : validSegment text = true) :
    Canonical text ∧ digitsValue text ≤ 255 := by
  simp only [validSegment, Bool.and_eq_true, decide_eq_true_eq, all_eq_true, Bool.not_eq_true',
    Bool.and_eq_false_iff, decide_eq_false_iff_not] at h
  obtain ⟨⟨⟨⟨hne, -⟩, hdigit⟩, hvalue⟩, hlead⟩ := h
  have hpos : text.length ≠ 0 := mt length_eq_zero_iff.mp hne
  refine ⟨⟨hne, hdigit, fun hzero => ?_⟩, hvalue⟩
  have := hlead.resolve_left (not_not.mpr hzero)
  omega

/-- An IPv4 address: four numbers up to 255 with dots between them. -/
def DottedQuad (ip : Bytes) : Prop :=
  ∃ quad : List Nat, quad.length = 4 ∧ (∀ n ∈ quad, n ≤ 255) ∧
    ip = [46].intercalate (quad.map toDecimal)

theorem dottedQuad_of_validateIp (h : validateIp ip = true) (hlast : ip.getLast? ≠ some 46) :
    DottedQuad ip := by
  simp only [validateIp, Bool.and_eq_true, all_eq_true, decide_eq_true_eq] at h
  refine ⟨(getlines 46 ip).map digitsValue, by rw [length_map, h.2], fun n hn => ?_, ?_⟩
  · obtain ⟨token, htoken, rfl⟩ := mem_map.mp hn
    exact (canonical_of_validSegment (h.1 token htoken)).2
  · rw [map_map, map_congr_left, map_id, intercalate_getlines hlast]
    exact fun token htoken => toDecimal_digitsValue (canonical_of_validSegment (h.1 token htoken)).1

theorem validateIpAndPort_cases (h : validateIpAndPort s = some (ip, port)) :
    ∃ text, splitStr s = [ip, text] ∧ stoi text = some (port : Int) ∧ 7201 ≤ port ∧ port ≤ 7800 ∧
      validateIp ip = true := by
  unfold validateIpAndPort at h
  split at h
  · next ip' text hsplit =>
    obtain ⟨value, hvalue, h⟩ := Option.bind_eq_some_iff.mp h
    split_ifs at h with hport hip
    cases h
    refine ⟨text, hsplit, ?_, by omega, by omega, by simpa using hip⟩
    rw [hvalue, Int.toNat_of_nonneg (by omega)]
  · cases h

theorem stoi_of_canonical (h : Canonical text) (hport : stoi text = some (port : Int)) :
    port = digitsValue text := by
  obtain ⟨hbody, htake, hsign⟩ := plain_digits h.ne_nil h.digit
  unfold stoi at hport
  rw [hbody] at hport
  dsimp only at hport
  split at hport
  · next rest => exact absurd rfl (hsign rest).1
  · next rest => exact absurd rfl (hsign rest).2
  · rw [htake] at hport
    simp only [Bool.false_eq_true, if_false] at hport
    exact_mod_cast (Option.some.inj (Option.ite_none_left_eq_some.mp hport).2).symm

theorem strToUintOf_toDecimal (n : UInt32) : strToUintOf (toDecimal n.toNat) = some n := by
  have hplain : (toDecimal n.toNat).takeWhile (· ≠ 0) = toDecimal n.toNat := by
    refine takeWhile_eq_self_iff.mpr fun c hc => decide_eq_true ?_
    rintro rfl
    cases isDigit_of_mem_toDecimal hc
  rw [strToUintOf, hplain, strToUint_toDecimal]
  by_cases hzero : n = 0
  · subst hzero
    rfl
  · simp [hzero]

/-- A configured text with one `:`, no dot at the end of its address and nothing but digits for
its port. -/
def PlainText (s : Bytes) : Prop :=
  ∃ a b, s = a ++ 58 :: b ∧ 58 ∉ a ∧ 58 ∉ b ∧ (ockTrimString a).getLast? ≠ some 46 ∧
    Canonical (ockTrimString b)

/-- A name with one `:` and nothing but digits of a 32-bit number for its port. -/
def PlainId (nodeId : Bytes) : Prop :=
  ∃ a b, nodeId = a ++ 58 :: b ∧ 58 ∉ a ∧ 58 ∉ b ∧ Canonical b ∧ digitsValue b < 2 ^ 32

/-- A text is an address and a port with blanks around them. -/
def HasShape (s ip : Bytes) (port : Nat) : Prop :=
  DottedQuad ip ∧ 7201 ≤ port ∧ port ≤ 7800 ∧
    ∃ b₁ b₂ b₃ b₄, (∀ c ∈ b₁ ++ b₂ ++ b₃ ++ b₄, c = 32) ∧
      s = b₁ ++ ip ++ b₂ ++ 58 :: (b₃ ++ toDecimal port ++ b₄)

theorem shape_of_plainText (hplain : PlainText s)
    (h : validateIpAndPort s = some (ip, port)) : HasShape s ip port := by
  obtain ⟨a, b, rfl, ha, hb, hdot, hport⟩ := hplain
  obtain ⟨text, hsplit, hstoi, hlow, hhigh, hip⟩ := validateIpAndPort_cases h
  have hne : b ≠ [] := by
    rintro rfl
    exact hport.ne_nil rfl
  rw [splitStr, getlines_pair ha hb hne] at hsplit
  obtain ⟨rfl, rfl⟩ : ockTrimString a = ip ∧ ockTrimString b = text := by simpa using hsplit
  have hvalue := stoi_of_canonical hport hstoi
  obtain ⟨b₁, b₂, hblank, hleft⟩ := exists_blanks a
  obtain ⟨b₃, b₄, hblank', hright⟩ := exists_blanks b
  refine ⟨dottedQuad_of_validateIp hip hdot, hlow, hhigh, b₁, b₂, b₃, b₄, fun c hc => ?_, ?_⟩
  · rw [append_assoc, append_assoc, ← append_assoc, mem_append] at hc
    exact hc.elim (hblank c) (hblank' c)
  · rw [hvalue, toDecimal_digitsValue hport, ← hleft, ← hright]

/-- The characters of an address are digits and dots, and the last one is a digit. -/
theorem DottedQuad.digits (h : DottedQuad ip) :
    (∀ c ∈ ip, isDigit c = true ∨ c = 46) ∧ ip.getLast? ≠ some 46 := by
  obtain ⟨quad, hlength, -, rfl⟩ := h
  obtain ⟨n₁, n₂, n₃, n₄, rfl⟩ : ∃ n₁ n₂ n₃ n₄, quad = [n₁, n₂, n₃, n₄] := by
    match quad, hlength with
    | [n₁, n₂, n₃, n₄], _ => exact ⟨n₁, n₂, n₃, n₄, rfl⟩
  have hquad : [46].intercalate ([n₁, n₂, n₃, n₄].map toDecimal) = (toDecimal n₁ ++ 46 ::
      (toDecimal n₂ ++ 46 :: (toDecimal n₃ ++ [46]))) ++ toDecimal n₄ := by
    simp [intercalate, intersperse]
  rw [hquad]
  refine ⟨fun c hc => ?_, fun hlast => ?_⟩
  · simp only [mem_append, mem_cons, not_mem_nil, or_false] at hc
    rcases hc with (hc | hc | hc | hc | hc | hc) | hc
    all_goals first | exact .inr hc | exact .inl (isDigit_of_mem_toDecimal hc)
  · rw [getLast?_append_of_ne_nil _ (toDecimal_ne_nil n₄)] at hlast
    cases isDigit_of_mem_toDecimal (mem_of_getLast? hlast)

theorem plainText_of_shape (hshape : HasShape s ip port) : PlainText s := by
  obtain ⟨hquad, -, -, b₁, b₂, b₃, b₄, hblank, rfl⟩ := hshape
  obtain ⟨hchars, hlast⟩ := hquad.digits
  have hdecimal : 32 ∉ toDecimal port := by
    intro hmem
    cases isDigit_of_mem_toDecimal hmem
  have hip : 32 ∉ ip := by
    intro hmem
    rcases hchars 32 hmem with h | h <;> cases h
  have hleft : ∀ c ∈ b₁ ++ b₂, c = 32 :=
    fun c hc => hblank c (mem_append_left _ (mem_append_left _ hc))
  have hright : ∀ c ∈ b₃ ++ b₄, c = 32 :=
    fun c hc => hblank c (by rw [append_assoc]; exact mem_append_right _ hc)
  have hcolon {l r t : Bytes} (hlr : ∀ c ∈ l ++ r, c = 32) (ht : 58 ∉ t) : 58 ∉ l ++ t ++ r := by
    intro hmem
    rw [append_assoc, mem_append, mem_append] at hmem
    rcases hmem with hmem | hmem | hmem
    · cases hlr 58 (mem_append_left _ hmem)
    · exact ht hmem
    · cases hlr 58 (mem_append_right _ hmem)
  refine ⟨b₁ ++ ip ++ b₂, b₃ ++ toDecimal port ++ b₄, rfl, hcolon hleft ?_,
    hcolon hright ?_, ?_, ?_⟩
  · intro hmem
    rcases hchars 58 hmem with h | h <;> cases h
  · intro hmem
    cases isDigit_of_mem_toDecimal hmem
  · rw [ockTrimString_blanks hleft hip]
    exact hlast
  · rw [ockTrimString_blanks hright hdecimal]
    exact canonical_toDecimal port

theorem parseRpcNodeFromId_name (h : validateIpAndPort s = some (ip, port)) :
    parseRpcNodeFromId (rpcNode (ip, port)).name = some (rpcNode (ip, port)) := by
  obtain ⟨text, hsplit, -, -, hhigh, -⟩ := validateIpAndPort_cases h
  have hip : 58 ∉ ip := by
    obtain ⟨part, hpart, rfl⟩ := mem_map.mp (hsplit ▸ mem_cons_self : ip ∈ splitStr s)
    intro hmem
    obtain ⟨l, r, -, heq⟩ := exists_blanks part
    exact not_mem_of_mem_getlines hpart (heq ▸ mem_append_left _ (mem_append_right _ hmem))
  have hdigits : 58 ∉ toDecimal port := by
    intro hmem
    cases isDigit_of_mem_toDecimal hmem
  have hsize : (UInt32.ofNat port).toNat = port :=
    UInt32.toNat_ofNat_of_lt' (Nat.lt_of_le_of_lt hhigh (by decide))
  have hread := strToUintOf_toDecimal (.ofNat port)
  rw [hsize] at hread
  rw [rpcNode, parseRpcNodeFromId, getlines_pair hip hdigits (toDecimal_ne_nil port)]
  simp only [hread, Option.bind_some, hsize]
  rw [if_neg (by omega)]

theorem name_of_plainId {node : RpcNode} (hplain : PlainId s)
    (h : parseRpcNodeFromId s = some node) : (rpcNode (node.ip, node.port)).name = s := by
  obtain ⟨a, b, rfl, ha, hb, hport, hvalue⟩ := hplain
  unfold parseRpcNodeFromId at h
  rw [getlines_pair ha hb hport.ne_nil] at h
  obtain ⟨port, hread, h⟩ := Option.bind_eq_some_iff.mp h
  split_ifs at h
  cases h
  have hself := strToUintOf_toDecimal (.ofNat (digitsValue b))
  rw [UInt32.toNat_ofNat_of_lt' hvalue, toDecimal_digitsValue hport, hread] at hself
  simp only [rpcNode]
  rw [Option.some.inj hself, UInt32.toNat_ofNat_of_lt' hvalue, toDecimal_digitsValue hport]

theorem plainId_of_name {node : RpcNode} (hname : (rpcNode (node.ip, node.port)).name = s)
    (h : parseRpcNodeFromId s = some node) : PlainId s := by
  unfold parseRpcNodeFromId at h
  split at h
  · next ip text hsplit =>
    obtain ⟨port, -, h⟩ := Option.bind_eq_some_iff.mp h
    split_ifs at h with hport
    cases h
    refine ⟨ip, toDecimal port.toNat, hname.symm, not_mem_of_mem_getlines (hsplit ▸ mem_cons_self),
      fun hmem => ?_, canonical_toDecimal _, ?_⟩
    · cases isDigit_of_mem_toDecimal hmem
    · rw [digitsValue_toDecimal]
      exact port.toNat_lt
  · cases h

/-- **The identity of a node.**  A text that is accepted is an IPv4 address and a port between
blanks just if it is plain.  The name of an accepted node is read back.  A name that is accepted is
the name of what it is read as just if it is plain, and so no two plain names denote the same
endpoint. -/
theorem node_identity (s nodeId : Bytes) :
    (∀ ip port, validateIpAndPort s = some (ip, port) → (HasShape s ip port ↔ PlainText s)) ∧
    (∀ ip port, validateIpAndPort s = some (ip, port) →
      parseRpcNodeFromId (rpcNode (ip, port)).name = some (rpcNode (ip, port))) ∧
    (∀ node, parseRpcNodeFromId nodeId = some node →
      ((rpcNode (node.ip, node.port)).name = nodeId ↔ PlainId nodeId)) ∧
    ∀ id₂ node node₂, PlainId nodeId → PlainId id₂ →
      parseRpcNodeFromId nodeId = some node → parseRpcNodeFromId id₂ = some node₂ →
      node.ip = node₂.ip → node.port = node₂.port → nodeId = id₂ := by
  refine ⟨fun ip port h =>
      ⟨fun hshape => plainText_of_shape hshape, fun hplain => shape_of_plainText hplain h⟩,
    fun ip port h => parseRpcNodeFromId_name h,
    fun node h =>
      ⟨fun hname => plainId_of_name hname h, fun hplain => name_of_plainId hplain h⟩, ?_⟩
  intro id₂ node node₂ h h₂ hparse hparse₂ hip hport
  rw [← name_of_plainId h hparse, ← name_of_plainId h₂ hparse₂, hip, hport]

/-- `127.0.0.1:7201` is plain on both sides, and accepted. -/
theorem node_identity_local :
    let ip : Bytes := [49, 50, 55, 46, 48, 46, 48, 46, 49]
    let s : Bytes := ip ++ [58, 55, 50, 48, 49]
    PlainText s ∧ PlainId s ∧ validateIpAndPort s = some (ip, 7201) ∧ DottedQuad ip ∧
      parseRpcNodeFromId s = some ⟨s, ip, 7201⟩ ∧ (rpcNode (ip, 7201)).name = s := by
  intro ip s
  have hport : Canonical [55, 50, 48, 49] := ⟨by decide, all_eq_true.mp rfl, by decide⟩
  have htext : PlainText s := ⟨ip, [55, 50, 48, 49], rfl, by decide, by decide, by decide, hport⟩
  have hid : PlainId s := ⟨ip, [55, 50, 48, 49], rfl, by decide, by decide, hport, by decide⟩
  have hvalid : validateIpAndPort s = some (ip, 7201) := by decide
  have hparse : parseRpcNodeFromId s = some ⟨s, ip, 7201⟩ := by decide
  exact ⟨htext, hid, hvalid, (((node_identity s s).1 ip 7201 hvalid).mpr htext).1, hparse,
    ((node_identity s s).2.2.1 _ hparse).mpr hid⟩

/-- `1.2.3.4:7301x`, `1.2.3.4.:7301` and `1.2.3.4:7301:` are accepted as configuration, and the
names `a:07301`, `a: 7301`, `a:7301:` and `a:4294974597` are read as `a:7301` is. -/
theorem other_texts_accepted :
    validateIpAndPort [49, 46, 50, 46, 51, 46, 52, 58, 55, 51, 48, 49, 120] =
      some ([49, 46, 50, 46, 51, 46, 52], 7301) ∧
    validateIpAndPort [49, 46, 50, 46, 51, 46, 52, 46, 58, 55, 51, 48, 49] =
      some ([49, 46, 50, 46, 51, 46, 52, 46], 7301) ∧
    validateIpAndPort [49, 46, 50, 46, 51, 46, 52, 58, 55, 51, 48, 49, 58] =
      some ([49, 46, 50, 46, 51, 46, 52], 7301) ∧
    ∀ text ∈ ([[55, 51, 48, 49], [48, 55, 51, 48, 49], [32, 55, 51, 48, 49], [55, 51, 48, 49, 58],
        [52, 50, 57, 52, 57, 55, 52, 53, 57, 55]] : List Bytes),
      (parseRpcNodeFromId (97 :: 58 :: text)).map (fun node => (node.ip, node.port)) =
        some ([97], 7301) := by
  refine ⟨by decide, by decide, by decide, ?_⟩
  decide

end UbsMem
