import UbsMem.CommonTypes
import Mathlib.Data.List.GetD
import Mathlib.Data.List.Nodup
import Mathlib.Data.List.TakeWhile
import Mathlib.Logic.Function.Basic

/-! # Tables of named records

Three tables of the record store hold records with a name in a fixed array of
characters; a record whose first character is zero is idle.  `BaseRecordAllocator`
keeps a stack of the idle slots, and a map from names to slots answers queries.  At
the start both are built again from the records alone (`restoreIdle`,
`restoreCache`).

`TableInv` ties the stack and the map to the records.  Its lemmas say how it is kept
when a slot is taken, changed and given back, and `TableInv.restore` that a restart
builds the same map.
-/
namespace UbsMem

open Function AList Option List

/-! ### Names -/

def recordNameSize : Nat := 64

/-- `char name[RECORD_NAME_SIZE]`. -/
abbrev CharArray := Nat → UInt8

/-- The string in an array of characters. -/
def cString (a : CharArray) : Name := ((List.range recordNameSize).map a).takeWhile (· ≠ 0)

/-- What `strcpy_s` stores: the characters up to the terminating zero, and the zero. -/
def cBytes (name : Name) : Bytes := name.takeWhile (· ≠ 0) ++ [0]

/-- The array once the first `k` characters have been stored. -/
def copyName (a : CharArray) (name : Name) (k : Nat) : CharArray :=
  fun i => if i < k then (cBytes name).getD i 0 else a i

/-- A name that the store can keep: not empty, without zeros, and short enough. -/
structure NameFits (name : Name) : Prop where
  nonempty : name ≠ []
  noZero : (0 : UInt8) ∉ name
  short : name.length < recordNameSize

variable {name : Name}

theorem NameFits.cBytes (h : NameFits name) : cBytes name = name ++ [0] := by
  unfold UbsMem.cBytes
  rw [takeWhile_eq_self_iff.mpr]
  intro c hc
  simpa using fun heq : c = 0 => h.noZero (heq ▸ hc)

theorem takeWhile_append_zero {l rest : List UInt8} (h : (0 : UInt8) ∉ l) :
    (l ++ 0 :: rest).takeWhile (· ≠ 0) = l := by
  induction l with
  | nil => simp
  | cons c cs ih =>
    rw [mem_cons, not_or] at h
    rw [cons_append, takeWhile_cons, if_pos (by simpa using Ne.symm h.1), ih h.2]

/-- A copied name reads back. -/
theorem cString_copyName (h : NameFits name) (a : CharArray) {k : Nat} (hk : name.length < k) :
    cString (copyName a name k) = name := by
  unfold cString
  have hshort := h.short
  have hsplit : (List.range recordNameSize).map (copyName a name k) =
      name ++ 0 :: (List.range (recordNameSize - name.length - 1)).map
        (fun i => copyName a name k (name.length + 1 + i)) := by
    have hbytes : ∀ i, i < k → copyName a name k i = (name ++ [0]).getD i 0 := by
      intro i hi
      rw [copyName, if_pos hi, h.cBytes]
    rw [show recordNameSize = name.length + (1 + (recordNameSize - name.length - 1)) by omega,
      range_add, range_add, map_append]
    congr 1
    · refine ext_getElem (by simp) fun i hi hi' => ?_
      rw [getElem_map, getElem_range, hbytes i (by omega),
        getD_append _ _ _ _ hi', getD_eq_getElem _ _ hi']
    · simp [hbytes name.length hk, Nat.add_assoc]
  rw [hsplit, takeWhile_append_zero h.noZero]

theorem cString_eq_nil {a : CharArray} : cString a = [] ↔ a 0 = 0 := by
  unfold cString recordNameSize
  by_cases h : a 0 = 0
  · simp [h]
  · simp [h]

/-! ### Records and slots -/

/-- A record of a table: its name and the rest. -/
structure Named (F : Type) where
  name : CharArray
  fields : F

/-- `RegionIdle`, `MemLeaseIdle`, `MemShareImportIdle`. -/
def Named.idle {F : Type} (r : Named F) : Bool := r.name 0 = 0

/-- `WithMemIdsRecord`: a slot and the memory ids that belong to it; the ids stay empty
in the table of regions, which have none. -/
structure WithMemIdsRecord where
  slot : Nat
  memIds : List UInt64
  deriving DecidableEq

/-- `std::unordered_map::emplace`, which keeps an entry that is there. -/
def emplace {V : Type} (m : Map Name V) (name : Name) (v : V) : Map Name V :=
  match m.lookup name with
  | some _ => m
  | none => m.insert name v

section Table

variable {F : Type} {capacity : Nat} {fill : F → Option (List UInt64)} {t : Nat → Named F}

/-- `BaseRecordAllocator::Restore`: the idle slots. -/
def restoreIdle (capacity : Nat) (idle : Nat → Bool) : List Nat :=
  (List.range capacity).filter idle

/-- What the record in a slot contributes to the map: nothing when it is idle or its
memory ids cannot be read. -/
def restoreEntry (t : Nat → Named F) (fill : F → Option (List UInt64)) (i : Nat) :
    Option (Name × WithMemIdsRecord) :=
  if (t i).idle then none
  else (fill (t i).fields).map fun memIds => (cString (t i).name, ⟨i, memIds⟩)

/-- `RestoreRegion`, `RestoreMemLease`, `RestoreShmImport`: slot by slot. -/
def restoreCache (capacity : Nat) (t : Nat → Named F) (fill : F → Option (List UInt64)) :
    Map Name WithMemIdsRecord :=
  (List.range capacity).foldl
    (fun m i =>
      match restoreEntry t fill i with
      | none => m
      | some (name, record) => emplace m name record) ∅

theorem lookup_emplace {V : Type} (m : Map Name V) (name : Name) (v : V) (n : Name) :
    (emplace m name v).lookup n = (m.lookup n).or (if name = n then some v else none) := by
  unfold emplace
  rcases eq_or_ne n name with rfl | hn
  · cases hfound : m.lookup n with
    | some old => simp [hfound]
    | none => simp [lookup_insert]
  · cases hfound : m.lookup name with
    | some old => simp [hn.symm]
    | none => simp [lookup_insert_ne hn, hn.symm]

/-- One more slot adds its entry, unless its name is there. -/
theorem lookup_restoreCache_succ (capacity : Nat) (t : Nat → Named F)
    (fill : F → Option (List UInt64)) (n : Name) :
    (restoreCache (capacity + 1) t fill).lookup n = ((restoreCache capacity t fill).lookup n).or
      ((restoreEntry t fill capacity).bind fun x => if x.1 = n then some x.2 else none) := by
  rw [restoreCache, range_succ, foldl_append]
  simp only [foldl_cons]
  cases restoreEntry t fill capacity with
  | none => simp [restoreCache]
  | some entry => exact lookup_emplace _ _ _ n

/-- The entries of the map are those of slots. -/
theorem restoreEntry_of_lookup {n : Name} {e : WithMemIdsRecord}
    (h : (restoreCache capacity t fill).lookup n = some e) :
    ∃ i < capacity, restoreEntry t fill i = some (n, e) := by
  induction capacity with
  | zero => simp [restoreCache] at h
  | succ capacity ih =>
    rw [lookup_restoreCache_succ, or_eq_some_iff] at h
    rcases h with h | ⟨-, h⟩
    · obtain ⟨i, hi, hentry⟩ := ih h
      exact ⟨i, by omega, hentry⟩
    · obtain ⟨⟨name, record⟩, hentry, hname⟩ := bind_eq_some_iff.mp h
      split_ifs at hname with hn
      cases hname
      exact ⟨capacity, by omega, hn ▸ hentry⟩

/-- Where no two slots have one name, the map has the entry of every slot. -/
theorem lookup_restoreCache
    (hdistinct : ∀ i < capacity, ∀ j < capacity, ∀ n e e', restoreEntry t fill i = some (n, e) →
      restoreEntry t fill j = some (n, e') → i = j) (n : Name) (e : WithMemIdsRecord) :
    (restoreCache capacity t fill).lookup n = some e ↔
      ∃ i < capacity, restoreEntry t fill i = some (n, e) := by
  refine ⟨restoreEntry_of_lookup, ?_⟩
  rintro ⟨i, hi, hentry⟩
  induction capacity with
  | zero => omega
  | succ capacity ih =>
    have ih := ih fun i hi j hj => hdistinct i (by omega) j (by omega)
    rw [lookup_restoreCache_succ]
    rcases Nat.lt_succ_iff_lt_or_eq.mp hi with hlt | rfl
    · rw [ih hlt, some_or]
    · -- no earlier slot has the name of this one, so its entry goes in
      have hnew : (restoreCache i t fill).lookup n = none := by
        rw [eq_none_iff_forall_ne_some]
        intro e' he'
        obtain ⟨j, hj, hentry'⟩ := restoreEntry_of_lookup he'
        have := hdistinct j (by omega) i (by omega) n e' e hentry' hentry
        omega
      simp [hnew, hentry]

/-- **The stack of idle slots and the map belong to the records**: the stack holds
exactly the idle slots, the map exactly the slots in use, each under its own name and
with its own memory ids. -/
structure TableInv (capacity : Nat) (t : Nat → Named F) (idle : List Nat)
    (cache : Map Name WithMemIdsRecord) (ids : Nat → List UInt64) : Prop where
  nodup : idle.Nodup
  idle : ∀ i, i ∈ idle ↔ i < capacity ∧ (t i).idle = true
  cached : ∀ n e, cache.lookup n = some e ↔
    e.slot < capacity ∧ (t e.slot).idle = false ∧ cString (t e.slot).name = n ∧
      e.memIds = ids e.slot

/-- No two slots in use have one name. -/
def DistinctNames (capacity : Nat) (t : Nat → Named F) : Prop :=
  ∀ i < capacity, ∀ j < capacity, (t i).idle = false → (t j).idle = false →
    cString (t i).name = cString (t j).name → i = j

variable {capacity : Nat} {t : Nat → Named F} {idle : List Nat} {cache : Map Name WithMemIdsRecord}
  {ids : Nat → List UInt64}

theorem TableInv.distinct (h : TableInv capacity t idle cache ids) : DistinctNames capacity t := by
  intro i hi j hj hli hlj hname
  have h₁ := (h.cached _ ⟨i, ids i⟩).mpr ⟨hi, hli, rfl, rfl⟩
  have h₂ := (h.cached _ ⟨j, ids j⟩).mpr ⟨hj, hlj, rfl, rfl⟩
  rw [hname, h₂] at h₁
  simpa using (congrArg WithMemIdsRecord.slot (some.inj h₁)).symm

/-- A slot is written: what stands in it is idle or has a name of its own. -/
theorem DistinctNames.update (h : DistinctNames capacity t) {i : Nat} {r : Named F}
    (hname : r.idle = false → ∀ j < capacity, j ≠ i → (t j).idle = false →
      cString (t j).name ≠ cString r.name) : DistinctNames capacity (update t i r) := by
  intro j hj k hk
  by_cases hji : j = i
  · by_cases hki : k = i
    · intro _ _ _
      rw [hji, hki]
    · rw [hji, update_self, update_of_ne hki]
      exact fun hlive hlive' heq => absurd heq.symm (hname hlive k hk hki hlive')
  · by_cases hki : k = i
    · rw [hki, update_self, update_of_ne hji]
      exact fun hlive hlive' heq => absurd heq (hname hlive' j hj hji hlive)
    · rw [update_of_ne hji, update_of_ne hki]
      exact h j hj k hk

/-- **A restart builds the stack and the map again.** -/
theorem TableInv.restore (hdistinct : DistinctNames capacity t)
    (hfill : ∀ i < capacity, (t i).idle = false → fill (t i).fields = some (ids i)) :
    TableInv capacity t (restoreIdle capacity fun i => (t i).idle)
      (restoreCache capacity t fill) ids := by
  have hentry : ∀ i < capacity, ∀ n e, restoreEntry t fill i = some (n, e) ↔
      (t i).idle = false ∧ cString (t i).name = n ∧ e = ⟨i, ids i⟩ := by
    intro i hi n e
    unfold restoreEntry
    by_cases hidle : (t i).idle = true
    · simp [hidle]
    · simp only [hidle, hfill i hi (by simpa using hidle)]
      simp [eq_comm]
  refine ⟨nodup_range.filter _, fun i => by simp [restoreIdle], fun n e => ?_⟩
  rw [lookup_restoreCache]
  · constructor
    · rintro ⟨i, hi, h⟩
      obtain ⟨hlive, hname, rfl⟩ := (hentry i hi n e).mp h
      exact ⟨hi, hlive, hname, rfl⟩
    · rintro ⟨hi, hlive, hname, hids⟩
      refine ⟨e.slot, hi, (hentry e.slot hi n e).mpr ⟨hlive, hname, ?_⟩⟩
      rw [← hids]
  · intro i hi j hj n e e' hei hej
    obtain ⟨hli, hni, -⟩ := (hentry i hi n e).mp hei
    obtain ⟨hlj, hnj, -⟩ := (hentry j hj n e').mp hej
    exact hdistinct i hi j hj hli hlj (hni.trans hnj.symm)

section

variable (h : TableInv capacity t idle cache ids) {i : Nat} {r : Named F} {n : Name}
  {e : WithMemIdsRecord}

include h

/-- The slot that `Allocate` takes. -/
theorem TableInv.allocated (hlast : idle.getLast? = some i) :
    i < capacity ∧ (t i).idle = true ∧ idle = idle.dropLast ++ [i] ∧ i ∉ idle.dropLast := by
  have hsplit : idle = idle.dropLast ++ [i] := (dropLast_append_getLast? i hlast).symm
  have hmem : i ∈ idle := mem_of_getLast? hlast
  have hnodup := h.nodup
  rw [hsplit, nodup_append'] at hnodup
  refine ⟨((h.idle i).mp hmem).1, ((h.idle i).mp hmem).2, hsplit, fun hdrop => ?_⟩
  exact disjoint_left.mp hnodup.2.2 hdrop (mem_singleton_self i)

/-- A slot is taken for a new name. -/
theorem TableInv.occupy (hlast : idle.getLast? = some i) (hlive : r.idle = false)
    (hname : cString r.name = n) (hnew : cache.lookup n = none) :
    TableInv capacity (update t i r) idle.dropLast (cache.insert n ⟨i, []⟩)
      (update ids i []) := by
  obtain ⟨hi, hidle, hsplit, hdrop⟩ := h.allocated hlast
  refine ⟨h.nodup.sublist (dropLast_sublist _), fun j => ?_, fun n' e => ?_⟩
  · by_cases hj : j = i
    · subst hj
      simp [hdrop, hlive]
    · rw [update_of_ne hj, ← h.idle j]
      conv_rhs => rw [hsplit]
      simp [hj]
  · by_cases hn : n' = n
    · subst hn
      rw [lookup_insert]
      constructor
      · intro he
        cases he
        simp [hi, hlive, hname]
      · rintro ⟨hslot, hl, hnm, hids⟩
        by_cases hs : e.slot = i
        · rw [hs] at hids
          simp only [update_self] at hids
          rw [← hs, ← hids]
        · rw [update_of_ne hs] at hl hnm hids
          rw [(h.cached n' e).mpr ⟨hslot, hl, hnm, hids⟩] at hnew
          cases hnew
    · rw [lookup_insert_ne hn, h.cached]
      by_cases hs : e.slot = i
      · rw [hs]
        simp only [hidle, update_self, hname, Ne.symm hn, Bool.true_eq_false, false_and, and_false]
      · rw [update_of_ne hs, update_of_ne hs]

/-- A slot changes and stays idle, or stays in use under its name. -/
theorem TableInv.change (hidle : r.idle = (t i).idle)
    (hname : (t i).idle = false → cString r.name = cString (t i).name) :
    TableInv capacity (update t i r) idle cache ids := by
  have hidle' : ∀ j, (update t i r j).idle = (t j).idle := by
    intro j
    by_cases hj : j = i
    · subst hj
      simpa using hidle
    · rw [update_of_ne hj]
  refine ⟨h.nodup, fun j => by rw [hidle', h.idle], fun n e => ?_⟩
  rw [h.cached, hidle']
  by_cases hs : e.slot = i
  · rw [hs, update_self]
    refine and_congr_right fun _ => and_congr_right fun hlive => ?_
    rw [hname hlive]
  · rw [update_of_ne hs]

/-- A slot in use gets its memory ids. -/
theorem TableInv.setIds (he : cache.lookup n = some e) (memIds : List UInt64) :
    TableInv capacity t idle (cache.insert n ⟨e.slot, memIds⟩)
      (update ids e.slot memIds) := by
  obtain ⟨hslot, hlive, hname, -⟩ := (h.cached n e).mp he
  refine ⟨h.nodup, h.idle, fun n' e' => ?_⟩
  by_cases hn : n' = n
  · subst hn
    rw [lookup_insert]
    constructor
    · intro heq
      cases heq
      exact ⟨hslot, hlive, hname, by simp⟩
    · rintro ⟨hslot', hlive', hname', hids'⟩
      have hs : e'.slot = e.slot :=
        h.distinct _ hslot' _ hslot hlive' hlive (hname'.trans hname.symm)
      rw [hs, update_self] at hids'
      rw [← hs, ← hids']
  · rw [lookup_insert_ne hn, h.cached]
    refine and_congr_right fun hslot' => and_congr_right fun hlive' =>
      and_congr_right fun hname' => ?_
    have hs : e'.slot ≠ e.slot := fun hs => hn (by rw [← hname', hs, hname])
    rw [update_of_ne hs]

/-- A slot in use is given back. -/
theorem TableInv.vacate (he : cache.lookup n = some e) (hidle : r.idle = true) :
    TableInv capacity (update t e.slot r) (idle ++ [e.slot]) (cache.erase n) ids := by
  obtain ⟨hslot, hlive, hname, -⟩ := (h.cached n e).mp he
  have hnot : e.slot ∉ idle := by
    intro hmem
    rw [((h.idle _).mp hmem).2] at hlive
    cases hlive
  refine ⟨?_, fun j => ?_, fun n' e' => ?_⟩
  · exact nodup_append'.mpr ⟨h.nodup, nodup_singleton _, by simpa using hnot⟩
  · rw [mem_append, mem_singleton, h.idle]
    by_cases hj : j = e.slot
    · subst hj
      simp [hslot, hidle]
    · simp [hj]
  · by_cases hn : n' = n
    · subst hn
      rw [lookup_erase]
      constructor
      · intro heq
        cases heq
      · rintro ⟨hslot', hlive', hname', -⟩
        by_cases hs : e'.slot = e.slot
        · rw [hs, update_self, hidle] at hlive'
          cases hlive'
        · rw [update_of_ne hs] at hlive' hname'
          exact absurd (h.distinct _ hslot' _ hslot hlive' hlive (hname'.trans hname.symm)) hs
    · rw [lookup_erase_ne hn, h.cached]
      by_cases hs : e'.slot = e.slot
      · rw [hs]
        simp [hidle, hname, Ne.symm hn]
      · rw [update_of_ne hs]

/-- The map is determined by the records and their memory ids. -/
theorem TableInv.lookup_eq {idle' : List Nat} {cache' : Map Name WithMemIdsRecord}
    (h' : TableInv capacity t idle' cache' ids) (n : Name) : cache'.lookup n = cache.lookup n := by
  refine Option.ext fun e => ?_
  rw [h.cached, h'.cached]

end

end Table

/-- Maps with the same answers have the same entries. -/
theorem entries_perm_of_lookup_eq {V : Type} {m m' : Map Name V}
    (h : ∀ n, m'.lookup n = m.lookup n) : m'.entries.Perm m.entries := by
  refine (perm_ext_iff_of_nodup m'.nodupKeys.nodup m.nodupKeys.nodup).mpr ?_
  rintro ⟨n, v⟩
  rw [← mem_lookup_iff, ← mem_lookup_iff, h]

end UbsMem
