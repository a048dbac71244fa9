import UbsMem.CommonTypes
import Mathlib.Data.List.Nodup
import Mathlib.Data.List.GetD

/-! # The pool of memory ids

`RecordIdPoolAllocator` keeps lists of memory ids in lines of 64 words.  The first
word of a line is its head: whether the line is used, whether it is the first or the
last of a chain, and the next line of the chain (in the last line: how many ids it
holds).  The other 63 words hold ids.  Unused lines are kept in a stack.

`Chain p lines ids` says that the lines hold the ids.  `Allocate` makes a chain,
`FillAllocated` reads it back, `Release` finds exactly its lines.
-/
namespace UbsMem

open List

def recordMemIdPoolLineSize : Nat := 64

/-- `lineSize` of `Allocate`: the ids in a line. -/
def lineSize : Nat := recordMemIdPoolLineSize - 1

/-! ### Heads -/

/-- The fields of `IdHead`, without the reserved bits. -/
structure IdHead where
  used : Bool
  head : Bool
  tail : Bool
  nextIndex : Nat
  deriving DecidableEq

/-- The word of a head: three flags from bit 0, the next index from bit 32. -/
def IdHead.id (h : IdHead) : UInt64 :=
  UInt64.ofNat (h.used.toNat + 2 * h.head.toNat + 4 * h.tail.toNat +
    2 ^ 32 * (h.nextIndex % 2 ^ 32))

/-- The head in a word. -/
def idHead (id : UInt64) : IdHead where
  used := id.toNat % 2 = 1
  head := id.toNat / 2 % 2 = 1
  tail := id.toNat / 4 % 2 = 1
  nextIndex := id.toNat / 2 ^ 32

theorem idHead_id {h : IdHead} (hnext : h.nextIndex < 2 ^ 32) : idHead h.id = h := by
  obtain ⟨used, head, tail, next⟩ := h
  have hflag : ∀ b : Bool, b.toNat ≤ 1 := fun b => Bool.toNat_le b
  have hword : (UInt64.ofNat (used.toNat + 2 * head.toNat + 4 * tail.toNat +
      2 ^ 32 * (next % 2 ^ 32))).toNat =
        used.toNat + 2 * head.toNat + 4 * tail.toNat + 2 ^ 32 * next := by
    have := hflag used
    have := hflag head
    have := hflag tail
    rw [Nat.mod_eq_of_lt hnext, UInt64.toNat_ofNat']
    exact Nat.mod_eq_of_lt (by omega)
  unfold idHead IdHead.id
  rw [hword]
  have hbits : ∀ a b c : Nat, a ≤ 1 → b ≤ 1 → c ≤ 1 → (a + 2 * b + 4 * c + 2 ^ 32 * next) % 2 = a ∧
        (a + 2 * b + 4 * c + 2 ^ 32 * next) / 2 % 2 = b ∧
        (a + 2 * b + 4 * c + 2 ^ 32 * next) / 4 % 2 = c ∧
        (a + 2 * b + 4 * c + 2 ^ 32 * next) / 2 ^ 32 = next := by
    intro a b c ha hb hc
    refine ⟨?_, ?_, ?_, ?_⟩ <;> omega
  obtain ⟨h1, h2, h3, h4⟩ := hbits used.toNat head.toNat tail.toNat (hflag _) (hflag _) (hflag _)
  rw [h1, h2, h3, h4]
  cases used <;> cases head <;> cases tail <;> rfl

@[simp] theorem idHead_zero_used : (idHead 0).used = false := by decide

/-! ### Cells -/

/-- `MemIdRecordPool`: the word in a line and a column. -/
abbrev IdPool := Nat → Nat → UInt64

/-- The head of a line. -/
def IdPool.headOf (p : IdPool) (line : Nat) : IdHead := idHead (p line 0)

/-- Store one word. -/
def IdPool.set (p : IdPool) (line col : Nat) (word : UInt64) : IdPool :=
  fun l c => if l = line ∧ c = col then word else p l c

/-- A store of a word to a line and a column. -/
structure IdStore where
  line : Nat
  col : Nat
  word : UInt64

/-- The address of a store. -/
def IdStore.cell (s : IdStore) : Nat × Nat := (s.line, s.col)

/-- Carry out stores in order. -/
def IdPool.write (p : IdPool) (stores : List IdStore) : IdPool :=
  stores.foldl (fun p s => p.set s.line s.col s.word) p

variable {stores : List IdStore} {p : IdPool} {n i : Nat}

theorem IdPool.write_of_not_mem {line col : Nat} (h : (line, col) ∉ stores.map IdStore.cell) :
    p.write stores line col = p line col := by
  induction stores generalizing p with
  | nil => rfl
  | cons s ss ih =>
    rw [map_cons, mem_cons, not_or] at h
    rw [show p.write (s :: ss) = (p.set s.line s.col s.word).write ss from rfl, ih h.2]
    have hne : ¬ (line = s.line ∧ col = s.col) := fun heq => h.1 (by simp [IdStore.cell, heq])
    simp [IdPool.set, hne]

theorem IdPool.write_of_mem (hnodup : (stores.map IdStore.cell).Nodup) {s : IdStore}
    (hs : s ∈ stores) : p.write stores s.line s.col = s.word := by
  induction stores generalizing p with
  | nil => cases hs
  | cons t ts ih =>
    rw [map_cons, nodup_cons] at hnodup
    rw [show p.write (t :: ts) = (p.set t.line t.col t.word).write ts from rfl]
    rcases mem_cons.mp hs with rfl | hs
    · have hrest : (s.line, s.col) ∉ ts.map IdStore.cell := hnodup.1
      rw [IdPool.write_of_not_mem hrest]
      simp [IdPool.set]
    · exact ih hnodup.2 hs

/-! ### `Allocate` -/

/-- The lines that so many ids need. -/
def linesNeed (idCount : Nat) : Nat := (idCount + lineSize - 1) / lineSize

/-- The ids in the last line. -/
def lastLineItems (idCount : Nat) : Nat := idCount - (linesNeed idCount - 1) * lineSize

/-- The head that `Allocate` gives to the `i`-th of the lines. -/
def allocHead (lines : List Nat) (idCount i : Nat) : IdHead where
  used := true
  head := i = 0
  tail := i = lines.length - 1
  nextIndex := if i = lines.length - 1 then lastLineItems idCount else lines.getD (i + 1) 0

/-- The stores of `Allocate`: all heads first, then all ids. -/
def allocStores (lines : List Nat) (ids : List UInt64) : List IdStore :=
  (List.range lines.length).map (fun i => ⟨lines.getD i 0, 0, (allocHead lines ids.length i).id⟩) ++
    (List.range ids.length).map fun i =>
      ⟨lines.getD (i / lineSize) 0, i % lineSize + 1, ids.getD i 0⟩

/-- `Allocate`, up to its stores: the lines taken from the end of the idle ones, and
those left. -/
def allocLines (idle : List Nat) (ids : List UInt64) : Option (List Nat × List Nat) :=
  let need := linesNeed ids.length
  if need = 0 then none
  else if idle.length < need then none
  else some (idle.reverse.take need, idle.take (idle.length - need))

/-! ### Chains -/

/-- The lines hold the ids, as `Allocate` lays them out. -/
structure Chain (p : IdPool) (lines : List Nat) (ids : List UInt64) : Prop where
  nonempty : ids ≠ []
  length : lines.length = linesNeed ids.length
  nodup : lines.Nodup
  head : ∀ i < lines.length, p.headOf (lines.getD i 0) = allocHead lines ids.length i
  id : ∀ i < ids.length, p (lines.getD (i / lineSize) 0) (i % lineSize + 1) = ids.getD i 0

variable {p : IdPool} {lines rest idle : List Nat} {ids : List UInt64} {lineCount l : Nat}

theorem linesNeed_pos (h : 0 < n) : 0 < linesNeed n := by
  unfold linesNeed lineSize recordMemIdPoolLineSize
  omega

theorem div_lineSize_lt (h : i < n) : i / lineSize < linesNeed n := by
  unfold linesNeed lineSize recordMemIdPoolLineSize
  omega

theorem lastLineItems_bounds (h : 0 < n) : 0 < lastLineItems n ∧ lastLineItems n ≤ lineSize ∧
      n = (linesNeed n - 1) * lineSize + lastLineItems n := by
  unfold lastLineItems linesNeed lineSize recordMemIdPoolLineSize
  omega

theorem Chain.lines_pos (h : Chain p lines ids) : 0 < lines.length := by
  rw [h.length]
  exact linesNeed_pos (length_pos_iff.mpr h.nonempty)

/-- The lines at two places of a list without repetitions are the same only if the
places are. -/
theorem getD_inj (hnodup : lines.Nodup) {j : Nat} (hi : i < lines.length) (hj : j < lines.length)
    (h : lines.getD i 0 = lines.getD j 0) : i = j := by
  rw [getD_eq_getElem _ _ hi, getD_eq_getElem _ _ hj] at h
  exact (List.Nodup.getElem_inj_iff hnodup).mp h

theorem getD_mem (hi : i < lines.length) : lines.getD i 0 ∈ lines := by
  rw [getD_eq_getElem _ _ hi]
  exact getElem_mem hi

/-- The stores of `Allocate` go to distinct cells. -/
theorem allocStores_nodup (hnodup : lines.Nodup) (hlength : lines.length = linesNeed ids.length) :
    ((allocStores lines ids).map IdStore.cell).Nodup := by
  unfold allocStores
  rw [map_append, map_map, map_map]
  refine nodup_append'.mpr ⟨?_, ?_, ?_⟩
  · refine List.Nodup.map_on (fun i hi j hj h => ?_) nodup_range
    simp only [Function.comp_apply, IdStore.cell, Prod.mk.injEq] at h
    exact getD_inj hnodup (mem_range.mp hi) (mem_range.mp hj) h.1
  · refine List.Nodup.map_on (fun i hi j hj h => ?_) nodup_range
    simp only [Function.comp_apply, IdStore.cell, Prod.mk.injEq] at h
    have hi' : i / lineSize < lines.length := hlength ▸ div_lineSize_lt (mem_range.mp hi)
    have hj' : j / lineSize < lines.length := hlength ▸ div_lineSize_lt (mem_range.mp hj)
    have hrow := getD_inj hnodup hi' hj' h.1
    have hcol : i % lineSize = j % lineSize := by omega
    rw [← Nat.div_add_mod i lineSize, ← Nat.div_add_mod j lineSize, hrow, hcol]
  · rw [disjoint_left]
    rintro ⟨l, c⟩ h₁ h₂
    simp only [mem_map, Function.comp_apply, IdStore.cell, Prod.mk.injEq] at h₁ h₂
    omega

/-- **`Allocate` makes a chain.** -/
theorem chain_allocStores (p : IdPool) (hids : ids ≠ []) (hnodup : lines.Nodup)
    (hlength : lines.length = linesNeed ids.length) (hbound : ∀ l ∈ lines, l < 2 ^ 32) :
    Chain (p.write (allocStores lines ids)) lines ids := by
  have hcells := allocStores_nodup hnodup hlength
  refine ⟨hids, hlength, hnodup, fun i hi => ?_, fun i hi => ?_⟩
  · have hmem : (⟨lines.getD i 0, 0, (allocHead lines ids.length i).id⟩ : IdStore) ∈
        allocStores lines ids :=
      mem_append_left _ (mem_map.mpr ⟨i, mem_range.mpr hi, rfl⟩)
    unfold IdPool.headOf
    rw [IdPool.write_of_mem hcells hmem, idHead_id]
    unfold allocHead
    dsimp only
    split_ifs with hlast
    · have := lastLineItems_bounds (length_pos_iff.mpr hids)
      unfold lineSize recordMemIdPoolLineSize at this
      omega
    · exact hbound _ (getD_mem (by omega))
  · have hmem : (⟨lines.getD (i / lineSize) 0, i % lineSize + 1, ids.getD i 0⟩ : IdStore) ∈
        allocStores lines ids :=
      mem_append_right _ (mem_map.mpr ⟨i, mem_range.mpr hi, rfl⟩)
    exact IdPool.write_of_mem hcells hmem

theorem Chain.of_agree {p' : IdPool} (h : Chain p lines ids) (hagree : ∀ l ∈ lines, p' l = p l) :
    Chain p' lines ids := by
  refine { h with head := fun i hi => ?_, id := fun i hi => ?_ }
  · unfold IdPool.headOf
    rw [hagree _ (getD_mem hi)]
    exact h.head i hi
  · rw [hagree _ (getD_mem (h.length ▸ div_lineSize_lt hi))]
    exact h.id i hi

/-! ### Following a chain -/

/-- The loop that `FillAllocated` and `Release` share: the lines whose heads it reads, and
the lines from `current` to the end of the chain, after those already visited. -/
def walkLoop (lineCount : Nat) (p : IdPool) : Nat → List Nat → Nat → List Nat × Option (List Nat)
  | fuel, visited, current =>
    let head := p.headOf current
    if head.tail then ([current], some (visited ++ [current]))
    else
      match fuel with
      | 0 => ([current], none)
      | fuel + 1 =>
        if head.nextIndex ≥ lineCount then ([current], none)
        else if head.nextIndex ∈ visited ++ [current] then ([current], none)
        else if !(p.headOf head.nextIndex).used then ([current, head.nextIndex], none)
        else
          (walkLoop lineCount p fuel (visited ++ [current]) head.nextIndex).map (current :: ·) id

/-- The loop, after the checks on its first line. -/
def tracedWalk (lineCount : Nat) (p : IdPool) (headIndex : Nat) : List Nat × Option (List Nat) :=
  if headIndex ≥ lineCount then ([], none)
  else if !(p.headOf headIndex).used then ([headIndex], none)
  else if !(p.headOf headIndex).head then ([headIndex], none)
  else walkLoop lineCount p (lineCount - 1) [] headIndex

/-- The lines of the chain that starts at a line. -/
def walk (lineCount : Nat) (p : IdPool) (headIndex : Nat) : Option (List Nat) :=
  (tracedWalk lineCount p headIndex).2

/-- The first words of a line after its head. -/
def lineIds (p : IdPool) (line count : Nat) : List UInt64 :=
  (List.range count).map fun i => p line (i + 1)

def fillAllocated (lineCount : Nat) (p : IdPool) (headIndex : Nat) : Option (List UInt64) :=
  match walk lineCount p headIndex with
  | none => none
  | some lines =>
    let last := lines.getLastD 0
    let items := (p.headOf last).nextIndex
    if items ≥ recordMemIdPoolLineSize then none
    else some (lines.dropLast.flatMap (fun line => lineIds p line lineSize) ++ lineIds p last items)

/-- The stores of `Release`. -/
def releaseStores (lines : List Nat) : List IdStore := lines.map fun line => ⟨line, 0, 0⟩

variable {j r size : Nat} {α : Type}

theorem take_concat_getD (hj : j < lines.length) :
    lines.take j ++ [lines.getD j 0] = lines.take (j + 1) := by
  rw [take_add_one, getD_eq_getElem _ _ hj, List.getElem?_eq_getElem hj]
  rfl

theorem Chain.walkLoop (h : Chain p lines ids) (hbound : ∀ l ∈ lines, l < lineCount) {fuel : Nat}
    (hj : j < lines.length) (hfuel : lines.length - 1 - j ≤ fuel) :
    (walkLoop lineCount p fuel (lines.take j) (lines.getD j 0)).2 = some lines := by
  -- In the last line the loop ends with all the lines.
  have hend : ∀ fuel j, j < lines.length → j = lines.length - 1 →
      (UbsMem.walkLoop lineCount p fuel (lines.take j) (lines.getD j 0)).2 = some lines := by
    intro fuel j hj hlast
    have htail : (p.headOf (lines.getD j 0)).tail = true := by
      rw [h.head j hj]
      simpa [allocHead] using hlast
    unfold UbsMem.walkLoop
    simp only [htail, if_true]
    rw [take_concat_getD hj, take_of_length_le (by omega)]
  induction fuel generalizing j with
  | zero => exact hend 0 j hj (by omega)
  | succ fuel ih =>
    by_cases hlast : j = lines.length - 1
    · exact hend (fuel + 1) j hj hlast
    · have hnext : j + 1 < lines.length := by omega
      -- The next line is within the pool, new, and used.
      have hnew : lines.getD (j + 1) 0 ∉ lines.take (j + 1) := by
        intro hmem
        obtain ⟨i, hi, heq⟩ := mem_take_iff_getElem.mp hmem
        have hi' : i < lines.length := by omega
        rw [← getD_eq_getElem _ 0 hi'] at heq
        have := getD_inj h.nodup hi' hnext heq
        omega
      have hused : (p.headOf (lines.getD (j + 1) 0)).used = true := by
        rw [h.head _ hnext]
        rfl
      unfold UbsMem.walkLoop
      simp only [h.head j hj, allocHead, hlast, decide_false, Bool.false_eq_true, if_false,
        take_concat_getD hj, hnew, hused]
      rw [if_neg (by have := hbound _ (getD_mem hnext); omega)]
      exact ih hnext (by omega)

theorem length_le_of_bound (hnodup : lines.Nodup) (hbound : ∀ l ∈ lines, l < lineCount) :
    lines.length ≤ lineCount := by
  have hsub : lines ⊆ List.range lineCount := fun l hl => mem_range.mpr (hbound l hl)
  simpa using (subperm_of_subset hnodup hsub).length_le

/-- **From its first line a chain is found whole.** -/
theorem Chain.walk (h : Chain p lines ids) (hbound : ∀ l ∈ lines, l < lineCount) :
    walk lineCount p (lines.getD 0 0) = some lines := by
  have hpos := h.lines_pos
  have hfirst := h.head 0 hpos
  have hlt := hbound _ (getD_mem hpos)
  have hlen := length_le_of_bound h.nodup hbound
  unfold UbsMem.walk tracedWalk
  simp only [hfirst]
  rw [if_neg (by omega)]
  exact h.walkLoop hbound hpos (by omega)

/-- The words of one line, among words numbered through lines of a fixed size. -/
theorem range_map_line (g : Nat → Nat → α) (hr : r ≤ size) (k : Nat) :
    (List.range r).map (fun j => g ((k * size + j) / size) ((k * size + j) % size)) =
      (List.range r).map (g k) := by
  refine map_congr_left fun j hj => ?_
  have hlt : j < size := lt_of_lt_of_le (mem_range.mp hj) hr
  rw [Nat.mul_comm, Nat.mul_add_div (by omega), Nat.mul_add_mod, Nat.div_eq_of_lt hlt,
    Nat.mod_eq_of_lt hlt, Nat.add_zero]

theorem range_map_divMod (g : Nat → Nat → α) (hr : r ≤ size) (k : Nat) :
    (List.range (k * size + r)).map (fun i => g (i / size) (i % size)) =
      (List.range k).flatMap (fun a => (List.range size).map (g a)) ++
        (List.range r).map (g k) := by
  induction k generalizing r with
  | zero =>
    have := range_map_line g hr 0
    simpa using this
  | succ k ih =>
    have hline := range_map_line g hr (k + 1)
    rw [range_add, map_append, map_map, range_succ, flatMap_append, append_assoc]
    rw [Nat.succ_mul] at hline ⊢
    rw [ih (le_refl size), append_assoc]
    simpa [Function.comp_def] using hline

theorem Chain.fillAllocated (h : Chain p lines ids) (hbound : ∀ l ∈ lines, l < lineCount) :
    fillAllocated lineCount p (lines.getD 0 0) = some ids := by
  unfold UbsMem.fillAllocated
  rw [h.walk hbound]
  have hpos := h.lines_pos
  obtain ⟨hitems, hle, hcount⟩ := lastLineItems_bounds (length_pos_iff.mpr h.nonempty)
  have hlast : lines.getLastD 0 = lines.getD (lines.length - 1) 0 := by
    rw [getLastD_eq_getLast?, List.getLast?_eq_getElem?]
    rfl
  have hhead : (p.headOf (lines.getLastD 0)).nextIndex = lastLineItems ids.length := by
    rw [hlast, h.head _ (by omega)]
    simp [allocHead]
  have hids : ids = (List.range ids.length).map fun i =>
      p (lines.getD (i / lineSize) 0) (i % lineSize + 1) := by
    refine ext_getElem (by simp) fun i hi _ => ?_
    rw [getElem_map, getElem_range, h.id i hi, getD_eq_getElem _ _ hi]
  have hinit : lines.dropLast = (List.range (lines.length - 1)).map fun a => lines.getD a 0 := by
    refine ext_getElem (by simp) fun i hi _ => ?_
    rw [length_dropLast] at hi
    rw [getElem_dropLast, getElem_map, getElem_range, getD_eq_getElem _ _ (by omega)]
  dsimp only
  rw [hhead, if_neg (by unfold lineSize at hle; unfold recordMemIdPoolLineSize at hle ⊢; omega)]
  congr 1
  conv_rhs => rw [hids, hcount, ← h.length]
  rw [range_map_divMod (fun a i => p (lines.getD a 0) (i + 1)) hle, ← hlast, hinit, flatMap_map]
  rfl

/-! ### Idle lines -/

/-- The stack of idle lines: exactly those that are not used. -/
structure IdleLines (lineCount : Nat) (p : IdPool) (idle : List Nat) : Prop where
  nodup : idle.Nodup
  mem : ∀ l, l ∈ idle ↔ l < lineCount ∧ (p.headOf l).used = false

/-- `RecordIdPoolAllocator::Initialize`. -/
def restoreIdleLines (lineCount : Nat) (p : IdPool) : List Nat :=
  (List.range lineCount).filter fun l => !(p.headOf l).used

theorem idleLines_restore (lineCount : Nat) (p : IdPool) :
    IdleLines lineCount p (restoreIdleLines lineCount p) := by
  refine ⟨nodup_range.filter _, fun l => ?_⟩
  simp [restoreIdleLines]

/-- What `Allocate` takes and leaves. -/
structure Allocated (idle : List Nat) (ids : List UInt64) (lines rest : List Nat) : Prop where
  nonempty : ids ≠ []
  length : lines.length = linesNeed ids.length
  append : rest ++ lines.reverse = idle

theorem allocLines_eq (h : allocLines idle ids = some (lines, rest)) :
    Allocated idle ids lines rest := by
  unfold allocLines at h
  dsimp only at h
  split_ifs at h with hzero hfew
  obtain ⟨rfl, rfl⟩ : idle.reverse.take (linesNeed ids.length) = lines ∧
      idle.take (idle.length - linesNeed ids.length) = rest := by simpa using h
  refine ⟨?_, ?_, ?_⟩
  · rintro rfl
    exact hzero (by simp [linesNeed, lineSize, recordMemIdPoolLineSize])
  · rw [length_take, length_reverse]
    omega
  · rw [reverse_take, reverse_reverse, length_reverse]
    exact take_append_drop _ _

theorem Allocated.mem (h : Allocated idle ids lines rest) : l ∈ idle ↔ l ∈ rest ∨ l ∈ lines := by
  rw [← h.append]
  simp

theorem Allocated.nodup (h : Allocated idle ids lines rest) (hidle : idle.Nodup) :
    rest.Nodup ∧ lines.Nodup ∧ ∀ l ∈ rest, l ∉ lines := by
  rw [← h.append] at hidle
  obtain ⟨hrest, hlines, hdisj⟩ := nodup_append'.mp hidle
  refine ⟨hrest, nodup_reverse.mp hlines, fun l hl hmem => ?_⟩
  exact disjoint_left.mp hdisj hl (mem_reverse.mpr hmem)

/-- The stores of `Allocate` stay within its lines. -/
theorem line_mem_of_allocStores (hlength : lines.length = linesNeed ids.length) {s : IdStore}
    (hs : s ∈ allocStores lines ids) : s.line ∈ lines := by
  rcases mem_append.mp hs with hs | hs
  · obtain ⟨i, hi, rfl⟩ := mem_map.mp hs
    exact getD_mem (mem_range.mp hi)
  · obtain ⟨i, hi, rfl⟩ := mem_map.mp hs
    exact getD_mem (hlength ▸ div_lineSize_lt (mem_range.mp hi))

theorem write_allocStores_of_not_mem (p : IdPool) (hlength : lines.length = linesNeed ids.length)
    (hl : l ∉ lines) : p.write (allocStores lines ids) l = p l := by
  funext c
  refine IdPool.write_of_not_mem fun hmem => hl ?_
  obtain ⟨s, hs, heq⟩ := mem_map.mp hmem
  have hline : s.line = l := congrArg Prod.fst heq
  exact hline ▸ line_mem_of_allocStores hlength hs

theorem Chain.used (h : Chain p lines ids) (hl : l ∈ lines) : (p.headOf l).used = true := by
  obtain ⟨i, hi, rfl⟩ := mem_iff_getElem.mp hl
  rw [← getD_eq_getElem _ 0 hi, h.head i hi]
  rfl

/-- After `Allocate` the idle lines are those left. -/
theorem IdleLines.alloc (h : IdleLines lineCount p idle) (hcount : lineCount ≤ 2 ^ 32)
    (halloc : Allocated idle ids lines rest) :
    Chain (p.write (allocStores lines ids)) lines ids ∧
      IdleLines lineCount (p.write (allocStores lines ids)) rest := by
  obtain ⟨hrest, hlines, hdisj⟩ := halloc.nodup h.nodup
  have hidle : ∀ l ∈ lines, l < lineCount := fun l hl =>
    ((h.mem l).mp (halloc.mem.mpr (.inr hl))).1
  have hchain := chain_allocStores p halloc.nonempty hlines halloc.length
    fun l hl => lt_of_lt_of_le (hidle l hl) hcount
  refine ⟨hchain, hrest, fun l => ?_⟩
  by_cases hl : l ∈ lines
  · rw [hchain.used hl]
    exact ⟨fun hmem => absurd hl (hdisj l hmem), fun h => by simp at h⟩
  · have hsame : (p.write (allocStores lines ids)).headOf l = p.headOf l := by
      unfold IdPool.headOf
      rw [write_allocStores_of_not_mem p halloc.length hl]
    rw [hsame, ← h.mem l, halloc.mem]
    simp [hl]

theorem write_releaseStores_of_not_mem (p : IdPool) (hl : l ∉ lines) :
    p.write (releaseStores lines) l = p l := by
  funext c
  refine IdPool.write_of_not_mem fun hmem => hl ?_
  simp only [releaseStores, map_map, mem_map] at hmem
  obtain ⟨l', hl', rfl, -⟩ := hmem
  exact hl'

theorem headOf_write_releaseStores (p : IdPool) (hnodup : lines.Nodup) (hl : l ∈ lines) :
    ((p.write (releaseStores lines)).headOf l).used = false := by
  have hcells : ((releaseStores lines).map IdStore.cell).Nodup := by
    rw [releaseStores, map_map]
    refine hnodup.map fun a b hab => ?_
    simpa [IdStore.cell] using hab
  have hmem : (⟨l, 0, 0⟩ : IdStore) ∈ releaseStores lines := mem_map.mpr ⟨l, hl, rfl⟩
  unfold IdPool.headOf
  rw [IdPool.write_of_mem hcells hmem]
  exact idHead_zero_used

/-- Lines of the pool that are used, without repetitions. -/
structure UsedLines (lineCount : Nat) (p : IdPool) (lines : List Nat) : Prop where
  nodup : lines.Nodup
  used : ∀ l ∈ lines, (p.headOf l).used = true
  bound : ∀ l ∈ lines, l < lineCount

theorem Chain.usedLines (h : Chain p lines ids) (hbound : ∀ l ∈ lines, l < lineCount) :
    UsedLines lineCount p lines := ⟨h.nodup, fun _ => h.used, hbound⟩

/-- After `Release` the lines are idle again. -/
theorem IdleLines.release (h : IdleLines lineCount p idle) (hlines : UsedLines lineCount p lines) :
    IdleLines lineCount (p.write (releaseStores lines)) (idle ++ lines) := by
  constructor
  · refine nodup_append'.mpr ⟨h.nodup, hlines.nodup, disjoint_left.mpr fun l hl hmem => ?_⟩
    have := ((h.mem l).mp hl).2
    rw [hlines.used l hmem] at this
    cases this
  · intro l
    by_cases hl : l ∈ lines
    · simp [hl, hlines.bound l hl, headOf_write_releaseStores p hlines.nodup hl]
    · have hsame : (p.write (releaseStores lines)).headOf l = p.headOf l := by
        unfold IdPool.headOf
        rw [write_releaseStores_of_not_mem p hl]
      rw [hsame, ← h.mem l]
      simp [hl]

end UbsMem
