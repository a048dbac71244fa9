import Mathlib.Algebra.GroupWithZero.Nat
import UbsMem.RecordStore

/-! # The allocator of the pool

`RecordIdPoolAllocator` over whole runs.  On any bytes the stack of idle lines is the set
of the lines that are not used, since every chain that `Release` gives back was followed
through used lines without a repetition.  On a pool that started with zeros, `LiveInv`
says which lists are held: they and the idle lines share out the pool.
-/
namespace UbsMem

open List Option

/-- The pool and the stack of its idle lines. -/
structure PoolState where
  pool : IdPool
  idle : List Nat

/-- The calls of the allocator. -/
inductive PoolCall
  | allocate (ids : List UInt64)
  | fillAllocated (headIndex : Nat)
  | release (headIndex : Nat)

namespace PoolState

variable (lineCount : Nat)

/-- `Initialize`. -/
def start (pool : IdPool) : PoolState := ⟨pool, restoreIdleLines lineCount pool⟩

/-- `Allocate`: the head index when it succeeds. -/
def allocate (ids : List UInt64) (s : PoolState) : Option Nat × PoolState :=
  match allocLines s.idle ids with
  | none => (none, s)
  | some (lines, rest) => (some (lines.getD 0 0), ⟨s.pool.write (allocStores lines ids), rest⟩)

/-- `Release`: the lines that have become idle. -/
def release (headIndex : Nat) (s : PoolState) : Option (List Nat) × PoolState :=
  match walk lineCount s.pool headIndex with
  | none => (none, s)
  | some lines => (some lines, ⟨s.pool.write (releaseStores lines), s.idle ++ lines⟩)

/-- A call: the code and the state after it. -/
def call (s : PoolState) : PoolCall → Int × PoolState
  | .allocate ids => (if (s.allocate ids).1.isSome then 0 else -1, (s.allocate ids).2)
  | .fillAllocated headIndex =>
    (if (fillAllocated lineCount s.pool headIndex).isSome then 0 else -1, s)
  | .release headIndex =>
    (if (s.release lineCount headIndex).1.isSome then 0 else -1, (s.release lineCount headIndex).2)

/-- The state after calls. -/
def run (s : PoolState) (calls : List PoolCall) : PoolState :=
  calls.foldl (fun s c => (s.call lineCount c).2) s

end PoolState

/-! ### Any bytes -/

/-- The lines that a call reads or writes; `FillAllocated` reads the ids of lines whose
heads it has read. -/
def PoolCall.lines (lineCount : Nat) (s : PoolState) : PoolCall → List Nat
  | .allocate ids => match allocLines s.idle ids with
    | none => []
    | some (lines, _) => (allocStores lines ids).map IdStore.line
  | .fillAllocated headIndex | .release headIndex => (tracedWalk lineCount s.pool headIndex).1

section Walk

variable {lineCount : Nat} {p : IdPool} {lines : List Nat}

theorem UsedLines.concat (h : UsedLines lineCount p lines) {l : Nat} (hnew : l ∉ lines)
    (hused : (p.headOf l).used = true) (hbound : l < lineCount) :
    UsedLines lineCount p (lines ++ [l]) := by
  refine ⟨?_, fun l' hl' => ?_, fun l' hl' => ?_⟩
  · rw [← concat_eq_append]
    exact h.nodup.concat hnew
  · rcases mem_append.mp hl' with hl' | hl'
    · exact h.used l' hl'
    · rwa [mem_singleton.mp hl']
  · rcases mem_append.mp hl' with hl' | hl'
    · exact h.bound l' hl'
    · rwa [mem_singleton.mp hl']

/-- **Whatever the bytes, the loop visits used lines of the pool, none twice**, and
reads no line outside. -/
theorem UsedLines.walkLoop {fuel current : Nat} {visited : List Nat}
    (h : UsedLines lineCount p (visited ++ [current])) :
    (∀ l ∈ (walkLoop lineCount p fuel visited current).1, l < lineCount) ∧
      ∀ lines, (UbsMem.walkLoop lineCount p fuel visited current).2 = some lines →
        UsedLines lineCount p lines := by
  have hcurrent : ∀ l ∈ [current], l < lineCount := fun l hl =>
    h.bound l (mem_append_right _ hl)
  induction fuel generalizing visited current with
  | zero =>
    unfold UbsMem.walkLoop
    dsimp only
    split_ifs
    · exact ⟨hcurrent, fun lines hlines => some.inj hlines ▸ h⟩
    · exact ⟨hcurrent, by simp⟩
  | succ fuel ih =>
    unfold UbsMem.walkLoop
    dsimp only
    split_ifs with htail hbound hvisited hused
    · exact ⟨hcurrent, fun lines hlines => some.inj hlines ▸ h⟩
    · exact ⟨hcurrent, by simp⟩
    · exact ⟨hcurrent, by simp⟩
    · refine ⟨forall_mem_cons.mpr ⟨hcurrent _ mem_cons_self, ?_⟩, by simp⟩
      exact forall_mem_singleton.mpr (not_le.mp hbound)
    · have hnext := h.concat hvisited (by simpa using hused) (not_le.mp hbound)
      obtain ⟨hreads, hlines⟩ := ih hnext fun l hl => hnext.bound l (mem_append_right _ hl)
      exact ⟨forall_mem_cons.mpr ⟨hcurrent _ mem_cons_self, hreads⟩, hlines⟩

theorem usedLines_tracedWalk (lineCount : Nat) (p : IdPool) (headIndex : Nat) :
    (∀ l ∈ (tracedWalk lineCount p headIndex).1, l < lineCount) ∧
      ∀ lines, walk lineCount p headIndex = some lines → UsedLines lineCount p lines := by
  unfold walk tracedWalk
  split_ifs with hbound hused hhead
  · exact ⟨nofun, nofun⟩
  · exact ⟨forall_mem_singleton.mpr (not_le.mp hbound), nofun⟩
  · exact ⟨forall_mem_singleton.mpr (not_le.mp hbound), nofun⟩
  · refine UsedLines.walkLoop ?_
    exact UsedLines.concat ⟨nodup_nil, by simp, by simp⟩ (by simp) (by simpa using hused)
      (not_le.mp hbound)

end Walk

section Idle

variable {lineCount : Nat} {s : PoolState}

section

variable (h : IdleLines lineCount s.pool s.idle)

include h

theorem IdleLines.call (hcount : lineCount ≤ 2 ^ 32) (c : PoolCall) :
    IdleLines lineCount (s.call lineCount c).2.pool (s.call lineCount c).2.idle := by
  cases c with
  | allocate ids =>
    simp only [PoolState.call, PoolState.allocate]
    cases halloc : allocLines s.idle ids with
    | none => exact h
    | some taken => exact (h.alloc hcount (allocLines_eq halloc)).2
  | fillAllocated headIndex => exact h
  | release headIndex =>
    simp only [PoolState.call, PoolState.release]
    cases hwalk : walk lineCount s.pool headIndex with
    | none => exact h
    | some lines => exact h.release ((usedLines_tracedWalk ..).2 lines hwalk)

theorem IdleLines.poolRun (hcount : lineCount ≤ 2 ^ 32) (calls : List PoolCall) :
    IdleLines lineCount (s.run lineCount calls).pool (s.run lineCount calls).idle := by
  induction calls generalizing s with
  | nil => exact h
  | cons c calls ih => exact ih (h.call hcount c)

theorem IdleLines.lines_lt (c : PoolCall) : ∀ l ∈ c.lines lineCount s, l < lineCount := by
  cases c with
  | allocate ids =>
    intro l hl
    simp only [PoolCall.lines] at hl
    cases halloc : allocLines s.idle ids with
    | none => simp [halloc] at hl
    | some taken =>
      have hallocated := allocLines_eq halloc
      simp only [halloc] at hl
      obtain ⟨store, hstore, rfl⟩ := mem_map.mp hl
      have hline := line_mem_of_allocStores hallocated.length hstore
      exact ((h.mem _).mp (hallocated.mem.mpr (.inr hline))).1
  | fillAllocated headIndex | release headIndex => exact (usedLines_tracedWalk ..).1

end

end Idle

theorem PoolState.call_cases (lineCount : Nat) (s : PoolState) (c : PoolCall) :
    (s.call lineCount c).1 = 0 ∨ (s.call lineCount c).1 = -1 ∧ (s.call lineCount c).2 = s := by
  cases c with
  | allocate ids =>
    unfold call allocate
    cases hlines : allocLines s.idle ids with
    | none => exact .inr ⟨by simp [hlines], by simp [hlines]⟩
    | some taken => exact .inl (by simp [hlines])
  | fillAllocated headIndex =>
    unfold call
    cases hids : UbsMem.fillAllocated lineCount s.pool headIndex with
    | none => exact .inr ⟨by simp [hids], rfl⟩
    | some ids => exact .inl (by simp [hids])
  | release headIndex =>
    unfold call release
    cases hlines : walk lineCount s.pool headIndex with
    | none => exact .inr ⟨by simp [hlines], by simp [hlines]⟩
    | some lines => exact .inl (by simp [hlines])

/-- **The stack of idle lines is exact on any bytes**: after `Initialize` and any calls it
has each line that is not used, once; a call touches lines of the pool only, and one that
fails changes nothing. -/
theorem idle_lines_exact (p : IdPool) (calls : List PoolCall) :
    let lineCount := recordStoreConfig.lineCount
    let s := (PoolState.start lineCount p).run lineCount calls
    s.idle.Nodup ∧ (∀ l, l ∈ s.idle ↔ l < lineCount ∧ (s.pool.headOf l).used = false) ∧
      ∀ c : PoolCall, (∀ l ∈ c.lines lineCount s, l < lineCount) ∧
        ((s.call lineCount c).1 = 0 ∨
          (s.call lineCount c).1 = -1 ∧ (s.call lineCount c).2 = s) := by
  intro lineCount s
  have hcount : lineCount ≤ 2 ^ 32 := recordStoreConfig.lineCount_le
  clear_value lineCount
  have h : IdleLines lineCount s.pool s.idle :=
    IdleLines.poolRun (idleLines_restore lineCount p) hcount calls
  exact ⟨h.nodup, h.mem, fun c => ⟨h.lines_lt c, s.call_cases lineCount c⟩⟩

/-! ### A pool that started with zeros -/

/-- A list that the pool holds: its ids, and the lines of its chain. -/
structure LiveList where
  lines : List Nat
  ids : List UInt64
  deriving DecidableEq

/-- The head index of a list. -/
def LiveList.headIndex (e : LiveList) : Nat := e.lines.getD 0 0

/-- What happens to a pool: calls that may change it, and `Destroy` with `Initialize`. -/
inductive PoolEvent
  | allocate (ids : List UInt64)
  | release (headIndex : Nat)
  | restart
  deriving DecidableEq

/-- The pool, and the lists allocated and not released since. -/
structure LivePool where
  state : PoolState
  live : List LiveList

/-- A pool of zeros. -/
def LivePool.zeros (lineCount : Nat) : LivePool := ⟨.start lineCount fun _ _ => 0, []⟩

/-- One event: `Allocate` adds the list with the lines it takes, `Release` takes away the
list of its head index. -/
def LivePool.step (lineCount : Nat) (w : LivePool) : PoolEvent → LivePool
  | .allocate ids => ⟨(w.state.allocate ids).2, match allocLines w.state.idle ids with
    | none => w.live
    | some (lines, _) => ⟨lines, ids⟩ :: w.live⟩
  | .release headIndex => ⟨(w.state.release lineCount headIndex).2,
      w.live.eraseP fun e => e.headIndex = headIndex⟩
  | .restart => ⟨.start lineCount w.state.pool, w.live⟩

/-- The pool after events. -/
def LivePool.run (lineCount : Nat) (w : LivePool) (events : List PoolEvent) : LivePool :=
  events.foldl (LivePool.step lineCount) w

/-- **The lists and the idle lines share out the pool.** -/
structure LiveInv (lineCount : Nat) (s : PoolState) (live : List LiveList) : Prop where
  chains : ∀ e ∈ live, Chain s.pool e.lines e.ids
  lines : (s.idle ++ live.flatMap LiveList.lines).Perm (List.range lineCount)
  idle : ∀ l ∈ s.idle, (s.pool.headOf l).used = false

section Live

variable {lineCount : Nat} {s : PoolState} {live : List LiveList}

section

variable (h : LiveInv lineCount s live) {e : LiveList} {lines : List Nat}

include h

theorem LiveInv.nodup :
    (s.idle ++ live.flatMap LiveList.lines).Nodup := h.lines.nodup_iff.mpr nodup_range

theorem LiveInv.bound (he : e ∈ live) : ∀ l ∈ e.lines, l < lineCount := by
  intro l hl
  refine mem_range.mp (h.lines.mem_iff.mp (mem_append_right _ ?_))
  exact mem_flatMap.mpr ⟨e, he, hl⟩

theorem LiveInv.of_used {l : Nat} (hl : l < lineCount) (hused : (s.pool.headOf l).used = true) :
    ∃ e ∈ live, l ∈ e.lines := by
  rcases mem_append.mp (h.lines.mem_iff.mpr (mem_range.mpr hl)) with hidle | hlive
  · rw [h.idle l hidle] at hused
    cases hused
  · exact mem_flatMap.mp hlive

theorem LiveInv.idleLines : IdleLines lineCount s.pool s.idle := by
  refine ⟨(nodup_append'.mp h.nodup).1, fun l => ⟨fun hl => ⟨?_, h.idle l hl⟩, ?_⟩⟩
  · exact mem_range.mp (h.lines.mem_iff.mp (mem_append_left _ hl))
  · rintro ⟨hl, hfree⟩
    refine (mem_append.mp (h.lines.mem_iff.mpr (mem_range.mpr hl))).resolve_right ?_
    intro hlive
    obtain ⟨e, he, hmem⟩ := mem_flatMap.mp hlive
    rw [(h.chains e he).used hmem] at hfree
    cases hfree

/-- `FillAllocated` of a head index returns the list. -/
theorem LiveInv.fillAllocated (he : e ∈ live) :
    fillAllocated lineCount s.pool e.headIndex = some e.ids :=
  (h.chains e he).fillAllocated (h.bound he)

/-- `Release` of a head index gives back the lines of the list. -/
theorem LiveInv.release_eq (he : e ∈ live) : s.release lineCount e.headIndex =
      (some e.lines, ⟨s.pool.write (releaseStores e.lines), s.idle ++ e.lines⟩) := by
  unfold PoolState.release LiveList.headIndex
  rw [(h.chains e he).walk (h.bound he)]

theorem LiveInv.count :
    s.idle.length + (live.map fun e => linesNeed e.ids.length).sum = lineCount := by
  have hneed : live.map (fun e => linesNeed e.ids.length) = live.map fun e => e.lines.length :=
    map_congr_left fun e he => (h.chains e he).length.symm
  have hlen := h.lines.length_eq
  rwa [length_append, length_flatMap, length_range, ← hneed] at hlen

theorem LiveInv.allocate (hcount : lineCount ≤ 2 ^ 32) {ids : List UInt64} {rest : List Nat}
    (halloc : Allocated s.idle ids lines rest) :
    LiveInv lineCount ⟨s.pool.write (allocStores lines ids), rest⟩ (⟨lines, ids⟩ :: live) := by
  obtain ⟨hchain, hidle⟩ := h.idleLines.alloc hcount halloc
  refine ⟨fun e he => ?_, ?_, fun l hl => ((hidle.mem l).mp hl).2⟩
  · rcases mem_cons.mp he with rfl | he
    · exact hchain
    -- the lines of another list were not idle
    refine (h.chains e he).of_agree fun l hl => ?_
    refine write_allocStores_of_not_mem s.pool halloc.length fun hmem => ?_
    refine disjoint_left.mp (nodup_append'.mp h.nodup).2.2
      (halloc.mem.mpr (.inr hmem)) (mem_flatMap.mpr ⟨e, he, hl⟩)
  · refine List.Perm.trans ?_ h.lines
    rw [← halloc.append, flatMap_cons, ← append_assoc]
    exact (List.Perm.append_left rest (reverse_perm lines).symm).append_right _

theorem LiveInv.release {live' : List LiveList} (hperm : live.Perm (e :: live')) :
    LiveInv lineCount ⟨s.pool.write (releaseStores e.lines), s.idle ++ e.lines⟩ live' := by
  have he : e ∈ live := hperm.mem_iff.mpr mem_cons_self
  have hidle := h.idleLines.release ((h.chains e he).usedLines (h.bound he))
  have hlines : (s.idle ++ e.lines ++ live'.flatMap LiveList.lines).Perm
      (List.range lineCount) := by
    have hcons := hperm.flatMap_right LiveList.lines
    rw [append_assoc]
    exact (hcons.symm.append_left s.idle).trans h.lines
  refine ⟨fun e' he' => ?_, hlines, fun l hl => ((hidle.mem l).mp hl).2⟩
  refine (h.chains e' (hperm.mem_iff.mpr (mem_cons_of_mem e he'))).of_agree fun l hl => ?_
  refine write_releaseStores_of_not_mem s.pool fun hmem => ?_
  refine disjoint_left.mp (nodup_append'.mp (hlines.nodup_iff.mpr nodup_range)).2.2
    (mem_append_right _ hmem) (mem_flatMap.mpr ⟨e', he', hl⟩)

/-- What `Release` finds is the chain of a list. -/
theorem LiveInv.of_walk {headIndex : Nat} (hwalk : walk lineCount s.pool headIndex = some lines) :
    ∃ e ∈ live, e.headIndex = headIndex ∧ e.lines = lines := by
  have hchecks := hwalk
  unfold walk tracedWalk at hchecks
  split_ifs at hchecks with hbound hused hhead
  obtain ⟨e, he, hmem⟩ := h.of_used (not_le.mp hbound) (by simpa using hused)
  -- only the first line of a chain has the flag
  obtain ⟨i, hi, rfl⟩ := mem_iff_getElem.mp hmem
  rw [← getD_eq_getElem _ 0 hi] at hwalk hhead ⊢
  rw [(h.chains e he).head i hi] at hhead
  obtain rfl : i = 0 := by simpa [allocHead] using hhead
  rw [(h.chains e he).walk (h.bound he)] at hwalk
  exact ⟨e, he, rfl, some.inj hwalk⟩

/-- `Destroy` and `Initialize` find the same idle lines. -/
theorem LiveInv.restart : LiveInv lineCount (.start lineCount s.pool) live := by
  have hidle := idleLines_restore lineCount s.pool
  have hperm : (restoreIdleLines lineCount s.pool).Perm s.idle := by
    refine (perm_ext_iff_of_nodup hidle.nodup h.idleLines.nodup).mpr fun l => ?_
    rw [hidle.mem, h.idleLines.mem]
  exact ⟨h.chains, (hperm.append_right _).trans h.lines, fun l hl => ((hidle.mem l).mp hl).2⟩

end

end Live

section Runs

variable {lineCount : Nat} {w : LivePool}

theorem liveInv_zeros (lineCount : Nat) :
    LiveInv lineCount (LivePool.zeros lineCount).state (LivePool.zeros lineCount).live := by
  have hidle := idleLines_restore lineCount fun _ _ => 0
  refine ⟨by simp [LivePool.zeros], ?_, fun l hl => ((hidle.mem l).mp hl).2⟩
  have hall : restoreIdleLines lineCount (fun _ _ => 0) = List.range lineCount :=
    filter_eq_self.mpr fun l _ => by simp [IdPool.headOf]
  simp [LivePool.zeros, PoolState.start, hall]

theorem LiveInv.step (h : LiveInv lineCount w.state w.live) (hcount : lineCount ≤ 2 ^ 32)
    (event : PoolEvent) :
    LiveInv lineCount (w.step lineCount event).state (w.step lineCount event).live := by
  cases event with
  | allocate ids =>
    simp only [LivePool.step, PoolState.allocate]
    cases halloc : allocLines w.state.idle ids with
    | none => exact h
    | some taken => exact h.allocate hcount (allocLines_eq halloc)
  | release headIndex =>
    simp only [LivePool.step]
    by_cases hlive : ∃ e ∈ w.live, e.headIndex = headIndex
    · obtain ⟨e, he, heq⟩ := hlive
      obtain ⟨e', before, after, -, hhead, hsplit, herase⟩ :=
        exists_of_eraseP (p := fun e => e.headIndex = headIndex) he (by simpa using heq)
      have hperm : w.live.Perm (e' :: w.live.eraseP fun e => e.headIndex = headIndex) := by
        rw [herase, hsplit]
        exact perm_middle
      have he' : e' ∈ w.live := hperm.mem_iff.mpr mem_cons_self
      obtain rfl : e'.headIndex = headIndex := by simpa using hhead
      rw [h.release_eq he']
      exact h.release hperm
    · have hnone : walk lineCount w.state.pool headIndex = none := by
        refine eq_none_iff_forall_ne_some.mpr fun lines hwalk => hlive ?_
        obtain ⟨e, he, heq, -⟩ := h.of_walk hwalk
        exact ⟨e, he, heq⟩
      unfold PoolState.release
      rw [hnone, eraseP_of_forall_not]
      · exact h
      · exact fun e he heq => hlive ⟨e, he, by simpa using heq⟩
  | restart => exact h.restart

theorem LiveInv.run (h : LiveInv lineCount w.state w.live) (hcount : lineCount ≤ 2 ^ 32)
    (events : List PoolEvent) :
    LiveInv lineCount (w.run lineCount events).state (w.run lineCount events).live := by
  induction events generalizing w with
  | nil => exact h
  | cons event events ih => exact ih (h.step hcount event)

theorem LivePool.mem_run {e : LiveList} (he : e ∈ w.live) {events : List PoolEvent}
    (hkept : .release e.headIndex ∉ events) : e ∈ (w.run lineCount events).live := by
  induction events generalizing w with
  | nil => exact he
  | cons event events ih =>
    rw [mem_cons, not_or] at hkept
    obtain ⟨hne, hkept⟩ := hkept
    refine ih ?_ hkept
    cases event with
    | allocate ids =>
      simp only [LivePool.step]
      split
      · exact he
      · exact mem_cons_of_mem _ he
    | release headIndex =>
      refine (mem_eraseP_of_neg ?_).mpr he
      rintro heq
      exact hne (by rw [of_decide_eq_true heq])
    | restart => exact he

end Runs

/-- **A list is held until it is released**: the pool started with zeros.  Ids that fit are
taken in; whatever happens to other lists, and however often the pool is initialized
again, the head index leads to them, and its `Release` gives back the lines taken.  The
idle lines are those that the lists held do not need. -/
theorem pool_holds_lists (before : List PoolEvent) (ids : List UInt64) :
    let lineCount := recordStoreConfig.lineCount
    let w := (LivePool.zeros lineCount).run lineCount before
    w.state.idle.length + (w.live.map fun e => linesNeed e.ids.length).sum = lineCount ∧
      (ids ≠ [] → linesNeed ids.length ≤ w.state.idle.length →
        (w.state.allocate ids).1.isSome = true) ∧
      ∀ headIndex, (w.state.allocate ids).1 = some headIndex →
        ∃ lines, lines.length = linesNeed ids.length ∧
          (w.state.allocate ids).2.idle ++ lines.reverse = w.state.idle ∧
          ∀ after, .release headIndex ∉ after →
            let w' := (w.step lineCount (.allocate ids)).run lineCount after
            ⟨lines, ids⟩ ∈ w'.live ∧
              fillAllocated lineCount w'.state.pool headIndex = some ids ∧
              (w'.state.release lineCount headIndex).1 = some lines ∧
              (w'.state.release lineCount headIndex).2.idle = w'.state.idle ++ lines := by
  intro lineCount w
  have hcount : lineCount ≤ 2 ^ 32 := recordStoreConfig.lineCount_le
  clear_value lineCount
  have h : LiveInv lineCount w.state w.live := (liveInv_zeros lineCount).run hcount before
  clear_value w
  refine ⟨h.count, fun hids hfits => ?_, fun headIndex hhead => ?_⟩
  · have hneed := linesNeed_pos (length_pos_iff.mpr hids)
    simp [PoolState.allocate, allocLines, hneed.ne', not_lt.mpr hfits]
  · have hnext := h.step hcount (.allocate ids)
    simp only [PoolState.allocate] at hhead ⊢
    cases hlines : allocLines w.state.idle ids with
    | none => simp [hlines] at hhead
    | some taken =>
      obtain ⟨lines, rest⟩ := taken
      have halloc := allocLines_eq hlines
      obtain rfl : lines.getD 0 0 = headIndex := by simpa [hlines] using hhead
      refine ⟨lines, halloc.length, halloc.append, fun after hkept => ?_⟩
      have hmem : ⟨lines, ids⟩ ∈ ((w.step lineCount (.allocate ids)).run lineCount after).live :=
        LivePool.mem_run (by simp [LivePool.step, hlines]) hkept
      have hafter := hnext.run hcount after
      have hrelease := hafter.release_eq hmem
      exact ⟨hmem, hafter.fillAllocated hmem, congrArg Prod.fst hrelease,
        congrArg (fun r => r.2.idle) hrelease⟩

end UbsMem
