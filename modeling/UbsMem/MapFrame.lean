import UbsMem.ShmApp

/-! # What a failed mapping leaves of the others

With `MAP_FIXED_NOREPLACE` the kernel maps a segment only where nothing is mapped.  If a segment
fails, `UbsMemShmMmap` unmaps the whole range that it was given, and with it what others have
mapped there: their mapping is the very reason why the kernel refused (`failed_map_unmaps_others`).

What lies outside the range stays.  All mappings stay just if the range was free, or no segment
fails, or the kernel refuses to unmap the range (`failed_map_keeps_mappings`): when every segment
is mapped, the kernel has found the whole range free.
-/
namespace UbsMem

open Prog hiding ret call

/-- The calls that leave the pages alone. -/
def ShmAppCall.LeavesPages : ShmAppCall → Prop
  | .memoryMap .. => False
  | .memoryMapAligned .. => False
  | .memoryUnMap .. => False
  | .addMetaData .. => False
  | .removeMetaData .. => False
  | _ => True

namespace ShmApp

/-- The daemon has granted an object that fits the arguments, so that its segments are mapped. -/
structure Fits (alignment : Nat) (args : MmapArgs) (r : Int × ShmMapResponse) : Prop where
  accepted : ipcCallShmMap r.1 r.2 = ubsmOk
  size : args.mapSize = r.2.shmSize
  huge : hasHugePages r.2.flag = true →
    args.mapSize % alignment = 0 ∧ args.start % hugePages2M = 0

/-- The answers by which a segment fails: there is no memory id for it, it cannot be opened, or it
is not mapped where it should be. -/
def SegmentFails (alignment : Nat) (args : MmapArgs) : (Σ c : ShmAppCall, c.Reply) → Prop
  | ⟨.shmMap _, r⟩ =>
    Fits alignment args r ∧ r.2.memIds.length < mmapCount args.mapSize r.2.unitSize
  | ⟨.obmmOpen _ _ _, fd⟩ => (show Int from fd) < 0
  | ⟨.memoryMap addr _ _ _ _ _, r⟩ => r ≠ some addr
  | _ => False

/-- The range is unmapped, with the result `ret`. -/
def unmapEvent (args : MmapArgs) (ret : Int) : Σ c : ShmAppCall, c.Reply :=
  ⟨.memoryUnMap args.start args.mapSize, ret⟩

section Frame

variable {page t : Nat} {lockOf : Name → Nat} {c : ShmAppCall} {r : c.Reply} {s s' : ShmAppWorld}
  {α : Type} {P : ShmAppCall → Prop} {d : ShmAppMetaData} {sp sp' : AddressSpace PageOwner}
  {response : ShmMapResponse} {args : MmapArgs} {addr len alignment : Nat} {g : Segments}
  {x y : Traced ShmAppCall.Reply ShmAppWorld}

theorem space_of_leavesPages (hc : c.LeavesPages) (h : ShmAppWorld.sem page lockOf t c s r s') :
    s'.space = s.space := by
  cases c with
  | lockMeta name =>
    obtain ⟨-, rfl⟩ := h
    rfl
  | unlockMeta name =>
    obtain rfl : s' = _ := h
    rfl
  | shmMap req =>
    obtain ⟨-, -, rfl⟩ := h
    rfl
  | shmUnMap name =>
    obtain ⟨-, -, rfl⟩ := h
    rfl
  | obmmOpen memId openFlag oflag =>
    obtain rfl : s' = s := h
    rfl
  | close fd =>
    obtain rfl : s' = s := h
    rfl
  | memoryMap | memoryMapAligned | memoryUnMap | addMetaData | removeMetaData => cases hc
  | _ =>
    obtain ⟨-, rfl⟩ := h
    rfl

/-- The pages are as they were, and only such calls have been added to the trace. -/
abbrev SamePages : (_ _ : Traced ShmAppCall.Reply ShmAppWorld) → Prop :=
  Keeps ShmAppWorld.space fun e => e.1.LeavesPages

theorem wp_leavesPages {p : ShmAppProg α} (hp : p.All ShmAppCall.LeavesPages)
    (x : Traced ShmAppCall.Reply ShmAppWorld) :
    p.wp (traced (ShmAppWorld.sem page lockOf t)) (fun _ y => SamePages x y) x :=
  hp.wp_keeps (fun _ _ _ _ hc hsem => ⟨space_of_leavesPages hc hsem, hc⟩) x

/-! ### The segments -/

/-- The range has not been unmapped. -/
def Untouched (args : MmapArgs) (trace : List (Σ c : ShmAppCall, c.Reply)) : Prop :=
  ∀ ret, unmapEvent args ret ∉ trace

theorem Untouched.concat {trace : List (Σ c : ShmAppCall, c.Reply)} (h : Untouched args trace)
    (e : Σ c : ShmAppCall, c.Reply) (he : ∀ ret, unmapEvent args ret ≠ e) :
    Untouched args (trace ++ [e]) := by
  intro ret hmem
  rcases List.mem_append.mp hmem with hmem | hmem
  · exact h ret hmem
  · exact he ret (List.mem_singleton.mp hmem)

theorem Untouched.samePages (h : Untouched args x.2) (hsame : SamePages x y) :
    Untouched args y.2 := by
  intro ret hmem
  rcases hsame.new _ hmem with hmem | hleaves
  · exact h ret hmem
  · exact hleaves

/-- What the loop over the segments leaves: all mappings, and the reason of a failure in the
trace; if it does not fail, the pages that it maps were free. -/
structure Bound (alignment : Nat) (args : MmapArgs) (free : Prop)
    (x : Traced ShmAppCall.Reply ShmAppWorld) (res : Int × ShmAppMetaData)
    (y : Traced ShmAppCall.Reply ShmAppWorld) : Prop where
  keeps : x.1.space.Extends y.1.space
  untouched : Untouched args y.2
  free : res.1 = ubsmOk → free
  fails : res.1 ≠ ubsmOk → ∃ e ∈ y.2, SegmentFails alignment args e

theorem wp_segmentFailed {free : Prop} {code : Int} {x₀ : Traced ShmAppCall.Reply ShmAppWorld}
    (hcode : code ≠ ubsmOk) (hkeeps : x₀.1.space.Extends x.1.space)
    (huntouched : Untouched args x.2)
    (hfails : ∃ e ∈ x.2, SegmentFails alignment args e) (fds : List Int) :
    (closeAllFd fds >>= fun fds => .ret (code, { d with fds }) :
      ShmAppProg (Int × ShmAppMetaData)).wp (traced (ShmAppWorld.sem page lockOf t))
      (Bound alignment args free x₀) x := by
  rw [wp_bind]
  refine wp_mono (fun _ y hsame => ?_) (wp_leavesPages (all_closeAllFd (fun _ => trivial) fds) x)
  obtain ⟨e, he, hfail⟩ := hfails
  exact ⟨hsame.value ▸ hkeeps, huntouched.samePages hsame, fun h => absurd h hcode,
    fun _ => ⟨e, hsame.old he, hfail⟩⟩

/-- **A segment is mapped where nothing was**, and a segment that fails changes nothing. -/
theorem wp_mapForEachFd (alignment : Nat) {prot flags offset : Nat} {fd : Int}
    (hplace : placement flags = .noReplace) (huntouched : Untouched args x.2) :
    (mapForEachFd addr len fd prot flags offset).wp (traced (ShmAppWorld.sem page lockOf t))
      (fun ret y => x.1.space.Extends y.1.space ∧ Untouched args y.2 ∧
        (ret = ubsmOk → x.1.space.Free page addr len) ∧
        (ret ≠ ubsmOk → ∃ e ∈ y.2, SegmentFails alignment args e)) x := by
  intro r y hsem
  have hmem := mem_of_traced hsem
  obtain ⟨⟨space, hmap, hy⟩, htrace⟩ := hsem
  have hkeeps : x.1.space.Extends y.1.space := by
    rw [hy]
    exact hmap.extends (by rw [hplace]; decide)
  have hlater : Untouched args y.2 := htrace ▸ huntouched.concat _ fun ret => nofun
  cases r with
  | none => exact ⟨hkeeps, hlater, fun h => absurd h (by decide), fun _ => ⟨_, hmem, nofun⟩⟩
  | some a =>
    by_cases haddr : a = addr
    · obtain ⟨-, hfree⟩ := hmap
      rw [hplace, if_neg (by decide), haddr] at hfree
      exact ⟨hkeeps, hlater, fun _ => hfree, fun h => absurd (if_neg (not_not.mpr haddr)) h⟩
    · refine ⟨hkeeps, hlater, fun h => ?_, fun _ => ⟨_, hmem, fun h => haddr (Option.some.inj h)⟩⟩
      rw [if_pos haddr] at h
      exact absurd h (by decide)

/-- **The loop over the segments keeps all mappings**, and when it has mapped all segments they
were free. -/
theorem wp_mapSegments (hplace : placement g.flags = .noReplace) (is : List Nat)
    (d : ShmAppMetaData) (huntouched : Untouched args x.2) :
    (mapSegments g is d).wp (traced (ShmAppWorld.sem page lockOf t))
      (Bound alignment args
        (∀ i ∈ is, x.1.space.Free page (g.addr i) (g.length d.mapSize i)) x) x := by
  induction is generalizing d x with
  | nil =>
    exact ⟨.refl _, huntouched, fun _ i hi => absurd hi List.not_mem_nil, fun h => absurd rfl h⟩
  | cons i is ih =>
    unfold mapSegments
    simp only [ask_eq, call_bind, ret_bind]
    rintro fd x₁ hopen
    have hspace : x.1.space.Extends x₁.1.space := (show x₁.1 = x.1 from hopen.1) ▸ .refl _
    have hopened : Untouched args x₁.2 := hopen.2 ▸ huntouched.concat _ fun ret h => by cases h
    dsimp only
    split_ifs with hfd
    · have hcode : mxmErrShmObmmOpen ≠ ubsmOk := by decide
      exact wp_segmentFailed hcode hspace hopened ⟨_, mem_of_traced hopen, hfd⟩ _
    rw [wp_bind]
    refine wp_mono (fun ret y hseg => ?_) (wp_mapForEachFd alignment hplace hopened)
    obtain ⟨hkeeps, hmapped, hfree, hfails⟩ := hseg
    split_ifs with hret
    · exact wp_segmentFailed hret (hspace.trans hkeeps) hmapped (hfails hret) _
    refine wp_mono (fun res z hrest => ?_) (ih _ hmapped)
    refine ⟨(hspace.trans hkeeps).trans hrest.keeps, hrest.untouched, fun hok j hj => ?_,
      hrest.fails⟩
    rcases List.mem_cons.mp hj with rfl | hj
    · exact hspace.free (hfree (not_not.mp hret))
    · exact (hspace.trans hkeeps).free (hrest.free hok j hj)

theorem exists_segment {mapSize p : Nat} (hpage : 0 < page) (hunit : 0 < g.unitSize)
    (hcount : g.mmapCount = mmapCount mapSize g.unitSize) (hp : InPages page g.mmapAddr mapSize p) :
    ∃ i ∈ List.range g.mmapCount, InPages page (g.addr i) (g.length mapSize i) p := by
  obtain ⟨x, hlo, hhi, rfl⟩ := (inPages_iff hpage).mp hp
  obtain ⟨hcover, -⟩ := ShmAppMetaData.mmapCount_spec mapSize hunit
  -- the segment of the byte
  set i := (x - g.mmapAddr) / g.unitSize with hi
  have hdiv := Nat.div_add_mod (x - g.mmapAddr) g.unitSize
  have hmod := Nat.mod_lt (x - g.mmapAddr) hunit
  rw [← hi, Nat.mul_comm] at hdiv
  have hlt : i < g.mmapCount := by
    rw [hi, Nat.div_lt_iff_lt_mul hunit, hcount]
    omega
  refine ⟨i, List.mem_range.mpr hlt, inPages_of_mem hpage ?_ ?_⟩
  · unfold Segments.addr
    omega
  · unfold Segments.addr Segments.length
    split_ifs with hlast
    · rw [← hlast]
      omega
    · omega

/-- **All mappings are kept**, and when all segments are mapped the range was free. -/
theorem wp_rackMemShmMmapByMemID (hpage : 0 < page) (hplace : placement g.flags = .noReplace)
    (hunit : 0 < g.unitSize) (hcount : g.mmapCount = mmapCount d.mapSize g.unitSize)
    (huntouched : Untouched args x.2)
    (hids : g.memIds.length < g.mmapCount → ∃ e ∈ x.2, SegmentFails alignment args e) :
    (rackMemShmMmapByMemID g d).wp (traced (ShmAppWorld.sem page lockOf t))
      (Bound alignment args (x.1.space.Free page g.mmapAddr d.mapSize) x) x := by
  unfold rackMemShmMmapByMemID
  split_ifs with hfew
  · exact ⟨.refl _, huntouched, fun h => absurd h mxmErrParamInvalid_ne, fun _ => hids hfew⟩
  · refine wp_mono (fun res y h => ⟨h.keeps, h.untouched, fun hok p hp => ?_, h.fails⟩)
      (wp_mapSegments hplace _ _ huntouched)
    obtain ⟨i, hi, hp'⟩ := exists_segment hpage hunit hcount hp
    exact h.free hok i hi p hp'

/-! ### The whole call -/

/-- What is mapped outside a range stays mapped. -/
def KeepsOutside (page addr len : Nat) (sp sp' : AddressSpace PageOwner) : Prop :=
  ∀ p o, sp p = some o → ¬InPages page addr len p → sp' p = some o

theorem KeepsOutside.of_extends (h : sp.Extends sp') :
    KeepsOutside page addr len sp sp' := fun p o hp _ => h p o hp

theorem KeepsOutside.extends (h : KeepsOutside page addr len sp sp')
    (hfree : sp.Free page addr len) : sp.Extends sp' := by
  intro p o hp
  refine h p o hp fun hin => ?_
  rw [hfree p hin] at hp
  cases hp

theorem KeepsOutside.unmap {ret : Int} (h : KeepsOutside page addr len sp s.space)
    (hunmap : s.space.Munmap page addr len ret sp') : KeepsOutside page addr len sp sp' :=
  fun p o hp hout => (hunmap.keeps hout).trans (h p o hp hout)

/-- The answers with which all mappings stay. -/
def Harmless (page alignment : Nat) (args : MmapArgs) (sp : AddressSpace PageOwner)
    (trace : List (Σ c : ShmAppCall, c.Reply)) : Prop :=
  sp.Free page args.start args.mapSize ∨ (∀ e ∈ trace, ¬SegmentFails alignment args e) ∨
    ∀ ret, unmapEvent args ret ∈ trace → ret ≠ 0

/-- If the call fails, what lies outside its range stays, and everything just if the answers are
harmless. -/
def FailureKeeps (page alignment : Nat) (args : MmapArgs) (sp : AddressSpace PageOwner)
    (res : Int × Option Nat) (y : Traced ShmAppCall.Reply ShmAppWorld) : Prop :=
  res.1 ≠ ubsmOk → KeepsOutside page args.start args.mapSize sp y.1.space ∧
    (sp.Extends y.1.space ↔ Harmless page alignment args sp y.2)

theorem failureKeeps_of_samePages {res : Int × Option Nat} (huntouched : Untouched args x.2)
    (h : SamePages x y) : FailureKeeps page alignment args x.1.space res y := by
  intro _
  have hkeeps : x.1.space.Extends y.1.space := h.value ▸ .refl _
  refine ⟨.of_extends hkeeps, iff_of_true hkeeps (.inr (.inr fun ret hmem => ?_))⟩
  exact absurd hmem (huntouched.samePages h ret)

theorem wp_failureKeeps {p : ShmAppProg (Int × Option Nat)} (hp : p.All ShmAppCall.LeavesPages)
    (huntouched : Untouched args x.2) :
    p.wp (traced (ShmAppWorld.sem page lockOf t)) (FailureKeeps page alignment args x.1.space) x :=
  wp_mono (fun _ _ => failureKeeps_of_samePages huntouched) (wp_leavesPages hp x)

theorem all_giveBack (name : Name) (code : Int) : (giveBack name code).All ShmAppCall.LeavesPages :=
  ⟨trivial, fun _ => trivial⟩

/-- **A segment has failed, and the whole range is unmapped**: with the mappings of others that are
there, unless the kernel refuses. -/
theorem failureKeeps_of_unmap {ret : Int} {res : Int × Option Nat}
    {z : Traced ShmAppCall.Reply ShmAppWorld} (hkeeps : sp.Extends x.1.space)
    (huntouched : Untouched args x.2) (hfails : ∃ e ∈ x.2, SegmentFails alignment args e)
    (hunmap : x.1.space.Munmap page args.start args.mapSize ret y.1.space)
    (htrace : y.2 = x.2 ++ [unmapEvent args ret]) (hsame : SamePages y z) :
    FailureKeeps page alignment args sp res z := by
  intro _
  have houtside : KeepsOutside page args.start args.mapSize sp z.1.space :=
    hsame.value ▸ KeepsOutside.unmap (.of_extends hkeeps) hunmap
  refine ⟨houtside, fun hextends => ?_, ?_⟩
  · -- what was mapped in the range is unmapped, if the kernel does not refuse
    by_cases hret : ret = 0
    · refine .inl fun p hp => ?_
      by_contra hne
      obtain ⟨o, ho⟩ := Option.ne_none_iff_exists'.mp hne
      have hmapped := hextends p o ho
      rw [hsame.value, show y.1.space = _ from hunmap, if_pos hret] at hmapped
      exact absurd (hmapped.symm.trans (if_pos hp)) nofun
    · refine .inr (.inr fun ret' hmem => ?_)
      rcases hsame.new _ hmem with hmem | hleaves
      · rw [htrace, List.mem_append, List.mem_singleton] at hmem
        rcases hmem with hmem | heq
        · exact absurd hmem (huntouched ret')
        · cases heq
          exact hret
      · exact hleaves.elim
  · rintro (hfree | hnone | hrefused)
    · exact houtside.extends hfree
    · obtain ⟨e, he, hfail⟩ := hfails
      refine absurd hfail (hnone e (hsame.old ?_))
      rw [htrace]
      exact List.mem_append_left _ he
    · have hret : ret ≠ 0 := by
        refine hrefused ret (hsame.old ?_)
        rw [htrace]
        exact List.mem_append_right _ (.head _)
      rw [hsame.value, show y.1.space = _ from hunmap, if_neg hret]
      exact hkeeps

/-- The range was free, and is all that `UnMapWhenError` unmaps. -/
theorem wp_unMapWhenError {name : Name} (h : KeepsOutside page addr len sp x.1.space) :
    (unMapWhenError addr len name d).wp (traced (ShmAppWorld.sem page lockOf t))
      (fun _ y => KeepsOutside page addr len sp y.1.space) x := by
  unfold unMapWhenError
  rw [wp_bind]
  refine wp_mono (fun _ y hsame => ?_) (wp_leavesPages (all_closeAllFd (fun _ => trivial) d.fds) x)
  rw [← hsame.value] at h
  split_ifs
  · exact h
  · exact h
  · rintro ret z ⟨⟨space, hunmap, hz⟩, -⟩
    have hlast : (ask (.shmUnMap name) >>= fun _ => .ret () : ShmAppProg Unit).All
        ShmAppCall.LeavesPages := ⟨trivial, fun _ => trivial⟩
    refine wp_mono (fun _ w hsame' => ?_) (wp_leavesPages hlast z)
    rw [hsame'.value, hz]
    exact h.unmap hunmap

/-- **What a call keeps that fails after the object is granted.** -/
theorem wp_bindSegments (hpage : 0 < page) (hflags : args.flags &&& 0x100000 = 0x100000)
    (hunit : 0 < response.unitSize) (hsize : response.shmSize = args.mapSize)
    (huntouched : Untouched args x.2)
    (hids : response.memIds.length < mmapCount args.mapSize response.unitSize →
      ∃ e ∈ x.2, SegmentFails alignment args e) :
    (bindSegments args response args.start).wp (traced (ShmAppWorld.sem page lockOf t))
      (FailureKeeps page alignment args x.1.space) x := by
  have hfixed : mapWithFixedFlags args.flags = true := by
    simp [mapWithFixedFlags, hflags]
  have hplace : placement args.flags = .noReplace := if_pos hflags
  unfold bindSegments
  simp only [hfixed, ask_eq, call_bind, ret_bind]
  rw [wp_bind]
  refine wp_mono (fun res y h => ?_)
    (wp_rackMemShmMmapByMemID hpage hplace hunit (by rw [hsize]) huntouched hids)
  dsimp only at h
  split_ifs with hret
  · rintro ret z ⟨⟨space, hunmap, hz⟩, htrace⟩
    refine wp_mono (fun _ w hsame => ?_) (wp_leavesPages (all_giveBack args.name res.1) z)
    refine failureKeeps_of_unmap h.keeps h.untouched (h.fails hret) ?_ htrace hsame
    rw [hz]
    exact hunmap
  · have hrange : x.1.space.Free page args.start args.mapSize := hsize ▸ h.free (not_not.mp hret)
    rintro addResult z ⟨⟨-, hz⟩, -⟩
    dsimp only
    split_ifs with hadd
    · rw [wp_bind]
      have hspace : KeepsOutside page args.start args.mapSize x.1.space z.1.space := by
        rw [hz]
        dsimp only
        rw [if_neg hadd]
        exact .of_extends h.keeps
      refine wp_mono (fun _ w hkeeps _ => ?_) (wp_unMapWhenError hspace)
      exact ⟨hkeeps, iff_of_true (hkeeps.extends hrange) (.inl hrange)⟩
    · exact fun h => absurd rfl h

theorem preAllocate_fixed (hstart : args.start ≠ 0) (hfixed : mapWithFixedFlags args.flags = true)
    (huge : Bool) :
    ∃ res : Int × Nat, preAllocate alignment args huge = .ret res ∧
      (res.1 = ubsmOk → res.2 = args.start ∧ (huge = true → args.start % hugePages2M = 0)) := by
  unfold preAllocate
  cases huge with
  | false =>
    refine ⟨(ubsmOk, args.start), ?_, fun _ => ⟨rfl, nofun⟩⟩
    simp [getPreAllocateAddress, hstart, hfixed]
  | true =>
    by_cases halign : args.start % hugePages2M ≠ 0
    · refine ⟨(mxmErrParamInvalid, 0), ?_, fun h => absurd h mxmErrParamInvalid_ne⟩
      simp [getPreAllocateAddressAligned, hstart, halign]
    · refine ⟨(ubsmOk, args.start), ?_, fun _ => ⟨rfl, fun _ => not_not.mp halign⟩⟩
      simp [getPreAllocateAddressAligned, hstart, hfixed, not_not.mp halign]

theorem wp_mapGranted (hpage : 0 < page) (hflags : args.flags &&& 0x100000 = 0x100000)
    (hstart : args.start ≠ 0) (huntouched : Untouched args x.2) {hr : Int} {req : ShmMapRequest}
    (haccepted : ipcCallShmMap hr response = ubsmOk)
    (hreply : ⟨.shmMap req, (hr, response)⟩ ∈ x.2) :
    (mapGranted alignment args response).wp (traced (ShmAppWorld.sem page lockOf t))
      (FailureKeeps page alignment args x.1.space) x := by
  have hfixed : mapWithFixedFlags args.flags = true := by
    simp [mapWithFixedFlags, hflags]
  unfold mapGranted
  split_ifs with hsize hunit halign
  · exact wp_failureKeeps (all_giveBack _ _) huntouched
  · exact wp_failureKeeps (all_giveBack _ _) huntouched
  · exact wp_failureKeeps (all_giveBack _ _) huntouched
  have hpre : ∃ res : Int × Nat, preAllocate alignment args _ = _ ∧ _ :=
    preAllocate_fixed hstart hfixed (hasHugePages response.flag)
  obtain ⟨res, hpre, haddr⟩ := hpre
  rw [hpre, ret_bind]
  dsimp only
  split_ifs with hret
  · exact wp_failureKeeps (all_giveBack _ _) huntouched
  · obtain ⟨haddr, hpages⟩ := haddr (not_not.mp hret)
    push Not at hsize halign
    rw [haddr]
    refine wp_bindSegments hpage hflags (Nat.pos_of_ne_zero hunit) hsize.2.symm huntouched
      fun hfew => ⟨_, hreply, ?_⟩
    exact ⟨⟨haccepted, hsize.2, fun huge => ⟨halign huge, hpages huge⟩⟩, hfew⟩

/-- **What a failed call keeps.** -/
theorem wp_ubsMemShmMmap (hpage : 0 < page) (hflags : args.flags &&& 0x100000 = 0x100000)
    (s : ShmAppWorld) :
    (ubsMemShmMmap alignment args).wp (traced (ShmAppWorld.sem page lockOf t))
      (FailureKeeps page alignment args s.space) (s, []) := by
  have hfixed : mapWithFixedFlags args.flags = true := by
    simp [mapWithFixedFlags, hflags]
  have hnothing : Untouched args ((s, []) : Traced ShmAppCall.Reply ShmAppWorld).2 := fun _ => nofun
  unfold ubsMemShmMmap
  split_ifs
  · exact failureKeeps_of_samePages hnothing (.refl _ _ _)
  cases getOwnStatus args.prot with
  | none => exact failureKeeps_of_samePages hnothing (.refl _ _ _)
  | some status =>
    rw [wp_bind]
    have hall : (rackMemShmMmapParameterCheck args).All ShmAppCall.LeavesPages :=
      all_parameterCheck (fun _ => trivial) (fun _ _ => trivial) args
    refine wp_mono (fun ret y h => ?_) (wp_of_sem (fun _ _ _ _ h => ⟨h, trivial⟩)
      ((yields_parameterCheck args).wp_and (wp_leavesPages hall (s, []))))
    obtain ⟨hchecked, hsame⟩ := h
    split_ifs with hret
    · exact failureKeeps_of_samePages hnothing hsame
    simp only [ask_eq, call_bind, ret_bind]
    rintro ⟨hr, response⟩ z hsem
    have hleaves : (ShmAppCall.shmMap (args.request status)).LeavesPages := trivial
    have hsame₂ : SamePages (s, []) z :=
      hsame.step hsem ⟨space_of_leavesPages hleaves hsem.1, hleaves⟩
    dsimp only
    split_ifs with haccepted
    · exact failureKeeps_of_samePages hnothing hsame₂
    · have hspace : z.1.space = s.space := hsame₂.value
      rw [← hspace]
      exact wp_mapGranted hpage hflags ((hchecked (not_not.mp hret)).2 hfixed)
        (hnothing.samePages hsame₂)
        (not_not.mp haccepted) (mem_of_traced hsem)

end Frame

/-- **What a failed mapping with `MAP_FIXED_NOREPLACE` keeps of the others**: always what lies
outside its range; and everything just if nothing was mapped in the range, or no segment fails, or
the kernel refuses to unmap the range. -/
theorem failed_map_keeps_mappings (page : Nat) (lockOf : Name → Nat) (t alignment : Nat)
    (args : MmapArgs) (s s' : ShmAppWorld) (res : Int × Option Nat)
    (trace : List (Σ c : ShmAppCall, c.Reply)) (hpage : 0 < page)
    (hflags : args.flags &&& 0x100000 = 0x100000)
    (hrun : Runs (traced (ShmAppWorld.sem page lockOf t)) (ubsMemShmMmap alignment args) (s, []) res
      (s', trace)) (hfail : res.1 ≠ ubsmOk) :
    KeepsOutside page args.start args.mapSize s.space s'.space ∧
      (s.space.Extends s'.space ↔
        s.space.Free page args.start args.mapSize ∨
        (∀ e ∈ trace, ¬SegmentFails alignment args e) ∨
        ∀ ret, unmapEvent args ret ∈ trace → ret ≠ 0) :=
  hrun.of_wp (wp_ubsMemShmMmap hpage hflags s) hfail

/-- A process that has mapped one page. -/
def onePage (p : Nat) : ShmAppWorld :=
  ⟨.empty, fun q => if q = p then some .app else none, fun _ => none, fun _ => none⟩

/-- The arguments for an object of two pages at the address 65536. -/
def mapAt : MmapArgs := ⟨65536, 8192, 1, 0x100001, [97], 0, true⟩

/-- The daemon grants an object of two pages and names its segments. -/
def grantTwo (memIds : List UInt64) : Int × ShmMapResponse :=
  (ubsmOk, ⟨ubsmOk, memIds, 8192, 4096, 0, 0⟩)

theorem runs_of_answer {memIds : List UInt64} {s s' : ShmAppWorld} {res : Int × Option Nat}
    (h : (ubsMemShmMmap hugePages2M mapAt).exec
      (ShmAppWorld.answer 4096 (fun _ => 0) (grantTwo memIds) 0 0) s = some (res, s')) :
    Runs (ShmAppWorld.sem 4096 (fun _ => 0) 0) (ubsMemShmMmap hugePages2M mapAt) s res s' := by
  have hgrant : ShmAppWorld.Granted (grantTwo memIds) := ⟨rfl, rfl⟩
  refine Runs.of_exec ?_ h
  exact fun _ _ _ _ hreply => ShmAppWorld.sem_of_answer hgrant hreply

/-- A segment has no memory id, and the mapping elsewhere stays. -/
theorem failed_map_keeps_mappings_elsewhere : ∃ res s' trace,
    Runs (traced (ShmAppWorld.sem 4096 (fun _ => 0) 0)) (ubsMemShmMmap hugePages2M mapAt)
      (onePage 99, []) res (s', trace) ∧
    res.1 ≠ ubsmOk ∧ (onePage 99).space 99 = some .app ∧ s'.space 99 = some .app := by
  have hrun : ((ubsMemShmMmap hugePages2M mapAt).exec
      (ShmAppWorld.answer 4096 (fun _ => 0) (grantTwo [1]) 0 0) (onePage 99)).map
      (fun x => decide (x.1.1 ≠ ubsmOk)) = some true := by decide +kernel
  obtain ⟨⟨res, s'⟩, hexec, hret⟩ := Option.map_eq_some_iff.mp hrun
  obtain ⟨trace, hruns⟩ := (runs_of_answer hexec).traced []
  have hfail : res.1 ≠ ubsmOk := of_decide_eq_true hret
  have hkeeps := failed_map_keeps_mappings 4096 (fun _ => 0) 0 hugePages2M mapAt (onePage 99) s' res
    trace (by decide) (by decide) hruns hfail
  refine ⟨res, s', trace, hruns, hfail, rfl, hkeeps.2.mpr (.inl fun p hp => ?_) 99 .app rfl⟩
  have hne : p ≠ 99 := by
    rintro rfl
    exact absurd hp (by decide)
  exact if_neg hne

/-- **A failed mapping unmaps what others have mapped.**  The application has mapped the second page
of the range; the kernel refuses the second segment, and the whole range is unmapped. -/
theorem failed_map_unmaps_others : ∃ res s',
    Runs (ShmAppWorld.sem 4096 (fun _ => 0) 0) (ubsMemShmMmap hugePages2M mapAt) (onePage 17)
      res s' ∧
    mapAt.flags &&& 0x100000 = 0x100000 ∧ res.1 ≠ ubsmOk ∧
    (onePage 17).space 17 = some .app ∧ s'.space 17 = none := by
  have hrun : ((ubsMemShmMmap hugePages2M mapAt).exec
      (ShmAppWorld.answer 4096 (fun _ => 0) (grantTwo [1, 2]) 0 0) (onePage 17)).map
      (fun x => (decide (x.1.1 ≠ ubsmOk), x.2.space 17)) = some (true, none) := by decide +kernel
  obtain ⟨⟨res, s'⟩, hexec, hfacts⟩ := Option.map_eq_some_iff.mp hrun
  obtain ⟨hret, hspace⟩ := Prod.mk.inj hfacts
  refine ⟨res, s', ?_, by decide, of_decide_eq_true hret, rfl, hspace⟩
  exact runs_of_answer hexec

end ShmApp
end UbsMem
