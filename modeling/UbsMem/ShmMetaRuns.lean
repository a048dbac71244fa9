import UbsMem.MapFrame

/-! # The tables of mapped objects under interleaved calls

Several threads of a process map and unmap objects.  `UbsMemShmMmap` checks that its name is not
mapped before it asks the daemon, and takes no lock: if the object is mapped and unmapped in
between, the daemon grants it again while the thread that unmaps it has not yet removed its
record, and that thread then removes the record of the new mapping.  And a mapping at a given
address that fails unmaps its whole range, also what another thread has been given there in the
meantime, so that the kernel can give it out once more (`tables_disagree`).

If a request is made only while its name is not recorded, and a call with a given address finds
nothing of the others in its range, the three tables agree in every state, and the overlap test is
right (`tables_agree`).
-/
namespace UbsMem

open Function Option List
open Prog hiding ret call

/-- A call of the library that a thread takes up. -/
inductive ShmAppTask
  | mmap (args : MmapArgs)
  | unmmap (start size : Nat)

/-- The program of a call. -/
def ShmAppTask.body (alignment : Nat) : ShmAppTask → ShmAppProg Unit
  | .mmap args => ShmApp.ubsMemShmMmap alignment args >>= fun _ => .ret ()
  | .unmmap start size => ShmApp.ubsMemShmUnmmap start size >>= fun _ => .ret ()

/-- The call maps at the address that it is given. -/
def ShmAppTask.Fixed : ShmAppTask → Prop
  | .mmap args => mapWithFixedFlags args.flags = true
  | .unmmap _ _ => False

instance : (l : ShmAppTask) → Decidable l.Fixed
  | .mmap args => inferInstanceAs (Decidable (mapWithFixedFlags args.flags = true))
  | .unmmap _ _ => instDecidableFalse

/-- The pool of the threads of a process. -/
abbrev ShmAppPool := Pool Nat ShmAppTask ShmAppCall ShmAppCall.Reply ShmAppWorld

namespace ShmApp

section Tables

variable {page : Nat} {lockOf : Name → Nat} {t t' : Nat} {s s' s₁ s₂ : ShmAppWorld} {name : Name}
  {d : ShmAppMetaData} {args : MmapArgs} {addr len alignment : Nat} {r : Int}

/-! ### What threads rely on -/

variable (page) in
/-- The tables agree, and the pages of a recorded range are those of its object. -/
structure TableInv (s : ShmAppWorld) : Prop where
  agrees : s.mgr.Agrees
  named : ∀ name d, s.mgr.metas name = some d → d.name = name
  owned : ∀ name d, s.mgr.metas name = some d → s.space.Owned page d.addr d.mapSize (.object name)

variable (lockOf) in
/-- **What a thread relies on.**  An object that the daemon has granted to it stays its own and out
of the tables; its locks stay its own, and the metadata under them as they are; and so do its
pages. -/
structure Relies (t : Nat) (s s' : ShmAppWorld) : Prop where
  grant : ∀ name, s.registered name = some t → s.mgr.metas name = none →
    s'.registered name = some t ∧ s'.mgr.metas name = none
  lock : ∀ k, s.locks k = some t → s'.locks k = some t
  entry : ∀ name d, s.locks (lockOf name) = some t → s.mgr.metas name = some d →
    s'.mgr.metas name = some d
  pages : ∀ p, s.space p = some (.call t) → s'.space p = some (.call t)

theorem Relies.refl (s : ShmAppWorld) : Relies lockOf t s s :=
  ⟨fun _ h h' => ⟨h, h'⟩, fun _ h => h, fun _ _ _ h => h, fun _ h => h⟩

theorem Relies.trans (h : Relies lockOf t s s₁) (h' : Relies lockOf t s₁ s₂) :
    Relies lockOf t s s₂ where
  grant name hg hn := h'.grant name (h.grant name hg hn).1 (h.grant name hg hn).2
  lock k hk := h'.lock k (h.lock k hk)
  entry name d hl hd := h'.entry name d (h.lock _ hl) (h.entry name d hl hd)
  pages p hp := h'.pages p (h.pages p hp)

variable (lockOf) in
/-- What a thread guarantees: what all the others rely on. -/
def Guarantees (t : Nat) (s s' : ShmAppWorld) : Prop := ∀ t', t' ≠ t → Relies lockOf t' s s'

theorem Guarantees.refl (s : ShmAppWorld) : Guarantees lockOf t s s := fun _ _ => .refl s

/-! ### What each call does -/

/-- The pages that a thread may change: those of the application and its own. -/
def Mine (t : Nat) (o : PageOwner) : Prop := o = .app ∨ o = .call t

theorem within_mine {sp : AddressSpace PageOwner} (h : sp.Owned page addr len (.call t)) :
    sp.Within page addr len (Mine t) := h.within (.inr rfl)

theorem TableInv.of_space (h : TableInv page s) {sp : AddressSpace PageOwner}
    (hsp : s.space.OnlyChanges (Mine t) sp) :
    TableInv page { s with space := sp } ∧ Guarantees lockOf t s { s with space := sp } := by
  refine ⟨{ h with owned := fun name d hd p hp => ?_ }, fun t' ht' => ?_⟩
  · exact hsp p _ (h.owned name d hd p hp) (by simp [Mine])
  · refine ⟨fun _ hg hn => ⟨hg, hn⟩, fun _ hk => hk, fun _ _ _ hd => hd, fun p hp => ?_⟩
    exact hsp p _ hp (by simpa [Mine] using ht')

/-- The daemon counts the process among the users of a name, or no more. -/
theorem TableInv.of_registered (h : TableInv page s) {user : Option Nat}
    (huser : ∀ t', t' ≠ t → s.registered name = some t' → s.mgr.metas name = none →
      user = some t') : TableInv page { s with registered := update s.registered name user } ∧
      Guarantees lockOf t s { s with registered := update s.registered name user } := by
  refine ⟨{ h with }, fun t' ht' => ?_⟩
  refine ⟨fun name' hg hn => ⟨?_, hn⟩, fun _ hk => hk, fun _ _ _ hd => hd, fun _ hp => hp⟩
  dsimp only
  by_cases hname : name' = name
  · subst hname
    rw [update_self]
    exact huser t' ht' hg hn
  · rw [update_of_ne hname]
    exact hg

theorem TableInv.of_locks (h : TableInv page s) {k : Nat} {holder : Option Nat}
    (hk : ∀ t', t' ≠ t → s.locks k ≠ some t') :
    TableInv page { s with locks := update s.locks k holder } ∧
      Guarantees lockOf t s { s with locks := update s.locks k holder } := by
  refine ⟨{ h with }, fun t' ht' => ?_⟩
  refine ⟨fun _ hg hn => ⟨hg, hn⟩, fun k' hk' => ?_, fun _ _ _ hd => hd, fun _ hp => hp⟩
  dsimp only
  rw [update_of_ne]
  · exact hk'
  · rintro rfl
    exact hk t' ht' hk'

/-- **A mapping is recorded** by the thread that the object is granted to and that has the pages. -/
theorem TableInv.add (hpage : 0 < page) (h : TableInv page s) (hname : d.name = name)
    (haddr : d.addr = addr) (hgrant : s.registered name = some t) (hnew : s.mgr.metas name = none)
    (hpages : s.space.Owned page addr d.mapSize (.call t))
    (hsem : ShmAppWorld.sem page lockOf t (.addMetaData name addr d) s r s') :
    TableInv page s' ∧ Guarantees lockOf t s s' := by
  obtain ⟨rfl, rfl⟩ := hsem
  have hclear : ∀ name' d', s.mgr.metas name' = some d' → 0 < d.mapSize →
      addr + d.mapSize ≤ d'.addr ∨ d'.addr + d'.mapSize ≤ addr := by
    intro name' d' hd' hsize
    have hrange := h.agrees.nonEmpty _ ((h.agrees.ranges _).mpr ⟨name', d', hd', rfl⟩)
    exact hpages.disjoint hpage (h.owned name' d' hd') (by simp) hsize
      (by dsimp only at hrange; omega)
  have hagrees := h.agrees.add hnew haddr hclear
  rcases s.mgr.addMetaData_cases name addr d with ⟨hfail, heq⟩ | ⟨heq, -⟩
  · rw [if_neg hfail, heq]
    exact ⟨h, .refl s⟩
  rw [heq] at hagrees ⊢
  have hother : ∀ {name' d'}, s.mgr.metas name' = some d' → name' ≠ name := by
    rintro name' d' hd' rfl
    rw [hnew] at hd'
    cases hd'
  refine ⟨⟨hagrees, fun name' d' hd' => ?_, fun name' d' hd' p hp => ?_⟩, fun t' ht' => ?_⟩
  · dsimp only at hd'
    by_cases hsame : name' = name
    · subst hsame
      rw [update_self] at hd'
      rw [← some.inj hd', hname]
    · rw [update_of_ne hsame] at hd'
      exact h.named name' d' hd'
  · dsimp only at hd' ⊢
    by_cases hsame : name' = name
    · subst hsame
      rw [update_self] at hd'
      cases hd'
      rw [haddr] at hp
      exact if_pos ⟨hp, hpages p hp⟩
    · rw [update_of_ne hsame] at hd'
      have hp' := h.owned name' d' hd' p hp
      refine (if_neg fun hcall => ?_).trans hp'
      rw [hp'] at hcall
      cases hcall.2
  · refine ⟨fun name' hg hn => ?_, fun _ hk => hk, fun name' d' _ hd' => ?_, fun p hp => ?_⟩
    · have hne : name' ≠ name := by
        rintro rfl
        rw [hgrant] at hg
        exact ht' (some.inj hg).symm
      exact ⟨hg, (update_of_ne hne ..).trans hn⟩
    · exact (update_of_ne (hother hd') ..).trans hd'
    · refine (if_neg fun hcall => ?_).trans hp
      rw [hp] at hcall
      exact ht' (PageOwner.call.inj (some.inj hcall.2))

theorem eq_of_addMetaData_failed
    (hsem : ShmAppWorld.sem page lockOf t (.addMetaData name addr d) s r s') (hr : r ≠ ubsmOk) :
    s' = s := by
  obtain ⟨rfl, rfl⟩ := hsem
  rcases s.mgr.addMetaData_cases name addr d with ⟨-, heq⟩ | ⟨heq, -⟩
  · rw [if_neg hr, heq]
  · rw [heq] at hr
    exact absurd rfl hr

theorem TableInv.update (h : TableInv page s) {d d' : ShmAppMetaData}
    (hlock : s.locks (lockOf name) = some t) (hd : s.mgr.metas name = some d)
    (hname : d'.name = name) (haddr : d'.addr = d.addr) (hsize : d'.mapSize = d.mapSize)
    (hsem : ShmAppWorld.sem page lockOf t (.updateMetaData name d') s r s') :
    (TableInv page s' ∧ Guarantees lockOf t s s') ∧ s'.locks = s.locks ∧
      s'.mgr.metas name = some d' := by
  obtain ⟨-, rfl⟩ := hsem
  have heq : (s.mgr.updateMetaData name d').2 =
      { s.mgr with metas := update s.mgr.metas name (some d') } := by
    unfold ShmMetaDataMgr.updateMetaData
    rw [updateMeta_of_some hd]
  rw [heq]
  refine ⟨⟨⟨h.agrees.update hd haddr hsize, fun name' d₁ h₁ => ?_, fun name' d₁ h₁ => ?_⟩,
    fun t' ht' => ?_⟩, rfl, update_self ..⟩
  · dsimp only at h₁
    by_cases hsame : name' = name
    · subst hsame
      rw [update_self] at h₁
      rw [← some.inj h₁, hname]
    · rw [update_of_ne hsame] at h₁
      exact h.named name' d₁ h₁
  · dsimp only at h₁ ⊢
    by_cases hsame : name' = name
    · subst hsame
      rw [update_self] at h₁
      rw [← some.inj h₁, haddr, hsize]
      exact h.owned name' d hd
    · rw [update_of_ne hsame] at h₁
      exact h.owned name' d₁ h₁
  · refine ⟨fun name' hg hn => ⟨hg, ?_⟩, fun _ hk => hk, fun name' d₁ hl h₁ => ?_, fun _ hp => hp⟩
    · have hne : name' ≠ name := by
        rintro rfl
        rw [hd] at hn
        cases hn
      exact (update_of_ne hne ..).trans hn
    · have hne : name' ≠ name := by
        rintro rfl
        rw [hlock] at hl
        exact ht' (some.inj hl).symm
      exact (update_of_ne hne ..).trans h₁

/-- **A mapping is removed from the tables** under its lock, and its pages become those of the
thread. -/
theorem TableInv.remove (h : TableInv page s) (hlock : s.locks (lockOf name) = some t)
    (hd : s.mgr.metas name = some d)
    (hsem : ShmAppWorld.sem page lockOf t (.removeMetaData d.addr name) s r s') :
    (TableInv page s' ∧ Guarantees lockOf t s s') ∧ s'.locks = s.locks ∧
      (r = ubsmOk → s'.space.Owned page d.addr d.mapSize (.call t)) := by
  obtain ⟨rfl, rfl⟩ := hsem
  have hagrees := h.agrees.remove hd
  rcases s.mgr.removeMetaData_cases d.addr name with ⟨hfail, heq⟩ | heq
  · rw [hd, heq]
    dsimp only
    rw [if_neg hfail]
    exact ⟨⟨h, .refl s⟩, rfl, fun hok => absurd hok hfail⟩
  rw [heq] at hagrees ⊢
  rw [hd]
  refine ⟨⟨⟨hagrees, fun name' d' hd' => ?_, fun name' d' hd' p hp => ?_⟩, fun t' ht' => ?_⟩, rfl,
    fun _ p hp => if_pos ⟨hp, h.owned name d hd p hp⟩⟩
  · dsimp only at hd'
    by_cases hsame : name' = name
    · subst hsame
      rw [update_self] at hd'
      cases hd'
    · rw [update_of_ne hsame] at hd'
      exact h.named name' d' hd'
  · dsimp only at hd' ⊢
    by_cases hsame : name' = name
    · subst hsame
      rw [update_self] at hd'
      cases hd'
    · rw [update_of_ne hsame] at hd'
      have hp' := h.owned name' d' hd' p hp
      refine (if_neg fun hobj => ?_).trans hp'
      rw [hp'] at hobj
      exact hsame (PageOwner.object.inj (some.inj hobj.2))
  · refine ⟨fun name' hg hn => ⟨hg, ?_⟩, fun _ hk => hk, fun name' d' hl hd' => ?_, fun p hp => ?_⟩
    · dsimp only
      by_cases hsame : name' = name
      · subst hsame
        rw [update_self]
      · rw [update_of_ne hsame]
        exact hn
    · have hne : name' ≠ name := by
        rintro rfl
        rw [hlock] at hl
        exact ht' (some.inj hl).symm
      exact (update_of_ne hne ..).trans hd'
    · refine (if_neg fun hobj => ?_).trans hp
      rw [hp] at hobj
      cases hobj.2

theorem owner_of_within {addr len p : Nat} (h : s.space.Within page addr len (Mine t))
    (hp : InPages page addr len p) : s.owner lockOf t p = .call t := by
  unfold ShmAppWorld.owner
  split
  · next name hname =>
    rcases h p hp _ hname with happ | hcall
    · cases happ
    · cases hcall
  · rfl

/-- **A mapping that replaces nothing of the others**: the thread keeps its pages and gets those of
the mapping. -/
theorem TableInv.memoryMap (h : TableInv page s) {addr len prot flags offset : Nat} {fd : Int}
    (hclear : placement flags = .fixed → s.space.Within page addr len (Mine t)) {r : Option Nat}
    (hsem : ShmAppWorld.sem page lockOf t (.memoryMap addr len prot flags fd offset) s r s') :
    (TableInv page s' ∧ Guarantees lockOf t s s') ∧ Relies lockOf t s s' ∧
      ∀ a, r = some a → s'.space.Owned page a len (.call t) := by
  obtain ⟨space, hmap, rfl⟩ := hsem
  cases r with
  | none =>
    obtain rfl : space = s.space := hmap
    exact ⟨⟨h, .refl s⟩, .refl s, nofun⟩
  | some a =>
    obtain ⟨rfl, hplace⟩ := hmap
    have hfree : s.space.Within page a len (Mine t) := by
      split_ifs at hplace with hfixed
      · rw [hplace]
        exact hclear hfixed
      · exact AddressSpace.Free.within hplace
    refine ⟨h.of_space (hfree.map _), ?_, fun b hb p hp => ?_⟩
    · refine ⟨fun _ hg hn => ⟨hg, hn⟩, fun _ hk => hk, fun _ _ _ hd => hd, fun p hp => ?_⟩
      dsimp only
      unfold AddressSpace.map
      split_ifs with hin
      · rw [owner_of_within hfree hin]
      · exact hp
    · cases hb
      have howner : s.owner lockOf t p = .call t := owner_of_within hfree hp
      rw [← howner]
      exact AddressSpace.map_of_mem _ hp

/-! ### The programs -/

/-- **What the calls are assumed to find.**  An object is requested while its name is not recorded.
A call with a given address replaces and unmaps nothing of the others. -/
def Undisturbed (page t : Nat) (l : ShmAppTask) (c : ShmAppCall) (s : ShmAppWorld) : Prop :=
  match c with
  | .shmMap req => s.mgr.metas req.name = none
  | .memoryMap addr len _ flags _ _ =>
    l.Fixed → placement flags = .fixed → s.space.Within page addr len (Mine t)
  | .memoryUnMap addr len => l.Fixed → s.space.Within page addr len (Mine t)
  | _ => True

variable (page lockOf) in
/-- The threads of a process under this assumption. -/
def protocol : Protocol Nat ShmAppTask (ShmAppWorld.sem page lockOf) where
  rely t _ := Relies lockOf t
  guar t _ := Guarantees lockOf t
  inv := TableInv page
  assume t l := Undisturbed page t l
  expects _ _ _ _ := True
  good _ _ _ _ := True
  compat _ _ := True
  rely_refl _ _ := .refl
  rely_trans _ _ _ _ _ := .trans
  guar_rely _ t' _ _ _ _ hne _ _ h := h t' (Ne.symm hne)

variable (page lockOf) in
/-- The rest of a call follows the protocol. -/
def Follows {α : Type} (t : Nat) (l : ShmAppTask) (p : ShmAppProg α) (s : ShmAppWorld) : Prop :=
  Prog.Safe (fun c s r s' => ShmAppWorld.sem page lockOf t c s r s' ∧ True) (Relies lockOf t)
    (Guarantees lockOf t) (TableInv page) (Undisturbed page t l) (fun _ _ => True) p s

variable {α : Type} {l : ShmAppTask} {c : ShmAppCall} {k : c.Reply → ShmAppProg α}

/-- One call: it keeps the invariant and the guarantee, and the rest follows the protocol. -/
theorem follows_call (h : ∀ s₁, Relies lockOf t s s₁ → TableInv page s₁ →
    Undisturbed page t l c s₁ → ∀ r s₂, ShmAppWorld.sem page lockOf t c s₁ r s₂ →
      (TableInv page s₂ ∧ Guarantees lockOf t s₁ s₂) ∧ Follows page lockOf t l (k r) s₂) :
    Follows page lockOf t l (.call c k) s := by
  intro s₁ hrely hinv hassume
  refine ⟨trivial, fun r s₂ hsem => ?_⟩
  obtain ⟨⟨hinv₂, hguar⟩, hrest⟩ := h s₁ hrely hinv hassume r s₂ hsem.1
  exact ⟨hinv₂, hguar, hrest⟩

theorem follows_read (hread : ∀ s₁ r s₂, ShmAppWorld.sem page lockOf t c s₁ r s₂ → s₂ = s₁)
    (h : ∀ s₁, Relies lockOf t s s₁ → TableInv page s₁ → ∀ r,
      ShmAppWorld.sem page lockOf t c s₁ r s₁ → Follows page lockOf t l (k r) s₁) :
    Follows page lockOf t l (.call c k) s := by
  refine follows_call fun s₁ hrely hinv _ r s₂ hsem => ?_
  obtain rfl := hread s₁ r s₂ hsem
  exact ⟨⟨hinv, .refl s₂⟩, h s₂ hrely hinv r hsem⟩

/-- What others leave as it is. -/
def Stable (lockOf : Name → Nat) (t : Nat) (A : ShmAppWorld → Prop) : Prop :=
  ∀ s s₁, A s → Relies lockOf t s s₁ → A s₁

theorem follows_closeAllFd {A : ShmAppWorld → Prop} (hA : Stable lockOf t A) (fds : List Int)
    {f : List Int → ShmAppProg α} (hf : ∀ fds s, A s → Follows page lockOf t l (f fds) s)
    (hs : A s) : Follows page lockOf t l (closeAllFd fds >>= f) s := by
  have hall : (closeAllFd fds).All fun c => ∃ fd, c = .close fd :=
    all_closeAllFd (fun fd => ⟨fd, rfl⟩) fds
  refine safe_bind_of_all hA (fun _ _ _ _ _ => trivial) ?_ hall hf hs
  rintro c s r s' ⟨fd, rfl⟩ hI hinv ⟨hsem, -⟩
  obtain rfl : s' = s := hsem
  exact ⟨hinv, .refl s', hI⟩

/-! ### Mapping -/

/-- The daemon has granted the object to the thread, and it is not recorded. -/
def Holding (t : Nat) (name : Name) (s : ShmAppWorld) : Prop :=
  s.registered name = some t ∧ s.mgr.metas name = none

/-- The range is the thread's own, or the one that the call was given. -/
def Has (page t : Nat) (l : ShmAppTask) (addr len : Nat) (s : ShmAppWorld) : Prop :=
  l.Fixed ∨ s.space.Owned page addr len (.call t)

theorem stable_holding (name : Name) : Stable lockOf t (Holding t name) :=
  fun _ _ h hrely => hrely.grant name h.1 h.2

theorem stable_owned (addr len : Nat) :
    Stable lockOf t fun s => s.space.Owned page addr len (.call t) :=
  fun _ _ h hrely p hp => hrely.pages p (h p hp)

theorem stable_has (addr len : Nat) : Stable lockOf t (Has page t l addr len) :=
  fun _ _ h hrely => h.imp_right fun howned => stable_owned addr len _ _ howned hrely

theorem follows_shmUnMap {k : Int → ShmAppProg α} (hk : ∀ ret s, Follows page lockOf t l (k ret) s)
    (hs : Holding t name s) : Follows page lockOf t l (.call (.shmUnMap name) k) s := by
  refine follows_call fun s₁ hrely hinv _ ret s₂ hsem => ?_
  obtain ⟨user, -, rfl⟩ := hsem
  refine ⟨hinv.of_registered fun t' ht' hg _ => ?_, hk ret _⟩
  rw [(stable_holding name _ _ hs hrely).1] at hg
  exact absurd (some.inj hg).symm ht'

theorem follows_ret (a : α) (s : ShmAppWorld) : Follows page lockOf t l (.ret a : ShmAppProg α) s :=
  trivial

theorem follows_giveBack {code : Int} (hs : Holding t name s) :
    Follows page lockOf t l (giveBack name code) s :=
  follows_shmUnMap (fun _ _ => follows_ret _ _) hs

theorem follows_memoryUnMap {k : Int → ShmAppProg α}
    (hk : ∀ ret s, Holding t name s → Follows page lockOf t l (k ret) s) (hs : Holding t name s)
    (hhas : Has page t l addr len s) :
    Follows page lockOf t l (.call (.memoryUnMap addr len) k) s := by
  refine follows_call fun s₁ hrely hinv hassume ret s₂ hsem => ?_
  obtain ⟨space, hunmap, rfl⟩ := hsem
  have hclear : s₁.space.Within page addr len (Mine t) :=
    (stable_has addr len _ _ hhas hrely).elim hassume within_mine
  have hholds : Holding t name s₁ := stable_holding name _ _ hs hrely
  exact ⟨hinv.of_space (hunmap.onlyChanges hclear), hk ret _ hholds⟩

variable {f : Int → ShmAppProg α}

theorem follows_mapForEachFd {A : ShmAppWorld → Prop} (hA : Stable lockOf t A)
    {addr len prot flags offset : Nat} {fd : Int} (hhas : ∀ s, A s → Has page t l addr len s)
    (hf : ∀ ret s, A s → (ret = ubsmOk → s.space.Owned page addr len (.call t)) →
      Follows page lockOf t l (f ret) s) (hs : A s) :
    Follows page lockOf t l (mapForEachFd addr len fd prot flags offset >>= f) s := by
  refine follows_call fun s₁ hrely hinv hassume r s₂ hsem => ?_
  have hs₁ := hA s s₁ hs hrely
  have hclear : placement flags = .fixed → s₁.space.Within page addr len (Mine t) :=
    fun hplace => (hhas s₁ hs₁).elim (fun hfixed => hassume hfixed hplace) within_mine
  obtain ⟨hkeep, hself, howned⟩ := hinv.memoryMap hclear hsem
  refine ⟨hkeep, ?_⟩
  have hs₂ := hA s₁ s₂ hs₁ hself
  cases r with
  | none => exact hf _ s₂ hs₂ fun hok => absurd hok (by decide)
  | some a =>
    refine hf _ s₂ hs₂ fun hok => ?_
    by_cases haddr : a ≠ addr
    · rw [if_pos haddr] at hok
      exact absurd hok (by decide)
    · exact howned addr (by rw [not_not.mp haddr])

theorem inPages_of_segment {g : Segments} {mapSize i p : Nat} (hpage : 0 < page)
    (hunit : 0 < g.unitSize) (hcount : g.mmapCount = mmapCount mapSize g.unitSize)
    (hi : i < g.mmapCount) (hp : InPages page (g.addr i) (g.length mapSize i) p) :
    InPages page g.mmapAddr mapSize p := by
  obtain ⟨-, hunits⟩ := ShmAppMetaData.mmapCount_spec mapSize hunit
  rw [hcount] at hi
  have hlast := hunits i hi
  refine hp.mono hpage ?_ ?_
  · unfold Segments.addr
    omega
  · unfold Segments.addr Segments.length
    split_ifs with hend
    · rw [← hend]
      omega
    · have hnext := hunits (i + 1) (by omega)
      rw [Nat.succ_mul] at hnext
      omega

/-- **The segments are mapped one after the other**, and at the end all of them are the thread's. -/
theorem follows_mapSegments {g : Segments} {mapSize : Nat} (hpage : 0 < page)
    (hunit : 0 < g.unitSize) (hcount : g.mmapCount = mmapCount mapSize g.unitSize)
    {f : Int × ShmAppMetaData → ShmAppProg α} {all : List Nat} (is : List Nat)
    (his : ∀ i ∈ is, i < g.mmapCount) (hsize : d.mapSize = mapSize)
    (herr : ∀ ret d' s, ret ≠ ubsmOk → Holding t name s → Has page t l g.mmapAddr mapSize s →
      Follows page lockOf t l (f (ret, d')) s)
    (hok : ∀ d' s, d'.name = d.name → d'.addr = d.addr → d'.mapSize = mapSize → Holding t name s →
      Has page t l g.mmapAddr mapSize s →
      (∀ i ∈ all, s.space.Owned page (g.addr i) (g.length mapSize i) (.call t)) →
      Follows page lockOf t l (f (ubsmOk, d')) s) (hholds : Holding t name s)
    (hhas : Has page t l g.mmapAddr mapSize s)
    (hdone : ∀ i ∈ all, i ∈ is ∨ s.space.Owned page (g.addr i) (g.length mapSize i) (.call t)) :
    Follows page lockOf t l (mapSegments g is d >>= f) s := by
  induction is generalizing d s with
  | nil =>
    refine hok d s rfl rfl hsize hholds hhas fun i hi => ?_
    exact (hdone i hi).resolve_left not_mem_nil
  | cons i is ih =>
    -- what holds of the state until the segment is mapped
    let A : ShmAppWorld → Prop := fun s => Holding t name s ∧ Has page t l g.mmapAddr mapSize s ∧
      ∀ j ∈ all, j ∈ i :: is ∨ s.space.Owned page (g.addr j) (g.length mapSize j) (.call t)
    have hA : Stable lockOf t A := by
      rintro s s₁ ⟨h₁, h₂, h₃⟩ hrely
      refine ⟨stable_holding name _ _ h₁ hrely, stable_has _ _ _ _ h₂ hrely, fun j hj => ?_⟩
      exact (h₃ j hj).imp_right fun howned => stable_owned _ _ _ _ howned hrely
    have hclose : ∀ (fds : List Int) (ret : Int) (d' : ShmAppMetaData) (s : ShmAppWorld),
        ret ≠ ubsmOk → A s → Follows page lockOf t l
          ((closeAllFd fds >>= fun fds => .ret (ret, { d' with fds })) >>= f) s := by
      intro fds ret d' s hret hs
      rw [Prog.bind_assoc]
      exact follows_closeAllFd hA fds (fun _ s hs => herr ret _ s hret hs.1 hs.2.1) hs
    unfold mapSegments
    simp only [ask_eq, call_bind, ret_bind]
    refine follows_read (fun _ _ _ h => h) fun s₁ hrely _ fd _ => ?_
    have hs₁ : A s₁ := hA s s₁ ⟨hholds, hhas, hdone⟩ hrely
    split_ifs with hfd
    · exact hclose _ _ _ _ (by decide) hs₁
    rw [Prog.bind_assoc]
    refine follows_mapForEachFd hA (fun s hs => ?_) (fun ret s₂ hs₂ howned => ?_) hs₁
    · refine hs.2.1.imp_right fun howned p hp => howned p ?_
      rw [hsize] at hp
      exact inPages_of_segment hpage hunit hcount (his i mem_cons_self) hp
    · split_ifs with hret
      · exact hclose _ _ _ _ hret hs₂
      · refine ih (fun j hj => his j (mem_cons_of_mem i hj)) hsize ?_ hs₂.1 hs₂.2.1 ?_
        · exact fun d' s hn ha hm => hok d' s hn ha hm
        · intro j hj
          rcases hs₂.2.2 j hj with hmem | hmine
          · rcases mem_cons.mp hmem with rfl | hmem
            · rw [hsize] at howned
              exact .inr (howned (not_not.mp hret))
            · exact .inl hmem
          · exact .inr hmine

theorem follows_unMapWhenError (hs : Holding t name s) (hhas : Has page t l addr len s) :
    Follows page lockOf t l (unMapWhenError addr len name d) s := by
  have hA : Stable lockOf t fun s => Holding t name s ∧ Has page t l addr len s :=
    fun _ _ h hrely => ⟨stable_holding name _ _ h.1 hrely, stable_has addr len _ _ h.2 hrely⟩
  refine follows_closeAllFd hA d.fds (fun _ s₁ h => ?_) ⟨hs, hhas⟩
  split_ifs
  · exact follows_ret () s₁
  · exact follows_ret () s₁
  · exact follows_memoryUnMap
      (fun _ _ hholds => follows_shmUnMap (fun _ _ => follows_ret () _) hholds) h.1 h.2

/-- **The segments are mapped and the mapping is recorded.** -/
theorem follows_bindSegments {response : ShmMapResponse} (hpage : 0 < page)
    (hunit : 0 < response.unitSize) (hsize : response.shmSize = args.mapSize)
    (hholds : Holding t args.name s) (hhas : Has page t l addr args.mapSize s) :
    Follows page lockOf t l (bindSegments args response addr) s := by
  unfold bindSegments rackMemShmMmapByMemID
  extract_lets flags g
  have hcount : g.mmapCount = mmapCount args.mapSize g.unitSize := rfl
  -- an error of the loop: the range is unmapped and the grant returned
  have herr : ∀ (ret : Int) (s₁ : ShmAppWorld), Holding t args.name s₁ →
      Has page t l addr args.mapSize s₁ → Follows page lockOf t l
        (ask (.memoryUnMap addr args.mapSize) >>= fun _ => giveBack args.name ret) s₁ := by
    intro ret s₁ hs₁ hhas₁
    exact follows_memoryUnMap (fun _ _ h => follows_giveBack h) hs₁ hhas₁
  split_ifs with hids
  · rw [pure_eq, ret_bind]
    exact herr _ s hholds hhas
  have hleft : ∀ i ∈ List.range g.mmapCount, i ∈ List.range g.mmapCount ∨
      s.space.Owned page (g.addr i) (g.length args.mapSize i) (.call t) := fun _ hi => .inl hi
  refine follows_mapSegments hpage hunit hcount _ (fun i hi => mem_range.mp hi) hsize ?_ ?_
    hholds hhas hleft
  · intro ret d' s₁ hret hs₁ hhas₁
    dsimp only
    rw [if_pos hret]
    exact herr ret s₁ hs₁ hhas₁
  · intro d s₁ hname haddr hmap hs₁ hhas₁ howned
    simp only [ask_eq, call_bind, ret_bind]
    have hrange : s₁.space.Owned page addr args.mapSize (.call t) := by
      intro p hp
      obtain ⟨i, hi, hp'⟩ := exists_segment hpage hunit hcount hp
      exact howned i hi p hp'
    refine follows_call fun s₂ hrely hinv _ r s₃ hsem => ?_
    have hs₂ := stable_holding args.name _ _ hs₁ hrely
    have hrange₂ : s₂.space.Owned page addr d.mapSize (.call t) := by
      rw [hmap]
      exact stable_owned addr args.mapSize _ _ hrange hrely
    refine ⟨hinv.add hpage hname haddr hs₂.1 hs₂.2 hrange₂ hsem, ?_⟩
    by_cases hadd : r ≠ ubsmOk
    · rw [if_pos hadd]
      obtain rfl := eq_of_addMetaData_failed hsem hadd
      refine Prog.Safe.bind (follows_unMapWhenError hs₂ (.inr ?_)) fun _ s => follows_ret _ s
      rw [← hmap]
      exact hrange₂
    · rw [if_neg hadd]
      exact follows_ret _ _

theorem follows_mapAnonymousMemory {start size : Nat} {f : Int × Nat → ShmAppProg α}
    (hf : ∀ ret addr s, Holding t name s → (ret = ubsmOk → s.space.Owned page addr size (.call t)) →
      Follows page lockOf t l (f (ret, addr)) s) (hs : Holding t name s) :
    Follows page lockOf t l (mapAnonymousMemory start size >>= f) s := by
  unfold mapAnonymousMemory
  split_ifs
  · exact hf _ _ s hs fun h => absurd h mxmErrParamInvalid_ne
  refine follows_call fun s₁ hrely hinv _ r s₂ hsem => ?_
  obtain ⟨hkeep, hself, howned⟩ := hinv.memoryMap (fun h => absurd h (by decide)) hsem
  have hs₂ : Holding t name s₂ := stable_holding name _ _ (stable_holding name _ _ hs hrely) hself
  refine ⟨hkeep, ?_⟩
  cases r with
  | none => exact hf _ _ s₂ hs₂ fun h => absurd h (by decide)
  | some addr => exact hf _ _ s₂ hs₂ fun _ => howned addr rfl

theorem follows_mapAligned {length align : Nat} {f : Int × Nat → ShmAppProg α}
    (hf : ∀ ret addr s, Holding t name s →
      (ret = ubsmOk → s.space.Owned page addr length (.call t)) →
      Follows page lockOf t l (f (ret, addr)) s) (hs : Holding t name s) :
    Follows page lockOf t l (mapAligned length align >>= f) s := by
  refine follows_call fun s₁ hrely hinv _ r s₂ hsem => ?_
  have hs₁ : Holding t name s₁ := stable_holding name _ _ hs hrely
  cases r with
  | none =>
    obtain rfl : s₂ = s₁ := hsem
    exact ⟨⟨hinv, .refl s₂⟩, hf _ _ s₂ hs₁ fun h => absurd h (by decide)⟩
  | some addr =>
    obtain ⟨hfree, rfl⟩ := hsem
    have hclear : s₁.space.Within page addr length (Mine t) := by
      intro p hp o ho
      rcases hfree p hp with hnone | happ
      · rw [hnone] at ho
        cases ho
      · rw [happ] at ho
        exact .inl (some.inj ho).symm
    refine ⟨hinv.of_space (hclear.map _), hf _ _ _ hs₁ fun _ p hp => ?_⟩
    exact AddressSpace.map_of_mem (fun _ => PageOwner.call t) hp

/-- **A range is set aside**, or the call was given one. -/
theorem follows_preAllocate {huge : Bool} {f : Int × Nat → ShmAppProg α}
    (hf : ∀ ret addr s, Holding t args.name s →
      (ret = ubsmOk → Has page t (.mmap args) addr args.mapSize s) →
      Follows page lockOf t (.mmap args) (f (ret, addr)) s) (hs : Holding t args.name s) :
    Follows page lockOf t (.mmap args) (preAllocate alignment args huge >>= f) s := by
  have howned : ∀ ret addr s, Holding t args.name s →
      (ret = ubsmOk → s.space.Owned page addr args.mapSize (.call t)) →
      Follows page lockOf t (.mmap args) (f (ret, addr)) s :=
    fun ret addr s hholds h => hf ret addr s hholds fun hok => .inr (h hok)
  unfold preAllocate getPreAllocateAddressAligned getPreAllocateAddress
  split_ifs with hhuge hstart hoffset hfixed hstart hfixed
  · exact follows_mapAligned howned hs
  · exact hf _ _ s hs fun h => absurd h mxmErrParamInvalid_ne
  · exact hf _ _ s hs fun _ => .inl hfixed
  · rw [Prog.bind_assoc]
    refine follows_mapAnonymousMemory (fun ret addr s₁ hs₁ hrange => ?_) hs
    dsimp only
    split_ifs with hret halign
    · exact hf _ _ s₁ hs₁ fun h => absurd h hret
    · exact follows_memoryUnMap (fun _ _ hs₂ => follows_mapAligned howned hs₂) hs₁
        (.inr (hrange (not_not.mp hret)))
    · exact howned _ _ s₁ hs₁ fun _ => hrange (not_not.mp hret)
  · rw [Prog.bind_assoc]
    refine follows_mapAnonymousMemory (fun ret addr s₁ hs₁ hrange => ?_) hs
    dsimp only
    split_ifs with hret
    · exact hf _ _ s₁ hs₁ fun h => absurd h (by decide)
    · exact howned _ _ s₁ hs₁ fun _ => hrange (not_not.mp hret)
  · exact hf _ _ s hs fun _ => .inl hfixed
  · exact follows_mapAnonymousMemory howned hs

theorem follows_mapGranted {response : ShmMapResponse} (hpage : 0 < page)
    (hs : Holding t args.name s) :
    Follows page lockOf t (.mmap args) (mapGranted alignment args response) s := by
  unfold mapGranted
  split_ifs with hsize hunit halign
  · exact follows_giveBack hs
  · exact follows_giveBack hs
  · exact follows_giveBack hs
  refine follows_preAllocate (fun ret addr s₁ hs₁ hhas => ?_) hs
  dsimp only
  split_ifs with hret
  · exact follows_giveBack hs₁
  · push Not at hsize
    exact follows_bindSegments hpage (Nat.pos_of_ne_zero hunit) hsize.2.symm hs₁
      (hhas (not_not.mp hret))

theorem follows_parameterCheck (hf : ∀ ret s, Follows page lockOf t l (f ret) s) (s : ShmAppWorld) :
    Follows page lockOf t l (rackMemShmMmapParameterCheck args >>= f) s := by
  have hall : (rackMemShmMmapParameterCheck args).All fun c => ∀ s r s',
      ShmAppWorld.sem page lockOf t c s r s' → s' = s :=
    all_parameterCheck (fun _ _ _ _ h => h.2) (fun _ _ _ _ _ h => h.2) args
  refine safe_bind_of_all (fun _ _ _ _ => trivial)
    (fun _ _ _ _ _ => trivial) ?_ hall (fun ret s _ => hf ret s) trivial
  rintro c s r s' hread - hinv ⟨hsem, -⟩
  obtain rfl := hread s r s' hsem
  exact ⟨hinv, .refl s', trivial⟩

theorem granted_of_ipcCallShmMap {r : Int × ShmMapResponse}
    (h : ipcCallShmMap r.1 r.2 = ubsmOk) : ShmAppWorld.Granted r := by
  refine ⟨?_, errCode_of_ipcCallShmMap h⟩
  by_contra hr
  unfold ipcCallShmMap at h
  rw [if_pos hr] at h
  exact hr h

/-- **`UbsMemShmMmap` follows the protocol.** -/
theorem follows_ubsMemShmMmap (hpage : 0 < page) (s : ShmAppWorld) :
    Follows page lockOf t (.mmap args) (ubsMemShmMmap alignment args) s := by
  unfold ubsMemShmMmap
  split_ifs
  · exact follows_ret _ s
  cases getOwnStatus args.prot with
  | none => exact follows_ret _ s
  | some status =>
    refine follows_parameterCheck (fun ret s₁ => ?_) s
    split_ifs
    · exact follows_ret _ s₁
    simp only [ask_eq, call_bind, ret_bind]
    refine follows_call fun s₂ _ hinv hassume r s₃ hsem => ?_
    obtain ⟨user, huser, rfl⟩ := hsem
    refine ⟨hinv.of_registered fun t' ht' hg _ => ?_, ?_⟩
    · -- the daemon does not grant what another thread has
      split_ifs at huser with hgranted
      · rw [hg] at huser
        cases huser.1
      · rcases huser with rfl | huser
        · exact hg
        · rw [hg] at huser
          cases huser.1
    · split_ifs with hret
      · exact follows_ret _ _
      · rw [if_pos (granted_of_ipcCallShmMap (not_not.mp hret))] at huser
        refine follows_mapGranted hpage ⟨?_, hassume⟩
        rw [huser.2]
        exact update_self ..

/-! ### Unmapping -/

/-- The thread has the lock of a name, and the name has these metadata. -/
def Locked (lockOf : Name → Nat) (t : Nat) (name : Name) (d : ShmAppMetaData) (s : ShmAppWorld) :
    Prop :=
  s.locks (lockOf name) = some t ∧ s.mgr.metas name = some d

theorem stable_locked (name : Name) (d : ShmAppMetaData) :
    Stable lockOf t (Locked lockOf t name d) :=
  fun _ _ h hrely => ⟨hrely.lock _ h.1, hrely.entry name d h.1 h.2⟩

/-- The mapping of an object is replaced by its unmapping thread: the pages stay the object's. -/
theorem TableInv.replace (h : TableInv page s) (hlocked : Locked lockOf t name d s) {r : Option Nat}
    (hsem : ShmAppWorld.sem page lockOf t (.memoryMap d.addr d.mapSize 0 0x32 (-1) 0) s r s') :
    (TableInv page s' ∧ Guarantees lockOf t s s') ∧ Locked lockOf t name d s' := by
  obtain ⟨space, hmap, rfl⟩ := hsem
  refine ⟨h.of_space ?_, hlocked⟩
  cases r with
  | none =>
    obtain rfl : space = s.space := hmap
    exact .of_extends (.refl _)
  | some a =>
    obtain ⟨rfl, hplace⟩ := hmap
    intro p o hp _
    by_cases hin : InPages page a d.mapSize p
    · rw [hplace] at hin ⊢
      have hobj := h.owned name d hlocked.2 p hin
      rw [AddressSpace.map_of_mem _ hin, ← hp, hobj]
      unfold ShmAppWorld.owner
      rw [hobj]
      dsimp only
      rw [if_pos hlocked.1]
    · rw [AddressSpace.map_of_not_mem _ hin]
      exact hp

variable {start size : Nat}

theorem follows_removeMetaData (hf : ∀ ret s, s.locks (lockOf name) = some t →
      Follows page lockOf t (.unmmap start size) (f ret) s) (hs : Locked lockOf t name d s) :
    Follows page lockOf t (.unmmap start size)
      ((.call (.removeMetaData d.addr name) fun ret => if ret ≠ ubsmOk then .ret ret
        else .call (.memoryUnMap d.addr d.mapSize) fun _ => .ret ret : ShmAppProg Int) >>= f)
        s := by
  rw [call_bind]
  refine follows_call fun s₁ hrely hinv _ ret s₂ hsem => ?_
  have hs₁ := stable_locked name d _ _ hs hrely
  obtain ⟨hkeep, hlocks, howned⟩ := hinv.remove hs₁.1 hs₁.2 hsem
  have hlock : s₂.locks (lockOf name) = some t := by
    rw [hlocks]
    exact hs₁.1
  refine ⟨hkeep, ?_⟩
  split_ifs with hret
  · exact hf ret s₂ hlock
  · have hrange := howned (not_not.mp hret)
    refine follows_call fun s₃ hrely hinv _ code s₄ hsem => ?_
    obtain ⟨space, hunmap, rfl⟩ := hsem
    have hclear : s₃.space.Within page d.addr d.mapSize (Mine t) :=
      within_mine (stable_owned d.addr d.mapSize _ _ hrange hrely)
    exact ⟨hinv.of_space (hunmap.onlyChanges hclear), hf ret _ (hrely.lock _ hlock)⟩

/-- **`UbsMemShmUnmmap` under its lock**, once the metadata are checked. -/
theorem follows_unmmapChecked (hname : d.name = name)
    (hf : ∀ ret s, s.locks (lockOf name) = some t →
      Follows page lockOf t (.unmmap start size) (f ret) s) (hs : Locked lockOf t name d s) :
    Follows page lockOf t (.unmmap start size) (unmmapChecked d.addr d >>= f) s := by
  subst hname
  unfold unmmapChecked
  simp only [ask_eq, call_bind, ret_bind]
  refine follows_call fun s₁ hrely hinv _ r s₂ hsem => ?_
  obtain ⟨hkeep, hs₂⟩ := hinv.replace (stable_locked _ d _ _ hs hrely) hsem
  refine ⟨hkeep, ?_⟩
  cases r with
  | none => exact hf _ s₂ hs₂.1
  | some a =>
    rw [Prog.bind_assoc]
    refine follows_closeAllFd (stable_locked d.name d) d.fds (fun fds s₃ hs₃ => ?_) hs₂
    simp only [call_bind]
    refine follows_call fun s₄ hrely hinv _ _ s₅ hsem => ?_
    have hs₄ := stable_locked d.name d _ _ hs₃ hrely
    have hname : ({ d with fds } : ShmAppMetaData).name = d.name := rfl
    obtain ⟨hkeep, hlocks, hmeta⟩ := hinv.update hs₄.1 hs₄.2 hname rfl rfl hsem
    have hs₅ : Locked lockOf t d.name { d with fds } s₅ := ⟨by rw [hlocks]; exact hs₄.1, hmeta⟩
    refine ⟨hkeep, ?_⟩
    refine follows_call fun s₆ hrely hinv _ ret s₇ hsem => ?_
    have hs₆ := stable_locked d.name _ _ _ hs₅ hrely
    obtain ⟨user, -, rfl⟩ := hsem
    refine ⟨hinv.of_registered fun t' _ _ hnone => ?_, ?_⟩
    · rw [hs₆.2] at hnone
      cases hnone
    · split_ifs with hret
      · exact hf ret _ hs₆.1
      · exact follows_removeMetaData (d := { d with fds }) hf hs₆

/-- **`UbsMemShmUnmmap` follows the protocol.** -/
theorem follows_ubsMemShmUnmmap (s : ShmAppWorld) :
    Follows page lockOf t (.unmmap start size) (ubsMemShmUnmmap start size) s := by
  unfold ubsMemShmUnmmap
  split_ifs
  · exact follows_ret _ s
  refine follows_read (fun _ _ _ h => h.2) fun s₁ _ _ found _ => ?_
  cases found with
  | error ret => exact follows_ret _ s₁
  | ok name =>
    refine follows_call fun s₂ _ hinv _ _ s₃ hsem => ?_
    obtain ⟨hfree, rfl⟩ := hsem
    refine ⟨hinv.of_locks fun t' _ hlock => ?_, ?_⟩
    · rw [hfree] at hlock
      cases hlock
    -- the lock is given back at the end
    have hunlock : ∀ (ret : Int) (s : ShmAppWorld), s.locks (lockOf name) = some t →
        Follows page lockOf t (.unmmap start size)
          (.call (.unlockMeta name) fun _ => .ret ret : ShmAppProg Int) s := by
      intro ret s hs
      refine follows_call fun s₁ hrely hinv _ _ s₂ hsem => ?_
      obtain rfl : s₂ = _ := hsem
      refine ⟨hinv.of_locks fun t' ht' hlock => ?_, follows_ret _ _⟩
      rw [hrely.lock _ hs] at hlock
      exact ht' (some.inj hlock).symm
    unfold unmmapLocked
    simp only [ask_eq, call_bind, ret_bind]
    refine follows_read (fun _ _ _ h => h.2) fun s₄ hrely hinv found hsem => ?_
    have hlock : s₄.locks (lockOf name) = some t := hrely.lock _ (update_self ..)
    cases found with
    | error ret => exact hunlock ret s₄ hlock
    | ok d =>
      have hd : s₄.mgr.metas name = some d := ShmMetaDataMgr.metas_of_getShmMetaFromName hsem.1.symm
      dsimp only
      split_ifs with haddr hsize hlocked
      · exact hunlock _ s₄ hlock
      · exact hunlock _ s₄ hlock
      · exact hunlock _ s₄ hlock
      · rw [← not_not.mp haddr]
        exact follows_unmmapChecked (hinv.named name d hd) hunlock ⟨hlock, hd⟩

/-! ### Runs -/

variable (page) in
/-- Every call is made where it is undisturbed. -/
def AllUndisturbed (P : ShmAppPool) :
    Pool.Action Nat ShmAppTask ShmAppCall ShmAppCall.Reply → Prop
  | .perform t c _ => ∀ l k, P.running t = some (l, .call c k) → Undisturbed page t l c P.shared
  | _ => True

theorem governs (hpage : 0 < page) (alignment : Nat) :
    (protocol page lockOf).Governs (ShmAppTask.body alignment) (AllUndisturbed page) where
  start P t l _ _ := by
    cases l with
    | mmap args => exact Prog.Safe.bind (follows_ubsMemShmMmap hpage P.shared) fun _ _ => trivial
    | unmmap start size =>
      exact Prog.Safe.bind (follows_ubsMemShmUnmmap P.shared) fun _ _ => trivial
  compat _ _ _ _ _ _ _ _ := ⟨trivial, trivial⟩
  assume P t l c k r hallow hrun := ⟨hallow l k hrun, trivial⟩

end Tables

/-- **The three tables agree in every state of every run** whose calls are undisturbed: each name
has one address, which maps back to the name; the ranges are those of the names, and disjoint; and
the overlap test is right. -/
theorem tables_agree (page alignment : Nat) (lockOf : Name → Nat) (s₀ : ShmAppWorld)
    (P : ShmAppPool) (hpage : 0 < page) (hempty : s₀.mgr = .empty)
    (hreach : Pool.Reach (ShmAppWorld.sem page lockOf) (ShmAppTask.body alignment)
      (AllUndisturbed page) ⟨s₀, fun _ => none⟩ P) :
    P.shared.mgr.Agrees ∧
    (∀ name name' d d', P.shared.mgr.metas name = some d → P.shared.mgr.metas name' = some d' →
      name ≠ name' → d.addr + d.mapSize ≤ d'.addr ∨ d'.addr + d'.mapSize ≤ d.addr) ∧
    ∀ start stop, start < stop →
      (P.shared.mgr.hasOverlapWithKnownVmas start stop = true ↔
        ∃ name d, P.shared.mgr.metas name = some d ∧
          ∃ x, start ≤ x ∧ x < stop ∧ d.addr ≤ x ∧ x < d.addr + d.mapSize) := by
  have hinit : TableInv page s₀ := by
    refine ⟨?_, fun name d hd => ?_, fun name d hd => ?_⟩
    · rw [hempty]
      exact ShmMetaDataMgr.agrees_empty
    · rw [hempty] at hd
      cases hd
    · rw [hempty] at hd
      cases hd
  have hgood : (protocol page lockOf).Good ⟨s₀, fun _ => none⟩ := .idle hinit
  have hagrees : P.shared.mgr.Agrees :=
    (Protocol.good_of_reach (governs hpage alignment) hgood hreach).inv.agrees
  refine ⟨hagrees, fun name name' d d' hd hd' => hagrees.disjoint hd hd', fun start stop hlt => ?_⟩
  rw [hagrees.hasOverlap_iff]
  constructor
  · rintro ⟨name, d, hd, hlo, hhi⟩
    have hrange := hagrees.nonEmpty _ ((hagrees.ranges _).mpr ⟨name, d, hd, rfl⟩)
    exact ⟨name, d, hd, max start d.addr, by omega, by omega, by omega, by omega⟩
  · rintro ⟨name, d, hd, x, hlo, hhi, hlo', hhi'⟩
    exact ⟨name, d, hd, by omega, by omega⟩

/-! ### Runs that are evaluated -/

/-- An object of two pages, at any address. -/
def mapNamed (name : Name) : MmapArgs := ⟨0, 8192, 1, 1, name, 0, true⟩

/-- A process that has mapped nothing, with no call in progress. -/
def startPool : ShmAppPool := ⟨.start, fun _ => none⟩

/-- A thread takes some turns. -/
def turnsOf (t n : Nat) : List (Nat × Option ShmAppTask) := List.replicate n (t, none)

/-- A run against a daemon that grants objects of two pages and a kernel that maps those of thread
`t` from page `spot t` on. -/
def runTurns (spot : Nat → Nat)
    (test : ShmAppPool → Pool.Action Nat ShmAppTask ShmAppCall ShmAppCall.Reply → Bool)
    (turns : List (Nat × Option ShmAppTask)) : Option ShmAppPool :=
  Pool.schedule (ShmAppTask.body hugePages2M)
    (fun t => ShmAppWorld.answer 4096 (fun _ => 0) (grantTwo [1, 2]) (4096 * spot t) t) test
    turns startPool

theorem reach_of_runTurns {spot : Nat → Nat}
    {test : ShmAppPool → Pool.Action Nat ShmAppTask ShmAppCall ShmAppCall.Reply → Bool}
    {allow : ShmAppPool → Pool.Action Nat ShmAppTask ShmAppCall ShmAppCall.Reply → Prop}
    (htest : ∀ P a, test P a = true → allow P a) {turns : List (Nat × Option ShmAppTask)}
    {P : ShmAppPool} (h : runTurns spot test turns = some P) :
    Pool.Reach (ShmAppWorld.sem 4096 fun _ => 0) (ShmAppTask.body hugePages2M) allow startPool
    P := by
  have hgrant : ShmAppWorld.Granted (grantTwo [1, 2]) := ⟨rfl, rfl⟩
  refine Pool.Reach.of_schedule ?_ htest h
  exact fun _ _ _ _ _ hreply => ShmAppWorld.sem_of_answer hgrant hreply

/-- `AllUndisturbed`, as a test for calls that are not given an address. -/
def undisturbedTest (P : ShmAppPool) :
    Pool.Action Nat ShmAppTask ShmAppCall ShmAppCall.Reply → Bool
  | .perform t c _ =>
    match P.running t with
    | none => true
    | some (l, _) => decide (¬l.Fixed) &&
      match c with
      | .shmMap req => (P.shared.mgr.metas req.name).isNone
      | _ => true
  | _ => true

theorem allUndisturbed_of_test {P : ShmAppPool}
    {a : Pool.Action Nat ShmAppTask ShmAppCall ShmAppCall.Reply} (h : undisturbedTest P a = true) :
    AllUndisturbed 4096 P a := by
  cases a with
  | start t l | finish t => trivial
  | perform t c r =>
    intro l k hrun
    simp only [undisturbedTest, hrun, Bool.and_eq_true, decide_eq_true_eq] at h
    cases c with
    | shmMap req => exact isNone_iff_eq_none.mp h.2
    | memoryMap | memoryUnMap => exact fun hfixed => absurd hfixed h.1
    | _ => trivial

/-- Two threads map an object each, at the same time, and a third unmaps one of them. -/
theorem tables_agree_interleaved : ∃ P,
    Pool.Reach (ShmAppWorld.sem 4096 fun _ => 0) (ShmAppTask.body hugePages2M)
      (AllUndisturbed 4096) startPool P ∧
    P.shared.mgr.metas [97] = none ∧ (P.shared.mgr.metas [98]).isSome ∧ P.shared.mgr.Agrees := by
  have hrun : (runTurns (fun t => 17 + 2 * t) undisturbedTest ([(0, some (.mmap (mapNamed [97]))),
      (1, some (.mmap (mapNamed [98])))] ++ turnsOf 0 3 ++ turnsOf 1 5 ++ turnsOf 0 6 ++
      [(2, some (.unmmap 69632 8192))] ++ turnsOf 2 5 ++ turnsOf 1 4 ++ turnsOf 2 7)).map
      (fun P => ((P.shared.mgr.metas [97]).isNone, (P.shared.mgr.metas [98]).isSome)) =
      some (true, true) := by decide +kernel
  obtain ⟨P, hP, hfacts⟩ := map_eq_some_iff.mp hrun
  obtain ⟨hgone, hmapped⟩ := Prod.mk.inj hfacts
  have hreach := reach_of_runTurns (fun _ _ => allUndisturbed_of_test) hP
  exact ⟨P, hreach, isNone_iff_eq_none.mp hgone, hmapped,
    (tables_agree 4096 hugePages2M (fun _ => 0) startPool.shared P (by decide) rfl hreach).1⟩

/-- **The tables come to disagree.**  Thread 1 has checked its name when thread 0 maps the object
and thread 2 begins to unmap it; once the daemon is told, it grants the object to thread 1, and
thread 2 then removes the record that thread 1 has made: its address stays, without a record.  And
thread 2, which has mapped the first segment at its given address, unmaps its whole range when
the second is refused, with a page of the object that thread 1 has mapped there; the kernel puts
the next object there too. -/
theorem tables_disagree :
    (∃ P, Pool.Reach (ShmAppWorld.sem 4096 fun _ => 0) (ShmAppTask.body hugePages2M)
        (fun _ _ => True) startPool P ∧ (∀ t ∈ [0, 1, 2], (P.running t).isNone = true) ∧
      P.shared.mgr.addrNames 77824 = some [97] ∧ P.shared.mgr.metas [97] = none ∧
      ¬P.shared.mgr.Agrees) ∧
    ∃ P d d', Pool.Reach (ShmAppWorld.sem 4096 fun _ => 0) (ShmAppTask.body hugePages2M)
        (fun _ _ => True) startPool P ∧ (∀ t ∈ [0, 1, 2], (P.running t).isNone = true) ∧
      P.shared.mgr.metas [98] = some d ∧ P.shared.mgr.metas [99] = some d' ∧
      d'.addr < d.addr ∧ d.addr < d'.addr + d'.mapSize ∧
      ¬P.shared.mgr.Agrees := by
  constructor
  · have hrun : (runTurns (fun t => 17 + 2 * t) (fun _ _ => true)
        ([(1, some (.mmap (mapNamed [97])))] ++ turnsOf 1 1 ++
        [(0, some (.mmap (mapNamed [97])))] ++ turnsOf 0 9 ++
        [(2, some (.unmmap 69632 8192))] ++ turnsOf 2 8 ++ turnsOf 1 8 ++ turnsOf 2 4)).map
        (fun P => ([0, 1, 2].all fun t => (P.running t).isNone,
          P.shared.mgr.addrNames 77824, (P.shared.mgr.metas [97]).isNone)) =
        some (true, some [97], true) := by decide +kernel
    obtain ⟨P, hP, hfacts⟩ := map_eq_some_iff.mp hrun
    obtain ⟨hidle, hfacts⟩ := Prod.mk.inj hfacts
    obtain ⟨haddr, hnone⟩ := Prod.mk.inj hfacts
    have hmeta := isNone_iff_eq_none.mp hnone
    refine ⟨P, reach_of_runTurns (fun _ _ _ => trivial) hP, all_eq_true.mp hidle, haddr, hmeta,
      fun hagrees => ?_⟩
    obtain ⟨d, hd, -⟩ := hagrees.name _ _ haddr
    rw [hmeta] at hd
    cases hd
  · have hrun : (runTurns (fun t => 16 + t) (fun _ _ => true)
        ([(2, some (.mmap mapAt))] ++ turnsOf 2 5 ++ [(1, some (.mmap (mapNamed [98])))] ++
        turnsOf 1 9 ++ turnsOf 2 7 ++ [(0, some (.mmap (mapNamed [99])))] ++ turnsOf 0 9)).map
        (fun P => ([0, 1, 2].all fun t => (P.running t).isNone,
          (P.shared.mgr.metas [98]).map fun d => (d.addr, d.mapSize),
          (P.shared.mgr.metas [99]).map fun d => (d.addr, d.mapSize))) =
        some (true, some (69632, 8192), some (65536, 8192)) := by decide +kernel
    obtain ⟨P, hP, hfacts⟩ := map_eq_some_iff.mp hrun
    obtain ⟨hidle, hfacts⟩ := Prod.mk.inj hfacts
    obtain ⟨hfirst, hsecond⟩ := Prod.mk.inj hfacts
    obtain ⟨d, hd, hrange⟩ := map_eq_some_iff.mp hfirst
    obtain ⟨d', hd', hrange'⟩ := map_eq_some_iff.mp hsecond
    obtain ⟨haddr, hsize⟩ := Prod.mk.inj hrange
    obtain ⟨haddr', hsize'⟩ := Prod.mk.inj hrange'
    refine ⟨P, d, d', reach_of_runTurns (fun _ _ _ => trivial) hP, all_eq_true.mp hidle, hd, hd',
      by omega, by omega, fun hagrees => ?_⟩
    have hapart := hagrees.disjoint hd hd' (by decide)
    omega

end ShmApp
end UbsMem
