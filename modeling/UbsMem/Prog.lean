import Mathlib.Logic.Function.Basic
import Mathlib.Tactic.Common

/-! # Programs over atomic calls, and their interleavings

A `Prog` is a program given by the calls it makes: it has returned, or it makes a
call and continues with the reply.  What a call does is a relation `sem c s r s'`
("in state `s` the call `c` may reply `r` and leave `s'`"), so that replies of
components that are not modelled are left open.

Two ways of running are defined.  `Runs` executes one program alone, from start to
end, and `wp` is what holds then whatever the replies.  A `Pool` runs any number of
programs interleaved call by call; `Reach` collects the pools that a sequence of
allowed steps leads to.

Interleavings are reasoned about with rely and guarantee.  `Safe` says of the rest
of a program that every call it will make is good and every change it makes
respects `guar`, whatever changes within `rely` others make in between.  `Safe` is
closed under interference and under the program's own steps by construction;
`Protocol.good_of_reach` lifts it to whole pools, given a `Protocol` under which
programs that run at the same time guarantee what the others rely on.
-/
namespace UbsMem

open Function

/-- A program: finished with a value, or a call and what follows each reply. -/
inductive Prog (C : Type) (R : C → Type) (α : Type) : Type
  | ret (a : α) : Prog C R α
  | call (c : C) (k : R c → Prog C R α) : Prog C R α

namespace Prog

variable {C : Type} {R : C → Type} {α β σ : Type}

/-- Sequential composition. -/
def bind : Prog C R α → (α → Prog C R β) → Prog C R β
  | .ret a, f => f a
  | .call c k, f => .call c fun r => (k r).bind f

instance : Monad (Prog C R) where
  pure := .ret
  bind := .bind

/-- A single call. -/
def perform (c : C) : Prog C R (R c) := .call c .ret

@[simp] theorem pure_eq (a : α) : (pure a : Prog C R α) = .ret a := rfl

@[simp] theorem ret_bind (a : α) (f : α → Prog C R β) : (.ret a : Prog C R α) >>= f = f a := rfl

@[simp] theorem call_bind (c : C) (k : R c → Prog C R α) (f : α → Prog C R β) :
    (.call c k : Prog C R α) >>= f = .call c fun r => k r >>= f := rfl

theorem bind_assoc {γ : Type} (p : Prog C R α) (f : α → Prog C R β) (g : β → Prog C R γ) :
    p >>= f >>= g = p >>= fun a => f a >>= g := by
  induction p with
  | ret a => rfl
  | call c k ih =>
    exact congrArg (Prog.call c) (funext ih)

theorem bind_ret (p : Prog C R α) : p >>= .ret = p := by
  induction p with
  | ret a => rfl
  | call c k ih =>
    exact congrArg (Prog.call c) (funext ih)

/-! ### Running alone -/

/-- `Runs sem p s a t`: run alone from `s`, the program `p` may return `a` in state
`t`. -/
inductive Runs (sem : (c : C) → σ → R c → σ → Prop) : Prog C R α → σ → α → σ → Prop
  | ret {a : α} {s : σ} : Runs sem (.ret a) s a s
  | call {c : C} {k : R c → Prog C R α} {s s' t : σ} {r : R c} {a : α} :
      sem c s r s' → Runs sem (k r) s' a t → Runs sem (.call c k) s a t

section Runs

variable {sem : (c : C) → σ → R c → σ → Prop} {p : Prog C R α}
  {f : α → Prog C R β} {Q : α → σ → Prop} {s : σ}

/-- What a program run alone can rely on at its end: whatever the replies, `Q` holds
of the returned value and the state. -/
def wp (sem : (c : C) → σ → R c → σ → Prop) : Prog C R α → (α → σ → Prop) → σ → Prop
  | .ret a, Q, s => Q a s
  | .call c k, Q, s => ∀ r s', sem c s r s' → wp sem (k r) Q s'

@[simp] theorem wp_ret {a : α} : wp sem (.ret a) Q s ↔ Q a s := Iff.rfl

@[simp] theorem wp_call {c : C} {k : R c → Prog C R α} :
    wp sem (.call c k) Q s ↔ ∀ r s', sem c s r s' → wp sem (k r) Q s' := Iff.rfl

theorem wp_bind {Q : β → σ → Prop} :
    wp sem (p >>= f) Q s ↔ wp sem p (fun a => wp sem (f a) Q) s := by
  induction p generalizing s with
  | ret a => rfl
  | call c k ih => exact forall₃_congr fun r s' _ => ih r

theorem wp_mono {Q Q' : α → σ → Prop} (hQ : ∀ a t, Q a t → Q' a t) (h : wp sem p Q s) :
    wp sem p Q' s := by
  induction p generalizing s with
  | ret a => exact hQ a s h
  | call c k ih => exact fun r s' hsem => ih r (h r s' hsem)

/-- Fewer replies allow to rely on more. -/
theorem wp_of_sem {sem' : (c : C) → σ → R c → σ → Prop}
    (hsem : ∀ c s r s', sem' c s r s' → sem c s r s') (h : wp sem p Q s) : wp sem' p Q s := by
  induction p generalizing s with
  | ret a => exact h
  | call c k ih => exact fun r s' hr => ih r (h r s' (hsem c s r s' hr))

theorem Runs.of_wp {s t : σ} {a : α} (hrun : Runs sem p s a t) (h : wp sem p Q s) : Q a t := by
  induction hrun with
  | ret => exact h
  | call hsem _ ih => exact ih (h _ _ hsem)

/-- Run a program alone against a function that answers its calls, until it refuses
one. -/
def exec (answer : (c : C) → σ → Option (R c × σ)) : Prog C R α → σ → Option (α × σ)
  | .ret a, s => some (a, s)
  | .call c k, s =>
    match answer c s with
    | none => none
    | some (r, s') => exec answer (k r) s'

theorem Runs.of_exec {answer : (c : C) → σ → Option (R c × σ)}
    (hanswer : ∀ c s r s', answer c s = some (r, s') → sem c s r s') {s t : σ} {a : α}
    (h : exec answer p s = some (a, t)) : Runs sem p s a t := by
  induction p generalizing s with
  | ret b =>
    cases h
    exact .ret
  | call c k ih =>
    unfold exec at h
    split at h
    · cases h
    · next r s' hr => exact .call (hanswer c s r s' hr) (ih r h)

/-- What a call does to the state, with the verdict whether every step so far meets `ok`. -/
def judged (sem ok : (c : C) → σ → R c → σ → Prop) (c : C) (x : σ × Prop) (r : R c)
    (y : σ × Prop) : Prop :=
  sem c x.1 r y.1 ∧ y.2 = (x.2 ∧ ok c x.1 r y.1)

theorem wp_judged_call {ok : (c : C) → σ → R c → σ → Prop} {c : C} {k : R c → Prog C R α}
    {Q : α → σ × Prop → Prop} (h : ∀ r s', sem c s r s' →
      (ok c s r s' → wp (judged sem ok) (k r) Q (s', True)) ∧
      (¬ok c s r s' → wp (judged sem ok) (k r) Q (s', False))) :
    wp (judged sem ok) (.call c k) Q (s, True) := by
  rintro r ⟨s', b⟩ ⟨hsem, hb⟩
  by_cases hok : ok c s r s'
  · obtain rfl : b = True := hb.trans (eq_true ⟨trivial, hok⟩)
    exact (h r s' hsem).1 hok
  · obtain rfl : b = False := hb.trans (eq_false fun hand => hok hand.2)
    exact (h r s' hsem).2 hok

/-- Once a step does not meet `ok`, the verdict is settled. -/
theorem wp_judged_of_not {ok : (c : C) → σ → R c → σ → Prop}
    (h : wp sem p (fun a t => ¬Q a t) s) :
    wp (judged sem ok) p (fun a y => Q a y.1 ↔ y.2) (s, False) := by
  suffices hfalse : ∀ x : σ × Prop, ¬x.2 → wp sem p (fun a t => ¬Q a t) x.1 →
      wp (judged sem ok) p (fun a y => Q a y.1 ↔ y.2) x from hfalse (s, False) not_false h
  clear h
  induction p with
  | ret a => exact fun x hx h => iff_of_false h hx
  | call c k ih =>
    rintro x hx h r y ⟨hsem, hy⟩
    exact ih r y (fun hverdict => hx (hy ▸ hverdict).1) (h r y.1 hsem)

/-- Every run has its verdict. -/
theorem Runs.judged {ok : (c : C) → σ → R c → σ → Prop} {s t : σ} {a : α}
    (hrun : Runs sem p s a t) (b : Prop) :
    ∃ b', Runs (judged sem ok) p (s, b) a (t, b') ∧
      (b' → b ∧ Runs (fun c s r s' => sem c s r s' ∧ ok c s r s') p s a t) := by
  induction hrun generalizing b with
  | ret => exact ⟨b, .ret, fun hb => ⟨hb, .ret⟩⟩
  | call hsem _ ih =>
    obtain ⟨b', hrest, hverdict⟩ := ih (b ∧ ok _ _ _ _)
    refine ⟨b', .call ⟨hsem, rfl⟩ hrest, fun hb' => ?_⟩
    obtain ⟨⟨hb, hok⟩, hruns⟩ := hverdict hb'
    exact ⟨hb, .call ⟨hsem, hok⟩ hruns⟩

/-- **What holds at the end of just the runs whose steps all meet `ok`.** -/
theorem Runs.iff_of_wp_judged {ok : (c : C) → σ → R c → σ → Prop} {s t : σ} {a : α}
    {P : α → Prop} (hrun : Runs sem p s a t) (ha : P a)
    (h : wp (Prog.judged sem ok) p (fun a y => P a → (Q a y.1 ↔ y.2)) (s, True)) :
    Q a t ↔ Runs (fun c s r s' => sem c s r s' ∧ ok c s r s') p s a t := by
  constructor
  · intro hQ
    obtain ⟨b, hjudged, hverdict⟩ := hrun.judged True
    exact (hverdict ((hjudged.of_wp h ha).mp hQ)).2
  · intro hmeets
    have hjudged : Runs (Prog.judged sem ok) p (s, True) a (t, True) := by
      clear h hrun
      induction hmeets with
      | ret => exact .ret
      | call hcall _ ih => exact .call ⟨hcall.1, by simp [hcall.2]⟩ (ih ha)
    exact (hjudged.of_wp h ha).mpr trivial

end Runs

section Calls

variable {sem : (c : C) → σ → R c → σ → Prop} {P : C → Prop} {p : Prog C R α}
  {f : α → Prog C R β} {s : σ} {c : C}

/-- `Makes sem p s c s'`: run alone from `s`, the program `p` may come to the call
`c`, in state `s'`. -/
inductive Makes (sem : (c : C) → σ → R c → σ → Prop) : Prog C R α → σ → C → σ → Prop
  | here {c : C} {k : R c → Prog C R α} {s : σ} : Makes sem (.call c k) s c s
  | later {c c' : C} {k : R c → Prog C R α} {s s₁ s₂ : σ} {r : R c} :
      sem c s r s₁ → Makes sem (k r) s₁ c' s₂ → Makes sem (.call c k) s c' s₂

@[simp] theorem not_makes_ret {a : α} {s s' : σ} : ¬ Makes sem (.ret a : Prog C R α) s c s' := by
  nofun

theorem makes_call {c c' : C} {k : R c → Prog C R α} {s s' : σ} : Makes sem (.call c k) s c' s' ↔
      c' = c ∧ s' = s ∨ ∃ r s₁, sem c s r s₁ ∧ Makes sem (k r) s₁ c' s' := by
  constructor
  · intro h
    cases h with
    | here => exact .inl ⟨rfl, rfl⟩
    | later hsem hrest => exact .inr ⟨_, _, hsem, hrest⟩
  · rintro (⟨rfl, rfl⟩ | ⟨r, s₁, hsem, hrest⟩)
    · exact .here
    · exact .later hsem hrest

/-- Run a program alone against a function that answers its calls, up to the first
call that `stop` holds of. -/
def execTo (stop : C → Bool) (answer : (c : C) → σ → Option (R c × σ)) :
    Prog C R α → σ → Option (C × σ)
  | .ret _, _ => none
  | .call c k, s =>
    if stop c then some (c, s)
    else match answer c s with
      | none => none
      | some (r, s') => execTo stop answer (k r) s'

theorem Makes.of_execTo {stop : C → Bool} {answer : (c : C) → σ → Option (R c × σ)}
    (hanswer : ∀ c s r s', answer c s = some (r, s') → sem c s r s') {s s' : σ}
    (h : execTo stop answer p s = some (c, s')) : Makes sem p s c s' := by
  induction p generalizing s with
  | ret b => cases h
  | call c₁ k ih =>
    unfold execTo at h
    split_ifs at h
    · cases h
      exact .here
    · split at h
      · cases h
      · next r s₁ hr => exact .later (hanswer c₁ s r s₁ hr) (ih r h)

/-- The state of a run with the calls that it has made and their replies. -/
abbrev Traced (R : C → Type) (σ : Type) := σ × List (Σ c, R c)

/-- What a call does to the state, with the call noted. -/
def traced (sem : (c : C) → σ → R c → σ → Prop) (c : C) (x : Traced R σ) (r : R c)
    (y : Traced R σ) : Prop :=
  sem c x.1 r y.1 ∧ y.2 = x.2 ++ [⟨c, r⟩]

theorem mem_of_traced {x y : Traced R σ} {r : R c} (h : traced sem c x r y) : ⟨c, r⟩ ∈ y.2 := by
  rw [h.2]
  exact List.mem_append_right _ (.head _)

/-- Between two states of a run `f` has kept its value, and the calls that were made meet `P`. -/
structure Keeps (f : σ → β) (P : (Σ c, R c) → Prop) (x y : Traced R σ) : Prop where
  value : f y.1 = f x.1
  old : x.2 ⊆ y.2
  new : ∀ e ∈ y.2, e ∈ x.2 ∨ P e

theorem Keeps.refl (f : σ → β) (P : (Σ c, R c) → Prop) (x : Traced R σ) : Keeps f P x x :=
  ⟨rfl, fun _ he => he, fun _ he => .inl he⟩

theorem Keeps.step {f : σ → β} {P : (Σ c, R c) → Prop} {x y z : Traced R σ} {r : R c}
    (h : Keeps f P x y) (hsem : traced sem c y r z) (hstep : f z.1 = f y.1 ∧ P ⟨c, r⟩) :
    Keeps f P x z := by
  refine ⟨hstep.1.trans h.value, fun e he => ?_, fun e he => ?_⟩
  · rw [hsem.2]
    exact List.mem_append_left _ (h.old he)
  · rw [hsem.2, List.mem_append, List.mem_singleton] at he
    rcases he with he | rfl
    · exact h.new e he
    · exact .inr hstep.2

/-- Every run has its trace. -/
theorem Runs.traced {s t : σ} {a : α} (h : Runs sem p s a t) (before : List (Σ c, R c)) :
    ∃ after, Runs (traced sem) p (s, before) a (t, after) := by
  induction h generalizing before with
  | ret => exact ⟨before, .ret⟩
  | call hsem _ ih =>
    obtain ⟨after, hrest⟩ := ih (before ++ [⟨_, _⟩])
    exact ⟨after, .call ⟨hsem, rfl⟩ hrest⟩

/-- Every call in the text of the program satisfies `P`. -/
def All (P : C → Prop) : Prog C R α → Prop
  | .ret _ => True
  | .call c k => P c ∧ ∀ r, All P (k r)

@[simp] theorem all_ret (a : α) : (.ret a : Prog C R α).All P := trivial

@[simp] theorem all_call {k : R c → Prog C R α} :
    (Prog.call c k).All P ↔ P c ∧ ∀ r, (k r).All P := Iff.rfl

@[simp] theorem all_ite {b : Prop} [Decidable b] {p q : Prog C R α} :
    (if b then p else q).All P ↔ (b → p.All P) ∧ (¬ b → q.All P) := by
  split <;> simp_all

theorem All.bind (hp : p.All P) (hf : ∀ a, (f a).All P) : (p >>= f).All P := by
  induction p with
  | ret a => exact hf a
  | call c k ih => exact ⟨hp.1, fun r => ih r (hp.2 r)⟩

theorem Makes.of_all {s s' : σ} (h : Makes sem p s c s') (hp : p.All P) : P c := by
  induction h with
  | here => exact hp.1
  | later _ _ ih => exact ih (hp.2 _)

/-- An invariant that every call of the program keeps. -/
theorem All.wp {I : σ → Prop} (hkeep : ∀ c s r s', P c → sem c s r s' → I s → I s') (hp : p.All P)
    (hs : I s) : p.wp sem (fun _ t => I t) s := by
  induction p generalizing s with
  | ret a => exact hs
  | call c k ih => exact fun r s' hsem => ih r (hp.2 r) (hkeep c s r s' hp.1 hsem hs)

/-- A program of calls that keep the value of `f` and meet `P`. -/
theorem All.wp_keeps {f : σ → β} {Q : (Σ c, R c) → Prop}
    (hkeep : ∀ c s r s', P c → sem c s r s' → f s' = f s ∧ Q ⟨c, r⟩) (hp : p.All P)
    (x : Traced R σ) : p.wp (traced sem) (fun _ y => Keeps f Q x y) x :=
  hp.wp (fun _ _ _ _ hc hsem h => h.step hsem (hkeep _ _ _ _ hc hsem.1)) (.refl f Q x)

/-- If every reply is within `ok`, the program returns only values that `Q` holds of. -/
def Yields (ok : (c : C) → R c → Prop) (Q : α → Prop) : Prog C R α → Prop
  | .ret a => Q a
  | .call c k => ∀ r, ok c r → Yields ok Q (k r)

@[simp] theorem yields_call {ok : (c : C) → R c → Prop} {Q : α → Prop} {k : R c → Prog C R α} :
    (Prog.call c k).Yields ok Q ↔ ∀ r, ok c r → (k r).Yields ok Q := Iff.rfl

theorem yields_of_forall {ok : (c : C) → R c → Prop} {Q : α → Prop} (p : Prog C R α)
    (hQ : ∀ a, Q a) : p.Yields ok Q := by
  induction p with
  | ret a => exact hQ a
  | call c k ih => exact fun r _ => ih r

theorem Yields.mono {ok : (c : C) → R c → Prop} {P Q : α → Prop} (hPQ : ∀ a, P a → Q a)
    (h : p.Yields ok P) : p.Yields ok Q := by
  induction p with
  | ret a => exact hPQ a h
  | call c k ih => exact fun r hr => ih r (h r hr)

theorem Yields.bind {ok : (c : C) → R c → Prop} {P : α → Prop} {Q : β → Prop} (hp : p.Yields ok P)
    (hf : ∀ a, P a → (f a).Yields ok Q) : (p >>= f).Yields ok Q := by
  induction p with
  | ret a => exact hf a hp
  | call c k ih => exact fun r hr => ih r (hp r hr)

/-- What follows a program is known to come after what it yields. -/
theorem All.bind_yields {Y : α → Prop} (hp : p.All P) (hy : p.Yields (fun _ _ => True) Y)
    (hf : ∀ a, Y a → (f a).All P) : (p >>= f).All P := by
  induction p with
  | ret a => exact hf a hy
  | call c k ih => exact ⟨hp.1, fun r => ih r (hp.2 r) (hy r trivial)⟩

/-- What a program returns in a run is what it yields. -/
theorem Yields.wp {P : α → Prop} {Q : α → σ → Prop} (hp : p.Yields (fun _ _ => True) P)
    (hQ : ∀ a t, P a → Q a t) : p.wp sem Q s := by
  induction p generalizing s with
  | ret a => exact hQ a s hp
  | call c k ih => exact fun r s' _ => ih r (hp r trivial)

/-- What a program yields when every reply is within `ok` adds to what can be relied on. -/
theorem Yields.wp_and {ok : (c : C) → R c → Prop} {P : α → Prop} {Q : α → σ → Prop}
    (hp : p.Yields ok P) (hw : p.wp sem Q s) :
    p.wp (fun c s r s' => sem c s r s' ∧ ok c r) (fun a t => P a ∧ Q a t) s := by
  induction p generalizing s with
  | ret a => exact ⟨hp, hw⟩
  | call c k ih => exact fun r s' hr => ih r (hp r hr.2) (hw r s' hr.1)

/-- Once a reply is marked, the program returns only values that `Q` holds of. -/
def Commits (mark : (c : C) → R c → Prop) (Q : α → Prop) : Prog C R α → Prop
  | .ret _ => True
  | .call c k => ∀ r, (mark c r → Yields (fun _ _ => True) Q (k r)) ∧ Commits mark Q (k r)

/-- A program without a marked reply. -/
theorem commits_of_all {mark : (c : C) → R c → Prop} {Q : α → Prop}
    (hp : p.All fun c => ∀ r, ¬mark c r) : p.Commits mark Q := by
  induction p with
  | ret a => trivial
  | call c k ih => exact fun r => ⟨fun hr => absurd hr (hp.1 r), ih r (hp.2 r)⟩

theorem Commits.bind {mark : (c : C) → R c → Prop} {P : α → Prop} {Q : β → Prop}
    (hp : p.Commits mark P) (hyields : ∀ a, P a → (f a).Yields (fun _ _ => True) Q)
    (hf : ∀ a, (f a).Commits mark Q) : (p >>= f).Commits mark Q := by
  induction p with
  | ret a => exact hf a
  | call c k ih =>
    exact fun r => ⟨fun hr => ((hp r).1 hr).bind hyields, ih r (hp r).2⟩

/-- If every call keeps the state in a preorder unless its reply is marked, then so does a run
that does not return a value of `Q`. -/
theorem Commits.wp {mark : (c : C) → R c → Prop} {Q : α → Prop} {rel : σ → σ → Prop}
    (hrefl : ∀ s, rel s s) (htrans : ∀ s s₁ s₂, rel s s₁ → rel s₁ s₂ → rel s s₂)
    (hkeep : ∀ c s r s', P c → ¬mark c r → sem c s r s' → rel s s') (hp : p.Commits mark Q)
    (hall : p.All P) (s : σ) : p.wp sem (fun a t => ¬Q a → rel s t) s := by
  induction p generalizing s with
  | ret a => exact fun _ => hrefl s
  | call c k ih =>
    intro r s' hsem
    by_cases hmark : mark c r
    · exact ((hp r).1 hmark).wp fun a t hQ hnot => absurd hQ hnot
    · refine wp_mono (fun a t h hnot => ?_) (ih r (hp r).2 (hall.2 r) s')
      exact htrans s s' t (hkeep c s r s' hall.1 hmark hsem) (h hnot)

/-- Every run of the program makes a call that satisfies `Q`, and after it only calls
that satisfy `P`. -/
def EndsWith (Q P : C → Prop) : Prog C R α → Prop
  | .ret _ => False
  | .call c k => (Q c ∧ ∀ r, (k r).All P) ∨ ∀ r, EndsWith Q P (k r)

theorem EndsWith.bind {Q P : C → Prop} (hf : ∀ a, (f a).EndsWith Q P) : (p >>= f).EndsWith Q P := by
  induction p with
  | ret a => exact hf a
  | call c k ih => exact .inr ih

end Calls

/-! ### Rely and guarantee -/

section Safe

variable (sem : (c : C) → σ → R c → σ → Prop) (rely guar : σ → σ → Prop) (inv : σ → Prop)
  (assume good : C → σ → Prop)

/-- Every call the program makes from `s` on is `good`, and every change it makes
keeps `inv` and is within `guar`, if the changes made by others stay within `rely`,
keep `inv`, and the states in which calls are made meet `assume`. -/
def Safe : Prog C R α → σ → Prop
  | .ret _, _ => True
  | .call c k, s => ∀ s₁, rely s s₁ → inv s₁ → assume c s₁ →
      good c s₁ ∧ ∀ r s₂, sem c s₁ r s₂ → inv s₂ ∧ guar s₁ s₂ ∧ Safe (k r) s₂

variable {sem rely guar inv assume good} {p : Prog C R α} {f : α → Prog C R β}
  {P : C → Prop} {I : σ → Prop} {s : σ}

theorem safe_ret (a : α) (s : σ) :
    Safe sem rely guar inv assume good (.ret a : Prog C R α) s := trivial

/-- Interference does not hurt. -/
theorem Safe.stable (htrans : ∀ s s₁ s₂, rely s s₁ → rely s₁ s₂ → rely s s₂) {s s' : σ}
    (h : Safe sem rely guar inv assume good p s) (hs : rely s s') :
    Safe sem rely guar inv assume good p s' := by
  cases p with
  | ret a => trivial
  | call c k => exact fun s₁ hs₁ => h s₁ (htrans s s' s₁ hs hs₁)

/-- Fewer replies are safer. -/
theorem Safe.of_sem {sem' : (c : C) → σ → R c → σ → Prop}
    (hsem : ∀ c s r s', sem' c s r s' → sem c s r s') (h : Safe sem rely guar inv assume good p s) :
    Safe sem' rely guar inv assume good p s := by
  induction p generalizing s with
  | ret a => trivial
  | call c k ih =>
    intro s₁ hrely hinv hassume
    obtain ⟨hgood, hnext⟩ := h s₁ hrely hinv hassume
    refine ⟨hgood, fun r s₂ hr => ?_⟩
    obtain ⟨hinv', hguar, hsafe⟩ := hnext r s₂ (hsem c s₁ r s₂ hr)
    exact ⟨hinv', hguar, ih r hsafe⟩

/-- A program that may be followed by others wherever it returns. -/
theorem Safe.bind (hp : Safe sem rely guar inv assume good p s)
    (hf : ∀ a s, Safe sem rely guar inv assume good (f a) s) :
    Safe sem rely guar inv assume good (p >>= f) s := by
  induction p generalizing s with
  | ret a => exact hf a s
  | call c k ih =>
    intro s₁ hrely hinv hassume
    obtain ⟨hgood, hnext⟩ := hp s₁ hrely hinv hassume
    refine ⟨hgood, fun r s₂ hsem => ?_⟩
    obtain ⟨hinv', hguar, hsafe⟩ := hnext r s₂ hsem
    exact ⟨hinv', hguar, ih r hsafe⟩

section

variable (hrely : ∀ s s₁, I s → rely s s₁ → I s₁) (hgood : ∀ c s, P c → I s → inv s → good c s)
  (hkeep : ∀ c s r s', P c → I s → inv s → sem c s r s' → inv s' ∧ guar s s' ∧ I s') (hp : p.All P)

include hrely hgood hkeep hp

/-- The part of a program whose calls all satisfy `P`: it keeps what `I` says of the
state, which others do not disturb, and the rest is safe wherever `I` holds. -/
theorem safe_bind_of_all (hf : ∀ a s, I s → Safe sem rely guar inv assume good (f a) s) (hs : I s) :
    Safe sem rely guar inv assume good (p >>= f) s := by
  induction p generalizing s with
  | ret a => exact hf a s hs
  | call c k ih =>
    intro s₁ hs₁ hinv _
    have hI := hrely s s₁ hs hs₁
    refine ⟨hgood c s₁ hp.1 hI hinv, fun r s₂ hsem => ?_⟩
    obtain ⟨hinv', hguar, hI'⟩ := hkeep c s₁ r s₂ hp.1 hI hinv hsem
    exact ⟨hinv', hguar, ih r (hp.2 r) hI'⟩

/-- A program all of whose calls are good and within `guar`. -/
theorem safe_of_all (hs : I s) : Safe sem rely guar inv assume good p s := by
  rw [← bind_ret p]
  exact safe_bind_of_all hrely hgood hkeep hp (fun a s _ => safe_ret a s) hs

end

end Safe
end Prog

/-! ### Pools -/

/-- Threads `T`, each idle or running the rest of a program under a label, over a
shared state. -/
structure Pool (T L C : Type) (R : C → Type) (σ : Type) where
  shared : σ
  running : T → Option (L × Prog C R Unit)

namespace Pool

variable {T L C : Type} [DecidableEq T] {R : C → Type} {σ : Type}

/-- What happens in one step of a pool. -/
inductive Action (T L C : Type) (R : C → Type)
  | start (t : T) (l : L)
  | perform (t : T) (c : C) (r : R c)
  | finish (t : T)

variable (sem : T → (c : C) → σ → R c → σ → Prop) (body : L → Prog C R Unit)

/-- The steps of a pool: an idle thread takes up the program of a label, a running
one makes its next call, a finished one becomes idle. -/
inductive Step : Pool T L C R σ → Action T L C R → Pool T L C R σ → Prop
  | start {P : Pool T L C R σ} {t : T} {l : L} (hidle : P.running t = none) :
      Step P (.start t l) ⟨P.shared, update P.running t (some (l, body l))⟩
  | perform {P : Pool T L C R σ} {t : T} {l : L} {c : C} {k : R c → Prog C R Unit} {r : R c}
      {s' : σ} (hrun : P.running t = some (l, .call c k)) (hsem : sem t c P.shared r s') :
      Step P (.perform t c r) ⟨s', update P.running t (some (l, k r))⟩
  | finish {P : Pool T L C R σ} {t : T} {l : L} (hrun : P.running t = some (l, .ret ())) :
      Step P (.finish t) ⟨P.shared, update P.running t none⟩

/-- The pools reached from `P₀` by steps that `allow` admits. -/
inductive Reach (allow : Pool T L C R σ → Action T L C R → Prop) (P₀ : Pool T L C R σ) :
    Pool T L C R σ → Prop
  | refl : Reach allow P₀ P₀
  | step {P P' : Pool T L C R σ} {a : Action T L C R} :
      Reach allow P₀ P → allow P a → Step sem body P a P' → Reach allow P₀ P'

section Alone

variable {sem body} {allow : Pool T L C R σ → Action T L C R → Prop}

theorem Reach.trans {P₀ P P' : Pool T L C R σ} (h : Reach sem body allow P₀ P)
    (h' : Reach sem body allow P P') : Reach sem body allow P₀ P' := by
  induction h' with
  | refl => exact h
  | step _ hallow hstep ih => exact ih.step hallow hstep

/-- A thread that makes a call when it runs alone can do so in a pool; `sem'` are the
replies under which `allow` admits the calls on the way. -/
theorem Reach.of_makes {t : T} {l : L} {sem' : (c : C) → σ → R c → σ → Prop}
    (hsem' : ∀ (P : Pool T L C R σ) c k r s', P.running t = some (l, .call c k) →
      sem' c P.shared r s' → sem t c P.shared r s' ∧ allow P (.perform t c r))
    {P : Pool T L C R σ} {p : Prog C R Unit} {c : C} {s' : σ} (hrun : P.running t = some (l, p))
    (h : Prog.Makes sem' p P.shared c s') :
    ∃ P' k, Reach sem body allow P P' ∧ P'.shared = s' ∧ P'.running t = some (l, .call c k) ∧
      ∀ t', t' ≠ t → P'.running t' = P.running t' := by
  generalize hs : P.shared = s at h
  induction h generalizing P with
  | @here c k s => exact ⟨P, k, .refl, hs, hrun, fun _ _ => rfl⟩
  | @later c c' k s s₁ s₂ r hsem _ ih =>
    subst hs
    obtain ⟨hstep, hallow⟩ := hsem' P c k r s₁ hrun hsem
    obtain ⟨P', k', hreach, hshared, hcall, hothers⟩ := ih (P := ⟨s₁, update P.running t (some (l, k
      r))⟩) (update_self t (some (l, k r)) P.running) rfl
    refine ⟨P', k', (Reach.refl.step hallow (.perform hrun hstep)).trans hreach, hshared, hcall,
      fun t' ht' => ?_⟩
    rw [hothers t' ht']
    exact update_of_ne ht' _ _

/-- The pool after an idle thread has taken up a program. -/
def started (P : Pool T L C R σ) (t : T) (l : L) (p : Prog C R Unit) : Pool T L C R σ :=
  ⟨P.shared, update P.running t (some (l, p))⟩

/-- An idle thread takes up a program and runs it alone up to a call. -/
theorem Reach.start_makes {t : T} (l : L) {sem' : (c : C) → σ → R c → σ → Prop}
    (hsem' : ∀ (P : Pool T L C R σ) c k r s', P.running t = some (l, .call c k) →
      sem' c P.shared r s' → sem t c P.shared r s' ∧ allow P (.perform t c r))
    {P : Pool T L C R σ} {c : C} {s' : σ} (hallow : allow P (.start t l))
    (hidle : P.running t = none) (h : Prog.Makes sem' (body l) P.shared c s') :
    ∃ P' k, Reach sem body allow P P' ∧ P'.shared = s' ∧ P'.running t = some (l, .call c k) ∧
      ∀ t', t' ≠ t → P'.running t' = P.running t' := by
  have hstart : Reach sem body allow P (P.started t l (body l)) :=
    Reach.refl.step hallow (.start hidle)
  have hrun : (P.started t l (body l)).running t = some (l, body l) := update_self ..
  obtain ⟨P', k, hreach, hshared, hcall, hothers⟩ := Reach.of_makes hsem' hrun h
  refine ⟨P', k, hstart.trans hreach, hshared, hcall, fun t' ht' => ?_⟩
  rw [hothers t' ht']
  exact update_of_ne ht' _ _

end Alone

/-! ### Schedules -/

section Schedule

variable (answer : T → (c : C) → σ → Option (R c × σ))
    (test : Pool T L C R σ → Action T L C R → Bool)

/-- One turn of a thread: an idle one takes up a program, a running one makes its next call or
finishes, where `test` admits it. -/
def turn (P : Pool T L C R σ) (t : T) : Option L → Option (Pool T L C R σ)
  | some l =>
    match P.running t with
    | none => if test P (.start t l) then some (P.started t l (body l)) else none
    | some _ => none
  | none =>
    match P.running t with
    | none => none
    | some (_, .ret ()) =>
      if test P (.finish t) then some ⟨P.shared, update P.running t none⟩ else none
    | some (l, .call c k) =>
      match answer t c P.shared with
      | none => none
      | some (r, s') =>
        if test P (.perform t c r) then some ⟨s', update P.running t (some (l, k r))⟩
        else none

/-- The threads take their turns in the order of the list. -/
def schedule : List (T × Option L) → Pool T L C R σ → Option (Pool T L C R σ)
  | [], P => some P
  | (t, l) :: turns, P =>
    match turn body answer test P t l with
    | none => none
    | some P' => schedule turns P'

variable {sem body answer test} {allow : Pool T L C R σ → Action T L C R → Prop}

section

variable (hanswer : ∀ t c s r s', answer t c s = some (r, s') → sem t c s r s')
  (htest : ∀ P a, test P a = true → allow P a)

include hanswer htest

theorem step_of_turn {P P' : Pool T L C R σ} {t : T} {l : Option L}
    (h : turn body answer test P t l = some P') : ∃ a, allow P a ∧ Step sem body P a P' := by
  unfold turn at h
  split at h
  · split at h
    · next hidle =>
      split_ifs at h with hok
      cases h
      exact ⟨_, htest _ _ hok, .start hidle⟩
    · cases h
  · split at h
    · cases h
    · next hrun =>
      split_ifs at h with hok
      cases h
      exact ⟨_, htest _ _ hok, .finish hrun⟩
    · next hrun =>
      split at h
      · cases h
      · next hr =>
        split_ifs at h with hok
        cases h
        exact ⟨_, htest _ _ hok, .perform hrun (hanswer _ _ _ _ _ hr)⟩

/-- **A schedule is a run.** -/
theorem Reach.of_schedule {turns : List (T × Option L)} {P P' : Pool T L C R σ}
    (h : schedule body answer test turns P = some P') : Reach sem body allow P P' := by
  induction turns generalizing P with
  | nil =>
    cases h
    exact .refl
  | cons turn turns ih =>
    unfold schedule at h
    split at h
    · cases h
    · next P₁ hturn =>
      obtain ⟨a, hallow, hstep⟩ := step_of_turn hanswer htest hturn
      exact (Reach.refl.step hallow hstep).trans (ih h)

end

end Schedule

end Pool

/-! ### Rely and guarantee for pools -/

/-- **What the programs of a pool agree on**: what each thread relies on and
guarantees under each label, a shared invariant, the states in which calls are
assumed to be made and the replies they are assumed to get, the states in which they
are good, and which labels may run at the same time. -/
structure Protocol (T L : Type) {C σ : Type} {R : C → Type}
    (sem : T → (c : C) → σ → R c → σ → Prop) where
  rely : T → L → σ → σ → Prop
  guar : T → L → σ → σ → Prop
  inv : σ → Prop
  assume : T → L → C → σ → Prop
  expects : T → L → (c : C) → R c → Prop
  good : T → L → C → σ → Prop
  compat : L → L → Prop
  rely_refl : ∀ t l s, rely t l s s
  rely_trans : ∀ t l s s₁ s₂, rely t l s s₁ → rely t l s₁ s₂ → rely t l s s₂
  guar_rely : ∀ t t' l l' s s', t ≠ t' → compat l l' → inv s → guar t l s s' → rely t' l' s s'

namespace Protocol

variable {T L C : Type} [DecidableEq T] {R : C → Type} {σ : Type}
  {sem : T → (c : C) → σ → R c → σ → Prop} (pr : Protocol T L sem) {body : L → Prog C R Unit}
  {allow : Pool T L C R σ → Pool.Action T L C R → Prop}

/-- The rest `p` of a program of thread `t` under label `l` follows the protocol. -/
def SafeAt (t : T) (l : L) (p : Prog C R Unit) (s : σ) : Prop :=
  Prog.Safe (fun c s r s' => sem t c s r s' ∧ pr.expects t l c r) (pr.rely t l) (pr.guar t l) pr.inv
    (pr.assume t l) (pr.good t l) p s

/-- Every running program follows the protocol, next to programs it may run with. -/
structure Good (P : Pool T L C R σ) : Prop where
  inv : pr.inv P.shared
  safe : ∀ t l p, P.running t = some (l, p) → pr.SafeAt t l p P.shared
  compat : ∀ t t' l l' p p', t ≠ t' → P.running t = some (l, p) → P.running t' = some (l', p') →
    pr.compat l l'

/-- `allow` enforces the protocol: a program is started only where it follows it and
next to programs it may run with, calls are made only where `assume` holds, and get
only replies that `expects` holds of. -/
structure Governs (body : L → Prog C R Unit)
    (allow : Pool T L C R σ → Pool.Action T L C R → Prop) : Prop where
  start : ∀ P t l, pr.inv P.shared → allow P (.start t l) → pr.SafeAt t l (body l) P.shared
  compat : ∀ P t l t' l' p', allow P (.start t l) → P.running t' = some (l', p') →
    pr.compat l l' ∧ pr.compat l' l
  assume : ∀ P t l c k r, allow P (.perform t c r) → P.running t = some (l, .call c k) →
    pr.assume t l c P.shared ∧ pr.expects t l c r

variable {pr}

theorem Good.step (hgov : pr.Governs body allow) {P P' : Pool T L C R σ} {a : Pool.Action T L C R}
    (hP : pr.Good P) (hallow : allow P a) (hstep : Pool.Step sem body P a P') : pr.Good P' := by
  cases hstep with
  | @start t l hidle =>
    refine ⟨hP.inv, fun t' l' p' h' => ?_, fun t₁ t₂ l₁ l₂ p₁ p₂ hne h₁ h₂ => ?_⟩
    · by_cases ht : t' = t
      · subst ht
        obtain ⟨rfl, rfl⟩ : l = l' ∧ body l = p' := by simpa using h'
        exact hgov.start P t' l hP.inv hallow
      · exact hP.safe t' l' p' (by simpa [ht] using h')
    · by_cases ht₁ : t₁ = t
      · subst ht₁
        obtain ⟨rfl, -⟩ : l = l₁ ∧ body l = p₁ := by simpa using h₁
        exact (hgov.compat P t₁ l t₂ l₂ p₂ hallow (by simpa [hne.symm] using h₂)).1
      · by_cases ht₂ : t₂ = t
        · subst ht₂
          obtain ⟨rfl, -⟩ : l = l₂ ∧ body l = p₂ := by simpa using h₂
          exact (hgov.compat P t₂ l t₁ l₁ p₁ hallow (by simpa [ht₁] using h₁)).2
        · exact hP.compat t₁ t₂ l₁ l₂ p₁ p₂ hne (by simpa [ht₁] using h₁) (by simpa [ht₂] using h₂)
  | @perform t l c k r s' hrun hsem =>
    obtain ⟨hassume, hadmit⟩ := hgov.assume P t l c k r hallow hrun
    obtain ⟨-, hnext⟩ := hP.safe t l _ hrun P.shared (pr.rely_refl t l P.shared) hP.inv hassume
    obtain ⟨hinv, hguar, hsafe⟩ := hnext r s' ⟨hsem, hadmit⟩
    refine ⟨hinv, fun t' l' p' h' => ?_, fun t₁ t₂ l₁ l₂ p₁ p₂ hne h₁ h₂ => ?_⟩
    · by_cases ht : t' = t
      · subst ht
        obtain ⟨rfl, rfl⟩ : l = l' ∧ k r = p' := by simpa using h'
        exact hsafe
      · have hother : P.running t' = some (l', p') := by simpa [ht] using h'
        have hcomp := hP.compat t t' l l' _ _ (Ne.symm ht) hrun hother
        exact (hP.safe t' l' p' hother).stable (pr.rely_trans t' l')
          (pr.guar_rely t t' l l' _ _ (Ne.symm ht) hcomp hP.inv hguar)
    · have hlabel : ∀ t' l' p', update P.running t (some (l, k r)) t' = some (l', p') →
          ∃ p, P.running t' = some (l', p) := by
        intro t' l' p' h
        by_cases ht : t' = t
        · subst ht
          obtain ⟨rfl, -⟩ : l = l' ∧ k r = p' := by simpa using h
          exact ⟨_, hrun⟩
        · exact ⟨p', by simpa [ht] using h⟩
      obtain ⟨q₁, hq₁⟩ := hlabel t₁ l₁ p₁ h₁
      obtain ⟨q₂, hq₂⟩ := hlabel t₂ l₂ p₂ h₂
      exact hP.compat t₁ t₂ l₁ l₂ q₁ q₂ hne hq₁ hq₂
  | @finish t l hrun =>
    have hother : ∀ t' l' p', update P.running t none t' = some (l', p') →
        P.running t' = some (l', p') := by
      intro t' l' p' h
      by_cases ht : t' = t
      · subst ht
        simp at h
      · simpa [ht] using h
    exact ⟨hP.inv, fun t' l' p' h' => hP.safe t' l' p' (hother t' l' p' h'),
      fun t₁ t₂ l₁ l₂ p₁ p₂ hne h₁ h₂ =>
        hP.compat t₁ t₂ l₁ l₂ p₁ p₂ hne (hother t₁ l₁ p₁ h₁) (hother t₂ l₂ p₂ h₂)⟩

omit [DecidableEq T] in
/-- Nothing is running. -/
theorem Good.idle {s : σ} (hs : pr.inv s) : pr.Good ⟨s, fun _ => none⟩ where
  inv := hs
  safe _ _ _ h := by cases h
  compat _ _ _ _ _ _ _ h := by cases h

/-- **Whole runs follow the protocol.** -/
theorem good_of_reach (hgov : pr.Governs body allow) {P₀ P : Pool T L C R σ} (h₀ : pr.Good P₀)
    (h : Pool.Reach sem body allow P₀ P) : pr.Good P := by
  induction h with
  | refl => exact h₀
  | step _ hallow hstep ih => exact ih.step hgov hallow hstep

end Protocol
end UbsMem
