import UbsMem.Machine
import UbsMem.Monitor

/-! # The queue of delayed removals and its rounds

`RemoveDelayBorrows` takes the keys that have expired, cleans up each of them without holding
the mutex of the queue, takes the key out of the two sets after its clean-up, and puts the keys
whose clean-up has failed back when all of them are done.  Handlers and recovery add keys at
any point in between; whether a name is busy is read from the set ordered by name.

A name whose clean-up has failed is not busy until the round is over, and a name that is queued
twice loses its mark when the first of its keys is taken out, while the second key stays
(`busy_name_forgotten`).  If a name is added only while it is not busy, and no clean-up fails,
a name is busy from the moment it is added until a clean-up of it has succeeded, and the two
sets hold the same names (`busy_until_cleaned`).
-/
namespace UbsMem

open List Function

def maxDelayTimeMs : Nat := 60 * oneMinuteMs

/-- `LinearDelayMs` at the steady clock's time `now`, in 64 bits. -/
def linearDelayMs (now retryTimes stepMs maxDelayMs : Nat) : Nat :=
  let delay :=
    if retryTimes > 0 then
      if stepMs > (2 ^ 64 - 1) / retryTimes then 2 ^ 64 - 1
      else if now > 2 ^ 64 - 1 - stepMs * retryTimes then 2 ^ 64 - 1
      else now + stepMs * retryTimes
    else now
  min delay ((maxDelayMs + now) % 2 ^ 64)

/-- Where the thread of the monitor is: outside a round, before the clean-up of the next key,
or after a clean-up that has returned `ret`.  The keys that are left, and those whose clean-up
has failed. -/
inductive DelayRound
  | idle
  | cleaning (todo failed : List DelayRemovedKey)
  | cleaned (key : DelayRemovedKey) (ret : Int) (todo failed : List DelayRemovedKey)

/-- The queue, the thread of the monitor, and for each name whether it has been added and no
clean-up of it has succeeded since. -/
structure DelayQueue where
  monitor : Monitor
  round : DelayRound
  owed : Name → Bool

/-- What happens to the queue between two releases of its mutex, or in a clean-up. -/
inductive DelayEvent
  | add (key : DelayRemovedKey)
  | collect (now : Nat)
  | cleanup (ret : Int)
  | erase (now : Nat)
  | putBack

namespace DelayQueue

/-- Nothing is queued. -/
def empty : DelayQueue := ⟨.empty, .idle, fun _ => false⟩

/-- `AddDelayRemoveRecord`. -/
def add (key : DelayRemovedKey) (s : DelayQueue) : DelayQueue :=
  { s with
    monitor := s.monitor.addDelayRemoveRecord key
    owed := update s.owed key.name true }

/-- **The steps of the queue.**  `collect` is the first part of `RemoveDelayBorrows`, which
takes the keys that have expired; `cleanup` is a call of the cleaner; `erase` is the part after
it, and `putBack` one turn of the loop at the end. -/
def step (s : DelayQueue) : DelayEvent → Option DelayQueue
  | .add key => some (s.add key)
  | .collect now =>
    match s.round with
    | .idle =>
      if s.monitor.delayedRemoveKeys = [] then some s
      else
        let expired := s.monitor.delayedRemoveKeys.filter fun key => key.expiresTime ≤ now
        some { s with round := .cleaning expired [] }
    | _ => none
  | .cleanup ret =>
    match s.round with
    | .cleaning (key :: todo) failed =>
      some { s with
        round := .cleaned { key with retryTimes := key.retryTimes + 1 } ret todo failed
        owed := if ret = 0 then update s.owed key.name false else s.owed }
    | _ => none
  | .erase now =>
    match s.round with
    | .cleaned key ret todo failed =>
      let retry :=
        { key with expiresTime := linearDelayMs now key.retryTimes oneMinuteMs maxDelayTimeMs }
      some { s with
        monitor := s.monitor.eraseKey key
        round := .cleaning todo (if ret ≠ 0 then failed ++ [retry] else failed) }
    | _ => none
  | .putBack =>
    match s.round with
    | .cleaning [] (key :: failed) => some { s.add key with round := .cleaning [] failed }
    | .cleaning [] [] => some { s with round := .idle }
    | _ => none

/-- The runs in which a name is added only while it is not busy, and no clean-up fails. -/
def Allowed (s : DelayQueue) : DelayEvent → Prop
  | .add key => s.monitor.getDelayRemoveRecord key.name = false
  | .cleanup ret => ret = 0
  | _ => True

/-! ### The invariant -/

/-- The keys of a round are in the queue, each under a name of its own. -/
structure Working (monitor : Monitor) (todo : List DelayRemovedKey) : Prop where
  distinct : todo.Pairwise fun k k' => k.name ≠ k'.name
  queued : ∀ k ∈ todo, ∃ k' ∈ monitor.delayedRemoveKeys,
    k'.name = k.name ∧ k'.expiresTime = k.expiresTime

/-- What a round says about the queue. -/
def RoundInv (monitor : Monitor) (owed : Name → Bool) : DelayRound → Prop
  | .idle => True
  | .cleaning todo failed => failed = [] ∧ Working monitor todo
  | .cleaned key ret todo failed =>
    ret = 0 ∧ failed = [] ∧ owed key.name = false ∧ Working monitor (key :: todo)

/-- **The invariant**: the two sets hold the same names, each once, and every name that is owed
is among them. -/
structure Inv (s : DelayQueue) : Prop where
  same : ∀ n, (∃ k ∈ s.monitor.delayedRemoveKeys, k.name = n) ↔
    ∃ k ∈ s.monitor.delayedRemoveKeysByName, k.name = n
  distinct : s.monitor.delayedRemoveKeys.Pairwise fun k k' => k.name ≠ k'.name
  busy : ∀ n, s.owed n = true → ∃ k ∈ s.monitor.delayedRemoveKeysByName, k.name = n
  round : RoundInv s.monitor s.owed s.round

theorem inv_empty : empty.Inv := by
  refine ⟨fun n => Iff.rfl, .nil, fun n h => ?_, trivial⟩
  cases h

variable {s s' : DelayQueue} {todo : List DelayRemovedKey} {key : DelayRemovedKey}

theorem Working.add {monitor : Monitor} (h : Working monitor todo) (key : DelayRemovedKey) :
    Working (monitor.addDelayRemoveRecord key) todo := by
  refine ⟨h.distinct, fun k hk => ?_⟩
  obtain ⟨k', hk', heq⟩ := h.queued k hk
  exact ⟨k', Monitor.mem_addDelayRemoveRecord.mpr (.inl hk'), heq⟩

theorem Inv.add (h : s.Inv) (hfree : s.monitor.getDelayRemoveRecord key.name = false) :
    (s.add key).Inv := by
  have hnone : ∀ y ∈ s.monitor.delayedRemoveKeysByName, key.name ≠ y.name := by
    intro y hy heq
    have hbusy := Monitor.getDelayRemoveRecord_iff.mpr ⟨y, hy, heq.symm⟩
    rw [hfree] at hbusy
    cases hbusy
  have hnone' : ∀ y ∈ s.monitor.delayedRemoveKeys, key.name ≠ y.name := by
    intro y hy heq
    obtain ⟨k, hk, hname⟩ := (h.same y.name).mp ⟨y, hy, rfl⟩
    exact hnone k hk (heq.trans hname.symm)
  have hkeys : ∀ k, k ∈ (s.monitor.addDelayRemoveRecord key).delayedRemoveKeys ↔
      k ∈ s.monitor.delayedRemoveKeys ∨ k = key := by
    intro k
    rw [Monitor.mem_addDelayRemoveRecord, and_iff_left fun y hy heq => hnone' y hy heq.2]
  have hnames : ∀ k, k ∈ (s.monitor.addDelayRemoveRecord key).delayedRemoveKeysByName ↔
      k ∈ s.monitor.delayedRemoveKeysByName ∨ k = key := by
    intro k
    rw [Monitor.mem_addDelayRemoveRecord_byName, and_iff_left hnone]
  refine ⟨fun n => ?_, ?_, fun n hn => ?_, ?_⟩
  · simp only [DelayQueue.add, hkeys, hnames, or_and_right, exists_or, h.same n]
  · exact pairwise_setInsert _ (fun _ _ hne => hne.symm) h.distinct hnone'
  · simp only [DelayQueue.add, hnames, or_and_right, exists_or, exists_eq_left]
    by_cases heq : n = key.name
    · exact .inr heq.symm
    · dsimp only [DelayQueue.add] at hn
      rw [update_of_ne heq] at hn
      exact .inl (h.busy n hn)
  · have hround := h.round
    unfold DelayQueue.add
    dsimp only
    cases hcase : s.round with
    | idle => trivial
    | cleaning todo failed =>
      rw [hcase] at hround
      exact ⟨hround.1, hround.2.add key⟩
    | cleaned k ret todo failed =>
      rw [hcase] at hround
      obtain ⟨hret, hfailed, howed, hwork⟩ := hround
      refine ⟨hret, hfailed, ?_, hwork.add key⟩
      -- the key that was cleaned is still queued, so the one that is added has another name
      obtain ⟨k', hk', hname, -⟩ := hwork.queued k mem_cons_self
      have hne : k.name ≠ key.name := fun heq => hnone' k' hk' (heq.symm.trans hname.symm)
      rw [update_of_ne hne]
      exact howed

theorem Inv.collect (h : s.Inv) (now : Nat) :
    Working s.monitor (s.monitor.delayedRemoveKeys.filter fun key => key.expiresTime ≤ now) := by
  refine ⟨h.distinct.filter _, fun k hk => ?_⟩
  exact ⟨k, mem_of_mem_filter hk, rfl, rfl⟩

/-- The key of a clean-up that has succeeded is the only one of its name. -/
theorem Inv.erase (h : s.Inv) (howed : s.owed key.name = false)
    (hwork : Working s.monitor (key :: todo)) :
    Inv ⟨s.monitor.eraseKey key, .cleaning todo [], s.owed⟩ := by
  obtain ⟨k₀, hk₀, hname₀, htime₀⟩ := hwork.queued key mem_cons_self
  obtain ⟨hfirst, hrest⟩ := pairwise_cons.mp hwork.distinct
  have hunique : ∀ k ∈ s.monitor.delayedRemoveKeys, k.name = key.name → k = k₀ := by
    intro k hk hname
    by_contra hne
    have : Std.Symm fun k k' : DelayRemovedKey => k.name ≠ k'.name := ⟨fun _ _ => Ne.symm⟩
    exact h.distinct.forall hk hk₀ hne (hname.trans hname₀.symm)
  have hkeys : ∀ k, k ∈ (s.monitor.eraseKey key).delayedRemoveKeys ↔
      k ∈ s.monitor.delayedRemoveKeys ∧ k.name ≠ key.name := by
    intro k
    rw [Monitor.mem_eraseKey]
    refine and_congr_right fun hk => not_congr ⟨fun heq => heq.2.symm, fun hname => ?_⟩
    obtain rfl := hunique k hk hname
    exact ⟨htime₀.symm, hname₀.symm⟩
  have hnames : ∀ k, k ∈ (s.monitor.eraseKey key).delayedRemoveKeysByName ↔
      k ∈ s.monitor.delayedRemoveKeysByName ∧ k.name ≠ key.name := by
    intro k
    rw [Monitor.mem_eraseKey_byName, ne_comm]
  refine ⟨fun n => ?_, h.distinct.filter _, fun n hn => ?_, rfl, hrest, fun k hk => ?_⟩
  · constructor
    · rintro ⟨k, hk, rfl⟩
      obtain ⟨hmem, hne⟩ := (hkeys k).mp hk
      obtain ⟨k', hk', hname⟩ := (h.same k.name).mp ⟨k, hmem, rfl⟩
      exact ⟨k', (hnames k').mpr ⟨hk', hname ▸ hne⟩, hname⟩
    · rintro ⟨k, hk, rfl⟩
      obtain ⟨hmem, hne⟩ := (hnames k).mp hk
      obtain ⟨k', hk', hname⟩ := (h.same k.name).mpr ⟨k, hmem, rfl⟩
      exact ⟨k', (hkeys k').mpr ⟨hk', hname ▸ hne⟩, hname⟩
  · obtain ⟨k, hk, rfl⟩ := h.busy n hn
    refine ⟨k, (hnames k).mpr ⟨hk, fun heq => ?_⟩, rfl⟩
    rw [heq, howed] at hn
    cases hn
  · obtain ⟨k', hk', hname, htime⟩ := hwork.queued k (.tail _ hk)
    refine ⟨k', (hkeys k').mpr ⟨hk', fun heq => ?_⟩, hname, htime⟩
    exact hfirst k hk (heq.symm.trans hname)

theorem Inv.step (h : s.Inv) {e : DelayEvent} (hallow : s.Allowed e) (hstep : s.step e = some s') :
    s'.Inv := by
  have hround := h.round
  cases e with
  | add key =>
    cases hstep
    exact h.add hallow
  | collect now =>
    simp only [DelayQueue.step] at hstep
    split at hstep
    · split_ifs at hstep
      · cases hstep
        exact h
      · cases hstep
        exact ⟨h.same, h.distinct, h.busy, rfl, h.collect now⟩
    · cases hstep
  | cleanup ret =>
    obtain rfl : ret = 0 := hallow
    simp only [DelayQueue.step, if_true] at hstep
    split at hstep
    · next key todo failed hcase =>
      cases hstep
      rw [hcase] at hround
      obtain ⟨hfailed, hwork⟩ := hround
      refine ⟨h.same, h.distinct, fun n hn => ?_, rfl, hfailed, update_self .., ?_⟩
      · dsimp only at hn
        by_cases heq : n = key.name
        · subst heq
          rw [update_self] at hn
          cases hn
        · rw [update_of_ne heq] at hn
          exact h.busy n hn
      · obtain ⟨hfirst, hrest⟩ := pairwise_cons.mp hwork.distinct
        refine ⟨pairwise_cons.mpr ⟨hfirst, hrest⟩, fun k hk => ?_⟩
        rcases mem_cons.mp hk with rfl | hk
        · exact hwork.queued key mem_cons_self
        · exact hwork.queued k (.tail _ hk)
    · cases hstep
  | erase now =>
    simp only [DelayQueue.step] at hstep
    split at hstep
    · next key ret todo failed hcase =>
      cases hstep
      rw [hcase] at hround
      obtain ⟨rfl, rfl, howed, hwork⟩ := hround
      exact h.erase howed hwork
    · cases hstep
  | putBack =>
    simp only [DelayQueue.step] at hstep
    split at hstep
    · next key failed hcase =>
      rw [hcase] at hround
      cases hround.1
    · cases hstep
      exact { h with round := trivial }
    · cases hstep

end DelayQueue

/-- **A name is busy from the moment it is queued until a clean-up of it has succeeded**, and the
two sets hold the same names, in every run in which a name is added only while it is not busy
and no clean-up fails. -/
theorem busy_until_cleaned {s : DelayQueue}
    (hreach : Reaches DelayQueue.step DelayQueue.Allowed .empty s) (name : Name) :
    (s.owed name = true → s.monitor.getDelayRemoveRecord name = true) ∧
      ((∃ k ∈ s.monitor.delayedRemoveKeys, k.name = name) ↔
        ∃ k ∈ s.monitor.delayedRemoveKeysByName, k.name = name) := by
  have hinv : s.Inv := hreach.invariant DelayQueue.inv_empty fun _ _ _ h hallow hstep =>
    h.step hallow hstep
  exact ⟨fun h => Monitor.getDelayRemoveRecord_iff.mpr (hinv.busy name h), hinv.same name⟩

/-- A removal of the lease `a` that expires at the time `expires`. -/
def delayedLease (expires : Nat) : DelayRemovedKey :=
  DelayRemovedKey.make 0 [97] expires true ⟨1, 0, 0⟩ false false true

/-- `Allowed`, as a test. -/
def DelayQueue.allowedTest (s : DelayQueue) : DelayEvent → Bool
  | .add key => !s.monitor.getDelayRemoveRecord key.name
  | .cleanup ret => ret == 0
  | _ => true

theorem DelayQueue.allowed_of_test (s : DelayQueue) (e : DelayEvent)
    (h : s.allowedTest e = true) : s.Allowed e := by
  cases e with
  | add key => exact (Bool.not_eq_true' _).mp h
  | cleanup ret => exact eq_of_beq h
  | _ => trivial

/-- The lease has been cleaned up and is queued a second time. -/
def queuedAgain : DelayQueue :=
  (execute DelayQueue.step DelayQueue.allowedTest .empty
    [.add (delayedLease 5), .collect 6, .cleanup 0, .erase 7, .putBack, .add (delayedLease 9)]).getD
    .empty

theorem busy_until_cleaned_again :
    queuedAgain.owed [97] = true ∧ queuedAgain.monitor.getDelayRemoveRecord [97] = true ∧
      ((∃ k ∈ queuedAgain.monitor.delayedRemoveKeys, k.name = [97]) ↔
        ∃ k ∈ queuedAgain.monitor.delayedRemoveKeysByName, k.name = [97]) := by
  have hexec : execute DelayQueue.step DelayQueue.allowedTest .empty
      [.add (delayedLease 5), .collect 6, .cleanup 0, .erase 7, .putBack,
        .add (delayedLease 9)] = some queuedAgain := rfl
  have hreach := Reaches.of_execute DelayQueue.allowed_of_test .refl hexec
  have howed : queuedAgain.owed [97] = true := rfl
  obtain ⟨hbusy, hsame⟩ := busy_until_cleaned hreach [97]
  exact ⟨howed, hbusy howed, hsame⟩

/-- The clean-up of the lease has failed, and its key is not yet put back. -/
def failedCleanup : DelayQueue :=
  (execute DelayQueue.step (fun _ _ => true) .empty
    [.add (delayedLease 5), .collect 6, .cleanup (-1), .erase 7]).getD .empty

/-- The lease was queued twice, and the first of its keys has been taken out. -/
def queuedTwice : DelayQueue :=
  (execute DelayQueue.step (fun _ _ => true) .empty
    [.add (delayedLease 5), .add (delayedLease 9), .collect 6, .cleanup 0, .erase 7]).getD .empty

/-- **The queue forgets a busy name.**  A lease whose clean-up has failed is not busy until the
end of the round.  A lease that was queued twice is still among the keys after its first
clean-up, and no longer among the names. -/
theorem busy_name_forgotten :
    (Reaches DelayQueue.step (fun _ _ => True) .empty failedCleanup ∧
      failedCleanup.owed [97] = true ∧
      failedCleanup.monitor.getDelayRemoveRecord [97] = false) ∧
    (Reaches DelayQueue.step (fun _ _ => True) .empty queuedTwice ∧
      (∃ k ∈ queuedTwice.monitor.delayedRemoveKeys, k.name = [97]) ∧
      ¬ ∃ k ∈ queuedTwice.monitor.delayedRemoveKeysByName, k.name = [97]) := by
  have hfailed : execute DelayQueue.step (fun _ _ => true) .empty
      [.add (delayedLease 5), .collect 6, .cleanup (-1), .erase 7] = some failedCleanup := rfl
  have htwice : execute DelayQueue.step (fun _ _ => true) .empty
      [.add (delayedLease 5), .add (delayedLease 9), .collect 6, .cleanup 0, .erase 7] =
        some queuedTwice := rfl
  refine ⟨⟨.of_execute (fun _ _ _ => trivial) .refl hfailed, rfl, rfl⟩,
    .of_execute (fun _ _ _ => trivial) .refl htwice, ⟨delayedLease 9, ?_, rfl⟩, ?_⟩
  · exact mem_singleton_self _
  · rintro ⟨k, hk, -⟩
    cases hk

end UbsMem
