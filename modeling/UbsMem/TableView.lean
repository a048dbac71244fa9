import UbsMem.NamedTable

/-! # A table of records as a map

A table keeps its records in slots, beside a stack of idle slots and an index from names
to slots.  As long as the slots of the index are different from each other and from
the idle ones (`TableSlots`), what the table holds is a map from names to records
(`tableView`), and an operation on a slot changes that map at one name.
-/
namespace UbsMem

open Function AList Option List

section TableView

variable {F R : Type}

/-- The record of a name: what `conv` makes of its fields and of its memory ids. -/
def tableView (conv : Name → F → List UInt64 → R) (t : Nat → Named F)
    (cache : Map Name WithMemIdsRecord) (name : Name) : Option R :=
  (cache.lookup name).map fun e => conv name (t e.slot).fields e.memIds

/-- The slots of the index are different from each other and from the idle ones. -/
structure TableSlots (idle : List Nat) (cache : Map Name WithMemIdsRecord) : Prop where
  nodup : idle.Nodup
  busy : ∀ n e, cache.lookup n = some e → e.slot ∉ idle
  distinct : ∀ n n' e e', cache.lookup n = some e → cache.lookup n' = some e' →
    e.slot = e'.slot → n = n'

variable {conv : Name → F → List UInt64 → R} {t : Nat → Named F} {idle : List Nat}
  {cache cache' : Map Name WithMemIdsRecord} {name : Name} {e : WithMemIdsRecord}

theorem TableInv.slots {capacity : Nat} {ids : Nat → List UInt64}
    (h : TableInv capacity t idle cache ids) : TableSlots idle cache := by
  refine ⟨h.nodup, fun n e he hidle => ?_, fun n n' e e' he he' hslot => ?_⟩
  · have hlive := ((h.cached n e).mp he).2.1
    rw [((h.idle e.slot).mp hidle).2] at hlive
    cases hlive
  · rw [← ((h.cached n e).mp he).2.2.1, ← ((h.cached n' e').mp he').2.2.1, hslot]

theorem tableView_of_lookup (h : cache.lookup name = some e) :
    tableView conv t cache name = some (conv name (t e.slot).fields e.memIds) := by
  simp [tableView, h]

section

variable (h : TableSlots idle cache)

include h

/-- A record is written in its slot, and its entry in the index stays in that slot. -/
theorem TableSlots.change (hfound : cache.lookup name = some e) (r : Named F) {memIds : List UInt64}
    (hcached : ∀ n, cache'.lookup n = if n = name then some ⟨e.slot, memIds⟩ else cache.lookup n) :
    TableSlots idle cache' ∧ tableView conv (update t e.slot r) cache' =
      update (tableView conv t cache) name (some (conv name r.fields memIds)) := by
  have hslot : ∀ n e', cache'.lookup n = some e' →
      ∃ e'', cache.lookup n = some e'' ∧ e''.slot = e'.slot := by
    intro n e' he'
    rw [hcached] at he'
    split_ifs at he' with hn
    · cases he'
      exact ⟨e, hn ▸ hfound, rfl⟩
    · exact ⟨e', he', rfl⟩
  refine ⟨⟨h.nodup, fun n e' he' => ?_, fun n n' e₁ e₂ he₁ he₂ heq => ?_⟩, ?_⟩
  · obtain ⟨e'', hold, hsame⟩ := hslot n e' he'
    rw [← hsame]
    exact h.busy n e'' hold
  · obtain ⟨e₁', hold₁, hsame₁⟩ := hslot n e₁ he₁
    obtain ⟨e₂', hold₂, hsame₂⟩ := hslot n' e₂ he₂
    exact h.distinct n n' e₁' e₂' hold₁ hold₂ (by rw [hsame₁, hsame₂, heq])
  · funext n
    unfold tableView
    rw [hcached]
    by_cases hn : n = name
    · subst hn
      simp
    · rw [if_neg hn, update_of_ne hn]
      refine map_congr fun e' he' => ?_
      have hne : e'.slot ≠ e.slot := fun heq => hn (h.distinct n name e' e he' hfound heq)
      rw [update_of_ne hne]

/-- A slot that is not in use is written. -/
theorem TableSlots.scratch {slot : Nat} (hslot : slot ∈ idle) (r : Named F) :
    tableView conv (update t slot r) cache = tableView conv t cache := by
  funext n
  refine map_congr fun e he => ?_
  have hne : e.slot ≠ slot := fun heq => h.busy n e he (heq ▸ hslot)
  rw [update_of_ne hne]

/-- A record is written in the slot on top of the stack. -/
theorem TableSlots.occupy {slot : Nat} (hlast : idle.getLast? = some slot) (name : Name)
    (r : Named F) :
    TableSlots idle.dropLast (cache.insert name ⟨slot, []⟩) ∧
      tableView conv (update t slot r) (cache.insert name ⟨slot, []⟩) =
        update (tableView conv t cache) name (some (conv name r.fields [])) := by
  have hmem : slot ∈ idle := mem_of_getLast? hlast
  have hnodup : (idle.dropLast ++ [slot]).Nodup := by
    rw [dropLast_append_getLast? slot hlast]
    exact h.nodup
  have hfree : slot ∉ idle.dropLast := fun hslot =>
    disjoint_of_nodup_append hnodup hslot (mem_singleton_self _)
  have hcases : ∀ n e, (cache.insert name ⟨slot, []⟩).lookup n = some e →
      n = name ∧ e.slot = slot ∨ n ≠ name ∧ cache.lookup n = some e ∧ e.slot ≠ slot := by
    intro n e he
    by_cases hn : n = name
    · subst hn
      rw [lookup_insert] at he
      cases he
      exact .inl ⟨rfl, rfl⟩
    · rw [lookup_insert_ne hn] at he
      exact .inr ⟨hn, he, fun heq => h.busy n e he (heq ▸ hmem)⟩
  refine ⟨⟨hnodup.of_append_left, fun n e he => ?_, fun n n' e e' he he' heq => ?_⟩, ?_⟩
  · rcases hcases n e he with ⟨-, hslot⟩ | ⟨-, hold, -⟩
    · exact hslot ▸ hfree
    · exact fun hin => h.busy n e hold (dropLast_subset _ hin)
  · rcases hcases n e he with ⟨hn, hslot⟩ | ⟨-, hold, hslot⟩
    · rcases hcases n' e' he' with ⟨hn', -⟩ | ⟨-, -, hslot'⟩
      · rw [hn, hn']
      · exact absurd (heq.symm.trans hslot) hslot'
    · rcases hcases n' e' he' with ⟨-, hslot'⟩ | ⟨-, hold', -⟩
      · exact absurd (heq.trans hslot') hslot
      · exact h.distinct n n' e e' hold hold' heq
  · funext n
    unfold tableView
    by_cases hn : n = name
    · subst hn
      simp
    · rw [lookup_insert_ne hn, update_of_ne hn]
      refine map_congr fun e he => ?_
      have hne : e.slot ≠ slot := fun heq => h.busy n e he (heq ▸ hmem)
      rw [update_of_ne hne]

/-- A record is cleared and its slot given back. -/
theorem TableSlots.vacate (hfound : cache.lookup name = some e) (r : Named F) :
    TableSlots (idle ++ [e.slot]) (cache.erase name) ∧
      tableView conv (update t e.slot r) (cache.erase name) =
        update (tableView conv t cache) name none := by
  have hcases : ∀ n e', (cache.erase name).lookup n = some e' →
      n ≠ name ∧ cache.lookup n = some e' := by
    intro n e' he'
    by_cases hn : n = name
    · subst hn
      rw [lookup_erase] at he'
      cases he'
    · rw [lookup_erase_ne hn] at he'
      exact ⟨hn, he'⟩
  refine ⟨⟨?_, fun n e' he' => ?_, fun n n' e₁ e₂ he₁ he₂ heq => ?_⟩, ?_⟩
  · exact List.Nodup.append h.nodup (nodup_singleton _)
      (disjoint_singleton.mpr (h.busy name e hfound))
  · obtain ⟨hn, hold⟩ := hcases n e' he'
    rw [mem_append, mem_singleton]
    rintro (hin | heq)
    · exact h.busy n e' hold hin
    · exact hn (h.distinct n name e' e hold hfound heq)
  · exact h.distinct n n' e₁ e₂ (hcases n e₁ he₁).2 (hcases n' e₂ he₂).2 heq
  · funext n
    unfold tableView
    by_cases hn : n = name
    · subst hn
      simp
    · rw [lookup_erase_ne hn, update_of_ne hn]
      refine map_congr fun e' he' => ?_
      have hne : e'.slot ≠ e.slot := fun heq => hn (h.distinct n name e' e he' hfound heq)
      rw [update_of_ne hne]

end

/-- The index stays. -/
theorem lookup_same (hfound : cache.lookup name = some e) (n : Name) :
    cache.lookup n = if n = name then some ⟨e.slot, e.memIds⟩ else cache.lookup n := by
  split_ifs with hn
  · rw [hn, hfound]
  · rfl

/-- The entry of a name gets other memory ids. -/
theorem lookup_insert_same (memIds : List UInt64) (n : Name) :
    (cache.insert name ⟨e.slot, memIds⟩).lookup n =
      if n = name then some ⟨e.slot, memIds⟩ else cache.lookup n := by
  split_ifs with hn
  · rw [hn, lookup_insert]
  · rw [lookup_insert_ne hn]

end TableView

end UbsMem
