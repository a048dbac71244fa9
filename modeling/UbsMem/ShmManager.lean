import Mathlib.Logic.Relation
import UbsMem.CommonTypes

/-! # The manager of attached shared memories

`SHMManager` keeps one `AttachedShareMemory` per attached name: its state, the set
of processes registered as its users and what the attach returned.  Every change
goes to the persistent record store first; when the store refuses, the manager
reports an error and leaves its own map as it was.

The manager is written over any record store (`ShmRecords`): each of the six store
operations it uses is a function that returns a code and the new store.
-/
namespace UbsMem

open Function

structure ShareMemImportResult where
  memIds : List UInt64
  unitSize : Nat
  createFlags : UInt64
  openFlag : Int
  ownerUserId : Nat
  ownerGroupId : Nat
  deriving DecidableEq

/-- A result that has not been filled in. -/
def ShareMemImportResult.empty : ShareMemImportResult := ⟨[], 0, 0, 0, 0, 0⟩

/-- `AttachedShareMemory`; `pids` is a set, in the order of registration. -/
structure AttachedShareMemory where
  name : Name
  size : Nat
  state : RecordState
  pids : List Nat
  result : ShareMemImportResult
  deriving DecidableEq

/-- The operations of the record store that the manager uses. -/
structure ShmRecords (S : Type) where
  addShmImportInput : Name → Nat → Nat → S → Int × S
  addShmImportResult : Name → ShareMemImportResult → S → Int × S
  updateShmImportRecordState : Name → RecordState → S → Int × S
  delShmImportRecord : Name → S → Int × S
  addShmRefRecord : Nat → Name → S → Int × S
  delShmRefRecord : Nat → Name → S → Int × S

/-- `SHMManager`, with the record store it writes to. -/
structure ShmManager (S : Type) where
  attachedShareMemory : Map Name AttachedShareMemory
  store : S

namespace ShmManager

variable {S : Type} (rs : ShmRecords S)

/-- The entry of a name. -/
def find (m : ShmManager S) (name : Name) : Option AttachedShareMemory :=
  m.attachedShareMemory.lookup name

/-- The processes registered for a name. -/
def users (m : ShmManager S) (name : Name) : List Nat :=
  match m.find name with
  | none => []
  | some memory => memory.pids

/-- Replace or add the entry of a name. -/
def put (m : ShmManager S) (name : Name) (memory : AttachedShareMemory) : ShmManager S :=
  { m with attachedShareMemory := m.attachedShareMemory.insert name memory }

/-- Remove the entry of a name. -/
def erase (m : ShmManager S) (name : Name) : ShmManager S :=
  { m with attachedShareMemory := m.attachedShareMemory.erase name }

/-- The manager after a change of the store. -/
def withStore (m : ShmManager S) (store : S) : ShmManager S := { m with store := store }

def addMemoryUserInfo (name : Name) (pid : Nat) (m : ShmManager S) : Int × ShmManager S :=
  match m.find name with
  | none => (mxmErrShmNotFound, m)
  | some memory =>
    let r := rs.addShmRefRecord pid name m.store
    if r.1 ≠ 0 then (mxmErrShmNotFound, m.withStore r.2)
    else (ubsmOk, (m.withStore r.2).put name { memory with pids := memory.pids.insert pid })

def removeMemoryUserInfo (name : Name) (pid : Nat) (m : ShmManager S) : Int × ShmManager S :=
  match m.find name with
  | none => (mxmErrShmNotFound, m)
  | some memory =>
    if pid ∉ memory.pids then (mxmErrShmNotFound, m)
    else
      let r := rs.delShmRefRecord pid name m.store
      if r.1 ≠ 0 then (mxmErrShmNotFound, m.withStore r.2)
      else (ubsmOk, (m.withStore r.2).put name { memory with pids := memory.pids.erase pid })

def prepareAddShareMemoryInfo (name : Name) (size pid : Nat) (m : ShmManager S) :
    Int × ShmManager S :=
  match m.find name with
  | some _ => (mxmErrShmAlreadyExist, m)
  | none =>
    let r := rs.addShmImportInput name size pid m.store
    if r.1 ≠ 0 then (mxmErrRecordAdd, m.withStore r.2)
    else
      (ubsmOk, (m.withStore r.2).put name ⟨name, size, .preAdd, [], ShareMemImportResult.empty⟩)

def addFullShareMemoryInfo (name : Name) (pid : Nat) (result : ShareMemImportResult)
    (m : ShmManager S) : Int × ShmManager S :=
  match m.find name with
  | none => (mxmErrShmNotFound, m)
  | some memory =>
    let r := rs.addShmImportResult name result m.store
    if r.1 ≠ 0 then (mxmErrRecordAdd, m.withStore r.2)
    else
      let r' := rs.addShmRefRecord pid name r.2
      if r'.1 ≠ 0 then
        (mxmErrShmNotFound, m.withStore (rs.delShmImportRecord name r'.2).2)
      else
        (ubsmOk, (m.withStore r'.2).put name
          { memory with state := .finish, result := result, pids := memory.pids.insert pid })

def updateShareMemoryRecordState (name : Name) (state : RecordState) (m : ShmManager S) :
    Int × ShmManager S :=
  match m.find name with
  | none => (mxmErrShmNotFound, m)
  | some memory =>
    let r := rs.updateShmImportRecordState name state m.store
    if r.1 ≠ 0 then (mxmErrRecordChangeState, m.withStore r.2)
    else (ubsmOk, (m.withStore r.2).put name { memory with state := state })

/-- The loop of `RemoveMemoryInfo` that drops the references of a deleted memory;
`false` when the store refuses one. -/
def delShmRefRecords (name : Name) : List Nat → S → Bool × S
  | [], store => (true, store)
  | pid :: pids, store =>
    let r := rs.delShmRefRecord pid name store
    if r.1 ≠ 0 then (false, r.2) else delShmRefRecords name pids r.2

def removeMemoryInfo (name : Name) (force : Bool) (m : ShmManager S) : Int × ShmManager S :=
  match m.find name with
  | none => (mxmErrShmNotFound, m)
  | some memory =>
    let forced := force && decide (memory.state = .deleted)
    let r := if forced then delShmRefRecords rs name memory.pids m.store else (true, m.store)
    if !r.1 then (mxmErrShmNotFound, m.withStore r.2)
    else
      let pids := if forced then [] else memory.pids
      let m' := (m.withStore r.2).put name { memory with pids := pids }
      if pids ≠ [] then (mxmErrShmInUsing, m')
      else
        let r' := rs.delShmImportRecord name m'.store
        if r'.1 ≠ 0 then (mxmErrShmNotFound, m'.withStore r'.2)
        else (ubsmOk, (m'.withStore r'.2).erase name)

def getShareMemoryInfo (name : Name) (m : ShmManager S) : Option AttachedShareMemory :=
  m.find name

def getMemoryUsersCountByName (name : Name) (m : ShmManager S) : Nat := (m.users name).length

def getMemoryUsersByPid (pid : Nat) (m : ShmManager S) : List AttachedShareMemory :=
  (m.attachedShareMemory.entries.map (·.2)).filter fun memory => pid ∈ memory.pids

/-! ### What each operation does to the entries -/

section Entries

variable (m : ShmManager S) (name : Name) (pid size : Nat) {r : Int × ShmManager S}

@[simp] theorem find_put (memory : AttachedShareMemory) :
    (m.put name memory).find = update m.find name (some memory) := by
  funext n
  by_cases h : n = name
  · subst h
    simp [put, find]
  · simp [put, find, h]

@[simp] theorem find_erase : (m.erase name).find = update m.find name none := by
  funext n
  by_cases h : n = name
  · subst h
    simp [erase, find]
  · simp [erase, find, h]

@[simp] theorem find_withStore (store : S) : (m.withStore store).find = m.find := rfl

@[simp] theorem store_withStore (store : S) : (m.withStore store).store = store := rfl

@[simp] theorem store_put (memory : AttachedShareMemory) :
    (m.put name memory).store = m.store := rfl

@[simp] theorem store_erase : (m.erase name).store = m.store := rfl

theorem addMemoryUserInfo_cases (hr : addMemoryUserInfo rs name pid m = r) :
    r.1 ≠ ubsmOk ∧ r.2.find = m.find ∨ ∃ memory, m.find name = some memory ∧ r.1 = ubsmOk ∧
      r.2.find = update m.find name (some { memory with pids := memory.pids.insert pid }) := by
  subst hr
  unfold addMemoryUserInfo
  split
  · exact .inl ⟨mxmErrShmNotFound_ne, rfl⟩
  · next memory hfind =>
    dsimp only
    split_ifs
    · exact .inl ⟨mxmErrShmNotFound_ne, by simp⟩
    · exact .inr ⟨memory, hfind, rfl, by simp⟩

theorem removeMemoryUserInfo_cases (hr : removeMemoryUserInfo rs name pid m = r) :
    r.1 ≠ ubsmOk ∧ r.2.find = m.find ∨ ∃ memory, m.find name = some memory ∧ pid ∈ memory.pids ∧
      r.1 = ubsmOk ∧
      r.2.find = update m.find name (some { memory with pids := memory.pids.erase pid }) := by
  subst hr
  unfold removeMemoryUserInfo
  split
  · exact .inl ⟨mxmErrShmNotFound_ne, rfl⟩
  · next memory hfind =>
    dsimp only
    split_ifs with hpid hdel
    · exact .inl ⟨mxmErrShmNotFound_ne, by simp⟩
    · exact .inr ⟨memory, hfind, hpid, rfl, by simp⟩
    · exact .inl ⟨mxmErrShmNotFound_ne, rfl⟩

theorem prepareAddShareMemoryInfo_cases (hr : prepareAddShareMemoryInfo rs name size pid m = r) :
    r.1 ≠ ubsmOk ∧ r.2.find = m.find ∨ m.find name = none ∧ r.1 = ubsmOk ∧
      r.2.find = update m.find name (some ⟨name, size, .preAdd, [],
      ShareMemImportResult.empty⟩) := by
  subst hr
  unfold prepareAddShareMemoryInfo
  split
  · exact .inl ⟨mxmErrShmAlreadyExist_ne, rfl⟩
  · next hfind =>
    dsimp only
    split_ifs
    · exact .inl ⟨mxmErrRecordAdd_ne, by simp⟩
    · exact .inr ⟨hfind, rfl, by simp⟩

theorem addFullShareMemoryInfo_cases (result : ShareMemImportResult)
    (hr : addFullShareMemoryInfo rs name pid result m = r) :
    r.1 ≠ ubsmOk ∧ r.2.find = m.find ∨ ∃ memory, m.find name = some memory ∧ r.1 = ubsmOk ∧
      r.2.find = update m.find name
        (some { memory with state := .finish, result, pids := memory.pids.insert pid }) := by
  subst hr
  unfold addFullShareMemoryInfo
  split
  · exact .inl ⟨mxmErrShmNotFound_ne, rfl⟩
  · next memory hfind =>
    dsimp only
    split_ifs
    · exact .inl ⟨mxmErrRecordAdd_ne, by simp⟩
    · exact .inl ⟨mxmErrShmNotFound_ne, by simp⟩
    · exact .inr ⟨memory, hfind, rfl, by simp⟩

theorem updateShareMemoryRecordState_cases (state : RecordState)
    (hr : updateShareMemoryRecordState rs name state m = r) :
    r.1 ≠ ubsmOk ∧ r.2.find = m.find ∨ ∃ memory, m.find name = some memory ∧ r.1 = ubsmOk ∧
      r.2.find = update m.find name (some { memory with state }) := by
  subst hr
  unfold updateShareMemoryRecordState
  split
  · exact .inl ⟨mxmErrShmNotFound_ne, rfl⟩
  · next memory hfind =>
    dsimp only
    split_ifs
    · exact .inl ⟨mxmErrRecordChangeState_ne, by simp⟩
    · exact .inr ⟨memory, hfind, rfl, by simp⟩

/-- A forced removal of a deleted memory drops its users even when the record store
then refuses to delete the record. -/
theorem removeMemoryInfo_cases (force : Bool) (hr : removeMemoryInfo rs name force m = r) :
    r.1 ≠ ubsmOk ∧ r.2.find = m.find ∨ ∃ memory, m.find name = some memory ∧ (memory.pids = [] ∨
      force = true ∧ memory.state = .deleted) ∧ (r.1 ≠ ubsmOk ∧
      r.2.find = update m.find name (some { memory with pids := [] }) ∨ r.1 = ubsmOk ∧
      r.2.find = update m.find name none) := by
  subst hr
  unfold removeMemoryInfo
  split
  · exact .inl ⟨mxmErrShmNotFound_ne, rfl⟩
  · next memory hfind =>
    dsimp only
    by_cases hforced : (force && decide (memory.state = .deleted)) = true
    · have hpids : memory.pids = [] ∨ force = true ∧ memory.state = .deleted := by
        right
        simpa using hforced
      split_ifs with href hdel
      · exact .inl ⟨mxmErrShmNotFound_ne, by simp⟩
      · exact absurd rfl hdel
      · exact .inr ⟨memory, hfind, hpids, .inl ⟨mxmErrShmNotFound_ne, by simp⟩⟩
      · exact .inr ⟨memory, hfind, hpids, .inr ⟨rfl, by simp⟩⟩
    · simp only [hforced, if_false, Bool.not_true, Bool.false_eq_true]
      split_ifs with husers hdel
      · refine .inl ⟨mxmErrShmInUsing_ne, ?_⟩
        simp [← hfind]
      · refine .inl ⟨mxmErrShmNotFound_ne, ?_⟩
        simp [← hfind]
      · exact .inr ⟨memory, hfind, .inl (by simpa using husers), .inr ⟨rfl, by simp⟩⟩

end Entries

/-! ### What the operations are made of -/

section Edits

/-- A change that an operation on a name makes: the record store does something for the name,
or the map gets another entry for it.  The entry has the size of the one that it replaces, or
one that the operation `asks` for. -/
inductive Edit (name : Name) (asks : Nat → Prop) (m : ShmManager S) : ShmManager S → Prop
  | input {size : Nat} (pid : Nat) (hasks : asks size) :
      Edit name asks m (m.withStore (rs.addShmImportInput name size pid m.store).2)
  | result (result : ShareMemImportResult) :
      Edit name asks m (m.withStore (rs.addShmImportResult name result m.store).2)
  | mark (state : RecordState) :
      Edit name asks m (m.withStore (rs.updateShmImportRecordState name state m.store).2)
  | delete : Edit name asks m (m.withStore (rs.delShmImportRecord name m.store).2)
  | addRef (pid : Nat) : Edit name asks m (m.withStore (rs.addShmRefRecord pid name m.store).2)
  | delRef (pid : Nat) : Edit name asks m (m.withStore (rs.delShmRefRecord pid name m.store).2)
  | create {size : Nat} (hasks : asks size) :
      Edit name asks m (m.put name ⟨name, size, .preAdd, [], ShareMemImportResult.empty⟩)
  | update {old memory : AttachedShareMemory} (hold : m.find name = some old)
      (hname : memory.name = old.name) (hsize : memory.size = old.size) :
      Edit name asks m (m.put name memory)
  | erase : Edit name asks m (m.erase name)

/-- Any number of changes for a name. -/
abbrev Edits (name : Name) (asks : Nat → Prop) : ShmManager S → ShmManager S → Prop :=
  Relation.ReflTransGen (Edit rs name asks)

variable {rs} {name : Name} {asks : Nat → Prop} {m m' : ShmManager S}

theorem Edits.invariant {I : ShmManager S → Prop}
    (hedit : ∀ m m', Edit rs name asks m m' → I m → I m') (h : Edits rs name asks m m')
    (hm : I m) : I m' := by
  induction h with
  | refl => exact hm
  | tail _ hlast ih => exact hedit _ _ hlast ih

theorem addMemoryUserInfo_edits (pid : Nat) :
    Edits rs name asks m (addMemoryUserInfo rs name pid m).2 := by
  unfold addMemoryUserInfo
  split
  · exact .refl
  · next memory hfind =>
    have hadd : Edits rs name asks m _ := .single (.addRef pid)
    dsimp only
    split_ifs
    · exact hadd
    · exact hadd.tail (.update hfind rfl rfl)

theorem removeMemoryUserInfo_edits (pid : Nat) :
    Edits rs name asks m (removeMemoryUserInfo rs name pid m).2 := by
  unfold removeMemoryUserInfo
  split
  · exact .refl
  · next memory hfind =>
    have hdel : Edits rs name asks m _ := .single (.delRef pid)
    dsimp only
    split_ifs
    · exact hdel
    · exact hdel.tail (.update hfind rfl rfl)
    · exact .refl

theorem prepareAddShareMemoryInfo_edits {size : Nat} (hasks : m.find name = none → asks size)
    (pid : Nat) : Edits rs name asks m (prepareAddShareMemoryInfo rs name size pid m).2 := by
  unfold prepareAddShareMemoryInfo
  split
  · exact .refl
  · next hfind =>
    have hinput : Edits rs name asks m _ := .single (.input pid (hasks hfind))
    dsimp only
    split_ifs
    · exact hinput
    · exact hinput.tail (.create (hasks hfind))

theorem addFullShareMemoryInfo_edits (pid : Nat) (result : ShareMemImportResult) :
    Edits rs name asks m (addFullShareMemoryInfo rs name pid result m).2 := by
  unfold addFullShareMemoryInfo
  split
  · exact .refl
  · next memory hfind =>
    have hresult : Edits rs name asks m _ := .single (.result result)
    have href := hresult.tail (.addRef pid)
    dsimp only
    split_ifs
    · exact hresult
    · exact href.tail .delete
    · exact href.tail (.update hfind rfl rfl)

theorem updateShareMemoryRecordState_edits (state : RecordState) :
    Edits rs name asks m (updateShareMemoryRecordState rs name state m).2 := by
  unfold updateShareMemoryRecordState
  split
  · exact .refl
  · next memory hfind =>
    have hmark : Edits rs name asks m _ := .single (.mark state)
    dsimp only
    split_ifs
    · exact hmark
    · exact hmark.tail (.update hfind rfl rfl)

theorem delShmRefRecords_edits (pids : List Nat) :
    Edits rs name asks m (m.withStore (delShmRefRecords rs name pids m.store).2) := by
  induction pids generalizing m with
  | nil => exact .refl
  | cons pid pids ih =>
    have hdel : Edit rs name asks m _ := .delRef pid
    unfold delShmRefRecords
    dsimp only
    split_ifs
    · exact .single hdel
    · exact ih.head hdel

theorem removeMemoryInfo_edits (force : Bool) :
    Edits rs name asks m (removeMemoryInfo rs name force m).2 := by
  unfold removeMemoryInfo
  split
  · exact .refl
  · next memory hfind =>
    -- whether or not the references are dropped
    have hrest : ∀ store, Edits rs name asks m (m.withStore store) → ∀ pids,
        let m' := (m.withStore store).put name { memory with pids }
        Edits rs name asks m m' ∧
          Edits rs name asks m (m'.withStore (rs.delShmImportRecord name m'.store).2) := by
      intro store hstore pids
      have hput : Edits rs name asks m ((m.withStore store).put name { memory with pids }) :=
        hstore.tail (.update hfind rfl rfl)
      exact ⟨hput, hput.tail .delete⟩
    have hdrop := hrest _ (delShmRefRecords_edits memory.pids)
    have hkeep := hrest m.store .refl
    dsimp only
    split_ifs
    · exact delShmRefRecords_edits memory.pids
    · exact (hdrop _).1
    · exact (hdrop _).2
    · exact (hdrop _).2.tail .erase
    · exact .refl
    · exact (hkeep _).1
    · exact (hkeep _).2
    · exact (hkeep _).2.tail .erase

end Edits
end ShmManager
end UbsMem
