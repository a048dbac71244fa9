import Mathlib.Data.List.Induction
import Mathlib.Data.List.Sort
import Mathlib.Tactic.Common

/-! # The rotation of a log

`RollFile` renumbers the archives of a log in the order of their names, removes the first ones if
there are too many, and adds one for the log.  A name has the local time and an index of at least
three digits; the archives are the files that match a pattern made of the base path and three
digits of an index.

The renaming goes from one archive to the next.  While the clock does not go back, names are in
the order of their indices, and each archive is renamed to an index that the one before it has
left (`renameCompressedFile_named`).  If the clock is set back, an archive can be renamed to the
name of the next one (`archive_lost`).
-/
namespace UbsMem

open List

variable {α : Type}

/-- The local time and the index of an archive. -/
abbrev ArchiveName := Nat × Nat

/-- The archives of a log. -/
abbrev Archives (α : Type) := List (ArchiveName × α)

/-- The order of the names; the digits have a fixed width. -/
def nameLe (a b : ArchiveName) : Bool := a.1 < b.1 || (a.1 = b.1 && a.2 ≤ b.2)

/-- `fs::rename`, which replaces a file of the new name. -/
def renameFile (old new : ArchiveName) (d : Archives α) : Archives α :=
  if old = new then d
  else (d.filter (·.1 ≠ new)).map fun a => if a.1 = old then (new, a.2) else a

/-- `RenameCompressedFile`: the names and the files after it.  A name whose index does not have
three digits, or of a file that does not exist, stays. -/
def renameCompressedFile (i : Nat) : List ArchiveName → Archives α → List ArchiveName × Archives α
  | [], d => ([], d)
  | name :: names, d =>
    if name.2 < 1000 ∧ name ∈ d.map (·.1) then
      let newName := (name.1, i + 1)
      let r := renameCompressedFile (i + 1) names (renameFile name newName d)
      (newName :: r.1, r.2)
    else
      let r := renameCompressedFile (i + 1) names d
      (name :: r.1, r.2)

/-- `ManageFileRotation`: the index of the next archive and the files.  `regexMatch` are the names
that the pattern of the archives matches; the base path stands in it as a regular expression. -/
def manageFileRotation (regexMatch : ArchiveName → Bool) (maxFileCount : Nat) (d : Archives α) :
    Nat × Archives α :=
  let compressedFiles := ((d.map (·.1)).filter regexMatch).insertionSort (nameLe · ·)
  let r := renameCompressedFile 0 compressedFiles d
  if r.1.length < maxFileCount then (r.1.length + 1, r.2)
  else
    let count := r.1.length - maxFileCount + 1
    let kept := r.2.filter (·.1 ∉ r.1.take count)
    (maxFileCount, (renameCompressedFile 0 (r.1.drop count) kept).2)

/-- `RollFile` at a local time with the content of the log. -/
def rollFile (regexMatch : ArchiveName → Bool) (maxFileCount : Nat) (d : Archives α)
    (log : Nat × α) : Archives α :=
  let r := manageFileRotation regexMatch maxFileCount d
  r.2.filter (·.1 ≠ (log.1, r.1)) ++ [((log.1, r.1), log.2)]

/-- The archives after a sequence of rolls. -/
def rolled (regexMatch : ArchiveName → Bool) (maxFileCount : Nat) (logs : List (Nat × α)) :
    Archives α :=
  logs.foldl (rollFile regexMatch maxFileCount) []

/-- The pattern matches the names with three digits of an index, as it does when the base path
matches itself. -/
def MatchesArchives (regexMatch : ArchiveName → Bool) : Prop :=
  ∀ name, regexMatch name = decide (name.2 < 1000)

/-! ### Archives that are numbered from one on -/

/-- The archives of logs, with the indices after `i`. -/
def named (i : Nat) : List (Nat × α) → Archives α
  | [] => []
  | log :: logs => ((log.1, i + 1), log.2) :: named (i + 1) logs

variable {logs : List (Nat × α)} {i j : Nat}

theorem named_append (logs : List (Nat × α)) (i : Nat) (log : Nat × α) :
    named i (logs ++ [log]) = named i logs ++ [((log.1, i + logs.length + 1), log.2)] := by
  induction logs generalizing i with
  | nil => rfl
  | cons first logs ih => simp [named, ih, Nat.add_right_comm, Nat.add_assoc]

theorem stamps_named (i : Nat) (logs : List (Nat × α)) :
    (named i logs).map (fun a => (a.1.1, a.2)) = logs := by
  induction logs generalizing i with
  | nil => rfl
  | cons log logs ih => exact congrArg (log :: ·) (ih (i + 1))

theorem length_named (i : Nat) (logs : List (Nat × α)) : (named i logs).length = logs.length := by
  rw [← length_map (fun a => (a.1.1, a.2)), stamps_named]

theorem index_of_mem_named {a : ArchiveName × α} (h : a ∈ named i logs) :
    i < a.1.2 ∧ a.1.2 ≤ i + logs.length ∧ ∃ log ∈ logs, a.1.1 = log.1 := by
  induction logs generalizing i with
  | nil => cases h
  | cons log logs ih =>
    rcases mem_cons.mp h with rfl | h
    · exact ⟨Nat.lt_succ_self i, by simp, log, mem_cons_self, rfl⟩
    · obtain ⟨hlow, hhigh, log', hlog, heq⟩ := ih h
      exact ⟨by omega, by simp; omega, log', mem_cons_of_mem _ hlog, heq⟩

theorem sorted_named (h : logs.Pairwise (·.1 ≤ ·.1)) (i : Nat) :
    ((named i logs).map (·.1)).Pairwise fun a b => nameLe a b = true ∧ a ≠ b := by
  induction logs generalizing i with
  | nil => exact Pairwise.nil
  | cons log logs ih =>
    rw [pairwise_cons] at h
    refine pairwise_cons.mpr ⟨fun name hname => ?_, ih h.2 (i + 1)⟩
    obtain ⟨a, ha, rfl⟩ := mem_map.mp hname
    obtain ⟨hlow, -, log', hlog, heq⟩ := index_of_mem_named ha
    have := h.1 log' hlog
    constructor
    · simp only [nameLe, Bool.or_eq_true, Bool.and_eq_true, decide_eq_true_eq]
      omega
    · rintro hsame
      have := congrArg Prod.snd hsame
      simp only at this
      omega

/-- The renaming of one archive, between those that have been renamed and those that have not. -/
theorem renameFile_named {pre : Archives α} {log : Nat × α} (hpre : ∀ a ∈ pre, a.1.2 ≤ i)
    (hij : i ≤ j) :
    renameFile (log.1, j + 1) (log.1, i + 1) (pre ++ named j (log :: logs)) =
      pre ++ ((log.1, i + 1), log.2) :: named (j + 1) logs := by
  by_cases heq : i = j
  · subst heq
    exact if_pos rfl
  have hlater : ∀ a ∈ named (j + 1) logs, j + 1 < a.1.2 := fun a ha => (index_of_mem_named ha).1
  have hother : ∀ a : ArchiveName × α, a ∈ pre ∨ a ∈ named (j + 1) logs →
      a.1 ≠ (log.1, i + 1) ∧ a.1 ≠ (log.1, j + 1) := by
    intro a ha
    have hindex : a.1.2 ≤ i ∨ j + 1 < a.1.2 := ha.imp (hpre a) (hlater a)
    constructor <;> intro hsame <;> rw [hsame] at hindex <;> simp only at hindex <;> omega
  have hkeep : ∀ l : Archives α, (∀ a ∈ l, a ∈ pre ∨ a ∈ named (j + 1) logs) →
      (l.filter (·.1 ≠ (log.1, i + 1))).map
        (fun a => if a.1 = (log.1, j + 1) then ((log.1, i + 1), a.2) else a) = l := by
    intro l hl
    rw [filter_eq_self.mpr fun a ha => decide_eq_true (hother a (hl a ha)).1]
    exact (map_congr_left fun a ha => if_neg (hother a (hl a ha)).2).trans (map_id l)
  rw [renameFile, if_neg (by simp; omega), filter_append, map_append, hkeep pre fun a ha => .inl ha,
    named, filter_cons_of_pos (by simp; omega), map_cons, if_pos rfl, hkeep _ fun a ha => .inr ha]

/-- **The renaming moves no archive to a name in use**, if the archives are numbered. -/
theorem renameCompressedFile_named {pre : Archives α} (hpre : ∀ a ∈ pre, a.1.2 ≤ i) (hij : i ≤ j)
    (hlen : j + logs.length < 1000) :
    renameCompressedFile i ((named j logs).map (·.1)) (pre ++ named j logs) =
      ((named i logs).map (·.1), pre ++ named i logs) := by
  induction logs generalizing i j pre with
  | nil => rfl
  | cons log logs ih =>
    have hlen : j + 1 + logs.length < 1000 := by simp at hlen; omega
    have hpre' : ∀ a ∈ pre ++ [((log.1, i + 1), log.2)], a.1.2 ≤ i + 1 := by
      intro a ha
      rcases mem_append.mp ha with ha | ha
      · exact Nat.le_succ_of_le (hpre a ha)
      · exact mem_singleton.mp ha ▸ Nat.le_refl _
    have hrest := ih hpre' (Nat.succ_le_succ hij) hlen
    rw [append_assoc, singleton_append] at hrest
    rw [named, map_cons, renameCompressedFile, if_pos ⟨by simp; omega, by simp⟩]
    simp only
    rw [← named, renameFile_named hpre hij, hrest]
    simp [named]

theorem named_concat (i : Nat) (logs : List (Nat × α)) (log : Nat × α) :
    (named i logs).filter (·.1 ≠ (log.1, i + logs.length + 1)) ++
      [((log.1, i + logs.length + 1), log.2)] = named i (logs ++ [log]) := by
  rw [named_append, filter_eq_self.mpr]
  intro a ha
  have := (index_of_mem_named ha).2.1
  simp only [decide_eq_true_eq]
  rintro heq
  rw [heq] at this
  omega

section

variable {maxFileCount : Nat} {regexMatch : ArchiveName → Bool}
    (hmatch : MatchesArchives regexMatch)
  (hmax : 1 ≤ maxFileCount) (hdigits : maxFileCount < 1000)
include hmatch hmax hdigits

theorem rollFile_named (hlogs : logs.Pairwise (·.1 ≤ ·.1)) (hlen : logs.length ≤ maxFileCount)
    (log : Nat × α) :
    rollFile regexMatch maxFileCount (named 0 logs) log =
      named 0 (logs.drop (logs.length - (maxFileCount - 1)) ++ [log]) := by
  have hnames : (((named 0 logs).map (·.1)).filter regexMatch).insertionSort (nameLe · ·) =
      (named 0 logs).map (·.1) := by
    rw [filter_eq_self.mpr, ((sorted_named hlogs 0).imp And.left).insertionSort_eq]
    intro name hname
    obtain ⟨a, ha, rfl⟩ := mem_map.mp hname
    have := (index_of_mem_named ha).2.1
    rw [hmatch]
    exact decide_eq_true (by omega)
  have hpass : renameCompressedFile 0 ((named 0 logs).map (·.1)) ([] ++ named 0 logs) = _ :=
    renameCompressedFile_named (by simp) (Nat.le_refl 0) (by omega)
  rw [nil_append] at hpass
  rw [rollFile, manageFileRotation, hnames, hpass]
  simp only [length_map, length_named]
  by_cases hroom : logs.length < maxFileCount
  · rw [if_pos hroom, Nat.sub_eq_zero_of_le (by omega), drop_zero]
    simpa using named_concat 0 logs log
  · obtain ⟨first, rest, rfl⟩ := exists_cons_of_length_pos (show 0 < logs.length by omega)
    have hrest : rest.length + 1 = maxFileCount := by simp at hlen hroom; omega
    have hkept : (named 0 (first :: rest)).filter (·.1 ∉ [(first.1, 1)]) = named 1 rest := by
      rw [named, filter_cons_of_neg (by simp), filter_eq_self.mpr]
      intro a ha
      have := (index_of_mem_named ha).1
      simp only [mem_singleton, decide_eq_true_eq]
      rintro heq
      simp [heq] at this
    have hshift : renameCompressedFile 0 ((named 1 rest).map (·.1)) ([] ++ named 1 rest) = _ :=
      renameCompressedFile_named (by simp) (Nat.zero_le 1) (by omega)
    have hcount : (first :: rest).length - maxFileCount + 1 = 1 := by simp; omega
    have hdrop : (first :: rest).length - (maxFileCount - 1) = 1 := by simp; omega
    have htake : ((named 0 (first :: rest)).map (·.1)).take 1 = [(first.1, 1)] := rfl
    have hnames' : ((named 0 (first :: rest)).map (·.1)).drop 1 = (named 1 rest).map (·.1) := rfl
    rw [nil_append, nil_append] at hshift
    rw [if_neg hroom, hcount, hdrop, htake, hkept, hnames', hshift, ← hrest]
    simpa using named_concat 0 rest log

theorem rolled_eq (hclock : logs.Pairwise (·.1 ≤ ·.1)) :
    rolled regexMatch maxFileCount logs = named 0 (logs.drop (logs.length - maxFileCount)) := by
  unfold rolled at *
  induction logs using reverseRecOn with
  | nil => rw [drop_nil, foldl_nil, named]
  | append_singleton logs log ih =>
    have hold := (pairwise_append.mp hclock).1
    rw [foldl_append, ih hold, foldl_cons, foldl_nil,
      rollFile_named hmatch hmax hdigits (hold.sublist (drop_sublist ..))
      (by rw [length_drop]; omega),
      drop_drop, length_drop, length_append, length_singleton, drop_append_of_le_length (by omega)]
    congr 3
    omega

end

/-- The local times and the contents of the archives. -/
def logsOf (d : Archives α) : List (Nat × α) := d.map fun a => (a.1.1, a.2)

/-- **The rotation of a log**, if the base path is matched, three digits are enough for the indices
and the clock does not go back: the archives are the last logs, each with its content, under
different names in the order of the rolls; and the next roll adds one archive and removes the first
ones of those beyond the limit. -/
theorem log_rotation {maxFileCount : Nat} {regexMatch : ArchiveName → Bool}
    (hmatch : MatchesArchives regexMatch) (hmax : 1 ≤ maxFileCount) (hdigits : maxFileCount < 1000)
    (hclock : logs.Pairwise (·.1 ≤ ·.1)) :
    (rolled regexMatch maxFileCount logs).length ≤ maxFileCount ∧
      logsOf (rolled regexMatch maxFileCount logs) = logs.drop (logs.length - maxFileCount) ∧
      ((rolled regexMatch maxFileCount logs).map (·.1)).Pairwise
        (fun a b => nameLe a b = true ∧ a ≠ b) ∧
      ∀ log, logsOf (rollFile regexMatch maxFileCount (rolled regexMatch maxFileCount logs) log) =
        (logsOf (rolled regexMatch maxFileCount logs)).drop
          ((rolled regexMatch maxFileCount logs).length - (maxFileCount - 1)) ++ [log] := by
  have hkept := hclock.sublist (drop_sublist (logs.length - maxFileCount) logs)
  have hlen : (logs.drop (logs.length - maxFileCount)).length ≤ maxFileCount := by
    rw [length_drop]
    omega
  rw [rolled_eq hmatch hmax hdigits hclock, logsOf, stamps_named, length_named]
  refine ⟨hlen, rfl, sorted_named hkept 0, fun log => ?_⟩
  rw [rollFile_named hmatch hmax hdigits hkept hlen, logsOf, stamps_named]

/-- Three rolls with a limit of two, the first two in the same second. -/
theorem log_rotation_of_two :
    logsOf (rolled (·.2 < 1000) 2 [(1, 10), (1, 11), (3, 12)]) = [(1, 11), (3, 12)] :=
  (log_rotation (fun _ => rfl) (by decide) (by decide) (by decide)).2.1

/-- The clock is set back between the second and the third roll: the fourth roll renames the first
archive to the name of the second, whose content is lost.  And where the base path does not match
itself, all archives remain, with the same index, and two of the same second are one file. -/
theorem archive_lost :
    rolled (·.2 < 1000) 5 [(2, 10), (2, 11), (1, 12), (3, 13)] =
        [((2, 3), 10), ((1, 1), 12), ((3, 4), 13)] ∧
      rolled (fun _ => false) 1 [(1, 10), (2, 11), (2, 12), (3, 13)] =
        [((1, 1), 10), ((2, 1), 12), ((3, 1), 13)] := by
  constructor <;> decide +kernel

end UbsMem
