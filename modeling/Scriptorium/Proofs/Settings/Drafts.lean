import Mathlib.Data.List.Basic
import Scriptorium.Files
import Scriptorium.Settings.Draft

/-!
# Tables put together key by key

A table with its keys in order does not remember in which order they were set. So it can be put
together from its entries in any order, each key once, and what comes out is the table.
-/

namespace Scriptorium.Settings

variable {α : Type}

/-! ### Setting keys -/

theorem lookup_setKey (key other : String) (value : α) (entries : List (String × α)) :
    (setKey key value entries).lookup other =
      if other = key then some value else entries.lookup other := by
  induction entries with
  | nil => exact lookup_cons_eq_ite ..
  | cons entry rest ih =>
      obtain ⟨first, old⟩ := entry
      rw [setKey]
      split
      · exact lookup_cons_eq_ite ..
      · split
        · next hsame =>
            subst hsame
            rw [lookup_cons_eq_ite, lookup_cons_eq_ite]
            by_cases h : other = key <;> simp [h]
        · next hne =>
            rw [lookup_cons_eq_ite, lookup_cons_eq_ite, ih]
            by_cases h : other = first
            · simp [h, Ne.symm hne]
            · simp [h]

theorem setKey_setKey (key : String) (old new : α) (entries : List (String × α)) :
    setKey key new (setKey key old entries) = setKey key new entries := by
  induction entries with
  | nil => simp [setKey]
  | cons entry rest ih =>
      obtain ⟨first, other⟩ := entry
      by_cases hlt : key < first
      · simp [setKey, hlt]
      · by_cases hsame : key = first
        · simp [setKey, hsame]
        · simp [setKey, hlt, hsame, ih]

theorem setKey_perm {key : String} {entries : List (String × α)} (h : entries.lookup key = none)
    (value : α) : (setKey key value entries).Perm ((key, value) :: entries) := by
  induction entries with
  | nil => exact .refl _
  | cons entry rest ih =>
      obtain ⟨first, old⟩ := entry
      rw [lookup_cons_eq_ite] at h
      split at h
      · cases h
      · next hne =>
          rw [setKey, if_neg hne]
          split
          · exact .refl _
          · exact ((ih h).cons _).trans (.swap ..)

/-- The entries after some of them were set, one after another. -/
def setKeys (new entries : List (String × α)) : List (String × α) :=
  new.foldl (fun entries entry => setKey entry.1 entry.2 entries) entries

/-- No key of the new entries has a value yet. -/
def Fresh {β : Type} (entries : List (String × α)) (new : List (String × β)) : Prop :=
  ∀ entry ∈ new, entries.lookup entry.1 = none

def KeysDistinct (entries : List (String × α)) : Prop :=
  entries.Pairwise fun a b => a.1 ≠ b.1

theorem KeysSorted.distinct {entries : List (String × α)} (h : KeysSorted entries) :
    KeysDistinct entries := by
  refine h.imp fun hlt => ?_
  intro heq
  exact String.lt_irrefl _ (heq ▸ hlt)

theorem fresh_nil {β : Type} (new : List (String × β)) : Fresh ([] : List (String × α)) new :=
  fun _ _ => rfl

/-- Setting one of several fresh keys leaves the others fresh. -/
theorem Fresh.setKey {β : Type} {entries : List (String × α)} {entry : String × β}
    {new : List (String × β)} (h : Fresh entries (entry :: new))
    (hdistinct : KeysDistinct (entry :: new)) (value : α) :
    Fresh (setKey entry.1 value entries) new := by
  intro other hother
  have hne : other.1 ≠ entry.1 := Ne.symm ((List.pairwise_cons.1 hdistinct).1 other hother)
  rw [lookup_setKey, if_neg hne]
  exact h other (List.mem_cons_of_mem _ hother)

theorem setKeys_perm {new entries : List (String × α)} (hfresh : Fresh entries new)
    (hdistinct : KeysDistinct new) : (setKeys new entries).Perm (new ++ entries) := by
  induction new generalizing entries with
  | nil => exact .refl _
  | cons entry new ih =>
      have hset := setKey_perm (hfresh entry List.mem_cons_self) entry.2
      have hrest := ih (hfresh.setKey hdistinct entry.2) (List.pairwise_cons.1 hdistinct).2
      exact hrest.trans ((hset.append_left new).trans List.perm_middle)

theorem setKeys_sorted {new entries : List (String × α)} (h : KeysSorted entries) :
    KeysSorted (setKeys new entries) := by
  induction new generalizing entries with
  | nil => exact h
  | cons entry new ih => exact ih (h.setKey entry.1 entry.2)

/-- Entries in any order make up the table that has them in the order of their keys. -/
theorem setKeys_eq_of_perm {table new : List (String × α)} (h : KeysSorted table)
    (hperm : new.Perm table) : setKeys new [] = table := by
  have hdistinct : KeysDistinct new :=
    (hperm.pairwise_iff fun hne => Ne.symm hne).2 h.distinct
  have hset := setKeys_perm (fresh_nil new) hdistinct
  rw [List.append_nil] at hset
  -- both lists have the same entries, and there is one order to list them in
  refine (hset.trans hperm).eq_of_pairwise ?_ (setKeys_sorted .nil) h
  exact fun _ _ _ _ hlt hgt => absurd (String.lt_trans hlt hgt) (String.lt_irrefl _)

/-! ### Drafts -/

namespace Draft

theorem completeEntries_setKey (key : String) (draft : Draft) (drafts : Drafts) :
    completeEntries (setKey key draft drafts) =
      setKey key draft.complete (completeEntries drafts) := by
  induction drafts with
  | nil => rfl
  | cons entry rest ih =>
      obtain ⟨first, old⟩ := entry
      rw [setKey, completeEntries, setKey]
      split
      · rfl
      · split
        · rfl
        · rw [completeEntries, ih]

theorem lookup_completeEntries (key : String) (drafts : Drafts) :
    (completeEntries drafts).lookup key = (drafts.lookup key).map complete := by
  induction drafts with
  | nil => rfl
  | cons entry rest ih =>
      obtain ⟨first, old⟩ := entry
      rw [completeEntries, lookup_cons_eq_ite, lookup_cons_eq_ite, ih]
      split <;> rfl

end Draft

/-- Assignments without parents set the keys of the table itself. -/
theorem assignAll_unparented {drafts : Drafts} {entries : Table} (hfresh : Fresh drafts entries)
    (hdistinct : KeysDistinct entries) :
    ∃ filled, Drafts.assignAll drafts (entries.map fun entry => ⟨[], entry.1, entry.2⟩) =
        some filled ∧
      Draft.completeEntries filled = setKeys entries (Draft.completeEntries drafts) := by
  induction entries generalizing drafts with
  | nil => exact ⟨drafts, rfl, rfl⟩
  | cons entry entries ih =>
      have hassign : Drafts.assign drafts ⟨[], entry.1, entry.2⟩ =
          some (setKey entry.1 (.final entry.2) drafts) := by
        simp only [Drafts.assign, Drafts.define, hfresh entry List.mem_cons_self]
      obtain ⟨filled, hfilled, hcomplete⟩ := ih (hfresh.setKey hdistinct (.final entry.2))
        (List.pairwise_cons.1 hdistinct).2
      refine ⟨filled, ?_, ?_⟩
      · rw [Drafts.assignAll, List.map_cons, List.foldlM_cons, hassign]
        exact hfilled
      · rw [hcomplete, Draft.completeEntries_setKey]
        rfl

theorem ofAssignments?_entries {table : Table} (h : KeysSorted table) :
    Table.ofAssignments? (table.map fun entry => ⟨[], entry.1, entry.2⟩) = some table := by
  obtain ⟨filled, hfilled, hcomplete⟩ := assignAll_unparented (fresh_nil table) h.distinct
  rw [Table.ofAssignments?, hfilled, Option.map_some, hcomplete]
  exact congrArg some (setKeys_eq_of_perm h (.refl _))

end Scriptorium.Settings
