import Scriptorium.Proofs.Settings.Layout
import Scriptorium.Proofs.Settings.Lines
import Scriptorium.Settings.File

/-!
# Settings files that read back

A table is written by printing its layout. The layout of a proper table only has proper values, so
it reads back, and then the table comes out of it again. The one thing that can go wrong is that the
layout goes beyond a limit of the reader, and then the file is refused as a whole.
-/

namespace Scriptorium.Settings

/-! ### What is on the lines -/

namespace Outline

theorem mem_sectionsIn {parents : List String} {part : Section} {entries : Table}
    (h : part ∈ sectionsIn parents entries) :
    ∃ entry ∈ entries, part ∈ sectionsOf parents entry.1 entry.2 := by
  induction entries with
  | nil => cases h
  | cons entry entries ih =>
      rw [sectionsIn, List.mem_append] at h
      rcases h with h | h
      · exact ⟨entry, List.mem_cons_self, h⟩
      · obtain ⟨other, hother, hpart⟩ := ih h
        exact ⟨other, List.mem_cons_of_mem _ hother, hpart⟩

/-- A section of an array of tables is one of a table in it, or has its plain values. -/
theorem mem_elementsOf {parents : List String} {key : String} {part : Section}
    {items : List Value} (h : part ∈ elementsOf parents key items) :
    ∃ entries, .table entries ∈ items ∧
      (part.body = plain entries ∨ part ∈ sectionsOf parents key (.table entries)) := by
  induction items with
  | nil => cases h
  | cons item items ih =>
      have hlater (h : part ∈ elementsOf parents key items) :
          ∃ entries, .table entries ∈ item :: items ∧
            (part.body = plain entries ∨ part ∈ sectionsOf parents key (.table entries)) := by
        obtain ⟨entries, hentries, hpart⟩ := ih h
        exact ⟨entries, List.mem_cons_of_mem _ hentries, hpart⟩
      cases item with
      | table entries =>
          rw [elementsOf, List.mem_cons, List.mem_append] at h
          rcases h with rfl | h | h
          · exact ⟨entries, List.mem_cons_self, .inl rfl⟩
          · refine ⟨entries, List.mem_cons_self, .inr ?_⟩
            rw [sectionsOf, List.mem_append]
            exact .inr h
          · exact hlater h
      | string | integer | float | excess | boolean | moment | array =>
          rw [elementsOf] at h
          · exact hlater h
          · rintro _ ⟨⟩

theorem isProper_of_mem_plain {entries : Table} (h : ∀ entry ∈ entries, entry.2.IsProper) :
    ∀ assignment ∈ plain entries, assignment.value.IsProper := by
  intro assignment hassignment
  rw [plain, List.mem_map] at hassignment
  obtain ⟨entry, hentry, rfl⟩ := hassignment
  exact h entry (List.mem_filter.1 hentry).1

theorem isProper_of_mem_sectionsOf {value : Value} (h : value.IsProper) {parents : List String}
    {key : String} {part : Section} (hpart : part ∈ sectionsOf parents key value) :
    ∀ assignment ∈ part.body, assignment.value.IsProper := by
  induction h generalizing parents key with
  | @scalar value h => cases value <;> first | exact h.elim | cases hpart
  | string text => cases hpart
  | @array items h ih =>
      rw [sectionsOf] at hpart
      split at hpart
      · obtain ⟨entries, hentries, hbody | hpart⟩ := mem_elementsOf hpart
        · rw [hbody]
          cases h _ hentries with
          | scalar h => exact h.elim
          | table sorted h => exact isProper_of_mem_plain h
        · exact ih _ hentries hpart
      · cases hpart
  | @table entries sorted h ih =>
      rw [sectionsOf, List.mem_append] at hpart
      rcases hpart with hpart | hpart
      · split at hpart
        · rw [List.mem_singleton.1 hpart]
          exact isProper_of_mem_plain h
        · cases hpart
      · obtain ⟨entry, hentry, hpart⟩ := mem_sectionsIn hpart
        exact ih entry hentry hpart

theorem isProper_of_mem_lines {table : Table} (h : (Value.table table).IsProper) :
    ∀ line ∈ (ofTable table).lines, line.IsProper := by
  have hentries : ∀ entry ∈ table, entry.2.IsProper := by
    cases h with
    | scalar h => exact h.elim
    | table sorted h => exact h
  rw [lines, List.forall_mem_append, List.forall_mem_map]
  refine ⟨isProper_of_mem_plain hentries, fun line hline => ?_⟩
  obtain ⟨part, hpart, hline⟩ := List.mem_flatMap.1 hline
  obtain ⟨entry, hentry, hpart⟩ := mem_sectionsIn hpart
  rcases List.mem_cons.1 hline with rfl | hline
  · exact trivial
  · obtain ⟨assignment, hassignment, rfl⟩ := List.mem_map.1 hline
    exact isProper_of_mem_sectionsOf (hentries entry hentry) hpart assignment hassignment

end Outline

/-! ### Files -/

theorem skipByteOrderMark_of_ne {char : Char} (h : char ≠ '\ufeff') (rest : List Char) :
    skipByteOrderMark (char :: rest) = char :: rest := by
  unfold skipByteOrderMark
  split
  · next heq => exact absurd (List.cons.inj heq).1 h
  · rfl

/-- No line starts with a byte order mark. -/
theorem skipByteOrderMark_render (outline : Outline) :
    skipByteOrderMark outline.render = outline.render := by
  obtain ⟨body, sections⟩ := outline
  cases body with
  | nil =>
      cases sections with
      | nil => rfl
      | cons part sections => exact skipByteOrderMark_of_ne (by decide) _
  | cons assignment body =>
      obtain ⟨first, others, hpath, hfirst⟩ := renderPath_head assignment.parents assignment.key
      have hmark : first ≠ '\ufeff' := by
        rintro rfl
        exact absurd hfirst (by decide)
      rw [Outline.render, List.flatMap_cons, Assignment.render, hpath]
      exact skipByteOrderMark_of_ne hmark _

/-- **A proper table reads back from its file**, unless its layout goes beyond a limit of the
reader. -/
theorem Table.read?_write {table : Table} (h : (Value.table table).IsProper) :
    Table.read? (Table.write table) =
      if (Outline.ofTable table).IsShallow then some table else none := by
  rw [Table.read?, Table.write, String.toList_ofList, skipByteOrderMark_render,
    Outline.read?_render (Outline.isProper_of_mem_lines h)]
  split
  · exact Outline.toTable?_ofTable h
  · rfl

end Scriptorium.Settings
