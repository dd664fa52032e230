import Scriptorium.Proofs.Settings.Values

/-!
# Tables that are put together again

A table is laid out as its plain values and one section for each table below it that needs a header.
The sections of one entry all go through its key, so reading them changes the table of that entry
and nothing else, just as if the table were put together on its own. That carries the induction from
a table to the values in it.
-/

namespace Scriptorium.Settings

variable {drafts : Drafts} {key : String}

/-! ### Sections under a key -/

/-- The section as it is seen from the table that has its table under a key. -/
def Section.under (key : String) (part : Section) : Section :=
  { part with parents := key :: part.parents }

/-- The ways in which an open table can be part of a table: by itself, or as the last one of an
array. -/
inductive Frame where
  | table (origin : Origin)
  | tables (earlier : List Draft)

def Frame.fill : Frame → Drafts → Draft
  | .table origin, entries => .table origin entries
  | .tables earlier, last => .tables earlier last

theorem lookup_setKey_self (key : String) (draft : Draft) (drafts : Drafts) :
    (setKey key draft drafts).lookup key = some draft := by
  rw [lookup_setKey, if_pos rfl]

/-- A section under a key changes the table that is open there. -/
theorem addSection_under (key : String) (frame : Frame) (entries drafts : Drafts) (part : Section) :
    Drafts.addSection (setKey key (frame.fill entries) drafts) (part.under key) =
      (Drafts.addSection entries part).map fun filled => setKey key (frame.fill filled) drafts := by
  have hopen : Drafts.openSection (part.under key) = Drafts.openSection part := rfl
  have hsection : Drafts.addSection entries part =
      Drafts.inHeader (Drafts.openSection part) part.parents entries := rfl
  rw [hsection, Drafts.addSection, hopen]
  cases frame with
  | table origin =>
      simp only [Section.under, Frame.fill, Drafts.inHeader, lookup_setKey_self]
      cases Drafts.inHeader (Drafts.openSection part) part.parents entries with
      | none => rfl
      | some filled => exact congrArg some (setKey_setKey ..)
  | tables earlier =>
      simp only [Section.under, Frame.fill, Drafts.inHeader, lookup_setKey_self]
      cases Drafts.inHeader (Drafts.openSection part) part.parents entries with
      | none => rfl
      | some filled => exact congrArg some (setKey_setKey ..)

theorem addSections_under (key : String) (frame : Frame) (entries drafts : Drafts)
    (parts : List Section) :
    (parts.map (Section.under key)).foldlM Drafts.addSection
        (setKey key (frame.fill entries) drafts) =
      (parts.foldlM Drafts.addSection entries).map fun filled =>
        setKey key (frame.fill filled) drafts := by
  induction parts generalizing entries with
  | nil => rfl
  | cons part parts ih =>
      rw [List.map_cons, List.foldlM_cons, List.foldlM_cons, addSection_under]
      cases Drafts.addSection entries part with
      | none => rfl
      | some filled => exact ih filled

/-- The first section under a new key makes a table there. -/
theorem addSections_under_new (hkey : drafts.lookup key = none) {parts : List Section}
    (hne : parts ≠ []) :
    (parts.map (Section.under key)).foldlM Drafts.addSection drafts =
      (parts.foldlM Drafts.addSection []).map fun filled =>
        setKey key (.table .implied filled) drafts := by
  obtain ⟨part, parts, rfl⟩ := List.exists_cons_of_ne_nil hne
  have hfirst : Drafts.addSection drafts (part.under key) =
      (Drafts.addSection [] part).map fun filled => setKey key (.table .implied filled) drafts := by
    have hopen : Drafts.openSection (part.under key) = Drafts.openSection part := rfl
    have hsection : Drafts.addSection [] part =
        Drafts.inHeader (Drafts.openSection part) part.parents [] := rfl
    rw [hsection, Drafts.addSection, hopen]
    simp only [Section.under, Drafts.inHeader, hkey]
    cases Drafts.inHeader (Drafts.openSection part) part.parents [] <;> rfl
  rw [List.map_cons, List.foldlM_cons, List.foldlM_cons, hfirst]
  cases Drafts.addSection [] part with
  | none => rfl
  | some filled => exact addSections_under key (.table .implied) filled drafts parts

/-! ### Laying out below a key -/

namespace Outline

mutual

theorem sectionsOf_cons (parent : String) (parents : List String) (key : String) :
    ∀ value, sectionsOf (parent :: parents) key value =
      (sectionsOf parents key value).map (Section.under parent)
  | .table entries => by
      rw [sectionsOf, sectionsOf, List.map_append, List.cons_append,
        sectionsIn_cons parent (parents ++ [key]) entries]
      split <;> rfl
  | .array items => by
      rw [sectionsOf, sectionsOf]
      split
      · exact elementsOf_cons parent parents key items
      · rfl
  | .string _ | .integer _ | .float _ | .excess | .boolean _ | .moment _ => rfl

theorem elementsOf_cons (parent : String) (parents : List String) (key : String) :
    ∀ items, elementsOf (parent :: parents) key items =
      (elementsOf parents key items).map (Section.under parent)
  | [] => rfl
  | .table entries :: rest => by
      rw [elementsOf, elementsOf, List.map_cons, List.map_append, List.cons_append,
        sectionsIn_cons parent (parents ++ [key]) entries, elementsOf_cons parent parents key rest]
      rfl
  | .array _ :: rest | .string _ :: rest | .integer _ :: rest | .float _ :: rest
  | .excess :: rest | .boolean _ :: rest | .moment _ :: rest => by
      rw [elementsOf, elementsOf, elementsOf_cons parent parents key rest] <;> nofun

theorem sectionsIn_cons (parent : String) (parents : List String) :
    ∀ entries, sectionsIn (parent :: parents) entries =
      (sectionsIn parents entries).map (Section.under parent)
  | [] => rfl
  | (key, value) :: rest => by
      rw [sectionsIn, sectionsIn, List.map_append, sectionsOf_cons parent parents key value,
        sectionsIn_cons parent parents rest]

end

/-! ### Putting together -/

/-- The table comes out of its layout again. -/
def Rebuilds (table : Table) : Prop :=
  ∃ opened filled, Drafts.assignAll [] (plain table) = some opened ∧
    (sectionsIn [] table).foldlM Drafts.addSection opened = some filled ∧
    Draft.completeEntries filled = table

/-- The sections of the value set a new key to it. -/
def Places (value : Value) : Prop :=
  ∀ (key : String) (drafts : Drafts), drafts.lookup key = none →
    ∃ draft : Draft, (sectionsOf [] key value).foldlM Drafts.addSection drafts =
        some (setKey key draft drafts) ∧
      draft.complete = value

theorem sectionsOf_of_not_hasHeader {value : Value} (h : value.hasHeader = false)
    (parents : List String) (key : String) : sectionsOf parents key value = [] := by
  cases value with
  | table entries => cases h
  | array items =>
      cases items with
      | nil => rfl
      | cons item items =>
          rw [sectionsOf, if_neg]
          rw [Value.hasHeader] at h
          · simp [h]
          · nofun
  | string | integer | float | excess | boolean | moment => rfl

/-- The entries that have headers of their own. -/
def headed (entries : Table) : Table :=
  entries.filter fun entry => entry.2.hasHeader

/-- The entries that are written on lines. -/
def unheaded (entries : Table) : Table :=
  entries.filter fun entry => !entry.2.hasHeader

theorem unheaded_append_headed_perm (entries : Table) :
    (unheaded entries ++ headed entries).Perm entries :=
  List.perm_append_comm.trans (List.filter_append_perm _ _)

/-- The sections of a table set the keys of its entries that have headers. -/
theorem addSections_sectionsIn {entries : Table} {drafts : Drafts}
    (hdistinct : KeysDistinct entries)
    (hplaces : ∀ entry ∈ entries, entry.2.hasHeader = true → Places entry.2)
    (hfresh : Fresh drafts (headed entries)) :
    ∃ filled, (sectionsIn [] entries).foldlM Drafts.addSection drafts = some filled ∧
      Draft.completeEntries filled = setKeys (headed entries) (Draft.completeEntries drafts) := by
  induction entries generalizing drafts with
  | nil => exact ⟨drafts, rfl, rfl⟩
  | cons entry entries ih =>
      obtain ⟨hhead, hrest⟩ := List.pairwise_cons.1 hdistinct
      obtain ⟨hplace, hplaces⟩ := List.forall_mem_cons.1 hplaces
      by_cases hheader : entry.2.hasHeader = true
      · have hcons : headed (entry :: entries) = entry :: headed entries :=
          List.filter_cons_of_pos hheader
        rw [hcons] at hfresh ⊢
        have hdistinct : KeysDistinct (entry :: headed entries) :=
          hdistinct.sublist (List.filter_sublist.cons_cons entry)
        obtain ⟨draft, hdraft, hcomplete⟩ :=
          hplace hheader entry.1 drafts (hfresh entry List.mem_cons_self)
        obtain ⟨filled, hfilled, hcompletes⟩ := ih hrest hplaces (hfresh.setKey hdistinct draft)
        refine ⟨filled, ?_, ?_⟩
        · rw [sectionsIn, List.foldlM_append, hdraft]
          exact hfilled
        · rw [hcompletes, Draft.completeEntries_setKey, hcomplete]
          rfl
      · have hcons : headed (entry :: entries) = headed entries :=
          List.filter_cons_of_neg hheader
        rw [hcons] at hfresh ⊢
        obtain ⟨filled, hfilled, hcompletes⟩ := ih hrest hplaces hfresh
        rw [sectionsIn, sectionsOf_of_not_hasHeader (Bool.eq_false_iff.2 hheader)]
        exact ⟨filled, hfilled, hcompletes⟩

theorem fresh_of_completeEntries {drafts : Drafts} {new : Table}
    (h : Fresh (Draft.completeEntries drafts) new) : Fresh drafts new := by
  intro entry hentry
  have hlookup := h entry hentry
  rw [Draft.lookup_completeEntries, Option.map_eq_none_iff] at hlookup
  exact hlookup

theorem lookup_eq_none_of_perm {α β : Type} {entries new : List (String × α)}
    {others : List (String × β)} (hperm : entries.Perm new)
    (h : ∀ a ∈ new, ∀ b ∈ others, a.1 ≠ b.1) : Fresh entries others := by
  intro b hb
  rw [List.lookup_eq_none_iff]
  intro a ha
  simpa using Ne.symm (h a (hperm.mem_iff.1 ha) b hb)

theorem rebuilds_of_places {table : Table} (h : KeysSorted table)
    (hplaces : ∀ entry ∈ table, entry.2.hasHeader = true → Places entry.2) : Rebuilds table := by
  have hperm := unheaded_append_headed_perm table
  have hdistinct : KeysDistinct (unheaded table ++ headed table) :=
    (hperm.pairwise_iff fun hne => Ne.symm hne).2 h.distinct
  obtain ⟨hplain, -, hapart⟩ := List.pairwise_append.1 hdistinct
  obtain ⟨opened, hopened, hvalues⟩ := assignAll_unparented (fresh_nil (unheaded table)) hplain
  have hset := setKeys_perm (fresh_nil (unheaded table)) hplain
  rw [List.append_nil] at hset
  have hfresh : Fresh opened (headed table) := by
    apply fresh_of_completeEntries
    rw [hvalues]
    exact lookup_eq_none_of_perm hset hapart
  obtain ⟨filled, hfilled, hcomplete⟩ := addSections_sectionsIn h.distinct hplaces hfresh
  refine ⟨opened, filled, hopened, hfilled, ?_⟩
  calc Draft.completeEntries filled
      = setKeys (headed table) (setKeys (unheaded table) []) := by rw [hcomplete, hvalues]; rfl
    _ = setKeys (unheaded table ++ headed table) [] := (List.foldl_append ..).symm
    _ = table := setKeys_eq_of_perm h hperm

/-- What the sections of a table under a key add to the open table there. -/
theorem addSections_filled {entries : Table} {opened filled : Drafts} (frame : Frame)
    (hfilled : (sectionsIn [] entries).foldlM Drafts.addSection opened = some filled) (key : String)
    (drafts : Drafts) :
    (sectionsIn [key] entries).foldlM Drafts.addSection (setKey key (frame.fill opened) drafts) =
      some (setKey key (frame.fill filled) drafts) := by
  rw [sectionsIn_cons, addSections_under, hfilled, Option.map_some]

theorem places_table {entries : Table} (h : Rebuilds entries) : Places (.table entries) := by
  intro key drafts hkey
  obtain ⟨opened, filled, hopened, hfilled, hcomplete⟩ := h
  have hwhole (origin : Origin) : (Draft.table origin filled).complete = .table entries := by
    rw [Draft.complete, hcomplete]
  rw [sectionsOf, List.nil_append, List.foldlM_append]
  split
  · have hheader : Drafts.addSection drafts ⟨.table, [], key, plain entries⟩ =
        some (setKey key (.table .declared opened) drafts) := by
      simp [Drafts.addSection, Drafts.inHeader, Drafts.openSection, hkey, hopened]
    refine ⟨.table .declared filled, ?_, hwhole _⟩
    rw [List.foldlM_cons, hheader]
    exact addSections_filled (.table .declared) hfilled key drafts
  · next hneeds =>
      -- without a header there are only entries that have headers, and at least one of them
      have hplain : plain entries = [] := by
        rw [plain, List.map_eq_nil_iff, List.filter_eq_nil_iff]
        simp only [needsHeader, Bool.or_eq_true, not_or, Bool.not_eq_true,
          List.any_eq_false] at hneeds
        simpa using hneeds.1
      rw [hplain] at hopened
      obtain rfl : [] = opened := Option.some.inj hopened
      have hne : sectionsIn [] entries ≠ [] := by
        intro hnil
        rw [hnil] at hfilled
        obtain rfl : [] = filled := Option.some.inj hfilled
        obtain rfl : [] = entries := hcomplete
        exact hneeds rfl
      refine ⟨.table .implied filled, ?_, hwhole _⟩
      rw [sectionsIn_cons]
      refine (addSections_under_new hkey hne).trans ?_
      rw [hfilled, Option.map_some]

/-- Each further table of an array closes the one before it. -/
theorem addSections_elementsOf {items : List Value}
    (h : ∀ item ∈ items, ∃ entries, item = .table entries ∧ Rebuilds entries) (key : String)
    (earlier : List Draft) (last drafts : Drafts) :
    ∃ before open',
      (elementsOf [] key items).foldlM Drafts.addSection
          (setKey key (.tables earlier last) drafts) =
        some (setKey key (.tables before open') drafts) ∧
      (Draft.completeItems before).reverse ++ [.table (Draft.completeEntries open')] =
        (Draft.completeItems earlier).reverse ++ .table (Draft.completeEntries last) :: items := by
  induction items generalizing earlier last with
  | nil => exact ⟨earlier, last, rfl, rfl⟩
  | cons item items ih =>
      obtain ⟨⟨entries, rfl, opened, filled, hopened, hfilled, hcomplete⟩, hitems⟩ :=
        List.forall_mem_cons.1 h
      have hheader : Drafts.addSection (setKey key (.tables earlier last) drafts)
            ⟨.element, [], key, plain entries⟩ =
          some (setKey key (.tables (.table .declared last :: earlier) opened) drafts) := by
        simp [Drafts.addSection, Drafts.inHeader, Drafts.openSection, lookup_setKey_self, hopened,
          setKey_setKey]
      obtain ⟨before, open', hothers, hall⟩ := ih hitems (.table .declared last :: earlier) filled
      refine ⟨before, open', ?_, ?_⟩
      · have hbody := addSections_filled (.tables (.table .declared last :: earlier)) hfilled key
          drafts
        rw [elementsOf, List.nil_append, List.foldlM_cons, hheader]
        refine Eq.trans (List.foldlM_append ..) ?_
        rw [Frame.fill] at hbody
        rw [hbody]
        exact hothers
      · rw [hall, hcomplete]
        simp [Draft.completeItems, Draft.complete]

theorem places_array {items : List Value} (hne : items ≠ [])
    (h : ∀ item ∈ items, ∃ entries, item = .table entries ∧ Rebuilds entries) :
    Places (.array items) := by
  intro key drafts hkey
  have hall : items.all Value.isTable = true := by
    rw [List.all_eq_true]
    intro item hitem
    obtain ⟨entries, rfl, -⟩ := h item hitem
    rfl
  obtain ⟨item, items, rfl⟩ := List.exists_cons_of_ne_nil hne
  obtain ⟨⟨entries, rfl, opened, filled, hopened, hfilled, hcomplete⟩, hitems⟩ :=
    List.forall_mem_cons.1 h
  have hheader : Drafts.addSection drafts ⟨.element, [], key, plain entries⟩ =
      some (setKey key (.tables [] opened) drafts) := by
    simp [Drafts.addSection, Drafts.inHeader, Drafts.openSection, hkey, hopened]
  have hbody := addSections_filled (.tables []) hfilled key drafts
  obtain ⟨before, open', hothers, hwhole⟩ := addSections_elementsOf hitems key [] filled drafts
  refine ⟨.tables before open', ?_, ?_⟩
  · rw [sectionsOf, if_pos hall, elementsOf, List.nil_append, List.foldlM_cons, hheader]
    refine Eq.trans (List.foldlM_append ..) ?_
    rw [Frame.fill] at hbody
    rw [hbody]
    exact hothers
  · rw [Draft.complete, hwhole, hcomplete]
    rfl

/-- What a proper value can be to the table above it. -/
theorem places_of_isProper {value : Value} (h : value.IsProper) :
    (value.hasHeader = true → Places value) ∧
      ∀ entries, value = .table entries → Rebuilds entries := by
  induction h with
  | @scalar value h =>
      cases value <;> first | exact h.elim | exact ⟨nofun, nofun⟩
  | string text => exact ⟨nofun, nofun⟩
  | @array items h ih =>
      refine ⟨fun hheader => ?_, nofun⟩
      have hne : items ≠ [] := by
        rintro rfl
        cases hheader
      have hall : items.all Value.isTable = true := by
        rw [Value.hasHeader] at hheader
        · exact hheader
        · exact hne
      refine places_array hne fun item hitem => ?_
      have htable := List.all_eq_true.1 hall item hitem
      cases item with
      | table entries => exact ⟨entries, rfl, (ih _ hitem).2 entries rfl⟩
      | string | integer | float | excess | boolean | moment | array => cases htable
  | @table entries sorted h ih =>
      have hrebuilds := rebuilds_of_places sorted fun entry hentry => (ih entry hentry).1
      refine ⟨fun _ => places_table hrebuilds, fun others heq => ?_⟩
      obtain rfl := Value.table.inj heq
      exact hrebuilds

/-- **A proper table comes out of its layout again.** -/
theorem toTable?_ofTable {table : Table} (h : (Value.table table).IsProper) :
    (ofTable table).toTable? = some table := by
  obtain ⟨opened, filled, hopened, hfilled, hcomplete⟩ := (places_of_isProper h).2 table rfl
  simp only [toTable?, ofTable, hopened, hfilled, hcomplete, Option.bind_eq_bind, Option.bind_some,
    Option.pure_def]

end Outline

end Scriptorium.Settings
