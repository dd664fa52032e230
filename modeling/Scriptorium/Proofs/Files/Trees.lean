import Mathlib.Data.List.Nodup
import Mathlib.Data.Option.Basic
import Scriptorium.Proofs.Files.Writing

/-!
# Trees whatever their order

The entries of a directory come in no order that means anything. What counts is which names there
are and what each of them leads to, and in a tree whose directories do not repeat a name this is the
same for every order. So whatever is found by going from name to name is the same too.
-/

namespace Scriptorium

/-! ### Names in paths -/

/-- What an entry of a directory can be called. -/
def IsEntryName (name : String) : Prop :=
  name ≠ "" ∧ name ≠ "." ∧ name ≠ ".." ∧ '/' ∉ name.toList

instance (name : String) : Decidable (IsEntryName name) :=
  inferInstanceAs (Decidable (_ ∧ _ ∧ _ ∧ _))

theorem segmentsOf_eq_singleton {chars : List Char} (h : '/' ∉ chars) :
    segmentsOf chars = [chars] := by
  induction chars with
  | nil => rfl
  | cons char rest ih =>
      obtain ⟨hne, hrest⟩ := not_or.1 (mt List.mem_cons.2 h)
      rw [segmentsOf, if_neg (Ne.symm hne), ih hrest]

theorem segmentsOf_ne_nil (chars : List Char) : segmentsOf chars ≠ [] := by
  cases chars with
  | nil => exact List.cons_ne_nil _ _
  | cons char rest =>
      rw [segmentsOf]
      split
      · exact List.cons_ne_nil _ _
      · split <;> exact List.cons_ne_nil _ _

/-- A slash separates the segments in front of it from those behind it. -/
theorem segmentsOf_append (front back : List Char) :
    segmentsOf (front ++ '/' :: back) = segmentsOf front ++ segmentsOf back := by
  induction front with
  | nil => rfl
  | cons char front ih =>
      obtain ⟨segment, others, hfront⟩ := List.exists_cons_of_ne_nil (segmentsOf_ne_nil front)
      rw [List.cons_append, segmentsOf, segmentsOf, ih, hfront]
      split <;> rfl

theorem segmentsOf_append_slash {chars : List Char} (h : '/' ∉ chars) (rest : List Char) :
    segmentsOf (chars ++ '/' :: rest) = chars :: segmentsOf rest := by
  rw [segmentsOf_append, segmentsOf_eq_singleton h, List.singleton_append]

/-- Names that are joined by slashes can be told apart again. -/
theorem segments_intercalate {names : List String} (hne : names ≠ [])
    (hslash : ∀ name ∈ names, '/' ∉ name.toList) :
    segments ("/".intercalate names) = names := by
  induction names with
  | nil => exact absurd rfl hne
  | cons name rest ih =>
      obtain ⟨hname, hrest⟩ := List.forall_mem_cons.1 hslash
      cases rest with
      | nil => rw [String.intercalate_singleton, segments, segmentsOf_eq_singleton hname]; simp
      | cons next others =>
          have hothers := ih (List.cons_ne_nil _ _) hrest
          rw [segments] at hothers ⊢
          have htoList : ("/".intercalate (name :: next :: others)).toList =
              name.toList ++ '/' :: ("/".intercalate (next :: others)).toList := by
            rw [String.intercalate_cons_cons]
            simp
          rw [htoList, segmentsOf_append_slash hname, List.map_cons, hothers, String.ofList_toList]

theorem intercalate_segmentsOf (chars : List Char) :
    ['/'].intercalate (segmentsOf chars) = chars := by
  induction chars with
  | nil => rfl
  | cons char rest ih =>
      obtain ⟨segment, others, hsegments⟩ := List.exists_cons_of_ne_nil (segmentsOf_ne_nil rest)
      rw [hsegments] at ih
      rw [segmentsOf, hsegments]
      split
      · next hslash => rw [List.intercalate_cons_cons, ih, hslash]; rfl
      · cases others <;> simpa using ih

/-- A path is its segments joined by slashes. -/
theorem intercalate_segments (path : String) : "/".intercalate (segments path) = path := by
  rw [← String.toList_inj, String.toList_intercalate, segments, List.map_map]
  have hback : String.toList ∘ String.ofList = id := by
    funext chars
    exact String.toList_ofList
  rw [hback, List.map_id]
  exact intercalate_segmentsOf path.toList

namespace Node

variable {node other top : Node} {entries others : List (String × Node)} {name path : String}

/-! ### Trees without repeated names -/

/-- No directory of a tree has two entries of one name, and every name can be that of an entry. -/
def IsProper (node : Node) : Prop :=
  ∀ place entries, node.descend place = some (.directory entries) →
    (entries.map Prod.fst).Nodup ∧ ∀ name ∈ entries.map Prod.fst, IsEntryName name

theorem lookup_eq_some_iff_mem {α : Type} {value : α} {entries : List (String × α)}
    (h : (entries.map Prod.fst).Nodup) :
    entries.lookup name = some value ↔ (name, value) ∈ entries := by
  induction entries with
  | nil => simp
  | cons entry rest ih =>
      obtain ⟨first, old⟩ := entry
      obtain ⟨hfirst, hrest⟩ := List.nodup_cons.1 h
      rw [lookup_cons_eq_ite, List.mem_cons]
      by_cases hname : name = first
      · subst hname
        have hnot : (name, value) ∉ rest := fun hmem => hfirst (List.mem_map.2 ⟨_, hmem, rfl⟩)
        simp [hnot, eq_comm]
      · rw [if_neg hname, ih hrest]
        simp [hname]

theorem isProper_file (content : ByteArray) : (file content).IsProper := by
  intro place entries h
  cases place with
  | nil => cases h
  | cons name rest => cases h

theorem isProper_directory_iff :
    (directory entries).IsProper ↔ (entries.map Prod.fst).Nodup ∧
      (∀ name ∈ entries.map Prod.fst, IsEntryName name) ∧ ∀ entry ∈ entries, entry.2.IsProper := by
  constructor
  · intro h
    obtain ⟨hnodup, hnames⟩ := h [] entries rfl
    refine ⟨hnodup, hnames, fun entry hentry place inner hplace => ?_⟩
    apply h (entry.1 :: place)
    rw [descend_cons, Node.entries, (lookup_eq_some_iff_mem hnodup).2 hentry]
    exact hplace
  · rintro ⟨hnodup, hnames, hbelow⟩ place inner hplace
    cases place with
    | nil =>
        cases hplace
        exact ⟨hnodup, hnames⟩
    | cons name rest =>
        rw [descend_cons, Node.entries, Option.bind_eq_some_iff] at hplace
        obtain ⟨child, hchild, hrest⟩ := hplace
        exact hbelow _ ((lookup_eq_some_iff_mem hnodup).1 hchild) rest inner hrest

theorem IsProper.of_descend (h : node.IsProper) {place : List String}
    (hplace : node.descend place = some other) : other.IsProper := by
  intro below entries hbelow
  apply h (place ++ below)
  rw [descend_append, hplace]
  exact hbelow

theorem IsProper.isEntryName_of_descend (h : node.IsProper) {place : List String}
    (hplace : node.descend place = some other) : ∀ name ∈ place, IsEntryName name := by
  induction place generalizing node with
  | nil => simp
  | cons name rest ih =>
      cases node with
      | file content => cases hplace
      | directory entries =>
          obtain ⟨hnodup, hnames, hbelow⟩ := isProper_directory_iff.1 h
          rw [descend_cons, Node.entries, Option.bind_eq_some_iff] at hplace
          obtain ⟨child, hchild, hrest⟩ := hplace
          have hmem := (lookup_eq_some_iff_mem hnodup).1 hchild
          rw [List.forall_mem_cons]
          exact ⟨hnames name (List.mem_map_of_mem hmem), ih (hbelow _ hmem) hrest⟩

/-! ### Listing the same tree in another order -/

/-- Two trees that differ in the order of their entries alone: in the same place there is a file
with the same content, or a directory that lists the same names in some order. -/
inductive Relisted : Node → Node → Prop
  | file (content : ByteArray) : Relisted (.file content) (.file content)
  | directory {entries others : List (String × Node)}
      (names_perm : (entries.map Prod.fst).Perm (others.map Prod.fst))
      (below : ∀ name child other, entries.lookup name = some child →
        others.lookup name = some other → Relisted child other) :
      Relisted (.directory entries) (.directory others)

theorem isSome_lookup_iff {α : Type} {entries : List (String × α)} :
    (entries.lookup name).isSome = true ↔ name ∈ entries.map Prod.fst := by
  simp only [List.lookup_isSome_iff, List.mem_map, beq_iff_eq]
  exact exists_congr fun entry => and_congr_right' eq_comm

namespace Relisted

theorem rel_lookup {mixed : List (String × Node)}
    (h : List.Forall₂ (fun entry other => entry.1 = other.1 ∧ Relisted entry.2 other.2) mixed
      others)
    (name : String) : Option.Rel Relisted (mixed.lookup name) (others.lookup name) := by
  induction h with
  | nil => exact .none
  | @cons entry other _ _ hentry _ ih =>
      obtain ⟨first, child⟩ := entry
      obtain ⟨first', child'⟩ := other
      obtain ⟨rfl, hchild⟩ := hentry
      rw [lookup_cons_eq_ite, lookup_cons_eq_ite]
      split
      · exact .some hchild
      · exact ih

/-- The entries may come in any order, and so may those below each of them. -/
theorem of_perm {mixed : List (String × Node)} (hnodup : (entries.map Prod.fst).Nodup)
    (hperm : entries.Perm mixed)
    (hbelow : List.Forall₂ (fun entry other => entry.1 = other.1 ∧ Relisted entry.2 other.2) mixed
      others) :
    Relisted (.directory entries) (.directory others) := by
  have hnames : mixed.map Prod.fst = others.map Prod.fst := by
    clear hperm
    induction hbelow with
    | nil => rfl
    | cons hentry _ ih => rw [List.map_cons, List.map_cons, hentry.1, ih]
  refine .directory (hnames ▸ hperm.map Prod.fst) fun name child child' hchild hchild' => ?_
  have hmixed : mixed.lookup name = some child := by
    rw [lookup_eq_some_iff_mem ((hperm.map Prod.fst).nodup_iff.1 hnodup), ← hperm.mem_iff]
    exact (lookup_eq_some_iff_mem hnodup).1 hchild
  have hrel := rel_lookup hbelow name
  rw [hmixed, hchild'] at hrel
  cases hrel with
  | some hrelisted => exact hrelisted

theorem lookup (h : Relisted (.directory entries) (.directory others)) (name : String) :
    Option.Rel Relisted (entries.lookup name) (others.lookup name) := by
  cases h with
  | directory names_perm below =>
      have hsome : (entries.lookup name).isSome = (others.lookup name).isSome := by
        rw [Bool.eq_iff_iff, isSome_lookup_iff, isSome_lookup_iff, names_perm.mem_iff]
      cases hchild : entries.lookup name with
      | none =>
          rw [hchild, Option.isSome_none, eq_comm, Option.isSome_eq_false_iff,
            Option.isNone_iff_eq_none] at hsome
          rw [hsome]
          exact .none
      | some child =>
          rw [hchild, Option.isSome_some, eq_comm, Option.isSome_iff_exists] at hsome
          obtain ⟨other, hother⟩ := hsome
          rw [hother]
          exact .some (below name child other hchild hother)

theorem descend (h : Relisted node other) (place : List String) :
    Option.Rel Relisted (node.descend place) (other.descend place) := by
  induction place generalizing node other with
  | nil => exact .some h
  | cons name rest ih =>
      rw [descend_cons, descend_cons]
      cases h with
      | file content => exact .none
      | directory names_perm below =>
          have hlookup := lookup (.directory names_perm below) name
          simp only [Node.entries]
          generalize List.lookup name _ = child at hlookup ⊢
          generalize List.lookup name _ = child' at hlookup ⊢
          cases hlookup with
          | none => exact .none
          | some hchild => exact ih hchild

theorem isProper (h : Relisted node other) (hproper : node.IsProper) : other.IsProper := by
  intro place others hothers
  have hplace := h.descend place
  rw [hothers] at hplace
  generalize hnode : node.descend place = found at hplace
  cases hplace with
  | some hfound =>
      cases hfound with
      | directory names_perm below =>
          obtain ⟨hnodup, hnames⟩ := hproper place _ hnode
          refine ⟨names_perm.nodup_iff.1 hnodup, fun name hname => ?_⟩
          exact hnames name (names_perm.mem_iff.2 hname)

theorem step_eq (h : Relisted top other) (place : List String) (segment : String) :
    top.step place segment = other.step place segment := by
  have hplace := h.descend place
  unfold step
  generalize top.descend place = found at hplace ⊢
  generalize other.descend place = found' at hplace ⊢
  cases hplace with
  | none => rfl
  | some hfound =>
      cases hfound with
      | file content => rfl
      | directory names_perm below =>
          simp only [isSome_lookup_iff, names_perm.mem_iff]

theorem find? (h : Relisted top other) (path : String) :
    Option.Rel Relisted (top.find? path) (other.find? path) := by
  have hstep : top.step = other.step := by
    funext place segment
    exact h.step_eq place segment
  have hlocate : top.locate path = other.locate path := by
    rw [locate, locate, hstep]
  rw [Node.find?, Node.find?, hlocate]
  cases other.locate path with
  | none => exact .none
  | some place => exact h.descend place

end Relisted

end Node

end Scriptorium
