import Mathlib.Data.List.Forall2
import Scriptorium.Proofs.Change.Collapse

/-!
# Collapsing in stages

The change that covers consecutive edits, with the length of the text after them, is itself the
record of an edit: the one that puts in at once what the edits have left in their place. So
consecutive edits can be collapsed block by block, and the results collapsed again. The least start
of all edits is the least among the least starts of the blocks, the same holds of what stands behind
the edits, and the sizes of the two outer texts settle the rest.
-/

namespace Scriptorium

namespace Change

/-- One record in the place of consecutive ones: the change that covers them, with the length of the
text after the last of them. -/
def condense (records : List Record) : Except Error (Option Record) :=
  (collapse records).map fun change => do
    let last ← records.getLast?
    return ⟨last.resultingSize, ← change⟩

/-- The edit that makes a change between two texts at once. -/
def splice (change : Change) (old new : String) : Splice :=
  ⟨old, change.span, Text.slice new change.newSpan⟩

variable {change other : Change} {old new : String} {splices others : List Splice}

theorem Exact.new_splice (h : Exact change old new splices) : (change.splice old new).new = new :=
  h.splice_eq

theorem Exact.record_splice (h : Exact change old new splices) :
    (change.splice old new).record = ⟨Text.size new, change⟩ := by
  have hinserted : Text.size (Text.slice new change.newSpan) = change.inserted := by
    rw [Text.size_slice h.fits_new, newSpan, Span.length_mk, Nat.add_sub_cancel_left]
  unfold Splice.record
  rw [h.new_splice]
  change (⟨_, ⟨change.span, Text.size (Text.slice new change.newSpan)⟩⟩ : Record) = _
  rw [hinserted]

theorem Exact.leads_splice (h : Exact change old new splices) :
    Splice.Leads old [change.splice old new] new :=
  ⟨rfl, h.fits_old, h.new_splice⟩

theorem Exact.unique (h : Exact change old new splices) (h' : Exact other old new others)
    (hstart : (splices.map fun splice => splice.span.start).min? =
      (others.map fun splice => splice.span.start).min?)
    (hback : (splices.map Splice.back).min? = (others.map Splice.back).min?) :
    change = other := by
  rw [h'.start_eq] at hstart
  rw [h'.back_eq] at hback
  exact (h.eq_of_least hstart hback).trans (h'.eq_of_least h'.start_eq h'.back_eq).symm

end Change

theorem min?_append {left right : List Nat} {least : Nat} (h : left.min? = some least) :
    (left ++ right).min? = some (min least (right.min?.getD least)) := by
  cases left with
  | nil => cases h
  | cons first rest =>
      rw [List.min?_cons', Option.some.injEq] at h
      rw [List.cons_append, List.min?_cons', List.foldl_append, h, List.foldl_min]

/-- In a list of edits, one that has the least value of some of them can stand for these. -/
theorem min?_map_append {left right others : List Splice} {splice : Splice} {f : Splice → Nat}
    (hleft : (left.map f).min? = some (f splice))
    (hright : (right.map f).min? = (others.map f).min?) :
    ((left ++ right).map f).min? = ((splice :: others).map f).min? := by
  have hsplice : [f splice].min? = some (f splice) := rfl
  calc
    ((left ++ right).map f).min? = some (min (f splice) ((right.map f).min?.getD (f splice))) := by
      rw [List.map_append, min?_append hleft]
    _ = ([f splice] ++ others.map f).min? := by rw [hright, min?_append hsplice]
    _ = ((splice :: others).map f).min? := rfl

namespace Splice.Leads

variable {old new : String} {splices : List Splice}

/-- Between texts whose offsets are words, the collapsed change is the exact one. -/
theorem collapse_eq_exact (h : Leads old splices new) (hne : splices ≠ [])
    (hsize : Text.size old < wordCount) :
    ∃ change, Change.Exact change old new splices ∧
      Change.collapse (splices.map record) = .ok (some change) := by
  obtain ⟨-, change, hexact, -, hcollapse⟩ := h.collapse_eq hne
  have hword : wordOfInt change.span.stop = change.span.stop :=
    wordOfInt_natCast (Nat.lt_of_le_of_lt hexact.fits_old.2.1 hsize)
  rw [hword] at hcollapse
  exact ⟨change, hexact, hcollapse⟩

theorem condense_eq (h : Leads old splices new) (hne : splices ≠ [])
    (hsize : Text.size old < wordCount) :
    ∃ change, Change.Exact change old new splices ∧
      Change.condense (splices.map record) = .ok (some (change.splice old new).record) := by
  obtain ⟨change, hexact, hcollapse⟩ := h.collapse_eq_exact hne hsize
  obtain ⟨last, hlast⟩ := Option.isSome_iff_exists.1 (List.getLast?_isSome.2 hne)
  have hlast' : (splices.map record).getLast? = some last.record := by
    rw [List.getLast?_map, hlast]
    rfl
  have hresult : last.record.resultingSize = Text.size new :=
    congrArg Text.size (h.getLast_new hlast)
  refine ⟨change, hexact, ?_⟩
  rw [Change.condense, hcollapse, hexact.record_splice, hlast', ← hresult]
  rfl

theorem size_old_lt (h : Leads old splices new)
    (hsize : ∀ splice ∈ splices, Text.size splice.old < wordCount) (hne : splices ≠ []) :
    Text.size old < wordCount := by
  obtain ⟨first, rest, rfl⟩ := List.exists_cons_of_ne_nil hne
  rw [← h.1]
  exact hsize first List.mem_cons_self

/-- Blocks of consecutive edits become single edits between the same texts. -/
theorem exists_condensed {blocks : List (List Record)} (h : Leads old splices new)
    (hsize : ∀ splice ∈ splices, Text.size splice.old < wordCount)
    (hne : ∀ block ∈ blocks, block ≠ []) (hcut : splices.map record = blocks.flatten) :
    ∃ condensed : List Splice, Leads old condensed new ∧
      List.Forall₂ (fun block splice => Change.condense block = .ok (some splice.record))
        blocks condensed ∧
      (splices.map fun splice => splice.span.start).min? =
        (condensed.map fun splice => splice.span.start).min? ∧
      (splices.map back).min? = (condensed.map back).min? := by
  induction blocks generalizing old splices with
  | nil =>
      obtain rfl : splices = [] := List.map_eq_nil_iff.1 hcut
      exact ⟨[], h, .nil, rfl, rfl⟩
  | cons block blocks ih =>
      -- the first block is a chain of its own, from the same text to the one before the next block
      obtain ⟨hblock, hblocks⟩ := List.forall_mem_cons.1 hne
      obtain ⟨left, right, rfl, rfl, hright⟩ := List.map_eq_append_iff.1 hcut
      obtain ⟨middle, hleads, hleads'⟩ := h.exists_of_append
      obtain ⟨hsizeLeft, hsizeRight⟩ := List.forall_mem_append.1 hsize
      have hleft : left ≠ [] := by
        rintro rfl
        exact hblock rfl
      have hold := hleads.size_old_lt hsizeLeft hleft
      obtain ⟨change, hexact, hcondense⟩ := hleads.condense_eq hleft hold
      obtain ⟨condensed, hcondensed, hall, hstart, hback⟩ := ih hleads' hsizeRight hblocks hright
      exact ⟨change.splice old middle :: condensed, hexact.leads_splice.append hcondensed,
        .cons hcondense hall, min?_map_append hexact.start_eq hstart,
        min?_map_append hexact.back_eq hback⟩

/-- It makes no difference whether a chain of edits is collapsed at once or in blocks first. -/
theorem collapse_condensed {blocks : List (List Record)} (h : Leads old splices new)
    (hsize : ∀ splice ∈ splices, Text.size splice.old < wordCount)
    (hne : ∀ block ∈ blocks, block ≠ []) (hcut : splices.map record = blocks.flatten) :
    ∃ condensed, List.Forall₂ (fun block record => Change.condense block = .ok (some record))
        blocks condensed ∧
      Change.collapse condensed = Change.collapse blocks.flatten ∧
      (blocks ≠ [] → ∃ change, Change.collapse blocks.flatten = .ok (some change)) := by
  obtain ⟨condensed, hleads, hall, hstart, hback⟩ := h.exists_condensed hsize hne hcut
  have hrecords : List.Forall₂ (fun block record => Change.condense block = .ok (some record))
      blocks (condensed.map record) := by
    rwa [List.forall₂_map_right_iff]
  refine ⟨condensed.map record, hrecords, ?_⟩
  cases blocks with
  | nil =>
      obtain rfl := List.forall₂_nil_left_iff.1 hall
      exact ⟨rfl, fun hnil => absurd rfl hnil⟩
  | cons block blocks =>
      have hnil : splices ≠ [] := by
        rintro rfl
        obtain ⟨hblock, -⟩ := List.append_eq_nil_iff.1 hcut.symm
        exact hne block List.mem_cons_self hblock
      have hnil' : condensed ≠ [] := by
        rintro rfl
        cases hall
      have hold := h.size_old_lt hsize hnil
      obtain ⟨change, hexact, hcollapse⟩ := h.collapse_eq_exact hnil hold
      obtain ⟨other, hexact', hcollapse'⟩ := hleads.collapse_eq_exact hnil' hold
      -- the two chains lead between the same texts, so nothing else can tell the changes apart
      obtain rfl := hexact.unique hexact' hstart hback
      rw [← hcut, hcollapse, hcollapse']
      exact ⟨rfl, fun _ => ⟨change, rfl⟩⟩

end Splice.Leads

namespace Change.Exact

variable {first second whole : Change} {old middle new : String} {splices others : List Splice}

/-- Two changes, one after the other, collapse to the change that covers the edits of both. -/
theorem collapse_pair (h : Exact first old middle splices) (h' : Exact second middle new others)
    (hwhole : Exact whole old new (splices ++ others)) (hsize : Text.size old < wordCount) :
    collapse [⟨Text.size middle, first⟩, ⟨Text.size new, second⟩] = .ok (some whole) := by
  let pair := [first.splice old middle, second.splice middle new]
  have hpair : Splice.Leads old pair new := h.leads_splice.append h'.leads_splice
  have hrecords : pair.map Splice.record =
      [⟨Text.size middle, first⟩, ⟨Text.size new, second⟩] := by
    simp only [pair, List.map_cons, List.map_nil, h.record_splice, h'.record_splice]
  obtain ⟨change, hexact, hcollapse⟩ := hpair.collapse_eq_exact (List.cons_ne_nil _ _) hsize
  have hstart : ((splices ++ others).map fun splice => splice.span.start).min? =
      (pair.map fun splice => splice.span.start).min? :=
    min?_map_append h.start_eq h'.start_eq
  have hback : ((splices ++ others).map Splice.back).min? = (pair.map Splice.back).min? :=
    min?_map_append h.back_eq h'.back_eq
  obtain rfl := hwhole.unique hexact hstart hback
  rw [← hrecords, hcollapse]

end Change.Exact

end Scriptorium
