import Scriptorium.Proofs.Batch.Settled
import Scriptorium.Proofs.Text.Joint

/-!
# Undoing a batch

The base text of a settled batch falls into pieces: what the edits leave alone, and between these
parts what each of them replaces. Written as a list of hunks, each with its old and its new part,
the batch that is undone is the same list with the two parts of every hunk exchanged. What holds of
applying the one list therefore holds of applying the other.
-/

namespace Scriptorium.Batch

/-- At the moment of its replacement, every edit has its span in the text, which the edits behind it
have already changed. -/
def Replaceable (base : String) (edits : List Edit) : Prop :=
  ∀ before edit behind, edits = before ++ edit :: behind →
    Text.Fits (splices base behind) edit.span

/-- A place at which two texts differ: what stands before it in both, and what is there in each. -/
structure Hunk where
  kept : String
  old : String
  new : String

namespace Hunk

def swap (hunk : Hunk) : Hunk :=
  ⟨hunk.kept, hunk.new, hunk.old⟩

/-- The old one of the two texts, given what they share behind the last place. -/
def text (rest : String) : List Hunk → String
  | [] => rest
  | hunk :: hunks => hunk.kept ++ hunk.old ++ text rest hunks

/-- The edits that put the new parts in the place of the old ones, behind a front. -/
def edits (front : String) : List Hunk → List Edit
  | [] => []
  | hunk :: hunks =>
      ⟨Text.middleSpan (front ++ hunk.kept) hunk.old, hunk.new⟩ ::
        edits (front ++ hunk.kept ++ hunk.old) hunks

theorem map_swap_swap (hunks : List Hunk) : (hunks.map swap).map swap = hunks := by
  rw [List.map_map]
  exact List.map_id hunks

theorem append_text_cons (front rest : String) (hunk : Hunk) (hunks : List Hunk) :
    front ++ text rest (hunk :: hunks) =
      front ++ hunk.kept ++ hunk.old ++ text rest hunks := by
  simp only [text, String.append_assoc]

theorem splices_edits (front rest : String) (hunks : List Hunk) :
    splices (front ++ text rest hunks) (edits front hunks) =
      front ++ text rest (hunks.map swap) := by
  induction hunks generalizing front with
  | nil => rfl
  | cons hunk hunks ih =>
      have hsplices := ih (front ++ hunk.kept ++ hunk.old)
      rw [← append_text_cons] at hsplices
      rw [edits, splices, List.foldr_cons, ← splices, hsplices, Text.splice_middle, List.map_cons,
        append_text_cons]
      rfl

theorem replaceable_edits (front rest : String) (hunks : List Hunk) :
    Replaceable (front ++ text rest hunks) (edits front hunks) := by
  induction hunks generalizing front with
  | nil => simp [Replaceable, edits]
  | cons hunk hunks ih =>
      intro before edit behind hsplit
      rw [append_text_cons]
      cases before with
      | nil =>
          obtain ⟨rfl, rfl⟩ := List.cons.inj hsplit
          rw [splices_edits]
          exact Text.fits_middle _ _ _
      | cons first before => exact ih _ before edit behind (List.cons.inj hsplit).2

theorem fits_edits (front rest : String) (hunks : List Hunk) :
    ∀ edit ∈ edits front hunks, Text.Fits (front ++ text rest hunks) edit.span := by
  induction hunks generalizing front with
  | nil => simp [edits]
  | cons hunk hunks ih =>
      rw [edits, append_text_cons, List.forall_mem_cons]
      exact ⟨Text.fits_middle _ _ _, ih (front ++ hunk.kept ++ hunk.old)⟩

theorem settled_edits (front : String) (hunks : List Hunk) :
    Settled (edits front hunks) ∧
      ∀ edit ∈ edits front hunks, Text.size front ≤ edit.span.start := by
  induction hunks generalizing front with
  | nil => exact ⟨settled_nil, by simp [edits]⟩
  | cons hunk hunks ih =>
      obtain ⟨hsettled, hbehind⟩ := ih (front ++ hunk.kept ++ hunk.old)
      have hsize : Text.size front ≤ Text.size (front ++ hunk.kept) := by
        rw [Text.size_append]
        exact Nat.le_add_right _ _
      have hsize' : Text.size (front ++ hunk.kept) ≤
          Text.size (front ++ hunk.kept ++ hunk.old) := by
        rw [Text.size_append _ hunk.old]
        exact Nat.le_add_right _ _
      rw [edits, settled_cons, List.forall_mem_cons]
      refine ⟨⟨hsize', hbehind, hsettled⟩, hsize, fun edit hedit => ?_⟩
      have := hbehind edit hedit
      omega

/-- Behind a hunk, the shift has changed by the growth of its edit. -/
theorem size_append_swap {front front' : String} {shift : Int}
    (hshift : (Text.size front' : Int) = Text.size front + shift) (hunk : Hunk) :
    (Text.size (front' ++ hunk.kept ++ hunk.new) : Int) =
      Text.size (front ++ hunk.kept ++ hunk.old) +
        (shift + Edit.growth ⟨Text.middleSpan (front ++ hunk.kept) hunk.old, hunk.new⟩) := by
  simp only [Edit.growth, Text.middleSpan, Span.length_mk, Text.size_append]
  omega

/-- Undoing the edits of hunks is the edits of the swapped hunks, where the front has become another
one that is longer by the shift. -/
theorem inverses_edits {front front' : String} {shift : Int}
    (hshift : (Text.size front' : Int) = Text.size front + shift) (rest : String)
    (hunks : List Hunk) :
    inverses (front ++ text rest hunks) shift (edits front hunks) =
      .ok (edits front' (hunks.map swap)) := by
  induction hunks generalizing front front' shift with
  | nil => rfl
  | cons hunk hunks ih =>
      have hfits := Text.fits_middle (front ++ hunk.kept) hunk.old (text rest hunks)
      have hslice := Text.slice_middle (front ++ hunk.kept) hunk.old (text rest hunks)
      have hstart : ((Text.size (front ++ hunk.kept) : Int) + shift).toNat =
          Text.size (front' ++ hunk.kept) := by
        simp only [Text.size_append]
        omega
      have hstop : Text.size (front' ++ hunk.kept) + Text.size hunk.new =
          Text.size (front' ++ hunk.kept ++ hunk.new) := by
        rw [Text.size_append _ hunk.new]
      have hrest := ih (size_append_swap hshift hunk)
      rw [← append_text_cons] at hrest hfits hslice
      rw [edits, inverses, Text.check_eq_ok_iff.2 hfits, hrest, hslice]
      simp only [bind, Except.bind, pure, Except.pure, Text.middleSpan, hstart, hstop]
      rfl

theorem map_text_edits (front : String) (hunks : List Hunk) :
    (edits front hunks).map Edit.text = hunks.map new := by
  induction hunks generalizing front with
  | nil => rfl
  | cons hunk hunks ih =>
      rw [edits, List.map_cons, ih, List.map_cons]

theorem map_slice_edits (front rest : String) (hunks : List Hunk) :
    ((edits front hunks).map fun edit => Text.slice (front ++ text rest hunks) edit.span) =
      hunks.map old := by
  induction hunks generalizing front with
  | nil => rfl
  | cons hunk hunks ih =>
      have hslice := Text.slice_middle (front ++ hunk.kept) hunk.old (text rest hunks)
      rw [edits, append_text_cons, List.map_cons, hslice, ih, List.map_cons]

/-- A batch that is settled and fits a text cuts it into hunks. -/
theorem exists_hunks {front remaining : String} {settled : List Edit} (hsettled : Settled settled)
    (hbehind : ∀ edit ∈ settled, Text.size front ≤ edit.span.start)
    (hfits : ∀ edit ∈ settled, Text.Fits (front ++ remaining) edit.span) :
    ∃ hunks rest, remaining = text rest hunks ∧ settled = edits front hunks := by
  induction settled generalizing front remaining with
  | nil => exact ⟨[], remaining, rfl, rfl⟩
  | cons edit others ih =>
      obtain ⟨hupright, hapart, hothers⟩ := settled_cons.1 hsettled
      obtain ⟨hfront, -⟩ := List.forall_mem_cons.1 hbehind
      obtain ⟨⟨-, -, hstart, hstop⟩, hfits'⟩ := List.forall_mem_cons.1 hfits
      obtain ⟨kept, behind, rfl, hkept⟩ := Text.exists_append_of_isBoundary hstart hfront
      rw [← String.append_assoc] at hstop hfits'
      obtain ⟨old, remaining, rfl, hold⟩ :=
        Text.exists_append_of_isBoundary hstop (by rwa [hkept])
      rw [← String.append_assoc] at hfits'
      obtain ⟨hunks, rest, rfl, rfl⟩ := ih hothers (by rwa [hold]) hfits'
      refine ⟨⟨kept, old, edit.text⟩ :: hunks, rest, ?_, ?_⟩
      · rw [text, String.append_assoc]
      · rw [edits, Text.middleSpan, hkept, hold]

theorem exists_hunks_of_settle {base : String} {given settled : List Edit}
    (hsettle : (settle given).value = .ok settled)
    (hfits : ∀ edit ∈ settled, Text.Fits base edit.span) :
    ∃ hunks rest, base = text rest hunks ∧ settled = edits "" hunks := by
  apply exists_hunks (settled_of_settle hsettle)
  · intro edit _
    exact Nat.zero_le _
  · rwa [String.empty_append]

/-- Every undoing edit starts where its edit starts, moved by what all edits before it have
added. -/
theorem exists_start_eq {front front' : String} {start : Int}
    (hstart : (Text.size front' : Int) = Text.size front + start) (hunks : List Hunk) {i : Nat}
    {edit : Edit} (hedit : (edits front hunks)[i]? = some edit) :
    ∃ undone, (edits front' (hunks.map swap))[i]? = some undone ∧
      (undone.span.start : Int) = edit.span.start + (start + shift (edits front hunks) i) := by
  induction hunks generalizing front front' start i with
  | nil => simp [edits] at hedit
  | cons hunk hunks ih =>
      cases i with
      | zero =>
          obtain rfl : _ = edit := Option.some.inj hedit
          refine ⟨_, rfl, ?_⟩
          simp only [edits, shift, Text.middleSpan, swap, Text.size_append]
          omega
      | succ i =>
          obtain ⟨undone, hundone, hundone_start⟩ := ih (size_append_swap hstart hunk) hedit
          refine ⟨undone, hundone, ?_⟩
          rw [hundone_start, edits, shift]
          omega

end Hunk

variable {edits settled : List Edit} {base : String} {cause : Error}

theorem value_eq_error_of_settle (h : (settle edits).value = .error cause) :
    (apply base edits).value = .error cause ∧ (invert base edits).value = .error cause := by
  rw [apply, invert, Logged.map_value, Logged.map_value, h]
  exact ⟨rfl, rfl⟩

theorem value_eq_error_of_check (hsettle : (settle edits).value = .ok settled)
    (hcheck : check base settled = .error cause) :
    (apply base edits).value = .error cause ∧ (invert base edits).value = .error cause := by
  rw [value_apply_of_settle hsettle, value_invert_of_settle hsettle, hcheck]
  refine ⟨rfl, ?_⟩
  have hmap := map_inverses base 0 settled
  rw [hcheck] at hmap
  cases hinverses : inverses base 0 settled with
  | error cause' => simpa [hinverses, Except.map] using hmap
  | ok others => simp [hinverses, Except.map] at hmap

theorem value_apply_hunks (rest : String) (hunks : List Hunk)
    (hsettle : (settle edits).value = .ok (Hunk.edits "" hunks)) :
    (apply (Hunk.text rest hunks) edits).value = .ok (Hunk.text rest (hunks.map Hunk.swap)) := by
  have hfits := Hunk.fits_edits "" rest hunks
  have hsplices := Hunk.splices_edits "" rest hunks
  simp only [String.empty_append] at hfits hsplices
  rw [value_apply_of_settle hsettle, check_batch_eq_ok_iff.2 hfits, hsplices]
  rfl

theorem value_invert_hunks (rest : String) (hunks : List Hunk)
    (hsettle : (settle edits).value = .ok (Hunk.edits "" hunks)) :
    (invert (Hunk.text rest hunks) edits).value = .ok (Hunk.edits "" (hunks.map Hunk.swap)) := by
  have hsize : (Text.size "" : Int) = Text.size "" + 0 := (Int.add_zero _).symm
  have hinverses := Hunk.inverses_edits hsize rest hunks
  rw [String.empty_append] at hinverses
  rw [value_invert_of_settle hsettle, hinverses]

/-- A batch that can be applied cuts its base text into hunks, whose new parts make up the
result. -/
theorem Hunk.exists_hunks_of_apply {result : String}
    (happly : (apply base edits).value = .ok result) :
    ∃ hunks rest, base = Hunk.text rest hunks ∧
      (settle edits).value = .ok (Hunk.edits "" hunks) ∧
        result = Hunk.text rest (hunks.map Hunk.swap) := by
  cases hsettle : (settle edits).value with
  | error cause =>
      rw [(value_eq_error_of_settle hsettle).1] at happly
      cases happly
  | ok settled =>
      cases hcheck : check base settled with
      | error cause =>
          rw [(value_eq_error_of_check hsettle hcheck).1] at happly
          cases happly
      | ok _ =>
          obtain ⟨hunks, rest, rfl, rfl⟩ :=
            Hunk.exists_hunks_of_settle hsettle (check_batch_eq_ok_iff.1 hcheck)
          rw [value_apply_hunks rest hunks hsettle] at happly
          exact ⟨hunks, rest, rfl, rfl, (Except.ok.inj happly).symm⟩

/-- A batch and its inverse fail together, and with one error. When they succeed, the inverse is a
settled batch that fits the edited text and takes it back to the base text. -/
theorem apply_invert (base : String) (edits : List Edit) :
    (∀ settled, (settle edits).value = .ok settled → ∀ i edit, settled[i]? = some edit →
      0 ≤ (edit.span.start : Int) + shift settled i) ∧
    ((∃ cause, (apply base edits).value = .error cause ∧
      (invert base edits).value = .error cause) ∨
    ∃ settled text inverse, (settle edits).value = .ok settled ∧
      (apply base edits).value = .ok text ∧ Replaceable base settled ∧
      (invert base edits).value = .ok inverse ∧
      (∀ i edit, settled[i]? = some edit → ∃ undone, inverse[i]? = some undone ∧
        (undone.span.start : Int) = edit.span.start + shift settled i) ∧
      settle inverse = .silent (.ok inverse) ∧
      (∀ undone ∈ inverse, Text.Fits text undone.span) ∧
      (apply text inverse).value = .ok base ∧ Replaceable text inverse) := by
  constructor
  · intro settled hsettle i edit hedit
    have hsettled := settled_of_settle hsettle
    exact hsettled.le_start_add_shift (fun _ _ => Nat.zero_le _) hedit
  cases hsettle : (settle edits).value with
  | error cause => exact .inl ⟨cause, value_eq_error_of_settle hsettle⟩
  | ok settled =>
      cases hcheck : check base settled with
      | error cause => exact .inl ⟨cause, value_eq_error_of_check hsettle hcheck⟩
      | ok _ =>
          obtain ⟨hunks, rest, rfl, rfl⟩ :=
            Hunk.exists_hunks_of_settle hsettle (check_batch_eq_ok_iff.1 hcheck)
          have hkept := settle_of_settled (Hunk.settled_edits "" (hunks.map Hunk.swap)).1
          have hback := value_apply_hunks rest (hunks.map Hunk.swap) (congrArg Logged.value hkept)
          rw [Hunk.map_swap_swap] at hback
          have hreplaceable := Hunk.replaceable_edits "" rest
          have hfits := Hunk.fits_edits "" rest
          simp only [String.empty_append] at hreplaceable hfits
          refine .inr ⟨_, _, _, rfl, value_apply_hunks rest hunks hsettle, hreplaceable hunks,
            value_invert_hunks rest hunks hsettle, ?_, hkept, hfits _, hback, hreplaceable _⟩
          intro i edit hedit
          have hsize : (Text.size "" : Int) = Text.size "" + 0 := (Int.add_zero _).symm
          obtain ⟨undone, hundone, hstart⟩ := Hunk.exists_start_eq hsize hunks hedit
          exact ⟨undone, hundone, by rw [hstart, Int.zero_add]⟩

/-- Two deletions side by side are undone by two insertions at one offset, in their order. -/
example : (invert "añb" [⟨⟨1, 3⟩, ""⟩, ⟨⟨3, 4⟩, ""⟩]).value =
    .ok [⟨⟨1, 1⟩, "ñ"⟩, ⟨⟨1, 1⟩, "b"⟩] := by
  cbv

/-! ### Undoing what was undone -/

/-- **Undoing the undoing gives the settled batch back.** The inverse of a batch has one edit for
each settled one and is settled as it stands. Its spans cover in the edited text just the texts that
were put there, and its own inverse is the settled batch. -/
theorem invert_invert {base text : String} {edits inverse : List Edit}
    (happly : (apply base edits).value = .ok text)
    (hinvert : (invert base edits).value = .ok inverse) :
    ∃ settled, (settle edits).value = .ok settled ∧ inverse.length = settled.length ∧
      settle inverse = .silent (.ok inverse) ∧
      (∀ undone ∈ inverse, Text.Fits text undone.span) ∧
      (inverse.map fun undone => Text.slice text undone.span) = settled.map Edit.text ∧
      (invert text inverse).value = .ok settled := by
  obtain ⟨hunks, rest, rfl, hsettle, rfl⟩ := Hunk.exists_hunks_of_apply happly
  rw [value_invert_hunks rest hunks hsettle] at hinvert
  obtain rfl := Except.ok.inj hinvert
  have hfits := Hunk.fits_edits "" rest (hunks.map Hunk.swap)
  have hslices := Hunk.map_slice_edits "" rest (hunks.map Hunk.swap)
  simp only [String.empty_append] at hfits hslices
  have htexts : (Hunk.edits "" hunks).map Edit.text = (hunks.map Hunk.swap).map Hunk.old := by
    rw [Hunk.map_text_edits, List.map_map]
    rfl
  -- the inverse is the batch of the swapped hunks, so all that holds of batches holds of it
  have hkept := settle_of_settled (Hunk.settled_edits "" (hunks.map Hunk.swap)).1
  have hback := value_invert_hunks rest (hunks.map Hunk.swap) (congrArg Logged.value hkept)
  rw [Hunk.map_swap_swap] at hback
  have hslices_eq := hslices.trans htexts.symm
  have hlength := congrArg List.length hslices_eq
  rw [List.length_map, List.length_map] at hlength
  exact ⟨_, hsettle, hlength, hkept, hfits, hslices_eq, hback⟩

/-- An insertion in front of a replacement and two deletions side by side, which leave one offset to
both of their inverses. The insertion into the first deletion is nested and not among the settled
edits. -/
theorem invert_invert_touching :
    let edits : List Edit :=
      [⟨⟨4, 5⟩, ""⟩, .insert 1 "x", ⟨⟨3, 4⟩, ""⟩, ⟨⟨1, 3⟩, "nn"⟩, .insert 3 "y"]
    let inverse : List Edit := [⟨⟨1, 2⟩, ""⟩, ⟨⟨2, 4⟩, "ñ"⟩, ⟨⟨4, 4⟩, "b"⟩, ⟨⟨4, 4⟩, "c"⟩]
    (apply "añbcd" edits).value = .ok "axnnd" ∧ (invert "añbcd" edits).value = .ok inverse ∧
      ∃ settled, (settle edits).value = .ok settled ∧ inverse.length = settled.length ∧
        settle inverse = .silent (.ok inverse) ∧
        (∀ undone ∈ inverse, Text.Fits "axnnd" undone.span) ∧
        (inverse.map fun undone => Text.slice "axnnd" undone.span) = settled.map Edit.text ∧
        (invert "axnnd" inverse).value = .ok settled := by
  intro edits inverse
  have hsorted : sorted edits =
      [.insert 1 "x", ⟨⟨1, 3⟩, "nn"⟩, ⟨⟨3, 4⟩, ""⟩, .insert 3 "y", ⟨⟨4, 5⟩, ""⟩] := by
    simp [edits, sorted, List.mergeSort, List.MergeSort.Internal.splitInTwo, Edit.insert]
  have hsettle : (settle edits).value =
      .ok [.insert 1 "x", ⟨⟨1, 3⟩, "nn"⟩, ⟨⟨3, 4⟩, ""⟩, ⟨⟨4, 5⟩, ""⟩] := by
    rw [settle_of_upright (by decide), hsorted]
    rfl
  have happly : (apply "añbcd" edits).value = .ok "axnnd" := by
    rw [value_apply_of_settle hsettle]
    rfl
  have hinvert : (invert "añbcd" edits).value = .ok inverse := by
    rw [value_invert_of_settle hsettle]
    rfl
  exact ⟨happly, hinvert, invert_invert happly hinvert⟩

end Scriptorium.Batch
