import Scriptorium.Proofs.Batch.Undo
import Scriptorium.Proofs.Change.Condense
import Scriptorium.Proofs.Document.Window

/-!
# A batch made edit by edit

The edits of a settled batch can be made on a document one by one. From the last to the first, each
finds its span where the batch says, because nothing in front of it has changed yet. From the first
to the last, each finds it moved by what the edits before it have added. The two runs meet different
texts on their way and leave different records, but they end with the same text, and in both of
them the least start is that of the first edit and the least back that of the last.
-/

namespace Scriptorium

/-- Makes edits on a document one after another, until one of them is refused. -/
def Document.editAll (document : Document) : List Edit → Except Error Document
  | [] => .ok document
  | edit :: rest => do
      let result ← document.edit edit.span edit.text
      result.value.1.editAll rest

/-- The edits of a batch where they stand once those before them have been made. -/
def Batch.moved (shift : Int) : List Edit → List Edit
  | [] => []
  | edit :: rest =>
      ⟨⟨(edit.span.start + shift).toNat, (edit.span.stop + shift).toNat⟩, edit.text⟩ ::
        moved (shift + edit.growth) rest

/-! ### Making the edits of a chain -/

namespace Splice

def toEdit (splice : Splice) : Edit :=
  ⟨splice.span, splice.inserted⟩

def toAction (splice : Splice) : Document.Action :=
  .edit splice.span splice.inserted

namespace Leads

variable {document : Document} {new : String} {splices : List Splice}

theorem editAll_eq (h : Leads document.text splices new) :
    document.editAll (splices.map toEdit) = .ok (document.performAll (splices.map toAction)) ∧
      document.accepted (splices.map toAction) = splices := by
  induction splices generalizing document with
  | nil => exact ⟨rfl, rfl⟩
  | cons splice rest ih =>
      obtain ⟨old, span, inserted⟩ := splice
      obtain ⟨hold, hfits, hrest⟩ := h
      obtain rfl : old = document.text := hold
      have hspan : Text.Fits document.text span := hfits
      have hperform : document.perform (.edit span inserted) = document.spliced span inserted := by
        rw [Document.perform_edit, if_pos hspan]
      have hnext : Leads (document.spliced span inserted).text rest new := hrest
      obtain ⟨hall, haccepted⟩ := ih hnext
      simp only [List.map_cons, toEdit, toAction]
      constructor
      · rw [Document.editAll, Document.edit_eq_ok hspan, Document.performAll_cons, hperform]
        exact hall
      · rw [Document.accepted, hperform, Document.acceptedBy, if_pos hspan]
        exact congrArg (⟨document.text, span, inserted⟩ :: ·) haccepted

/-- A document whose history has no limit accepts a chain of edits one by one, and answers for the
version before them with the change that covers them all. -/
theorem exists_editAll (h : Leads document.text splices new) (hsound : document.Sound)
    (hlimit : document.history.limit = none) (hsize : document.size < wordCount) :
    ∃ final, document.editAll (splices.map toEdit) = .ok final ∧ final.text = new ∧
      final.version = document.version + splices.length ∧
      (splices = [] → final.deltaSince document.version = .ok .unchanged) ∧
      (splices ≠ [] → ∃ change, Change.Exact change document.text new splices ∧
        final.deltaSince document.version = .ok (.changed change)) := by
  obtain ⟨hall, haccepted⟩ := h.editAll_eq
  let final := document.performAll (splices.map toAction)
  have hfinal : final.Sound := hsound.performAll _
  have hsince : Document.Since document splices final :=
    haccepted ▸ Document.since_performAll hsound (splices.map toAction)
  have hedits : ∀ action ∈ splices.map toAction, action.isEdit = true := by
    intro action haction
    obtain ⟨splice, -, rfl⟩ := List.mem_map.1 haction
    rfl
  have hbase : final.history.base = document.history.base := by
    rw [Document.history_performAll_of_edits hlimit hedits]
  have hreach : final.history.base ≤ document.version := by
    rw [hbase, hsound.version_eq]
    exact Nat.le_add_right _ _
  have hversion := hsince.version_eq hfinal hreach
  have htext : final.text = new := (hsince.leads hreach).unique h
  refine ⟨final, hall, htext, hversion, ?_, ?_⟩
  · rintro rfl
    exact Document.deltaSince_self document
  · intro hne
    have hpos := List.length_pos_of_ne_nil hne
    obtain ⟨delta, hdelta, hunchanged, hunknown, hchanged⟩ := hsince.exists_deltaSince hfinal hsize
    cases delta with
    | unchanged =>
        have := (hunchanged rfl).1
        omega
    | unknown =>
        have := hunknown rfl
        omega
    | changed change =>
        have hexact := (hchanged change rfl).2.1
        rw [htext] at hexact
        exact ⟨change, hexact, hdelta⟩

end Leads

/-! ### What a chain leaves alone -/

/-- The least start and the least back of some edits. -/
structure Extent (start back : Nat) (splices : List Splice) : Prop where
  start_eq : (splices.map fun splice => splice.span.start).min? = some start
  back_eq : (splices.map Splice.back).min? = some back

theorem Extent.append {start start' back back' : Nat} {left right : List Splice}
    (h : Extent start back left) (h' : Extent start' back' right) :
    Extent (min start start') (min back back') (left ++ right) := by
  constructor
  · rw [List.map_append, min?_append h.start_eq, h'.start_eq]
    rfl
  · rw [List.map_append, min?_append h.back_eq, h'.back_eq]
    rfl

end Splice

namespace Batch.Hunk

theorem size_rest_le (rest : String) (hunks : List Hunk) :
    Text.size rest ≤ Text.size (text rest hunks) := by
  induction hunks with
  | nil => exact Nat.le_refl _
  | cons hunk hunks ih =>
      rw [text, Text.size_append]
      exact Nat.le_add_left_of_le ih

theorem back_middle (front middle behind inserted : String) :
    Splice.back ⟨front ++ middle ++ behind, Text.middleSpan front middle, inserted⟩ =
      Text.size behind := by
  rw [Splice.back, Text.middleSpan, Text.size_append (front ++ middle), Nat.add_sub_cancel_left]

theorem leads_middle (front middle behind inserted : String) :
    Splice.Leads (front ++ middle ++ behind)
      [⟨front ++ middle ++ behind, Text.middleSpan front middle, inserted⟩]
      (front ++ inserted ++ behind) :=
  ⟨rfl, Text.fits_middle front middle behind, Text.splice_middle front middle behind inserted⟩

/-- The edits of hunks from the last to the first. What stands behind each has been edited. -/
def descending (front rest : String) : List Hunk → List Splice
  | [] => []
  | hunk :: hunks =>
      descending (front ++ hunk.kept ++ hunk.old) rest hunks ++
        [⟨front ++ hunk.kept ++ hunk.old ++ text rest (hunks.map swap),
          Text.middleSpan (front ++ hunk.kept) hunk.old, hunk.new⟩]

/-- The edits of hunks from the first to the last. What stands in front of each has been edited. -/
def ascending (front rest : String) : List Hunk → List Splice
  | [] => []
  | hunk :: hunks =>
      ⟨front ++ hunk.kept ++ hunk.old ++ text rest hunks,
          Text.middleSpan (front ++ hunk.kept) hunk.old, hunk.new⟩ ::
        ascending (front ++ hunk.kept ++ hunk.new) rest hunks

theorem leads_descending (front rest : String) (hunks : List Hunk) :
    Splice.Leads (front ++ text rest hunks) (descending front rest hunks)
      (front ++ text rest (hunks.map swap)) := by
  induction hunks generalizing front with
  | nil => rfl
  | cons hunk hunks ih =>
      rw [append_text_cons, List.map_cons, append_text_cons]
      exact (ih _).append (leads_middle _ _ _ _)

theorem leads_ascending (front rest : String) (hunks : List Hunk) :
    Splice.Leads (front ++ text rest hunks) (ascending front rest hunks)
      (front ++ text rest (hunks.map swap)) := by
  induction hunks generalizing front with
  | nil => rfl
  | cons hunk hunks ih =>
      rw [append_text_cons, List.map_cons, append_text_cons]
      exact (leads_middle _ _ _ _).append (ih _)

theorem toEdit_descending (front rest : String) (hunks : List Hunk) :
    (descending front rest hunks).map Splice.toEdit = (edits front hunks).reverse := by
  induction hunks generalizing front with
  | nil => rfl
  | cons hunk hunks ih =>
      rw [descending, List.map_append, ih, edits, List.reverse_cons]
      rfl

theorem toEdit_ascending {front front' : String} {shift : Int}
    (hshift : (Text.size front' : Int) = Text.size front + shift) (rest : String)
    (hunks : List Hunk) :
    (ascending front' rest hunks).map Splice.toEdit = moved shift (edits front hunks) := by
  induction hunks generalizing front front' shift with
  | nil => rfl
  | cons hunk hunks ih =>
      have hspan : Text.middleSpan (front' ++ hunk.kept) hunk.old =
          ⟨((Text.middleSpan (front ++ hunk.kept) hunk.old).start + shift).toNat,
            ((Text.middleSpan (front ++ hunk.kept) hunk.old).stop + shift).toNat⟩ := by
        simp only [Text.middleSpan, Text.size_append, Span.mk.injEq]
        omega
      rw [ascending, List.map_cons, ih (size_append_swap hshift hunk), edits, moved, Splice.toEdit,
        hspan]

theorem extent_middle (front middle behind inserted : String) :
    Splice.Extent (Text.size front) (Text.size behind)
      [⟨front ++ middle ++ behind, Text.middleSpan front middle, inserted⟩] := by
  constructor
  · rfl
  · rw [List.map_singleton, back_middle]
    rfl

theorem size_le_append_append (front middle kept : String) :
    Text.size front ≤ Text.size (front ++ middle ++ kept) := by
  simp only [Text.size_append]
  omega

/-- In either order the least start is that of the first edit, and the least back that of the last:
what stands in front of the other edits, and behind them, is all the longer. -/
theorem extent_descending (front rest : String) (hunk : Hunk) (hunks : List Hunk) :
    Splice.Extent (Text.size (front ++ hunk.kept)) (Text.size rest)
      (descending front rest (hunk :: hunks)) := by
  induction hunks generalizing front hunk with
  | nil => exact extent_middle _ _ _ _
  | cons next hunks ih =>
      have hextent := (ih (front ++ hunk.kept ++ hunk.old) next).append
        (extent_middle (front ++ hunk.kept) hunk.old (text rest ((next :: hunks).map swap))
          hunk.new)
      rwa [Nat.min_eq_right (size_le_append_append _ _ _), Nat.min_eq_left (size_rest_le _ _)]
        at hextent

theorem extent_ascending (front rest : String) (hunk : Hunk) (hunks : List Hunk) :
    Splice.Extent (Text.size (front ++ hunk.kept)) (Text.size rest)
      (ascending front rest (hunk :: hunks)) := by
  induction hunks generalizing front hunk with
  | nil => exact extent_middle _ _ _ _
  | cons next hunks ih =>
      have hextent := (extent_middle (front ++ hunk.kept) hunk.old (text rest (next :: hunks))
        hunk.new).append (ih (front ++ hunk.kept ++ hunk.new) next)
      rwa [Nat.min_eq_left (size_le_append_append _ _ _), Nat.min_eq_right (size_rest_le _ _)]
        at hextent

theorem getLast_stop (rest : String) {front : String} {hunks : List Hunk} {last : Edit}
    (hlast : (edits front hunks).getLast? = some last) :
    last.span.stop + Text.size rest = Text.size (front ++ text rest hunks) := by
  induction hunks generalizing front with
  | nil => cases hlast
  | cons hunk hunks ih =>
      rw [append_text_cons]
      cases hunks with
      | nil =>
          obtain rfl : _ = last := Option.some.inj hlast
          exact (Text.size_append _ _).symm
      | cons next hunks =>
          rw [edits, edits, List.getLast?_cons_cons, ← edits] at hlast
          exact ih hlast

/-- The same extent, told by the first and the last edit of the batch. -/
theorem extent_of_ends {front rest : String} {hunks : List Hunk} {splices : List Splice}
    {first last : Edit} (hfirst : (edits front hunks).head? = some first)
    (hlast : (edits front hunks).getLast? = some last)
    (h : ∀ hunk others, hunks = hunk :: others →
      Splice.Extent (Text.size (front ++ hunk.kept)) (Text.size rest) splices) :
    Splice.Extent first.span.start (Text.size (front ++ text rest hunks) - last.span.stop)
      splices := by
  rw [← getLast_stop rest hlast, Nat.add_sub_cancel_left]
  cases hunks with
  | nil => cases hfirst
  | cons hunk others =>
      obtain rfl : _ = first := Option.some.inj hfirst
      exact h hunk others rfl

end Batch.Hunk

namespace Batch

variable {edits : List Edit} {edit : Edit} {i : Nat}

theorem length_moved (start : Int) (edits : List Edit) :
    (moved start edits).length = edits.length := by
  induction edits generalizing start with
  | nil => rfl
  | cons edit rest ih => rw [moved, List.length_cons, List.length_cons, ih]

theorem getElem?_moved (start : Int) (hedit : edits[i]? = some edit) :
    (moved start edits)[i]? =
      some ⟨⟨(edit.span.start + (start + shift edits i)).toNat,
        (edit.span.stop + (start + shift edits i)).toNat⟩, edit.text⟩ := by
  induction edits generalizing start i with
  | nil => cases hedit
  | cons first rest ih =>
      cases i with
      | zero =>
          obtain rfl : first = edit := Option.some.inj hedit
          simp [moved, shift]
      | succ i =>
          rw [moved, List.getElem?_cons_succ, ih (start + first.growth) hedit, shift]
          simp only [Int.add_assoc]

/-- Moving a settled batch takes no edit in front of the text. -/
theorem Settled.exists_moved (h : Settled edits) (hedit : edits[i]? = some edit) :
    ∃ there, (moved 0 edits)[i]? = some there ∧ there.text = edit.text ∧
      (there.span.start : Int) = edit.span.start + shift edits i ∧
      (there.span.stop : Int) = edit.span.stop + shift edits i := by
  have hstart := h.le_start_add_shift (fun _ _ => Nat.zero_le _) hedit
  have hupright := h.upright edit (List.mem_of_getElem? hedit)
  refine ⟨_, getElem?_moved 0 hedit, rfl, ?_, ?_⟩
  · simp only
    omega
  · simp only
    omega

/-- What both directions have in common: a chain with one edit for each of the batch, whose least
start and least back are at the ends of the batch. -/
theorem exists_run {document : Document} {result : String} {splices : List Splice}
    (h : Splice.Leads document.text splices result) (hsound : document.Sound)
    (hlimit : document.history.limit = none) (hsize : document.size < wordCount)
    (hlength : splices.length = edits.length)
    (hfits : ∀ edit ∈ edits, Text.Fits document.text edit.span)
    (hextent : ∀ first last, edits.head? = some first → edits.getLast? = some last →
      Splice.Extent first.span.start (document.size - last.span.stop) splices) :
    ∃ final, document.editAll (splices.map Splice.toEdit) = .ok final ∧ final.text = result ∧
      final.version = document.version + edits.length ∧
      (edits = [] → final.deltaSince document.version = .ok .unchanged) ∧
      ∀ first last, edits.head? = some first → edits.getLast? = some last →
        ∃ change, final.deltaSince document.version = .ok (.changed change) ∧
          change.span = ⟨first.span.start, last.span.stop⟩ ∧
          (change.inserted : Int) =
            change.span.length + ((Text.size result : Int) - document.size) := by
  obtain ⟨final, hall, htext, hversion, hunchanged, hchanged⟩ :=
    h.exists_editAll hsound hlimit hsize
  rw [hlength] at hversion
  refine ⟨final, hall, htext, hversion, ?_, ?_⟩
  · intro hnil
    rw [hnil, List.length_nil, List.length_eq_zero_iff] at hlength
    exact hunchanged hlength
  · intro first last hfirst hlast
    have hne : splices ≠ [] := by
      rintro rfl
      rw [List.length_nil, eq_comm, List.length_eq_zero_iff] at hlength
      rw [hlength] at hfirst
      cases hfirst
    obtain ⟨change, hexact, hdelta⟩ := hchanged hne
    -- of the chain, only its two outer texts and its extent decide which change this is
    have hends := hextent first last hfirst hlast
    have hgrowth := hexact.growth_eq
    have hspan : change.span = ⟨first.span.start, last.span.stop⟩ := by
      have hstop : last.span.stop ≤ document.size :=
        (hfits last (List.mem_of_getLast? hlast)).2.1
      rw [hexact.eq_of_least hends.start_eq hends.back_eq]
      change (⟨first.span.start, document.size - (document.size - last.span.stop)⟩ : Span) = _
      rw [Nat.sub_sub_self hstop]
    refine ⟨change, hdelta, hspan, ?_⟩
    change (change.inserted : Int) - change.span.length = _ at hgrowth
    change _ = _ + ((Text.size result : Int) - Text.size document.text)
    omega

/-- A batch that can be applied to the text of a document can be made on the document edit by edit,
in either direction, with the same text and the same change in the end. -/
theorem apply_singly (name initial : String) (actions : List Document.Action) (edits : List Edit)
    (result : String)
    (hsize : ((Document.new name initial none).performAll actions).size < wordCount)
    (happly : (apply ((Document.new name initial none).performAll actions).text edits).value =
      .ok result) :
    let document := (Document.new name initial none).performAll actions
    ∃ settled, (settle edits).value = .ok settled ∧
      (∀ i edit, settled[i]? = some edit → ∃ there, (moved 0 settled)[i]? = some there ∧
        there.text = edit.text ∧
        (there.span.start : Int) = edit.span.start + shift settled i ∧
        (there.span.stop : Int) = edit.span.stop + shift settled i) ∧
      ∃ down up, document.editAll settled.reverse = .ok down ∧
        document.editAll (moved 0 settled) = .ok up ∧
        down.text = result ∧ up.text = result ∧
        down.version = document.version + settled.length ∧
        up.version = document.version + settled.length ∧
        (settled = [] → down.deltaSince document.version = .ok .unchanged ∧
          up.deltaSince document.version = .ok .unchanged) ∧
        ∀ first last, settled.head? = some first → settled.getLast? = some last →
          ∃ change, down.deltaSince document.version = .ok (.changed change) ∧
            up.deltaSince document.version = .ok (.changed change) ∧
            change.span = ⟨first.span.start, last.span.stop⟩ ∧
            (change.inserted : Int) =
              change.span.length + ((Text.size result : Int) - document.size) := by
  intro document
  obtain ⟨hunks, rest, hbase, hsettle, rfl⟩ := Hunk.exists_hunks_of_apply happly
  have hsound : document.Sound := (Document.sound_new name initial none).performAll actions
  have hlimit : document.history.limit = none := Document.limit_performAll _ _
  have htext : document.text = "" ++ Hunk.text rest hunks := by
    rw [String.empty_append]
    exact hbase
  have hfits := Hunk.fits_edits "" rest hunks
  have hdown := Hunk.leads_descending "" rest hunks
  have hup := Hunk.leads_ascending "" rest hunks
  have hdownEdits := Hunk.toEdit_descending "" rest hunks
  have hupEdits := Hunk.toEdit_ascending (Int.add_zero (Text.size "" : Int)).symm rest hunks
  have hdownLength := congrArg List.length hdownEdits
  have hupLength := congrArg List.length hupEdits
  rw [List.length_map, List.length_reverse] at hdownLength
  rw [List.length_map, length_moved] at hupLength
  rw [← htext] at hfits hdown hup
  rw [String.empty_append] at hdown hup
  obtain ⟨down, hdownAll, hdownText, hdownVersion, hdownNil, hdownDelta⟩ :=
    exists_run hdown hsound hlimit hsize hdownLength hfits fun first last hfirst hlast => by
      rw [Document.size, htext]
      exact Hunk.extent_of_ends hfirst hlast fun hunk others hcons =>
        hcons ▸ Hunk.extent_descending "" rest hunk others
  obtain ⟨up, hupAll, hupText, hupVersion, hupNil, hupDelta⟩ :=
    exists_run hup hsound hlimit hsize hupLength hfits fun first last hfirst hlast => by
      rw [Document.size, htext]
      exact Hunk.extent_of_ends hfirst hlast fun hunk others hcons =>
        hcons ▸ Hunk.extent_ascending "" rest hunk others
  rw [hdownEdits] at hdownAll
  rw [hupEdits] at hupAll
  refine ⟨_, hsettle, fun i edit hedit => (settled_of_settle hsettle).exists_moved hedit, down, up,
    hdownAll, hupAll, hdownText, hupText, hdownVersion, hupVersion,
    fun hnil => ⟨hdownNil hnil, hupNil hnil⟩, fun first last hfirst hlast => ?_⟩
  obtain ⟨⟨span, inserted⟩, hchange, hspan, hinserted⟩ := hdownDelta first last hfirst hlast
  obtain ⟨⟨span', inserted'⟩, hchange', hspan', hinserted'⟩ := hupDelta first last hfirst hlast
  simp only at hspan hspan' hinserted hinserted'
  subst hspan hspan'
  obtain rfl : inserted = inserted' := by omega
  exact ⟨_, hchange, hchange', rfl, hinserted⟩

/-- Three edits that touch each other, listed out of order, and one more inside the first. -/
theorem apply_singly_touching :
    let edits : List Edit := [⟨⟨4, 4⟩, "€"⟩, ⟨⟨0, 3⟩, "x"⟩, ⟨⟨3, 4⟩, ""⟩, ⟨⟨1, 3⟩, "y"⟩]
    let document := (Document.new "f" "ab" none).performAll [.replace "añbc"]
    document.size < wordCount ∧ (apply document.text edits).value = .ok "x€c" ∧
      ∃ down up, document.editAll [⟨⟨4, 4⟩, "€"⟩, ⟨⟨3, 4⟩, ""⟩, ⟨⟨0, 3⟩, "x"⟩] = .ok down ∧
        document.editAll [⟨⟨0, 3⟩, "x"⟩, ⟨⟨1, 2⟩, ""⟩, ⟨⟨1, 1⟩, "€"⟩] = .ok up ∧
        down.text = "x€c" ∧ up.text = "x€c" ∧
        ∃ change, down.deltaSince document.version = .ok (.changed change) ∧
          up.deltaSince document.version = .ok (.changed change) ∧ change.span = ⟨0, 4⟩ := by
  intro edits document
  have hsize : document.size < wordCount := by decide
  have hsorted : sorted edits =
      [⟨⟨0, 3⟩, "x"⟩, ⟨⟨1, 3⟩, "y"⟩, ⟨⟨3, 4⟩, ""⟩, ⟨⟨4, 4⟩, "€"⟩] := by
    simp [sorted, edits, List.mergeSort]
  have hsettle : (settle edits).value =
      .ok [⟨⟨0, 3⟩, "x"⟩, ⟨⟨3, 4⟩, ""⟩, ⟨⟨4, 4⟩, "€"⟩] := by
    rw [settle, hsorted]
    decide
  have happly : (apply document.text edits).value = .ok "x€c" := by
    rw [value_apply_of_settle hsettle]
    decide
  obtain ⟨settled, hsettled, -, down, up, hdown, hup, hdownText, hupText, -, -, -, hchange⟩ :=
    apply_singly "f" "ab" [.replace "añbc"] edits "x€c" hsize happly
  rw [hsettle] at hsettled
  cases hsettled
  obtain ⟨change, hdelta, hdelta', hspan, -⟩ := hchange _ _ rfl rfl
  exact ⟨hsize, happly, down, up, hdown, hup, hdownText, hupText, change, hdelta, hdelta', hspan⟩

end Batch

end Scriptorium
