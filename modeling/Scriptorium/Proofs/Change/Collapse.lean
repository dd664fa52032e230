import Scriptorium.Proofs.Splice

/-!
# One change for many edits

Collapsing takes the least start and the least tail of the records and rebuilds one change from
these and from the sum of the growths. The records of splices that lead from one text to another
determine the front and the back that all of the splices leave alone, so the change replaces exactly
what lies between the two.
-/

namespace Scriptorium

namespace Change

/-- What collapsing some records computes on the way. Of every difference that it takes, the part
taken away is the smaller one. -/
structure Collapsible (records : List Record) (last : Record) (start tail : Nat) : Prop where
  last_eq : records.getLast? = some last
  start_eq : (records.map fun record => record.change.span.start).min? = some start
  stop_le : ∀ record ∈ records, record.change.newSpan.stop ≤ record.resultingSize
  tail_eq : (records.map fun record =>
    record.resultingSize - record.change.newSpan.stop).min? = some tail
  tail_le : tail ≤ last.resultingSize
  growth_le : growthOf records ≤ ((last.resultingSize - tail : Nat) : Int)
  start_le : start ≤ last.resultingSize - tail

theorem mapM_tail_eq {records : List Record}
    (h : ∀ record ∈ records, record.change.newSpan.stop ≤ record.resultingSize) :
    records.mapM Record.tail =
      .ok (records.map fun record => record.resultingSize - record.change.newSpan.stop) := by
  induction records with
  | nil => rfl
  | cons record rest ih =>
      rw [List.forall_mem_cons] at h
      have htail : record.tail =
          .ok (record.resultingSize - record.change.newSpan.stop) := by
        rw [Record.tail, if_pos h.1]
      rw [List.mapM_cons, htail, ih h.2]
      rfl

theorem Collapsible.collapse_eq {records : List Record} {last : Record} {start tail : Nat}
    (h : Collapsible records last start tail) :
    collapse records =
      .ok (some ⟨⟨start, wordOfInt ((last.resultingSize - tail : Nat) - growthOf records)⟩,
        last.resultingSize - tail - start⟩) := by
  rw [collapse, mapM_tail_eq h.stop_le]
  simp only [Except.map, cover, h.last_eq, h.start_eq, h.tail_eq, Option.bind_eq_bind,
    Option.bind_some]
  rfl

/-- A change describes exactly what splices made of one text: it leaves alone the front and the back
that all of them leave alone, and replaces the rest. -/
structure Exact (change : Change) (old new : String) (splices : List Splice) : Prop where
  fits_old : Text.Fits old change.span
  fits_new : Text.Fits new change.newSpan
  splice_eq : Text.splice old change.span (Text.slice new change.newSpan) = new
  start_eq : (splices.map fun splice => splice.span.start).min? = some change.span.start
  back_eq : (splices.map Splice.back).min? = some (Text.size old - change.span.stop)
  newBack_eq : Text.size old - change.span.stop = Text.size new - change.newSpan.stop

namespace Exact

variable {change : Change} {old new : String} {splices : List Splice}

theorem agree (h : Exact change old new splices) :
    Text.Agree change.span.start (Text.size old - change.span.stop) (Text.bytes old)
      (Text.bytes new) := by
  obtain ⟨hspan, hstop, hstart, hstop'⟩ := h.fits_old
  have hbytes := Text.bytes_splice hstart hstop' (Text.slice new change.newSpan)
  rw [h.splice_eq] at hbytes
  rw [hbytes]
  rw [← Text.length_bytes] at hstop ⊢
  exact Text.agree_patch hspan hstop (Nat.le_refl _) (Nat.le_refl _) _

theorem growth_eq (h : Exact change old new splices) :
    change.growth = (Text.size new : Int) - Text.size old := by
  obtain ⟨hspan, hstop, -, -⟩ := h.fits_old
  obtain ⟨-, hstop', -, -⟩ := h.fits_new
  have hback := h.newBack_eq
  simp only [newSpan, growth, Span.length] at hstop' hback ⊢
  omega

/-- The edits enter an exact change only through the least start and the least back. -/
theorem eq_of_least {start back : Nat} (h : Exact change old new splices)
    (hstart : (splices.map fun splice => splice.span.start).min? = some start)
    (hback : (splices.map Splice.back).min? = some back) :
    change = ⟨⟨start, Text.size old - back⟩, Text.size new - back - start⟩ := by
  have hstart_eq : change.span.start = start := by
    rw [h.start_eq] at hstart
    exact Option.some.inj hstart
  have hback_eq : Text.size old - change.span.stop = back := by
    rw [h.back_eq] at hback
    exact Option.some.inj hback
  obtain ⟨-, hstop, -, -⟩ := h.fits_old
  obtain ⟨-, hstop', -, -⟩ := h.fits_new
  have hnewBack := h.newBack_eq
  obtain ⟨⟨first, stop⟩, inserted⟩ := change
  simp only [newSpan] at hstart_eq hback_eq hstop hstop' hnewBack
  obtain rfl : first = start := hstart_eq
  have hstop_eq : stop = Text.size old - back := by omega
  have hinserted : inserted = Text.size new - back - first := by omega
  rw [hstop_eq, hinserted]

end Exact

/-- Texts that agree on a front and a back differ by the change between the two. -/
theorem exact_of_agree {front back : Nat} {old new : String} {splices : List Splice}
    (h : Text.Agree front back (Text.bytes old) (Text.bytes new))
    (hfits : Text.Fits old ⟨front, Text.size old - back⟩)
    (hfront : (splices.map fun splice => splice.span.start).min? = some front)
    (hback : (splices.map Splice.back).min? = some back) :
    Exact ⟨⟨front, Text.size old - back⟩, Text.size new - back - front⟩ old new splices := by
  have hold : front + back ≤ Text.size old := by simpa using h.le_old
  have hnew : front + back ≤ Text.size new := by simpa using h.le_new
  have hspan : newSpan ⟨⟨front, Text.size old - back⟩, Text.size new - back - front⟩ =
      ⟨front, Text.size new - back⟩ := by
    have hstop : front + (Text.size new - back - front) = Text.size new - back := by omega
    change (⟨front, front + (Text.size new - back - front)⟩ : Span) = _
    rw [hstop]
  have hrest : Text.size old - (Text.size old - back) = back := by omega
  constructor
  · exact hfits
  · rw [hspan]
    exact h.fits hfits
  · rw [hspan]
    exact h.splice_eq hfits
  · exact hfront
  · rw [hback, hrest]
  · rw [hspan]
    change Text.size old - (Text.size old - back) = Text.size new - (Text.size new - back)
    omega

end Change

namespace Splice.Leads

variable {old new : String} {splices : List Splice}

theorem exists_least (hne : splices ≠ []) (f : Splice → Nat) :
    ∃ least, (splices.map f).min? = some least ∧ (∃ splice ∈ splices, f splice = least) ∧
      ∀ splice ∈ splices, least ≤ f splice := by
  have hmap : splices.map f ≠ [] := by simpa using hne
  obtain ⟨least, hleast⟩ := Option.isSome_iff_exists.1 (List.isSome_min?_of_ne_nil hmap)
  obtain ⟨hmem, hle⟩ := List.min?_eq_some_iff.1 hleast
  refine ⟨least, hleast, List.mem_map.1 hmem, ?_⟩
  intro splice hsplice
  exact hle _ (List.mem_map_of_mem hsplice)

/-- The part of a text in front of all spans and the part behind all of them do not overlap. -/
theorem add_le_size {front back : Nat} (h : Leads old splices new) (hne : splices ≠ [])
    (hfront : ∀ splice ∈ splices, front ≤ splice.span.start)
    (hback : ∀ splice ∈ splices, back ≤ splice.back) : front + back ≤ Text.size old := by
  cases splices with
  | nil => exact absurd rfl hne
  | cons first rest =>
      obtain ⟨rfl, hfits, -⟩ := h
      have hfirst := start_add_back_le hfits
      have := hfront first List.mem_cons_self
      have := hback first List.mem_cons_self
      omega

/-- The least start and the least back each belong to one of the splices. The text of that splice
has a boundary there, and shares it with the first text. -/
theorem agree_least (h : Leads old splices new) (hne : splices ≠ []) :
    ∃ front back, (splices.map fun splice => splice.span.start).min? = some front ∧
      (splices.map Splice.back).min? = some back ∧
      Text.Fits old ⟨front, Text.size old - back⟩ ∧
      Text.Agree front back (Text.bytes old) (Text.bytes new) := by
  obtain ⟨front, hfront, ⟨first, hfirst, hfirst_start⟩, hfrontLe⟩ :=
    exists_least hne fun splice => splice.span.start
  obtain ⟨back, hback, ⟨last, hlast, hlast_back⟩, hbackLe⟩ := exists_least hne Splice.back
  have hle : front + back ≤ Text.size old := h.add_le_size hne hfrontLe hbackLe
  refine ⟨front, back, hfront, hback, ⟨?_, Nat.sub_le _ _, ?_, ?_⟩, h.agree hle hfrontLe hbackLe⟩
  · change front ≤ Text.size old - back
    omega
  · obtain ⟨-, -, hstart, -⟩ := h.fits first hfirst
    have hagree := h.agree_old hfirst hle hfrontLe hbackLe
    rw [hfirst_start] at hstart
    exact hstart.of_take_eq hagree.take_eq.symm (Nat.le_trans (Nat.le_add_right front back) hle)
  · obtain ⟨-, hstop_le, -, hstop⟩ := h.fits last hlast
    have hdrop := (h.agree_old hlast hle hfrontLe hbackLe).drop_eq
    have hstop_eq : Text.size last.old - back = last.span.stop := by
      rw [← hlast_back, Splice.back]
      omega
    rw [Text.length_bytes, Text.length_bytes, hstop_eq] at hdrop
    exact hstop.of_drop_eq hdrop.symm (Nat.sub_le _ _)

theorem collapsible (h : Leads old splices new) {last : Splice} {front back : Nat}
    (hlast : splices.getLast? = some last)
    (hfront : (splices.map fun splice => splice.span.start).min? = some front)
    (hback : (splices.map Splice.back).min? = some back)
    (hagree : Text.Agree front back (Text.bytes old) (Text.bytes new)) :
    Change.Collapsible (splices.map record) last.record front back := by
  have hold : front + back ≤ Text.size old := by simpa using hagree.le_old
  have hnew : front + back ≤ Text.size new := by simpa using hagree.le_new
  have hsize : last.record.resultingSize = Text.size new :=
    congrArg Text.size (h.getLast_new hlast)
  have htails : (splices.map record).map (fun record =>
      record.resultingSize - record.change.newSpan.stop) = splices.map Splice.back := by
    rw [List.map_map]
    exact List.map_congr_left fun splice hsplice =>
      resultingSize_sub_stop (h.fits splice hsplice)
  refine ⟨by simp [hlast], ?_, ?_, by rw [htails, hback], by omega, ?_, by omega⟩
  · rw [List.map_map]
    exact hfront
  · intro entry hentry
    obtain ⟨splice, hsplice, rfl⟩ := List.mem_map.1 hentry
    exact newSpan_stop_le (h.fits splice hsplice)
  · rw [h.growthOf_records, hsize]
    omega

/-- The records of splices that lead from one text to another collapse to the change between the
two, whose old end comes out as a word. -/
theorem collapse_eq (h : Leads old splices new) (hne : splices ≠ []) :
    ∃ last change, Change.Exact change old new splices ∧
      Change.Collapsible (splices.map record) last change.span.start
        (Text.size old - change.span.stop) ∧
      Change.collapse (splices.map record) =
        .ok (some ⟨⟨change.span.start, wordOfInt change.span.stop⟩, change.inserted⟩) := by
  obtain ⟨front, back, hfront, hback, hfits, hagree⟩ := h.agree_least hne
  obtain ⟨last, hlast⟩ := Option.isSome_iff_exists.1 (List.getLast?_isSome.2 hne)
  have hold : front + back ≤ Text.size old := by simpa using hagree.le_old
  have hnew : front + back ≤ Text.size new := by simpa using hagree.le_new
  have hcollapsible := h.collapsible hlast hfront hback hagree
  have hsize : last.record.resultingSize = Text.size new :=
    congrArg Text.size (h.getLast_new hlast)
  have hstop : ((last.record.resultingSize - back : Nat) : Int) -
      Change.growthOf (splices.map record) =
        ((Text.size old - back : Nat) : Int) := by
    rw [h.growthOf_records, hsize]
    omega
  have hback' : Text.size old - (Text.size old - back) = back := by omega
  refine ⟨last.record, _, Change.exact_of_agree hagree hfits hfront hback, ?_, ?_⟩
  · rw [hback']
    exact hcollapsible
  · rw [hcollapsible.collapse_eq, hstop, hsize]

end Splice.Leads

end Scriptorium
