import Scriptorium.Proofs.Lines.Positions

/-!
# Offsets and positions

A position names an offset when the offset lies on that line, at that distance from where the line
starts, and splits no character. Both conversions follow this one relation: the line of an offset is
found by counting the starts up to it, and because the starts are in increasing order the count is
also the place in their list where the offset belongs. So the conversions undo each other, and a
position that names no offset is refused. Only for a column whose offset is no word does the sum
leave the words before it is looked at.
-/

namespace Scriptorium

/-- Positions are ordered by line, then by column. -/
def Position.Before (a b : Position) : Prop :=
  a.line < b.line ∨ a.line = b.line ∧ a.column < b.column

/-- On a list in increasing order the entries up to a bound come first, so their number tells which
entries they are. -/
theorem lt_countP_iff {starts : List Nat} (h : starts.Pairwise (· < ·)) {i start : Nat}
    (hstart : starts[i]? = some start) (offset : Nat) :
    i < starts.countP (· ≤ offset) ↔ start ≤ offset := by
  induction starts generalizing i with
  | nil => simp at hstart
  | cons first rest ih =>
      obtain ⟨hfirst, hrest⟩ := List.pairwise_cons.1 h
      by_cases hle : first ≤ offset
      · rw [List.countP_cons_of_pos (by simpa using hle)]
        cases i with
        | zero =>
            obtain rfl : first = start := Option.some.inj hstart
            simp [hle]
        | succ i => rw [Nat.add_lt_add_iff_right, ih hrest hstart]
      · have hnone : rest.countP (· ≤ offset) = 0 := by
          rw [List.countP_eq_zero]
          intro other hother
          have := hfirst other hother
          simp only [decide_eq_true_eq]
          omega
        have hstart_mem : start ∈ first :: rest := List.mem_of_getElem? hstart
        have hbehind : first ≤ start := by
          rcases List.mem_cons.1 hstart_mem with rfl | hmem
          · exact Nat.le_refl _
          · exact Nat.le_of_lt (hfirst start hmem)
        rw [List.countP_cons_of_neg (by simpa using hle), hnone]
        omega

namespace LineTable

variable {table : LineTable} {text : String} {line column offset start : Nat}
  {position position' : Position}

/-- A position names an offset when its line holds the offset, which its column counts from where
the line starts, and the offset is a boundary. -/
structure Names (table : LineTable) (position : Position) (offset : Nat) : Prop where
  line_pos : 0 < position.line
  column_pos : 0 < position.column
  start_eq : ∃ start, table.starts[position.line - 1]? = some start ∧
    offset = start + (position.column - 1)
  holds : table.lineHolds (position.line - 1) offset = true
  boundary : table.isBoundary offset = true

/-- The offset that a column counts from the start of its line is no word. -/
def Overflows (table : LineTable) (line column : Nat) : Prop :=
  0 < line ∧ 0 < column ∧
    ∃ start, table.starts[line - 1]? = some start ∧ wordCount ≤ start + (column - 1)

/-! ### From a position to an offset -/

theorem offset_of_start (hline : 0 < line) (hcolumn : 0 < column)
    (hstart : table.starts[line - 1]? = some start) :
    table.offset line column =
      if wordCount ≤ start + (column - 1) then .error .overflow
      else if table.lineHolds (line - 1) (start + (column - 1)) = true ∧
          table.isBoundary (start + (column - 1)) = true then
        .ok (start + (column - 1))
      else .error (.noSuchPosition line column) := by
  obtain ⟨line, rfl⟩ := Nat.exists_eq_add_one.2 hline
  obtain ⟨column, rfl⟩ := Nat.exists_eq_add_one.2 hcolumn
  rw [Nat.add_sub_cancel] at hstart
  simp only [LineTable.offset, hstart, Nat.add_sub_cancel]

theorem offset_of_no_start
    (h : ¬ (0 < line ∧ 0 < column ∧ ∃ start, table.starts[line - 1]? = some start)) :
    table.offset line column = .error (.noSuchPosition line column) := by
  unfold LineTable.offset
  split
  · next line column =>
      split
      · rfl
      · next start hstart => exact absurd ⟨Nat.succ_pos _, Nat.succ_pos _, start, hstart⟩ h
  · rfl

theorem offset_eq_ok_iff :
    table.offset line column = .ok offset ↔
      offset < wordCount ∧ table.Names ⟨line, column⟩ offset := by
  by_cases h : 0 < line ∧ 0 < column ∧ ∃ start, table.starts[line - 1]? = some start
  · obtain ⟨hline, hcolumn, start, hstart⟩ := h
    rw [offset_of_start hline hcolumn hstart]
    constructor
    · intro hoffset
      split at hoffset
      · cases hoffset
      · next hword =>
          split at hoffset
          · next hnamed =>
              obtain rfl := Except.ok.inj hoffset
              exact ⟨Nat.lt_of_not_le hword, hline, hcolumn, ⟨start, hstart, rfl⟩, hnamed.1,
                hnamed.2⟩
          · cases hoffset
    · rintro ⟨hword, -, -, ⟨start', hstart', rfl⟩, hholds, hboundary⟩
      obtain rfl : start = start' := Option.some.inj (hstart.symm.trans hstart')
      rw [if_neg (Nat.not_le.2 hword), if_pos ⟨hholds, hboundary⟩]
  · rw [offset_of_no_start h]
    constructor
    · intro hoffset
      cases hoffset
    · rintro ⟨-, hline, hcolumn, ⟨start, hstart, -⟩, -⟩
      exact absurd ⟨hline, hcolumn, start, hstart⟩ h

theorem offset_eq_error_iff {cause : Error} :
    table.offset line column = .error cause ↔
      table.Overflows line column ∧ cause = .overflow ∨
        ¬ table.Overflows line column ∧ (¬ ∃ offset, table.offset line column = .ok offset) ∧
          cause = .noSuchPosition line column := by
  by_cases hover : table.Overflows line column
  · obtain ⟨hline, hcolumn, start, hstart, hword⟩ := id hover
    rw [offset_of_start hline hcolumn hstart, if_pos hword]
    simp [hover, eq_comm]
  · have hcause : ∀ cause, table.offset line column = .error cause →
        cause = .noSuchPosition line column := by
      intro cause h
      by_cases hexists : 0 < line ∧ 0 < column ∧ ∃ start, table.starts[line - 1]? = some start
      · obtain ⟨hline, hcolumn, start, hstart⟩ := hexists
        have hword : ¬ wordCount ≤ start + (column - 1) := fun hword =>
          hover ⟨hline, hcolumn, start, hstart, hword⟩
        rw [offset_of_start hline hcolumn hstart, if_neg hword] at h
        split at h
        · cases h
        · exact (Except.error.inj h).symm
      · rw [offset_of_no_start hexists] at h
        exact (Except.error.inj h).symm
    cases hresult : table.offset line column with
    | ok offset => simp [hover]
    | error other => simp [hover, hcause other hresult, eq_comm]

/-! ### From an offset to a position -/

theorem countP_starts_pos (text : String) (offset : Nat) :
    0 < (ofText text).starts.countP (· ≤ offset) := by
  have hfirst : (ofText text).starts[0]? = some 0 := rfl
  exact (lt_countP_iff (pairwise_starts text) hfirst offset).2 (Nat.zero_le _)

/-- The starts up to an offset are as many as a line's number if and only if that line holds it. -/
theorem countP_starts_eq_iff (hstart : (ofText text).starts[line]? = some start)
    (hsize : offset ≤ (ofText text).size) :
    (ofText text).starts.countP (· ≤ offset) = line + 1 ↔
      start ≤ offset ∧ (ofText text).lineHolds line offset = true := by
  have hline := lt_countP_iff (pairwise_starts text) hstart offset
  have hlength : line < (ofText text).starts.length := (List.getElem?_eq_some_iff.1 hstart).1
  have hcount := List.countP_le_length (p := (· ≤ offset)) (l := (ofText text).starts)
  rw [lineHolds]
  cases hnext : (ofText text).starts[line + 1]? with
  | none =>
      have hlast := List.getElem?_eq_none_iff.1 hnext
      simp only [hsize, decide_true, and_true]
      omega
  | some next =>
      have hbefore := lt_countP_iff (pairwise_starts text) hnext offset
      simp only [decide_eq_true_eq]
      omega

theorem position_eq_ok_iff :
    (ofText text).position offset = .ok position ↔ (ofText text).Names position offset := by
  obtain ⟨line, column⟩ := position
  by_cases hboundary : (ofText text).isBoundary offset = true
  · have hsize : offset ≤ (ofText text).size := (isBoundary_ofText_iff.1 hboundary).le_size
    rw [LineTable.position, if_pos hboundary]
    constructor
    · intro h
      obtain ⟨hline, hcolumn⟩ := Position.mk.inj (Except.ok.inj h)
      have hpos := countP_starts_pos text offset
      have hlength := List.countP_le_length (p := (· ≤ offset)) (l := (ofText text).starts)
      rw [hline] at hpos hlength hcolumn
      obtain ⟨start, hstart⟩ : ∃ start, (ofText text).starts[line - 1]? = some start :=
        ⟨_, List.getElem?_eq_getElem (by omega)⟩
      have hcount := (countP_starts_eq_iff hstart hsize).1 (by omega)
      rw [List.getD_eq_getElem?_getD, hstart, Option.getD_some] at hcolumn
      refine ⟨hpos, hcolumn ▸ Nat.succ_pos _, ⟨start, hstart, ?_⟩, hcount.2, hboundary⟩
      have := hcount.1
      dsimp only
      omega
    · rintro ⟨hline, hcolumn, ⟨start, hstart, hoffset⟩, hholds, -⟩
      dsimp only at hline hcolumn hstart hoffset hholds
      have hcount := (countP_starts_eq_iff hstart hsize).2 ⟨by omega, hholds⟩
      have hline_eq : (ofText text).starts.countP (· ≤ offset) = line := by omega
      have hcolumn_eq : offset - start + 1 = column := by omega
      simp only [hline_eq, List.getD_eq_getElem?_getD, hstart, Option.getD_some, hcolumn_eq]
  · rw [LineTable.position, if_neg hboundary]
    constructor
    · intro h
      cases h
    · intro h
      exact absurd h.boundary hboundary

/-! ### Both ways -/

theorem Names.line_le (h : table.Names position offset) : position.line ≤ table.lineCount := by
  obtain ⟨start, hstart, -⟩ := h.start_eq
  have := (List.getElem?_eq_some_iff.1 hstart).1
  have := h.line_pos
  rw [lineCount]
  omega

theorem Names.line_eq (h : (ofText text).Names position offset) :
    position.line = (ofText text).starts.countP (· ≤ offset) := by
  have hsize : offset ≤ (ofText text).size := (isBoundary_ofText_iff.1 h.boundary).le_size
  have hline := h.line_pos
  obtain ⟨start, hstart, hoffset⟩ := h.start_eq
  have := (countP_starts_eq_iff hstart hsize).2 ⟨by omega, h.holds⟩
  omega

theorem Names.before_of_lt {offset' : Nat} (h : (ofText text).Names position offset)
    (h' : (ofText text).Names position' offset') (hlt : offset < offset') :
    position.Before position' := by
  have hle : (ofText text).starts.countP (· ≤ offset) ≤
      (ofText text).starts.countP (· ≤ offset') := by
    apply List.countP_mono_left
    intro start _ hstart
    simp only [decide_eq_true_eq] at hstart ⊢
    omega
  rw [← h.line_eq, ← h'.line_eq] at hle
  rcases Nat.lt_or_eq_of_le hle with hline | hline
  · exact .inl hline
  · refine .inr ⟨hline, ?_⟩
    obtain ⟨start, hstart, hoffset⟩ := h.start_eq
    obtain ⟨start', hstart', hoffset'⟩ := h'.start_eq
    rw [hline, hstart'] at hstart
    obtain rfl : start' = start := Option.some.inj hstart
    omega

theorem Names.lt_iff_before {offset' : Nat} (h : (ofText text).Names position offset)
    (h' : (ofText text).Names position' offset') :
    offset < offset' ↔ position.Before position' := by
  constructor
  · exact h.before_of_lt h'
  · intro hbefore
    by_contra hle
    rcases Nat.lt_or_eq_of_le (Nat.le_of_not_lt hle) with hlt | rfl
    · rcases h'.before_of_lt h hlt with hline | ⟨hline, hcolumn⟩ <;>
        rcases hbefore with hline' | ⟨hline', hcolumn'⟩ <;> omega
    · have hsame : position = position' :=
        Except.ok.inj ((position_eq_ok_iff.2 h).symm.trans (position_eq_ok_iff.2 h'))
      rcases hbefore with hline | ⟨-, hcolumn⟩
      · exact absurd (congrArg Position.line hsame) (Nat.ne_of_lt hline)
      · exact absurd (congrArg Position.column hsame) (Nat.ne_of_lt hcolumn)

/-- A column can only lead out of the words behind the first line, and from so far up that the text
would have to be as long as what is missing. -/
theorem Overflows.one_lt_line (h : (ofText text).Overflows line column)
    (hcolumn : column < wordCount) : 1 < line ∧ wordCount < Text.size text + column := by
  obtain ⟨hline, hpos, start, hstart, hword⟩ := h
  have hsize := le_size_of_mem_starts (List.mem_of_getElem? hstart)
  refine ⟨?_, by omega⟩
  by_contra hfirst
  obtain rfl : line = 1 := by omega
  have hzero : (ofText text).starts[1 - 1]? = some 0 := rfl
  obtain rfl : start = 0 := Option.some.inj (hstart.symm.trans hzero)
  omega

/-- A line and a column have an offset if and only if this offset has that line and column.
Everything else is refused as no position of the text, except where the sum leaves the words: behind
the first line, a column so large overflows. -/
theorem offset_exact (text : String) (line column : Nat) :
    (∀ offset, (ofText text).offset line column = .ok offset ↔
      offset < wordCount ∧ offset ≤ Text.size text ∧ Text.IsBoundary text offset ∧
        (ofText text).position offset = .ok ⟨line, column⟩) ∧
    (∀ cause, (ofText text).offset line column = .error cause ↔
      (ofText text).Overflows line column ∧ cause = .overflow ∨
        ¬ (ofText text).Overflows line column ∧
          (¬ ∃ offset, offset < wordCount ∧
            (ofText text).position offset = .ok ⟨line, column⟩) ∧
          cause = .noSuchPosition line column) ∧
    ((ofText text).Overflows line column ∧ column < wordCount →
      1 < line ∧ wordCount < Text.size text + column) := by
  refine ⟨fun offset => ?_, fun cause => ?_, fun h => h.1.one_lt_line h.2⟩
  · rw [offset_eq_ok_iff, position_eq_ok_iff]
    constructor
    · rintro ⟨hword, hnames⟩
      have hboundary := isBoundary_ofText_iff.1 hnames.boundary
      exact ⟨hword, hboundary.le_size, hboundary, hnames⟩
    · rintro ⟨hword, -, -, hnames⟩
      exact ⟨hword, hnames⟩
  · simp only [offset_eq_error_iff, offset_eq_ok_iff, position_eq_ok_iff]

/-- The end of the text is a column of the last line. The column behind the terminator of a line is
none, although the next line starts there. -/
theorem offset_exact_ends :
    let table := ofText "ñ\nb"
    table.position 4 = .ok ⟨2, 2⟩ ∧ table.offset 2 2 = .ok 4 ∧ table.position 3 = .ok ⟨2, 1⟩ ∧
      table.offset 1 4 = .error (.noSuchPosition 1 4) := by
  intro table
  have hend : table.position 4 = .ok ⟨2, 2⟩ := rfl
  have hnext : table.position 3 = .ok ⟨2, 1⟩ := rfl
  have hoffset := ((offset_exact "ñ\nb" 2 2).1 4).2 ⟨by decide, by decide, by decide, hend⟩
  have hover : ¬ table.Overflows 1 4 := by
    rintro h
    have := (offset_exact "ñ\nb" 1 4).2.2 ⟨h, by decide⟩
    omega
  have hnone : ¬ ∃ offset, offset < wordCount ∧ table.position offset = .ok ⟨1, 4⟩ := by
    rintro ⟨offset, hword, hposition⟩
    have hnames := position_eq_ok_iff.1 hposition
    obtain rfl : offset = 3 := by
      obtain ⟨start, hstart, hoffset⟩ := hnames.start_eq
      obtain rfl : 0 = start := Option.some.inj hstart
      exact hoffset
    rw [hnext] at hposition
    cases hposition
  have hrefused := ((offset_exact "ñ\nb" 1 4).2.1 (.noSuchPosition 1 4)).2
    (.inr ⟨hover, hnone, rfl⟩)
  exact ⟨hend, hoffset, hnext, hrefused⟩

/-- The last column of all, behind the start of the second line, is no position of the text, but it
is not refused as one. -/
theorem offset_overflows :
    (¬ ∃ offset, (ofText "a\nb").position offset = .ok ⟨2, wordCount - 1⟩) ∧
      (ofText "a\nb").offset 2 (wordCount - 1) = .error .overflow := by
  refine ⟨?_, rfl⟩
  rintro ⟨offset, hposition⟩
  have hnames := position_eq_ok_iff.1 hposition
  have hsize : offset ≤ 3 := (isBoundary_ofText_iff.1 hnames.boundary).le_size
  obtain ⟨start, -, hoffset⟩ := hnames.start_eq
  have hcolumn : 3 < wordCount - 1 - 1 := by decide
  dsimp only at hoffset
  omega

/-- An offset has a position if and only if it is a boundary of the text. The position lies within
the lines of the text, leads back to the offset, and its line is how many lines start up to the
offset. Positions stand in the order of their offsets, so no two offsets share one. -/
theorem position_exact (text : String) :
    (∀ offset,
      ((∃ position, (ofText text).position offset = .ok position) ↔
        offset ≤ Text.size text ∧ Text.IsBoundary text offset) ∧
      (∀ cause, (ofText text).position offset = .error cause ↔
        ¬ (offset ≤ Text.size text ∧ Text.IsBoundary text offset) ∧
          cause = .misplaced (.point offset) (Text.size text)) ∧
      ∀ position, (ofText text).position offset = .ok position →
        (offset < wordCount →
          (ofText text).offset position.line position.column = .ok offset) ∧
        1 ≤ position.line ∧ position.line ≤ (ofText text).lineCount ∧ 1 ≤ position.column ∧
        ∀ i start, (ofText text).starts[i]? = some start → (start ≤ offset ↔ i < position.line)) ∧
    ∀ offset offset' position position', (ofText text).position offset = .ok position →
      (ofText text).position offset' = .ok position' →
      (offset < offset' ↔ position.Before position') ∧ (position = position' → offset = offset') := by
  have hboundary : ∀ offset, offset ≤ Text.size text ∧ Text.IsBoundary text offset ↔
      Text.IsBoundary text offset := fun offset =>
    and_iff_right_of_imp Text.IsBoundary.le_size
  refine ⟨fun offset => ⟨?_, fun cause => ?_, fun position hposition => ?_⟩, ?_⟩
  · rw [hboundary, exists_position_iff]
  · rw [hboundary, position_eq_error_iff]
  · have hnames := position_eq_ok_iff.1 hposition
    refine ⟨fun hword => offset_eq_ok_iff.2 ⟨hword, hnames⟩, hnames.line_pos, hnames.line_le,
      hnames.column_pos, fun i start hstart => ?_⟩
    rw [hnames.line_eq, lt_countP_iff (pairwise_starts text) hstart]
  · intro offset offset' position position' hposition hposition'
    have hnames := position_eq_ok_iff.1 hposition
    have hnames' := position_eq_ok_iff.1 hposition'
    refine ⟨hnames.lt_iff_before hnames', ?_⟩
    rintro rfl
    -- neither offset is before the other, as their position is not before itself
    have hnot : ¬ position.Before position := by
      rintro (hline | ⟨-, hcolumn⟩)
      · exact Nat.lt_irrefl _ hline
      · exact Nat.lt_irrefl _ hcolumn
    have hlt := (hnames.lt_iff_before hnames').not.2 hnot
    have hlt' := (hnames'.lt_iff_before hnames).not.2 hnot
    omega

/-- The line feed of a pair is the last offset of its line, and the next offset starts a line. -/
theorem position_exact_pair :
    let table := ofText "ñ\r\n€"
    table.position 3 = .ok ⟨1, 4⟩ ∧ table.position 4 = .ok ⟨2, 1⟩ ∧
      table.offset 1 4 = .ok 3 ∧ table.offset 2 1 = .ok 4 ∧
      Position.Before ⟨1, 4⟩ ⟨2, 1⟩ ∧ table.position 5 = .error (.misplaced (.point 5) 7) := by
  intro table
  have hfeed : table.position 3 = .ok ⟨1, 4⟩ := rfl
  have hnext : table.position 4 = .ok ⟨2, 1⟩ := rfl
  obtain ⟨heach, horder⟩ := position_exact "ñ\r\n€"
  have hback := ((heach 3).2.2 _ hfeed).1 (by decide)
  have hback' := ((heach 4).2.2 _ hnext).1 (by decide)
  have hbefore := (horder 3 4 _ _ hfeed hnext).1.1 (by decide)
  have hinside := ((heach 5).2.1 (.misplaced (.point 5) 7)).2 ⟨by decide, rfl⟩
  exact ⟨hfeed, hnext, hback, hback', hbefore, hinside⟩

end LineTable

end Scriptorium
