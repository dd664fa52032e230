import Mathlib.Tactic.ByContra
import Scriptorium.Proofs.Lines.Starts

/-!
# Which offsets have a position

A table does not look at the characters of its text. It keeps two lists in increasing order, which
can be searched by halving, and refuses the offsets that one of them holds. Those are the offsets
that split a character, so what the table converts is what the text can be cut at.
-/

namespace Scriptorium

/-- Each line starts behind the one before it. -/
theorem pairwise_lineBreaks (offset : Nat) (bytes : List UInt8) :
    (lineBreaks offset bytes).Pairwise (· < ·) := by
  fun_induction lineBreaks offset bytes with
  | case1 offset => exact List.Pairwise.nil
  | case2 offset rest ih =>
      apply List.Pairwise.cons _ ih
      intro p hp
      obtain ⟨i, -, rfl⟩ := mem_lineBreaks_iff.1 hp
      omega
  | case3 offset byte rest hpair hends ih =>
      apply List.Pairwise.cons _ ih
      intro p hp
      obtain ⟨i, -, rfl⟩ := mem_lineBreaks_iff.1 hp
      omega
  | case4 offset byte rest hpair hends ih => exact ih

namespace LineTable

variable {text : String} {offset : Nat}

theorem pairwise_starts (text : String) : (ofText text).starts.Pairwise (· < ·) := by
  apply List.Pairwise.cons _ (pairwise_lineBreaks 0 (Text.bytes text))
  intro p hp
  obtain ⟨i, -, rfl⟩ := mem_lineBreaks_iff.1 hp
  omega

theorem pairwise_splits (text : String) : (ofText text).splits.Pairwise (· < ·) := by
  unfold ofText
  exact List.pairwise_lt_range.filter _

theorem mem_splits_iff :
    offset ∈ (ofText text).splits ↔ offset < Text.size text ∧ ¬ Text.IsBoundary text offset := by
  simp [ofText]

/-- The test of the table is the one of the text. -/
theorem isBoundary_ofText_iff :
    (ofText text).isBoundary offset = true ↔ Text.IsBoundary text offset := by
  have hsize : (ofText text).size = Text.size text := rfl
  simp only [isBoundary, Bool.and_eq_true, decide_eq_true_eq, Bool.not_eq_true',
    List.contains_eq_mem, decide_eq_false_iff_not, mem_splits_iff, hsize]
  constructor
  · rintro ⟨hle, hsplits⟩
    apply Text.isBoundary_of_le hle
    intro hlt
    by_contra hnot
    exact hsplits ⟨hlt, hnot⟩
  · intro h
    exact ⟨h.le_size, fun hsplits => hsplits.2 h⟩

theorem exists_position_iff :
    (∃ position, (ofText text).position offset = .ok position) ↔
      Text.IsBoundary text offset := by
  rw [← isBoundary_ofText_iff, position]
  split <;> simp_all

theorem position_eq_error_iff {cause : Error} :
    (ofText text).position offset = .error cause ↔
      ¬ Text.IsBoundary text offset ∧ cause = .misplaced (.point offset) (Text.size text) := by
  rw [← isBoundary_ofText_iff, position]
  split
  · next h => simp [h]
  · next h =>
      rw [Except.error.injEq]
      constructor
      · intro hcause
        exact ⟨h, hcause.symm⟩
      · rintro ⟨-, rfl⟩
        rfl

/-- What a table gives for a line and a column is one of its boundaries. -/
theorem isBoundary_of_offset_eq_ok {table : LineTable} {line column : Nat}
    (h : table.offset line column = .ok offset) : table.isBoundary offset = true := by
  unfold LineTable.offset at h
  split at h
  · split at h
    · cases h
    · split at h
      · cases h
      · split at h
        · next hholds =>
            cases h
            exact hholds.2
        · cases h
  · cases h

end LineTable

end Scriptorium
