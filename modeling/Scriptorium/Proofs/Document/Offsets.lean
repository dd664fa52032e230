import Scriptorium.Proofs.Document.Extent
import Scriptorium.Proofs.Lines.Positions

/-!
# Offsets that can be converted and edited

Two tests say which offsets of a document are valid. One belongs to the table of its lines and is
made anew with every text, the other looks at the text itself when an edit comes in. Whatever was
done to the document, they agree, so a position that was handed out can always be edited.
-/

namespace Scriptorium

theorem Text.fits_point_iff {text : String} {offset : Nat} :
    Fits text (.point offset) ↔ IsBoundary text offset := by
  constructor
  · rintro ⟨-, -, hboundary, -⟩
    exact hboundary
  · intro h
    exact ⟨Nat.le_refl _, h.le_size, h, h⟩

namespace Document

/-- An offset has a position if and only if it is a boundary of the text, and then, and only then,
something can be inserted there. Both requests are refused for the same reason. The two lists of the
table that are searched for this are in order. -/
theorem boundaries_agree (name text : String) (limit : Option Nat) (actions : List Action) :
    let document := (new name text limit).performAll actions
    document.lines.starts.Pairwise (· < ·) ∧ document.lines.splits.Pairwise (· < ·) ∧
      (∀ offset inserted,
        ((∃ position, document.lines.position offset = .ok position) ↔
          Text.IsBoundary document.text offset) ∧
        ((∃ position, document.lines.position offset = .ok position) ↔
          ∃ result, document.edit (.point offset) inserted = .ok result) ∧
        ∀ cause,
          (document.lines.position offset = .error cause ↔
            document.edit (.point offset) inserted = .error cause) ∧
          (document.lines.position offset = .error cause →
            cause = .misplaced (.point offset) document.size)) ∧
      (∀ line column offset inserted, document.lines.offset line column = .ok offset →
        ∃ result, document.edit (.point offset) inserted = .ok result) ∧
      ∀ start stop inserted, start ≤ stop → Text.IsBoundary document.text start →
        Text.IsBoundary document.text stop →
        document.slice ⟨start, stop⟩ = .ok (Text.slice document.text ⟨start, stop⟩) ∧
          ∃ result, document.edit ⟨start, stop⟩ inserted = .ok result := by
  intro document
  have hlines : document.lines = .ofText document.text :=
    ((sound_new name text limit).performAll actions).lines_eq
  rw [hlines]
  refine ⟨LineTable.pairwise_starts _, LineTable.pairwise_splits _, ?_, ?_, ?_⟩
  · intro offset inserted
    refine ⟨LineTable.exists_position_iff, ?_, fun cause => ⟨?_, ?_⟩⟩
    · rw [LineTable.exists_position_iff, exists_edit_iff, Text.fits_point_iff]
    · rw [LineTable.position_eq_error_iff, edit_eq_error_iff, Text.fits_point_iff]
      rfl
    · intro hcause
      exact (LineTable.position_eq_error_iff.1 hcause).2
  · intro line column offset inserted hoffset
    have hboundary := LineTable.isBoundary_of_offset_eq_ok hoffset
    rw [exists_edit_iff, Text.fits_point_iff]
    exact LineTable.isBoundary_ofText_iff.1 hboundary
  · intro start stop inserted hle hstart hstop
    have hfits : Text.Fits document.text ⟨start, stop⟩ := ⟨hle, hstop.le_size, hstart, hstop⟩
    exact ⟨slice_eq_ok hfits, exists_edit_iff.2 hfits⟩

/-- An edit has brought in a character of two bytes. The third column lies inside it, the fourth
behind it. -/
theorem boundaries_agree_multibyte :
    let document := (new "f" "anb" none).performAll [.edit ⟨1, 2⟩ "ñ"]
    document.lines.offset 1 3 = .error (.noSuchPosition 1 3) ∧
      document.edit (.point 2) "x" = .error (.misplaced (.point 2) 4) ∧
      document.lines.position 2 = .error (.misplaced (.point 2) 4) ∧
      document.lines.offset 1 4 = .ok 3 ∧
      (∃ result, document.edit (.point 3) "x" = .ok result) ∧
      document.slice ⟨1, 3⟩ = .ok (Text.slice document.text ⟨1, 3⟩) := by
  intro document
  have hinside : document.lines.position 2 = .error (.misplaced (.point 2) 4) := by decide
  have hbehind : document.lines.offset 1 4 = .ok 3 := by decide
  obtain ⟨-, -, hagree, hoffset, hslice⟩ :=
    boundaries_agree "f" "anb" none [.edit ⟨1, 2⟩ "ñ"]
  have hedit := ((hagree 2 "x").2.2 _).1.1 hinside
  have hpart := (hslice 1 3 "x" (by decide) (by decide) (by decide)).1
  exact ⟨by decide, hedit, hinside, hbehind, hoffset 1 4 3 "x" hbehind, hpart⟩

end Document

end Scriptorium
