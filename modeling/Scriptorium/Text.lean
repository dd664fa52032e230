import Scriptorium.Error

/-!
# Texts as byte strings

A text is a string, but every offset into it counts bytes of its UTF-8 form. The bytes are the view
through which texts are compared and cut: an offset is usable when it lies on a character boundary,
and replacing a span between two boundaries replaces exactly those bytes.
-/

namespace Scriptorium.Text

/-- The bytes of a text's UTF-8 form, in order. -/
def bytes (text : String) : List UInt8 :=
  text.toByteArray.data.toList

abbrev size (text : String) : Nat :=
  text.utf8ByteSize

/-- An offset is a boundary when it is inside the text or at its end and splits no character. -/
abbrev IsBoundary (text : String) (offset : Nat) : Prop :=
  String.Pos.Raw.IsValid text ⟨offset⟩

/-- A span fits a text when its ends are in order and both are boundaries of the text. -/
def Fits (text : String) (span : Span) : Prop :=
  span.start ≤ span.stop ∧ span.stop ≤ size text ∧
    IsBoundary text span.start ∧ IsBoundary text span.stop

instance (text : String) (span : Span) : Decidable (Fits text span) :=
  inferInstanceAs (Decidable (_ ∧ _ ∧ _ ∧ _))

/-- The part of a text between two boundaries, and nothing if one of them is no boundary. -/
def part (text : String) (start stop : Nat) : String :=
  if h : IsBoundary text start ∧ IsBoundary text stop then
    String.extract (text.pos ⟨start⟩ h.1) (text.pos ⟨stop⟩ h.2)
  else
    ""

/-- The part of a text that a span covers. -/
def slice (text : String) (span : Span) : String :=
  part text span.start span.stop

/-- The text in which the bytes of a span are replaced. -/
def splice (text : String) (span : Span) (inserted : String) : String :=
  part text 0 span.start ++ inserted ++ part text span.stop (size text)

/-- Accepts exactly the spans that fit a text. -/
def check (text : String) (span : Span) : Except Error Unit :=
  if Fits text span then .ok () else .error (.misplaced span (size text))

theorem check_eq_ok_iff {text : String} {span : Span} :
    check text span = .ok () ↔ Fits text span := by
  by_cases h : Fits text span <;> simp [check, h]

/-! ### The bytes of the operations -/

@[simp] theorem length_bytes (text : String) : (bytes text).length = size text := by
  rw [bytes, size, ← String.size_toByteArray, Array.length_toList, ByteArray.size_data]

theorem bytes_injective {s t : String} (h : bytes s = bytes t) : s = t := by
  apply String.toByteArray_inj.1
  apply ByteArray.ext
  exact Array.toList_inj.1 h

@[simp] theorem bytes_append (s t : String) : bytes (s ++ t) = bytes s ++ bytes t := by
  simp [bytes]

theorem IsBoundary.le_size {text : String} {offset : Nat} (h : IsBoundary text offset) :
    offset ≤ size text :=
  h.le_utf8ByteSize

theorem isBoundary_zero (text : String) : IsBoundary text 0 :=
  String.Pos.Raw.isValid_zero

theorem isBoundary_size (text : String) : IsBoundary text (size text) :=
  String.Pos.Raw.isValid_rawEndPos

/-- Only an offset in front of the end can fail to be a boundary. -/
theorem isBoundary_of_le {text : String} {offset : Nat} (hle : offset ≤ size text)
    (h : offset < size text → IsBoundary text offset) : IsBoundary text offset := by
  rcases Nat.lt_or_eq_of_le hle with hlt | rfl
  · exact h hlt
  · exact isBoundary_size text

/-- A boundary is where a text can be written as one text followed by another. -/
theorem isBoundary_iff_exists_append {text : String} {offset : Nat} :
    IsBoundary text offset ↔ ∃ front back : String, text = front ++ back ∧ size front = offset := by
  rw [IsBoundary, String.Pos.Raw.isValid_iff_exists_append]
  constructor
  · rintro ⟨front, back, rfl, h⟩
    exact ⟨front, back, rfl, by simpa using (congrArg String.Pos.Raw.byteIdx h).symm⟩
  · rintro ⟨front, back, rfl, rfl⟩
    exact ⟨front, back, rfl, by simp [String.Pos.Raw.ext_iff]⟩

theorem bytes_part {text : String} {start stop : Nat} (hstart : IsBoundary text start)
    (hstop : IsBoundary text stop) :
    bytes (part text start stop) = ((bytes text).take stop).drop start := by
  rw [part, dif_pos ⟨hstart, hstop⟩, bytes, String.toByteArray_extract]
  simp [bytes, List.extract_eq_take_drop, List.drop_take]

theorem size_slice {text : String} {span : Span} (h : Fits text span) :
    size (slice text span) = span.length := by
  obtain ⟨-, hstop, hboundary, hboundary'⟩ := h
  rw [← length_bytes, slice, bytes_part hboundary hboundary', List.length_drop, List.length_take,
    length_bytes, Nat.min_eq_left hstop, Span.length]

theorem bytes_splice {text : String} {span : Span} (hstart : IsBoundary text span.start)
    (hstop : IsBoundary text span.stop) (inserted : String) :
    bytes (splice text span inserted) =
      (bytes text).take span.start ++ bytes inserted ++ (bytes text).drop span.stop := by
  rw [splice, bytes_append, bytes_append, bytes_part (isBoundary_zero text) hstart,
    bytes_part hstop (isBoundary_size text)]
  simp [← length_bytes]

end Scriptorium.Text
