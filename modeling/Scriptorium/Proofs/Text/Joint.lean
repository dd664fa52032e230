import Scriptorium.Text

/-!
# Joints of a text

A text can be cut at its boundaries, and where texts were joined there is a boundary. An operation
on the span of one part of a joined text is therefore an operation on that part alone.
-/

namespace Scriptorium.Text

theorem size_append (s t : String) : size (s ++ t) = size s + size t :=
  String.utf8ByteSize_append

theorem take_bytes_append (front back : String) :
    (bytes (front ++ back)).take (size front) = bytes front := by
  rw [bytes_append, ← length_bytes, List.take_left]

theorem drop_bytes_append (front back : String) :
    (bytes (front ++ back)).drop (size front) = bytes back := by
  rw [bytes_append, ← length_bytes, List.drop_left]

theorem isBoundary_append (front back : String) : IsBoundary (front ++ back) (size front) :=
  isBoundary_iff_exists_append.2 ⟨front, back, rfl, rfl⟩

/-- A boundary behind the front part of a text cuts the rest of it in two. -/
theorem exists_append_of_isBoundary {front rest : String} {offset : Nat}
    (h : IsBoundary (front ++ rest) offset) (hle : size front ≤ offset) :
    ∃ left right, rest = left ++ right ∧ size (front ++ left) = offset := by
  obtain ⟨whole, right, hwhole, hsize⟩ := isBoundary_iff_exists_append.1 h
  have hfront : IsBoundary (front ++ rest) (size front) := isBoundary_append front rest
  let left := part (front ++ rest) (size front) offset
  have hleft : bytes left = (bytes whole).drop (size front) := by
    rw [bytes_part hfront h, hwhole, ← hsize, take_bytes_append]
  have htake : bytes front = (bytes whole).take (size front) := by
    rw [← take_bytes_append front rest, hwhole, bytes_append,
      List.take_append_of_le_length (by rwa [length_bytes, hsize])]
  have hcut : front ++ left = whole := by
    apply bytes_injective
    rw [bytes_append, hleft, htake, List.take_append_drop]
  refine ⟨left, right, ?_, ?_⟩
  · apply bytes_injective
    rw [← drop_bytes_append front rest, hwhole, ← hcut, String.append_assoc, drop_bytes_append]
  · rw [hcut, hsize]

/-! ### The middle one of three parts -/

variable (front middle back : String)

/-- The span of the second of some joined texts. -/
def middleSpan : Span :=
  ⟨size front, size (front ++ middle)⟩

theorem fits_middle : Fits (front ++ middle ++ back) (middleSpan front middle) := by
  refine ⟨?_, ?_, ?_, ?_⟩
  · simp [middleSpan]
  · simp [middleSpan]
  · rw [String.append_assoc]
    exact isBoundary_append front (middle ++ back)
  · exact isBoundary_append (front ++ middle) back

theorem slice_middle : slice (front ++ middle ++ back) (middleSpan front middle) = middle := by
  obtain ⟨-, -, hstart, hstop⟩ := fits_middle front middle back
  apply bytes_injective
  rw [slice, bytes_part hstart hstop]
  simp only [middleSpan, take_bytes_append, drop_bytes_append]

theorem splice_middle (inserted : String) :
    splice (front ++ middle ++ back) (middleSpan front middle) inserted =
      front ++ inserted ++ back := by
  obtain ⟨-, -, hstart, hstop⟩ := fits_middle front middle back
  have htake : (bytes (front ++ middle ++ back)).take (size front) = bytes front := by
    rw [String.append_assoc, take_bytes_append]
  apply bytes_injective
  rw [bytes_splice hstart hstop]
  simp only [middleSpan, htake, drop_bytes_append]
  rw [bytes_append, bytes_append]

end Scriptorium.Text
