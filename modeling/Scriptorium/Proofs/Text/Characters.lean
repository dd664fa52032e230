import Scriptorium.Proofs.Text.Joint

/-!
# Characters among the bytes

The bytes of a text are those of its characters, one after another. A byte below 128 is a character
of its own wherever it stands, since every byte of a longer character is above that. So the text can
be cut on both sides of it, and what the cuts leave between them is this character.
-/

namespace Scriptorium.Text

variable {text : String} {byte : UInt8} {i start middle stop : Nat}

theorem bytes_eq_flatMap (text : String) :
    bytes text = text.toList.flatMap String.utf8EncodeChar := by
  rw [bytes, ← String.utf8Encode_toList, List.utf8Encode, List.data_toByteArray]

/-- The bytes of a character that takes more than one are not below 128. -/
theorem encode_eq_of_ascii {char : Char} (h : byte ∈ String.utf8EncodeChar char)
    (hascii : byte < 128) : String.utf8EncodeChar char = [byte] := by
  have hhigh : ∀ value base : Nat, 128 ≤ base → value + base < 256 →
      byte ≠ UInt8.ofNat (value + base) := by
    rintro value base hbase hbyte rfl
    rw [UInt8.lt_iff_toNat_lt, UInt8.toNat_ofNat_of_lt' hbyte] at hascii
    have : (128 : UInt8).toNat = 128 := rfl
    omega
  unfold String.utf8EncodeChar at h ⊢
  simp only at h ⊢
  split
  · next hone =>
      rw [if_pos hone, List.mem_singleton] at h
      rw [h]
  · next hone =>
      exfalso
      rw [if_neg hone] at h
      split at h
      · simp only [List.mem_cons, List.not_mem_nil, or_false] at h
        rcases h with h | h <;> exact hhigh _ _ (by omega) (by omega) h
      · split at h
        · simp only [List.mem_cons, List.not_mem_nil, or_false] at h
          rcases h with h | h | h <;> exact hhigh _ _ (by omega) (by omega) h
        · simp only [List.mem_cons, List.not_mem_nil, or_false] at h
          rcases h with h | h | h | h <;> exact hhigh _ _ (by omega) (by omega) h

/-- What stands in front of a byte below 128 and what stands behind it are texts. -/
theorem exists_append_of_ascii (h : (bytes text)[i]? = some byte) (hascii : byte < 128) :
    ∃ front char back, text = front ++ String.singleton char ++ back ∧ size front = i ∧
      bytes (String.singleton char) = [byte] := by
  obtain ⟨chars, rfl⟩ : ∃ chars, text = String.ofList chars := ⟨text.toList, by simp⟩
  induction chars generalizing i with
  | nil => simp [bytes_eq_flatMap] at h
  | cons char rest ih =>
      have hsingle : bytes (String.singleton char) = String.utf8EncodeChar char := by
        simp [bytes_eq_flatMap]
      rw [String.ofList_cons, bytes_append, hsingle] at h
      by_cases hlt : i < (String.utf8EncodeChar char).length
      · rw [List.getElem?_append_left hlt] at h
        have hencode := encode_eq_of_ascii (List.mem_of_getElem? h) hascii
        rw [hencode, List.length_singleton] at hlt
        refine ⟨"", char, String.ofList rest, ?_, ?_, hsingle.trans hencode⟩
        · rw [String.empty_append, String.ofList_cons]
        · simp only [size, String.utf8ByteSize_empty]
          omega
      · rw [List.getElem?_append_right (Nat.le_of_not_lt hlt)] at h
        obtain ⟨front, found, back, hrest, hfront, hfound⟩ := ih h
        refine ⟨String.singleton char ++ front, found, back, ?_, ?_, hfound⟩
        · rw [String.ofList_cons, hrest, String.append_assoc, String.append_assoc,
            String.append_assoc]
        · rw [size_append, hfront, ← length_bytes, hsingle]
          omega

/-- A text of one byte below 128 is what the text holds wherever it has this byte. -/
theorem slice_of_ascii (piece : String) (hpiece : bytes piece = [byte]) (hascii : byte < 128)
    (h : (bytes text)[i]? = some byte) :
    IsBoundary text i ∧ IsBoundary text (i + 1) ∧ slice text ⟨i, i + 1⟩ = piece := by
  obtain ⟨front, char, back, rfl, rfl, hchar⟩ := exists_append_of_ascii h hascii
  obtain rfl : piece = String.singleton char := bytes_injective (hpiece.trans hchar.symm)
  have hsize : size (front ++ String.singleton char) = size front + 1 := by
    rw [size_append, ← length_bytes (String.singleton char), hchar, List.length_singleton]
  have hfits := fits_middle front (String.singleton char) back
  have hslice := slice_middle front (String.singleton char) back
  rw [middleSpan, hsize] at hfits hslice
  exact ⟨hfits.2.2.1, hfits.2.2.2, hslice⟩

theorem part_append (hstart : IsBoundary text start) (hmiddle : IsBoundary text middle)
    (hstop : IsBoundary text stop) (hle : start ≤ middle) (hle' : middle ≤ stop) :
    part text start middle ++ part text middle stop = part text start stop := by
  apply bytes_injective
  rw [bytes_append, bytes_part hstart hmiddle, bytes_part hmiddle hstop, bytes_part hstart hstop]
  have htake : (bytes text).take middle = ((bytes text).take stop).take middle := by
    rw [List.take_take, Nat.min_eq_left hle']
  have hlength : start ≤ (((bytes text).take stop).take middle).length := by
    rw [← htake, List.length_take, length_bytes, Nat.min_eq_left hmiddle.le_size]
    exact hle
  rw [htake, ← List.drop_append_of_le_length hlength, List.take_append_drop]

theorem slice_succ_of_ascii (piece : String) (hpiece : bytes piece = [byte]) (hascii : byte < 128)
    (h : (bytes text)[i]? = some byte) (hstart : IsBoundary text start) (hle : start ≤ i) :
    slice text ⟨start, i + 1⟩ = slice text ⟨start, i⟩ ++ piece := by
  obtain ⟨hfront, hback, hslice⟩ := slice_of_ascii piece hpiece hascii h
  rw [← hslice]
  exact (part_append hstart hfront hback hle (Nat.le_succ i)).symm

theorem part_zero_size (text : String) : part text 0 (size text) = text := by
  apply bytes_injective
  rw [bytes_part (isBoundary_zero text) (isBoundary_size text), List.drop_zero,
    List.take_of_length_le (Nat.le_of_eq (length_bytes text))]

/-- A character of one byte that a slice holds is a byte of the text within the span. -/
theorem exists_getElem?_of_mem_slice {span : Span} {char : Char} (hfits : Fits text span)
    (hchar : String.utf8EncodeChar char = [byte]) (h : char ∈ (slice text span).toList) :
    ∃ k, span.start ≤ k ∧ k < span.stop ∧ (bytes text)[k]? = some byte := by
  obtain ⟨-, -, hstart, hstop⟩ := hfits
  have hmem : byte ∈ bytes (slice text span) := by
    rw [bytes_eq_flatMap, List.mem_flatMap]
    exact ⟨char, h, by rw [hchar, List.mem_singleton]⟩
  rw [slice, bytes_part hstart hstop] at hmem
  obtain ⟨k, hk⟩ := List.mem_iff_getElem?.1 hmem
  rw [List.getElem?_drop, List.getElem?_take] at hk
  split at hk
  · next hlt => exact ⟨span.start + k, Nat.le_add_right _ _, hlt, hk⟩
  · cases hk

end Scriptorium.Text
