import Scriptorium.Proofs.Text.Joint

/-!
# What a replacement leaves alone

Replacing a span keeps the bytes in front of it and the bytes after it. Two byte strings agree on a
front and a back when they begin with the same bytes and end with the same bytes, and the two parts
do not overlap in either of them. Agreement is passed on along a chain of replacements, and a byte
string is rebuilt from any other with which it agrees by replacing what lies between the two parts.
For texts this needs no look at their characters, because the bytes on one side of an offset already
tell whether it is a boundary.
-/

namespace Scriptorium.Text

/-- The bytes in which those of a span are replaced. -/
def patch (old : List UInt8) (span : Span) (inserted : List UInt8) : List UInt8 :=
  old.take span.start ++ inserted ++ old.drop span.stop

/-- The bytes that a span covers. -/
def cut (bytes : List UInt8) (span : Span) : List UInt8 :=
  (bytes.take span.stop).drop span.start

/-- The first `front` bytes and the last `back` bytes are the same, and do not overlap. -/
structure Agree (front back : Nat) (old new : List UInt8) : Prop where
  le_old : front + back ≤ old.length
  le_new : front + back ≤ new.length
  take_eq : old.take front = new.take front
  drop_eq : old.drop (old.length - back) = new.drop (new.length - back)

variable {front back : Nat} {old new newer : List UInt8} {span : Span}

theorem length_patch (hspan : span.start ≤ span.stop) (hstop : span.stop ≤ old.length)
    (inserted : List UInt8) :
    (patch old span inserted).length =
      span.start + inserted.length + (old.length - span.stop) := by
  have hstart : span.start ≤ old.length := Nat.le_trans hspan hstop
  simp [patch, Nat.min_eq_left hstart, Nat.add_assoc]

theorem Agree.refl (h : front + back ≤ old.length) : Agree front back old old :=
  ⟨h, h, rfl, rfl⟩

theorem Agree.trans (h : Agree front back old new) (h' : Agree front back new newer) :
    Agree front back old newer :=
  ⟨h.le_old, h'.le_new, h.take_eq.trans h'.take_eq, h.drop_eq.trans h'.drop_eq⟩

/-- A replacement keeps a front that ends before its span and a back that starts after it. -/
theorem agree_patch (hspan : span.start ≤ span.stop) (hstop : span.stop ≤ old.length)
    (hfront : front ≤ span.start) (hback : back ≤ old.length - span.stop)
    (inserted : List UInt8) : Agree front back old (patch old span inserted) := by
  have hlength := length_patch hspan hstop inserted
  refine ⟨by omega, by omega, ?_, ?_⟩
  · have htake : front ≤ (old.take span.start).length := by
      rw [List.length_take]
      omega
    rw [patch, List.append_assoc, List.take_append_of_le_length htake, List.take_take,
      Nat.min_eq_left hfront]
  · have hkept : (old.take span.start ++ inserted).length = span.start + inserted.length := by
      simp only [List.length_append, List.length_take]
      omega
    have hskip : (patch old span inserted).length - back =
        (old.take span.start ++ inserted).length + (old.length - span.stop - back) := by
      omega
    rw [hskip, patch, List.drop_length_add_append, List.drop_drop]
    congr 1
    omega

/-- Where two byte strings agree, the newer one is the older one with its middle replaced. -/
theorem Agree.patch_eq (h : Agree front back old new) :
    patch old ⟨front, old.length - back⟩ (cut new ⟨front, new.length - back⟩) = new := by
  have hle : front ≤ new.length - back := by
    have := h.le_new
    omega
  have hfront : new.take front = (new.take (new.length - back)).take front := by
    rw [List.take_take, Nat.min_eq_left hle]
  calc
    patch old ⟨front, old.length - back⟩ (cut new ⟨front, new.length - back⟩) =
        (new.take front ++ (new.take (new.length - back)).drop front) ++
          new.drop (new.length - back) := by
      simp only [patch, cut, h.take_eq, h.drop_eq]
    _ = new.take (new.length - back) ++ new.drop (new.length - back) := by
      rw [hfront, List.take_append_drop]
    _ = new := List.take_append_drop _ _

theorem Agree.getElem?_front (h : Agree front back old new) {i : Nat} (hi : i < front) :
    old[i]? = new[i]? := by
  rw [← List.getElem?_take_of_lt hi, h.take_eq, List.getElem?_take_of_lt hi]

theorem Agree.getElem?_back (h : Agree front back old new) (i : Nat) :
    old[old.length - back + i]? = new[new.length - back + i]? := by
  rw [← List.getElem?_drop, h.drop_eq, List.getElem?_drop]

/-! ### Agreeing texts -/

theorem toList_extract (text : String) (start stop : Nat) :
    (text.toByteArray.extract start stop).data.toList = ((bytes text).take stop).drop start := by
  simp [bytes, List.extract_eq_take_drop, List.drop_take]

theorem isValidUTF8_of_toList_eq {array : ByteArray} {text : String}
    (h : array.data.toList = bytes text) : array.IsValidUTF8 := by
  have harray : array = text.toByteArray := by
    apply ByteArray.ext
    exact Array.toList_inj.1 h
  rw [harray]
  exact text.isValidUTF8

theorem IsBoundary.of_take_eq {s t : String} {offset : Nat} (h : IsBoundary s offset)
    (htake : (bytes s).take offset = (bytes t).take offset) (hle : offset ≤ size t) :
    IsBoundary t offset := by
  obtain ⟨left, right, rfl, rfl⟩ := isBoundary_iff_exists_append.1 h
  rw [take_bytes_append] at htake
  refine String.Pos.Raw.isValid_iff_isValidUTF8_extract_zero.2 ⟨hle, ?_⟩
  apply isValidUTF8_of_toList_eq
  rw [toList_extract, List.drop_zero, htake]

theorem IsBoundary.of_drop_eq {s t : String} {offset offset' : Nat} (h : IsBoundary s offset)
    (hdrop : (bytes s).drop offset = (bytes t).drop offset') (hle : offset' ≤ size t) :
    IsBoundary t offset' := by
  obtain ⟨left, right, rfl, rfl⟩ := isBoundary_iff_exists_append.1 h
  rw [drop_bytes_append] at hdrop
  refine String.Pos.Raw.isValid_iff_isValidUTF8_extract_utf8ByteSize.2 ⟨hle, ?_⟩
  apply isValidUTF8_of_toList_eq
  rw [toList_extract, hdrop, List.take_of_length_le (Nat.le_of_eq (length_bytes t))]

variable {s t : String}

/-- Where the middle of one text is a span that fits, so is the middle of the other. -/
theorem Agree.fits (h : Agree front back (bytes s) (bytes t))
    (hfits : Fits s ⟨front, size s - back⟩) : Fits t ⟨front, size t - back⟩ := by
  obtain ⟨-, -, hstart, hstop⟩ := hfits
  have hle : front + back ≤ size t := by simpa using h.le_new
  have hdrop := h.drop_eq
  rw [length_bytes, length_bytes] at hdrop
  refine ⟨?_, Nat.sub_le _ _, ?_, ?_⟩
  · change front ≤ size t - back
    omega
  · exact hstart.of_take_eq h.take_eq (Nat.le_trans (Nat.le_add_right front back) hle)
  · exact hstop.of_drop_eq hdrop (Nat.sub_le _ _)

theorem Agree.splice_eq (h : Agree front back (bytes s) (bytes t))
    (hfits : Fits s ⟨front, size s - back⟩) :
    splice s ⟨front, size s - back⟩ (slice t ⟨front, size t - back⟩) = t := by
  obtain ⟨-, -, hstart', hstop'⟩ := h.fits hfits
  obtain ⟨-, -, hstart, hstop⟩ := hfits
  have hpatch := h.patch_eq
  rw [length_bytes, length_bytes] at hpatch
  apply bytes_injective
  rw [bytes_splice hstart hstop, slice, bytes_part hstart' hstop']
  exact hpatch

end Scriptorium.Text
