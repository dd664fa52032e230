import Scriptorium.Proofs.Settings.Numerals
import Scriptorium.Settings.Moment

/-!
# Moments that read back

The parts of a moment are written at fixed widths, so each is read from as many characters as it was
written with. Only the fraction of a second is as long as it has to be, and it ends at the first
character that is no digit. What is read is always a valid moment, and a valid moment is read back.
-/

namespace Scriptorium.Settings

variable {chars rest : List Char}

/-! ### Numbers of a fixed width -/

theorem length_padded {width value : Nat} (hwidth : 0 < width) (h : value < 10 ^ width) :
    (padded width value).length = width := by
  have hle := (Nat.length_toDigits_le_iff (by decide : 1 < 10) hwidth).2 h
  rw [padded, List.length_append, List.length_replicate, Nat.sub_add_cancel hle]

theorem isDigit_of_mem_padded {width value : Nat} :
    ∀ char ∈ padded width value, char.isDigit = true :=
  List.forall_mem_append.2 ⟨fun _ => isDigit_of_mem_zeros, fun _ => isDigit_of_mem_digits⟩

theorem ofDigitChars_padded (width value : Nat) :
    Nat.ofDigitChars 10 (padded width value) 0 = value := by
  simp only [padded, Nat.ofDigitChars_append, Nat.ofDigitChars_replicate_zero, Nat.mul_zero,
    Nat.ofDigitChars_ten_toDigits]

theorem takeDigits_padded {width value : Nat} (hwidth : 0 < width) (h : value < 10 ^ width)
    (rest : List Char) : takeDigits width (padded width value ++ rest) = some (value, rest) := by
  have hlength := length_padded hwidth h
  have htake : (padded width value ++ rest).take width = padded width value :=
    List.take_left' hlength
  have hdrop : (padded width value ++ rest).drop width = rest := List.drop_left' hlength
  have hall : (padded width value).all Char.isDigit = true :=
    List.all_eq_true.2 isDigit_of_mem_padded
  simp only [takeDigits, htake, hdrop, hlength, hall, ofDigitChars_padded, and_self, if_true]

theorem takeChar_cons (char : Char) (rest : List Char) : takeChar char (char :: rest) = some rest :=
  if_pos rfl

/-! ### Dates and times -/

theorem daysIn_le (year month : Nat) : daysIn year month ≤ 31 := by
  unfold daysIn
  split
  · split <;> decide
  · split <;> decide

theorem Date.read?_render {date : Date} (h : date.IsValid) (rest : List Char) :
    Date.read? (date.render ++ rest) = some (date, rest) := by
  have hvalid := h
  obtain ⟨hyear, -, hmonth, -, hday⟩ := h
  have hdays := daysIn_le date.year date.month
  simp only [Date.render, List.append_assoc, List.cons_append, Date.read?,
    takeDigits_padded (by decide : 0 < 4) hyear,
    takeDigits_padded (by decide : 0 < 2) (show date.month < 10 ^ 2 by omega),
    takeDigits_padded (by decide : 0 < 2) (show date.day < 10 ^ 2 by omega), takeChar_cons,
    Option.bind_eq_bind, Option.bind_some, if_pos hvalid]
  rfl

/-- Only zeros are left out at the end of a fraction, and they are no part of the number that it
stands for. -/
theorem exists_dropTrailingZeros (chars : List Char) :
    ∃ count, chars = dropTrailingZeros chars ++ List.replicate count '0' := by
  have hzeros : chars.reverse.takeWhile (· = '0') =
      List.replicate (chars.reverse.takeWhile (· = '0')).length '0' := by
    rw [List.eq_replicate_iff]
    refine ⟨rfl, fun char hchar => ?_⟩
    simpa using List.mem_takeWhile_imp hchar
  have hsplit : chars.reverse.takeWhile (· = '0') ++ chars.reverse.dropWhile (· = '0') =
      chars.reverse := List.takeWhile_append_dropWhile
  rw [hzeros] at hsplit
  have hreverse := congrArg List.reverse hsplit
  rw [List.reverse_append, List.reverse_replicate, List.reverse_reverse] at hreverse
  exact ⟨_, hreverse.symm⟩

theorem nanosecondsOf_dropTrailingZeros (h : chars.length = 9) :
    nanosecondsOf (dropTrailingZeros chars) = Nat.ofDigitChars 10 chars 0 := by
  obtain ⟨count, hchars⟩ := exists_dropTrailingZeros chars
  have hlength := congrArg List.length hchars
  rw [List.length_append, List.length_replicate, h] at hlength
  have hkept : (dropTrailingZeros chars).take 9 = dropTrailingZeros chars :=
    List.take_of_length_le (by omega)
  have hcount : 9 - (dropTrailingZeros chars).length = count := by omega
  conv_rhs => rw [hchars, Nat.ofDigitChars_append, Nat.ofDigitChars_replicate_zero, Nat.mul_comm]
  rw [nanosecondsOf, hkept, hcount]
  rfl

/-- A character that would go on with a fraction of a second, or start one. -/
def isFractionChar (char : Char) : Bool :=
  char.isDigit || char = '.'

theorem stops_isDigit (h : Stops isFractionChar rest) : Stops Char.isDigit rest := by
  intro char hchar
  have hnot := h char hchar
  rw [isFractionChar, Bool.or_eq_false_iff] at hnot
  exact hnot.1

theorem readFraction?_render {nanosecond : Nat} (h : nanosecond < 1000000000)
    (hrest : Stops isFractionChar rest) :
    readFraction? ((if nanosecond = 0 then []
      else '.' :: dropTrailingZeros (padded 9 nanosecond)) ++ rest) = some (nanosecond, rest) := by
  split
  · next hzero =>
      subst hzero
      cases rest with
      | nil => rfl
      | cons char rest =>
          have hpoint : char ≠ '.' := by
            rintro rfl
            exact absurd (stops_cons.1 hrest) (by decide)
          rw [List.nil_append, readFraction?]
          intro others heq
          exact hpoint (List.cons.inj heq).1
  · next hne =>
      have hlength : (padded 9 nanosecond).length = 9 := length_padded (by decide) h
      have hvalue := nanosecondsOf_dropTrailingZeros hlength
      rw [ofDigitChars_padded] at hvalue
      have hdigits : ∀ char ∈ dropTrailingZeros (padded 9 nanosecond), char.isDigit = true := by
        intro char hchar
        obtain ⟨count, hchars⟩ := exists_dropTrailingZeros (padded 9 nanosecond)
        apply isDigit_of_mem_padded
        rw [hchars]
        exact List.mem_append_left _ hchar
      have hfraction : dropTrailingZeros (padded 9 nanosecond) ≠ [] := by
        intro hnil
        rw [hnil] at hvalue
        exact hne hvalue.symm
      rw [List.cons_append, readFraction?]
      simp only [takeWhile_word hdigits (stops_isDigit hrest),
        dropWhile_word hdigits (stops_isDigit hrest), if_neg hfraction, hvalue]

theorem Time.read?_render {time : Time} (h : time.IsValid) (hrest : Stops isFractionChar rest) :
    Time.read? (time.render ++ rest) = some (time, rest) := by
  have hvalid := h
  obtain ⟨hhour, hminute, hsecond, hnanosecond⟩ := h
  simp only [Time.render, List.append_assoc, List.cons_append, Time.read?, readSeconds?,
    takeDigits_padded (by decide : 0 < 2) (show time.hour < 10 ^ 2 by omega),
    takeDigits_padded (by decide : 0 < 2) (show time.minute < 10 ^ 2 by omega),
    takeDigits_padded (by decide : 0 < 2) (show time.second < 10 ^ 2 by omega), takeChar_cons,
    readFraction?_render hnanosecond hrest,
    Option.bind_eq_bind, Option.bind_some, Option.pure_def, if_pos hvalid]

/-! ### Offsets and moments -/

theorem readOffsetMinutes?_render {value : Nat} (h : value < 1440) :
    readOffsetMinutes? (padded 2 (value / 60) ++ ':' :: padded 2 (value % 60)) = some value := by
  have hminutes := takeDigits_padded (by decide : 0 < 2) (show value % 60 < 10 ^ 2 by omega) []
  rw [List.append_nil] at hminutes
  have hrange : value / 60 ≤ 23 ∧ value % 60 ≤ 59 := by omega
  have hvalue : value / 60 * 60 + value % 60 = value := by omega
  simp only [readOffsetMinutes?, takeChar_cons, hminutes,
    takeDigits_padded (by decide : 0 < 2) (show value / 60 < 10 ^ 2 by omega),
    Option.bind_eq_bind, Option.bind_some, Option.pure_def, true_and, if_pos hrange, hvalue]

theorem readOffset?_render {offset : Offset} (h : offset.IsValid) :
    readOffset? offset.render = some (some offset) := by
  cases offset with
  | zulu => rfl
  | minutes value =>
      obtain ⟨hlow, hhigh⟩ := h
      have hminutes := readOffsetMinutes?_render (show value.natAbs < 1440 by omega)
      rw [Offset.render, List.cons_append]
      split
      · next hneg =>
          rw [readOffset?, hminutes]
          have hvalue : -(value.natAbs : Int) = value := by omega
          simp only [Option.bind_eq_bind, Option.bind_some, Option.pure_def, hvalue]
      · next hnonneg =>
          rw [readOffset?, hminutes]
          have hvalue : (value.natAbs : Int) = value := by omega
          simp only [Option.bind_eq_bind, Option.bind_some, Option.pure_def, hvalue]

theorem stops_renderOffset {offset : Option Offset} :
    Stops isFractionChar ((offset.map Offset.render).getD []) := by
  cases offset with
  | none => exact stops_nil _
  | some offset =>
      cases offset with
      | zulu => exact stops_cons.2 rfl
      | minutes value =>
          rw [Option.map_some, Option.getD_some, Offset.render, List.cons_append, stops_cons]
          split <;> rfl

theorem takeDigits_eq_none {count : Nat} (h : ∃ char ∈ chars.take count, char.isDigit = false) :
    takeDigits count chars = none := by
  obtain ⟨char, hchar, hdigit⟩ := h
  have hall : (chars.take count).all Char.isDigit = false :=
    List.all_eq_false.2 ⟨char, hchar, by simp [hdigit]⟩
  simp [takeDigits, hall]

/-- A time is no date: behind its hour there is a colon. -/
theorem Date.read?_renderTime {time : Time} (h : time.IsValid) : Date.read? time.render = none := by
  have hhour : (padded 2 time.hour).length = 2 :=
    length_padded (by decide) (show time.hour < 10 ^ 2 by have := h.1; omega)
  have hcolon : ∃ char ∈ time.render.take 4, char.isDigit = false := by
    refine ⟨':', ?_, rfl⟩
    rw [Time.render, List.append_assoc, List.append_assoc, List.take_append, hhour]
    simp
  rw [Date.read?, takeDigits_eq_none hcolon]
  rfl

theorem Moment.read?_render {moment : Moment} (h : moment.IsValid) :
    Moment.read? moment.render = some moment := by
  cases moment with
  | day date =>
      have hdate := Date.read?_render h []
      rw [List.append_nil] at hdate
      rw [Moment.render, Moment.read?, hdate]
  | clock time =>
      have htime := Time.read?_render h (stops_nil _)
      rw [List.append_nil] at htime
      rw [Moment.render, Moment.read?, Date.read?_renderTime h]
      simp [htime]
  | instant date time offset =>
      obtain ⟨hdate, htime, hoffset⟩ := h
      have hread : readOffset? ((offset.map Offset.render).getD []) = some offset := by
        cases offset with
        | none => rfl
        | some offset => exact readOffset?_render (hoffset offset rfl)
      have hmark : isDateTimeMark 'T' = true := rfl
      rw [Moment.render, List.append_assoc, List.cons_append, Moment.read?,
        Date.read?_render hdate]
      simp only [if_pos hmark, Time.read?_render htime stops_renderOffset, hread,
        Option.bind_eq_bind, Option.bind_some, Option.pure_def]

end Scriptorium.Settings
