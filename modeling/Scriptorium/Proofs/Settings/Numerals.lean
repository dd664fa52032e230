import Scriptorium.Proofs.Settings.Rounding
import Scriptorium.Proofs.Settings.Words
import Scriptorium.Settings.Numeral

/-!
# Numerals that read back

A whole number is written with its digits alone, without a zero in front and without underscores, so
the reader, which allows underscores, takes all of them. A numeral is no number of another kind: an
integer has neither a point nor letters, and only integers in other bases start with a letter after
a zero.
-/

namespace Scriptorium.Settings

variable {chars : List Char}

/-! ### Digits -/

/-- What may be read as part of a run of digits. -/
def isDigitOrMark (char : Char) : Bool :=
  char.isDigit || char = '_'

theorem moreDigits_of_digits (h : ∀ char ∈ chars, char.isDigit = true) :
    moreDigits Char.isDigit chars = some chars := by
  induction chars with
  | nil => rfl
  | cons char rest ih =>
      obtain ⟨hchar, hrest⟩ := List.forall_mem_cons.1 h
      have hmark : char ≠ '_' := by
        rintro rfl
        exact absurd hchar (by decide)
      rw [moreDigits, if_pos hchar, ih hrest]
      · rfl
      · intro next others heq
        exact absurd heq hmark

theorem moreDigits_eq_none (h : ∃ char ∈ chars, isDigitOrMark char = false) :
    moreDigits Char.isDigit chars = none := by
  fun_induction moreDigits Char.isDigit chars with
  | case1 => simp at h
  | case2 char rest hdigit ih =>
      rw [ih, Option.map_none]
      simpa [isDigitOrMark, hdigit] using h
  | case3 => rfl
  | case4 char rest _ hdigit ih =>
      rw [ih, Option.map_none]
      simpa [isDigitOrMark, hdigit] using h
  | case5 => rfl

theorem wholeDigits_of_digits (hne : chars ≠ []) (h : ∀ char ∈ chars, char.isDigit = true)
    (hzero : chars.head? = some '0' → chars = ['0']) : wholeDigits chars = some chars := by
  cases chars with
  | nil => exact absurd rfl hne
  | cons char rest =>
      obtain ⟨hchar, hrest⟩ := List.forall_mem_cons.1 h
      have hnot : ¬ ((char :: rest).head? = some '0' ∧ char :: rest ≠ ['0']) := by
        rintro ⟨hhead, hlong⟩
        exact hlong (hzero hhead)
      simp only [wholeDigits, digitsOf, if_pos hchar, moreDigits_of_digits hrest, Option.map_some,
        Option.bind_eq_bind, Option.bind_some, if_neg hnot]
      rfl

theorem digitsOf_eq_none (h : ∃ char ∈ chars, isDigitOrMark char = false) :
    digitsOf Char.isDigit chars = none := by
  cases chars with
  | nil => rfl
  | cons char rest =>
      rw [digitsOf]
      split
      · next hdigit =>
          rw [moreDigits_eq_none, Option.map_none]
          simpa [isDigitOrMark, hdigit] using h
      · rfl

theorem wholeDigits_eq_none (h : ∃ char ∈ chars, isDigitOrMark char = false) :
    wholeDigits chars = none := by
  rw [wholeDigits, digitsOf_eq_none h]
  rfl

theorem isDigit_of_mem_digits {number : Nat} {char : Char} (h : char ∈ Nat.toDigits 10 number) :
    char.isDigit = true :=
  Nat.isDigit_of_mem_toDigits (by decide) (by decide) h

/-- Only the number zero is written with a zero in front. -/
theorem head?_digits {number : Nat} (h : (Nat.toDigits 10 number).head? = some '0') :
    number = 0 := by
  induction number using Nat.strongRecOn with
  | ind number ih =>
      by_cases hlt : number < 10
      · rw [Nat.toDigits_of_lt_base hlt] at h
        have hvalue := Nat.toNat_digitChar_sub_48_of_lt_ten hlt
        rw [Option.some.inj h] at hvalue
        exact hvalue.symm
      · have hten : 10 ≤ number := Nat.le_of_not_lt hlt
        obtain ⟨first, rest, hcons⟩ :=
          List.exists_cons_of_ne_nil (Nat.toDigits_ne_nil : Nat.toDigits 10 (number / 10) ≠ [])
        rw [Nat.toDigits_of_base_le (by decide) hten, hcons] at h
        have hzero : number / 10 = 0 := ih (number / 10) (by omega) (by rw [hcons]; exact h)
        omega

theorem wholeDigits_toDigits (number : Nat) :
    wholeDigits (Nat.toDigits 10 number) = some (Nat.toDigits 10 number) := by
  refine wholeDigits_of_digits Nat.toDigits_ne_nil (fun _ => isDigit_of_mem_digits) fun hhead => ?_
  rw [head?_digits hhead]
  rfl

/-! ### Integers -/

/-- Without the letters that tell other bases, only the sign has to be split off. -/
theorem readInteger?_of_unbased (h : ∀ char ∈ chars, char ≠ 'x' ∧ char ≠ 'o' ∧ char ≠ 'b') :
    readInteger? chars =
      (wholeDigits (splitSign chars).2).map fun digits =>
        if (splitSign chars).1 then -(Nat.ofDigitChars 10 digits 0 : Int)
        else (Nat.ofDigitChars 10 digits 0 : Int) := by
  unfold readInteger?
  split
  · exact absurd rfl (h 'x' (by simp)).1
  · exact absurd rfl (h 'o' (by simp)).2.1
  · exact absurd rfl (h 'b' (by simp)).2.2
  · rfl

theorem splitSign_of_digit (hfirst : ∀ char ∈ chars.head?, char.isDigit = true) :
    splitSign chars = (false, chars) := by
  unfold splitSign
  split
  · exact absurd (hfirst '+' rfl) (by decide)
  · exact absurd (hfirst '-' rfl) (by decide)
  · rfl

/-- The sign of a numeral, which only negative ones have, and its digits. -/
theorem splitSign_append {negative : Bool} (hfirst : ∀ char ∈ chars.head?, char.isDigit = true) :
    splitSign ((if negative then ['-'] else []) ++ chars) = (negative, chars) := by
  cases negative with
  | true => rfl
  | false => exact splitSign_of_digit hfirst

theorem head?_toDigits (number : Nat) :
    ∀ char ∈ (Nat.toDigits 10 number).head?, char.isDigit = true := by
  intro char hchar
  exact isDigit_of_mem_digits (List.mem_of_mem_head? hchar)

theorem ne_letter_of_isDigit {char : Char} (h : char.isDigit = true) :
    char ≠ 'x' ∧ char ≠ 'o' ∧ char ≠ 'b' := by
  refine ⟨?_, ?_, ?_⟩ <;> rintro rfl <;> exact absurd h (by decide)

theorem readInteger?_render (value : Int) : readInteger? (renderInteger value) = some value := by
  have hsign : renderInteger value =
      (if decide (value < 0) then ['-'] else []) ++ Nat.toDigits 10 value.natAbs := by
    simp [renderInteger]
  have hunbased : ∀ char ∈ renderInteger value, char ≠ 'x' ∧ char ≠ 'o' ∧ char ≠ 'b' := by
    intro char hchar
    rw [renderInteger] at hchar
    rcases List.mem_append.1 hchar with hminus | hdigit
    · split at hminus
      · rw [List.mem_singleton.1 hminus]
        decide
      · cases hminus
    · exact ne_letter_of_isDigit (isDigit_of_mem_digits hdigit)
  rw [readInteger?_of_unbased hunbased, hsign, splitSign_append (head?_toDigits _),
    wholeDigits_toDigits, Option.map_some, Nat.ofDigitChars_ten_toDigits]
  congr 1
  split
  · next h =>
      have hneg : value < 0 := by simpa using h
      omega
  · next h =>
      have hnonneg : ¬ value < 0 := by simpa using h
      omega

/-! ### Floats -/

theorem not_isExponentMark_of_isDigit {char : Char} (h : char.isDigit = true) :
    isExponentMark char = false := by
  rw [isExponentMark, Bool.or_eq_false_iff, decide_eq_false_iff_not, decide_eq_false_iff_not]
  constructor <;> rintro rfl <;> exact absurd h (by decide)

theorem ne_point_of_isDigit {char : Char} (h : char.isDigit = true) : char ≠ '.' := by
  rintro rfl
  exact absurd h (by decide)

/-- A whole part, a point and a fraction. -/
theorem readDecimal?_of_digits {whole fraction : List Char}
    (hwhole : wholeDigits whole = some whole) (hdigits : ∀ char ∈ whole, char.isDigit = true)
    (hne : fraction ≠ []) (hfraction : ∀ char ∈ fraction, char.isDigit = true) :
    readDecimal? (whole ++ '.' :: fraction) =
      some (Nat.ofDigitChars 10 (whole ++ fraction) 0, -(fraction.length : Int)) := by
  have hpart : ∀ char ∈ whole, (!(decide (char = '.') || isExponentMark char)) = true := by
    intro char hchar
    have hdigit := hdigits char hchar
    simp [ne_point_of_isDigit hdigit, not_isExponentMark_of_isDigit hdigit]
  have hmark : ∀ char ∈ fraction, (!isExponentMark char) = true := by
    intro char hchar
    rw [not_isExponentMark_of_isDigit (hfraction char hchar), Bool.not_false]
  have hpoint : Stops (fun char => !(decide (char = '.') || isExponentMark char))
      ('.' :: fraction) := stops_cons.2 rfl
  have hread : digitsOf Char.isDigit fraction = some fraction := by
    obtain ⟨first, rest, rfl⟩ := List.exists_cons_of_ne_nil hne
    obtain ⟨hfirst, hrest⟩ := List.forall_mem_cons.1 hfraction
    rw [digitsOf, if_pos hfirst, moreDigits_of_digits hrest, Option.map_some]
  unfold readDecimal?
  simp only [takeWhile_word hpart hpoint, dropWhile_word hpart hpoint, hwhole,
    List.takeWhile_eq_self_iff.2 hmark, List.dropWhile_eq_nil_iff.2 hmark, hread, readExponent?,
    Option.bind_eq_bind, Option.bind_some]
  simp

/-- The digits and the exponent that a written decimal is read as: an exponent above zero is written
out, and one more zero stands behind the point. -/
def writtenDecimal (digits : Nat) (exponent : Int) : Nat × Int :=
  if 0 ≤ exponent then (digits * 10 ^ (exponent.toNat + 1), -1) else (digits, exponent)

theorem head?_toDigits_append (number : Nat) (rest : List Char) :
    (Nat.toDigits 10 number ++ rest).head? = (Nat.toDigits 10 number).head? := by
  obtain ⟨first, others, hcons⟩ :=
    List.exists_cons_of_ne_nil (Nat.toDigits_ne_nil : Nat.toDigits 10 number ≠ [])
  rw [hcons]
  rfl

theorem isDigit_of_mem_zeros {count : Nat} {char : Char} (h : char ∈ List.replicate count '0') :
    char.isDigit = true := by
  rw [List.eq_of_mem_replicate h]
  rfl

/-- An exponent that is not below zero. -/
theorem readDecimal?_zeros {digits count : Nat} (h : 0 < digits ∨ count = 0) :
    readDecimal? (Nat.toDigits 10 digits ++ List.replicate count '0' ++ ['.', '0']) =
      some (digits * 10 ^ (count + 1), -1) := by
  have hdigits : ∀ char ∈ Nat.toDigits 10 digits ++ List.replicate count '0',
      char.isDigit = true := by
    intro char hchar
    rcases List.mem_append.1 hchar with hchar | hchar
    · exact isDigit_of_mem_digits hchar
    · exact isDigit_of_mem_zeros hchar
  have hwhole : wholeDigits (Nat.toDigits 10 digits ++ List.replicate count '0') =
      some (Nat.toDigits 10 digits ++ List.replicate count '0') := by
    refine wholeDigits_of_digits ?_ hdigits fun hhead => ?_
    · exact List.append_ne_nil_of_left_ne_nil Nat.toDigits_ne_nil _
    · rw [head?_toDigits_append] at hhead
      have hzero := head?_digits hhead
      obtain rfl : count = 0 := by omega
      rw [hzero]
      rfl
  have hfraction : ∀ char ∈ ['0'], char.isDigit = true := by simp
  rw [readDecimal?_of_digits hwhole hdigits (List.cons_ne_nil _ _) hfraction,
    Nat.ofDigitChars_append, Nat.ofDigitChars_append, Nat.ofDigitChars_ten_toDigits,
    Nat.ofDigitChars_replicate_zero, Nat.ofDigitChars_cons, Nat.ofDigitChars_nil]
  simp only [Option.some.injEq, Prod.mk.injEq]
  constructor
  · rw [Nat.sub_self, Nat.pow_succ]
    ring
  · rfl

/-- An exponent below zero that puts the point between two digits. -/
theorem readDecimal?_inside {digits count : Nat} (hpos : 0 < count)
    (hlt : count < (Nat.toDigits 10 digits).length) :
    readDecimal? ((Nat.toDigits 10 digits).take count ++
        '.' :: (Nat.toDigits 10 digits).drop count) =
      some (digits, -(((Nat.toDigits 10 digits).length - count : Nat) : Int)) := by
  have hwhole : wholeDigits ((Nat.toDigits 10 digits).take count) =
      some ((Nat.toDigits 10 digits).take count) := by
    refine wholeDigits_of_digits ?_ (fun _ h => isDigit_of_mem_digits (List.mem_of_mem_take h)) ?_
    · rw [Ne, List.take_eq_nil_iff]
      rintro (hzero | hnil)
      · omega
      · exact Nat.toDigits_ne_nil hnil
    · intro hhead
      -- only zero has a zero in front, and it has no second digit
      rw [List.head?_take, if_neg (Nat.ne_of_gt hpos)] at hhead
      rw [head?_digits hhead, Nat.toDigits_zero, List.length_singleton] at hlt
      omega
  have hne : (Nat.toDigits 10 digits).drop count ≠ [] := by
    rw [Ne, List.drop_eq_nil_iff]
    omega
  rw [readDecimal?_of_digits hwhole (fun _ h => isDigit_of_mem_digits (List.mem_of_mem_take h)) hne
    (fun _ h => isDigit_of_mem_digits (List.mem_of_mem_drop h)), List.take_append_drop,
    Nat.ofDigitChars_ten_toDigits, List.length_drop]

/-- An exponent below zero that puts the point in front of all digits. -/
theorem readDecimal?_before (digits count : Nat) :
    readDecimal? ('0' :: '.' :: List.replicate count '0' ++ Nat.toDigits 10 digits) =
      some (digits, -((count + (Nat.toDigits 10 digits).length : Nat) : Int)) := by
  have hwhole : wholeDigits ['0'] = some ['0'] := rfl
  have hne : List.replicate count '0' ++ Nat.toDigits 10 digits ≠ [] :=
    List.append_ne_nil_of_right_ne_nil _ Nat.toDigits_ne_nil
  have hfraction : ∀ char ∈ List.replicate count '0' ++ Nat.toDigits 10 digits,
      char.isDigit = true := by
    intro char hchar
    rcases List.mem_append.1 hchar with hchar | hchar
    · exact isDigit_of_mem_zeros hchar
    · exact isDigit_of_mem_digits hchar
  have hread := readDecimal?_of_digits hwhole (by simp) hne hfraction
  rw [Nat.ofDigitChars_append, Nat.ofDigitChars_append, Nat.ofDigitChars_replicate_zero,
    Nat.ofDigitChars_cons, Nat.ofDigitChars_nil, List.length_append, List.length_replicate] at hread
  simpa [Nat.ofDigitChars_ten_toDigits] using hread

theorem readDecimal?_render {digits : Nat} {exponent : Int} (h : 0 < digits ∨ exponent = 0) :
    readDecimal? (renderDecimal digits exponent) = some (writtenDecimal digits exponent) := by
  unfold renderDecimal writtenDecimal
  simp only
  split
  · next hexponent => exact readDecimal?_zeros (h.imp_right fun hzero => by rw [hzero]; rfl)
  · next hexponent =>
      have hpos : 0 < (-exponent).toNat := by omega
      split
      · next hlt =>
          rw [readDecimal?_inside (by omega) (by omega)]
          congr 2
          omega
      · next hge =>
          rw [readDecimal?_before]
          congr 2
          omega

/-- A decimal is written with a digit in front, and with one point among digits. -/
theorem exists_renderDecimal (digits : Nat) (exponent : Int) :
    ∃ first whole fraction, renderDecimal digits exponent = first :: whole ++ '.' :: fraction ∧
      (∀ char ∈ first :: whole, char.isDigit = true) ∧ ∀ char ∈ fraction, char.isDigit = true := by
  have hparts (parts fraction : List Char) (hne : parts ≠ [])
      (hparts : ∀ char ∈ parts, char.isDigit = true)
      (hfraction : ∀ char ∈ fraction, char.isDigit = true) :
      ∃ first whole others, parts ++ '.' :: fraction = first :: whole ++ '.' :: others ∧
        (∀ char ∈ first :: whole, char.isDigit = true) ∧
          ∀ char ∈ others, char.isDigit = true := by
    obtain ⟨first, whole, rfl⟩ := List.exists_cons_of_ne_nil hne
    exact ⟨first, whole, fraction, rfl, hparts, hfraction⟩
  have hall : ∀ char ∈ Nat.toDigits 10 digits, char.isDigit = true :=
    fun _ => isDigit_of_mem_digits
  unfold renderDecimal
  simp only
  split
  · refine hparts _ ['0'] ?_ ?_ (by simp)
    · exact List.append_ne_nil_of_left_ne_nil Nat.toDigits_ne_nil _
    · exact List.forall_mem_append.2 ⟨hall, fun _ => isDigit_of_mem_zeros⟩
  · split
    · next hlt =>
        refine hparts _ _ ?_ (fun _ h => hall _ (List.mem_of_mem_take h))
          (fun _ h => hall _ (List.mem_of_mem_drop h))
        rw [Ne, List.take_eq_nil_iff]
        rintro (hzero | hnil)
        · omega
        · exact Nat.toDigits_ne_nil hnil
    · exact hparts ['0'] _ (List.cons_ne_nil _ _) (by simp)
        (List.forall_mem_append.2 ⟨fun _ => isDigit_of_mem_zeros, hall⟩)

/-- What is read of the shortest decimal of a finite float is a decimal of that float. -/
theorem ofDecimal?_written (negative : Bool) (magnitude : Fin magnitudeCount) :
    Binary64.ofDecimal? negative
        (writtenDecimal (Binary64.shortestDecimal magnitude).1
          (Binary64.shortestDecimal magnitude).2).1
        (writtenDecimal (Binary64.shortestDecimal magnitude).1
          (Binary64.shortestDecimal magnitude).2).2 =
      some (.finite negative magnitude) := by
  have hshortest := Binary64.roundDecimal_shortestDecimal magnitude
  generalize Binary64.shortestDecimal magnitude = decimal at hshortest
  obtain ⟨digits, exponent⟩ := decimal
  have hround : Binary64.roundDecimal (writtenDecimal digits exponent).1
      (writtenDecimal digits exponent).2 = magnitude := by
    unfold writtenDecimal
    split
    · next hexponent =>
        rw [Binary64.roundDecimal_padded hexponent (by rw [hshortest]; exact magnitude.isLt)]
        exact hshortest
    · exact hshortest
  simp only [Binary64.ofDecimal?, hround, magnitude.isLt, dif_pos]

theorem head?_renderDecimal (digits : Nat) (exponent : Int) :
    ∀ char ∈ (renderDecimal digits exponent).head?, char.isDigit = true := by
  obtain ⟨first, whole, fraction, hrender, hwhole, -⟩ := exists_renderDecimal digits exponent
  intro char hchar
  rw [hrender] at hchar
  rw [← Option.some.inj hchar]
  exact hwhole _ List.mem_cons_self

theorem readFloat?_render (value : Binary64) :
    readFloat? (renderFloat value) = some (some value) := by
  cases value with
  | nan => rfl
  | infinite negative => cases negative <;> rfl
  | finite negative magnitude =>
      have hhead := head?_renderDecimal (Binary64.shortestDecimal magnitude).1
        (Binary64.shortestDecimal magnitude).2
      have hword (word : List Char) (h : ∀ char ∈ word.head?, char.isDigit = false)
          (hne : word ≠ []) :
          renderDecimal (Binary64.shortestDecimal magnitude).1
            (Binary64.shortestDecimal magnitude).2 ≠ word := by
        rintro rfl
        obtain ⟨first, rest, hcons⟩ := List.exists_cons_of_ne_nil hne
        rw [hcons] at h hhead
        exact absurd (hhead first rfl) (by simp [h first rfl])
      have hread := readDecimal?_render (Binary64.digits_pos_or_exponent_eq magnitude)
      have hinf := hword ['i', 'n', 'f'] (by simp) (by simp)
      have hnan := hword ['n', 'a', 'n'] (by simp) (by simp)
      rw [renderFloat, readFloat?]
      simp only [splitSign_append hhead, if_neg hinf, if_neg hnan, hread, Option.map_some,
        ofDecimal?_written]

theorem readInteger?_renderFloat (value : Binary64) : readInteger? (renderFloat value) = none := by
  cases value with
  | nan => rfl
  | infinite negative => cases negative <;> rfl
  | finite negative magnitude =>
      obtain ⟨first, whole, fraction, hrender, hwhole, hfraction⟩ :=
        exists_renderDecimal (Binary64.shortestDecimal magnitude).1
          (Binary64.shortestDecimal magnitude).2
      have hhead := head?_renderDecimal (Binary64.shortestDecimal magnitude).1
        (Binary64.shortestDecimal magnitude).2
      have hpoint : wholeDigits (renderDecimal (Binary64.shortestDecimal magnitude).1
          (Binary64.shortestDecimal magnitude).2) = none :=
        wholeDigits_eq_none ⟨'.', by simp [hrender], rfl⟩
      have hunbased : ∀ char ∈ renderFloat (.finite negative magnitude),
          char ≠ 'x' ∧ char ≠ 'o' ∧ char ≠ 'b' := by
        intro char hchar
        rw [renderFloat] at hchar
        simp only [hrender, List.mem_append, List.mem_cons] at hchar
        rcases hchar with hminus | hchar | rfl | hchar
        · split at hminus
          · rw [List.mem_singleton.1 hminus]
            decide
          · cases hminus
        · exact ne_letter_of_isDigit (hwhole char (by simpa using hchar))
        · decide
        · exact ne_letter_of_isDigit (hfraction char hchar)
      rw [readInteger?_of_unbased hunbased, renderFloat]
      simp only [splitSign_append hhead, hpoint, Option.map_none]

end Scriptorium.Settings
