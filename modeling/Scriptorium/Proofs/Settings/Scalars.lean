import Scriptorium.Proofs.Settings.Moments
import Scriptorium.Settings.Outline.Parser
import Scriptorium.Settings.Outline.Printer

/-!
# Values without quotes

Numbers, words, dates and times are written without quotes, so the reader has to tell them apart. It
tries one kind after another, and what was written as one kind is refused by all kinds that are
tried before it. A date and a time may be one value with a blank between them, which is why the
reader looks behind a blank that follows a date.
-/

namespace Scriptorium.Settings

variable {chars rest : List Char}

/-- What may follow a value without quotes: no character that would go on with it, and behind a
blank no digit, since a time may stand there. -/
structure EndsScalar (rest : List Char) : Prop where
  stops : Stops isScalarChar rest
  no_time : ∀ char others, rest = ' ' :: char :: others → char.isDigit = false

/-! ### Characters -/

theorem isScalarChar_of_isDigit {char : Char} (h : char.isDigit = true) :
    isScalarChar char = true := by
  simp [isScalarChar, Char.isAlphanum, h]

/-- A character of a date, a time or an offset. -/
def isMomentChar (char : Char) : Bool :=
  char.isDigit || ['-', ':', '.', 'T', 'Z', '+'].contains char

theorem isMomentChar_of_isDigit {char : Char} (h : char.isDigit = true) :
    isMomentChar char = true := by
  rw [isMomentChar, h, Bool.true_or]

theorem isMomentChar_cases {char : Char} (h : isMomentChar char = true) :
    char.isDigit = true ∨ char ∈ ['-', ':', '.', 'T', 'Z', '+'] := by
  simpa [isMomentChar] using h

theorem isScalarChar_of_isMomentChar {char : Char} (h : isMomentChar char = true) :
    isScalarChar char = true := by
  have hmarks : ∀ char ∈ ['-', ':', '.', 'T', 'Z', '+'], isScalarChar char = true :=
    List.all_eq_true.1 rfl
  rcases isMomentChar_cases h with hdigit | hmark
  · exact isScalarChar_of_isDigit hdigit
  · exact hmarks char hmark

theorem ne_letter_of_isMomentChar {char : Char} (h : isMomentChar char = true) :
    char ≠ 'x' ∧ char ≠ 'o' ∧ char ≠ 'b' := by
  refine ⟨?_, ?_, ?_⟩ <;> rintro rfl <;> exact absurd h (by decide)

theorem isMomentChar_of_mem_padded {width value : Nat} :
    ∀ char ∈ padded width value, isMomentChar char = true :=
  fun char hchar => isMomentChar_of_isDigit (isDigit_of_mem_padded char hchar)

theorem isMomentChar_of_mem_date {date : Date} :
    ∀ char ∈ date.render, isMomentChar char = true := by
  simp only [Date.render, List.append_assoc, List.cons_append, List.forall_mem_append,
    List.forall_mem_cons]
  exact ⟨isMomentChar_of_mem_padded, rfl, isMomentChar_of_mem_padded, rfl,
    isMomentChar_of_mem_padded⟩

theorem isMomentChar_of_mem_time {time : Time} :
    ∀ char ∈ time.render, isMomentChar char = true := by
  have hfraction : ∀ char ∈ (if time.nanosecond = 0 then []
      else '.' :: dropTrailingZeros (padded 9 time.nanosecond)), isMomentChar char = true := by
    split
    · exact nofun
    · refine List.forall_mem_cons.2 ⟨rfl, fun char hchar => ?_⟩
      obtain ⟨count, hchars⟩ := exists_dropTrailingZeros (padded 9 time.nanosecond)
      apply isMomentChar_of_mem_padded
      rw [hchars]
      exact List.mem_append_left _ hchar
  simp only [Time.render, List.append_assoc, List.cons_append, List.forall_mem_append,
    List.forall_mem_cons]
  exact ⟨isMomentChar_of_mem_padded, rfl, isMomentChar_of_mem_padded, rfl,
    isMomentChar_of_mem_padded, hfraction⟩

theorem isMomentChar_of_mem_offset {offset : Offset} :
    ∀ char ∈ offset.render, isMomentChar char = true := by
  cases offset with
  | zulu => simp [Offset.render, isMomentChar]
  | minutes value =>
      simp only [Offset.render, List.cons_append, List.forall_mem_append, List.forall_mem_cons]
      refine ⟨?_, isMomentChar_of_mem_padded, rfl, isMomentChar_of_mem_padded⟩
      split <;> rfl

theorem isMomentChar_of_mem_render {moment : Moment} :
    ∀ char ∈ moment.render, isMomentChar char = true := by
  cases moment with
  | day date => exact isMomentChar_of_mem_date
  | clock time => exact isMomentChar_of_mem_time
  | instant date time offset =>
      simp only [Moment.render, List.append_assoc, List.cons_append, List.forall_mem_append,
        List.forall_mem_cons]
      refine ⟨isMomentChar_of_mem_date, rfl, isMomentChar_of_mem_time, ?_⟩
      cases offset with
      | none => exact List.forall_mem_nil _
      | some offset => exact isMomentChar_of_mem_offset

/-! ### Moments are no numbers -/

/-- Every moment starts with digits, with a dash or a colon behind them. -/
theorem exists_mark (moment : Moment) :
    ∃ first digits mark others, moment.render = first :: digits ++ mark :: others ∧
      (∀ char ∈ first :: digits, char.isDigit = true) ∧ (mark = '-' ∨ mark = ':') := by
  have hparts (width value : Nat) (mark : Char) (others : List Char)
      (hmark : mark = '-' ∨ mark = ':') :
      ∃ first digits mark' others', padded width value ++ mark :: others =
          first :: digits ++ mark' :: others' ∧
        (∀ char ∈ first :: digits, char.isDigit = true) ∧ (mark' = '-' ∨ mark' = ':') := by
    have hne : padded width value ≠ [] := List.append_ne_nil_of_right_ne_nil _ Nat.toDigits_ne_nil
    obtain ⟨first, digits, hcons⟩ := List.exists_cons_of_ne_nil hne
    have hdigits : ∀ char ∈ padded width value, char.isDigit = true := isDigit_of_mem_padded
    rw [hcons] at hdigits ⊢
    exact ⟨first, digits, mark, others, rfl, hdigits, hmark⟩
  cases moment with
  | day date =>
      simp only [Moment.render, Date.render, List.append_assoc, List.cons_append]
      exact hparts _ _ _ _ (.inl rfl)
  | clock time =>
      simp only [Moment.render, Time.render, List.append_assoc, List.cons_append]
      exact hparts _ _ _ _ (.inr rfl)
  | instant date time offset =>
      simp only [Moment.render, Date.render, List.append_assoc, List.cons_append]
      exact hparts _ _ _ _ (.inl rfl)

theorem readInteger?_moment (moment : Moment) : readInteger? moment.render = none := by
  obtain ⟨first, digits, mark, others, hrender, hdigits, hmark⟩ := exists_mark moment
  have hunbased : ∀ char ∈ moment.render, char ≠ 'x' ∧ char ≠ 'o' ∧ char ≠ 'b' :=
    fun char hchar => ne_letter_of_isMomentChar (isMomentChar_of_mem_render char hchar)
  have hsign : splitSign moment.render = (false, moment.render) :=
    splitSign_of_digit (by simpa [hrender] using hdigits first List.mem_cons_self)
  have hwhole : wholeDigits moment.render = none :=
    wholeDigits_eq_none ⟨mark, by simp [hrender], by rcases hmark with rfl | rfl <;> rfl⟩
  rw [readInteger?_of_unbased hunbased, hsign, hwhole, Option.map_none]

theorem readFloat?_moment (moment : Moment) : readFloat? moment.render = none := by
  obtain ⟨first, digits, mark, others, hrender, hdigits, hmark⟩ := exists_mark moment
  have hfirst : first.isDigit = true := hdigits first List.mem_cons_self
  have hsign : splitSign moment.render = (false, moment.render) :=
    splitSign_of_digit (by simpa [hrender] using hfirst)
  have hne {letter : Char} {letters : List Char} (hletter : letter.isDigit = false) :
      moment.render ≠ letter :: letters := by
    rw [hrender]
    rintro heq
    rw [(List.cons.inj heq).1, hletter] at hfirst
    cases hfirst
  have hinf : moment.render ≠ ['i', 'n', 'f'] := hne rfl
  have hnan : moment.render ≠ ['n', 'a', 'n'] := hne rfl
  -- the mark belongs to what would be the whole part of a float
  have hpart : ∀ char ∈ first :: digits,
      (!(decide (char = '.') || isExponentMark char)) = true := by
    intro char hchar
    have hdigit := hdigits char hchar
    simp [ne_point_of_isDigit hdigit, not_isExponentMark_of_isDigit hdigit]
  have hwhole : wholeDigits
      (moment.render.takeWhile fun char => !(decide (char = '.') || isExponentMark char)) =
        none := by
    refine wholeDigits_eq_none ⟨mark, ?_, by rcases hmark with rfl | rfl <;> rfl⟩
    rw [hrender, List.takeWhile_append_of_pos hpart, List.takeWhile_cons, if_pos]
    · exact List.mem_append_right _ List.mem_cons_self
    · rcases hmark with rfl | rfl <;> rfl
  rw [readFloat?, hsign]
  simp only [if_neg hinf, if_neg hnan, readDecimal?, hwhole, Option.bind_eq_bind,
    Option.bind_none, Option.map_none]

/-! ### Reading back -/

/-- A moment among them has to be a valid one. -/
def Value.IsScalar : Value → Prop
  | integer _ | float _ | excess | boolean _ => True
  | moment value => value.IsValid
  | string _ | array _ | table _ => False

theorem isScalarChar_of_mem_integer {value : Int} :
    ∀ char ∈ renderInteger value, isScalarChar char = true := by
  refine List.forall_mem_append.2 ⟨?_, fun char hchar => ?_⟩
  · split
    · exact List.forall_mem_singleton.2 rfl
    · exact nofun
  · exact isScalarChar_of_isDigit (isDigit_of_mem_digits hchar)

theorem isScalarChar_of_mem_float {value : Binary64} :
    ∀ char ∈ renderFloat value, isScalarChar char = true := by
  have hsign (negative : Bool) : ∀ char ∈ (if negative then ['-'] else []),
      isScalarChar char = true := by
    cases negative <;> simp [isScalarChar]
  cases value with
  | nan => exact List.all_eq_true.1 rfl
  | infinite negative => exact List.forall_mem_append.2 ⟨hsign negative, List.all_eq_true.1 rfl⟩
  | finite negative magnitude =>
      obtain ⟨first, whole, fraction, hrender, hwhole, hfraction⟩ :=
        exists_renderDecimal (Binary64.shortestDecimal magnitude).1
          (Binary64.shortestDecimal magnitude).2
      simp only [renderFloat, hrender, List.forall_mem_append, List.forall_mem_cons (a := '.')]
      refine ⟨hsign negative, fun char hchar => ?_, rfl, fun char hchar => ?_⟩
      · exact isScalarChar_of_isDigit (hwhole char hchar)
      · exact isScalarChar_of_isDigit (hfraction char hchar)

variable {value : Value}

theorem isScalarChar_of_mem_render (h : value.IsScalar) :
    ∀ char ∈ value.render, isScalarChar char = true := by
  cases value with
  | integer value => exact isScalarChar_of_mem_integer
  | float value => exact isScalarChar_of_mem_float
  | excess => exact List.all_eq_true.1 rfl
  | boolean value => cases value <;> exact List.all_eq_true.1 rfl
  | moment moment =>
      exact fun char hchar => isScalarChar_of_isMomentChar (isMomentChar_of_mem_render char hchar)
  | string text | array items | table entries => exact h.elim

theorem isBare_of_isDigit {char : Char} (h : char.isDigit = true) : isBare char = true := by
  simp [isBare, Char.isAlphanum, h]

/-- A value without quotes starts like a key that needs none: with a letter, a digit or a dash. -/
theorem isBare_head (h : value.IsScalar) :
    ∃ first others, value.render = first :: others ∧ isBare first = true := by
  have hsigned (negative : Bool) {body : List Char} (hne : body ≠ [])
      (hbody : ∀ char ∈ body.head?, isBare char = true) :
      ∃ first others, (if negative then ['-'] else []) ++ body = first :: others ∧
        isBare first = true := by
    obtain ⟨first, others, rfl⟩ := List.exists_cons_of_ne_nil hne
    cases negative with
    | true => exact ⟨'-', first :: others, rfl, rfl⟩
    | false => exact ⟨first, others, rfl, hbody first rfl⟩
  cases value with
  | integer value =>
      have hne : Nat.toDigits 10 value.natAbs ≠ [] := Nat.toDigits_ne_nil
      have hdigits := hsigned (decide (value < 0)) hne fun char hchar =>
        isBare_of_isDigit (head?_toDigits _ char hchar)
      simpa [Value.render, renderInteger] using hdigits
  | float value =>
      cases value with
      | nan => exact ⟨'n', ['a', 'n'], rfl, rfl⟩
      | infinite negative => exact hsigned negative (by simp) (by simp [isBare])
      | finite negative magnitude =>
          have hhead := head?_renderDecimal (Binary64.shortestDecimal magnitude).1
            (Binary64.shortestDecimal magnitude).2
          obtain ⟨first, whole, fraction, hrender, -⟩ := exists_renderDecimal
            (Binary64.shortestDecimal magnitude).1 (Binary64.shortestDecimal magnitude).2
          simp only [Value.render, renderFloat, hrender] at hhead ⊢
          exact hsigned negative (List.cons_ne_nil _ _) fun char hchar =>
            isBare_of_isDigit (hhead char hchar)
  | excess => exact ⟨'1', ['e', '9', '9', '9'], rfl, rfl⟩
  | boolean value => cases value <;> exact ⟨_, _, rfl, rfl⟩
  | moment moment =>
      obtain ⟨first, digits, mark, others, hrender, hdigits, -⟩ := exists_mark moment
      exact ⟨first, _, hrender, isBare_of_isDigit (hdigits first List.mem_cons_self)⟩
  | string text | array items | table entries => exact h.elim

theorem scalar?_render (h : value.IsScalar) : scalar? value.render = some value := by
  -- no number or moment is a word, because no word is read as one
  have hwords (hinteger : readInteger? value.render ≠ none ∨ readFloat? value.render ≠ none ∨
      Moment.read? value.render ≠ none) :
      value.render ≠ ['t', 'r', 'u', 'e'] ∧ value.render ≠ ['f', 'a', 'l', 's', 'e'] := by
    constructor <;> intro heq <;> rw [heq] at hinteger <;> revert hinteger <;> decide
  cases value with
  | integer value =>
      have hread := readInteger?_render value
      obtain ⟨htrue, hfalse⟩ := hwords (.inl (by simp [Value.render, hread]))
      rw [Value.render] at htrue hfalse ⊢
      rw [scalar?, if_neg htrue, if_neg hfalse, hread]
  | float value =>
      have hread := readFloat?_render value
      obtain ⟨htrue, hfalse⟩ := hwords (.inr (.inl (by simp [Value.render, hread])))
      rw [Value.render] at htrue hfalse ⊢
      rw [scalar?, if_neg htrue, if_neg hfalse, readInteger?_renderFloat, hread]
  | excess => rfl
  | boolean value => cases value <;> rfl
  | moment moment =>
      have hread := Moment.read?_render h
      obtain ⟨htrue, hfalse⟩ := hwords (.inr (.inr (by simp [Value.render, hread])))
      rw [Value.render] at htrue hfalse ⊢
      rw [scalar?, if_neg htrue, if_neg hfalse, readInteger?_moment, readFloat?_moment, hread,
        Option.map_some]
  | string text | array items | table entries => exact h.elim

theorem readScalar_render (h : value.IsScalar) (hrest : EndsScalar rest) :
    readScalar (value.render ++ rest) = some (value, rest) := by
  have hword := isScalarChar_of_mem_render h
  unfold readScalar
  simp only [takeWhile_word hword hrest.stops, dropWhile_word hword hrest.stops, scalar?_render h,
    Option.map_some]
  split
  · next char others =>
      rw [if_neg]
      rintro ⟨-, hdigit⟩
      rw [hrest.no_time char others rfl] at hdigit
      cases hdigit
  · rfl

end Scriptorium.Settings
