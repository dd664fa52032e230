import Scriptorium.Proofs.Settings.Words
import Scriptorium.Settings.Quoted

/-!
# Quoted texts that read back

Between double quotes every character is written so that it reads back alone, so those quotes hold
any text. Between single quotes nothing can be escaped, and the text must not hold what would end
it: a quote, or three of them in a row between tripled ones. Quotes at the end of a text between
tripled ones are read together with the closing ones, which is why a further quote must not follow.
-/

namespace Scriptorium.Settings

variable {tripled : Bool} {char mark : Char} {text rest : List Char}

def isQuoteMark (char : Char) : Bool :=
  char = '"' || char = '\''

/-! ### Closing quotes -/

theorem closing?_of_ne (h : char ≠ mark) (rest : List Char) :
    closing? tripled mark (char :: rest) = none :=
  if_pos h

theorem closing?_single (mark : Char) (rest : List Char) :
    closing? false mark (mark :: rest) = some ([], rest) := by
  simp [closing?]

/-- Three quotes close the text, and up to two more that follow belong to it. -/
theorem closing?_tripled {count : Nat} (hcount : count ≤ 2) (hrest : Stops (· = mark) rest) :
    closing? true mark (List.replicate count mark ++ mark :: mark :: mark :: rest) =
      some (List.replicate count mark, rest) := by
  have hfew : (rest.take 1).takeWhile (· = mark) = [] ∧
      (rest.take 2).takeWhile (· = mark) = [] := by
    cases rest with
    | nil => simp
    | cons char rest => simpa using stops_cons.1 hrest
  match count, hcount with
  | 0, _ => simp [closing?, hfew]
  | 1, _ => simp [closing?, hfew]
  | 2, _ => simp [closing?]

/-- One or two quotes close nothing when another character follows them. -/
theorem closing?_of_few {count : Nat} (hcount : count ≤ 2) (h : char ≠ mark) (rest : List Char) :
    closing? true mark (List.replicate count mark ++ char :: rest) = none := by
  match count, hcount with
  | 0, _ => exact closing?_of_ne h rest
  | 1, _ => cases rest <;> simp [closing?, h]
  | 2, _ => simp [closing?, h]

/-! ### Double quotes -/

theorem hexValue?_hexDigit : ∀ value < 16, hexValue? (hexDigit value) = some value := by
  decide

theorem charOf?_toNat (char : Char) : charOf? char.toNat = some char := by
  have hvalid : char.toNat.isValidChar := char.valid
  rw [charOf?, if_pos hvalid, Char.ofNat_toNat]

theorem toNat_lt_of_isControl (h : isControl char = true) : char.toNat < 128 := by
  simp only [isControl, Bool.or_eq_true, Bool.and_eq_true, decide_eq_true_eq] at h
  omega

/-- A character that stands for itself between double quotes. -/
theorem readBasic_stand (hquote : char ≠ '"') (hslash : char ≠ '\\')
    (hstand : mayStand tripled char rest = true) :
    readBasic tripled (.text false) (char :: rest) =
      pushChar char (readBasic tripled (.text false) rest) := by
  simp [readBasic, closing?_of_ne hquote, hslash, hstand]

theorem readBasic_escaped {letter meant : Char} (h : unescape? letter = some meant) :
    readBasic tripled (.text false) ('\\' :: letter :: rest) =
      pushChar meant (readBasic tripled (.text false) rest) := by
  have hquote : ('\\' : Char) ≠ '"' := by decide
  simp [readBasic, closing?_of_ne hquote, h]

theorem readBasic_escape (hquote : char ≠ '"') (rest : List Char) :
    readBasic tripled (.text false) (escape tripled char ++ rest) =
      pushChar char (readBasic tripled (.text false) rest) := by
  unfold escape
  split_ifs with hback htab hline htripled hfeed hreturn hslash hcontrol
  · exact hback ▸ readBasic_escaped rfl
  · exact htab ▸ readBasic_escaped rfl
  · subst hline htripled
    exact readBasic_stand hquote (by decide) rfl
  · exact hline ▸ readBasic_escaped rfl
  · exact hfeed ▸ readBasic_escaped rfl
  · exact hreturn ▸ readBasic_escaped rfl
  · subst hslash
    exact readBasic_escaped rfl
  · have hquote : ('\\' : Char) ≠ '"' := by decide
    have hlt := toNat_lt_of_isControl hcontrol
    have hhigh := hexValue?_hexDigit (char.toNat / 16) (by omega)
    have hlow := hexValue?_hexDigit (char.toNat % 16) (by omega)
    have hcode : char.toNat / 16 * 16 + char.toNat % 16 = char.toNat := by omega
    simp [readBasic, closing?_of_ne hquote, unescape?, escapeDigits?, hhigh, hlow, hcode,
      charOf?_toNat, show hexValue? '0' = some 0 from rfl]
  · have hstand : mayStand tripled char rest = true := by
      simp [mayStand, hline, hreturn, hcontrol]
    exact readBasic_stand hquote hslash hstand

theorem readBasic_escapes (text rest : List Char) :
    readBasic false (.text false) (escapes false 0 text ++ '"' :: rest) = some (text, rest) := by
  induction text with
  | nil => simp [escapes, readBasic, closing?_single]
  | cons char text ih =>
      by_cases hquote : char = '"'
      · subst hquote
        simp only [escapes, Bool.false_eq_true, false_and, if_false, List.cons_append]
        rw [readBasic_escaped rfl, ih]
        rfl
      · rw [escapes, List.append_assoc, readBasic_escape hquote, ih]
        · rfl
        · exact hquote

/-- What is written for a text starts with a run of quotes of at most a given length: it consists of
them, as the text does, or another character ends the run. -/
def StartsWithFew (mark : Char) (limit : Nat) (text written : List Char) : Prop :=
  ∃ count ≤ limit, (text = List.replicate count mark ∧ written = List.replicate count mark) ∨
    ∃ char others, char ≠ mark ∧ written = List.replicate count mark ++ char :: others

theorem startsWithFew_nil (mark : Char) (limit : Nat) : StartsWithFew mark limit [] [] :=
  ⟨0, Nat.zero_le _, .inl ⟨rfl, rfl⟩⟩

theorem startsWithFew_of_ne {limit : Nat} (h : char ≠ mark) (text others : List Char) :
    StartsWithFew mark limit text (char :: others) :=
  ⟨0, Nat.zero_le _, .inr ⟨char, others, h, rfl⟩⟩

theorem StartsWithFew.mono {limit limit' : Nat} {written : List Char}
    (h : StartsWithFew mark limit text written) (hle : limit ≤ limit') :
    StartsWithFew mark limit' text written := by
  obtain ⟨count, hcount, hstart⟩ := h
  exact ⟨count, Nat.le_trans hcount hle, hstart⟩

theorem StartsWithFew.cons {limit : Nat} {written : List Char}
    (h : StartsWithFew mark limit text written) :
    StartsWithFew mark (limit + 1) (mark :: text) (mark :: written) := by
  obtain ⟨count, hcount, ⟨rfl, rfl⟩ | ⟨char, others, hne, rfl⟩⟩ := h
  · exact ⟨count + 1, by omega, .inl ⟨rfl, rfl⟩⟩
  · exact ⟨count + 1, by omega, .inr ⟨char, others, hne, rfl⟩⟩

/-- Tripled quotes are found at the end of the text, or not yet. -/
theorem closing?_startsWithFew {written : List Char} (h : StartsWithFew mark 2 text written)
    (hrest : Stops (· = mark) rest) :
    closing? true mark (written ++ mark :: mark :: mark :: rest) = some (text, rest) ∨
      closing? true mark (written ++ mark :: mark :: mark :: rest) = none := by
  obtain ⟨count, hcount, ⟨rfl, rfl⟩ | ⟨char, others, hne, rfl⟩⟩ := h
  · exact .inl (closing?_tripled hcount hrest)
  · rw [List.append_assoc, List.cons_append]
    exact .inr (closing?_of_few hcount hne _)

theorem escape_head (tripled : Bool) (h : char ≠ '"') :
    ∃ first others, escape tripled char = first :: others ∧ first ≠ '"' := by
  unfold escape
  split_ifs <;> first | exact ⟨_, _, rfl, by decide⟩ | exact ⟨_, _, rfl, h⟩

theorem startsWithFew_escapes {run limit : Nat} (h : run + limit = 2) (text : List Char) :
    StartsWithFew '"' limit text (escapes true run text) := by
  induction text generalizing run limit with
  | nil => exact startsWithFew_nil ..
  | cons char text ih =>
      by_cases hquote : char = '"'
      · subst hquote
        rw [escapes]
        split
        · next hfew =>
            obtain ⟨limit, rfl⟩ : ∃ others, limit = others + 1 := ⟨limit - 1, by omega⟩
            exact (ih (by omega)).cons
        · exact startsWithFew_of_ne (by decide) ..
      · obtain ⟨first, others, hescape, hfirst⟩ := escape_head true hquote
        rw [escapes, hescape]
        · exact startsWithFew_of_ne hfirst ..
        · exact hquote

theorem readBasic_closed {chars : List Char} {closed : List Char × List Char}
    (h : closing? tripled '"' chars = some closed) :
    readBasic tripled (.text false) chars = some closed := by
  cases chars with
  | nil => cases h
  | cons char rest => simp [readBasic, h]

/-- A quote that belongs to the text. -/
theorem readBasic_quote (h : closing? tripled '"' ('"' :: rest) = none) :
    readBasic tripled (.text false) ('"' :: rest) =
      pushChar '"' (readBasic tripled (.text false) rest) := by
  have hstand : mayStand tripled '"' rest = true := rfl
  simp [readBasic, h, hstand]

theorem readBasic_escapes_tripled {run : Nat} (hrun : run ≤ 2) (text : List Char)
    (hrest : Stops (· = '"') rest) :
    readBasic true (.text false) (escapes true run text ++ '"' :: '"' :: '"' :: rest) =
      some (text, rest) := by
  induction text generalizing run with
  | nil => exact readBasic_closed (closing?_tripled (Nat.zero_le 2) hrest)
  | cons char text ih =>
      by_cases hquote : char = '"'
      · -- every third quote of a run is escaped, so three in a row only stand at the end
        subst hquote
        have hstart := startsWithFew_escapes (show run + (2 - run) = 2 by omega) ('"' :: text)
        have hclosing := closing?_startsWithFew (hstart.mono (by omega)) hrest
        rcases hclosing with hclosed | hopen
        · exact readBasic_closed hclosed
        · rw [escapes] at hopen ⊢
          split at hopen
          · next hfew =>
              rw [List.cons_append] at hopen
              rw [if_pos hfew, List.cons_append, readBasic_quote hopen, ih hfew.2]
              rfl
          · next hmany =>
              rw [if_neg hmany, List.cons_append, List.cons_append, readBasic_escaped rfl,
                ih (Nat.zero_le 2)]
              rfl
      · rw [escapes, List.append_assoc, readBasic_escape hquote, ih (Nat.zero_le 2)]
        · rfl
        · exact hquote

/-! ### Single quotes -/

theorem readLiteral_closed {chars : List Char} {closed : List Char × List Char}
    (h : closing? tripled '\'' chars = some closed) : readLiteral tripled chars = some closed := by
  cases chars with
  | nil => cases h
  | cons char rest => simp [readLiteral, h]

theorem readLiteral_stand (h : closing? tripled '\'' (char :: rest) = none)
    (hcontrol : isControl char = false) (hline : char = '\n' → tripled = true) :
    readLiteral tripled (char :: rest) = pushChar char (readLiteral tripled rest) := by
  have hreturn : char ≠ '\r' := by
    rintro rfl
    exact absurd hcontrol (by decide)
  have hstand : mayStand tripled char rest = true := by
    rw [mayStand]
    split
    · next hchar => exact hline hchar
    · simp [hcontrol]
  simp [readLiteral, h, hstand]

theorem readLiteral_text (hcontrol : ∀ char ∈ text, isControl char = false)
    (hline : '\n' ∉ text) (hquote : '\'' ∉ text) (rest : List Char) :
    readLiteral false (text ++ '\'' :: rest) = some (text, rest) := by
  induction text with
  | nil => exact readLiteral_closed (closing?_single ..)
  | cons char text ih =>
      rw [List.mem_cons, not_or] at hline hquote
      obtain ⟨hchar, hothers⟩ := List.forall_mem_cons.1 hcontrol
      rw [List.cons_append, readLiteral_stand (closing?_of_ne (Ne.symm hquote.1) _) hchar
        (fun heq => absurd heq.symm hline.1), ih hothers hline.2 hquote.2]
      rfl

theorem le_longestRun (mark : Char) (run : Nat) (text : List Char) :
    run ≤ longestRun mark run text := by
  induction text generalizing run with
  | nil => exact Nat.le_refl _
  | cons char text ih =>
      rw [longestRun]
      split
      · exact Nat.le_trans (Nat.le_succ run) (ih (run + 1))
      · exact Nat.le_max_left ..

theorem startsWithFew_of_longestRun {run limit : Nat} (hlimit : run + limit = 2)
    (h : longestRun mark run text ≤ 2) : StartsWithFew mark limit text text := by
  induction text generalizing run limit with
  | nil => exact startsWithFew_nil ..
  | cons char text ih =>
      rw [longestRun] at h
      split at h
      · next hmark =>
          subst hmark
          have hle := le_longestRun char (run + 1) text
          obtain ⟨limit, rfl⟩ : ∃ others, limit = others + 1 := ⟨limit - 1, by omega⟩
          exact (ih (by omega) h).cons
      · next hne => exact startsWithFew_of_ne hne ..

theorem readLiteral_text_tripled {run : Nat} (hcontrol : ∀ char ∈ text, isControl char = false)
    (hruns : longestRun '\'' run text ≤ 2) (hrest : Stops (· = '\'') rest) :
    readLiteral true (text ++ '\'' :: '\'' :: '\'' :: rest) = some (text, rest) := by
  induction text generalizing run with
  | nil => exact readLiteral_closed (closing?_tripled (Nat.zero_le 2) hrest)
  | cons char text ih =>
      have hrun := le_longestRun '\'' run (char :: text)
      have hstart := startsWithFew_of_longestRun (show run + (2 - run) = 2 by omega) hruns
      obtain ⟨hchar, hothers⟩ := List.forall_mem_cons.1 hcontrol
      rcases closing?_startsWithFew (hstart.mono (by omega)) hrest with hclosed | hopen
      · exact readLiteral_closed hclosed
      · have hnext : ∃ run, longestRun '\'' run text ≤ 2 := by
          rw [longestRun] at hruns
          split at hruns
          · exact ⟨run + 1, hruns⟩
          · exact ⟨0, Nat.le_trans (Nat.le_max_right ..) hruns⟩
        obtain ⟨next, hnext⟩ := hnext
        rw [List.cons_append] at hopen
        rw [List.cons_append, readLiteral_stand hopen hchar (fun _ => rfl), ih hothers hnext]
        rfl

/-! ### All kinds of quotes -/

/-- The kind of quotes can hold the text. -/
def Quotes.Holds : Quotes → List Char → Prop
  | basic, _ => True
  | tripledBasic, _ => True
  | literal, text => (∀ char ∈ text, isControl char = false) ∧ '\n' ∉ text ∧ '\'' ∉ text
  | tripledLiteral, text => (∀ char ∈ text, isControl char = false) ∧ longestRun '\'' 0 text ≤ 2

theorem Quotes.holds_forText (text : List Char) : (Quotes.forText text).Holds text := by
  unfold Quotes.forText
  simp only
  split_ifs with hbasic hliteral hdouble hsingle <;> try exact trivial
  · simpa [Quotes.Holds, and_assoc] using hliteral
  · simpa [Quotes.Holds] using hsingle

theorem skipBreak_of_ne (hline : char ≠ '\n') (hreturn : char ≠ '\r') (rest : List Char) :
    skipBreak (char :: rest) = char :: rest := by
  unfold skipBreak
  split
  · next heq => exact absurd (List.cons.inj heq).1 hline
  · next heq => exact absurd (List.cons.inj heq).1 hreturn
  · rfl

/-- A line break right after the opening quotes is read away, and then it was not the text's. -/
theorem skipBreak_lead {written : List Char} (h : '\n' ∉ text → skipBreak written = written) :
    skipBreak ((if text.contains '\n' then ['\n'] else []) ++ written) = written := by
  split
  · rfl
  · next hline => exact h (by simpa using hline)

theorem escape_head_of_ne (tripled : Bool) (hline : char ≠ '\n') :
    ∃ first others, escape tripled char = first :: others ∧ first ≠ '\n' ∧ first ≠ '\r' := by
  unfold escape
  split_ifs with hback htab hfeed hreturn <;>
    first | exact ⟨_, _, rfl, by decide, by decide⟩ | exact ⟨_, _, rfl, hline, hreturn⟩

theorem skipBreak_escapes (h : '\n' ∉ text) (rest : List Char) :
    skipBreak (escapes true 0 text ++ '"' :: rest) = escapes true 0 text ++ '"' :: rest := by
  cases text with
  | nil => rfl
  | cons char text =>
      by_cases hquote : char = '"'
      · subst hquote
        rfl
      · have hline : char ≠ '\n' := fun heq => h (heq ▸ List.mem_cons_self)
        obtain ⟨first, others, hescape, hnewline, hreturn⟩ := escape_head_of_ne true hline
        rw [escapes, hescape]
        · exact skipBreak_of_ne hnewline hreturn _
        · exact hquote

theorem skipBreak_literal (hcontrol : ∀ char ∈ text, isControl char = false) (h : '\n' ∉ text)
    (rest : List Char) : skipBreak (text ++ '\'' :: rest) = text ++ '\'' :: rest := by
  cases text with
  | nil => rfl
  | cons char text =>
      refine skipBreak_of_ne (fun heq => h (heq ▸ List.mem_cons_self)) ?_ _
      rintro rfl
      exact absurd (hcontrol '\r' List.mem_cons_self) (by decide)

/-- Quotes that are followed by at most one more do not open a tripled text. -/
theorem open?_basic {chars : List Char} (h : ∀ others, chars ≠ '"' :: '"' :: others) :
    Quotes.open? ('"' :: chars) = some (.basic, chars) := by
  unfold Quotes.open?
  split
  · next heq => exact absurd (List.cons.inj heq).2 (h _)
  · next heq => rw [(List.cons.inj heq).2]
  · next heq => cases heq
  · next heq => cases heq
  · next _ hbasic _ _ => exact absurd rfl (hbasic chars)

theorem open?_literal {chars : List Char} (h : ∀ others, chars ≠ '\'' :: '\'' :: others) :
    Quotes.open? ('\'' :: chars) = some (.literal, chars) := by
  unfold Quotes.open?
  split
  · next heq => cases heq
  · next heq => cases heq
  · next heq => exact absurd (List.cons.inj heq).2 (h _)
  · next heq => rw [(List.cons.inj heq).2]
  · next hliteral => exact absurd rfl (hliteral chars)

theorem escapes_head (char : Char) (text : List Char) :
    ∃ first others, escapes false 0 (char :: text) = first :: others ∧ first ≠ '"' := by
  by_cases hquote : char = '"'
  · subst hquote
    exact ⟨'\\', '"' :: escapes false 0 text, by simp [escapes], by decide⟩
  · obtain ⟨first, more, hescape, hfirst⟩ := escape_head false hquote
    refine ⟨first, more ++ escapes false 0 text, ?_, hfirst⟩
    rw [escapes, hescape]
    · rfl
    · exact hquote

theorem stops_quote (hmark : isQuoteMark mark = true) (hrest : Stops isQuoteMark rest) :
    Stops (· = mark) rest := by
  intro char hchar
  rw [decide_eq_false_iff_not]
  rintro rfl
  rw [hrest char hchar] at hmark
  cases hmark

/-- A text reads back from any quotes that can hold it. -/
theorem readQuoted_render {quotes : Quotes} (h : quotes.Holds text)
    (hrest : Stops isQuoteMark rest) :
    readQuoted (quotes.render text ++ rest) = some (.ofList text, rest) := by
  have hdouble : Stops (· = '"') rest := stops_quote rfl hrest
  have hsingle : Stops (· = '\'') rest := stops_quote rfl hrest
  cases quotes with
  | basic =>
      have hopen : ∀ others, escapes false 0 text ++ '"' :: rest ≠ '"' :: '"' :: others := by
        intro others heq
        cases text with
        | nil =>
            rw [(List.cons.inj heq).2] at hdouble
            exact absurd (stops_cons.1 hdouble) (by decide)
        | cons char text =>
            obtain ⟨first, more, hescapes, hfirst⟩ := escapes_head char text
            rw [hescapes] at heq
            exact hfirst (List.cons.inj heq).1
      simp [readQuoted, Quotes.render, open?_basic hopen, Quotes.read?, readBasic_escapes]
  | literal =>
      obtain ⟨hcontrol, hline, hquote⟩ := h
      have hopen : ∀ others, text ++ '\'' :: rest ≠ '\'' :: '\'' :: others := by
        intro others heq
        cases text with
        | nil =>
            rw [(List.cons.inj heq).2] at hsingle
            exact absurd (stops_cons.1 hsingle) (by decide)
        | cons char text => exact hquote ((List.cons.inj heq).1 ▸ List.mem_cons_self)
      simp [readQuoted, Quotes.render, open?_literal hopen, Quotes.read?,
        readLiteral_text hcontrol hline hquote]
  | tripledBasic =>
      have hread := readBasic_escapes_tripled (Nat.zero_le 2) text hdouble
      have hbreak := skipBreak_lead fun hline : '\n' ∉ text =>
        skipBreak_escapes hline ('"' :: '"' :: rest)
      simp only [Quotes.render, List.append_assoc, List.cons_append, List.nil_append, readQuoted,
        Quotes.open?, Quotes.read?, hbreak, hread, Option.bind_eq_bind, Option.bind_some,
        Option.pure_def]
  | tripledLiteral =>
      obtain ⟨hcontrol, hruns⟩ := h
      have hread := readLiteral_text_tripled hcontrol hruns hsingle
      have hbreak := skipBreak_lead fun hline : '\n' ∉ text =>
        skipBreak_literal hcontrol hline ('\'' :: '\'' :: rest)
      simp only [Quotes.render, List.append_assoc, List.cons_append, List.nil_append, readQuoted,
        Quotes.open?, Quotes.read?, hbreak, hread, Option.bind_eq_bind, Option.bind_some,
        Option.pure_def]

theorem readQuoted_quote (text : String) (hrest : Stops isQuoteMark rest) :
    readQuoted (quote text ++ rest) = some (text, rest) := by
  rw [quote, readQuoted_render (Quotes.holds_forText _) hrest, String.ofList_toList]

/-! ### Keys -/

/-- A key in quotes is on one line, so nothing has to be asked of what follows. -/
theorem readKey_basic (text rest : List Char) :
    readKey (Quotes.basic.render text ++ rest) = some (.ofList text, rest) := by
  simp [readKey, Quotes.render, Quotes.read?, readBasic_escapes]

theorem readKey_literal (h : Quotes.literal.Holds text) (rest : List Char) :
    readKey (Quotes.literal.render text ++ rest) = some (.ofList text, rest) := by
  obtain ⟨hcontrol, hline, hquote⟩ := h
  simp [readKey, Quotes.render, Quotes.read?, readLiteral_text hcontrol hline hquote]

theorem readKey_bare (hne : text ≠ []) (hbare : ∀ char ∈ text, isBare char = true)
    (hrest : Stops isBare rest) : readKey (text ++ rest) = some (.ofList text, rest) := by
  obtain ⟨first, others, rfl⟩ := List.exists_cons_of_ne_nil hne
  have hfirst := hbare first List.mem_cons_self
  unfold readKey
  split
  · next heq =>
      rw [(List.cons.inj heq).1] at hfirst
      exact absurd hfirst (by decide)
  · next heq =>
      rw [(List.cons.inj heq).1] at hfirst
      exact absurd hfirst (by decide)
  · rw [takeWhile_word hbare hrest, dropWhile_word hbare hrest]

theorem readKey_render (key : String) (hrest : Stops isBare rest) :
    readKey (renderKey key ++ rest) = some (key, rest) := by
  unfold renderKey
  simp only
  split_ifs with hbare hbasic hliteral
  · rw [readKey_bare hbare.1 (List.all_eq_true.1 hbare.2) hrest, String.ofList_toList]
  · rw [readKey_basic, String.ofList_toList]
  · have hplain : (∀ char ∈ key.toList, isControl char = false ∧ char ≠ '\n') ∧
        '\'' ∉ key.toList := by simpa using hliteral
    have hholds : Quotes.literal.Holds key.toList :=
      ⟨fun char hchar => (hplain.1 char hchar).1, fun hline => (hplain.1 _ hline).2 rfl, hplain.2⟩
    rw [readKey_literal hholds, String.ofList_toList]
  · rw [readKey_basic, String.ofList_toList]

/-- A key starts with a bare character or a quote. -/
theorem renderKey_head (key : String) :
    ∃ first others, renderKey key = first :: others ∧
      (isBare first || isQuoteMark first) = true := by
  unfold renderKey
  simp only
  split_ifs with hbare
  · obtain ⟨first, others, hcons⟩ := List.exists_cons_of_ne_nil hbare.1
    have hfirst := List.all_eq_true.1 hbare.2 first (by simp [hcons])
    exact ⟨first, others, hcons, by rw [hfirst, Bool.true_or]⟩
  all_goals exact ⟨_, _, rfl, rfl⟩

end Scriptorium.Settings
