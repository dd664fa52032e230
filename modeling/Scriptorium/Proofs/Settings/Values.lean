import Scriptorium.Proofs.Settings.Drafts
import Scriptorium.Proofs.Settings.Quotes
import Scriptorium.Proofs.Settings.Scalars

/-!
# Values that read back

A reader of values goes down a written value as the writer did, one level of arrays and tables after
another. It gives up when it has gone down too far, and it reads every other proper value back. So
the statements below say what is read as a choice: the value, or nothing if it nests too deeply.
-/

namespace Scriptorium.Settings

variable {chars rest : List Char} {first : Char} {steps depth : Nat}

namespace Value

/-! ### Nesting -/

mutual

/-- How many arrays and tables the innermost value stands in, itself included. -/
def nesting : Value → Nat
  | .array items => nestingItems items + 1
  | .table entries => nestingEntries entries + 1
  | _ => 0

def nestingItems : List Value → Nat
  | [] => 0
  | item :: rest => max (nesting item) (nestingItems rest)

def nestingEntries : List (String × Value) → Nat
  | [] => 0
  | (_, value) :: rest => max (nesting value) (nestingEntries rest)

end

/-! ### Proper values -/

/-- A value that a settings file can hold: its moments are valid, and its tables list their keys in
order. -/
inductive IsProper : Value → Prop where
  | scalar {value : Value} (h : value.IsScalar) : IsProper value
  | string (text : String) : IsProper (.string text)
  | array {items : List Value} (h : ∀ item ∈ items, IsProper item) : IsProper (.array items)
  | table {entries : List (String × Value)} (sorted : KeysSorted entries)
      (h : ∀ entry ∈ entries, IsProper entry.2) : IsProper (.table entries)

end Value

/-! ### First characters -/

/-- A character that a value starts with. -/
def isOpening (char : Char) : Bool :=
  isBare char || isQuoteMark char || char = '[' || char = '\x7b'

theorem isOpening_of_isBare (h : isBare first = true) : isOpening first = true := by
  simp [isOpening, h]

theorem isOpening_of_key (h : (isBare first || isQuoteMark first) = true) :
    isOpening first = true := by
  rw [isOpening, h, Bool.true_or, Bool.true_or]

theorem ne_of_isOpening {char : Char} (h : isOpening first = true)
    (hchar : isOpening char = false) : first ≠ char := by
  rintro rfl
  rw [h] at hchar
  cases hchar

theorem not_isBlank_of_isOpening (h : isOpening first = true) : isBlank first = false := by
  rw [isBlank, Bool.or_eq_false_iff, decide_eq_false_iff_not, decide_eq_false_iff_not]
  exact ⟨ne_of_isOpening h rfl, ne_of_isOpening h rfl⟩

/-- The text starts as a value or a key does, so that no blanks, comments or line ends are skipped
in front of it. -/
def Opens (chars : List Char) : Prop :=
  ∃ first others, chars = first :: others ∧ isOpening first = true

theorem Opens.append (h : Opens chars) (rest : List Char) : Opens (chars ++ rest) := by
  obtain ⟨first, others, rfl, hfirst⟩ := h
  exact ⟨first, others ++ rest, rfl, hfirst⟩

theorem Opens.skipBlanks_eq (h : Opens chars) : skipBlanks chars = chars := by
  obtain ⟨first, others, rfl, hfirst⟩ := h
  exact List.dropWhile_cons_of_neg (by simp [not_isBlank_of_isOpening hfirst])

theorem Opens.skipTrivia_eq (h : Opens chars) : skipTrivia false chars = some chars := by
  obtain ⟨first, others, rfl, hfirst⟩ := h
  have hreturn : first ≠ '\r' := ne_of_isOpening hfirst rfl
  have hline : first ≠ '\n' := ne_of_isOpening hfirst rfl
  have hcomment : first ≠ '#' := ne_of_isOpening hfirst rfl
  rw [skipTrivia]
  · simp [not_isBlank_of_isOpening hfirst, hline, hcomment]
  · intro others heq
    exact absurd heq hreturn

theorem quote_head (text : String) :
    ∃ first others, quote text = first :: others ∧ isQuoteMark first = true := by
  rw [quote]
  cases Quotes.forText text.toList <;> exact ⟨_, _, rfl, rfl⟩

theorem opens_render {value : Value} (h : value.IsProper) : Opens value.render := by
  cases h with
  | scalar h =>
      obtain ⟨first, others, hrender, hbare⟩ := isBare_head h
      exact ⟨first, others, hrender, isOpening_of_isBare hbare⟩
  | string text =>
      obtain ⟨first, others, hquote, hmark⟩ := quote_head text
      exact ⟨first, others, hquote, isOpening_of_key (by rw [hmark, Bool.or_true])⟩
  | @array items h =>
      match items with
      | [] | [_] | _ :: _ :: _ => exact ⟨'[', _, rfl, rfl⟩
  | @table entries sorted h =>
      match entries with
      | [] | _ :: _ => exact ⟨'\x7b', _, rfl, rfl⟩

/-! ### What follows a value -/

/-- What may follow a value: nothing that would go on with a value without quotes, and no quote. -/
structure EndsValue (rest : List Char) : Prop extends EndsScalar rest where
  unquoted : Stops isQuoteMark rest

theorem endsValue_cons {mark : Char} (hscalar : isScalarChar mark = false)
    (hquote : isQuoteMark mark = false) (hblank : mark ≠ ' ') (rest : List Char) :
    EndsValue (mark :: rest) where
  stops := stops_cons.2 hscalar
  no_time _ _ heq := absurd (List.cons.inj heq).1 hblank
  unquoted := stops_cons.2 hquote

/-- The end of a table between braces. -/
theorem endsValue_brace (rest : List Char) : EndsValue (' ' :: '\x7d' :: rest) where
  stops := stops_cons.2 rfl
  no_time char others heq := by
    rw [← (List.cons.inj (List.cons.inj heq).2).1]
    rfl
  unquoted := stops_cons.2 rfl

/-! ### Lists of things -/

section Items

variable {α : Type} {item : List Char → Option (α × List Char)} {close : Char} {value : α}
  {values : List α} {written after : List Char}

theorem readItems_close (h : skipTrivia false chars = some (close :: rest)) :
    readItems item close (steps + 1) chars = some ([], rest) := by
  simp [readItems, h]

/-- The last thing of a list, if the reader of things accepts it. -/
theorem readItems_last {fits : Prop} [Decidable fits] (h : skipTrivia false chars = some written)
    (hopens : Opens written) (hclose : isOpening close = false) (hcomma : close ≠ ',')
    (hitem : item written = if fits then some (value, after) else none)
    (hafter : skipTrivia false after = some (close :: rest)) :
    readItems item close (steps + 1) chars = if fits then some ([value], rest) else none := by
  obtain ⟨first, others, rfl, hfirst⟩ := hopens
  have hne : first ≠ close := ne_of_isOpening hfirst hclose
  by_cases hfits : fits <;> simp [readItems, h, hne, hitem, hfits, hafter]

/-- One more thing of a list, if the reader of things accepts it and the others are read. -/
theorem readItems_more {fits othersFit : Prop} [Decidable fits] [Decidable othersFit]
    (h : skipTrivia false chars = some written) (hopens : Opens written)
    (hclose : isOpening close = false)
    (hitem : item written = if fits then some (value, ',' :: after) else none)
    (hothers : readItems item close steps after = if othersFit then some (values, rest) else none) :
    readItems item close (steps + 1) chars =
      if fits ∧ othersFit then some (value :: values, rest) else none := by
  obtain ⟨first, others, rfl, hfirst⟩ := hopens
  have hne : first ≠ close := ne_of_isOpening hfirst hclose
  have hcomma : skipTrivia false (',' :: after) = some (',' :: after) := rfl
  by_cases hfits : fits
  · by_cases hfit : othersFit <;>
      simp [readItems, h, hne, hitem, hfits, hcomma, hothers, hfit]
  · simp [readItems, h, hne, hitem, hfits]

end Items

/-! ### Paths and assignments -/

theorem renderPath_head (parents : List String) (key : String) :
    ∃ first others, renderPath parents key = first :: others ∧
      (isBare first || isQuoteMark first) = true := by
  cases parents with
  | nil => exact renderKey_head key
  | cons parent parents =>
      obtain ⟨first, others, hkey, hfirst⟩ := renderKey_head parent
      exact ⟨first, others ++ '.' :: renderPath parents key, by rw [renderPath, hkey]; rfl, hfirst⟩

theorem opens_renderPath (parents : List String) (key : String) :
    Opens (renderPath parents key) := by
  obtain ⟨first, others, hpath, hfirst⟩ := renderPath_head parents key
  exact ⟨first, others, hpath, isOpening_of_key hfirst⟩

/-- A path reads back unless it has too many keys. -/
theorem readPath_render (parents : List String) (key : String) (hrest : Stops isBare rest)
    (hpoint : ∀ others, skipBlanks rest ≠ '.' :: others) (steps : Nat) :
    readPath steps (renderPath parents key ++ rest) =
      if parents.length < steps then some ((parents, key), skipBlanks rest) else none := by
  induction parents generalizing steps with
  | nil =>
      cases steps with
      | zero => rfl
      | succ steps =>
          have hshort : ([] : List String).length < steps + 1 := Nat.succ_pos steps
          simp only [readPath, renderPath, readKey_render key hrest, Option.bind_eq_bind,
            Option.bind_some, if_pos hshort]
          rfl
  | cons parent parents ih =>
      cases steps with
      | zero => rfl
      | succ steps =>
          have hblanks : skipBlanks (renderPath parents key ++ rest) =
              renderPath parents key ++ rest :=
            ((opens_renderPath parents key).append rest).skipBlanks_eq
          have hmark : skipBlanks ('.' :: (renderPath parents key ++ rest)) =
              '.' :: (renderPath parents key ++ rest) := rfl
          rw [renderPath, List.append_assoc, List.cons_append, readPath,
            readKey_render parent (stops_cons.2 rfl)]
          simp only [Option.bind_eq_bind, Option.bind_some, hmark, hblanks, ih]
          by_cases h : parents.length < steps <;> simp [h]

/-- What may stand around an equals sign is skipped up to the sign, and up to the value. -/
structure SkipsBlanks (skip : List Char → Option (List Char)) : Prop where
  mark : ∀ others, skip ('=' :: others) = some ('=' :: others)
  value : ∀ written, Opens written → skip (' ' :: written) = some written

theorem skipsBlanks_skipBlanks : SkipsBlanks (some ∘ skipBlanks) where
  mark _ := rfl
  value _ h := congrArg some h.skipBlanks_eq

theorem skipsBlanks_skipTrivia : SkipsBlanks (skipTrivia false) where
  mark _ := rfl
  value _ h := h.skipTrivia_eq

/-- An assignment reads back unless its path is too long or its value is refused. -/
theorem readAssignment_render {skip : List Char → Option (List Char)}
    {reader : List Char → Option (Value × List Char)} (hskip : SkipsBlanks skip)
    (parents : List String) (key : String) {value : Value} (h : value.IsProper)
    (hread : reader (value.render ++ rest) =
      if value.nesting ≤ depth then some (value, rest) else none) :
    readAssignment skip reader
        (renderPath parents key ++ [' ', '=', ' '] ++ value.render ++ rest) =
      if parents.length < maxDepth ∧ value.nesting ≤ depth then
        some (⟨parents, key, value⟩, rest)
      else none := by
  have hmark : skipBlanks (' ' :: '=' :: ' ' :: (value.render ++ rest)) =
      '=' :: ' ' :: (value.render ++ rest) := rfl
  have hpoint : ∀ others, skipBlanks (' ' :: '=' :: ' ' :: (value.render ++ rest)) ≠
      '.' :: others := by
    rw [hmark]
    nofun
  have hvalue : skip (' ' :: (value.render ++ rest)) = some (value.render ++ rest) :=
    hskip.value _ ((opens_render h).append rest)
  have hpath := readPath_render parents key (stops_cons.2 rfl) hpoint maxDepth
  simp only [List.append_assoc, List.cons_append, List.nil_append, readAssignment, hpath, hmark]
  by_cases hparents : parents.length < maxDepth
  · rw [if_pos hparents]
    simp only [hparents, true_and, Option.bind_eq_bind, Option.bind_some, hskip.mark, hvalue, hread]
    by_cases hdeep : value.nesting ≤ depth <;> simp [hdeep]
  · simp [hparents]

/-! ### Arrays and tables -/

/-- A reader reads a value back if it nests at most so deeply, and refuses it otherwise. -/
def ReadsTo (reader : List Char → Option (Value × List Char)) (depth : Nat) (value : Value) :
    Prop :=
  ∀ rest, EndsValue rest →
    reader (value.render ++ rest) = if value.nesting ≤ depth then some (value, rest) else none

variable {reader : List Char → Option (Value × List Char)} {items : List Value}
  {entries : List (String × Value)}

/-- Each value of a long array stands on a line of its own, with a comma behind it. -/
theorem readItems_renderItems (hproper : ∀ item ∈ items, item.IsProper)
    (hread : ∀ item ∈ items, ReadsTo reader depth item) (hsteps : items.length < steps)
    (rest : List Char) :
    readItems reader ']' steps ('\n' :: (Value.renderItems items ++ ']' :: rest)) =
      if Value.nestingItems items ≤ depth then some (items, rest) else none := by
  induction items generalizing steps with
  | nil =>
      cases steps with
      | zero => cases hsteps
      | succ steps => exact (readItems_close rfl).trans (if_pos (Nat.zero_le _)).symm
  | cons item items ih =>
      cases steps with
      | zero => cases hsteps
      | succ steps =>
          obtain ⟨hitem, hitems⟩ := List.forall_mem_cons.1 hproper
          obtain ⟨hreaditem, hreaditems⟩ := List.forall_mem_cons.1 hread
          have hothers := ih hitems hreaditems (Nat.lt_of_succ_lt_succ hsteps)
          generalize hafter : '\n' :: (Value.renderItems items ++ ']' :: rest) = after at hothers
          have hopens := (opens_render hitem).append (',' :: after)
          have hwritten : '\n' :: (Value.renderItems (item :: items) ++ ']' :: rest) =
              '\n' :: ' ' :: ' ' :: ' ' :: ' ' :: (item.render ++ ',' :: after) := by
            simp [Value.renderItems, ← hafter]
          have hskip : skipTrivia false ('\n' :: ' ' :: ' ' :: ' ' :: ' ' ::
              (item.render ++ ',' :: after)) = some (item.render ++ ',' :: after) :=
            hopens.skipTrivia_eq
          have hvalue := hreaditem (',' :: after) (endsValue_cons rfl rfl (by decide) _)
          rw [hwritten, readItems_more hskip hopens rfl hvalue hothers]
          simp only [Value.nestingItems, Nat.max_le]

/-- An entry of a table between braces reads back unless its value is refused. -/
theorem readEntry_render (key : String) {value : Value} (h : value.IsProper)
    (hread : ReadsTo reader depth value) (hrest : EndsValue rest) :
    readAssignment (skipTrivia false) reader
        (renderPath [] key ++ [' ', '=', ' '] ++ value.render ++ rest) =
      if value.nesting ≤ depth then some (⟨[], key, value⟩, rest) else none := by
  have hshort : ([] : List String).length < maxDepth := by decide
  rw [readAssignment_render skipsBlanks_skipTrivia [] key h (hread rest hrest)]
  simp only [hshort, true_and]

/-- The entries of a table between braces, with commas between them. -/
theorem readItems_renderEntries (hne : entries ≠ []) (hproper : ∀ entry ∈ entries, entry.2.IsProper)
    (hread : ∀ entry ∈ entries, ReadsTo reader depth entry.2) (hsteps : entries.length ≤ steps)
    (rest : List Char) :
    readItems (readAssignment (skipTrivia false) reader) '\x7d' steps
        (' ' :: (Value.renderEntries entries ++ ' ' :: '\x7d' :: rest)) =
      if Value.nestingEntries entries ≤ depth then
        some (entries.map fun entry => ⟨[], entry.1, entry.2⟩, rest)
      else none := by
  induction entries generalizing steps with
  | nil => exact absurd rfl hne
  | cons entry entries ih =>
      cases steps with
      | zero => cases hsteps
      | succ steps =>
          obtain ⟨key, value⟩ := entry
          obtain ⟨hvalue, hentries⟩ := List.forall_mem_cons.1 hproper
          obtain ⟨hreadvalue, hreadentries⟩ := List.forall_mem_cons.1 hread
          let written (after : List Char) :=
            renderPath [] key ++ [' ', '=', ' '] ++ value.render ++ after
          have hopens (after : List Char) : Opens (written after) :=
            (((opens_renderPath [] key).append _).append _).append after
          have hskip (after : List Char) : skipTrivia false (' ' :: written after) =
              some (written after) :=
            (hopens after).skipTrivia_eq
          cases entries with
          | nil =>
              have hchars : ' ' :: (Value.renderEntries [(key, value)] ++ ' ' :: '\x7d' :: rest) =
                  ' ' :: written (' ' :: '\x7d' :: rest) := by
                simp [Value.renderEntries, renderPath, written]
              have hitem := readEntry_render key hvalue hreadvalue (endsValue_brace rest)
              rw [hchars, readItems_last (hskip _) (hopens _) rfl (by decide) hitem rfl]
              simp [Value.nestingEntries]
          | cons next entries =>
              -- the blank behind a comma is the one that the other entries start with
              have hothers := ih (List.cons_ne_nil _ _) hentries hreadentries
                (Nat.le_of_succ_le_succ hsteps)
              generalize hafter : ' ' :: (Value.renderEntries (next :: entries) ++
                ' ' :: '\x7d' :: rest) = after at hothers
              have hchars : ' ' :: (Value.renderEntries ((key, value) :: next :: entries) ++
                  ' ' :: '\x7d' :: rest) = ' ' :: written (',' :: after) := by
                simp [Value.renderEntries, renderPath, written, ← hafter]
              have hends : EndsValue (',' :: after) := endsValue_cons rfl rfl (by decide) _
              have hitem := readEntry_render key hvalue hreadvalue hends
              rw [hchars, readItems_more (hskip _) (hopens _) rfl hitem hothers]
              simp only [Value.nestingEntries, Nat.max_le, List.map_cons]

/-! ### Lengths -/

theorem length_le_renderItems (items : List Value) :
    items.length ≤ (Value.renderItems items).length := by
  induction items with
  | nil => exact Nat.le_refl 0
  | cons item rest ih =>
      simp only [Value.renderItems, List.length_append, List.length_cons]
      omega

theorem length_le_renderEntries (entries : List (String × Value)) :
    entries.length ≤ (Value.renderEntries entries).length := by
  induction entries with
  | nil => exact Nat.le_refl 0
  | cons entry rest ih =>
      cases rest with
      | nil =>
          simp only [Value.renderEntries, List.length_append, List.length_cons]
          omega
      | cons next rest =>
          simp only [Value.renderEntries, List.length_append, List.length_cons] at ih ⊢
          omega

theorem length_item_le {item : Value} (h : item ∈ items) :
    item.render.length ≤ (Value.array items).render.length := by
  have hitems : item.render.length ≤ (Value.renderItems items).length := by
    induction items with
    | nil => cases h
    | cons first rest ih =>
        rw [Value.renderItems, List.length_append, List.length_append, List.length_append]
        rcases List.mem_cons.1 h with rfl | h
        · omega
        · have := ih h
          omega
  match items, h with
  | [only], h =>
      rw [List.mem_singleton.1 h, Value.render, List.length_append, List.length_cons]
      omega
  | first :: next :: items, _ =>
      rw [Value.render, List.length_append, List.length_cons, List.length_cons]
      · omega
      · exact List.cons_ne_nil _ _
      · rintro _ ⟨⟩

theorem length_entry_le {entry : String × Value} (h : entry ∈ entries) :
    entry.2.render.length ≤ (Value.table entries).render.length := by
  have hentries : entry.2.render.length ≤ (Value.renderEntries entries).length := by
    induction entries with
    | nil => cases h
    | cons first rest ih =>
        cases rest with
        | nil =>
            rw [List.mem_singleton.1 h]
            simp only [Value.renderEntries, List.length_append]
            omega
        | cons next rest =>
            simp only [Value.renderEntries, List.length_append] at ih ⊢
            rcases List.mem_cons.1 h with rfl | h
            · omega
            · have := ih h
              omega
  cases entries with
  | nil => cases h
  | cons first rest =>
      rw [Value.render, List.length_append, List.length_cons, List.length_cons]
      · omega
      · exact List.cons_ne_nil _ _

/-- An array between brackets, after the first one. -/
theorem readItems_array (hproper : ∀ item ∈ items, item.IsProper)
    (hread : ∀ item ∈ items, ReadsTo reader depth item)
    (hsteps : (Value.array items).render.length ≤ steps) (rest : List Char) :
    ∃ inner, (Value.array items).render = '[' :: inner ∧
      readItems reader ']' steps (inner ++ rest) =
        if Value.nestingItems items ≤ depth then some (items, rest) else none := by
  cases steps with
  | zero => match items with | [] | [_] | _ :: _ :: _ => cases hsteps
  | succ steps =>
      match items with
      | [] => exact ⟨[']'], rfl, (readItems_close rfl).trans (if_pos (Nat.zero_le _)).symm⟩
      | [item] =>
          refine ⟨item.render ++ [']'], rfl, ?_⟩
          have hopens := (opens_render (hproper item List.mem_cons_self)).append (']' :: rest)
          have hvalue := hread item List.mem_cons_self (']' :: rest)
            (endsValue_cons rfl rfl (by decide) _)
          rw [List.append_assoc, List.cons_append, List.nil_append,
            readItems_last hopens.skipTrivia_eq hopens rfl (by decide) hvalue rfl]
          simp [Value.nestingItems]
      | item :: next :: items =>
          refine ⟨'\n' :: Value.renderItems (item :: next :: items) ++ [']'], rfl, ?_⟩
          have hlength := length_le_renderItems (item :: next :: items)
          have hsteps : (item :: next :: items).length < steps + 1 := by
            simp only [Value.render, List.length_cons, List.length_append] at hsteps hlength ⊢
            omega
          have hitems := readItems_renderItems hproper hread hsteps rest
          rwa [List.cons_append, List.cons_append, List.append_assoc]

/-- A table between braces, after the first one. -/
theorem readItems_table (hproper : ∀ entry ∈ entries, entry.2.IsProper)
    (hread : ∀ entry ∈ entries, ReadsTo reader depth entry.2)
    (hsteps : (Value.table entries).render.length ≤ steps) (rest : List Char) :
    ∃ inner, (Value.table entries).render = '\x7b' :: inner ∧
      readItems (readAssignment (skipTrivia false) reader) '\x7d' steps (inner ++ rest) =
        if Value.nestingEntries entries ≤ depth then
          some (entries.map fun entry => ⟨[], entry.1, entry.2⟩, rest)
        else none := by
  cases entries with
  | nil =>
      cases steps with
      | zero => cases hsteps
      | succ steps =>
          exact ⟨['\x7d'], rfl, (readItems_close rfl).trans (if_pos (Nat.zero_le _)).symm⟩
  | cons entry entries =>
      refine ⟨' ' :: Value.renderEntries (entry :: entries) ++ [' ', '\x7d'], rfl, ?_⟩
      have hlength := length_le_renderEntries (entry :: entries)
      have hsteps : (entry :: entries).length ≤ steps := by
        simp only [Value.render, List.length_cons, List.length_append] at hsteps hlength ⊢
        omega
      have hentries := readItems_renderEntries (List.cons_ne_nil _ _) hproper hread hsteps rest
      rwa [List.cons_append, List.cons_append, List.append_assoc]

/-! ### Values -/

theorem readValue_of_isBare (h : isBare first = true) (rest : List Char) :
    readValue steps depth (first :: rest) = readScalar (first :: rest) := by
  have hne {char : Char} (hchar : isBare char = false) : first ≠ char := by
    rintro rfl
    rw [h] at hchar
    cases hchar
  unfold readValue
  split
  · next heq => exact absurd (List.cons.inj heq).1 (hne rfl)
  · next heq => exact absurd (List.cons.inj heq).1 (hne rfl)
  · next heq => exact absurd (List.cons.inj heq).1 (hne rfl)
  · next heq => exact absurd (List.cons.inj heq).1 (hne rfl)
  · next heq => exact absurd (List.cons.inj heq).1 (hne rfl)
  · next heq => exact absurd (List.cons.inj heq).1 (hne rfl)
  · rfl

theorem readValue_of_isQuoteMark (h : isQuoteMark first = true) (rest : List Char) :
    readValue steps depth (first :: rest) =
      (readQuoted (first :: rest)).map (Prod.map .string id) := by
  rw [isQuoteMark, Bool.or_eq_true, decide_eq_true_eq, decide_eq_true_eq] at h
  rcases h with rfl | rfl <;> unfold readValue <;> rfl

theorem readValue_bracket (rest : List Char) :
    readValue steps (depth + 1) ('[' :: rest) =
      (readItems (readValue steps depth) ']' steps rest).map (Prod.map .array id) := by
  rw [readValue]
  cases readItems (readValue steps depth) ']' steps rest <;> rfl

theorem readValue_brace (rest : List Char) :
    readValue steps (depth + 1) ('\x7b' :: rest) =
      (readItems (readAssignment (skipTrivia false) (readValue steps depth)) '\x7d' steps rest).bind
        fun (body, rest) => (Table.ofAssignments? body).map fun table => (.table table, rest) := by
  rw [readValue]
  cases readItems (readAssignment (skipTrivia false) (readValue steps depth)) '\x7d' steps rest with
  | none => rfl
  | some read =>
      obtain ⟨body, rest⟩ := read
      simp only [Option.bind_eq_bind, Option.bind_some]
      cases Table.ofAssignments? body <;> rfl

/-- **Every proper value reads back**, unless it nests too deeply for the reader. -/
theorem readValue_render {value : Value} (h : value.IsProper)
    (hsteps : value.render.length ≤ steps) (depth : Nat) :
    ReadsTo (readValue steps depth) depth value := by
  induction h generalizing depth with
  | @scalar value h =>
      intro rest hrest
      obtain ⟨first, others, hrender, hfirst⟩ := isBare_head h
      have hflat : value.nesting ≤ depth := by
        cases value <;> first | exact Nat.zero_le _ | exact h.elim
      rw [if_pos hflat, ← readScalar_render h hrest.toEndsScalar, hrender]
      exact readValue_of_isBare hfirst _
  | string text =>
      intro rest hrest
      obtain ⟨first, others, hquote, hfirst⟩ := quote_head text
      have hread := readQuoted_quote text hrest.unquoted
      rw [Value.render, if_pos (show Value.nesting (.string text) ≤ depth from Nat.zero_le _)]
      rw [hquote, List.cons_append] at hread ⊢
      rw [readValue_of_isQuoteMark hfirst, hread]
      rfl
  | @array items h ih =>
      intro rest hrest
      -- the reader of the items goes one level less down, and from depth zero there is none
      have hread (depth : Nat) : ∀ item ∈ items, ReadsTo (readValue steps depth) depth item :=
        fun item hitem => ih item hitem (Nat.le_trans (length_item_le hitem) hsteps) depth
      obtain ⟨inner, hrender, hinner⟩ := readItems_array h (hread (depth - 1)) hsteps rest
      rw [hrender, List.cons_append, Value.nesting]
      cases depth with
      | zero => rfl
      | succ depth =>
          rw [readValue_bracket]
          rw [Nat.add_sub_cancel] at hinner
          rw [hinner]
          simp only [Nat.add_le_add_iff_right]
          split <;> rfl
  | @table entries sorted h ih =>
      intro rest hrest
      have hread (depth : Nat) : ∀ entry ∈ entries, ReadsTo (readValue steps depth) depth entry.2 :=
        fun entry hentry => ih entry hentry (Nat.le_trans (length_entry_le hentry) hsteps) depth
      obtain ⟨inner, hrender, hinner⟩ := readItems_table h (hread (depth - 1)) hsteps rest
      rw [hrender, List.cons_append, Value.nesting]
      cases depth with
      | zero => rfl
      | succ depth =>
          rw [readValue_brace]
          rw [Nat.add_sub_cancel] at hinner
          rw [hinner]
          simp only [Nat.add_le_add_iff_right]
          split
          · simp only [Option.bind_some, ofAssignments?_entries sorted, Option.map_some]
          · rfl

end Scriptorium.Settings
