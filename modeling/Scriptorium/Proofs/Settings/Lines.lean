import Scriptorium.Proofs.Settings.Values

/-!
# Outlines that read back

A written outline is a list of lines, each of which is an assignment or a header with the blank line
in front of it. Every line ends where it was written to end, and the steps of the reader are enough
because a line has at least one character. So an outline reads back whole, or not at all: when one
of its lines goes beyond a limit of the reader.
-/

namespace Scriptorium.Settings

variable {rest : List Char} {steps : Nat}

/-! ### Limits -/

/-- The path has few enough keys, and the value nests no deeper than the reader goes. -/
def Assignment.IsShallow (assignment : Assignment) : Prop :=
  assignment.parents.length < maxDepth ∧ assignment.value.nesting ≤ maxDepth

instance (assignment : Assignment) : Decidable assignment.IsShallow :=
  inferInstanceAs (Decidable (_ ∧ _))

def Section.IsShallow (part : Section) : Prop :=
  part.parents.length < maxDepth ∧ ∀ assignment ∈ part.body, assignment.IsShallow

instance (part : Section) : Decidable part.IsShallow :=
  inferInstanceAs (Decidable (_ ∧ _))

/-- The outline keeps the limits of the reader. -/
def Outline.IsShallow (outline : Outline) : Prop :=
  (∀ assignment ∈ outline.body, assignment.IsShallow) ∧ ∀ part ∈ outline.sections, part.IsShallow

instance (outline : Outline) : Decidable outline.IsShallow :=
  inferInstanceAs (Decidable (_ ∧ _))

/-! ### Lines -/

namespace Line

def render : Line → List Char
  | assignment content => content.render
  | header .table parents key => '\n' :: '[' :: renderPath parents key ++ [']', '\n']
  | header .element parents key => '\n' :: '[' :: '[' :: renderPath parents key ++ [']', ']', '\n']

def IsProper : Line → Prop
  | assignment content => content.value.IsProper
  | header .. => True

def IsShallow : Line → Prop
  | assignment content => content.IsShallow
  | header _ parents _ => parents.length < maxDepth

instance : (line : Line) → Decidable line.IsShallow
  | assignment content => inferInstanceAs (Decidable content.IsShallow)
  | header _ parents _ => inferInstanceAs (Decidable (parents.length < maxDepth))

end Line

def Section.lines (part : Section) : List Line :=
  .header part.heading part.parents part.key :: part.body.map .assignment

def Outline.lines (outline : Outline) : List Line :=
  outline.body.map .assignment ++ outline.sections.flatMap Section.lines

theorem flatMap_assignment (body : List Assignment) :
    (body.map Line.assignment).flatMap Line.render = body.flatMap Assignment.render := by
  rw [List.flatMap_map]
  rfl

theorem Section.render_eq (part : Section) : part.render = part.lines.flatMap Line.render := by
  obtain ⟨heading, parents, key, body⟩ := part
  rw [Section.lines, List.flatMap_cons, flatMap_assignment]
  cases heading <;> simp [Section.render, Line.render]

theorem Outline.render_eq (outline : Outline) :
    outline.render = outline.lines.flatMap Line.render := by
  have hsections : outline.sections.flatMap Section.render =
      (outline.sections.flatMap Section.lines).flatMap Line.render := by
    rw [List.flatMap_assoc]
    exact List.flatMap_congr fun part _ => part.render_eq
  rw [Outline.render, Outline.lines, List.flatMap_append, flatMap_assignment, hsections]

theorem foldr_addLine_body (body : List Assignment) (outline : Outline) :
    (body.map Line.assignment).foldr Outline.addLine outline =
      ⟨body ++ outline.body, outline.sections⟩ := by
  induction body with
  | nil => rfl
  | cons assignment body ih =>
      rw [List.map_cons, List.foldr_cons, ih]
      rfl

theorem foldr_addLine_sections (parts : List Section) :
    (parts.flatMap Section.lines).foldr Outline.addLine ⟨[], []⟩ = ⟨[], parts⟩ := by
  induction parts with
  | nil => rfl
  | cons part parts ih =>
      rw [List.flatMap_cons, List.foldr_append, ih, Section.lines, List.foldr_cons,
        foldr_addLine_body, List.append_nil]
      rfl

theorem Outline.ofLines_lines (outline : Outline) : ofLines outline.lines = outline := by
  rw [ofLines, Outline.lines, List.foldr_append, foldr_addLine_sections, foldr_addLine_body,
    List.append_nil]

theorem Section.isShallow_iff {part : Section} :
    part.IsShallow ↔ ∀ line ∈ part.lines, line.IsShallow := by
  rw [Section.lines, List.forall_mem_cons, List.forall_mem_map]
  rfl

theorem Outline.isShallow_iff {outline : Outline} :
    outline.IsShallow ↔ ∀ line ∈ outline.lines, line.IsShallow := by
  rw [Outline.lines, List.forall_mem_append, List.forall_mem_map]
  refine and_congr Iff.rfl ⟨fun h line hline => ?_, fun h part hpart => ?_⟩
  · obtain ⟨part, hpart, hline⟩ := List.mem_flatMap.1 hline
    exact Section.isShallow_iff.1 (h part hpart) line hline
  · exact Section.isShallow_iff.2 fun line hline => h line (List.mem_flatMap.2 ⟨part, hpart, hline⟩)

/-! ### Reading lines -/

theorem Opens.skipLineEnd_eq {chars : List Char} (h : Opens chars) :
    skipLineEnd false chars = none := by
  obtain ⟨first, others, rfl, hfirst⟩ := h
  have hreturn : first ≠ '\r' := ne_of_isOpening hfirst rfl
  have hline : first ≠ '\n' := ne_of_isOpening hfirst rfl
  have hcomment : first ≠ '#' := ne_of_isOpening hfirst rfl
  rw [skipLineEnd]
  · simp [not_isBlank_of_isOpening hfirst, hline, hcomment]
  · intro others heq
    exact absurd heq hreturn

/-- A line that starts with an assignment or a header is read, and then the lines behind it. -/
theorem readLines_of_opens {fits : Prop} [Decidable fits] {chars : List Char} (h : Opens chars)
    {line : Line}
    (hread : readLine steps chars = if fits then some (line, '\n' :: rest) else none) :
    readLines (steps + 1) chars =
      if fits then (readLines steps rest).map (line :: ·) else none := by
  have hend : skipLineEnd false ('\n' :: rest) = some rest := by simp [skipLineEnd]
  have hline := h.skipLineEnd_eq
  have hblanks := h.skipBlanks_eq
  obtain ⟨first, others, rfl, -⟩ := h
  rw [readLines]
  · simp only [hline, hblanks, hread]
    by_cases hfits : fits
    · simp only [if_pos hfits, Option.bind_eq_bind, Option.bind_some, hend]
      cases readLines steps rest <;> rfl
    · simp only [if_neg hfits]
      rfl
  · exact List.cons_ne_nil _ _

theorem readLine_of_ne {first : Char} (h : first ≠ '[') (rest : List Char) :
    readLine steps (first :: rest) =
      (readAssignment (some ∘ skipBlanks) (readValue steps maxDepth) (first :: rest)).map
        (Prod.map .assignment id) := by
  rw [readLine]
  intro others heq
  exact h (List.cons.inj heq).1

theorem readLines_assignment {assignment : Assignment} (h : assignment.value.IsProper)
    (hsteps : assignment.render.length ≤ steps) (rest : List Char) :
    readLines (steps + 1) (assignment.render ++ rest) =
      if (Line.assignment assignment).IsShallow then
        (readLines steps rest).map (.assignment assignment :: ·)
      else none := by
  obtain ⟨parents, key, value⟩ := assignment
  have hvalue : value.render.length ≤ steps := by
    simp only [Assignment.render, List.length_append] at hsteps
    omega
  have hread := readAssignment_render skipsBlanks_skipBlanks parents key h
    (readValue_render h hvalue maxDepth ('\n' :: rest) (endsValue_cons rfl rfl (by decide) _))
  have hchars : Assignment.render ⟨parents, key, value⟩ ++ rest =
      renderPath parents key ++ [' ', '=', ' '] ++ value.render ++ '\n' :: rest := by
    simp [Assignment.render]
  have hopens := (((opens_renderPath parents key).append [' ', '=', ' ']).append
    value.render).append ('\n' :: rest)
  rw [hchars]
  refine readLines_of_opens hopens ?_
  obtain ⟨first, more, hpath, hfirst⟩ := renderPath_head parents key
  have hbracket : first ≠ '[' := by
    rintro rfl
    exact absurd hfirst (by decide)
  simp only [hpath, List.cons_append] at hread ⊢
  rw [readLine_of_ne hbracket, hread]
  exact apply_ite (Option.map (Prod.map Line.assignment id)) ..

theorem readHeader_render (heading : Heading) (parents : List String) (key : String)
    (rest : List Char) :
    ∃ inner, (Line.header heading parents key).render = '\n' :: '[' :: inner ++ ['\n'] ∧
      readHeader (inner ++ rest) =
        if parents.length < maxDepth then some (.header heading parents key, rest) else none := by
  have hread (after : List Char) :
      readPath maxDepth (skipBlanks (renderPath parents key ++ ']' :: after)) =
        if parents.length < maxDepth then some ((parents, key), ']' :: after) else none := by
    have hpoint : ∀ others, skipBlanks (']' :: after) ≠ '.' :: others :=
      fun others heq => absurd (List.cons.inj heq).1 (by decide)
    rw [((opens_renderPath parents key).append _).skipBlanks_eq]
    exact readPath_render parents key (stops_cons.2 rfl) hpoint maxDepth
  cases heading with
  | table =>
      refine ⟨renderPath parents key ++ [']'], by simp [Line.render], ?_⟩
      have hbracket : ∀ others, renderPath parents key ++ ']' :: rest ≠ '[' :: others := by
        intro others heq
        obtain ⟨first, more, hpath, hfirst⟩ := renderPath_head parents key
        rw [hpath] at heq
        rw [(List.cons.inj heq).1] at hfirst
        exact absurd hfirst (by decide)
      rw [List.append_assoc, List.cons_append, List.nil_append, readHeader]
      · rw [hread rest]
        split <;> rfl
      · exact hbracket
  | element =>
      refine ⟨'[' :: renderPath parents key ++ [']', ']'], by simp [Line.render], ?_⟩
      rw [List.append_assoc, List.cons_append, readHeader]
      simp only [List.cons_append, List.nil_append, hread]
      split <;> rfl

theorem readLines_header (heading : Heading) (parents : List String) (key : String)
    (rest : List Char) :
    readLines (steps + 2) ((Line.header heading parents key).render ++ rest) =
      if (Line.header heading parents key).IsShallow then
        (readLines steps rest).map (.header heading parents key :: ·)
      else none := by
  obtain ⟨inner, hrender, hread⟩ := readHeader_render heading parents key ('\n' :: rest)
  have hblank : readLines (steps + 2) ('\n' :: '[' :: (inner ++ '\n' :: rest)) =
      readLines (steps + 1) ('[' :: (inner ++ '\n' :: rest)) := by
    rw [readLines]
    · simp [skipLineEnd]
    · nofun
  have hchars : (Line.header heading parents key).render ++ rest =
      '\n' :: '[' :: (inner ++ '\n' :: rest) := by
    simp [hrender]
  rw [hchars, hblank]
  exact readLines_of_opens ⟨'[', _, rfl, rfl⟩ hread

/-- A line that is read in front of lines that are read. -/
theorem map_ite_cons {first others : Prop} [Decidable first] [Decidable others] (line : Line)
    (lines : List Line) :
    (if first then (if others then some lines else none).map (line :: ·) else none) =
      if first ∧ others then some (line :: lines) else none := by
  by_cases hfirst : first <;> by_cases hothers : others <;> simp [hfirst, hothers]

theorem readLines_lines {lines : List Line} (h : ∀ line ∈ lines, line.IsProper)
    (hsteps : (lines.flatMap Line.render).length < steps) :
    readLines steps (lines.flatMap Line.render) =
      if ∀ line ∈ lines, line.IsShallow then some lines else none := by
  induction lines generalizing steps with
  | nil => cases steps <;> rfl
  | cons line lines ih =>
      obtain ⟨hline, hlines⟩ := List.forall_mem_cons.1 h
      rw [List.flatMap_cons, List.length_append] at hsteps
      rw [List.flatMap_cons]
      simp only [List.forall_mem_cons]
      rw [← map_ite_cons]
      cases line with
      | assignment content =>
          obtain ⟨first, more, hpath, -⟩ := renderPath_head content.parents content.key
          have hlength : 0 < (Line.assignment content).render.length := by
            simp [Line.render, Assignment.render, hpath]
          cases steps with
          | zero => cases hsteps
          | succ steps =>
              have hread := readLines_assignment hline (show content.render.length ≤ steps by
                rw [Line.render] at hsteps; omega) (lines.flatMap Line.render)
              rw [Line.render, hread, ih hlines (by omega)]
      | header heading parents key =>
          -- the blank line in front of a header takes a step of its own
          have hlength : 2 ≤ (Line.header heading parents key).render.length := by
            cases heading <;> simp [Line.render]
          match steps with
          | 0 | 1 => omega
          | steps + 2 => rw [readLines_header, ih hlines (by omega)]

/-- **A proper outline reads back**, unless it goes beyond a limit of the reader. -/
theorem Outline.read?_render {outline : Outline} (h : ∀ line ∈ outline.lines, line.IsProper) :
    Outline.read? outline.render = if outline.IsShallow then some outline else none := by
  have hlines := readLines_lines h (Nat.lt_succ_self _)
  rw [← Outline.render_eq] at hlines
  rw [Outline.read?, hlines]
  simp only [Outline.isShallow_iff]
  split
  · rw [Option.map_some, Outline.ofLines_lines]
  · rfl

end Scriptorium.Settings
