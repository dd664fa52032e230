import Mathlib.Tactic.ByContra
import Scriptorium.Proofs.Document.Extent
import Scriptorium.Proofs.Lines.Positions
import Scriptorium.Proofs.Text.Characters

/-!
# The lines of a text

The line starts cut a text into its lines. Joined, they are the text again, and each but the last
ends with a terminator and has none before it. The starts are found by a scan that takes one byte at
a time, or two for a carriage return and a line feed, but where they lie is said byte by byte. From
one start to the next no line ends in between, so the bytes there are no terminators, except that a
carriage return may stand in front of the line feed at the end.
-/

namespace Scriptorium

/-- A text within one line. -/
def Unbroken (text : String) : Prop :=
  '\n' ∉ text.toList ∧ '\r' ∉ text.toList

/-- A line in front of a text that starts with the next one. A carriage return alone is its
terminator only if the text does not go on with a line feed. -/
def Terminated (line rest : String) : Prop :=
  ∃ body terminator, line = body ++ terminator ∧ Unbroken body ∧
    (terminator = "\n" ∨ terminator = "\r\n" ∨
      terminator = "\r" ∧ rest.toList.head? ≠ some '\n')

/-- Texts that are the lines of what they join to. -/
def AreLines : List String → Prop
  | [] => False
  | [last] => Unbroken last
  | line :: next :: rest =>
      Terminated line (String.join (next :: rest)) ∧ AreLines (next :: rest)

namespace LineTable

/-- The spans between consecutive starts, and from the last one to an end. -/
def spansBetween : List Nat → Nat → List Span
  | [], _ => []
  | [start], stop => [⟨start, stop⟩]
  | start :: next :: rest, stop => ⟨start, next⟩ :: spansBetween (next :: rest) stop

def spans (table : LineTable) : List Span :=
  spansBetween table.starts table.size

theorem length_spansBetween (starts : List Nat) (stop : Nat) :
    (spansBetween starts stop).length = starts.length := by
  fun_induction spansBetween starts stop with
  | case1 stop => rfl
  | case2 start stop => rfl
  | case3 start next rest stop ih => rw [List.length_cons, ih, ← List.length_cons]

end LineTable

variable {bytes : List UInt8} {text : String} {i p start next stop : Nat} {rest : List Nat}

/-! ### Bytes at which no line ends -/

/-- If no line ends between two offsets, the bytes between them are no terminators, unless a
carriage return and a line feed meet at the second one. -/
theorem no_terminator (hends : ∀ k, start ≤ k → k < stop → ¬ EndsLine bytes k)
    (hstop : bytes[stop]? = some lineFeed → start < stop →
      bytes[stop - 1]? ≠ some carriageReturn) {k : Nat} (hstart : start ≤ k) (hk : k < stop) :
    bytes[k]? ≠ some lineFeed ∧ bytes[k]? ≠ some carriageReturn := by
  refine ⟨fun hlf => hends k hstart hk (.inl hlf), fun hcr => ?_⟩
  have hnext : bytes[k + 1]? = some lineFeed := by
    by_contra hnot
    exact hends k hstart hk (.inr ⟨hcr, hnot⟩)
  rcases Nat.lt_or_eq_of_le (Nat.succ_le_of_lt hk) with hlt | rfl
  · exact hends (k + 1) (Nat.le_succ_of_le hstart) hlt (.inl hnext)
  · exact hstop hnext (Nat.lt_of_le_of_lt hstart hk) hcr

theorem unbroken_slice (hfits : Text.Fits text ⟨start, stop⟩)
    (hends : ∀ k, start ≤ k → k < stop → ¬ EndsLine (Text.bytes text) k)
    (hstop : (Text.bytes text)[stop]? = some lineFeed → start < stop →
      (Text.bytes text)[stop - 1]? ≠ some carriageReturn) :
    Unbroken (Text.slice text ⟨start, stop⟩) := by
  constructor
  · intro hmem
    obtain ⟨k, hstart, hk, hlf⟩ := Text.exists_getElem?_of_mem_slice hfits rfl hmem
    exact (no_terminator hends hstop hstart hk).1 hlf
  · intro hmem
    obtain ⟨k, hstart, hk, hcr⟩ := Text.exists_getElem?_of_mem_slice hfits rfl hmem
    exact (no_terminator hends hstop hstart hk).2 hcr

theorem EndsLine.isBoundary (h : EndsLine (Text.bytes text) i) :
    Text.IsBoundary text i ∧ Text.IsBoundary text (i + 1) := by
  rcases h with hlf | ⟨hcr, -⟩
  · obtain ⟨hfront, hback, -⟩ := Text.slice_of_ascii "\n" rfl (by decide) hlf
    exact ⟨hfront, hback⟩
  · obtain ⟨hfront, hback, -⟩ := Text.slice_of_ascii "\r" rfl (by decide) hcr
    exact ⟨hfront, hback⟩

theorem isBoundary_of_mem_starts (h : p ∈ (LineTable.ofText text).starts) :
    Text.IsBoundary text p := by
  rcases mem_starts_iff.1 h with rfl | ⟨i, hends, rfl⟩
  · exact Text.isBoundary_zero text
  · exact hends.isBoundary.2

/-! ### One line -/

/-- The rest of a text does not start with a line feed unless there is one. -/
theorem head_part_ne (hboundary : Text.IsBoundary text start)
    (h : (Text.bytes text)[start]? ≠ some lineFeed) :
    (Text.part text start (Text.size text)).toList.head? ≠ some '\n' := by
  intro hhead
  obtain ⟨chars, hchars⟩ := List.head?_eq_some_iff.1 hhead
  have hbytes := Text.bytes_eq_flatMap (Text.part text start (Text.size text))
  rw [hchars, List.flatMap_cons, Text.bytes_part hboundary (Text.isBoundary_size text),
    List.take_of_length_le (Nat.le_of_eq (Text.length_bytes text))] at hbytes
  have hfirst := congrArg (·[0]?) hbytes
  simp only [List.getElem?_drop, Nat.add_zero] at hfirst
  exact h hfirst

/-- Up to where a line ends for the first time is one line of the text. -/
theorem terminated_slice (hboundary : Text.IsBoundary text start) (hle : start ≤ i)
    (hend : EndsLine (Text.bytes text) i)
    (hends : ∀ k, start ≤ k → k < i → ¬ EndsLine (Text.bytes text) k) :
    Terminated (Text.slice text ⟨start, i + 1⟩)
      (Text.part text (i + 1) (Text.size text)) := by
  obtain ⟨hfront, hback⟩ := hend.isBoundary
  have hfits : Text.Fits text ⟨start, i⟩ := ⟨hle, hfront.le_size, hboundary, hfront⟩
  rcases hend with hlf | ⟨hcr, hnext⟩
  · have hline := Text.slice_succ_of_ascii "\n" rfl (by decide) hlf hboundary hle
    by_cases hpair : start < i ∧ (Text.bytes text)[i - 1]? = some carriageReturn
    · -- the line feed belongs to the carriage return in front of it
      obtain ⟨hlt, hcr⟩ := hpair
      obtain ⟨j, rfl⟩ := Nat.exists_eq_add_one.2 (Nat.zero_lt_of_lt hlt)
      rw [Nat.add_sub_cancel] at hcr
      have hle' : start ≤ j := Nat.le_of_lt_succ hlt
      have hbefore := (Text.slice_of_ascii "\r" rfl (by decide) hcr).1
      have hreturn := Text.slice_succ_of_ascii "\r" rfl (by decide) hcr hboundary hle'
      refine ⟨Text.slice text ⟨start, j⟩, "\r\n", ?_, ?_, .inr (.inl rfl)⟩
      · rw [hline, hreturn, String.append_assoc]
        rfl
      · apply unbroken_slice ⟨hle', hbefore.le_size, hboundary, hbefore⟩
        · intro k hstart hk
          exact hends k hstart (Nat.lt_succ_of_lt hk)
        · intro hlf
          rw [hcr] at hlf
          exact absurd hlf (by decide)
    · refine ⟨Text.slice text ⟨start, i⟩, "\n", hline, ?_, .inl rfl⟩
      apply unbroken_slice hfits hends
      intro _ hlt hcr
      exact hpair ⟨hlt, hcr⟩
  · have hline := Text.slice_succ_of_ascii "\r" rfl (by decide) hcr hboundary hle
    refine ⟨Text.slice text ⟨start, i⟩, "\r", hline, ?_,
      .inr (.inr ⟨rfl, head_part_ne hback hnext⟩)⟩
    apply unbroken_slice hfits hends
    intro hlf
    rw [hcr] at hlf
    exact absurd hlf (by decide)

/-! ### All lines -/

/-- From a start on, the lines of a text start at the given offsets. -/
structure StartsFrom (text : String) (start : Nat) (rest : List Nat) : Prop where
  sorted : (start :: rest).Pairwise (· < ·)
  mem_iff : ∀ i, start ≤ i → (EndsLine (Text.bytes text) i ↔ i + 1 ∈ rest)
  boundary : Text.IsBoundary text start

theorem startsFrom_zero (text : String) : StartsFrom text 0 (lineBreaks 0 (Text.bytes text)) := by
  refine ⟨LineTable.pairwise_starts text, fun i _ => ?_, Text.isBoundary_zero text⟩
  rw [mem_lineBreaks_iff]
  simp

/-- The next start lies behind the first byte with which a line ends. -/
theorem StartsFrom.exists_end (h : StartsFrom text start (next :: rest)) :
    ∃ i, next = i + 1 ∧ start ≤ i ∧ EndsLine (Text.bytes text) i ∧
      ∀ k, start ≤ k → k < i → ¬ EndsLine (Text.bytes text) k := by
  obtain ⟨hfirst, hrest⟩ := List.pairwise_cons.1 h.sorted
  have hlt := hfirst next List.mem_cons_self
  obtain ⟨i, rfl⟩ := Nat.exists_eq_add_one.2 (Nat.zero_lt_of_lt hlt)
  have hle : start ≤ i := Nat.le_of_lt_succ hlt
  refine ⟨i, rfl, hle, (h.mem_iff i hle).2 List.mem_cons_self, fun k hstart hk hend => ?_⟩
  rcases List.mem_cons.1 ((h.mem_iff k hstart).1 hend) with hsame | hmem
  · omega
  · have := (List.pairwise_cons.1 hrest).1 (k + 1) hmem
    omega

theorem StartsFrom.tail (h : StartsFrom text start (next :: rest)) :
    StartsFrom text next rest := by
  obtain ⟨hfirst, hrest⟩ := List.pairwise_cons.1 h.sorted
  have hlt := hfirst next List.mem_cons_self
  obtain ⟨j, rfl, -, hend, -⟩ := h.exists_end
  refine ⟨hrest, fun i hi => ?_, hend.isBoundary.2⟩
  rw [h.mem_iff i (by omega), List.mem_cons]
  constructor
  · rintro (hsame | hmem)
    · omega
    · exact hmem
  · exact .inr

theorem StartsFrom.fits_spans (h : StartsFrom text start rest) :
    ∀ span ∈ LineTable.spansBetween (start :: rest) (Text.size text), Text.Fits text span := by
  induction rest generalizing start with
  | nil =>
      intro span hspan
      obtain rfl := List.mem_singleton.1 hspan
      exact ⟨h.boundary.le_size, Nat.le_refl _, h.boundary, Text.isBoundary_size text⟩
  | cons next rest ih =>
      intro span hspan
      rcases List.mem_cons.1 hspan with rfl | hspan
      · have hnext := h.tail.boundary
        have hlt := (List.pairwise_cons.1 h.sorted).1 next List.mem_cons_self
        exact ⟨Nat.le_of_lt hlt, hnext.le_size, h.boundary, hnext⟩
      · exact ih h.tail span hspan

theorem StartsFrom.join_slices (h : StartsFrom text start rest) :
    String.join ((LineTable.spansBetween (start :: rest) (Text.size text)).map
      (Text.slice text)) = Text.part text start (Text.size text) := by
  induction rest generalizing start with
  | nil => simp [LineTable.spansBetween, Text.slice]
  | cons next rest ih =>
      have hnext := h.tail.boundary
      have hlt := (List.pairwise_cons.1 h.sorted).1 next List.mem_cons_self
      rw [LineTable.spansBetween, List.map_cons, String.join_cons, ih h.tail]
      exact Text.part_append h.boundary hnext (Text.isBoundary_size text) (Nat.le_of_lt hlt)
        hnext.le_size

theorem StartsFrom.areLines (h : StartsFrom text start rest) :
    AreLines ((LineTable.spansBetween (start :: rest) (Text.size text)).map
      (Text.slice text)) := by
  induction rest generalizing start with
  | nil =>
      have hfits := h.fits_spans ⟨start, Text.size text⟩ List.mem_cons_self
      apply unbroken_slice hfits
      · intro k hstart _ hend
        exact absurd ((h.mem_iff k hstart).1 hend) List.not_mem_nil
      · intro hlf
        rw [List.getElem?_eq_none (Nat.le_of_eq (Text.length_bytes text))] at hlf
        cases hlf
  | cons next rest ih =>
      obtain ⟨i, rfl, hle, hend, hends⟩ := h.exists_end
      have hline := terminated_slice h.boundary hle hend hends
      rw [← h.tail.join_slices] at hline
      have hrest := ih h.tail
      -- whatever the next starts are, there is a next line
      cases rest with
      | nil => exact ⟨hline, hrest⟩
      | cons second rest => exact ⟨hline, hrest⟩

namespace Document

theorem mapM_slice_eq_ok {document : Document} {spans : List Span}
    (h : ∀ span ∈ spans, Text.Fits document.text span) :
    spans.mapM document.slice = .ok (spans.map (Text.slice document.text)) := by
  induction spans with
  | nil => rfl
  | cons span spans ih =>
      obtain ⟨hspan, hspans⟩ := List.forall_mem_cons.1 h
      rw [List.mapM_cons, slice_eq_ok hspan, ih hspans]
      rfl

/-- The starts of lines are in order, begin with the start of the text, and otherwise lie behind the
bytes with which a line ends. A slice can start and end at each of them. The slices from one to the
next join to the text, and each but the last has its only terminator at its end. -/
theorem lines_divide (document : Document) :
    let table := LineTable.ofText document.text
    table.starts.Pairwise (· < ·) ∧ table.starts.head? = some 0 ∧
      (∀ p, 0 < p → (p ∈ table.starts ↔ p ≤ document.size ∧
        ((Text.bytes document.text)[p - 1]? = some lineFeed ∨
          (Text.bytes document.text)[p - 1]? = some carriageReturn ∧
            (Text.bytes document.text)[p]? ≠ some lineFeed))) ∧
      (∀ p ∈ table.starts, Text.IsBoundary document.text p ∧
        ∀ q, Text.IsBoundary document.text q →
          (p ≤ q → document.slice ⟨p, q⟩ = .ok (Text.slice document.text ⟨p, q⟩)) ∧
          (q ≤ p → document.slice ⟨q, p⟩ = .ok (Text.slice document.text ⟨q, p⟩))) ∧
      ∃ lines, table.spans.mapM document.slice = .ok lines ∧ lines.length = table.lineCount ∧
        String.join lines = document.text ∧ AreLines lines := by
  intro table
  have hstarts := startsFrom_zero document.text
  refine ⟨LineTable.pairwise_starts document.text, rfl, ?_, ?_, ?_⟩
  · intro p hp
    obtain ⟨i, rfl⟩ := Nat.exists_eq_add_one.2 hp
    rw [succ_mem_starts_iff, Nat.add_sub_cancel]
    refine (and_iff_right_of_imp fun hend => ?_).symm
    have := hend.lt_length
    rwa [Text.length_bytes] at this
  · intro p hp
    have hboundary := isBoundary_of_mem_starts hp
    refine ⟨hboundary, fun q hq => ⟨fun hle => ?_, fun hle => ?_⟩⟩
    · exact slice_eq_ok ⟨hle, hq.le_size, hboundary, hq⟩
    · exact slice_eq_ok ⟨hle, hboundary.le_size, hq, hboundary⟩
  · refine ⟨_, mapM_slice_eq_ok hstarts.fits_spans, ?_, ?_, hstarts.areLines⟩
    · rw [List.length_map]
      exact LineTable.length_spansBetween _ _
    · exact hstarts.join_slices.trans (Text.part_zero_size document.text)

/-- Of two carriage returns in front of a line feed, the first ends a line of its own. A line can
also start with a line feed, and an empty one ends the text. -/
theorem lines_divide_returns :
    let document := new "f" "ñ\r\r\n\n€\r" none
    (3 ∈ (LineTable.ofText document.text).starts ↔ 3 ≤ document.size ∧
      ((Text.bytes document.text)[2]? = some lineFeed ∨
        (Text.bytes document.text)[2]? = some carriageReturn ∧
          (Text.bytes document.text)[3]? ≠ some lineFeed)) ∧
      3 ∈ (LineTable.ofText document.text).starts ∧
      document.slice ⟨3, 6⟩ = .ok (Text.slice document.text ⟨3, 6⟩) ∧
      ∃ lines, (LineTable.ofText document.text).spans.mapM document.slice = .ok lines ∧
        lines.length = 5 ∧ String.join lines = document.text ∧ AreLines lines := by
  intro document
  have hstart : 3 ∈ (LineTable.ofText document.text).starts := by decide
  have hstart' : 6 ∈ (LineTable.ofText document.text).starts := by decide
  obtain ⟨-, -, hmem, hslice, hlines⟩ := lines_divide document
  have hboundary := (hslice 6 hstart').1
  exact ⟨hmem 3 (by decide), hstart, ((hslice 3 hstart).2 6 hboundary).1 (by decide), hlines⟩

end Document

end Scriptorium
