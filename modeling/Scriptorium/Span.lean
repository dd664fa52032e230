/-!
# Spans

A span is a half-open interval of byte offsets. Nothing forces its end to lie after its start: an
inverted span is a value like any other and counts as empty. It is refused only where it meets a
text, or where a batch of edits is put in order.
-/

namespace Scriptorium

/-- The number of 64-bit words: no offset reaches it. -/
abbrev wordCount : Nat := Nat.pow 2 64

/-- The byte offsets from `start` up to but excluding `stop`. -/
structure Span where
  start : Nat
  stop : Nat
deriving DecidableEq, Repr, Inhabited

namespace Span

def point (offset : Nat) : Span :=
  ⟨offset, offset⟩

/-- The number of bytes covered, which is zero for an inverted span. -/
def length (span : Span) : Nat :=
  span.stop - span.start

def isEmpty (span : Span) : Bool :=
  span.length == 0

/-- One span contains another when neither end of the inner one sticks out. -/
def Contains (outer inner : Span) : Prop :=
  outer.start ≤ inner.start ∧ inner.stop ≤ outer.stop

instance (outer inner : Span) : Decidable (outer.Contains inner) :=
  inferInstanceAs (Decidable (_ ∧ _))

def bounds (span : Span) : Nat × Nat :=
  (span.start, span.stop)

def ofBounds (bounds : Nat × Nat) : Span :=
  ⟨bounds.1, bounds.2⟩

/-- Spans are ordered by start, then by end. -/
def le (a b : Span) : Bool :=
  a.start < b.start || (a.start == b.start && a.stop ≤ b.stop)

def describe (span : Span) : String :=
  "Span \x7b start: " ++ toString span.start ++ ", end: " ++ toString span.stop ++ " \x7d"

@[simp] theorem length_mk (start stop : Nat) : length ⟨start, stop⟩ = stop - start := rfl

@[simp] theorem point_start (offset : Nat) : (point offset).start = offset := rfl

@[simp] theorem point_stop (offset : Nat) : (point offset).stop = offset := rfl

end Span

end Scriptorium
