import Mathlib.Tactic.ByContra
import Scriptorium.Lines
import Scriptorium.Proofs.Text.Agreement

/-!
# Where lines start

A line starts at the beginning of a text and behind every byte with which a line ends. Whether one
ends with a byte can be told from that byte and the next: a carriage return does not end the line if
a line feed follows, which then ends it. So where two texts have the same bytes they have the same
line starts, except at the edge of what they share, where the next byte may be another one.
-/

namespace Scriptorium

/-- A line ends with the byte at an index. -/
def EndsLine (bytes : List UInt8) (i : Nat) : Prop :=
  bytes[i]? = some lineFeed ∨ bytes[i]? = some carriageReturn ∧ bytes[i + 1]? ≠ some lineFeed

variable {bytes rest : List UInt8} {byte : UInt8} {i offset p : Nat}

theorem endsLine_zero_cons :
    EndsLine (byte :: rest) 0 ↔
      byte = lineFeed ∨ byte = carriageReturn ∧ rest[0]? ≠ some lineFeed := by
  simp [EndsLine]

theorem endsLine_succ_cons : EndsLine (byte :: rest) (i + 1) ↔ EndsLine rest i := by
  simp [EndsLine]

/-- A line ends with the first byte, or with one after it. -/
theorem exists_endsLine_cons :
    (∃ i, EndsLine (byte :: rest) i ∧ p = offset + i + 1) ↔
      EndsLine (byte :: rest) 0 ∧ p = offset + 1 ∨
        ∃ i, EndsLine rest i ∧ p = offset + 1 + i + 1 := by
  rw [← Nat.or_exists_add_one]
  have hmove : ∀ i, offset + (i + 1) + 1 = offset + 1 + i + 1 := by omega
  simp only [endsLine_succ_cons, hmove, Nat.add_zero]

theorem mem_lineBreaks_iff :
    p ∈ lineBreaks offset bytes ↔ ∃ i, EndsLine bytes i ∧ p = offset + i + 1 := by
  fun_induction lineBreaks offset bytes with
  | case1 offset => simp [EndsLine]
  | case2 offset rest ih =>
      -- the line feed ends the line, so the carriage return in front of it does not
      have hfirst : ¬ EndsLine (13 :: 10 :: rest) 0 := by
        rw [endsLine_zero_cons]
        rintro (hlf | ⟨-, hnext⟩)
        · exact absurd hlf (by decide)
        · exact hnext rfl
      have hsecond : EndsLine (10 :: rest) 0 := endsLine_zero_cons.2 (.inl rfl)
      rw [exists_endsLine_cons, exists_endsLine_cons, List.mem_cons, ih]
      simp only [hfirst, hsecond, false_and, true_and, false_or]
  | case3 offset byte rest hpair hends ih =>
      have hfirst : EndsLine (byte :: rest) 0 := by
        rw [endsLine_zero_cons]
        rcases hends with rfl | hlf
        · refine .inr ⟨rfl, fun hnext => ?_⟩
          cases rest with
          | nil => cases hnext
          | cons next rest => exact hpair rest rfl (by rw [Option.some.inj hnext])
        · exact .inl hlf
      rw [exists_endsLine_cons, List.mem_cons, ih]
      simp only [hfirst, true_and]
  | case4 offset byte rest hpair hends ih =>
      have hfirst : ¬ EndsLine (byte :: rest) 0 := by
        rw [endsLine_zero_cons]
        rintro (hlf | ⟨hcr, -⟩)
        · exact hends (.inr hlf)
        · exact hends (.inl hcr)
      rw [exists_endsLine_cons, ih]
      simp only [hfirst, false_and, false_or]

theorem mem_starts_iff {text : String} :
    p ∈ (LineTable.ofText text).starts ↔ p = 0 ∨ ∃ i, EndsLine (Text.bytes text) i ∧ p = i + 1 := by
  simp only [LineTable.ofText, List.mem_cons, mem_lineBreaks_iff, Nat.zero_add]

theorem succ_mem_starts_iff {text : String} :
    i + 1 ∈ (LineTable.ofText text).starts ↔ EndsLine (Text.bytes text) i := by
  simp [mem_starts_iff, eq_comm]

theorem EndsLine.lt_length (h : EndsLine bytes i) : i < bytes.length := by
  by_contra hnot
  have hnone : bytes[i]? = none := List.getElem?_eq_none (Nat.le_of_not_lt hnot)
  rcases h with hlf | ⟨hcr, -⟩
  · rw [hnone] at hlf
    cases hlf
  · rw [hnone] at hcr
    cases hcr

theorem le_size_of_mem_starts {text : String} (h : p ∈ (LineTable.ofText text).starts) :
    p ≤ Text.size text := by
  rcases mem_starts_iff.1 h with rfl | ⟨i, hends, rfl⟩
  · exact Nat.zero_le _
  · have := hends.lt_length
    rw [Text.length_bytes] at this
    exact this

/-! ### Line starts of texts that share bytes -/

variable {front back : Nat} {s t : String}

theorem EndsLine.congr {other : List UInt8} {j : Nat} (h : bytes[i]? = other[j]?)
    (hnext : bytes[i + 1]? = other[j + 1]?) : EndsLine bytes i ↔ EndsLine other j := by
  unfold EndsLine
  rw [h, hnext]

namespace Text.Agree

theorem mem_starts_front (h : Agree front back (Text.bytes s) (Text.bytes t)) (hp : p < front) :
    p ∈ (LineTable.ofText s).starts ↔ p ∈ (LineTable.ofText t).starts := by
  cases p with
  | zero => simp [mem_starts_iff]
  | succ i =>
      rw [succ_mem_starts_iff, succ_mem_starts_iff]
      exact EndsLine.congr (h.getElem?_front (Nat.lt_of_succ_lt hp)) (h.getElem?_front hp)

theorem mem_starts_back (h : Agree front back (Text.bytes s) (Text.bytes t)) (k : Nat) :
    size s - back + k + 1 ∈ (LineTable.ofText s).starts ↔
      size t - back + k + 1 ∈ (LineTable.ofText t).starts := by
  have hbyte := h.getElem?_back k
  have hnext := h.getElem?_back (k + 1)
  rw [length_bytes, length_bytes] at hbyte hnext
  rw [succ_mem_starts_iff, succ_mem_starts_iff]
  exact EndsLine.congr hbyte hnext

end Text.Agree

end Scriptorium
