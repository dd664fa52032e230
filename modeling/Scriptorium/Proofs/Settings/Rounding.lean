import Mathlib.Tactic.Ring
import Scriptorium.Settings.Binary64

/-!
# Decimals that read back

The shortest decimal of a float reads back to that float. The search for it only accepts what does,
so all that is left is the decimal that closes the search: it is the float itself, and rounding
moves no number that is a float already.

Zeros at the end of a decimal may be written or left out, because a quotient does not change when
both of its sides are multiplied by one number.
-/

namespace Scriptorium.Settings.Binary64

variable {num den factor magnitude : Nat}

theorem two_pow_pos (n : Nat) : 0 < Nat.pow 2 n :=
  Nat.pow_pos (by decide)

theorem five_pow_pos (n : Nat) : 0 < Nat.pow 5 n :=
  Nat.pow_pos (by decide)

/-! ### Rounding quotients -/

theorem roundQuotient_mul (hfactor : 0 < factor) (num den : Nat) :
    roundQuotient (num * factor) (den * factor) = roundQuotient num den := by
  have hdiv : num * factor / (den * factor) = num / den := Nat.mul_div_mul_right _ _ hfactor
  have hmod : num * factor % (den * factor) = num % den * factor := Nat.mul_mod_mul_right ..
  have hlt : 2 * (num % den * factor) < den * factor ↔ 2 * (num % den) < den := by
    rw [← Nat.mul_assoc]
    exact Nat.mul_lt_mul_right hfactor
  have heq : 2 * (num % den * factor) = den * factor ↔ 2 * (num % den) = den := by
    rw [← Nat.mul_assoc]
    exact Nat.mul_left_inj (Nat.ne_of_gt hfactor)
  simp only [roundQuotient, hdiv, hmod, hlt, heq]

theorem roundScaled_mul (hfactor : 0 < factor) (num den : Nat) :
    roundScaled (num * factor) (den * factor) = roundScaled num den := by
  have hdiv : num * factor / (den * factor) = num / den := Nat.mul_div_mul_right _ _ hfactor
  have hround (binade : Nat) : roundQuotient (num * factor) (den * factor * Nat.pow 2 binade) =
      roundQuotient num (den * Nat.pow 2 binade) := by
    rw [Nat.mul_right_comm]
    exact roundQuotient_mul hfactor _ _
  simp only [roundScaled, hdiv, hround]

theorem roundQuotient_of_dvd (hden : 0 < den) (quotient : Nat) :
    roundQuotient (quotient * den) den = quotient := by
  rw [roundQuotient, Nat.mul_mod_left, Nat.mul_div_left _ hden]
  exact if_pos hden

/-! ### Magnitudes round to themselves -/

theorem scaled_pos (h : magnitude ≠ 0) : 0 < scaled magnitude := by
  have hbinade : binade magnitude * Nat.pow 2 52 < magnitude := by
    simp only [binade, Nat.pow_eq]
    omega
  exact Nat.mul_pos (Nat.sub_pos_of_lt hbinade) (two_pow_pos _)

theorem log2_scaled_sub (h : magnitude ≠ 0) :
    Nat.log2 (scaled magnitude) - 52 = binade magnitude := by
  have hne : scaled magnitude ≠ 0 := Nat.ne_of_gt (scaled_pos h)
  by_cases hsmall : magnitude < Nat.pow 2 53
  -- the first two binades hold the numbers themselves
  · have hbinade : binade magnitude = 0 := by
      simp only [binade, Nat.pow_eq] at hsmall ⊢
      omega
    have hscaled : scaled magnitude = magnitude := by
      simp [scaled, hbinade]
    have hlog : Nat.log2 magnitude < 53 := (Nat.log2_lt h).2 hsmall
    rw [hscaled, hbinade]
    omega
  · have hlow : 2 ^ 52 ≤ magnitude - binade magnitude * Nat.pow 2 52 := by
      simp only [binade, Nat.pow_eq] at hsmall ⊢
      omega
    have hhigh : magnitude - binade magnitude * Nat.pow 2 52 < 2 ^ 53 := by
      simp only [binade, Nat.pow_eq] at hsmall ⊢
      omega
    have hlog : Nat.log2 (scaled magnitude) = 52 + binade magnitude := by
      rw [Nat.log2_eq_iff hne]
      constructor
      · rw [Nat.pow_add]
        exact Nat.mul_le_mul_right _ hlow
      · rw [Nat.add_right_comm, Nat.pow_add]
        exact Nat.mul_lt_mul_of_pos_right hhigh (two_pow_pos _)
    rw [hlog, Nat.add_sub_cancel_left]

theorem roundScaled_scaled (h : magnitude ≠ 0) : roundScaled (scaled magnitude) 1 = magnitude := by
  have hle : binade magnitude * Nat.pow 2 52 ≤ magnitude := by
    simp only [binade, Nat.pow_eq]
    omega
  rw [roundScaled, Nat.div_one, log2_scaled_sub h, Nat.one_mul, scaled,
    roundQuotient_of_dvd (two_pow_pos _), Nat.add_sub_cancel' hle]

/-! A magnitude is a multiple of the least positive one, so its exact decimal ends at the last place
that this one has. -/

theorem exact_pos (h : magnitude ≠ 0) (places : Nat) :
    0 < scaled magnitude * Nat.pow 5 places :=
  Nat.mul_pos (scaled_pos h) (five_pow_pos places)

theorem le_log2_exact (h : magnitude ≠ 0) (places : Nat) :
    places ≤ Nat.log2 (scaled magnitude * Nat.pow 5 places) := by
  rw [Nat.le_log2 (Nat.ne_of_gt (exact_pos h places))]
  calc
    2 ^ places ≤ 5 ^ places := Nat.pow_le_pow_left (by decide) _
    _ ≤ scaled magnitude * Nat.pow 5 places := Nat.le_mul_of_pos_left _ (scaled_pos h)

theorem roundScaled_exact (h : magnitude ≠ 0) (places : Nat) :
    roundScaled (scaled magnitude * Nat.pow 5 places * Nat.pow 2 places) (Nat.pow 10 places) =
      magnitude := by
  have hten : Nat.pow 10 places = 1 * (Nat.pow 5 places * Nat.pow 2 places) := by
    rw [Nat.one_mul]
    exact Nat.mul_pow 5 2 places
  have hpos : 0 < Nat.pow 5 places * Nat.pow 2 places :=
    Nat.mul_pos (five_pow_pos places) (two_pow_pos places)
  rw [hten, Nat.mul_assoc, roundScaled_mul hpos, roundScaled_scaled h]

/-- A decimal is not told to be zero by its exponent if it has enough digits. -/
theorem roundDecimal_of_le_log2 {digits places : Nat} (hplaces : 0 < places) (hpos : 0 < digits)
    (hlog : places ≤ Nat.log2 digits) :
    roundDecimal digits (-places) =
      roundScaled (digits * Nat.pow 2 1074) (Nat.pow 10 places) := by
  have hnear : ¬ (digits = 0 ∨ (-places : Int) < -(400 + Nat.log2 digits : Nat)) := by
    omega
  have hneg : ¬ (0 : Int) ≤ -places := by
    omega
  unfold roundDecimal
  simp only [if_neg hnear, if_neg hneg, if_neg (show ¬ (400 : Int) < -places by omega), neg_neg,
    Int.toNat_natCast]

theorem roundDecimal_exact (h : magnitude ≠ 0) {places : Nat} (hplaces : places = 1074) :
    roundDecimal (scaled magnitude * Nat.pow 5 places) (-places) = magnitude := by
  have hpos : 0 < places := by omega
  rw [roundDecimal_of_le_log2 hpos (exact_pos h places) (le_log2_exact h places), ← hplaces]
  exact roundScaled_exact h places

/-! ### The search -/

theorem roundDecimal_of_nearestMultiple? {exponent : Int} {digits : Nat}
    (h : nearestMultiple? magnitude exponent = some digits) :
    roundDecimal digits exponent = magnitude := by
  -- whichever neighbour is tried first, the answer is one that reads back
  have htried (near far : Nat)
      (h : (if roundDecimal near exponent == magnitude then some near
        else if roundDecimal far exponent == magnitude then some far else none) = some digits) :
      roundDecimal digits exponent = magnitude := by
    split at h
    · next hback =>
        rw [← Option.some.inj h]
        simpa using hback
    · split at h
      · next hback =>
          rw [← Option.some.inj h]
          simpa using hback
      · cases h
  exact htried _ _ h

theorem roundDecimal_of_searchDecimal {start exponent : Int} {steps digits : Nat}
    (h : searchDecimal magnitude start steps = some (digits, exponent)) :
    roundDecimal digits exponent = magnitude := by
  induction steps generalizing start with
  | zero => cases h
  | succ steps ih =>
      rw [searchDecimal] at h
      split at h
      · next hnearest =>
          cases h
          exact roundDecimal_of_nearestMultiple? hnearest
      · exact ih h

theorem roundDecimal_shortestDecimal (magnitude : Nat) :
    roundDecimal (shortestDecimal magnitude).1 (shortestDecimal magnitude).2 = magnitude := by
  unfold shortestDecimal
  split
  · next h => simp [roundDecimal, h]
  · next h =>
      cases hsearch : searchDecimal magnitude (exponentAbove magnitude) 20 with
      | none => exact roundDecimal_exact h rfl
      | some decimal => exact roundDecimal_of_searchDecimal hsearch

/-- Zero is the only float whose digits are zero, and it has no exponent. -/
theorem digits_pos_or_exponent_eq (magnitude : Nat) :
    0 < (shortestDecimal magnitude).1 ∨ (shortestDecimal magnitude).2 = 0 := by
  by_cases h : magnitude = 0
  · exact .inr (by rw [shortestDecimal, if_pos h])
  · left
    by_contra hzero
    have hback := roundDecimal_shortestDecimal magnitude
    rw [Nat.eq_zero_of_not_pos hzero] at hback
    exact h (by simpa [roundDecimal] using hback.symm)

/-! ### Zeros at the end -/

/-- A decimal that stands for a finite float may have its exponent written out as zeros, with one
more behind the point. -/
theorem roundDecimal_padded {digits : Nat} {exponent : Int} (hexponent : 0 ≤ exponent)
    (hfinite : roundDecimal digits exponent < magnitudeCount) :
    roundDecimal (digits * 10 ^ (exponent.toNat + 1)) (-1) = roundDecimal digits exponent := by
  by_cases hdigits : digits = 0
  · simp [roundDecimal, hdigits]
  · have hpadded : digits * 10 ^ (exponent.toNat + 1) ≠ 0 :=
      Nat.mul_ne_zero hdigits (Nat.ne_of_gt (Nat.pow_pos (by decide)))
    have hnear : ¬ (digits = 0 ∨ exponent < -(400 + Nat.log2 digits : Nat)) := by
      omega
    have hnear' : ¬ (digits * 10 ^ (exponent.toNat + 1) = 0 ∨
        (-1 : Int) < -(400 + Nat.log2 (digits * 10 ^ (exponent.toNat + 1)) : Nat)) := by
      omega
    have hle : ¬ 400 < exponent := by
      intro hlt
      rw [roundDecimal, if_neg hnear, if_pos hlt] at hfinite
      exact Nat.lt_irrefl _ hfinite
    rw [roundDecimal, roundDecimal, if_neg hnear, if_neg hnear', if_neg hle, if_pos hexponent,
      if_neg (by decide), if_neg (by decide)]
    change roundScaled (digits * 10 ^ (exponent.toNat + 1) * Nat.pow 2 1074) (Nat.pow 10 1) =
      roundScaled (digits * Nat.pow 10 exponent.toNat * Nat.pow 2 1074) 1
    have hnum : digits * 10 ^ (exponent.toNat + 1) * Nat.pow 2 1074 =
        digits * Nat.pow 10 exponent.toNat * Nat.pow 2 1074 * 10 := by
      generalize Nat.pow 2 1074 = power
      simp only [Nat.pow_eq]
      ring
    rw [hnum]
    exact roundScaled_mul (by decide) _ 1

end Scriptorium.Settings.Binary64
