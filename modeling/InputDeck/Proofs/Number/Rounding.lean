import InputDeck.Number.Decimal
import InputDeck.Proofs.Number.Doubles
import Mathlib.Data.Nat.Dist

/-!
# Whole numbers read as doubles

A whole number that is written in a text is read as the double nearest to it, a tie as the one with
the even significand. So a number of more than fifty-three bits is rounded to a multiple of the
power of two that leaves fifty-three, and an index that is written so stands for what is left.
-/

namespace InputDeck.Number

open Float.Model (Format UnpackedFloat totalExponent)
open Float.Model.UnpackedFloat

/-- The whole number that is held by the double nearest to a whole number. -/
def nearestHeld (n : Nat) : Nat :=
  let unit := 2 ^ (n.log2 - 52)
  Decimal.roundedQuotient n unit * unit

/-- The index that a whole number stands for when it is written. -/
def heldIndex (n : Nat) : Nat := min (nearestHeld n) (wordLimit - 1)

namespace Decimal

/-- A number is not rounded to a multiple of one. -/
@[simp] theorem roundedQuotient_one (n : Nat) : roundedQuotient n 1 = n := by
  simp [roundedQuotient, Nat.mod_one]

/-- A common factor does not matter for the rounded quotient. -/
theorem roundedQuotient_mul_right (numerator denominator : Nat) {factor : Nat}
    (h : 0 < factor) :
    roundedQuotient (numerator * factor) (denominator * factor) =
      roundedQuotient numerator denominator := by
  unfold roundedQuotient
  dsimp only
  rw [Nat.mul_div_mul_right _ _ h, Nat.mul_mod_mul_right, ← Nat.mul_assoc]
  simp only [Nat.mul_lt_mul_right h, Nat.mul_left_inj (Nat.ne_of_gt h)]

/-- A quotient is rounded to itself or the next number. -/
theorem roundedQuotient_bounds (numerator denominator : Nat) :
    numerator / denominator ≤ roundedQuotient numerator denominator ∧
      roundedQuotient numerator denominator ≤ numerator / denominator + 1 := by
  unfold roundedQuotient
  dsimp only
  split <;> omega

/-- No multiple is nearer to a number than its rounded quotient is. -/
theorem dist_roundedQuotient_le (numerator : Nat) {denominator : Nat} (h : 0 < denominator)
    (count : Nat) : Nat.dist numerator (roundedQuotient numerator denominator * denominator) ≤
      Nat.dist numerator (count * denominator) := by
  obtain ⟨hbelow, habove⟩ := @roundedQuotient_close numerator denominator h
  generalize roundedQuotient numerator denominator = rounded at hbelow habove ⊢
  unfold Nat.dist
  rcases Nat.lt_trichotomy count rounded with hlt | rfl | hlt
  · have := Nat.mul_le_mul_right denominator (Nat.succ_le_of_lt hlt)
    rw [Nat.succ_mul] at this
    omega
  · exact Nat.le_refl _
  · have := Nat.mul_le_mul_right denominator (Nat.succ_le_of_lt hlt)
    rw [Nat.succ_mul] at this
    omega

end Decimal

/-- A number of at most fifty-three bits is held. -/
theorem nearestHeld_of_lt {n : Nat} (h : n < 2 ^ 53) : nearestHeld n = n := by
  have hlog : n.log2 - 52 = 0 := by
    rcases Nat.eq_zero_or_pos n with rfl | hpos
    · rfl
    · have := (Nat.log2_lt (k := 53) (by omega)).2 h
      omega
  unfold nearestHeld
  dsimp only
  rw [hlog, Nat.pow_zero, Decimal.roundedQuotient_one, Nat.mul_one]

/-- A number of more bits is rounded to a multiple that leaves fifty-three of them. -/
theorem nearestHeld_of_log2 {n places : Nat} (h : n.log2 = places + 52) :
    nearestHeld n = Decimal.roundedQuotient n (2 ^ places) * 2 ^ places := by
  unfold nearestHeld
  dsimp only
  rw [h, Nat.add_sub_cancel]

namespace Binary64

/-- What a double holds has at most fifty-three bits and zeros behind them. -/
theorem exists_of_whole? {x : Float} {m : Nat} (h : (ofFloat x).whole? = some m) :
    ∃ significand places, significand < 2 ^ 53 ∧ m = significand * 2 ^ places := by
  cases hx : ofFloat x with
  | nan => simp [hx, whole?] at h
  | infinite negative => simp [hx, whole?] at h
  | finite negative significand exponent =>
    have hsignificand := (isCanonical_of_ofFloat hx).significand_lt
    rw [hx, whole?] at h
    split at h
    · exact ⟨significand, _, hsignificand, (Option.some.inj h).symm⟩
    · split at h
      · obtain rfl := Option.some.inj h
        exact ⟨_, 0, Nat.lt_of_le_of_lt (Nat.div_le_self _ _) hsignificand, (Nat.mul_one _).symm⟩
      · cases h

/-- No double holds a whole number that is nearer. -/
theorem dist_nearestHeld_le {x : Float} {m : Nat} (h : (ofFloat x).whole? = some m) (n : Nat) :
    Nat.dist n (nearestHeld n) ≤ Nat.dist n m := by
  rcases Nat.lt_or_ge n (2 ^ 53) with hsmall | hlarge
  · rw [nearestHeld_of_lt hsmall, Nat.dist_self]
    exact Nat.zero_le _
  have hlog : 53 ≤ n.log2 := (Nat.le_log2 (by omega)).2 hlarge
  obtain ⟨places, hplaces⟩ : ∃ places, n.log2 = places + 52 := ⟨n.log2 - 52, by omega⟩
  obtain ⟨significand, shift, hsignificand, rfl⟩ := exists_of_whole? h
  rw [nearestHeld_of_log2 hplaces]
  rcases Nat.lt_or_ge shift places with hlt | hge
  · -- The number has fewer bits, so the least one with as many is between them.
    have hbelow : 2 ^ 52 * 2 ^ places ≤ n := by
      rw [← Nat.pow_add, Nat.add_comm, ← hplaces]
      exact Nat.log2_self_le (by omega)
    have hfewer : significand * 2 ^ shift ≤ 2 ^ 52 * 2 ^ places :=
      calc significand * 2 ^ shift ≤ 2 ^ 53 * 2 ^ shift := Nat.mul_le_mul_right _ hsignificand.le
        _ = 2 ^ 52 * 2 ^ (shift + 1) := by
          rw [← Nat.pow_add, ← Nat.pow_add, (by omega : 53 + shift = 52 + (shift + 1))]
        _ ≤ 2 ^ 52 * 2 ^ places := Nat.mul_le_mul_left _ (Nat.pow_le_pow_right (by decide) hlt)
    refine (Decimal.dist_roundedQuotient_le n (Nat.two_pow_pos places) (2 ^ 52)).trans ?_
    unfold Nat.dist
    omega
  · have hmultiple : significand * 2 ^ shift =
        significand * 2 ^ (shift - places) * 2 ^ places := by
      rw [Nat.mul_assoc, ← Nat.pow_add, Nat.sub_add_cancel hge]
    rw [hmultiple]
    exact Decimal.dist_roundedQuotient_le n (Nat.two_pow_pos places) _

/-! ## One shift -/

/-- A shifted significand keeps the last bit it lost and whether it lost another one. -/
theorem shiftRight_succ (n shift : Nat) :
    (ExtendedMantissa.mk n false false >>> (shift + 1)) =
      ExtendedMantissa.mk (n / 2 ^ (shift + 1)) (n / 2 ^ shift % 2 != 0) (n % 2 ^ shift != 0) := by
  change Nat.repeat ExtendedMantissa.shiftRightOne (shift + 1) _ = _
  induction shift with
  | zero => simp [Nat.repeat, ExtendedMantissa.shiftRightOne, Nat.mod_one]
  | succ shift ih =>
    have hlost : (n % 2 ^ (shift + 1) != 0) = (n / 2 ^ shift % 2 != 0 || n % 2 ^ shift != 0) := by
      have hpos := Nat.two_pow_pos shift
      rw [Nat.mod_pow_succ, Bool.eq_iff_iff]
      simp only [Bool.or_eq_true, bne_iff_ne, ne_eq, Nat.add_eq_zero_iff, Nat.mul_eq_zero]
      omega
    rw [Nat.repeat, ih, hlost]
    unfold ExtendedMantissa.shiftRightOne
    dsimp only
    rw [Nat.div_div_eq_div_mul, ← Nat.pow_succ]

/-- A shifted significand is rounded to the nearest one, a tie to the even one. -/
theorem roundedMantissa_shiftRight (n shift : Nat) :
    (ExtendedMantissa.mk n false false >>> shift).roundedMantissa =
      Decimal.roundedQuotient n (2 ^ shift) := by
  cases shift with
  | zero => simp [Nat.repeat, HShiftRight.hShiftRight, ExtendedMantissa.roundedMantissa,
      ExtendedMantissa.accuracy, Accuracy.roundToNearestEven]
  | succ shift =>
    have hrest : n % 2 ^ (shift + 1) = n % 2 ^ shift + 2 ^ shift * (n / 2 ^ shift % 2) :=
      Nat.mod_pow_succ
    have hlow : n % 2 ^ shift < 2 ^ shift := Nat.mod_lt _ (Nat.two_pow_pos shift)
    have htwice : 2 ^ (shift + 1) = 2 * 2 ^ shift := Nat.pow_succ'
    rw [shiftRight_succ]
    unfold Decimal.roundedQuotient
    dsimp only
    rw [hrest]
    generalize n / 2 ^ (shift + 1) = quotient
    rw [htwice]
    rcases Nat.mod_two_eq_zero_or_one (n / 2 ^ shift) with hbit | hbit
    · rw [hbit, if_pos (.inl (by omega))]
      cases n % 2 ^ shift != 0 <;> rfl
    · rw [hbit]
      by_cases hsticky : n % 2 ^ shift = 0
      · rw [hsticky]
        change quotient + quotient % 2 = _
        split <;> omega
      · have hlost : (n % 2 ^ shift != 0) = true := by simpa using hsticky
        rw [if_neg (by omega), hlost]
        rfl

/-- A whole number is read from a significand that is shifted to the left. -/
theorem whole?_of_nonneg (significand places : Nat) {exponent : Int} (h : exponent = places) :
    (finite false significand exponent).whole? = some (significand * 2 ^ places) := by
  unfold whole?
  dsimp only
  rw [if_pos (by omega), (by omega : exponent.toNat = places)]

/-- A whole number is read from its multiple with the negative exponent. -/
theorem whole?_mul_two_pow (n places : Nat) :
    (finite false (n * 2 ^ places) (-places)).whole? = some n := by
  unfold whole?
  dsimp only
  rcases Nat.eq_zero_or_pos places with rfl | hplaces
  · rw [if_pos (by omega)]
    simp
  · rw [if_neg (by omega), (by omega : (-(-(places : Int))).toNat = places), Nat.mul_mod_left,
      if_pos rfl, Nat.mul_div_cancel _ (Nat.two_pow_pos places)]

/-! ## Two shifts -/

/-- A significand of more bits is shifted to fifty-three of them and rounded. -/
theorem roundWithAccuracy_of_roundedQuotient (s : Sign) {n places significand more : Nat}
    {exponent : Int} (hn : n.log2 = places + 52) (hpos : 0 < significand)
    (h : IsCanonical significand exponent) (hexponent : exponent = places + more)
    (hrounded : Decimal.roundedQuotient n (2 ^ places) = significand * 2 ^ more) :
    roundWithAccuracy Format.binary64 s (n * 2 ^ 53) (-53) .exact =
      .finite s significand exponent hpos := by
  have hn0 : 0 < n := by
    apply Nat.pos_of_ne_zero
    rintro rfl
    simp at hn
  have htarget : Format.binary64.targetExponent (totalExponent (n * 2 ^ 53) (-53)) = places := by
    have htotal := totalExponent_mul_two_pow hn0 0 53
    change totalExponent (n * 2 ^ 53) (-53) = _ at htotal
    have hbits : Format.binary64.mantissaBits = 53 := rfl
    have hleast : Format.binary64.minExponent = -1074 := rfl
    rw [htotal]
    unfold Format.targetExponent totalExponent
    rw [hbits, hleast, hn]
    omega
  have hshift : ((places : Int) - -53).toNat = places + 53 := by omega
  have hfirst : shiftToTargetExponent Format.binary64 (n * 2 ^ 53) (-53) .exact =
      (ExtendedMantissa.mk (n * 2 ^ 53) false false >>> (places + 53), (places : Int)) := by
    unfold shiftToTargetExponent shiftToExponent
    dsimp only
    rw [htarget, hshift]
    congr 1
    omega
  have hmantissa : (ExtendedMantissa.mk (n * 2 ^ 53) false false >>>
      (places + 53)).roundedMantissa = significand * 2 ^ more := by
    rw [roundedMantissa_shiftRight, Nat.pow_add,
      Decimal.roundedQuotient_mul_right _ _ (Nat.two_pow_pos 53), hrounded]
  have hsecond := shiftToTargetExponent_exact hpos h more
  rw [hexponent, Int.add_sub_cancel] at hsecond
  unfold roundWithAccuracy
  rw [hfirst]
  dsimp only
  rw [hmantissa, hsecond]
  dsimp only
  rw [dif_neg (by omega)]
  subst hexponent
  rfl

/-- A positive whole number of at most fifty-three bits is read as itself. -/
theorem exists_ofFloat_of_lt {n : Nat} (hpos : 0 < n) (hn : n < 2 ^ 53) :
    ∃ significand exponent,
      ofFloat (Float.ofScientific n false 0) = finite false significand exponent ∧
        (finite false significand exponent).whole? = some n := by
  have hlow : 2 ^ n.log2 ≤ n := Nat.log2_self_le (by omega)
  have hhigh : n < 2 ^ (n.log2 + 1) := Nat.lt_log2_self
  have hlog : n.log2 < 53 := (Nat.log2_lt (by omega)).2 hn
  obtain ⟨places, hplaces⟩ : ∃ places, n.log2 + places = 52 := ⟨52 - n.log2, by omega⟩
  have hcanonical : IsCanonical (n * 2 ^ places) (-places) := by
    refine ⟨?_, by omega, by omega, .inl ?_⟩
    · calc n * 2 ^ places < 2 ^ (n.log2 + 1) * 2 ^ places :=
            Nat.mul_lt_mul_of_pos_right hhigh (Nat.two_pow_pos places)
        _ = 2 ^ 53 := by rw [← Nat.pow_add, Nat.add_right_comm, hplaces]
    · calc 2 ^ 52 = 2 ^ n.log2 * 2 ^ places := by rw [← Nat.pow_add, hplaces]
        _ ≤ n * 2 ^ places := Nat.mul_le_mul_right _ hlow
  refine ⟨n * 2 ^ places, -places, ofFloat_ofScientific hpos hcanonical ?_,
    whole?_mul_two_pow n places⟩
  rw [(by omega : (-(-(places : Int))).toNat = places),
    (by omega : (-(places : Int)).toNat = 0), Nat.pow_zero, Nat.mul_one]

/-- A number of more bits has fifty-three in front of the ones that are rounded. -/
theorem div_two_pow_bounds {n places : Nat} (hn : 0 < n) (h : n.log2 = places + 52) :
    2 ^ 52 ≤ n / 2 ^ places ∧ n / 2 ^ places < 2 ^ 53 := by
  have hlow : 2 ^ n.log2 ≤ n := Nat.log2_self_le (by omega)
  have hhigh : n < 2 ^ (n.log2 + 1) := Nat.lt_log2_self
  rw [h] at hlow hhigh
  constructor
  · rw [Nat.le_div_iff_mul_le (Nat.two_pow_pos places), ← Nat.pow_add, Nat.add_comm]
    exact hlow
  · rw [Nat.div_lt_iff_lt_mul (Nat.two_pow_pos places), ← Nat.pow_add, Nat.add_comm]
    exact hhigh

/-- A whole number of more bits is read as the nearest one that a double holds. -/
theorem exists_ofFloat_of_le {n : Nat} (hlarge : 2 ^ 53 ≤ n) (hn : n < wordLimit) :
    ∃ significand exponent,
      ofFloat (Float.ofScientific n false 0) = finite false significand exponent ∧
        (finite false significand exponent).whole? = some (nearestHeld n) := by
  have hlog : 53 ≤ n.log2 := (Nat.le_log2 (by omega)).2 hlarge
  have hword : n.log2 < 64 := (Nat.log2_lt (by omega)).2 hn
  obtain ⟨places, hplaces⟩ : ∃ places, n.log2 = places + 52 := ⟨n.log2 - 52, by omega⟩
  have hquotient := div_two_pow_bounds (by omega) hplaces
  have hbounds := Decimal.roundedQuotient_bounds n (2 ^ places)
  have hread : ∀ (significand more : Nat) (exponent : Int), 0 < significand →
      IsCanonical significand exponent → exponent = places + more →
      Decimal.roundedQuotient n (2 ^ places) = significand * 2 ^ more →
      ofFloat (Float.ofScientific n false 0) = finite false significand exponent := by
    intro significand more exponent hs hcanonical hexponent hrounded
    rw [ofScientific_of_le hlarge,
      roundWithAccuracy_of_roundedQuotient .positive hplaces hs hcanonical hexponent hrounded]
    exact ofFloat_pack hs hcanonical
  rw [nearestHeld_of_log2 hplaces]
  rcases Nat.lt_or_ge (Decimal.roundedQuotient n (2 ^ places)) (2 ^ 53) with hfits | hcarry
  · exact ⟨_, places, hread _ 0 places (by omega) ⟨hfits, by omega, by omega, .inl (by omega)⟩
      (by omega) (by rw [Nat.pow_zero, Nat.mul_one]), whole?_of_nonneg _ places rfl⟩
  · -- The rounding carries into one bit more, and the second shift takes it away again.
    have hfull : Decimal.roundedQuotient n (2 ^ places) = 2 ^ 52 * 2 ^ 1 := by omega
    refine ⟨2 ^ 52, (places : Int) + 1, hread _ 1 _ (by decide)
      ⟨by decide, by omega, by omega, .inl (Nat.le_refl _)⟩ rfl hfull, ?_⟩
    rw [hfull, Nat.mul_assoc, ← Nat.pow_add, Nat.add_comm 1 places]
    exact whole?_of_nonneg _ (places + 1) (by omega)

/-- A positive whole number that a machine word holds is read as the nearest whole number that a
double holds. -/
theorem exists_ofFloat_ofScientific {n : Nat} (hpos : 0 < n) (hn : n < wordLimit) :
    ∃ significand exponent,
      ofFloat (Float.ofScientific n false 0) = finite false significand exponent ∧
        (finite false significand exponent).whole? = some (nearestHeld n) := by
  rcases Nat.lt_or_ge n (2 ^ 53) with hsmall | hlarge
  · rw [nearestHeld_of_lt hsmall]
    exact exists_ofFloat_of_lt hpos hsmall
  · exact exists_ofFloat_of_le hlarge hn

end Binary64

/-- A whole number that a machine word holds is read as the nearest one that a double holds. -/
theorem whole?_ofScientific_of_lt {n : Nat} (hn : n < wordLimit) :
    (Binary64.ofFloat (Float.ofScientific n false 0)).whole? = some (nearestHeld n) := by
  rcases Nat.eq_zero_or_pos n with rfl | hpos
  · decide +kernel
  · obtain ⟨significand, exponent, hfloat, hwhole⟩ := Binary64.exists_ofFloat_ofScientific hpos hn
    rw [hfloat, hwhole]

/-- A written index stands for the nearest one that a double holds, or for the last one of all. -/
theorem index?_ofScientific_of_lt {n : Nat} (hn : n < wordLimit) :
    index? (Float.ofScientific n false 0) = some (heldIndex n) := by
  rcases Nat.eq_zero_or_pos n with rfl | hpos
  · decide +kernel
  · obtain ⟨significand, exponent, hfloat, hwhole⟩ := Binary64.exists_ofFloat_ofScientific hpos hn
    unfold index? heldIndex
    dsimp only
    rw [hfloat, hwhole]
    rfl

/-- A written index stands for itself exactly when a double stands for it. -/
theorem heldIndex_eq_self_iff {n : Nat} (hn : n < wordLimit) :
    heldIndex n = n ↔ ∃ x, index? x = some n := by
  constructor
  · intro h
    exact ⟨_, (index?_ofScientific_of_lt hn).trans (congrArg some h)⟩
  · rintro ⟨x, hx⟩
    have hread := index?_ofScientific hx
    rw [index?_ofScientific_of_lt hn] at hread
    exact Option.some.inj hread

/-- All indices of at most fifty-three bits, and the next one, stand for themselves. -/
theorem heldIndex_of_le {n : Nat} (hn : n ≤ 2 ^ 53) : heldIndex n = n := by
  rcases Nat.lt_or_eq_of_le hn with hlt | rfl
  · rw [heldIndex, nearestHeld_of_lt hlt, wordLimit]
    omega
  · decide +kernel

end InputDeck.Number
