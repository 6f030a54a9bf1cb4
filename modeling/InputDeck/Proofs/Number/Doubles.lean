import InputDeck.Number.Binary64

/-!
# Doubles as packed values

The arithmetic of doubles works on unpacked values: a sign, a significand and an exponent, packed
into bits again. The exact reading of a double is the reading of what it unpacks to, and a value
whose significand fills the bits of its exponent is what it was when it is unpacked again. So a
sign can be changed, and a whole number that a double holds is read as that double, without a look
at the bits.
-/

namespace InputDeck.Number

open Float.Model (Format UnpackedFloat totalExponent)
open Float.Model.UnpackedFloat

namespace Binary64

/-- A significand and an exponent as a double has them: all fifty-three bits are filled, or the
exponent is the least of all. -/
structure IsCanonical (significand : Nat) (exponent : Int) : Prop where
  /-- The significand has at most fifty-three bits. -/
  significand_lt : significand < 2 ^ 53
  /-- No exponent is less than this one. -/
  le_exponent : -1074 ≤ exponent
  /-- No exponent is greater than this one. -/
  exponent_le : exponent ≤ 971
  /-- Only numbers with the least exponent have fewer bits. -/
  filled : 2 ^ 52 ≤ significand ∨ exponent = -1074

/-- Whether a sign is the negative one. -/
def isNegativeSign : Sign → Bool
  | .negative => true
  | .positive => false

/-- The reading of an unpacked value. -/
def ofUnpacked : UnpackedFloat → Binary64
  | .notANumber => nan
  | .infinity s => infinite (isNegativeSign s)
  | .zero s => finite (isNegativeSign s) 0 (-1074)
  | .finite s significand exponent _ => finite (isNegativeSign s) significand exponent

theorem ofUnpacked_infinity (s : Sign) : ofUnpacked (.infinity s) = infinite (isNegativeSign s) :=
  rfl

theorem ofUnpacked_zero (s : Sign) : ofUnpacked (.zero s) = finite (isNegativeSign s) 0 (-1074) :=
  rfl

theorem ofUnpacked_finite (s : Sign) (significand : Nat) (exponent : Int) (h : 0 < significand) :
    ofUnpacked (.finite s significand exponent h) =
      finite (isNegativeSign s) significand exponent :=
  rfl

/-- The fraction bits of a word. -/
theorem toNat_unpackMantissa (b : BitVec 64) :
    (@unpackMantissa Format.binary64 b).toNat = b.toNat % 2 ^ 52 := by
  simp [unpackMantissa]

/-- The exponent bits of a word. -/
theorem toNat_unpackExponent (b : BitVec 64) :
    (@unpackExponent Format.binary64 b).toNat = b.toNat / 2 ^ 52 % 2 ^ 11 := by
  simp [unpackExponent, Nat.shiftRight_eq_div_pow]

/-- The sign bit of a word. -/
theorem toNat_unpackSign (b : BitVec 64) :
    (@unpackSign Format.binary64 b).toNat = b.toNat / 2 ^ 63 := by
  have hb : b.toNat < 2 ^ 64 := b.isLt
  change ((b.extractLsb 63 63).cast _).toNat = _
  simp only [BitVec.toNat_cast, BitVec.extractLsb_toNat, Nat.shiftRight_eq_div_pow]
  omega

/-- The sign of a word is read from its greatest bit. -/
theorem isNegativeSign_unpackSign (b : BitVec 64) :
    isNegativeSign (Sign.ofBitVec (@unpackSign Format.binary64 b)) = decide (2 ^ 63 ≤ b.toNat) := by
  have hb : b.toNat < 2 ^ 64 := b.isLt
  have hsign := toNat_unpackSign b
  unfold Sign.ofBitVec
  split
  · next h =>
    rw [h] at hsign
    have hzero : (0#1).toNat = 0 := rfl
    simp only [isNegativeSign, Bool.false_eq, decide_eq_false_iff_not]
    omega
  · next h =>
    have hone : (@unpackSign Format.binary64 b).toNat ≠ 0 := fun he => h (BitVec.eq_of_toNat_eq he)
    simp only [isNegativeSign, Bool.true_eq, decide_eq_true_eq]
    omega

/-- The significand of a word whose exponent bits are not all zero has one bit more. -/
theorem toNat_one_append (fraction : BitVec 52) :
    (1#1 ++ fraction).toNat = 2 ^ 52 + fraction.toNat := by
  rw [BitVec.toNat_append, ← Nat.shiftLeft_add_eq_or_of_lt fraction.isLt]
  rfl

/-- What a word unpacks to has the reading of the word. -/
theorem ofUnpacked_unpack (b : BitVec 64) :
    ofUnpacked (UnpackedFloat.unpack Format.binary64 b) = ofBits b.toNat := by
  have hf := toNat_unpackMantissa b
  have he := toNat_unpackExponent b
  have hs := isNegativeSign_unpackSign b
  unfold UnpackedFloat.unpack ofBits
  dsimp only
  have hones : @unpackExponent Format.binary64 b = -1#_ ↔ b.toNat / 2 ^ 52 % 2 ^ 11 = 2047 := by
    rw [← he, ← BitVec.toNat_inj]
    rfl
  have hzeros : @unpackExponent Format.binary64 b = 0#_ ↔ b.toNat / 2 ^ 52 % 2 ^ 11 = 0 := by
    rw [← he, ← BitVec.toNat_inj]
    rfl
  have hfraction : @unpackMantissa Format.binary64 b = 0#_ ↔ b.toNat % 2 ^ 52 = 0 := by
    rw [← hf, ← BitVec.toNat_inj]
    rfl
  by_cases hexp : b.toNat / 2 ^ 52 % 2 ^ 11 = 2047
  · rw [if_pos (hones.2 hexp), if_pos hexp]
    by_cases h : b.toNat % 2 ^ 52 = 0
    · rw [if_pos (hfraction.2 h), if_pos h, ofUnpacked_infinity, hs]
    · rw [if_neg (mt hfraction.1 h), if_neg h]
      rfl
  · rw [if_neg (mt hones.1 hexp), if_neg hexp]
    by_cases hzero : b.toNat / 2 ^ 52 % 2 ^ 11 = 0
    · rw [if_pos (hzeros.2 hzero), if_pos hzero]
      by_cases h : b.toNat % 2 ^ 52 = 0
      · rw [dif_pos (hfraction.2 h), ofUnpacked_zero, hs, h]
      · rw [dif_neg (mt hfraction.1 h), ofUnpacked_finite, hs, hf, he, hzero]
        rfl
    · rw [if_neg (mt hzeros.1 hzero), if_neg hzero, ofUnpacked_finite, hs, toNat_one_append, hf,
        he]
      congr 1

/-- The reading of a double is the reading of what it unpacks to. -/
theorem ofFloat_eq_ofUnpacked (x : Float) : ofFloat x = ofUnpacked x.toModel.unpack :=
  (ofUnpacked_unpack x.toBits.toBitVec).symm

/-- A double unpacks to a value in canonical form. -/
theorem isCanonical_of_ofFloat {x : Float} {negative : Bool} {significand : Nat} {exponent : Int}
    (h : ofFloat x = finite negative significand exponent) : IsCanonical significand exponent := by
  unfold ofFloat ofBits at h
  dsimp only at h
  split at h
  · split at h <;> simp at h
  · split at h
    · obtain ⟨-, rfl, rfl⟩ := by simpa using h
      exact ⟨by omega, by omega, by omega, .inr rfl⟩
    · obtain ⟨-, rfl, rfl⟩ := by simpa using h
      exact ⟨by omega, by omega, by omega, .inl (by omega)⟩

/-- Unpacked values with the same reading are the same. -/
theorem ofUnpacked_injective {u v : UnpackedFloat} (h : ofUnpacked u = ofUnpacked v) : u = v := by
  have hsign : ∀ s t : Sign, isNegativeSign s = isNegativeSign t → s = t := by
    intro s t
    cases s <;> cases t <;> simp [isNegativeSign]
  cases u <;> cases v
  case infinity.infinity => rw [hsign _ _ (infinite.inj h)]
  case notANumber.notANumber => rfl
  case zero.zero => rw [hsign _ _ (finite.inj h).1]
  case finite.finite =>
    obtain ⟨hs, rfl, rfl⟩ := finite.inj h
    rw [hsign _ _ hs]
  case zero.finite hpos => exact absurd hpos (by rw [← (finite.inj h).2.1]; decide)
  case finite.zero hpos _ => exact absurd hpos (by rw [(finite.inj h).2.1]; decide)
  all_goals cases h

/-- The number that a word of three parts is. -/
theorem toNat_packComponents (s : Sign) (exponent : BitVec 11) (fraction : BitVec 52) :
    (packComponents Format.binary64 s exponent fraction).toNat =
      signBit (isNegativeSign s) + exponent.toNat * 2 ^ 52 + fraction.toNat := by
  have he := exponent.isLt
  have hf := fraction.isLt
  unfold packComponents
  rw [BitVec.toNat_append, ← Nat.shiftLeft_add_eq_or_of_lt hf, BitVec.toNat_append,
    ← Nat.shiftLeft_add_eq_or_of_lt he]
  simp only [Nat.shiftLeft_eq]
  cases s
  · change (1 * 2 ^ 11 + _) * 2 ^ 52 + _ = 2 ^ 63 + _ + _
    omega
  · change (0 * 2 ^ 11 + _) * 2 ^ 52 + _ = 0 + _ + _
    omega

/-- A word of three parts is read part by part. -/
theorem ofBits_word (negative : Bool) {biased fraction : Nat} (hbiased : biased < 2047)
    (hfraction : fraction < 2 ^ 52) :
    ofBits (signBit negative + biased * 2 ^ 52 + fraction) =
      if biased = 0 then finite negative fraction (-1074)
      else finite negative (2 ^ 52 + fraction) (biased - 1075) := by
  have hsign : signBit negative = if negative then 2 ^ 63 else 0 := rfl
  have hexponent : (signBit negative + biased * 2 ^ 52 + fraction) / 2 ^ 52 % 2 ^ 11 = biased := by
    rw [hsign]
    split <;> omega
  have hrest : (signBit negative + biased * 2 ^ 52 + fraction) % 2 ^ 52 = fraction := by
    rw [hsign]
    split <;> omega
  have hnegative : decide (2 ^ 63 ≤ signBit negative + biased * 2 ^ 52 + fraction) = negative := by
    rw [hsign]
    cases negative <;> simp <;> omega
  unfold ofBits
  dsimp only
  rw [hexponent, hrest, hnegative, if_neg (by omega)]

/-- A canonical value is read back from its packed form. -/
theorem ofBits_pack (s : Sign) {significand : Nat} {exponent : Int} (hpos : 0 < significand)
    (h : IsCanonical significand exponent) :
    ofBits (UnpackedFloat.pack Format.binary64 (.finite s significand exponent hpos)).toNat =
      finite (isNegativeSign s) significand exponent := by
  obtain ⟨hlt, hle, hge, hfilled⟩ := h
  unfold UnpackedFloat.pack
  dsimp only [Format.exponentBias]
  rw [if_neg (by omega)]
  by_cases hlog : significand.log2 + 1 = Format.binary64.mantissaBits
  · have hlow : 2 ^ 52 ≤ significand := by
      rw [← (Nat.succ.inj hlog : significand.log2 = 52)]
      exact Nat.log2_self_le (by omega)
    rw [if_pos hlog, toNat_packComponents, BitVec.toNat_ofNat, BitVec.toNat_ofNat,
      ofBits_word _ (by omega) (by omega), if_neg (by omega)]
    congr 1
    · omega
    · omega
  · have hlow : significand < 2 ^ 52 := by
      apply Nat.lt_of_not_le
      intro hfull
      exact hlog (congrArg (· + 1) ((Nat.log2_eq_iff (k := 52) (by omega)).2 ⟨hfull, hlt⟩))
    obtain rfl : exponent = -1074 := hfilled.resolve_left (by omega)
    rw [if_neg hlog, toNat_packComponents, BitVec.toNat_ofNat, BitVec.toNat_ofNat,
      Nat.mod_eq_of_lt hlow]
    exact ofBits_word _ (by decide) hlow

/-- A canonical value is what it was when it is unpacked again. -/
theorem unpack_pack (s : Sign) {significand : Nat} {exponent : Int} (hpos : 0 < significand)
    (h : IsCanonical significand exponent) :
    (Float.Model.pack (.finite s significand exponent hpos)).unpack =
      .finite s significand exponent hpos := by
  apply ofUnpacked_injective
  rw [Float.Model.unpack, ofUnpacked_unpack]
  exact ofBits_pack s hpos h

@[simp] theorem unpack_pack_zero (s : Sign) : (Float.Model.pack (.zero s)).unpack = .zero s := by
  cases s <;> rfl

@[simp] theorem unpack_pack_infinity (s : Sign) :
    (Float.Model.pack (.infinity s)).unpack = .infinity s := by
  cases s <;> rfl

/-- Doubles with the same reading are the same, if they are numbers. -/
theorem ofFloat_injective {x y : Float} (h : ofFloat x = ofFloat y) (hnan : ofFloat x ≠ nan) :
    x = y := by
  have hx : x.toBits.toNat < 2 ^ 64 := x.toBits.toNat_lt
  have hy : y.toBits.toNat < 2 ^ 64 := y.toBits.toNat_lt
  have hbits : x.toBits.toNat = y.toBits.toNat := by
    rw [← toBits_ofBits hx hnan, ← toBits_ofBits hy fun he => hnan (h.trans he)]
    exact congrArg toBits h
  obtain ⟨⟨bits, _⟩⟩ := x
  obtain ⟨⟨_, _⟩⟩ := y
  obtain rfl := UInt64.toNat_inj.1 hbits
  rfl

/-- A number with the other sign. -/
def negated : Binary64 → Binary64
  | nan => nan
  | infinite negative => infinite !negative
  | finite negative significand exponent => finite (!negative) significand exponent

/-- A number without its sign. -/
def magnitude : Binary64 → Binary64
  | nan => nan
  | infinite _ => infinite false
  | finite _ significand exponent => finite false significand exponent

@[simp] theorem isNegativeSign_neg (s : Sign) : isNegativeSign (-s) = !isNegativeSign s := by
  cases s <;> rfl

/-- What a double unpacks to is packed without a loss. -/
theorem unpack_cases (x : Float) :
    (∃ s, x.toModel.unpack = .infinity s) ∨ x.toModel.unpack = .notANumber ∨
      (∃ s, x.toModel.unpack = .zero s) ∨
      ∃ s significand exponent h, x.toModel.unpack = .finite s significand exponent h ∧
        IsCanonical significand exponent := by
  cases h : x.toModel.unpack with
  | infinity s => exact .inl ⟨s, rfl⟩
  | notANumber => exact .inr (.inl rfl)
  | zero s => exact .inr (.inr (.inl ⟨s, rfl⟩))
  | finite s significand exponent hpos =>
    refine .inr (.inr (.inr ⟨s, significand, exponent, hpos, rfl, ?_⟩))
    refine isCanonical_of_ofFloat (?_ : ofFloat x = finite (isNegativeSign s) _ _)
    rw [ofFloat_eq_ofUnpacked, h]
    rfl

/-- A minus sign in front of a number changes its sign and nothing else. -/
theorem ofFloat_neg (x : Float) : ofFloat (-x) = (ofFloat x).negated := by
  have hneg : (-x).toModel = Float.Model.pack x.toModel.unpack.neg := rfl
  rw [ofFloat_eq_ofUnpacked, ofFloat_eq_ofUnpacked, hneg]
  rcases unpack_cases x with ⟨s, h⟩ | h | ⟨s, h⟩ | ⟨s, m, e, hpos, h, hcanonical⟩
  · rw [h]
    change ofUnpacked (Float.Model.pack (.infinity (-s))).unpack = infinite !isNegativeSign s
    rw [unpack_pack_infinity, ofUnpacked_infinity, isNegativeSign_neg]
  · rw [h]
    rfl
  · rw [h]
    change ofUnpacked (Float.Model.pack (.zero (-s))).unpack = finite (!isNegativeSign s) 0 (-1074)
    rw [unpack_pack_zero, ofUnpacked_zero, isNegativeSign_neg]
  · rw [h]
    change ofUnpacked (Float.Model.pack (.finite (-s) m e hpos)).unpack =
      finite (!isNegativeSign s) m e
    rw [unpack_pack _ _ hcanonical, ofUnpacked_finite, isNegativeSign_neg]

/-- The magnitude of a number has no sign. -/
theorem ofFloat_abs (x : Float) : ofFloat x.abs = (ofFloat x).magnitude := by
  have habs : x.abs.toModel = Float.Model.pack x.toModel.unpack.abs := rfl
  rw [ofFloat_eq_ofUnpacked, ofFloat_eq_ofUnpacked, habs]
  rcases unpack_cases x with ⟨s, h⟩ | h | ⟨s, h⟩ | ⟨s, m, e, hpos, h, hcanonical⟩
  · rw [h]
    change ofUnpacked (Float.Model.pack (.infinity .positive)).unpack = infinite false
    rw [unpack_pack_infinity]
    rfl
  · rw [h]
    rfl
  · rw [h]
    change ofUnpacked (Float.Model.pack (.zero .positive)).unpack = finite false 0 (-1074)
    rw [unpack_pack_zero]
    rfl
  · rw [h]
    change ofUnpacked (Float.Model.pack (.finite .positive m e hpos)).unpack = finite false m e
    rw [unpack_pack _ _ hcanonical]
    rfl

/-- A power of two in the significand counts like one in the exponent. -/
theorem totalExponent_mul_two_pow {significand : Nat} (hpos : 0 < significand) (exponent : Int)
    (shift : Nat) : totalExponent (significand * 2 ^ shift) (exponent - shift) =
      totalExponent significand exponent := by
  have hlog : (significand * 2 ^ shift).log2 = significand.log2 + shift := by
    rw [Nat.log2_eq_iff (Nat.ne_of_gt (Nat.mul_pos hpos (Nat.two_pow_pos shift)))]
    constructor
    · rw [Nat.pow_add]
      exact Nat.mul_le_mul_right _ (Nat.log2_self_le (by omega))
    · rw [Nat.add_right_comm, Nat.pow_add]
      exact Nat.mul_lt_mul_of_pos_right Nat.lt_log2_self (Nat.two_pow_pos shift)
  unfold totalExponent
  rw [hlog]
  omega

/-- The exponent at which a canonical value is rounded is the one it has. -/
theorem targetExponent_eq {significand : Nat} {exponent : Int} (hpos : 0 < significand)
    (h : IsCanonical significand exponent) :
    Format.binary64.targetExponent (totalExponent significand exponent) = exponent := by
  obtain ⟨hlt, hle, -, hfilled⟩ := h
  have hupper : significand.log2 < 53 := (Nat.log2_lt (by omega)).2 hlt
  have hlower : 52 ≤ significand.log2 ∨ exponent = -1074 :=
    hfilled.imp (Nat.le_log2 (by omega)).2 id
  have hbits : Format.binary64.mantissaBits = 53 := rfl
  have hleast : Format.binary64.minExponent = -1074 := rfl
  unfold Format.targetExponent totalExponent
  rw [hbits, hleast]
  omega

/-- Shifting a multiple of a power of two loses no bit. -/
theorem shiftRight_mul_two_pow (significand shift : Nat) :
    (ExtendedMantissa.mk (significand * 2 ^ shift) false false >>> shift) =
      ExtendedMantissa.mk significand false false := by
  change Nat.repeat ExtendedMantissa.shiftRightOne shift _ = _
  induction shift generalizing significand with
  | zero => simp [Nat.repeat]
  | succ shift ih =>
    rw [Nat.repeat, Nat.pow_succ', ← Nat.mul_assoc, ih]
    simp [ExtendedMantissa.shiftRightOne]

/-- A value that a double holds is shifted to its significand without a loss. -/
theorem shiftToTargetExponent_exact {significand : Nat} {exponent : Int} (hpos : 0 < significand)
    (h : IsCanonical significand exponent) (shift : Nat) :
    shiftToTargetExponent Format.binary64 (significand * 2 ^ shift) (exponent - shift) .exact =
      (⟨significand, false, false⟩, exponent) := by
  have hshift : (exponent - (exponent - (shift : Int))).toNat = shift := by omega
  unfold shiftToTargetExponent shiftToExponent
  simp only [totalExponent_mul_two_pow hpos, targetExponent_eq hpos h, hshift,
    ExtendedMantissa.ofMantissaAndAccuracy, shiftRight_mul_two_pow]
  rw [Int.sub_add_cancel]

/-- A value that a double holds is rounded to itself. -/
theorem roundWithAccuracy_exact (s : Sign) {significand : Nat} {exponent : Int}
    (hpos : 0 < significand) (h : IsCanonical significand exponent) (shift : Nat) :
    roundWithAccuracy Format.binary64 s (significand * 2 ^ shift) (exponent - shift) .exact =
      .finite s significand exponent hpos := by
  have hagain : shiftToTargetExponent Format.binary64 significand exponent .exact =
      (⟨significand, false, false⟩, exponent) := by
    simpa using shiftToTargetExponent_exact hpos h 0
  unfold roundWithAccuracy
  rw [shiftToTargetExponent_exact hpos h]
  dsimp only [ExtendedMantissa.roundedMantissa, ExtendedMantissa.accuracy,
    Accuracy.roundToNearestEven]
  rw [hagain]
  dsimp only
  rw [dif_neg (by omega)]

/-- A whole number that a double holds is that double. -/
theorem unpacked_ofNat {n : Nat} (places : Nat) (hn : 0 < n) (hpos : 0 < n * 2 ^ places)
    (h : IsCanonical (n * 2 ^ places) (0 - places)) :
    UnpackedFloat.ofNat Format.binary64 n =
      .finite .positive (n * 2 ^ places) (0 - places) hpos := by
  have htarget : Format.binary64.targetExponent (totalExponent n 0) = 0 - places := by
    rw [← totalExponent_mul_two_pow hn, targetExponent_eq hpos h]
  have hcompare : compare (n : Int) 0 = .gt := by
    rw [Int.compare_eq_gt]
    omega
  have hshift : (0 - (0 - (places : Int))).toNat = places := by omega
  unfold UnpackedFloat.ofNat UnpackedFloat.ofInt UnpackedFloat.normalize
  rw [hcompare]
  dsimp only
  unfold UnpackedFloat.round
  rw [Int.toNat_natCast, htarget]
  unfold decreaseExponent
  dsimp only
  rw [Nat.shiftLeft_eq, hshift]
  have hexact := roundWithAccuracy_exact .positive hpos h 0
  rwa [Nat.pow_zero, Nat.mul_one, Int.natCast_zero, Int.sub_zero] at hexact

/-- A canonical value is the reading of the double that it is packed into. -/
theorem ofFloat_pack {s : Sign} {significand : Nat} {exponent : Int} (hpos : 0 < significand)
    (h : IsCanonical significand exponent) :
    ofFloat (.ofModel (.pack (.finite s significand exponent hpos))) =
      finite (isNegativeSign s) significand exponent := by
  rw [ofFloat_eq_ofUnpacked, unpack_pack s hpos h]
  rfl

/-- A whole number below the limit is converted and multiplied by one. -/
theorem ofScientific_of_lt {n : Nat} (hn : n < 2 ^ 53) :
    Float.ofScientific n false 0 = .ofModel (.pack (UnpackedFloat.mul Format.binary64
      (Float.Model.pack (UnpackedFloat.ofNat Format.binary64 n)).unpack
      (.finite .positive (2 ^ 52) (-52) (by decide)))) := by
  have hword : n.toUInt64.toNat = n := by
    rw [Nat.toUInt64_eq, UInt64.toNat_ofNat', Nat.mod_eq_of_lt (by omega)]
  have hone : (Float.ofBits 0x3FF0000000000000).toModel.unpack =
      .finite .positive (2 ^ 52) (-52) (by decide) := by rfl
  unfold Float.ofScientific
  rw [dif_pos ⟨hn, by decide⟩, if_neg (by decide), ← hone]
  conv => rhs; rw [← hword]
  rfl

/-- A whole number from the limit on is multiplied by one. -/
theorem ofScientific_of_le {n : Nat} (hn : 2 ^ 53 ≤ n) :
    Float.ofScientific n false 0 = .ofModel (.pack
      (roundWithAccuracy Format.binary64 .positive (n * 2 ^ 53) (-53) .exact)) := by
  have hlarge : ¬Int.ofNat 0 < -(2 ^ 11 + (n.log2 : Int)) := by
    change ¬(0 : Int) < -(2 ^ 11 + (n.log2 : Int))
    omega
  unfold Float.ofScientific
  rw [dif_neg (by omega), if_neg (by decide)]
  unfold Float.Model.ofScientific UnpackedFloat.ofScientific
  dsimp only
  rw [dif_neg (by omega), if_neg (by decide), if_neg hlarge, if_pos (by decide)]
  have hone : (Int.ofNat 0).toNat = 0 := rfl
  unfold UnpackedFloat.mul
  dsimp only
  rw [hone, Nat.shiftLeft_eq, Nat.pow_zero, Nat.mul_one]
  rfl

/-- A positive whole number that a double holds is read as that double. -/
theorem ofFloat_ofScientific {n significand : Nat} {exponent : Int} (hn : 0 < n)
    (h : IsCanonical significand exponent)
    (hvalue : n * 2 ^ (-exponent).toNat = significand * 2 ^ exponent.toNat) :
    ofFloat (Float.ofScientific n false 0) = finite false significand exponent := by
  obtain ⟨hlt, hle, hge, hfilled⟩ := id h
  have hpos : 0 < significand := by
    apply Nat.pos_of_ne_zero
    rintro rfl
    have hleft := Nat.mul_pos hn (Nat.two_pow_pos (-exponent).toNat)
    omega
  rcases Nat.lt_or_ge n (2 ^ 53) with hsmall | hlarge
  · have hexponent : exponent ≤ 0 := by
      apply Int.not_lt.1
      intro hgt
      have hfull : 2 ^ 52 ≤ significand := hfilled.resolve_right (by omega)
      have htwo : 2 ^ 1 ≤ 2 ^ exponent.toNat := Nat.pow_le_pow_right (by decide) (by omega)
      have hproduct := Nat.mul_le_mul hfull htwo
      rw [← hvalue, (by omega : (-exponent).toNat = 0)] at hproduct
      omega
    obtain ⟨places, rfl⟩ : ∃ places : Nat, exponent = 0 - places :=
      ⟨exponent.natAbs, by omega⟩
    obtain rfl : n * 2 ^ places = significand := by
      rw [(by omega : (-(0 - (places : Int))).toNat = places),
        (by omega : (0 - (places : Int)).toNat = 0)] at hvalue
      omega
    rw [ofScientific_of_lt hsmall, unpacked_ofNat places hn hpos h, unpack_pack _ hpos h]
    unfold UnpackedFloat.mul
    dsimp only
    rw [(by omega : 0 - (places : Int) + -52 = 0 - (places : Int) - (52 : Nat)),
      roundWithAccuracy_exact _ hpos h]
    exact ofFloat_pack hpos h
  · have hexponent : 0 ≤ exponent := by
      apply Int.not_lt.1
      intro hneg
      have hone : 1 ≤ 2 ^ (-exponent).toNat := Nat.two_pow_pos _
      have hproduct := Nat.mul_le_mul hlarge hone
      rw [hvalue, (by omega : exponent.toNat = 0)] at hproduct
      omega
    have hscaled : n * 2 ^ 53 = significand * 2 ^ (exponent.toNat + 53) := by
      rw [(by omega : (-exponent).toNat = 0)] at hvalue
      rw [Nat.pow_add, ← Nat.mul_assoc, ← hvalue]
      omega
    rw [ofScientific_of_le hlarge, hscaled,
      (by omega : (-53 : Int) = exponent - (exponent.toNat + 53 : Nat)),
      roundWithAccuracy_exact _ hpos h]
    exact ofFloat_pack hpos h

@[simp] theorem whole?_magnitude (v : Binary64) : v.magnitude.whole? = v.whole? := by
  cases v <;> rfl

@[simp] theorem isNegative_magnitude (v : Binary64) : v.magnitude.isNegative = false := by
  cases v <;> rfl

/-- A positive whole number that is the value of a double is read as its magnitude. -/
theorem ofFloat_ofScientific_of_whole? {x : Float} {n : Nat} (hn : 0 < n)
    (h : (ofFloat x).whole? = some n) :
    ofFloat (Float.ofScientific n false 0) = (ofFloat x).magnitude := by
  cases hx : ofFloat x with
  | nan => simp [hx, whole?] at h
  | infinite negative => simp [hx, whole?] at h
  | finite negative significand exponent =>
    rw [hx, whole?] at h
    refine ofFloat_ofScientific hn (isCanonical_of_ofFloat hx) ?_
    split at h
    · next hexponent =>
      obtain rfl := Option.some.inj h
      rw [(by omega : (-exponent).toNat = 0), Nat.pow_zero, Nat.mul_one]
    · next hexponent =>
      split at h
      · next hmod =>
        obtain rfl := Option.some.inj h
        rw [(by omega : exponent.toNat = 0), Nat.pow_zero, Nat.mul_one]
        exact Nat.div_mul_cancel (Nat.dvd_of_mod_eq_zero hmod)
      · cases h

end Binary64

/-- The text of an index stands for the index. -/
theorem index?_ofScientific {x : Float} {index : Nat} (h : index? x = some index) :
    index? (Float.ofScientific index false 0) = some index := by
  unfold index? at h
  dsimp only at h
  split at h
  · next n hwhole =>
    split at h
    · cases h
    · obtain rfl := Option.some.inj h
      rcases Nat.eq_zero_or_pos n with rfl | hn
      · decide +kernel
      · rcases Nat.lt_or_ge n wordLimit with hsmall | hlarge
        · have hmin : min n (wordLimit - 1) = n := by omega
          rw [hmin]
          unfold index?
          simp only [Binary64.ofFloat_ofScientific_of_whole? hn hwhole, Binary64.whole?_magnitude,
            Binary64.isNegative_magnitude, hwhole, Bool.false_and]
          rw [if_neg (by decide), hmin]
        · have hmin : min n (wordLimit - 1) = 2 ^ 64 - 1 := by
            rw [wordLimit] at hlarge ⊢
            omega
          rw [hmin]
          decide +kernel
  · cases h

end InputDeck.Number
