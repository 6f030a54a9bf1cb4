/-!
# The exact value of a double

A double is not a number, an infinity, or exactly `significand · 2 ^ exponent` with a sign. All
texts, roundings and remainders of numbers are computed from this reading with exact integers.
Writing the reading back gives the double again.
-/

namespace InputDeck.Number

/-- Powers of natural numbers are the built-in ones, whatever others are known. -/
@[default_instance 20000]
instance (priority := 2000) instPowNatural : Pow Nat Nat := instPowNat

/-- What a double stands for. -/
inductive Binary64 where
  /-- Not a number. -/
  | nan
  /-- An infinity with its sign. -/
  | infinite (negative : Bool)
  /-- The number `significand · 2 ^ exponent` with its sign. -/
  | finite (negative : Bool) (significand : Nat) (exponent : Int)
  deriving DecidableEq, Repr

namespace Binary64

/-- Read the sign bit, the eleven exponent bits and the fifty-two fraction bits of a double. -/
def ofBits (bits : Nat) : Binary64 :=
  let negative := decide (2 ^ 63 ≤ bits)
  let biased : Nat := bits / 2 ^ 52 % 2 ^ 11
  let fraction := bits % 2 ^ 52
  if biased = 2047 then
    if fraction = 0 then infinite negative else nan
  else if biased = 0 then finite negative fraction (-1074)
  else finite negative (2 ^ 52 + fraction) (biased - 1075)

/-- The exact value of a double. -/
def ofFloat (x : Float) : Binary64 := ofBits x.toBits.toNat

/-- The sign bit. -/
def signBit (negative : Bool) : Nat := if negative then 2 ^ 63 else 0

/--
The exponent at which a positive significand fills the fifty-three bits of a double, or the least
exponent of all when it is too small for that.
-/
def fittedExponent (significand : Nat) (exponent : Int) : Int :=
  max (-1074) (exponent + significand.log2 - 52)

/-- A value rounded toward zero to a whole multiple of `2 ^ unit`. -/
def multiplesOf (unit : Int) (significand : Nat) (exponent : Int) : Nat :=
  if unit ≤ exponent then significand * 2 ^ (exponent - unit).toNat
  else significand / 2 ^ (unit - exponent).toNat

/-- The bits of the double that holds a value, rounded toward zero when none holds it exactly. -/
def toBits : Binary64 → Nat
  | nan => 0x7FF8000000000000
  | infinite negative => signBit negative + 2047 * 2 ^ 52
  | finite negative significand exponent =>
    let unit := fittedExponent significand exponent
    let multiples := multiplesOf unit significand exponent
    if 2 ^ 52 ≤ multiples then
      if unit + 1075 < 2047 then
        signBit negative + (unit + 1075).toNat * 2 ^ 52 + (multiples - 2 ^ 52)
      else signBit negative + 2047 * 2 ^ 52
    else signBit negative + multiples

/-- The double that holds a value, rounded toward zero when none holds it exactly. -/
def toFloat (v : Binary64) : Float := Float.ofBits (UInt64.ofNat v.toBits)

/-- The magnitude of a whole number, and nothing for any other value. -/
def whole? : Binary64 → Option Nat
  | finite _ significand exponent =>
    if 0 ≤ exponent then some (significand * 2 ^ exponent.toNat)
    else if significand % 2 ^ (-exponent).toNat = 0 then some (significand / 2 ^ (-exponent).toNat)
    else none
  | _ => none

/-- Whether the sign of a value is negative. -/
def isNegative : Binary64 → Bool
  | nan => false
  | infinite negative => negative
  | finite negative _ _ => negative

/-- A significand that fills the fifty-three bits stays as it is. -/
theorem toBits_finite_normal (negative : Bool) {fraction biased : Nat} (hf : fraction < 2 ^ 52)
    (hpos : 0 < biased) (hb : biased < 2047) :
    toBits (finite negative (2 ^ 52 + fraction) (biased - 1075)) =
      signBit negative + biased * 2 ^ 52 + fraction := by
  have hlog : (2 ^ 52 + fraction).log2 = 52 := by
    rw [Nat.log2_eq_iff (by omega)]
    omega
  have hunit : fittedExponent (2 ^ 52 + fraction) (biased - 1075) = biased - 1075 := by
    rw [fittedExponent, hlog]
    omega
  have hmul : multiplesOf (biased - 1075 : Int) (2 ^ 52 + fraction) (biased - 1075) =
      2 ^ 52 + fraction := by
    simp [multiplesOf]
  rw [toBits, hunit, hmul, if_pos (by omega), if_pos (by omega)]
  omega

/-- A significand too small to fill the fifty-three bits stays as it is at the least exponent. -/
theorem toBits_finite_subnormal (negative : Bool) {fraction : Nat} (hf : fraction < 2 ^ 52) :
    toBits (finite negative fraction (-1074)) = signBit negative + fraction := by
  have hlog : fraction.log2 < 52 := by
    rcases Nat.eq_zero_or_pos fraction with rfl | hpos
    · decide
    · exact (Nat.log2_lt (by omega)).2 hf
  have hunit : fittedExponent fraction (-1074) = -1074 := by
    rw [fittedExponent]
    omega
  have hmul : multiplesOf (-1074) fraction (-1074) = fraction := by simp [multiplesOf]
  rw [toBits, hunit, hmul, if_neg (by omega)]

/-- Writing what was read gives the bits back, except that there is one form of not a number. -/
theorem toBits_ofBits {bits : Nat} (h : bits < 2 ^ 64) (hn : ofBits bits ≠ nan) :
    toBits (ofBits bits) = bits := by
  have hsign : signBit (decide (2 ^ 63 ≤ bits)) = bits / 2 ^ 63 * 2 ^ 63 := by
    by_cases hs : 2 ^ 63 ≤ bits
    · simp only [hs, decide_true, signBit, if_true]
      omega
    · simp only [hs, decide_false, signBit]
      rw [if_neg (by simp)]
      omega
  rw [ofBits] at hn ⊢
  split at hn
  · next hb =>
    split at hn
    · next hf =>
      rw [if_pos hb, if_pos hf, toBits, hsign]
      omega
    · exact absurd rfl hn
  · next hb =>
    rw [if_neg hb]
    split
    · next h0 =>
      rw [toBits_finite_subnormal _ (by omega), hsign]
      omega
    · next h0 =>
      rw [toBits_finite_normal _ (by omega) (by omega) (by omega), hsign]
      omega

end Binary64

/-- The least number that the integers of a machine word do not reach. -/
def wordLimit : Nat := 2 ^ 64

/--
The index that a number stands for: whole numbers from zero on are indices, those beyond the
machine word count as its last number, and nothing else is an index.
-/
def index? (x : Float) : Option Nat :=
  let v := Binary64.ofFloat x
  match v.whole? with
  | some n => if v.isNegative && n != 0 then none else some (min n (wordLimit - 1))
  | none => none

end InputDeck.Number
