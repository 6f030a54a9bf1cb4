import InputDeck.Proofs.Expr.Reading
import InputDeck.Store.DeckText

/-!
# Reading written values

The text of a value in a deck is read as that value: texts and truth values as they are, numbers as
equal numbers. What is not a number and the infinities come back from the quotients they are written
as, and the negative zero as zero. Of a number in scientific form this needs that its digits are a
numeral of it; with any number of decimals they are at least a numeral of some number.
-/

namespace InputDeck

open InputDeck.Text InputDeck.Number

namespace Number

/-- Whether a number is written in scientific form. -/
def isScientific (x : Float) : Bool :=
  match Binary64.ofFloat x with
  | .finite negative significand exponent =>
    ((Binary64.finite negative significand exponent).whole?.all fun n => decide (integralLimit ≤ n))
  | _ => false

/-- The scientific text of a number without its sign is a numeral of it. -/
def ReadsBack (x : Float) : Prop :=
  isScientific x = true → numeral? (deckText none x.abs).toList = some x.abs

instance (x : Float) : Decidable (ReadsBack x) := inferInstanceAs (Decidable (_ → _))

/-- Whether two numbers are equal, or neither is a number. -/
def Same (x y : Float) : Prop := (x == y) = true ∨ x.isNaN = true ∧ y.isNaN = true

/-- Every double that is a number equals itself. -/
theorem beq_self {x : Float} (h : Binary64.ofFloat x ≠ .nan) : (x == x) = true := by
  have hcompare : ∀ u : Float.Model.UnpackedFloat, u ≠ .notANumber → u.beq u = true := by
    intro u hu
    cases u with
    | notANumber => exact absurd rfl hu
    | infinity s => cases s <;> rfl
    | zero s => cases s <;> rfl
    | finite s m e hm =>
      have horder : (compare e e).then (compare m m) = .eq := by simp
      cases s with
      | positive =>
        change (some ((compare e e).then (compare m m)) == some .eq) = true
        rw [horder]
        rfl
      | negative =>
        change (some ((compare e e).then (compare m m)).swap == some .eq) = true
        rw [horder]
        rfl
  change x.toModel.unpack.beq x.toModel.unpack = true
  apply hcompare
  intro hu
  rw [Binary64.ofFloat_eq_ofUnpacked, hu] at h
  exact h rfl

theorem isNaN_iff {x : Float} : x.isNaN = true ↔ Binary64.ofFloat x = .nan := by
  rw [Binary64.ofFloat_eq_ofUnpacked]
  change x.toModel.unpack.isNaN = true ↔ _
  cases x.toModel.unpack with
  | notANumber => exact iff_of_true rfl rfl
  | infinity s => exact iff_of_false nofun nofun
  | zero s => exact iff_of_false nofun nofun
  | finite s m e hm => exact iff_of_false nofun nofun

end Number

/-- A numeral is read as its number, behind a minus sign as the opposite number. -/
theorem reads_numeral {text : List Char} {x : Float} (hx : numeral? text = some x)
    (negative : Bool) :
    Reads (signed negative text) (.number (if negative then -x else x)) := by
  have htokens : ∀ total, Token.tokensFrom total false text = .ok [.number x] :=
    fun _ => Token.tokensFrom_numeral hx
  refine ⟨_, if negative then .unary .negate (.number x) else .number x,
    fun total => Token.tokensFrom_signed negative htokens, ?_, ?_⟩
  · cases negative <;> rfl
  · cases negative <;> exact fun _ _ => rfl

/-- The digits of a number are read as it, behind a minus sign as the opposite number. -/
theorem reads_toDigits (n : Nat) (negative : Bool) :
    Reads (signed negative (Nat.toDigits 10 n)) (.number
      (if negative then -Float.ofScientific n false 0 else Float.ofScientific n false 0)) :=
  reads_numeral (numeral?_toDigits n) negative

/-- A quotient of two numbers is read as its value. -/
theorem reads_quotient (a b : Nat) (negative : Bool) :
    Reads (signed negative (Nat.toDigits 10 a ++ '/' :: Nat.toDigits 10 b)) (.number
      ((if negative then -Float.ofScientific a false 0 else Float.ofScientific a false 0) /
        Float.ofScientific b false 0)) := by
  have hends : Token.EndsNumeral ('/' :: Nat.toDigits 10 b) := by
    rintro c ⟨⟩
    decide
  have hslash : (Token.symbol .slash).endsName = false := rfl
  have htokens : ∀ total, Token.tokensFrom total false
      (Nat.toDigits 10 a ++ '/' :: Nat.toDigits 10 b) = .ok [.number (Float.ofScientific a false 0),
        .symbol .slash, .number (Float.ofScientific b false 0)] := by
    intro total
    have hlast : Token.tokensFrom total false (Nat.toDigits 10 b) =
        .ok [.number (Float.ofScientific b false 0)] :=
      Token.tokensFrom_whole (Token.tokensFrom_toDigits b Token.endsNumeral_nil)
    rw [Token.tokensFrom_toDigits a hends, Token.tokensFrom_symbol (s := .slash) (by decide) rfl
      (by decide) (by decide) (fun _ _ => rfl) rfl, hslash, hlast]
    rfl
  refine ⟨_, .binary .divide (if negative then .unary .negate (.number (.ofScientific a false 0))
      else .number (.ofScientific a false 0)) (.number (.ofScientific b false 0)),
    fun total => Token.tokensFrom_signed negative htokens, ?_, ?_⟩
  · cases negative <;> rfl
  · cases negative <;> exact fun _ _ => rfl

/-- Text between quotes is read as it is. -/
theorem reads_string {s : String} (h : '"' ∉ s.toList) :
    Reads ('"' :: s.toList ++ ['"']) (.string s) := by
  refine ⟨[.string s], .string s, fun total => ?_, rfl, fun _ _ => rfl⟩
  rw [Token.tokensFrom_string h, Token.tokensFrom, String.ofList_toList]
  rfl

/-- The truth values are read from their names. -/
theorem reads_boolean (precision : Option Nat) (b : Bool) :
    Reads (Value.text precision (.boolean b)).toList (.boolean b) := by
  have hname : ∀ total {segment : List Char}, Token.IsSegment segment →
      Token.tokensFrom total false segment = .ok [.name (String.ofList segment)] := by
    intro total segment h
    exact Token.tokensFrom_whole (Token.tokensFrom_segment h (by rintro c ⟨⟩))
  have hfalse : Token.IsSegment "false".toList := by decide
  have htrue : Token.IsSegment "true".toList := by decide
  cases b with
  | false =>
    exact ⟨[.name "false"], .boolean false, fun total => hname total hfalse, rfl, fun _ _ => rfl⟩
  | true =>
    exact ⟨[.name "true"], .boolean true, fun total => hname total htrue, rfl, fun _ _ => rfl⟩

namespace Number

/-- The text of a number in a deck is that of its exact value. -/
theorem toList_deckText (precision : Option Nat) (x : Float) :
    (deckText precision x).toList = (Binary64.ofFloat x).deckText precision := by
  simp [deckText]

/-- The text of a number is read as a number, with any decimals. -/
theorem exists_reads_deckText (precision : Option Nat) (x : Float) :
    ∃ y, Reads (deckText precision x).toList (.number y) := by
  have hscientific : ∀ negative d, ∃ y, Reads (signed negative (scientific d)) (.number y) := by
    intro negative d
    have hcut := Token.cutNumeral_scientific d
    obtain ⟨y, hy⟩ := Option.isSome_iff_exists.1
      (Token.isSome_numeral? (Token.head?_scientific d) (by rw [hcut]))
    exact ⟨_, reads_numeral hy negative⟩
  rw [toList_deckText]
  cases Binary64.ofFloat x with
  | nan => exact ⟨_, reads_quotient 0 0 false⟩
  | infinite negative => exact ⟨_, reads_quotient 1 0 negative⟩
  | finite negative significand exponent =>
    unfold Binary64.deckText
    dsimp only
    split
    · next n _ =>
      split
      · obtain ⟨sign, hsign⟩ : ∃ sign,
            integerText negative n = signed sign (Nat.toDigits 10 n) := by
          refine ⟨negative && n != 0, ?_⟩
          cases hsign : negative && n != 0 <;> simp [integerText, signed, hsign]
        rw [hsign]
        exact ⟨_, reads_toDigits n sign⟩
      · exact hscientific negative _
    · exact hscientific negative _

/-- A sign in front of a number is the sign of the number. -/
theorem ofFloat_signed {y : Float} {significand : Nat} {exponent : Int}
    (hy : Binary64.ofFloat y = .finite false significand exponent) (negative : Bool) :
    Binary64.ofFloat (if negative then -y else y) = .finite negative significand exponent := by
  cases negative with
  | false => exact hy
  | true =>
    rw [if_pos rfl, Binary64.ofFloat_neg, hy]
    rfl

/-- A number that is written and a number that is read from it. -/
structure ReadsAs (x y : Float) : Prop where
  /-- The text of the one is read as the other. -/
  reads : Reads (deckText none x).toList (.number y)
  /-- The numbers are the same. -/
  same : Same x y
  /-- The numbers have the same text. -/
  text : deckText none y = deckText none x

/-- A text that is read as a number with the value of another is read as that one. -/
theorem readsAs_self {x y : Float} {v : Binary64} (hx : Binary64.ofFloat x = v)
    (hy : Binary64.ofFloat y = v) (hv : v ≠ .nan) (h : Reads (v.deckText none) (.number y)) :
    ReadsAs x x := by
  subst hx
  obtain rfl := Binary64.ofFloat_injective hy (hy ▸ hv)
  exact ⟨by rwa [toList_deckText], .inl (beq_self hv), rfl⟩

/-- The quotient that stands for what is not a number is not a number. -/
theorem readsAs_of_nan {x : Float} (hx : Binary64.ofFloat x = .nan) :
    ReadsAs x (Float.ofScientific 0 false 0 / Float.ofScientific 0 false 0) where
  reads := by
    rw [toList_deckText, hx]
    exact reads_quotient 0 0 false
  same := .inr ⟨isNaN_iff.2 hx, by decide +kernel⟩
  text := by
    rw [deckText, deckText, hx]
    decide +kernel

/-- The quotient that stands for an infinity is that infinity. -/
theorem readsAs_of_infinite {x : Float} {negative : Bool}
    (hx : Binary64.ofFloat x = .infinite negative) : ReadsAs x x :=
  readsAs_self hx (by cases negative <;> decide +kernel) (by simp) (reads_quotient 1 0 negative)

/-- Both zeros are written as the positive one. -/
theorem readsAs_of_zero {x : Float} {negative : Bool} {exponent : Int}
    (hx : Binary64.ofFloat x = .finite negative 0 exponent) :
    ReadsAs x (Float.ofScientific 0 false 0) := by
  obtain rfl : exponent = -1074 :=
    (Binary64.isCanonical_of_ofFloat hx).filled.resolve_left (by decide)
  obtain rfl : (if negative then -Float.ofScientific 0 false 0 else Float.ofScientific 0 false 0) =
      x := by
    apply Binary64.ofFloat_injective
    · rw [hx]
      cases negative <;> decide +kernel
    · cases negative <;> decide +kernel
  have htext : (Binary64.finite negative 0 (-1074)).deckText none = ['0'] := by
    cases negative <;> decide +kernel
  refine ⟨?_, ?_, ?_⟩
  · rw [toList_deckText, hx, htext]
    exact reads_toDigits 0 false
  · left
    cases negative <;> decide +kernel
  · rw [deckText, deckText, hx, htext]
    decide +kernel

/-- A whole number that is written as an integer is read as it is. -/
theorem readsAs_of_whole? {x : Float} {n : Nat} (hn : 0 < n) (hlimit : n < integralLimit)
    (hwhole : (Binary64.ofFloat x).whole? = some n) : ReadsAs x x := by
  have hvalue := Binary64.ofFloat_ofScientific_of_whole? hn hwhole
  cases hx : Binary64.ofFloat x with
  | nan => simp [hx, Binary64.whole?] at hwhole
  | infinite negative => simp [hx, Binary64.whole?] at hwhole
  | finite negative significand exponent =>
    rw [hx] at hwhole hvalue
    have htext : (Binary64.finite negative significand exponent).deckText none =
        signed negative (Nat.toDigits 10 n) := by
      have hne : (n != 0) = true := by simp; omega
      simp only [Binary64.deckText, hwhole, hlimit, if_true, integerText, hne, Bool.and_true,
        signed]
      cases negative <;> rfl
    refine readsAs_self hx (ofFloat_signed hvalue negative) (by simp) ?_
    rw [htext]
    exact reads_toDigits n negative

/-- A number in scientific form is a sign and the form of its magnitude. -/
theorem exists_of_isScientific {x : Float} (hx : isScientific x = true) :
    ∃ negative significand exponent,
      Binary64.ofFloat x = .finite negative significand exponent ∧
      ∀ sign, (Binary64.finite sign significand exponent).deckText none =
        signed sign (scientific (Decimal.shortest significand exponent)) := by
  unfold isScientific at hx
  split at hx
  · next negative significand exponent hvalue =>
    refine ⟨negative, significand, exponent, hvalue, fun sign => ?_⟩
    have hwhole : (Binary64.finite sign significand exponent).whole? =
        (Binary64.finite negative significand exponent).whole? := rfl
    unfold Binary64.deckText
    dsimp only
    rw [hwhole]
    cases h : (Binary64.finite negative significand exponent).whole? with
    | none => rfl
    | some n =>
      simp only [h, Option.all_some, decide_eq_true_eq] at hx
      simp only [if_neg (Nat.not_lt.2 hx), scientificText]
  · cases hx

/-- A number in scientific form is read as it is if its digits are. -/
theorem readsAs_of_isScientific {x : Float} (hx : isScientific x = true) (h : ReadsBack x) :
    ReadsAs x x := by
  obtain ⟨negative, significand, exponent, hvalue, htext⟩ := exists_of_isScientific hx
  have habs : Binary64.ofFloat x.abs = .finite false significand exponent := by
    rw [Binary64.ofFloat_abs, hvalue]
    rfl
  have hnumeral : numeral? (scientific (Decimal.shortest significand exponent)) = some x.abs := by
    have hread := h hx
    rwa [toList_deckText, habs, htext] at hread
  refine readsAs_self hvalue (ofFloat_signed habs negative) (by simp) ?_
  rw [htext]
  exact reads_numeral hnumeral negative

/-- Only a zero has the value zero. -/
theorem Binary64.eq_zero_of_whole? {negative : Bool} {significand : Nat} {exponent : Int}
    (h : (Binary64.finite negative significand exponent).whole? = some 0) : significand = 0 := by
  rw [Binary64.whole?] at h
  split at h
  · exact (Nat.mul_eq_zero.1 (Option.some.inj h)).resolve_right (Nat.ne_of_gt (Nat.two_pow_pos _))
  · split at h
    · next hmod =>
      have hdiv := Nat.div_add_mod significand (2 ^ (-exponent).toNat)
      rw [Option.some.inj h, hmod] at hdiv
      exact hdiv.symm
    · cases h

/-- A finite number that is not written in scientific form is a whole number below the limit. -/
theorem exists_whole?_of_not_isScientific {x : Float} {negative : Bool} {significand : Nat}
    {exponent : Int} (hx : Binary64.ofFloat x = .finite negative significand exponent)
    (h : ¬isScientific x = true) :
    ∃ n, (Binary64.ofFloat x).whole? = some n ∧ n < integralLimit := by
  simp only [isScientific, hx] at h
  rw [hx]
  cases hwhole : (Binary64.finite negative significand exponent).whole? with
  | none => simp [hwhole] at h
  | some n => exact ⟨n, rfl, by simpa [hwhole] using h⟩

/-- The number that the text of a number is read as. -/
def reread (x : Float) : Float :=
  match Binary64.ofFloat x with
  | .nan => Float.ofScientific 0 false 0 / Float.ofScientific 0 false 0
  | .finite _ 0 _ => Float.ofScientific 0 false 0
  | _ => x

/-- A number that is written is read as an equal one with the same text. -/
theorem readsAs_reread {x : Float} (h : ReadsBack x) : ReadsAs x (reread x) := by
  unfold reread
  split
  · next hx => exact readsAs_of_nan hx
  · next hx => exact readsAs_of_zero hx
  · next hnan hzero =>
    cases hx : Binary64.ofFloat x with
    | nan => exact absurd hx hnan
    | infinite negative => exact readsAs_of_infinite hx
    | finite negative significand exponent =>
      by_cases hscientific : isScientific x = true
      · exact readsAs_of_isScientific hscientific h
      · obtain ⟨n, hwhole, hlimit⟩ := exists_whole?_of_not_isScientific hx hscientific
        refine readsAs_of_whole? (Nat.pos_of_ne_zero ?_) hlimit hwhole
        rintro rfl
        rw [hx] at hwhole
        obtain rfl := Binary64.eq_zero_of_whole? hwhole
        exact hzero _ _ hx

end Number

namespace Value

/-- Whether two values are of one kind and equal, where what is not a number equals itself. -/
def Same : Value → Value → Prop
  | number x, number y => Number.Same x y
  | boolean a, boolean b => a = b
  | string s, string t => s = t
  | _, _ => False

/-- The digits of a number in scientific form are a numeral of it. -/
def ReadsBack : Value → Prop
  | number x => Number.ReadsBack x
  | _ => True

instance : DecidablePred ReadsBack
  | number x => inferInstanceAs (Decidable (Number.ReadsBack x))
  | boolean _ | string _ => inferInstanceAs (Decidable True)

/-- Whether two values are the same or both are numbers. -/
def Alike : Value → Value → Prop
  | number _, number _ => True
  | v, w => v = w

/-- The value that the text of a value is read as. -/
def reread : Value → Value
  | number x => number (Number.reread x)
  | v => v

/-- Equal values have the same kind. -/
theorem Same.kind_eq {v w : Value} (h : v.Same w) : v.kind = w.kind := by
  cases v <;> cases w <;> first | rfl | cases h

/-- A value that is written is read as an equal one. -/
theorem same_reread {v : Value} (h : v.ReadsBack) : v.Same v.reread := by
  cases v with
  | number x => exact (Number.readsAs_reread h).same
  | boolean b => rfl
  | string s => rfl

/-- A value that is written is read as one with the same text. -/
theorem written_reread {v : Value} (h : v.ReadsBack) : v.reread.written none = v.written none := by
  cases v with
  | number x => exact (Number.readsAs_reread h).text
  | boolean b => rfl
  | string s => rfl

/-- What a text is written as is read as it is, unless it has a quote. -/
theorem reads_written_string (precision : Option Nat) {s : String} (h : '"' ∉ s.toList) :
    Reads (written precision (string s)).toList (string s) := by
  have hsplit : (written precision (string s)).toList = '"' :: s.toList ++ ['"'] := by
    simp [written]
  rw [hsplit]
  exact reads_string h

/-- What a value is written as is read, unless it is a text with a quote. -/
theorem reads_written {v : Value} (h : v.ReadsBack) (hquote : ∀ s, v = string s → '"' ∉ s.toList) :
    Reads (v.written none).toList v.reread := by
  cases v with
  | number x => exact (Number.readsAs_reread h).reads
  | boolean b => exact reads_boolean none b
  | string s => exact reads_written_string none (hquote s rfl)

/-- With any decimals, what a value is written as is read as the value, or as another number if it
is one. -/
theorem exists_reads_written (precision : Option Nat) {v : Value}
    (hquote : ∀ s, v = string s → '"' ∉ s.toList) :
    ∃ w, Reads (v.written precision).toList w ∧ v.Alike w := by
  cases v with
  | number x =>
    obtain ⟨y, hy⟩ := Number.exists_reads_deckText precision x
    exact ⟨number y, hy, trivial⟩
  | boolean b => exact ⟨boolean b, reads_boolean precision b, rfl⟩
  | string s => exact ⟨string s, reads_written_string precision (hquote s rfl), rfl⟩

end Value

end InputDeck
