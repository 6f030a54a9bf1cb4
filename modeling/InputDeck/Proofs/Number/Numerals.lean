import InputDeck.Expr.Lexing

/-!
# Numerals in texts

The numerals that decks are written with, digits and numbers in scientific form, are cut off a text
in whole when nothing goes on with them.
-/

namespace InputDeck

open InputDeck.Number

namespace Number

/-- All characters of a decimal text are digits. -/
theorem isDigit_of_mem_toDigits {n : Nat} {c : Char} (h : c ∈ Nat.toDigits 10 n) :
    c.isDigit = true :=
  Nat.isDigit_of_mem_toDigits (by decide) (by decide) h

/-- A decimal text begins with a digit. -/
theorem head?_toDigits (n : Nat) : (Nat.toDigits 10 n).head?.any Char.isDigit = true := by
  have hdigits : ∀ c ∈ Nat.toDigits 10 n, c.isDigit = true := fun c => isDigit_of_mem_toDigits
  obtain ⟨c, cs, hcs⟩ := List.exists_cons_of_ne_nil (Nat.toDigits_ne_nil (n := n) (b := 10))
  rw [hcs] at hdigits ⊢
  simpa using hdigits c (by simp)

/-- The digits of a number are cut off in whole. -/
theorem cutDigits_toDigits (n : Nat) : cutDigits (Nat.toDigits 10 n) = (Nat.toDigits 10 n, []) := by
  have hcut : cutDigits (Nat.toDigits 10 n ++ []) = (Nat.toDigits 10 n, []) :=
    cutDigits_append_of_not_isDigit (fun _ hc => isDigit_of_mem_toDigits hc) (by simp)
  rwa [List.append_nil] at hcut

/-- The digits of a number are a numeral of the number. -/
theorem numeral?_toDigits (n : Nat) :
    numeral? (Nat.toDigits 10 n) = some (Float.ofScientific n false 0) := by
  have hne : Nat.toDigits 10 n ≠ [] := Nat.toDigits_ne_nil
  simp [numeral?, cutDigits_toDigits, hne, exponent?, ofDecimal]

end Number

namespace Token

/-- Whether no numeral goes on in front of a text. -/
def EndsNumeral (rest : List Char) : Prop :=
  ∀ c ∈ rest.head?, c.isDigit = false ∧ c ≠ '.' ∧ isExponentMark c = false

/-- Nothing goes on at the end of a text. -/
theorem endsNumeral_nil : EndsNumeral [] := by
  rintro c ⟨⟩

/-- No exponent is cut off where no numeral goes on. -/
theorem cutExponent_of_endsNumeral {rest : List Char} (h : EndsNumeral rest) :
    cutExponent rest = ([], rest) := by
  cases rest with
  | nil => rfl
  | cons c rest => simp [cutExponent, (h c rfl).2.2]

/-- No decimals are cut off where no numeral goes on. -/
theorem cutDecimals_of_ne {rest : List Char} (h : rest.head? ≠ some '.') :
    cutDecimals rest = ([], rest) := by
  unfold cutDecimals
  split
  · exact absurd rfl h
  · rfl

/-- Digits are cut off as a numeral. -/
theorem cutNumeral_digits {digits rest : List Char} (hd : ∀ c ∈ digits, c.isDigit = true)
    (hrest : EndsNumeral rest) : cutNumeral (digits ++ rest) = (digits, rest) := by
  have hdecimals : cutDecimals rest = ([], rest) :=
    cutDecimals_of_ne fun hdot => (hrest '.' hdot).2.1 rfl
  have hcut := cutDigits_append_of_not_isDigit hd fun c hc => (hrest c hc).1
  simp [cutNumeral, hcut, hdecimals, cutExponent_of_endsNumeral hrest]

/-- No sign is cut off in front of a digit. -/
theorem cutSign_of_isDigit {cs : List Char} (h : ∀ c ∈ cs.head?, c.isDigit = true) :
    cutSign cs = ([], cs) := by
  unfold cutSign
  split
  · exact absurd (h '+' rfl) (by decide)
  · exact absurd (h '-' rfl) (by decide)
  · rfl

/-- A sign is cut off in front of digits only if there is one. -/
theorem cutSign_toDigits (n : Nat) : cutSign (Nat.toDigits 10 n) = ([], Nat.toDigits 10 n) :=
  cutSign_of_isDigit fun _ hc => isDigit_of_mem_toDigits (List.mem_of_mem_head? hc)

/-- A sign is cut off in front of any digit behind it. -/
private theorem cutSign_front_append (cs : List Char) {digits : List Char}
    (h : ∀ c ∈ digits.head?, c.isDigit = true) :
    cutSign ((cutSign cs).1 ++ digits) = ((cutSign cs).1, digits) := by
  fun_cases cutSign cs with
  | case1 => rfl
  | case2 => rfl
  | case3 => exact cutSign_of_isDigit h

/-- Digits are cut off in whole in front of anything else. -/
private theorem cutDigits_front_append (cs : List Char) {rest : List Char}
    (h : ∀ c ∈ rest.head?, c.isDigit = false) :
    cutDigits ((cutDigits cs).1 ++ rest) = ((cutDigits cs).1, rest) :=
  cutDigits_append_of_not_isDigit (fun _ => isDigit_of_mem_cutDigits) h

/-- Decimals are cut off in whole in front of what is neither a digit nor a point. -/
private theorem cutDecimals_front_append (cs : List Char) {rest : List Char}
    (h : ∀ c ∈ rest.head?, c.isDigit = false ∧ c ≠ '.') :
    cutDecimals ((cutDecimals cs).1 ++ rest) = ((cutDecimals cs).1, rest) := by
  fun_cases cutDecimals cs with
  | case1 cs =>
    have hdigits := cutDigits_front_append cs fun c hc => (h c hc).1
    rw [List.cons_append, cutDecimals, hdigits]
  | case2 => exact cutDecimals_of_ne fun hdot => (h '.' hdot).2 rfl

/-- An exponent is cut off in whole in front of what no numeral goes on in. -/
private theorem cutExponent_front_append (cs : List Char) {rest : List Char}
    (h : EndsNumeral rest) :
    cutExponent ((cutExponent cs).1 ++ rest) = ((cutExponent cs).1, rest) := by
  fun_cases cutExponent cs with
  | case1 => exact cutExponent_of_endsNumeral h
  | case2 mark cs sign unsigned hsign digits after hdigits hmark =>
    have hcut := cutDigits_front_append unsigned fun c hc => (h c hc).1
    have hhead : ∀ c ∈ (digits ++ rest).head?, c.isDigit = true := by
      obtain ⟨d, ds, rfl⟩ := List.exists_cons_of_ne_nil hmark.2
      rintro c ⟨⟩
      have hmem : d ∈ (cutDigits unsigned).1 := by simp [hdigits]
      exact isDigit_of_mem_cutDigits hmem
    have hfront := cutSign_front_append cs hhead
    rw [hdigits] at hcut
    rw [hsign] at hfront
    simp only [List.cons_append, List.append_assoc, cutExponent, hfront, hcut, if_pos hmark]
  | case3 => exact cutExponent_of_endsNumeral h

/-- At the front of an exponent and what follows it stands neither a digit nor a point. -/
private theorem head?_cutExponent_append (cs : List Char) {rest : List Char}
    (h : EndsNumeral rest) :
    ∀ c ∈ ((cutExponent cs).1 ++ rest).head?, c.isDigit = false ∧ c ≠ '.' := by
  have hrest : ∀ c ∈ rest.head?, c.isDigit = false ∧ c ≠ '.' :=
    fun c hc => ⟨(h c hc).1, (h c hc).2.1⟩
  fun_cases cutExponent cs with
  | case1 => exact hrest
  | case2 mark cs sign unsigned hsign digits after hdigits hmark =>
    rintro c ⟨⟩
    have hc := hmark.1
    simp only [isExponentMark, Bool.or_eq_true, beq_iff_eq] at hc
    rcases hc with rfl | rfl <;> decide
  | case3 => exact hrest

/-- At the front of decimals and what follows them stands no digit. -/
private theorem head?_cutDecimals_append (cs : List Char) {rest : List Char}
    (h : ∀ c ∈ rest.head?, c.isDigit = false) :
    ∀ c ∈ ((cutDecimals cs).1 ++ rest).head?, c.isDigit = false := by
  fun_cases cutDecimals cs with
  | case1 =>
    rintro c ⟨⟩
    decide
  | case2 => exact h

/-- A numeral is cut off in whole in front of what no numeral goes on in. -/
theorem cutNumeral_front_append (cs : List Char) {rest : List Char} (h : EndsNumeral rest) :
    cutNumeral ((cutNumeral cs).1 ++ rest) = ((cutNumeral cs).1, rest) := by
  have hexponent := head?_cutExponent_append (cutDecimals (cutDigits cs).2).2 h
  have hdecimals := head?_cutDecimals_append (cutDigits cs).2 fun c hc => (hexponent c hc).1
  simp only [cutNumeral, List.append_assoc, cutDigits_front_append cs hdecimals,
    cutDecimals_front_append _ hexponent, cutExponent_front_append _ h]

/-- An exponent that is cut off in whole is read. -/
private theorem isSome_exponent? {cs : List Char} (h : (cutExponent cs).2 = []) :
    (exponent? cs).isSome = true := by
  fun_cases cutExponent cs with
  | case1 => rfl
  | case2 mark cs sign unsigned hsign digits rest hdigits hmark =>
    rw [cutExponent, hsign] at h
    simp only [hdigits, if_pos hmark] at h
    obtain rfl := h
    have hunsigned : unsigned = digits := by
      rw [← cutDigits_append unsigned, hdigits, List.append_nil]
    have hall : unsigned.all Char.isDigit = true := by
      refine List.all_eq_true.2 fun c hc => ?_
      have hmem : c ∈ (cutDigits unsigned).1 := by rwa [hdigits, ← hunsigned]
      exact isDigit_of_mem_cutDigits hmem
    have hread : isExponentMark mark = true ∧ unsigned ≠ [] ∧ unsigned.all Char.isDigit = true :=
      ⟨hmark.1, hunsigned ▸ hmark.2, hall⟩
    simp only [exponent?, hsign, if_pos hread, Option.isSome_some]
  | case3 mark cs sign unsigned hsign digits rest hdigits hmark =>
    rw [cutExponent, hsign] at h
    simp only [hdigits, if_neg hmark] at h
    cases h

/-- A numeral is read by the parts that are cut off it. -/
theorem numeral?_eq (cs : List Char) :
    numeral? cs =
      if (cutDigits cs).1 ++ (cutDecimals (cutDigits cs).2).1.tail = [] then none
      else (exponent? (cutDecimals (cutDigits cs).2).2).map fun exponent =>
        ofDecimal (digitsValue ((cutDigits cs).1 ++ (cutDecimals (cutDigits cs).2).1.tail))
          (exponent - (cutDecimals (cutDigits cs).2).1.tail.length) := by
  unfold numeral?
  generalize cutDigits cs = cut
  obtain ⟨whole, after⟩ := cut
  dsimp only
  fun_cases cutDecimals after with
  | case1 rest => rfl
  | case2 _ hnone =>
    split
    · next rest => exact absurd rfl (hnone rest)
    · rfl

/-- What begins with a digit and is cut off as one numeral is read. -/
theorem isSome_numeral? {cs : List Char} (hdigit : cs.head?.any Char.isDigit = true)
    (h : (cutNumeral cs).2 = []) : (numeral? cs).isSome = true := by
  have hwhole : (cutDigits cs).1 ≠ [] := by
    cases cs with
    | nil => cases hdigit
    | cons c cs =>
      have hc : c.isDigit = true := by simpa using hdigit
      rw [cutDigits, List.takeWhile_cons_of_pos hc]
      exact List.cons_ne_nil _ _
  have hexponent : (exponent? (cutDecimals (cutDigits cs).2).2).isSome = true :=
    isSome_exponent? h
  rw [numeral?_eq, if_neg fun hnil => hwhole (List.append_eq_nil_iff.1 hnil).1, Option.isSome_map]
  exact hexponent

/-- What begins a number begins one with the numeral that is cut off, whatever follows it. -/
theorem exists_cutNumeral {afterName : Bool} {c : Char} {cs : List Char}
    (h : startsNumber afterName c cs = true) :
    ∃ used, (cutNumeral (c :: cs)).1 = c :: used ∧
      ∀ rest', startsNumber afterName c (used ++ rest') = true := by
  simp only [startsNumber, Bool.or_eq_true, Bool.and_eq_true, beq_iff_eq] at h
  rcases h with hdigit | ⟨⟨rfl, hname⟩, hhead⟩
  · have hused : ∃ used, (cutNumeral (c :: cs)).1 = c :: used := by
      simp [cutNumeral, cutDigits, hdigit]
    obtain ⟨used, hused⟩ := hused
    exact ⟨used, hused, fun rest' => by simp [startsNumber, hdigit]⟩
  · cases cs with
    | nil => cases hhead
    | cons d cs =>
      have hd : d.isDigit = true := hhead
      refine ⟨d :: (cs.takeWhile Char.isDigit ++ (cutExponent (cs.dropWhile Char.isDigit)).1),
        by simp [cutNumeral, cutDigits, cutDecimals, hd], fun rest' => ?_⟩
      simp [startsNumber, hd, hname]

/-- The numeral at the front of what begins a number is read. -/
theorem exists_numeral?_cutNumeral {afterName : Bool} {c : Char} {cs : List Char}
    (h : startsNumber afterName c cs = true) : ∃ x, numeral? (cutNumeral (c :: cs)).1 = some x := by
  obtain ⟨used, hused, hstarts⟩ := exists_cutNumeral h
  have hcut : (cutNumeral (c :: used)).2 = [] := by
    have hfront := cutNumeral_front_append (c :: cs) endsNumeral_nil
    rw [List.append_nil, hused] at hfront
    rw [hfront]
  have hstart : startsNumber afterName c used = true := by simpa using hstarts []
  rw [hused]
  apply Option.isSome_iff_exists.1
  cases hdigit : c.isDigit with
  | true => exact isSome_numeral? (by simpa using hdigit) hcut
  | false =>
    -- Without a digit in front there is a point, and the digit behind it is the first decimal.
    simp only [startsNumber, hdigit, Bool.false_or, Bool.and_eq_true, beq_iff_eq] at hstart
    obtain ⟨⟨rfl, -⟩, hhead⟩ := hstart
    have hdigits : cutDigits ('.' :: used) = ([], '.' :: used) := rfl
    have hdecimals : (cutDigits used).1 ≠ [] := by
      cases used with
      | nil => cases hhead
      | cons d used =>
        have hd : d.isDigit = true := hhead
        rw [cutDigits, List.takeWhile_cons_of_pos hd]
        exact List.cons_ne_nil _ _
    have hexponent : (exponent? (cutDigits used).2).isSome = true := isSome_exponent? hcut
    rw [numeral?_eq, hdigits]
    simpa [cutDecimals, hdecimals] using hexponent

/-- An exponent that is read is cut off in whole. -/
private theorem snd_cutExponent_of_exponent? {cs : List Char} {exponent : Int}
    (h : exponent? cs = some exponent) : (cutExponent cs).2 = [] := by
  cases cs with
  | nil => rfl
  | cons mark cs =>
    simp only [exponent?] at h
    split at h
    · next hread =>
      obtain ⟨hmark, hne, hall⟩ := hread
      have hcut : cutDigits (cutSign cs).2 = ((cutSign cs).2, []) := by
        have hdigits : cutDigits ((cutSign cs).2 ++ []) = ((cutSign cs).2, []) :=
          cutDigits_append_of_not_isDigit (List.all_eq_true.1 hall) (by simp)
        rwa [List.append_nil] at hdigits
      simp [cutExponent, hcut, hmark, hne]
    · cases h

/-- A numeral that is read is cut off in whole. -/
theorem snd_cutNumeral_of_numeral? {cs : List Char} {x : Float} (h : numeral? cs = some x) :
    (cutNumeral cs).2 = [] := by
  rw [numeral?_eq, Option.ite_none_left_eq_some] at h
  obtain ⟨exponent, hexponent, -⟩ := Option.map_eq_some_iff.1 h.2
  exact snd_cutExponent_of_exponent? hexponent

/-- A numeral begins with a digit, or with a point in front of one. -/
theorem startsNumber_of_numeral? {c : Char} {cs : List Char} {x : Float}
    (h : numeral? (c :: cs) = some x) : startsNumber false c cs = true := by
  cases hdigit : c.isDigit with
  | true => simp [startsNumber, hdigit]
  | false =>
    have hcut : cutDigits (c :: cs) = ([], c :: cs) := by simp [cutDigits, hdigit]
    rw [numeral?_eq, hcut, List.nil_append, Option.ite_none_left_eq_some] at h
    have hdecimals := h.1
    by_cases hpoint : c = '.'
    · subst hpoint
      cases cs with
      | nil => exact absurd rfl hdecimals
      | cons d cs =>
        cases hd : d.isDigit with
        | true => simp [startsNumber, hd]
        | false => simp [cutDecimals, cutDigits, hd] at hdecimals
    · rw [cutDecimals_of_ne (by simpa using hpoint)] at hdecimals
      exact absurd rfl hdecimals

/-- An exponent is cut off in whole. -/
theorem cutExponent_exponentText (exponent : Int) :
    cutExponent ('e' :: exponentText exponent) = ('e' :: exponentText exponent, []) := by
  have hmark : isExponentMark 'e' = true := by decide
  have hne : Nat.toDigits 10 exponent.natAbs ≠ [] := Nat.toDigits_ne_nil
  unfold exponentText integerText
  split
  · have hsign : cutSign ('-' :: Nat.toDigits 10 exponent.natAbs) =
        (['-'], Nat.toDigits 10 exponent.natAbs) := rfl
    simp [cutExponent, hsign, cutDigits_toDigits, hmark, hne]
  · simp [cutExponent, cutSign_toDigits, cutDigits_toDigits, hmark, hne]

/-- A number in scientific form begins with a digit. -/
theorem head?_scientific (d : Decimal) : (scientific d).head?.any Char.isDigit = true := by
  have hhead := head?_toDigits d.coefficient
  unfold scientific Decimal.digits
  generalize Nat.toDigits 10 d.coefficient = digits at hhead
  match digits with
  | [] => cases hhead
  | [c] => exact hhead
  | c :: e :: ds => exact hhead

/-- A number in scientific form is cut off in whole. -/
theorem cutNumeral_scientific (d : Decimal) : cutNumeral (scientific d) = (scientific d, []) := by
  have hdigits : ∀ c ∈ d.digits, c.isDigit = true := fun c => isDigit_of_mem_toDigits
  have hmark : ∀ c ∈ ('e' :: exponentText d.leadingExponent).head?, c.isDigit = false := by
    rintro c ⟨⟩
    decide
  have hpoint : ∀ ds, ∀ c ∈ ('.' :: ds : List Char).head?, c.isDigit = false := by
    rintro ds c ⟨⟩
    decide
  unfold scientific
  match hd : d.digits with
  | [] => exact absurd hd Nat.toDigits_ne_nil
  | [c] =>
    rw [hd] at hdigits
    have hwhole := cutDigits_append_of_not_isDigit hdigits hmark
    have hdecimals : cutDecimals ('e' :: exponentText d.leadingExponent) =
        ([], 'e' :: exponentText d.leadingExponent) := rfl
    simp only [withLeadingPoint, cutNumeral, hwhole, hdecimals, cutExponent_exponentText,
      List.append_nil]
  | c :: e :: ds =>
    rw [hd] at hdigits
    obtain ⟨hc, hrest⟩ := List.forall_mem_cons.1 hdigits
    have hwhole := cutDigits_append_of_not_isDigit (List.forall_mem_singleton.2 hc)
      (hpoint (e :: ds ++ 'e' :: exponentText d.leadingExponent))
    have hdecimals := cutDigits_append_of_not_isDigit hrest hmark
    simp only [List.cons_append, List.nil_append] at hwhole hdecimals
    simp only [withLeadingPoint, cutNumeral, List.cons_append, hwhole, cutDecimals, hdecimals,
      cutExponent_exponentText, List.nil_append]

end Token

end InputDeck
