import InputDeck.Proofs.Expr.Names
import InputDeck.Proofs.Number.Numerals
import InputDeck.Proofs.Text.Visible

/-!
# Tokens of written statements

What is spelled is cut into its tokens, whatever comes behind it: a segment of a name as long as
nothing goes on with it, a symbol that makes no longer one, a text between quotes, a numeral. So a
dotted name is cut into the tokens of its path, and an index behind it into three more.
-/

namespace InputDeck

open InputDeck.Text InputDeck.Number

namespace Token

variable {total : Nat} {afterName : Bool}

/-- The tokens of a text that begins with one are that token and those of the rest. -/
theorem tokensFrom_cons {c : Char} {cs rest : List Char} {t : Token} (hc : isBlank c = false)
    (h : next total afterName c cs = .ok (t, rest)) :
    tokensFrom total afterName (c :: cs) = (tokensFrom total t.endsName rest).map (t :: ·) := by
  rw [tokensFrom]
  simp only [hc, Bool.false_eq_true, if_false]
  split
  · next he => rw [h] at he; cases he
  · next he =>
    rw [h] at he
    cases he
    rfl

/-- A blank in front of a text is no part of its tokens. -/
theorem tokensFrom_space (cs : List Char) :
    tokensFrom total afterName (' ' :: cs) = tokensFrom total afterName cs := by
  rw [tokensFrom]
  simp

/-- What a class holds in front of what it does not is cut off. -/
theorem takeWhile_append_of_head? {p : Char → Bool} {cs rest : List Char}
    (hcs : ∀ c ∈ cs, p c = true) (hrest : ∀ c ∈ rest.head?, p c = false) :
    (cs ++ rest).takeWhile p = cs ∧ (cs ++ rest).dropWhile p = rest := by
  have hstop : rest.takeWhile p = [] ∧ rest.dropWhile p = rest := by
    cases rest with
    | nil => simp
    | cons c rest => simp [hrest c (by simp)]
  rw [List.takeWhile_append_of_pos hcs, List.dropWhile_append_of_pos hcs, hstop.1, hstop.2,
    List.append_nil]
  exact ⟨rfl, rfl⟩

/-- A text that is one token with nothing behind it is that token. -/
theorem tokensFrom_whole {text : List Char} {t : Token} {afterToken : Bool}
    (h : tokensFrom total afterName (text ++ []) = (tokensFrom total afterToken []).map (t :: ·)) :
    tokensFrom total afterName text = .ok [t] := by
  rw [List.append_nil] at h
  rw [h, tokensFrom]
  rfl

/-- A segment of a name is one token when nothing goes on with it. -/
theorem tokensFrom_segment {segment rest : List Char} (h : IsSegment segment)
    (hrest : ∀ c ∈ rest.head?, isNamePart c = false) :
    tokensFrom total afterName (segment ++ rest) =
      (tokensFrom total true rest).map (.name (String.ofList segment) :: ·) := by
  obtain ⟨c, cs, rfl, hc⟩ := h.head
  obtain ⟨hpart, hparts⟩ := List.forall_mem_cons.1 h.isNamePart
  obtain ⟨htake, hdrop⟩ := takeWhile_append_of_head? hparts hrest
  rw [List.cons_append]
  apply tokensFrom_cons (isBlank_of_isNamePart hpart)
  rw [next, startsNumber_of_isNameStart hc, if_neg (by decide), if_pos hc, htake, hdrop]

/-- A symbol of one character is cut off when nothing makes another symbol of it. -/
theorem cutSymbol_of_single? {c : Char} {s : Symbol} {rest : List Char} (hs : single? c = some s)
    (hdouble : ∀ d ∈ rest.head?, double? c d = none) : cutSymbol c rest = some (s, rest) := by
  unfold cutSymbol
  cases rest with
  | nil => simp [hs]
  | cons d rest => simp [hdouble d (by simp), hs]

/-- A symbol of one character is a token when nothing makes another symbol of it. -/
theorem tokensFrom_symbol {c : Char} {s : Symbol} {rest : List Char} (hc : isBlank c = false)
    (hnumber : startsNumber afterName c rest = false) (hname : isNameStart c = false)
    (hquote : c ≠ '"') (hdouble : ∀ d ∈ rest.head?, double? c d = none) (hs : single? c = some s) :
    tokensFrom total afterName (c :: rest) =
      (tokensFrom total (Token.symbol s).endsName rest).map (.symbol s :: ·) :=
  tokensFrom_cons hc
    (next_eq_ok_iff.2 (.symbol hnumber hname hquote (cutSymbol_of_single? hs hdouble)))

/-- A text between quotes is a token. -/
theorem tokensFrom_string {text rest : List Char} (h : '"' ∉ text) :
    tokensFrom total afterName ('"' :: text ++ '"' :: rest) =
      (tokensFrom total false rest).map (.string (String.ofList text) :: ·) := by
  rw [List.cons_append]
  exact tokensFrom_cons (by decide)
    (next_eq_ok_iff.2 (.string rfl (Text.cutFirst_append_cons h rest)))

/-- A numeral is a token when nothing goes on with it. -/
theorem tokensFrom_number {text rest : List Char} {x : Float}
    (hdigit : text.head?.any Char.isDigit = true)
    (hcut : cutNumeral (text ++ rest) = (text, rest)) (hx : numeral? text = some x) :
    tokensFrom total afterName (text ++ rest) =
      (tokensFrom total false rest).map (.number x :: ·) := by
  cases text with
  | nil => simp at hdigit
  | cons c cs =>
    have hc : c.isDigit = true := by simpa using hdigit
    rw [List.cons_append] at hcut ⊢
    apply tokensFrom_cons (isBlank_of_isDigit hc)
    simp [next, startsNumber, hc, hcut, hx]

/-- A numeral that is all of a text is its token. -/
theorem tokensFrom_numeral {text : List Char} {x : Float} (hx : numeral? text = some x) :
    tokensFrom total false text = .ok [.number x] := by
  cases text with
  | nil => cases hx
  | cons c cs =>
    have hstart := startsNumber_of_numeral? hx
    have hrest := snd_cutNumeral_of_numeral? hx
    have hfront : (cutNumeral (c :: cs)).1 = c :: cs := by
      have happend := cutNumeral_append (c :: cs)
      rwa [hrest, List.append_nil] at happend
    have hnext : IsNext false c cs (.number x) (cutNumeral (c :: cs)).2 :=
      .number hstart (by rwa [hfront])
    rw [hrest] at hnext
    have hblank : isBlank c = false := by
      simp only [startsNumber, Bool.or_eq_true, Bool.and_eq_true, beq_iff_eq] at hstart
      rcases hstart with hdigit | ⟨⟨rfl, -⟩, -⟩
      · exact isBlank_of_isDigit hdigit
      · decide
    rw [tokensFrom_cons hblank (next_eq_ok_iff.2 hnext), tokensFrom]
    rfl

/-- Behind a name, a dot is a token whatever follows it. -/
theorem tokensFrom_dot (rest : List Char) :
    tokensFrom total true ('.' :: rest) = (tokensFrom total false rest).map (.symbol .dot :: ·) :=
  tokensFrom_symbol (by decide) (by simp [startsNumber]) (by decide) (by decide)
    (fun d _ => by simp [double?]) rfl

/-- The tokens of a dotted name make up its path. -/
theorem tokensFrom_path {cs : List Char} (h : IsDottedName cs) :
    ∃ ts, Expr.IsPath ts (String.ofList cs) ∧ ∀ {total afterName} {rest : List Char},
      (∀ c ∈ rest.head?, isNamePart c = false) →
      tokensFrom total afterName (cs ++ rest) = (tokensFrom total true rest).map (ts ++ ·) := by
  induction h with
  | @segment cs h =>
    exact ⟨[.name (String.ofList cs)], .segment _, fun hrest => tokensFrom_segment h hrest⟩
  | @dot cs ds h hd ih =>
    obtain ⟨ts, hpath, htokens⟩ := ih
    refine ⟨ts ++ [.symbol .dot, .name (String.ofList ds)], ?_,
      fun {total afterName rest} hrest => ?_⟩
    · have hsplit : String.ofList (cs ++ '.' :: ds) =
          String.ofList cs ++ "." ++ String.ofList ds := by
        apply String.toList_inj.1
        simp
      rw [hsplit]
      exact .dot _ hpath
    · rw [List.append_assoc, List.cons_append, htokens (by simp; decide), tokensFrom_dot,
        tokensFrom_segment hd hrest]
      cases tokensFrom total true rest <;> simp [Except.map]

/-- Between blanks, the assignment sign is a token. -/
theorem tokensFrom_sign (value : List Char) :
    tokensFrom total afterName (' ' :: '=' :: ' ' :: value) =
      (tokensFrom total false value).map (.symbol .assign :: ·) := by
  rw [tokensFrom_space, ← tokensFrom_space value]
  apply tokensFrom_symbol (by decide) rfl (by decide) (by decide)
  · rintro d ⟨⟩
    rfl
  · rfl

/-- The digits of a number are a token of it. -/
theorem tokensFrom_toDigits (n : Nat) {rest : List Char} (hrest : EndsNumeral rest) :
    tokensFrom total afterName (Nat.toDigits 10 n ++ rest) =
      (tokensFrom total false rest).map (.number (Float.ofScientific n false 0) :: ·) := by
  have hdigits : ∀ c ∈ Nat.toDigits 10 n, c.isDigit = true := fun c => isDigit_of_mem_toDigits
  exact tokensFrom_number (head?_toDigits n) (cutNumeral_digits hdigits hrest) (numeral?_toDigits n)

/-- An index behind a name is three tokens. -/
theorem tokensFrom_index (index : Nat) (rest : List Char) :
    tokensFrom total afterName ('[' :: (natText index).toList ++ ']' :: rest) =
      (tokensFrom total true rest).map fun ts =>
        .symbol .leftBracket :: .number (Float.ofScientific index false 0) ::
          .symbol .rightBracket :: ts := by
  have hends : EndsNumeral (']' :: rest) := by
    rintro c ⟨⟩
    decide
  have hclose : (Token.symbol .rightBracket).endsName = true := rfl
  rw [List.cons_append, tokensFrom_symbol (s := .leftBracket) (by decide) rfl (by decide)
    (by decide) (fun _ _ => rfl) rfl, natText, String.toList_ofList,
    tokensFrom_toDigits index hends,
    tokensFrom_symbol (s := .rightBracket) (by decide) rfl (by decide) (by decide)
      (fun _ _ => rfl) rfl, hclose]
  cases tokensFrom total true rest <;> rfl

/-- A minus sign in front of a text is a token. -/
theorem tokensFrom_signed (negative : Bool) {text : List Char} {ts : List Token}
    (h : ∀ total, tokensFrom total false text = .ok ts) :
    tokensFrom total false (signed negative text) =
      .ok (if negative then .symbol .minus :: ts else ts) := by
  cases negative with
  | false => exact h total
  | true =>
    have hminus : (Token.symbol .minus).endsName = false := rfl
    rw [signed, if_pos rfl, tokensFrom_symbol (s := .minus) (by decide) rfl (by decide)
      (by decide) (fun _ _ => rfl) rfl, hminus, h]
    rfl

end Token

end InputDeck
