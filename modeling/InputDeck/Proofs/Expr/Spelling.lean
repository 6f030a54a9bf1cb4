import InputDeck.Expr.Lexing
import InputDeck.Scan
import InputDeck.Proofs.Outcome
import InputDeck.Proofs.Text.Visible

/-!
# Spellings of tokens

A statement that is cut into tokens is the spellings of its tokens with blanks between them. Only a
text token has blanks or quotes in its spelling, and it has exactly two quotes. So the quotes of
such a statement come in pairs, and an assignment sign between blanks that follows closed quotes is
a token of its own.
-/

namespace InputDeck

open InputDeck.Text InputDeck.Number

namespace Token

/-- The characters of numerals. -/
def isNumeralChar (c : Char) : Bool :=
  c.isDigit || c == '.' || c == 'e' || c == 'E' || c == '+' || c == '-'

/-- The segments of names: they begin as names do and go on as names do. -/
structure IsSegment (cs : List Char) : Prop where
  /-- A segment begins with a letter or an underscore. -/
  head : ∃ c rest, cs = c :: rest ∧ isNameStart c = true
  /-- A segment has letters, digits and underscores. -/
  isNamePart : ∀ c ∈ cs, isNamePart c = true

/-- A segment is known by its first character and by all of its characters. -/
theorem isSegment_iff {cs : List Char} :
    IsSegment cs ↔ cs.head?.any isNameStart = true ∧ cs.all isNamePart = true := by
  constructor
  · rintro ⟨⟨c, rest, rfl, hstart⟩, hparts⟩
    exact ⟨hstart, List.all_eq_true.2 hparts⟩
  · rintro ⟨hstart, hparts⟩
    cases cs with
    | nil => cases hstart
    | cons c rest => exact ⟨⟨c, rest, rfl, hstart⟩, List.all_eq_true.1 hparts⟩

instance : DecidablePred IsSegment := fun _ => decidable_of_iff' _ isSegment_iff

/-- How tokens are spelled in statements. -/
inductive Spells : Token → List Char → Prop
  /-- A number is spelled by a numeral of its value. -/
  | number {x : Float} {cs : List Char} (hread : numeral? cs = some x)
      (hchars : ∀ c ∈ cs, isNumeralChar c = true) : Spells (.number x) cs
  /-- A segment of a name is spelled as it is. -/
  | name {s : String} (h : IsSegment s.toList) : Spells (.name s) s.toList
  /-- A text is spelled between quotes. -/
  | string {s : String} (h : '"' ∉ s.toList) : Spells (.string s) ('"' :: s.toList ++ ['"'])
  /-- A symbol is spelled as it is. -/
  | symbol (s : Symbol) : Spells (.symbol s) s.spelling.toList
  /-- A power may be spelled with two stars. -/
  | stars : Spells (.symbol .caret) ['*', '*']

/-- Tokens that are the words of a text, with blanks between them. -/
inductive Spelled : List Token → List Char → Prop
  /-- An empty text has no words. -/
  | nil : Spelled [] []
  /-- A blank belongs to no word. -/
  | blank {c : Char} {ts : List Token} {cs : List Char} (hc : isBlank c = true)
      (h : Spelled ts cs) : Spelled ts (c :: cs)
  /-- A word comes before the others; one that is an assignment sign is not followed by another. -/
  | token {t : Token} {used : List Char} {ts : List Token} {cs : List Char} (ht : Spells t used)
      (hassign : t = .symbol .assign → cs.head? ≠ some '=') (h : Spelled ts cs) :
      Spelled (t :: ts) (used ++ cs)

/-- A digit is a character of numerals. -/
private theorem isNumeralChar_of_isDigit {c : Char} (h : c.isDigit = true) :
    isNumeralChar c = true := by
  simp [isNumeralChar, h]

/-- A sign has characters of numerals. -/
private theorem isNumeralChar_of_mem_cutSign {c : Char} {cs : List Char} (h : c ∈ (cutSign cs).1) :
    isNumeralChar c = true := by
  unfold cutSign at h
  split at h
  · obtain rfl := List.mem_singleton.1 h
    decide
  · obtain rfl := List.mem_singleton.1 h
    decide
  · cases h

/-- An exponent has characters of numerals. -/
private theorem isNumeralChar_of_mem_cutExponent {c : Char} {cs : List Char}
    (h : c ∈ (cutExponent cs).1) : isNumeralChar c = true := by
  cases cs with
  | nil => cases h
  | cons mark cs =>
    simp only [cutExponent] at h
    split at h
    · next hmark =>
      simp only [List.mem_append, List.mem_cons] at h
      rcases h with (rfl | h) | h
      · have := hmark.1
        simp only [isExponentMark, Bool.or_eq_true, beq_iff_eq] at this
        rcases this with rfl | rfl <;> decide
      · exact isNumeralChar_of_mem_cutSign h
      · exact isNumeralChar_of_isDigit (isDigit_of_mem_cutDigits h)
    · cases h

/-- What is cut off as a numeral has characters of numerals. -/
theorem isNumeralChar_of_mem_cutNumeral {c : Char} {cs : List Char} (h : c ∈ (cutNumeral cs).1) :
    isNumeralChar c = true := by
  simp only [cutNumeral, List.mem_append] at h
  rcases h with (h | h) | h
  · exact isNumeralChar_of_isDigit (isDigit_of_mem_cutDigits h)
  · unfold cutDecimals at h
    split at h
    · obtain rfl | h := List.mem_cons.1 h
      · decide
      · exact isNumeralChar_of_isDigit (isDigit_of_mem_cutDigits h)
    · cases h
  · exact isNumeralChar_of_mem_cutExponent h

/-- A character of two that spell a symbol together. -/
private theorem spells_of_double? {c d : Char} {s : Symbol} (h : double? c d = some s) :
    Spells (.symbol s) [c, d] := by
  unfold double? at h
  split at h <;> cases h
  · exact .stars
  all_goals exact .symbol _

/-- A character that spells a symbol alone. -/
private theorem spells_of_single? {c : Char} {s : Symbol} (h : single? c = some s) :
    Spells (.symbol s) [c] := by
  unfold single? at h
  split at h <;> cases h
  all_goals exact .symbol _

/-- What is cut off as a symbol spells it, and an assignment sign is no part of a longer one. -/
theorem spells_of_cutSymbol {c : Char} {cs rest : List Char} {s : Symbol}
    (h : cutSymbol c cs = some (s, rest)) :
    ∃ used, c :: cs = used ++ rest ∧ Spells (.symbol s) used ∧
      (s = .assign → rest.head? ≠ some '=') := by
  unfold cutSymbol at h
  split at h
  · next d ds =>
    split at h
    · next t hdouble =>
      obtain ⟨rfl, rfl⟩ : t = s ∧ ds = rest := by simpa using h
      refine ⟨[c, d], rfl, spells_of_double? hdouble, ?_⟩
      rintro rfl
      unfold double? at hdouble
      split at hdouble <;> cases hdouble
    · next hdouble =>
      obtain ⟨t, hsingle, ht⟩ := Option.map_eq_some_iff.1 h
      obtain ⟨rfl, rfl⟩ : t = s ∧ d :: ds = rest := by simpa using ht
      refine ⟨[c], rfl, spells_of_single? hsingle, ?_⟩
      rintro rfl hhead
      have hc : c = '=' := by
        unfold single? at hsingle
        split at hsingle <;> first | rfl | cases hsingle
      obtain rfl : d = '=' := by simpa using hhead
      rw [hc] at hdouble
      cases hdouble
  · obtain ⟨t, hsingle, ht⟩ := Option.map_eq_some_iff.1 h
    obtain ⟨rfl, rfl⟩ : t = s ∧ [] = rest := by simpa using ht
    exact ⟨[c], rfl, spells_of_single? hsingle, by simp⟩

/-- What the next token of a text can be, and what is left behind it. -/
inductive IsNext (afterName : Bool) (c : Char) (cs : List Char) : Token → List Char → Prop
  /-- A numeral is a number. -/
  | number {x : Float} (h : startsNumber afterName c cs = true)
      (hread : numeral? (cutNumeral (c :: cs)).1 = some x) :
      IsNext afterName c cs (.number x) (cutNumeral (c :: cs)).2
  /-- A letter or an underscore begins a segment of a name. -/
  | name (h : isNameStart c = true) :
      IsNext afterName c cs (.name (String.ofList (c :: cs.takeWhile isNamePart)))
        (cs.dropWhile isNamePart)
  /-- A quote begins a text up to the next quote. -/
  | string {text rest : List Char} (hc : c = '"') (hcut : cutFirst '"' cs = some (text, rest)) :
      IsNext afterName c cs (.string (String.ofList text)) rest
  /-- Anything else begins a symbol. -/
  | symbol {s : Symbol} {rest : List Char} (hnumber : startsNumber afterName c cs = false)
      (hname : isNameStart c = false) (hquote : c ≠ '"') (hcut : cutSymbol c cs = some (s, rest)) :
      IsNext afterName c cs (.symbol s) rest

section

variable {total : Nat} {afterName : Bool} {c : Char} {cs rest : List Char} {t : Token}

/-- The next token is one of these, in a statement of any length. -/
theorem next_eq_ok_iff :
    next total afterName c cs = .ok (t, rest) ↔ IsNext afterName c cs t rest := by
  constructor
  · intro h
    unfold next at h
    split at h
    · next hnumber =>
      simp only at h
      split at h
      · next hread =>
        obtain ⟨rfl, rfl⟩ := Prod.mk.inj (Except.ok.inj h)
        exact .number hnumber hread
      · cases h
    · next hnumber =>
      split at h
      · next hname =>
        obtain ⟨rfl, rfl⟩ := Prod.mk.inj (Except.ok.inj h)
        exact .name hname
      · next hname =>
        split at h
        · next hquote =>
          split at h
          · next hcut =>
            obtain ⟨rfl, rfl⟩ := Prod.mk.inj (Except.ok.inj h)
            exact .string hquote hcut
          · cases h
        · next hquote =>
          split at h
          · next hcut =>
            obtain ⟨rfl, rfl⟩ := Prod.mk.inj (Except.ok.inj h)
            exact .symbol (by simpa using hnumber) (by simpa using hname) hquote hcut
          · cases h
  · intro h
    cases h with
    | number h hread => simp only [next, if_pos h, hread]
    | name h => rw [next, startsNumber_of_isNameStart h, if_neg (by decide), if_pos h]
    | string hc hcut =>
      subst hc
      have hname : isNameStart '"' = false := by decide
      simp [next, startsNumber, hname, hcut]
    | symbol hnumber hname hquote hcut => simp [next, hnumber, hname, hquote, hcut]

/-- The token at the front of a text is spelled by what is cut off. -/
theorem spells_of_next (h : next total afterName c cs = .ok (t, rest)) :
    ∃ used, c :: cs = used ++ rest ∧ Spells t used ∧
      (t = .symbol .assign → rest.head? ≠ some '=') := by
  cases next_eq_ok_iff.1 h with
  | number _ hread =>
    exact ⟨_, (cutNumeral_append (c :: cs)).symm,
      .number hread fun _ hc => isNumeralChar_of_mem_cutNumeral hc, by simp⟩
  | name hstart =>
    have hsegment : IsSegment (c :: cs.takeWhile isNamePart) := by
      refine ⟨⟨c, _, rfl, hstart⟩, fun d hd => ?_⟩
      rcases List.mem_cons.1 hd with rfl | hd
      · simp only [isNameStart, Bool.or_eq_true] at hstart
        simp only [isNamePart, Char.isAlphanum, Bool.or_eq_true]
        exact hstart.imp .inl id
      · exact List.all_eq_true.1 List.all_takeWhile d hd
    refine ⟨c :: cs.takeWhile isNamePart, ?_, ?_, by simp⟩
    · rw [List.cons_append, List.takeWhile_append_dropWhile]
    · have := Spells.name (s := String.ofList (c :: cs.takeWhile isNamePart))
      rw [String.toList_ofList] at this
      exact this hsegment
  | @string text _ hquote hcut =>
    obtain ⟨rfl, hnot⟩ := cutFirst_eq_some hcut
    refine ⟨'"' :: text ++ ['"'], by simp [hquote], ?_, by simp⟩
    have := Spells.string (s := String.ofList text)
    rw [String.toList_ofList] at this
    exact this hnot
  | symbol _ _ _ hcut =>
    obtain ⟨used, hused, hspells, hassign⟩ := spells_of_cutSymbol hcut
    exact ⟨used, hused, hspells, fun ht => hassign (by simpa using ht)⟩

end

/-- The tokens of a text spell it. -/
theorem spelled_of_tokensFrom {total : Nat} {afterName : Bool} {cs : List Char} {ts : List Token}
    (h : tokensFrom total afterName cs = .ok ts) : Spelled ts cs := by
  fun_induction tokensFrom total afterName cs generalizing ts with
  | case1 =>
    obtain rfl : [] = ts := by simpa using h
    exact .nil
  | case2 afterName c cs hblank ih => exact .blank hblank (ih h)
  | case3 => cases h
  | case4 afterName c cs hblank t rest hnext ih =>
    obtain ⟨ts, hts, rfl⟩ := Except.map_eq_ok_iff.1 h
    obtain ⟨used, hused, hspells, hassign⟩ := spells_of_next hnext
    rw [hused]
    exact .token hspells hassign (ih hts)

/-- The tokens of a statement spell it. -/
theorem spelled_of_ofText {text : String} {ts : List Token} (h : ofText text = .ok ts) :
    Spelled ts text.toList :=
  spelled_of_tokensFrom h

/-- Whether a token can end an operand. -/
def endsOperand : Token → Bool
  | number _ => true
  | string _ => true
  | name _ => true
  | symbol .rightParen => true
  | symbol .rightBracket => true
  | symbol _ => false

/-- No class of letters and digits holds a given other character. -/
private theorem ne_of_isNamePart {c d : Char} (h : isNamePart c = true)
    (hd : isNamePart d = false) : c ≠ d := by
  rintro rfl
  simp [h] at hd

private theorem ne_of_isNumeralChar {c d : Char} (h : isNumeralChar c = true)
    (hd : isNumeralChar d = false) : c ≠ d := by
  rintro rfl
  simp [h] at hd

/-- No spelling is empty. -/
theorem Spells.ne_nil {t : Token} {cs : List Char} (h : Spells t cs) : cs ≠ [] := by
  cases h with
  | number hread =>
    rintro rfl
    simp [numeral?, cutDigits] at hread
  | name h =>
    obtain ⟨c, rest, hcons, -⟩ := h.head
    simp [hcons]
  | string => simp
  | symbol s => cases s <;> decide
  | stars => decide

/-- Quotes come in pairs in every spelling. -/
theorem Spells.count_quote {t : Token} {cs : List Char} (h : Spells t cs) :
    cs.count '"' % 2 = 0 := by
  cases h with
  | number _ hchars =>
    rw [List.count_eq_zero.2 fun hmem => ne_of_isNumeralChar (hchars _ hmem) (by decide) rfl]
  | name h =>
    rw [List.count_eq_zero.2 fun hmem => ne_of_isNamePart (h.isNamePart _ hmem) (by decide) rfl]
  | string h => simp [List.count_eq_zero.2 h]
  | symbol s => cases s <;> decide
  | stars => decide

/-- Only a text has spaces in its spelling. -/
theorem Spells.exists_string {t : Token} {cs : List Char} (h : Spells t cs) (hspace : ' ' ∈ cs) :
    ∃ s, t = .string s := by
  cases h with
  | number _ hchars => exact absurd rfl (ne_of_isNumeralChar (hchars _ hspace) (by decide))
  | name h => exact absurd rfl (ne_of_isNamePart (h.isNamePart _ hspace) (by decide))
  | @string s h => exact ⟨s, rfl⟩
  | symbol s =>
    have hnot : ' ' ∉ s.spelling.toList := by cases s <;> decide
    exact absurd hspace hnot
  | stars => simp at hspace

/-- What begins with an assignment sign and goes on with a space begins with that token. -/
private theorem eq_assign_of_spells {t : Token} {rest cs ds : List Char}
    (h : Spells t ('=' :: rest)) (hcs : rest ++ cs = ' ' :: ds) : t = .symbol .assign := by
  generalize hused : '=' :: rest = used at h
  cases h with
  | number _ hchars =>
    exact absurd rfl (ne_of_isNumeralChar (hchars '=' (by simp [← hused])) (by decide))
  | name h =>
    exact absurd rfl (ne_of_isNamePart (h.isNamePart '=' (by simp [← hused])) (by decide))
  | string => cases hused
  | symbol s => cases s <;> simp_all [Symbol.spelling]
  | stars => cases hused

/-- The characters that operands end with. -/
def closesOperand (c : Char) : Bool :=
  isNumeralChar c || isNamePart c || c == '"' || c == ')' || c == ']'

/-- The last character of a token that can end an operand. -/
theorem Spells.closesOperand_getLast? {t : Token} {cs : List Char} (h : Spells t cs)
    (ht : t.endsOperand = true) {c : Char} (hc : cs.getLast? = some c) :
    closesOperand c = true := by
  have hmem := List.mem_of_getLast? hc
  cases h with
  | number _ hchars => simp [closesOperand, hchars c hmem]
  | name h => simp [closesOperand, h.isNamePart c hmem]
  | string =>
    rw [List.getLast?_concat] at hc
    obtain rfl := Option.some.inj hc
    rfl
  | symbol s =>
    cases s <;> cases ht
    all_goals
      obtain rfl := Option.some.inj hc
      rfl
  | stars => cases ht

/-- The quotes of a text that is cut into tokens come in pairs. -/
theorem Spelled.count_quote {ts : List Token} {cs : List Char} (h : Spelled ts cs) :
    cs.count '"' % 2 = 0 := by
  induction h with
  | nil => rfl
  | @blank c ts cs hc h ih =>
    have hne : c ≠ '"' := by
      rintro rfl
      exact absurd hc (by decide)
    rw [List.count_cons_of_ne hne]
    exact ih
  | token ht _ h ih =>
    have := ht.count_quote
    rw [List.count_append]
    omega

/-- The text of a text token is a part of the statement. -/
theorem Spelled.mem_of_string {ts : List Token} {cs : List Char} (h : Spelled ts cs) {s : String}
    (hs : .string s ∈ ts) {c : Char} (hc : c ∈ s.toList) : c ∈ cs ∧ c ≠ '"' := by
  induction h with
  | nil => cases hs
  | blank _ _ ih => exact ⟨List.mem_cons_of_mem _ (ih hs).1, (ih hs).2⟩
  | token ht _ _ ih =>
    rcases List.mem_cons.1 hs with rfl | hs
    · cases ht with
      | string hquote =>
        refine ⟨by simp [hc], ?_⟩
        rintro rfl
        exact hquote hc
    · exact ⟨List.mem_append_right _ (ih hs).1, (ih hs).2⟩

/-- The name tokens of a statement are segments. -/
theorem Spelled.isSegment_of_name {ts : List Token} {cs : List Char} (h : Spelled ts cs)
    {s : String} (hs : .name s ∈ ts) : IsSegment s.toList := by
  induction h with
  | nil => cases hs
  | blank _ _ ih => exact ih hs
  | token ht _ _ ih =>
    rcases List.mem_cons.1 hs with rfl | hs
    · cases ht with
      | name h => exact h
    · exact ih hs

/-- A token whose spelling has a space is a text, whose first quote is open in front of the space. -/
theorem Spells.count_quote_of_space {t : Token} {front middle : List Char}
    (h : Spells t (front ++ ' ' :: middle)) : front.count '"' = 1 := by
  generalize hused : front ++ ' ' :: middle = used at h
  obtain ⟨s, rfl⟩ := h.exists_string (by simp [← hused])
  cases h with
  | string hquote =>
    cases front with
    | nil => cases hused
    | cons c front =>
      obtain ⟨rfl, htail⟩ := List.cons.inj hused
      have htail : front ++ ' ' :: middle = s.toList ++ ['"'] := htail
      have hstart : front <+: s.toList := by
        refine List.prefix_of_prefix_length_le ⟨_, htail⟩ (List.prefix_append _ ['"']) ?_
        have := congrArg List.length htail
        simp only [List.length_append, List.length_cons, List.length_nil] at this
        omega
      have hnone : front.count '"' = 0 :=
        List.count_eq_zero.2 fun hmem => hquote (hstart.subset hmem)
      rw [List.count_cons_self, hnone]

/-- An assignment sign that a statement begins with is its first token, with a space behind it. -/
theorem Spelled.exists_assign_of_cons {ts : List Token} {rest : List Char}
    (h : Spelled ts ('=' :: ' ' :: rest)) : ∃ vs, ts = .symbol .assign :: vs := by
  generalize hcs : '=' :: ' ' :: rest = cs at h
  cases h with
  | nil => cases hcs
  | blank hc =>
    obtain ⟨rfl, -⟩ := List.cons.inj hcs
    exact absurd hc (by decide)
  | @token t used ts after ht _ _ =>
    obtain ⟨c, used, rfl⟩ := List.exists_cons_of_ne_nil ht.ne_nil
    obtain ⟨rfl, hused⟩ := List.cons.inj hcs
    exact ⟨ts, by rw [eq_assign_of_spells ht hused.symm]⟩

/-- Behind closed quotes, an assignment sign between spaces is a token, with the words in front of
it on its left. -/
theorem Spelled.exists_assign_of_spaces {ts : List Token} {cs front rest : List Char}
    (h : Spelled ts cs) (hcs : cs = front ++ ' ' :: '=' :: ' ' :: rest)
    (hfront : front.count '"' % 2 = 0) :
    ∃ us vs, ts = us ++ .symbol .assign :: vs ∧ Spelled us front := by
  -- Every word lies in front of the sign, since one that reaches over the space has a quote there.
  induction h generalizing front with
  | nil => simp at hcs
  | @blank c ts cs hc h ih =>
    cases front with
    | nil =>
      obtain ⟨-, rfl⟩ := List.cons.inj hcs
      obtain ⟨vs, rfl⟩ := h.exists_assign_of_cons
      exact ⟨[], vs, rfl, .nil⟩
    | cons d front =>
      obtain ⟨rfl, htail⟩ := List.cons.inj hcs
      have hne : c ≠ '"' := by
        rintro rfl
        exact absurd hc (by decide)
      rw [List.count_cons_of_ne hne] at hfront
      obtain ⟨us, vs, rfl, hus⟩ := ih htail hfront
      exact ⟨us, vs, rfl, .blank hc hus⟩
  | @token t used ts cs ht hassign h ih =>
    rcases List.append_eq_append_iff.1 hcs with ⟨middle, rfl, hmiddle⟩ | ⟨middle, hused, hmiddle⟩
    · have heven : middle.count '"' % 2 = 0 := by
        have := ht.count_quote
        rw [List.count_append] at hfront
        omega
      obtain ⟨us, vs, rfl, hus⟩ := ih hmiddle heven
      refine ⟨t :: us, vs, rfl, .token ht (fun hu => ?_) hus⟩
      have hhead := hassign hu
      rw [hmiddle] at hhead
      cases middle with
      | nil => simp
      | cons d middle => simpa using hhead
    · cases middle with
      | nil =>
        rw [List.append_nil] at hused
        have hcs : cs = [] ++ ' ' :: '=' :: ' ' :: rest := by simpa using hmiddle.symm
        obtain ⟨us, vs, rfl, hus⟩ := ih hcs rfl
        refine ⟨t :: us, vs, rfl, ?_⟩
        rw [← hused, ← List.append_nil used]
        exact .token ht (by simp) hus
      | cons d middle =>
        obtain ⟨rfl, -⟩ := List.cons.inj hmiddle
        rw [hused] at ht
        have := ht.count_quote_of_space
        omega

/-- An assignment token has the words before it on its left, whose spelling it does not join, and
no other sign on its right. -/
theorem Spelled.exists_assign {us vs : List Token} {cs : List Char}
    (h : Spelled (us ++ .symbol .assign :: vs) cs) :
    ∃ front rest, cs = front ++ '=' :: rest ∧ Spelled us front ∧ rest.head? ≠ some '=' := by
  generalize hts : us ++ Token.symbol .assign :: vs = ts at h
  induction h generalizing us with
  | nil => simp at hts
  | @blank c ts cs hc h ih =>
    obtain ⟨front, rest, rfl, hfront, hrest⟩ := ih hts
    exact ⟨c :: front, rest, rfl, .blank hc hfront, hrest⟩
  | @token t used ts cs ht hassign h ih =>
    cases us with
    | nil =>
      obtain ⟨rfl, rfl⟩ := List.cons.inj hts
      cases ht with
      | symbol => exact ⟨[], cs, rfl, .nil, hassign rfl⟩
    | cons u us =>
      obtain ⟨rfl, htail⟩ := List.cons.inj hts
      obtain ⟨front, rest, rfl, hfront, hrest⟩ := ih htail
      refine ⟨used ++ front, rest, by simp, .token ht (fun hu => ?_) hfront, hrest⟩
      have := hassign hu
      cases front with
      | nil => simp
      | cons d front => simpa using this

/-- The words of two lists are those of the one and then those of the other. -/
theorem Spelled.exists_append {us vs : List Token} {cs : List Char} (h : Spelled (us ++ vs) cs) :
    ∃ front rest, cs = front ++ rest ∧ Spelled us front ∧ Spelled vs rest := by
  generalize hts : us ++ vs = ts at h
  induction h generalizing us with
  | nil =>
    obtain ⟨rfl, rfl⟩ := List.append_eq_nil_iff.1 hts
    exact ⟨[], [], rfl, .nil, .nil⟩
  | @blank c ts cs hc h ih =>
    obtain ⟨front, rest, rfl, hfront, hrest⟩ := ih hts
    exact ⟨c :: front, rest, rfl, .blank hc hfront, hrest⟩
  | @token t used ts cs ht hassign h ih =>
    cases us with
    | nil =>
      obtain rfl : vs = t :: ts := hts
      exact ⟨[], used ++ cs, rfl, .nil, .token ht hassign h⟩
    | cons u us =>
      obtain ⟨rfl, htail⟩ := List.cons.inj hts
      obtain ⟨front, rest, rfl, hfront, hrest⟩ := ih htail
      refine ⟨used ++ front, rest, by simp, .token ht (fun hu => ?_) hfront, hrest⟩
      have hhead := hassign hu
      cases front with
      | nil => simp
      | cons d front => simpa using hhead

/-- The first word has only blanks in front of it. -/
theorem Spelled.exists_cons {t : Token} {ts : List Token} {cs : List Char}
    (h : Spelled (t :: ts) cs) :
    ∃ blanks used rest, cs = blanks ++ (used ++ rest) ∧ Spelled [] blanks ∧ Spells t used ∧
      Spelled ts rest := by
  generalize hts : t :: ts = us at h
  induction h with
  | nil => cases hts
  | @blank c us cs hc h ih =>
    obtain ⟨blanks, used, rest, rfl, hblanks, hused, hrest⟩ := ih hts
    exact ⟨c :: blanks, used, rest, rfl, .blank hc hblanks, hused, hrest⟩
  | @token u used us cs hu _ h _ =>
    obtain ⟨rfl, rfl⟩ := List.cons.inj hts
    exact ⟨[], used, cs, rfl, .nil, hu, h⟩

/-- An empty text has no words. -/
private theorem Spelled.eq_nil {ts : List Token} (h : Spelled ts []) : ts = [] := by
  generalize hcs : ([] : List Char) = cs at h
  cases h with
  | nil => rfl
  | blank => cases hcs
  | token ht => exact absurd (List.append_eq_nil_iff.1 hcs.symm).1 ht.ne_nil

/-- The last character of words of which the last one can end an operand, unless it is a blank. -/
theorem Spelled.closesOperand_getLast? {ts : List Token} {cs : List Char} (h : Spelled ts cs)
    (hts : ∀ t, ts.getLast? = some t → t.endsOperand = true) {c : Char}
    (hc : cs.getLast? = some c) : isBlank c = true ∨ closesOperand c = true := by
  induction h with
  | nil => cases hc
  | @blank d ts cs hd h ih =>
    cases cs with
    | nil =>
      obtain rfl : d = c := by simpa using hc
      exact .inl hd
    | cons e cs => exact ih hts (by simpa using hc)
  | @token t used ts cs ht _ h ih =>
    cases cs with
    | nil =>
      have hts' : ts = [] := h.eq_nil
      rw [List.append_nil] at hc
      exact .inr (ht.closesOperand_getLast? (hts t (by simp [hts'])) hc)
    | cons e cs =>
      refine ih (fun u hu => hts u ?_) (by simpa [List.getLast?_append] using hc)
      rw [List.getLast?_cons, hu]
      rfl

/-- Behind words of which the last one can end an operand, no other character stands. -/
theorem Spelled.getLast?_ne {ts : List Token} {cs : List Char} (h : Spelled ts cs)
    (hts : ∀ t, ts.getLast? = some t → t.endsOperand = true) {d : Char}
    (hblank : isBlank d = false) (hd : closesOperand d = false) : cs.getLast? ≠ some d := by
  intro hlast
  rcases h.closesOperand_getLast? hts hlast with hc | hc
  · rw [hblank] at hc
    cases hc
  · rw [hd] at hc
    cases hc

end Token

end InputDeck
