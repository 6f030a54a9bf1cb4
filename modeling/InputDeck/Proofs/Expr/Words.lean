import InputDeck.Proofs.Expr.Stripping
import InputDeck.Proofs.Number.Spellings

/-!
# Words between blanks

Any tokens can be written as words with blanks between them, whether or not they make an
expression, and the text is cut into these tokens again: a blank ends every word, and behind a blank
no dot begins a number. No text at all has a number in it that cannot be read, since what is cut off
as one is a numeral.
-/

namespace InputDeck

open InputDeck.Text InputDeck.Number

namespace Token

/-- A token with the way it is written. -/
inductive Word where
  /-- A number, by a spelling. -/
  | number (spelling : Spelling)
  /-- A text without quotes, between quotes. -/
  | string (s : String) (hquote : '"' ∉ s.toList)
  /-- A segment of a name, as it is. -/
  | name (s : String) (hsegment : IsSegment s.toList)
  /-- A symbol, as it is. -/
  | symbol (s : Symbol)
  /-- A power, by two stars. -/
  | stars

namespace Word

/-- The token that a word is. -/
def token : Word → Token
  | number spelling => .number spelling.value
  | string s _ => .string s
  | name s _ => .name s
  | symbol s => .symbol s
  | stars => .symbol .caret

/-- A word as it is written. -/
def text : Word → List Char
  | number spelling => spelling.text
  | string s _ => '"' :: s.toList ++ ['"']
  | name s _ => s.toList
  | symbol s => s.spelling.toList
  | stars => ['*', '*']

end Word

/-- Words with blanks between any two of them, and perhaps at the ends. -/
inductive Spaced : List Word → List Char → Prop
  /-- An empty text has no words. -/
  | nil : Spaced [] []
  /-- A blank can stand in front. -/
  | blank {c : Char} {words : List Word} {cs : List Char} (hc : isBlank c = true)
      (h : Spaced words cs) : Spaced words (c :: cs)
  /-- A word stands in front of a blank or at the end. -/
  | word {words : List Word} {cs : List Char} (w : Word) (hcs : ∀ c ∈ cs.head?, isBlank c = true)
      (h : Spaced words cs) : Spaced (w :: words) (w.text ++ cs)

/-! ## Blanks behind words -/

variable {c : Char} {rest : List Char}

/-- A blank is none of the characters that are none. -/
private theorem eq_false_of_isBlank {p : Char → Bool} (hp : p c = true → isBlank c = false)
    (h : isBlank c = true) : p c = false := by
  rw [Bool.eq_false_iff]
  intro hc
  rw [hp hc] at h
  cases h

/-- No character is both a blank and another one. -/
private theorem ne_of_isBlank {d : Char} (h : isBlank c = true) (hd : isBlank d = false) : c ≠ d := by
  rintro rfl
  rw [hd] at h
  cases h

/-- No name goes on with a blank. -/
private theorem isNamePart_of_isBlank (h : isBlank c = true) : isNamePart c = false :=
  eq_false_of_isBlank isBlank_of_isNamePart h

/-- No number goes on with a blank. -/
private theorem endsNumeral_of_isBlank (h : ∀ c ∈ rest.head?, isBlank c = true) :
    EndsNumeral rest := by
  intro c hc
  have hblank := h c hc
  refine ⟨eq_false_of_isBlank isBlank_of_isDigit hblank, ne_of_isBlank hblank (by decide), ?_⟩
  simp [isExponentMark, ne_of_isBlank hblank (show isBlank 'e' = false by decide),
    ne_of_isBlank hblank (show isBlank 'E' = false by decide)]

/-- No symbol goes on with a blank. -/
private theorem joinsSymbol_of_isBlank (h : isBlank c = true) : joinsSymbol c = false := by
  have hne : ∀ d, isBlank d = false → c ≠ d := fun d => ne_of_isBlank h
  simp [joinsSymbol, hne '=' (by decide), hne '*' (by decide), hne '&' (by decide),
    hne '|' (by decide)]

/-! ## Words at the front of texts -/

variable {total : Nat} {afterName : Bool}

/-- A symbol in front of a blank is what the text begins with. -/
private theorem exists_isNext_spelling (s : Symbol) (h : ∀ c ∈ rest.head?, isBlank c = true) :
    ∃ c used, s.spelling.toList = c :: used ∧ isBlank c = false ∧
      IsNext afterName c (used ++ rest) (.symbol s) rest := by
  have hsingle : ∀ {c : Char}, single? c = some s → cutSymbol c ([] ++ rest) = some (s, rest) :=
    fun hs => cutSymbol_of_single? hs fun d hd =>
      double?_eq_none (joinsSymbol_of_isBlank (h d hd))
  cases s
  case dot =>
    have hnumber : startsNumber afterName '.' rest = false := by
      cases rest with
      | nil => simp [startsNumber]
      | cons d rest =>
        have hd : d.isDigit = false := eq_false_of_isBlank isBlank_of_isDigit (h d rfl)
        simp [startsNumber, hd]
    exact ⟨'.', [], rfl, by decide, .symbol hnumber (by decide) (by decide) (hsingle rfl)⟩
  case lessEqual | greaterEqual | equal | notEqual | both | either =>
    exact ⟨_, _, rfl, by decide, .symbol rfl (by decide) (by decide) rfl⟩
  all_goals exact ⟨_, [], rfl, by decide, .symbol rfl (by decide) (by decide) (hsingle rfl)⟩

/-- A word in front of a blank is a token. -/
theorem tokensFrom_word (w : Word) (h : ∀ c ∈ rest.head?, isBlank c = true) :
    tokensFrom total afterName (w.text ++ rest) =
      (tokensFrom total w.token.endsName rest).map (w.token :: ·) := by
  cases w with
  | number spelling =>
    exact tokensFrom_number spelling.head?_text
      (Spelling.cutNumeral_append (endsNumeral_of_isBlank h)) spelling.numeral?_text
  | string s hquote =>
    have hstring := @tokensFrom_string total afterName s.toList rest hquote
    rw [String.ofList_toList] at hstring
    rw [Word.text, List.append_assoc]
    exact hstring
  | name s hsegment =>
    have hname := @tokensFrom_segment total afterName s.toList rest hsegment
      fun c hc => isNamePart_of_isBlank (h c hc)
    rwa [String.ofList_toList] at hname
  | symbol s =>
    obtain ⟨c, used, hspelling, hvisible, hnext⟩ := exists_isNext_spelling s h
    rw [Word.text, hspelling, List.cons_append]
    exact tokensFrom_cons hvisible (next_eq_ok_iff.2 hnext)
  | stars =>
    have hnext : IsNext afterName '*' ('*' :: rest) (.symbol .caret) rest :=
      .symbol rfl (by decide) (by decide) rfl
    exact tokensFrom_cons (by decide) (next_eq_ok_iff.2 hnext)

/-- Words with blanks between them are cut into their tokens. -/
theorem Spaced.tokensFrom_eq {words : List Word} {cs : List Char} (h : Spaced words cs) :
    tokensFrom total afterName cs = .ok (words.map Word.token) := by
  induction h generalizing afterName with
  | nil =>
    rw [tokensFrom]
    rfl
  | blank hc _ ih =>
    rw [tokensFrom, if_pos hc]
    exact ih
  | word w hcs _ ih =>
    rw [tokensFrom_word w hcs, ih]
    rfl

/-! ## Numbers that cannot be read -/

/-- What begins a token is no number that cannot be read. -/
theorem next_ne_invalidNumber {c : Char} {cs : List Char} {s : String} :
    next total afterName c cs ≠ .error (.invalidNumber s) := by
  intro h
  unfold next at h
  split at h
  · next hnumber =>
    obtain ⟨x, hx⟩ := exists_numeral?_cutNumeral hnumber
    simp only [hx] at h
    cases h
  · repeat' split at h
    all_goals cases h

/-- No text has a number that cannot be read. -/
theorem tokensFrom_ne_invalidNumber {cs : List Char} {s : String} :
    tokensFrom total afterName cs ≠ .error (.invalidNumber s) := by
  fun_induction tokensFrom total afterName cs with
  | case1 => simp
  | case2 afterName c cs hblank ih => exact ih
  | case3 afterName c cs hblank e hnext =>
    intro h
    cases h
    exact next_ne_invalidNumber hnext
  | case4 afterName c cs hblank t rest hnext ih =>
    intro h
    cases hrest : tokensFrom total t.endsName rest with
    | ok ts =>
      rw [hrest] at h
      cases h
    | error e =>
      rw [hrest] at h
      cases h
      exact ih hrest

/--
Tokens written with blanks between them are read again, and no number is ever refused. Words of any
tokens with blanks between any two of them are cut into exactly these tokens; and no text at all has
a number in it that cannot be read.
-/
theorem ofText_spaced :
    (∀ words cs, Spaced words cs → ofText (String.ofList cs) = .ok (words.map Word.token)) ∧
      ∀ text s, ofText text ≠ .error (.invalidNumber s) := by
  refine ⟨fun words cs h => ?_, fun text s => tokensFrom_ne_invalidNumber⟩
  rw [ofText, String.toList_ofList]
  exact h.tokensFrom_eq

/-- A dot between blanks is a token of its own, also in front of a number. -/
theorem ofText_spaced_dot_and_number :
    ofText "a . 1.5e-3 **" =
      .ok [.name "a", .symbol .dot, .number (ofDecimal 15 (-4)), .symbol .caret] := by
  have hspaced := Spaced.word .stars (by simp) .nil
  have hnumber := Spaced.word
    (.number ⟨.ofNat 1, some (.ofNat 5), some ⟨'e', rfl, some .minus, .ofNat 3⟩⟩)
    (by rintro c ⟨⟩; decide) (hspaced.blank isBlank_space)
  have hdot := Spaced.word (.symbol .dot) (by rintro c ⟨⟩; decide) (hnumber.blank isBlank_space)
  have hname := Spaced.word (.name "a" (by decide)) (by rintro c ⟨⟩; decide)
    (hdot.blank isBlank_space)
  exact ofText_spaced.1 _ _ hname

end Token

end InputDeck
