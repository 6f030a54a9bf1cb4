import InputDeck.Proofs.Number.Numerals
import InputDeck.Proofs.Suit.HeaderNames
import InputDeck.Proofs.Text.WrittenLines
import InputDeck.Store.DeckText

/-!
# Reading written cards

What stands in a deck for a card is the body of a line, and so is what stands there for a suit. A
line with the name of a card and a written value assigns the value to the name, and the header of a
suit leads to it, whatever the texts among the values hold.
-/

namespace InputDeck

open InputDeck.Text InputDeck.Number InputDeck.Scan

variable {settings : Settings}

namespace Value

/-- The characters that written values have outside quotes. -/
def isBareChar (c : Char) : Bool := Token.isNamePart c || Token.isNumeralChar c || c == '/'

/-- What a value can be written as. -/
structure IsWritten (cs : List Char) : Prop where
  /-- Only spaces are blank. -/
  plain : IsPlain cs
  /-- All quotes are closed. -/
  paired : QuotesPaired cs
  /-- Outside quotes there are only characters of numbers and truth values. -/
  bare : ∀ c ∈ outside false cs, isBareChar c = true
  /-- It begins with such a character or with a quote. -/
  head : ∃ c rest, cs = c :: rest ∧ (isBareChar c = true ∨ c = '"')
  /-- It ends in such a character or in a quote. -/
  last : ∃ front c, cs = front ++ [c] ∧ (isBareChar c = true ∨ c = '"')

/-- A bare character is no other one. -/
theorem ne_of_isBareChar {c d : Char} (h : isBareChar c = true) (hd : isBareChar d = false) :
    c ≠ d := by
  rintro rfl
  rw [h] at hd
  cases hd

/-- No bare character is blank. -/
theorem isBlank_of_isBareChar {c : Char} (h : isBareChar c = true) : isBlank c = false := by
  simp only [isBareChar, Token.isNumeralChar, Bool.or_eq_true, beq_iff_eq] at h
  rcases h with (h | (((((h | rfl) | rfl) | rfl) | rfl) | rfl)) | rfl
  · exact Token.isBlank_of_isNamePart h
  · exact Number.isBlank_of_isDigit h
  all_goals decide

/-- A mark is not bare. -/
theorem isBareChar_of_isMark {c : Char} (h : Settings.IsMark c) : isBareChar c = false := by
  have hdigit : c.isDigit = false := by
    have := h.isAlphanum
    simp only [Char.isAlphanum, Bool.or_eq_false_iff] at this
    exact this.2
  have hletter : ∀ d : Char, d.isAlphanum = true → c ≠ d := by
    rintro d hd rfl
    rw [h.isAlphanum] at hd
    cases hd
  simp [isBareChar, Token.isNumeralChar, h.isNamePart, hdigit, hletter 'e' (by decide),
    hletter 'E' (by decide), h.ne (d := '.') (by decide), h.ne (d := '+') (by decide),
    h.ne (d := '-') (by decide), h.ne (d := '/') (by decide)]

/-- A character at an end of a written value is neither blank nor one with a meaning for lines. -/
theorem ne_of_isBareChar_or {c d : Char} (h : isBareChar c = true ∨ c = '"')
    (hd : isBareChar d = false) (hquote : d ≠ '"') : c ≠ d := by
  rcases h with h | rfl
  · exact ne_of_isBareChar h hd
  · exact Ne.symm hquote

/-- No character at an end of a written value is blank. -/
theorem isBlank_of_isBareChar_or {c : Char} (h : isBareChar c = true ∨ c = '"') :
    isBlank c = false := by
  rcases h with h | rfl
  · exact isBlank_of_isBareChar h
  · decide

namespace IsWritten

variable {cs : List Char}

/-- Bare characters alone can be a value. -/
theorem of_isBareChar (hne : cs ≠ []) (h : ∀ c ∈ cs, isBareChar c = true) : IsWritten cs where
  plain := .of_isBlank fun c hc => isBlank_of_isBareChar (h c hc)
  paired := .of_notMem fun hquote => ne_of_isBareChar (h _ hquote) (by decide) rfl
  bare c hc := h c (by
    rwa [outside_of_notMem fun hquote => ne_of_isBareChar (h _ hquote) (by decide) rfl] at hc)
  head := by
    obtain ⟨c, rest, rfl⟩ := List.exists_cons_of_ne_nil hne
    exact ⟨c, rest, rfl, .inl (h c List.mem_cons_self)⟩
  last := ⟨cs.dropLast, cs.getLast hne, (List.dropLast_concat_getLast hne).symm,
    .inl (h _ (List.getLast_mem hne))⟩

/-- So can a text between quotes. -/
theorem of_quoted (hplain : IsPlain cs) (hquote : '"' ∉ cs) : IsWritten ('"' :: cs ++ ['"']) where
  plain := by
    have hone : IsPlain ['"'] := .of_isBlank (List.forall_mem_singleton.2 (by decide))
    exact (hone.append hplain).append hone
  paired := by simp [QuotesPaired, List.count_eq_zero.2 hquote]
  bare := by
    rw [outside_quoted hquote]
    simp
  head := ⟨'"', cs ++ ['"'], rfl, .inr rfl⟩
  last := ⟨'"' :: cs, '"', rfl, .inr rfl⟩

/-- No character with another meaning stands outside the quotes of a written value. -/
theorem notMem_outside (h : IsWritten cs) {c : Char} (hc : isBareChar c = false) :
    c ∉ outside false cs := fun hmem => ne_of_isBareChar (h.bare c hmem) hc rfl

/-- A written value is one piece outside brackets. -/
theorem hasTopLevel (h : IsWritten cs) : Scan.hasTopLevel ',' cs = false := by
  have hcomma : ',' ∉ outside (State.quoted {}) cs := h.notMem_outside (by decide)
  simp [Scan.hasTopLevel, splitTopLevel, splitFrom_eq_singleton (by decide) hcomma]

/-- A written value is no list. -/
theorem listText? (h : IsWritten cs) : CardLine.listText? cs = none := by
  have hliteral : bracketLiteral? cs = none := by
    obtain ⟨c, rest, rfl, hc⟩ := h.head
    have hne := ne_of_isBareChar_or hc (d := '[') (by decide) (by decide)
    unfold bracketLiteral?
    split
    · next heq => exact absurd (List.cons.inj heq).1 hne
    · rfl
  simp [CardLine.listText?, hliteral, h.hasTopLevel]

/-- A written value has its brackets in pairs. -/
theorem bracketsBalanced (h : IsWritten cs) : Scan.bracketsBalanced cs = true := by
  have hopen : '[' ∉ outside (State.quoted {}) cs := h.notMem_outside (by decide)
  have hclose : ']' ∉ outside (State.quoted {}) cs := h.notMem_outside (by decide)
  rw [Scan.bracketsBalanced, balancedFrom_of_outside hopen hclose]
  rfl

/-- A written value is no slice. -/
theorem hasColon (h : IsWritten cs) : CardLine.hasColon cs = false := by
  have hcolon : ':' ∉ outside (State.quoted {}) cs := h.notMem_outside (by decide)
  simp [CardLine.hasColon, cutUnquoted_eq_none (by decide) hcolon]

end IsWritten

/-- A text among the values that decks hold. -/
def IsWritable (v : Value) : Prop := ∀ s, v = string s → IsPlain s.toList ∧ '"' ∉ s.toList

/-- The text of a finite number has bare characters. -/
private theorem isBareChar_of_mem_integerText {negative : Bool} {n : Nat} {c : Char}
    (hc : c ∈ integerText negative n) : isBareChar c = true := by
  rw [integerText, List.mem_append] at hc
  rcases hc with hc | hc
  · split at hc
    · obtain rfl := List.mem_singleton.1 hc
      decide
    · cases hc
  · simp [isBareChar, Token.isNumeralChar, isDigit_of_mem_toDigits hc]

/-- The text of a number in scientific form has bare characters. -/
private theorem isBareChar_of_mem_scientificText {precision : Option Nat} {negative : Bool}
    {significand : Nat} {exponent : Int} {c : Char}
    (hc : c ∈ scientificText precision negative significand exponent) : isBareChar c = true := by
  have hdigits : ∀ {d : Decimal} {c : Char}, c ∈ scientific d → isBareChar c = true := by
    intro d c hc
    have hcut := Token.cutNumeral_scientific d
    have hnumeral : Token.isNumeralChar c = true :=
      Token.isNumeralChar_of_mem_cutNumeral (by rw [hcut]; exact hc)
    simp [isBareChar, hnumeral]
  cases negative with
  | false => exact hdigits hc
  | true =>
    rcases List.mem_cons.1 hc with rfl | hc
    · decide
    · exact hdigits hc

/-- The text of a number is not empty, and has bare characters only. -/
theorem isBareChar_of_mem_deckText (precision : Option Nat) (x : Float) :
    (deckText precision x).toList ≠ [] ∧
      ∀ c ∈ (deckText precision x).toList, isBareChar c = true := by
  rw [deckText, String.toList_ofList]
  cases Binary64.ofFloat x with
  | nan =>
    have hbare : ['0', '/', '0'].all isBareChar = true := by decide
    exact ⟨List.cons_ne_nil _ _, List.all_eq_true.1 hbare⟩
  | infinite negative =>
    have hbare : ∀ sign, (signed sign ['1', '/', '0']).all isBareChar = true := by decide
    refine ⟨?_, List.all_eq_true.1 (hbare negative)⟩
    cases negative <;> exact List.cons_ne_nil _ _
  | finite negative significand exponent =>
    have hscientific : scientificText precision negative significand exponent ≠ [] ∧
        ∀ c ∈ scientificText precision negative significand exponent, isBareChar c = true := by
      refine ⟨?_, fun c hc => isBareChar_of_mem_scientificText hc⟩
      cases negative with
      | false =>
        intro hnil
        have hhead : (scientificText precision false significand exponent).head?.any
            Char.isDigit = true := Token.head?_scientific _
        rw [hnil] at hhead
        cases hhead
      | true => exact List.cons_ne_nil _ _
    unfold Binary64.deckText
    dsimp only
    split
    · split
      · refine ⟨?_, fun c hc => isBareChar_of_mem_integerText hc⟩
        have hdigits : ∀ n, Nat.toDigits 10 n ≠ [] := fun n => Nat.toDigits_ne_nil
        simp [integerText, hdigits]
      · exact hscientific
    · exact hscientific

/-- What a value is written as in a deck. -/
theorem isWritten_written {v : Value} (h : v.IsWritable) (precision : Option Nat) :
    IsWritten (v.written precision).toList := by
  cases v with
  | number x =>
    obtain ⟨hne, hbare⟩ := isBareChar_of_mem_deckText precision x
    exact .of_isBareChar hne hbare
  | boolean b =>
    have hname : ∀ s ∈ ["true", "false"], IsWritten s.toList := by
      intro s hs
      have hall : ∀ s ∈ ["true", "false"], s.toList ≠ [] ∧ s.toList.all isBareChar = true := by
        decide
      exact .of_isBareChar (hall s hs).1 (List.all_eq_true.1 (hall s hs).2)
    cases b
    · exact hname "false" (by simp)
    · exact hname "true" (by simp)
  | string s =>
    have hsplit : (written precision (string s)).toList = '"' :: s.toList ++ ['"'] := by
      simp [written]
    rw [hsplit]
    exact .of_quoted (h s rfl).1 (h s rfl).2

end Value

namespace IsCardName

variable {cs : List Char}

/-- A card name begins with a letter or an underscore. -/
theorem exists_cons (h : IsCardName cs) :
    ∃ c rest, cs = c :: rest ∧ Token.isNameStart c = true := by
  cases h with
  | segment h => exact h.head
  | element h index =>
    obtain ⟨c, rest, rfl, hc⟩ := h.head
    exact ⟨c, rest ++ '[' :: Nat.toDigits 10 index ++ [']'], by simp, hc⟩

/-- A card name has letters, digits, underscores and brackets. -/
theorem isNamePart (h : IsCardName cs) {c : Char} (hc : c ∈ cs) :
    Token.isNamePart c = true ∨ c = '[' ∨ c = ']' := by
  cases h with
  | segment h => exact .inl (h.isNamePart c hc)
  | @element base h index =>
    rw [List.append_assoc, List.mem_append, List.cons_append, List.mem_cons, List.mem_append,
      List.mem_singleton] at hc
    rcases hc with hc | rfl | hc | rfl
    · exact .inl (h.isNamePart c hc)
    · exact .inr (.inl rfl)
    · exact .inl (by simp [Token.isNamePart, Char.isAlphanum, isDigit_of_mem_toDigits hc])
    · exact .inr (.inr rfl)

/-- A card name has no other character. -/
theorem notMem (h : IsCardName cs) {c : Char} (hc : Token.isNamePart c = false) (hopen : c ≠ '[')
    (hclose : c ≠ ']') : c ∉ cs := by
  intro hmem
  rcases h.isNamePart hmem with he | rfl | rfl
  · rw [he] at hc
    cases hc
  · exact hopen rfl
  · exact hclose rfl

/-- A card name has no mark. -/
theorem notMem_of_isMark (h : IsCardName cs) {c : Char} (hc : Settings.IsMark c) : c ∉ cs :=
  h.notMem hc.isNamePart (hc.ne (by decide)) (hc.ne (by decide))

/-- No character of a card name is blank. -/
theorem isBlank (h : IsCardName cs) : ∀ c ∈ cs, isBlank c = false := by
  intro c hc
  rcases h.isNamePart hc with hc | rfl | rfl
  · exact Token.isBlank_of_isNamePart hc
  · decide
  · decide

/-- A card name has no quotes, so it stands outside them as a whole. -/
theorem outside_eq (h : IsCardName cs) : outside false cs = cs :=
  outside_of_notMem (h.notMem (by decide) (by decide) (by decide))

/-- In front of what else stands in a text, characters that open or close nothing do not matter. -/
private theorem balancedFrom_append {s : State} {cs : List Char}
    (h : ∀ c ∈ cs, c ≠ '"' ∧ c ≠ '[' ∧ c ≠ ']') (ds : List Char) :
    balancedFrom s (cs ++ ds) = balancedFrom s ds := by
  induction cs with
  | nil => rfl
  | cons c cs ih =>
    obtain ⟨hquote, hopen, hclose⟩ := h c List.mem_cons_self
    have hnext : s.next c = s := by
      rw [State.next, if_neg hquote, if_neg hopen, if_neg hclose, ite_self]
    have hne : (c == ']') = false := by simp [hclose]
    rw [List.cons_append, balancedFrom, hnext, hne, ih fun d hd => h d (List.mem_cons_of_mem _ hd)]
    rfl

/-- A card name has its brackets in pairs. -/
theorem bracketsBalanced (h : IsCardName cs) : Scan.bracketsBalanced cs = true := by
  have hsegment : ∀ {ds : List Char}, (∀ c ∈ ds, Token.isNamePart c = true) →
      ∀ c ∈ ds, c ≠ '"' ∧ c ≠ '[' ∧ c ≠ ']' := by
    intro ds h c hc
    have := h c hc
    refine ⟨?_, ?_, ?_⟩ <;> (rintro rfl; revert this; decide)
  cases h with
  | segment h =>
    rw [← List.append_nil cs, Scan.bracketsBalanced, balancedFrom_append (hsegment h.isNamePart)]
    rfl
  | @element base h index =>
    have hdigits : ∀ c ∈ Nat.toDigits 10 index, Token.isNamePart c = true := fun c hc => by
      simp [Token.isNamePart, Char.isAlphanum, isDigit_of_mem_toDigits hc]
    rw [List.append_assoc, Scan.bracketsBalanced, balancedFrom_append (hsegment h.isNamePart),
      List.cons_append, balancedFrom, balancedFrom_append (hsegment hdigits)]
    rfl

/-- A card name and a value are a body of a line when no comment mark stands in the value and no
continuation mark at its end. -/
theorem isBody_assignment (hs : settings.IsUsable) (h : IsCardName cs) {value : List Char}
    (hplain : IsPlain value)
    (hlast : ∃ front c, value = front ++ [c] ∧ Text.isBlank c = false ∧
      c ≠ settings.continuationMark)
    (hmark : settings.commentMark ∉ outside false value) (hpaired : QuotesPaired value) :
    IsBody settings (cs ++ ' ' :: '=' :: ' ' :: value) where
  plain := by
    have hsign : IsPlain [' ', '=', ' '] := by
      intro c hc hblank
      simp only [List.mem_cons, List.not_mem_nil, or_false] at hc
      rcases hc with rfl | rfl | rfl
      · rfl
      · exact absurd hblank (by decide)
      · rfl
    exact (IsPlain.of_isBlank h.isBlank).append (hsign.append hplain)
  head := by
    obtain ⟨c, rest, rfl, hc⟩ := h.exists_cons
    exact ⟨c, _, rfl, h.isBlank c List.mem_cons_self, hs.comment.ne_of_isNameStart hc⟩
  last := by
    obtain ⟨front, c, rfl, hc⟩ := hlast
    exact ⟨cs ++ ' ' :: '=' :: ' ' :: front, c, by simp, hc⟩
  mark_notMem := by
    have hquotes : QuotesPaired (cs ++ [' ', '=', ' ']) :=
      QuotesPaired.append (.of_notMem (h.notMem (by decide) (by decide) (by decide))) (by decide)
    have hsplit : cs ++ ' ' :: '=' :: ' ' :: value = cs ++ [' ', '=', ' '] ++ value := by simp
    rw [hsplit, outside_append hquotes, outside_append
      (.of_notMem (h.notMem (by decide) (by decide) (by decide))), h.outside_eq]
    simp [outside, h.notMem_of_isMark hs.comment, hmark, hs.comment.ne_space,
      hs.comment.ne (d := '=') (by decide)]
  paired := by
    refine QuotesPaired.append (.of_notMem (h.notMem (by decide) (by decide) (by decide))) ?_
    exact (QuotesPaired.cons_iff (by decide)).2
      ((QuotesPaired.cons_iff (by decide)).2 ((QuotesPaired.cons_iff (by decide)).2 hpaired))

/-- A card name and a written value are a body of a line. -/
theorem isBody (hs : settings.IsUsable) (h : IsCardName cs) {value : List Char}
    (hvalue : Value.IsWritten value) : IsBody settings (cs ++ ' ' :: '=' :: ' ' :: value) := by
  obtain ⟨front, c, hsplit, hc⟩ := hvalue.last
  exact h.isBody_assignment hs hvalue.plain
    ⟨front, c, hsplit, Value.isBlank_of_isBareChar_or hc,
      Value.ne_of_isBareChar_or hc (Value.isBareChar_of_isMark hs.continuation)
        (hs.continuation.ne (by decide))⟩
    (hvalue.notMem_outside (Value.isBareChar_of_isMark hs.comment)) hvalue.paired

end IsCardName

/-- A line that begins with a card name is no header. -/
theorem IsCardName.isHeader_eq_false (hs : settings.IsUsable) {name : String}
    (h : IsCardName name.toList) (value : String) :
    SuitCursor.isHeader settings (name ++ " = " ++ value) = false := by
  obtain ⟨c, rest, hc, hstart⟩ := h.exists_cons
  have hne := hs.suitOpen.ne_of_isNameStart hstart
  simp [SuitCursor.isHeader, hc, hne]

/-- A line with a card name and one item behind the sign assigns the item to the name, without the
blanks outside its quotes. -/
theorem CardLine.ofText_scalar {name value : String} {item : List Char}
    (hname : IsCardName name.toList) (hstrip : stripUnquoted value.toList = some item)
    (hitem : item ≠ []) (hbalanced : bracketsBalanced item = true) (hcolon : hasColon item = false)
    (hlist : listText? item = none) (location : Location) :
    ofText (name ++ " = " ++ value) location = .ok (.scalar name (String.ofList item)) := by
  have hname' : name.toList ≠ [] := by
    obtain ⟨c, rest, he, -⟩ := hname.exists_cons
    simp [he]
  have hnoColon : hasColon name.toList = false := by
    have hmem : ':' ∉ outside (State.quoted {}) name.toList := by
      change ':' ∉ outside false name.toList
      rw [hname.outside_eq]
      exact hname.notMem (by decide) (by decide) (by decide)
    simp [hasColon, cutUnquoted_eq_none (by decide) hmem]
  have hchars : ∀ c ∈ name.toList, isBlank c = false ∧ c ≠ '"' ∧ c ≠ '=' := by
    refine fun c hc => ⟨hname.isBlank c hc, ?_, ?_⟩
    all_goals
      rintro rfl
      exact hname.notMem (by decide) (by decide) (by decide) hc
  rw [ofText_sides hchars hstrip, ofSides, if_neg (not_or.2 ⟨hname', hitem⟩),
    if_neg (hname.notMem (by decide) (by decide) (by decide)), hname.bracketsBalanced, hbalanced,
    hnoColon, hcolon, hlist]
  simp

/-- A line with a card name and a written value assigns the value to the name. -/
theorem CardLine.ofText_written {name value : String} (hname : IsCardName name.toList)
    (hvalue : Value.IsWritten value.toList) (location : Location) :
    ofText (name ++ " = " ++ value) location = .ok (.scalar name value) := by
  have hstrip := stripUnquoted_eq_self hvalue.paired fun c hc =>
    Value.isBlank_of_isBareChar (hvalue.bare c hc)
  have hitem : value.toList ≠ [] := by
    obtain ⟨c, rest, he, -⟩ := hvalue.head
    simp [he]
  have hscalar := ofText_scalar hname hstrip hitem hvalue.bracketsBalanced hvalue.hasColon
    hvalue.listText? location
  rwa [String.ofList_toList] at hscalar

namespace SuitPath

variable {path : SuitPath}

/-- The header of a suit in a deck, without its line end. -/
def header (path : SuitPath) : String := "<" ++ path.text ++ ">"

theorem toList_header (path : SuitPath) :
    path.header.toList = '<' :: path.text.toList ++ ['>'] := by
  simp [header]

/-- A header of a path of segments is a body of a line. -/
theorem IsSegmentPath.isBody_header (hs : settings.IsUsable) (hopen : settings.suitOpen = '<')
    (hclose : settings.suitClose = '>') {cs : List Char} (h : IsSegmentPath cs) :
    IsBody settings ('<' :: cs ++ ['>']) := by
  have hcomment : '<' ≠ settings.commentMark ∧ settings.commentMark ≠ '>' := by
    rw [← hopen, ← hclose]
    exact hs.commentMark_ne
  have hcontinuation : '>' ≠ settings.continuationMark := by
    rw [← hclose]
    exact hs.suitClose_ne
  have hquote : '"' ∉ '<' :: cs ++ ['>'] := by
    simpa using h.notMem (c := '"') (by decide) (by decide) (by decide)
  refine ⟨.of_isBlank fun c hc => ?_, ⟨'<', _, rfl, by decide, hcomment.1⟩,
    ⟨'<' :: cs, '>', rfl, by decide, hcontinuation⟩, ?_, .of_notMem hquote⟩
  · rw [List.cons_append, List.mem_cons, List.mem_append, List.mem_singleton] at hc
    rcases hc with rfl | hc | rfl
    · decide
    · exact h.isBlank c hc
    · decide
  · rw [outside_of_notMem hquote]
    simpa [hcomment.1.symm, hcomment.2] using h.notMem hs.comment.isNamePart
      (hs.comment.ne (by decide)) (hs.comment.ne (by decide))

/-- The header of a named suit is a body of a line. -/
theorem IsNamed.isBody_header (hs : settings.IsUsable) (hopen : settings.suitOpen = '<')
    (hclose : settings.suitClose = '>') (h : path.IsNamed) (hroot : path ≠ root) :
    IsBody settings path.header.toList := by
  rw [toList_header]
  exact (h.isSegmentPath hroot).isBody_header hs hopen hclose

end SuitPath

end InputDeck
