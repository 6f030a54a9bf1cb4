import InputDeck.Error
import InputDeck.Settings
import InputDeck.Suit.Path
import InputDeck.Text.Blank

/-!
# Suit headers

A line that begins with the opening delimiter declares the suit of the cards below it. The name
ends at the first closing delimiter, and what follows is ignored. A name that begins with two dots
is relative: it replaces the last segment of the last suit that was declared absolutely.
-/

namespace InputDeck

open InputDeck.Text

/-- The suits that matter while a text is read. -/
structure SuitCursor where
  /-- The suit of the cards that come next. -/
  current : SuitPath := .root
  /-- The suit of the last absolute header. -/
  previous : Option SuitPath := none
  deriving DecidableEq, Repr

namespace SuitCursor

/-- A line of the current suit. -/
def locate (cursor : SuitCursor) (line : Nat) : Location := ⟨line, cursor.current⟩

/-- Whether a line is a suit header. -/
def isHeader (settings : Settings) (text : String) : Bool :=
  text.toList.head? == some settings.suitOpen

/-- The text between the delimiters of a header. -/
def headerName? (settings : Settings) (text : List Char) : Option (List Char) :=
  match text with
  | [] => none
  | c :: rest =>
    if c = settings.suitOpen then (cutFirst settings.suitClose rest).map Prod.fst else none

/-- Enter the suit that a header declares. -/
def enter (settings : Settings) (cursor : SuitCursor) (text : String) (line : Nat) :
    Except DeckError SuitCursor :=
  match headerName? settings text.toList with
  | none => .error (.malformedHeader (cursor.locate line) text)
  | some inner =>
    let name := withoutBlanks inner
    if name = [] then .error (.emptySuitName (cursor.locate line))
    else
      match SuitPath.stripFront ['.', '.'] name with
      | some rest =>
        match cursor.previous with
        | none => .error (.danglingHeader (cursor.locate line) (String.ofList name))
        | some previous => .ok { cursor with current := previous.sibling (String.ofList rest) }
      | none =>
        let suit := SuitPath.ofString (String.ofList name)
        .ok ⟨suit, some suit⟩

/-- The cursor that a name without blanks leads to. -/
inductive LeadsTo (cursor : SuitCursor) : List Char → SuitCursor → Prop
  /-- Behind two dots stands what replaces the last segment of the last absolute suit. -/
  | relative {rest : List Char} {previous : SuitPath}
      (hprevious : cursor.previous = some previous) :
    LeadsTo cursor ('.' :: '.' :: rest)
      { cursor with current := previous.sibling (String.ofList rest) }
  /-- Any other name is that of the suit, and relative names go on from there. -/
  | absolute {name : List Char} (hne : name ≠ []) (hdots : ∀ rest, name ≠ '.' :: '.' :: rest) :
    LeadsTo cursor name
      ⟨SuitPath.ofString (String.ofList name), some (SuitPath.ofString (String.ofList name))⟩

/-- A header is entered exactly when it has a name that leads somewhere. -/
theorem enter_eq_ok_iff {settings : Settings} {cursor next : SuitCursor} {text : String}
    {line : Nat} :
    cursor.enter settings text line = .ok next ↔
      ∃ inner, headerName? settings text.toList = some inner ∧
        cursor.LeadsTo (withoutBlanks inner) next := by
  unfold enter
  cases headerName? settings text.toList with
  | none => simp
  | some inner =>
    simp only [Option.some.injEq, exists_eq_left']
    generalize withoutBlanks inner = name
    constructor
    · intro h
      split at h
      · cases h
      · next hne =>
        split at h
        · next rest hrest =>
          obtain rfl := SuitPath.stripFront_eq_some_iff.1 hrest
          split at h
          · cases h
          · next previous hprevious =>
            obtain rfl := Except.ok.inj h
            exact .relative hprevious
        · next hnone =>
          obtain rfl := Except.ok.inj h
          exact .absolute hne (SuitPath.stripFront_eq_none_iff.1 hnone)
    · intro h
      cases h with
      | @relative rest previous hprevious =>
        have hfront : SuitPath.stripFront ['.', '.'] ('.' :: '.' :: rest) = some rest :=
          SuitPath.stripFront_eq_some_iff.2 rfl
        simp [hfront, hprevious]
      | absolute hne hdots =>
        have hfront : SuitPath.stripFront ['.', '.'] name = none :=
          SuitPath.stripFront_eq_none_iff.2 hdots
        simp [hfront, hne]

end SuitCursor

end InputDeck
