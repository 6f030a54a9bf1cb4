import InputDeck.Expr.Error
import InputDeck.Location

/-!
# Failures of decks

The causes for which a text is not compiled or a card is not found, and the wording of each. A
failure that was found while a text was compiled knows where; the first one ends the compilation.
-/

namespace InputDeck

/-- Why a deck is not built or does not answer. -/
inductive DeckError where
  /-- The text of a file cannot be had. -/
  | fileOpen (path : String)
  /-- A suit header is not closed. -/
  | malformedHeader (location : Location) (fragment : String)
  /-- A suit header names no suit. -/
  | emptySuitName (location : Location)
  /-- A relative suit header follows no absolute one. -/
  | danglingHeader (location : Location) (fragment : String)
  /-- The brackets of a name or a value do not match, or a list is assigned to an element. -/
  | malformedVector (location : Location) (fragment : String)
  /-- A card name has a comma. -/
  | invalidCardName (location : Location) (fragment : String)
  /-- A text literal is not closed. -/
  | unterminatedQuote (location : Location) (fragment : String)
  /-- An assignment, or an item of its list, has no text. -/
  | emptyAssignment (location : Location) (fragment : String)
  /-- The end of a slice is neither given nor known. -/
  | missingUpperBound (location : Location) (fragment : String)
  /-- A bound of a slice is no index, or lies below the other. -/
  | invalidBound (location : Location) (fragment : String)
  /-- A slice assignment has fewer values than names. -/
  | lengthMismatch (location : Location) (names values : Nat)
  /-- A statement fails in the evaluator. -/
  | expression (location : Option Location) (statement : String) (hint : Option String)
      (cause : EvalError)
  /-- No suit has this path. -/
  | suitNotFound (suit : String)
  /-- The suit has no card of this name. -/
  | cardNotFound (suit name : String)
  /-- A card holds a value of another kind than asked for. -/
  | typeMismatch (suit name : String) (expected found : Kind)

namespace DeckError

/-- Where a failure was found, if it was found while a text was compiled. -/
def location? : DeckError → Option Location
  | fileOpen _ => none
  | malformedHeader location _ => some location
  | emptySuitName location => some location
  | danglingHeader location _ => some location
  | malformedVector location _ => some location
  | invalidCardName location _ => some location
  | unterminatedQuote location _ => some location
  | emptyAssignment location _ => some location
  | missingUpperBound location _ => some location
  | invalidBound location _ => some location
  | lengthMismatch location _ _ => some location
  | expression location _ _ _ => location
  | suitNotFound _ => none
  | cardNotFound _ _ => none
  | typeMismatch _ _ _ _ => none

/-- The part of a message that says where. -/
def locationPhrase : Option Location → String
  | some location => " at " ++ location.phrase
  | none => ""

/-- The part of a message that gives a hint. -/
def hintPhrase : Option String → String
  | some hint => "; " ++ hint
  | none => ""

/-- The wording of a failure. -/
def message : DeckError → String
  | fileOpen path => "could not open file '" ++ path ++ "'"
  | malformedHeader location fragment =>
    "missing '>' in suit declaration '" ++ fragment ++ "' at " ++ location.phrase
  | emptySuitName location => "empty suit name at " ++ location.phrase
  | danglingHeader location fragment =>
    "relative suit '" ++ fragment ++ "' has no previous suit to resolve against at " ++
      location.phrase
  | malformedVector location fragment =>
    "malformed vector syntax '" ++ fragment ++ "' at " ++ location.phrase
  | invalidCardName location fragment =>
    "invalid card name '" ++ fragment ++ "' at " ++ location.phrase ++
      ": card names cannot contain ','"
  | unterminatedQuote location fragment =>
    "missing closing quote in '" ++ fragment ++ "' at " ++ location.phrase
  | emptyAssignment location fragment =>
    "empty name or value in assignment '" ++ fragment ++ "' at " ++ location.phrase
  | missingUpperBound location fragment =>
    "must specify upper bound in vector slice '" ++ fragment ++ "' at " ++ location.phrase
  | invalidBound location fragment =>
    "slice bound '" ++ fragment ++ "' is not a non-negative integer at " ++ location.phrase
  | lengthMismatch location names values =>
    "more card names (" ++ Number.natText names ++ ") than values (" ++ Number.natText values ++
      ") at " ++ location.phrase
  | expression location statement hint _ =>
    "failed to compile expression '" ++ statement ++ "'" ++ locationPhrase location ++
      hintPhrase hint
  | suitNotFound suit => "suit '" ++ suit ++ "' not found in the deck"
  | cardNotFound suit name => "card '" ++ name ++ "' not found in suit '" ++ suit ++ "'"
  | typeMismatch suit name expected found =>
    "card '" ++ suit ++ "/" ++ name ++ "' holds a " ++ found.name ++ ", not a " ++ expected.name

end DeckError

end InputDeck
