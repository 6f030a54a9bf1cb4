import InputDeck.Error
import InputDeck.Scan

/-!
# Card lines

A logical line that is no suit header either forwards an expression to the evaluator or assigns to
cards: one value to a name, the items of a list to the elements of a vector, or slices to slices.
Blanks matter only between quotes.
-/

namespace InputDeck

open InputDeck.Text

/-- What a line that is no suit header asks for. -/
inductive CardLine where
  /-- The line has no assignment sign and goes to the evaluator as it is. -/
  | expression (text : String)
  /-- One value goes to one name, which may be an element. -/
  | scalar (name value : String)
  /-- The items of a list go to the elements of a vector. -/
  | vector (name : String) (values : List String)
  /-- Slices, or what they are assigned from, have to be expanded. -/
  | slice (name value : String)
  deriving DecidableEq, Repr

namespace CardLine

/-- Whether a side of an assignment has a colon outside quotes. -/
def hasColon (side : List Char) : Bool := (Scan.cutUnquoted ':' {} side).isSome

/-- The text of the items of a list: what a bracket around all of it holds, or all of it. -/
def listText? (value : List Char) : Option (List Char) :=
  match Scan.bracketLiteral? value with
  | some inner => some inner
  | none => if Scan.hasTopLevel ',' value then some value else none

/-- What an assignment of a cleaned value to a cleaned name asks for. -/
def ofSides (text : String) (location : Location) (name value : List Char) :
    Except DeckError CardLine :=
  if name = [] ∨ value = [] then .error (.emptyAssignment location text)
  else if ',' ∈ name then .error (.invalidCardName location (String.ofList name))
  else if !Scan.bracketsBalanced name then
    .error (.malformedVector location (String.ofList name))
  else if !Scan.bracketsBalanced value then
    .error (.malformedVector location (String.ofList value))
  else if hasColon name || hasColon value then
    .ok (.slice (String.ofList name) (String.ofList value))
  else
    match listText? value with
    | none => .ok (.scalar (String.ofList name) (String.ofList value))
    | some items =>
      if '[' ∈ name then .error (.malformedVector location text)
      else
        let values := Scan.splitTopLevel ',' items
        if [] ∈ values then .error (.emptyAssignment location text)
        else .ok (.vector (String.ofList name) (values.map String.ofList))

/-- What a line that is no suit header asks for. -/
def ofText (text : String) (location : Location) : Except DeckError CardLine :=
  match Scan.cutAssignment none {} text.toList with
  | none => .ok (.expression text)
  | some (before, after) =>
    match Scan.stripUnquoted after with
    | none =>
      .error (.unterminatedQuote location (String.ofList (trim isBlank after)))
    | some value => ofSides text location (withoutBlanks before) value

end CardLine

end InputDeck
