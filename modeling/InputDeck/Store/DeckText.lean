import InputDeck.ElementName
import InputDeck.Sorting
import InputDeck.Store.Basic

/-!
# Deck texts

A store is written as a deck: its suits in the order in which they were first seen, each under its
header and with an empty line behind it, and its cards in natural order with their comments. The
root suit has no header, and is left out when it has no cards.
-/

namespace InputDeck

/-- The value of a card in a deck, with quotes around a text. -/
def Value.written (precision : Option Nat) (v : Value) : String :=
  match v with
  | .string s => "\"" ++ s ++ "\""
  | v => v.text precision

/-- The comment of a card behind its value. -/
def Card.writtenComment (card : Card) : String :=
  match card.comment with
  | some text => "  # " ++ text
  | none => ""

/-- The line of a card in a deck. -/
def Card.written (precision : Option Nat) (card : Card) : String :=
  card.name ++ " = " ++ card.value.written precision ++ card.writtenComment ++ "\n"

/-- The header of a suit in a deck. -/
def SuitPath.writtenHeader (path : SuitPath) : String :=
  if path.isRoot then "" else "<" ++ path.text ++ ">\n"

/-- The cards of a suit in natural order. -/
def Suit.sorted (suit : Suit) (path : SuitPath) : List Card :=
  sortBy (fun a b => naturalLe a.name b.name) (suit.cards path)

/-- A suit in a deck. -/
def Suit.written (precision : Option Nat) (suit : Suit) (path : SuitPath) : String :=
  if path.isRoot && suit.isEmpty then ""
  else
    path.writtenHeader ++ String.join ((suit.sorted path).map (Card.written precision)) ++ "\n"

/-- The deck that a store is written as. -/
def Store.deckText (precision : Option Nat) (store : Store) : String :=
  String.join (store.suits.map fun item => item.2.written precision item.1)

end InputDeck
