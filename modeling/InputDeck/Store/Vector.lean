import InputDeck.ElementName
import InputDeck.Store.Basic

/-!
# Vectors

A vector is the run of cards `v[0]`, `v[1]`, … of a suit up to the first index that is missing.
-/

namespace InputDeck

/-- The cards of a run of elements from an index on, at most the given number of them. -/
def Suit.elementsFrom (suit : Suit) (path : SuitPath) (base : String) : Nat → Nat → List Card
  | 0, _ => []
  | count + 1, index =>
    match suit[elementName base index]? with
    | some entry =>
      ⟨entry, path, elementName base index⟩ :: suit.elementsFrom path base count (index + 1)
    | none => []

/-- The elements of a vector. No vector has more elements than its suit has cards. -/
def Suit.elements (suit : Suit) (path : SuitPath) (base : String) : List Card :=
  suit.elementsFrom path base suit.size 0

namespace Store

/-- The values of a vector as elements of a type. A vector has a first element. -/
def readVector {α : Type} [Readable α] (store : Store) (suit base : String) :
    Except DeckError (List α) := do
  let cards ← store.find suit
  match cards.elements (.ofString suit) base with
  | [] => throw (.cardNotFound suit base)
  | elements => elements.mapM Card.read

/-- Give the elements from an index on other values. -/
def updateElements (store : Store) (suit base : String) :
    Nat → List Value → Except DeckError Store
  | _, [] => .ok store
  | index, value :: values => do
    let store ← store.update suit (elementName base index) value none
    store.updateElements suit base (index + 1) values

/-- Whether all elements from an index on exist, as many as there are values. -/
def checkElements (store : Store) (suit base : String) :
    Nat → List Value → Except DeckError Unit
  | _, [] => .ok ()
  | index, _ :: values => do
    let _ ← store.get suit (elementName base index)
    store.checkElements suit base (index + 1) values

/-- Give the first elements of a vector other values. All of them have to exist. -/
def updateVector (store : Store) (suit base : String) (values : List Value) :
    Except DeckError Store := do
  store.checkElements suit base 0 values
  store.updateElements suit base 0 values

/-- Put values in the places of elements from an index on. -/
def addElements (store : Store) (suit base : String) : Nat → List Value → Store
  | _, [] => store
  | index, value :: values =>
    (store.add suit (elementName base index) value none).addElements suit base (index + 1) values

/-- Put values in the places of the first elements of a vector. -/
def addVector (store : Store) (suit base : String) (values : List Value) : Store :=
  store.addElements suit base 0 values

end Store

end InputDeck
