import InputDeck.ElementName
import InputDeck.Sorting
import InputDeck.Store.Basic

/-!
# Queries

The cards of the suits whose paths, or of a suit whose names, have a part in common with a pattern,
and cards in the order of the lines they were compiled from.
-/

namespace InputDeck.Store

open InputDeck.Text

/-- A pattern without its first star. -/
def withoutStar (pattern : List Char) : List Char := pattern.erase '*'

/-- Whether a pattern occurs in a path. -/
def matchesPath (pattern : String) (path : SuitPath) : Bool :=
  occursIn (withoutStar pattern.toList) path.text.toList

/-- The cards of all suits whose path has the pattern in it, in the order of the paths. -/
def findSuits (store : Store) (pattern : String) : List Card :=
  (sortBy (fun a b => a.1.le b.1)
    (store.suits.filter fun item => matchesPath pattern item.1)).flatMap
      fun item => item.2.cards item.1

/-- Whether a card may stand before another by line and then by name; no line comes first. -/
def lineLe (a b : Card) : Bool :=
  ((compareIndex a.line b.line).then (compareNatural a.name b.name)).isLE

/-- The cards of a suit in the order of their lines. A missing root suit has no cards. -/
def suitInOrder (store : Store) (suit : String) : Except DeckError (List Card) :=
  let path := SuitPath.ofString suit
  match store.suit? path with
  | some cards => .ok (sortBy lineLe (cards.cards path))
  | none => if path.isRoot then .ok [] else .error (.suitNotFound suit)

/-- The cards of all suits whose path has the pattern in it, in the order of their lines. -/
def suitsInOrder (store : Store) (pattern : String) : List Card :=
  sortBy lineLe (store.findSuits pattern)

/-- The cards of a suit whose name has the pattern in it. -/
def findCards (store : Store) (suit pattern : String) : Except DeckError (List Card) := do
  let cards ← store.find suit
  return (cards.cards (.ofString suit)).filter fun card =>
    occursIn pattern.toList card.name.toList

end InputDeck.Store
