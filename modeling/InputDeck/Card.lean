import InputDeck.Error
import InputDeck.Table
import InputDeck.Value.Typed

/-!
# Cards

A card is a value under a name in a suit. It knows the line it was compiled from, unless it came
from elsewhere, and it may have a comment, which is never empty.
-/

namespace InputDeck

/-- What a suit keeps under a name. -/
structure Entry where
  /-- The value of the card. -/
  value : Value
  /-- The line that the card was compiled from. -/
  line : Option Nat := none
  /-- The comment of the card. -/
  comment : Option String := none

/-- Put a comment in place of another; an empty one leaves the other as it is. -/
def Entry.withComment (entry : Entry) (comment : Option String) : Entry :=
  match comment with
  | some text => if text = "" then entry else { entry with comment := some text }
  | none => entry

@[simp] theorem Entry.value_withComment (entry : Entry) (comment : Option String) :
    (entry.withComment comment).value = entry.value := by
  unfold Entry.withComment
  split
  · split <;> rfl
  · rfl

@[simp] theorem Entry.line_withComment (entry : Entry) (comment : Option String) :
    (entry.withComment comment).line = entry.line := by
  unfold Entry.withComment
  split
  · split <;> rfl
  · rfl

/-- A card with its place. -/
structure Card extends Entry where
  /-- The suit of the card. -/
  suit : SuitPath
  /-- The name of the card within its suit. -/
  name : String

namespace Card

/-- The name of a card for the evaluator. -/
def globalName (card : Card) : String := card.suit.qualify card.name

/-- The value of a card as an element of a type. -/
def read {α : Type} [Readable α] (card : Card) : Except DeckError α :=
  match Readable.read? card.value with
  | some a => .ok a
  | none =>
    .error (.typeMismatch card.suit.text card.name (Readable.kind α) card.value.kind)

end Card

/-- The cards of one suit by their names. -/
abbrev Suit := Table Entry

/-- The cards of a suit in the order of their names. -/
def Suit.cards (suit : Suit) (path : SuitPath) : List Card :=
  suit.toList.map fun item => ⟨item.2, path, item.1⟩

end InputDeck
