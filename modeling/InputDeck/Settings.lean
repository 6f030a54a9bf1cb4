/-!
# Settings

The characters that structure a deck, and the number of decimals in what is written. A deck whose
contents need one of the usual characters takes others.
-/

namespace InputDeck

/-- The characters that structure a deck, and the decimals of its numbers. -/
structure Settings where
  /-- Opens a comment, at the start of a line or behind a statement. -/
  commentMark : Char := '#'
  /-- Ends a line that goes on in the next one. -/
  continuationMark : Char := '&'
  /-- Opens a suit header. -/
  suitOpen : Char := '<'
  /-- Closes a suit header. -/
  suitClose : Char := '>'
  /-- The number of decimals in what is written, when it is fixed. -/
  precision : Option Nat := none
  deriving DecidableEq, Repr

instance : Inhabited Settings := ⟨{}⟩

end InputDeck
