import InputDeck.Number.Layout

/-!
# Values of cards

A value is a number, a truth value or a text, and its kind says which. The text of a value is what
a deck shows of it, without the quotes around a text.
-/

namespace InputDeck

/-- The kind of a value. -/
inductive Kind where
  /-- Numbers. -/
  | number
  /-- Truth values. -/
  | boolean
  /-- Texts. -/
  | string
  deriving DecidableEq, Repr

/-- The name of a kind in messages. -/
def Kind.name : Kind → String
  | .number => "number"
  | .boolean => "boolean"
  | .string => "string"

/--
What a card holds. Values are compared as numbers are: a value that is not a number differs from
itself, and the two zeros are the same.
-/
inductive Value where
  /-- A number. -/
  | number (x : Float)
  /-- A truth value. -/
  | boolean (b : Bool)
  /-- A text. -/
  | string (s : String)
  deriving BEq

namespace Value

/-- The kind of a value. -/
def kind : Value → Kind
  | number _ => .number
  | boolean _ => .boolean
  | string _ => .string

/-- The number that a value is. -/
def number? : Value → Option Float
  | number x => some x
  | _ => none

/-- The truth value that a value is. -/
def boolean? : Value → Option Bool
  | boolean b => some b
  | _ => none

/-- The text that a value is. -/
def string? : Value → Option String
  | string s => some s
  | _ => none

/-- The text of a value, numbers with the given number of decimals or the shortest one. -/
def text (precision : Option Nat) : Value → String
  | number x => Number.deckText precision x
  | boolean true => "true"
  | boolean false => "false"
  | string s => s

/-- A value is a number exactly when its kind says so. -/
theorem isSome_number?_iff {v : Value} : v.number?.isSome = true ↔ v.kind = .number := by
  cases v <;> simp [number?, kind]

/-- A value is a truth value exactly when its kind says so. -/
theorem isSome_boolean?_iff {v : Value} : v.boolean?.isSome = true ↔ v.kind = .boolean := by
  cases v <;> simp [boolean?, kind]

/-- A value is a text exactly when its kind says so. -/
theorem isSome_string?_iff {v : Value} : v.string?.isSome = true ↔ v.kind = .string := by
  cases v <;> simp [string?, kind]

end Value

end InputDeck
