import InputDeck.CardLine
import InputDeck.ElementName

/-!
# Slices

A slice line such as `c[:] = a[1:4] + b[:3]` stands for one assignment per index:

    c[0] = a[1] + b[0]
    c[1] = a[2] + b[1]
    c[2] = a[3] + b[2]

Every slice with two bounds has a length, and so has a list of values; the shortest of them is the
number of assignments. When there is none, the open slices take the length of the vectors that
exist already. A bracket without a colon is a part of the text around it.
-/

namespace InputDeck.Slice

open InputDeck.Text InputDeck.Number

/-- A slice and the text that leads up to it. -/
structure Segment where
  /-- The text since the slice before, or since the start. -/
  leading : List Char
  /-- The first index. -/
  lower : Nat
  /-- The index behind the last one, when it is known. -/
  upper : Option Nat
  deriving DecidableEq, Repr

namespace Segment

/-- The number of indices of a slice, when it is known. -/
def length? (segment : Segment) : Option Nat := segment.upper.map (· - segment.lower)

/-- Whether a character can stand in a dotted name. -/
def isPathChar (c : Char) : Bool := c.isAlphanum || c == '_' || c == '.'

/-- The name of the vector that a slice reads: the dotted name that it follows. -/
def vectorName? (segment : Segment) : Option String :=
  match (segment.leading.reverse.takeWhile isPathChar).reverse with
  | [] => none
  | name => some (String.ofList name)

/-- Where an open slice ends when its vector exists and reaches up to its start. -/
def existingUpper? (existing : String → Option Nat) (segment : Segment) : Option Nat :=
  (segment.vectorName?.bind existing).filter fun length => segment.lower ≤ length

end Segment

/-- One side of a slice assignment. -/
structure Pattern where
  /-- Its slices, from left to right. -/
  segments : List Segment
  /-- The text behind the last slice. -/
  tail : List Char
  deriving DecidableEq, Repr

/-- Read a bound; an empty text leaves it open, and a plus sign may stand in front of the digits. -/
def bound (location : Location) (text : List Char) : Except DeckError (Option Nat) :=
  match text with
  | [] => .ok none
  | text =>
    let digits :=
      match text with
      | '+' :: rest => rest
      | rest => rest
    match word? digits with
    | some n => .ok (some n)
    | none => .error (.invalidBound location (String.ofList text))

/-- A slice between two bounds, which must not be out of order. -/
def bounds (location : Location) (inner lowerText upperText : List Char) :
    Except DeckError (Nat × Option Nat) := do
  let lower := (← bound location lowerText).getD 0
  let upper ← bound location upperText
  if upper.any (· < lower) then throw (.invalidBound location (String.ofList inner))
  return (lower, upper)

/-- What stands behind a bracket is shorter than what the bracket stands in. -/
theorem length_lt_of_bracket {rest before afterOpen inner after : List Char}
    (hopen : Scan.cutUnquoted '[' {} rest = some (before, afterOpen))
    (hclose : Scan.cutBracket afterOpen = some (inner, after)) : after.length < rest.length := by
  rw [Scan.eq_append_of_cutUnquoted hopen, Scan.eq_append_of_cutClosing hclose]
  simp
  omega

namespace Pattern

/-- Read the rest of a side behind some text that belongs to its next slice or to its tail. -/
def parseFrom (location : Location) (side literal rest : List Char) : Except DeckError Pattern :=
  match _ : Scan.cutUnquoted '[' {} rest with
  | none => .ok ⟨[], literal ++ rest⟩
  | some (before, afterOpen) =>
    match _ : Scan.cutBracket afterOpen with
    | none => .error (.malformedVector location (String.ofList side))
    | some (inner, after) =>
      match Scan.cutUnquoted ':' {} inner with
      | none => parseFrom location side (literal ++ before ++ '[' :: inner ++ [']']) after
      | some (lowerText, upperText) =>
        match bounds location inner lowerText upperText with
        | .error e => .error e
        | .ok (lower, upper) =>
          (parseFrom location side [] after).map fun pattern =>
            { pattern with segments := ⟨literal ++ before, lower, upper⟩ :: pattern.segments }
termination_by rest.length
decreasing_by all_goals exact length_lt_of_bracket ‹_› ‹_›

/-- Read one side of a slice assignment. -/
def parse (location : Location) (side : List Char) : Except DeckError Pattern :=
  parseFrom location side [] side

/-- Whether a side has no slices. -/
def isScalar (pattern : Pattern) : Bool := pattern.segments.isEmpty

/-- A target without brackets stands for its whole vector. -/
def wholeVector (pattern : Pattern) : Pattern :=
  if pattern.isScalar && !pattern.tail.contains '[' then ⟨[⟨pattern.tail, 0, none⟩], []⟩
  else pattern

/-- The lengths of the slices of a side that are known. -/
def lengths (pattern : Pattern) : List Nat := pattern.segments.filterMap Segment.length?

/-- End the open slices of vectors that exist where these end. -/
def closeFromExisting (existing : String → Option Nat) (pattern : Pattern) : Pattern :=
  { pattern with
    segments := pattern.segments.map fun segment =>
      match segment.upper with
      | some _ => segment
      | none => { segment with upper := segment.existingUpper? existing } }

/-- End an open slice after the given number of indices. -/
def closeSegment (location : Location) (side : String) (count : Option Nat) (segment : Segment) :
    Except DeckError Segment :=
  match segment.upper, count with
  | some _, _ => .ok segment
  | none, none => .error (.missingUpperBound location side)
  | none, some count =>
    if segment.lower + count < wordLimit then
      .ok { segment with upper := some (segment.lower + count) }
    else .error (.invalidBound location side)

/-- End the open slices of a side after the given number of indices. -/
def closeBounds (location : Location) (side : String) (count : Option Nat) (pattern : Pattern) :
    Except DeckError Pattern := do
  let segments ← pattern.segments.mapM (closeSegment location side count)
  return { pattern with segments := segments }

/-- The text of a side with its slices replaced by their elements with the given place. -/
def render (pattern : Pattern) (k : Nat) : List Char :=
  pattern.segments.flatMap (fun segment =>
    segment.leading ++ '[' :: (natText (segment.lower + k)).toList ++ [']']) ++ pattern.tail

end Pattern

/-- What is assigned to a slice. -/
inductive Source where
  /-- A text, with slices or without. -/
  | pattern (pattern : Pattern)
  /-- The items of a list. -/
  | items (items : List (List Char))
  deriving DecidableEq, Repr

namespace Source

/-- Read what is assigned to a slice. -/
def parse (location : Location) (side : List Char) : Except DeckError Source :=
  match CardLine.listText? side with
  | some text => .ok (items (Scan.splitTopLevel ',' text))
  | none => (Pattern.parse location side).map pattern

/-- The lengths that are known of what is assigned. -/
def lengths : Source → List Nat
  | pattern p => p.lengths
  | items xs => [xs.length]

/-- End the open slices of vectors that exist where these end. -/
def closeFromExisting (existing : String → Option Nat) : Source → Source
  | pattern p => pattern (p.closeFromExisting existing)
  | items xs => items xs

/-- End the open slices after the given number of indices. -/
def closeBounds (location : Location) (side : String) (count : Option Nat) :
    Source → Except DeckError Source
  | pattern p => (p.closeBounds location side count).map pattern
  | items xs => .ok (items xs)

/-- The values for the given number of names and the given number of indices. -/
def values (names count : Nat) : Source → List (List Char)
  | items xs => xs
  | pattern p =>
    if p.isScalar then List.replicate names (p.render 0) else (List.range count).map p.render

end Source

/-- The number of indices that both sides share: the shortest length that is known. -/
def sharedLength (target : Pattern) (source : Source) : Option Nat :=
  (target.lengths ++ source.lengths).min?

/-- The names of a target for the given number of indices. -/
def names (target : Pattern) (count : Nat) : List (List Char) :=
  if target.isScalar then [target.render 0] else (List.range count).map target.render

/-- The assignments between two sides whose slices are closed. -/
def pairs (location : Location) (target : Pattern) (source : Source) (count : Nat) :
    Except DeckError (List (String × String)) :=
  let names := names target count
  let values := source.values names.length count
  if values.length < names.length then
    .error (.lengthMismatch location names.length values.length)
  else .ok ((names.zip values).map fun pair => (String.ofList pair.1, String.ofList pair.2))

/--
The assignments that a slice line stands for. The length of a vector that exists is asked for when
neither side has a length of its own.
-/
def expand (location : Location) (existing : String → Option Nat) (name value : String) :
    Except DeckError (List (String × String)) := do
  let target := (← Pattern.parse location name.toList).wholeVector
  let source ← Source.parse location value.toList
  let (target, source) :=
    if (sharedLength target source).isNone then
      (target.closeFromExisting existing, source.closeFromExisting existing)
    else (target, source)
  let count := sharedLength target source
  let target ← target.closeBounds location name count
  let source ← source.closeBounds location value count
  pairs location target source (count.getD 0)

end InputDeck.Slice
