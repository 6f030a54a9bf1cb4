import InputDeck.Slice
import InputDeck.Proofs.Text.Bytes

/-!
# Slice lines on a machine

How a machine expands slice lines: indices and lengths are words of 64 bits, and texts are cut at
byte offsets. A difference below zero, a sum that a word does not hold and a cut outside a text or
inside a character are faults, and stop the machine. The machine goes step by step: it asks for the
shortest length again whenever slices were closed, and for the length of a vector whenever it needs
one.
-/

namespace InputDeck.Slice.Machine

open InputDeck.Text InputDeck.Number InputDeck.Scan

/-! ## Words and cuts -/

/-- The sum of two words, unless it is none. -/
def add (a b : Nat) : Option Nat := if a + b < wordLimit then some (a + b) else none

/-- The difference of two words, unless it is below zero. -/
def sub (a b : Nat) : Option Nat := if b ≤ a then some (a - b) else none

/-- A computation of the machine: none when a fault stops it, and its outcome otherwise. -/
abbrev Checked := ExceptT DeckError Option

/-- The byte offset of the first character of a kind outside quotes. -/
def findUnquoted (target : Char) (cs : List Char) : Option Nat :=
  (cutUnquoted target {} cs).map fun parts => byteLength parts.1

/-- The text behind the character of one byte at an offset. -/
def behind (offset : Nat) (cs : List Char) : Option (List Char) :=
  (add offset 1).bind (dropBytes · cs)

/-- What is cut off behind a character is shorter. -/
theorem length_lt_of_behind {offset : Nat} {cs ds : List Char} (h : behind offset cs = some ds) :
    ds.length < cs.length := by
  obtain ⟨stop, hstop, hdrop⟩ := Option.bind_eq_some_iff.1 h
  unfold add at hstop
  split at hstop
  · obtain rfl := Option.some.inj hstop
    exact length_lt_of_dropBytes hdrop
  · cases hstop

/-- The text between the characters of one byte at two offsets. -/
def inside (opening closing : Nat) (cs : List Char) : Option (List Char) :=
  (add opening 1).bind (byteRange · closing cs)

/-- The text between two offsets, with the character of one byte at the second one. -/
def through (opening closing : Nat) (cs : List Char) : Option (List Char) :=
  (add closing 1).bind (byteRange opening · cs)

/-! ## Reading -/

/-- Read the rest of a side behind some text that belongs to its next slice or to its tail. -/
def parseFrom (location : Location) (side literal rest : List Char) : Checked Pattern :=
  match findUnquoted '[' rest with
  | none => return ⟨[], literal ++ rest⟩
  | some opening =>
    match matchingBracket rest opening with
    | none => throw (.malformedVector location (String.ofList side))
    | some closing => do
      let before ← byteRange 0 opening rest
      let inner ← inside opening closing rest
      match findUnquoted ':' inner with
      | none => do
        let bracket ← through opening closing rest
        match _ : behind closing rest with
        | none => liftM (none : Option Pattern)
        | some after => parseFrom location side (literal ++ before ++ bracket) after
      | some colon => do
        let lowerText ← byteRange 0 colon inner
        let upperText ← behind colon inner
        let (lower, upper) ← ExceptT.mk (some (bounds location inner lowerText upperText))
        match _ : behind closing rest with
        | none => liftM (none : Option Pattern)
        | some after => do
          let pattern ← parseFrom location side [] after
          return { pattern with segments := ⟨literal ++ before, lower, upper⟩ :: pattern.segments }
termination_by rest.length
decreasing_by all_goals exact length_lt_of_behind ‹_›

/-- The byte offsets of the top-level separators of a text, when the given number of bytes stands in
front of it. -/
def separatorsFrom (sep : Char) (offset parens : Nat) (s : State) : List Char → List Nat
  | [] => []
  | c :: cs =>
    let others (parens : Nat) := separatorsFrom sep (offset + c.utf8Size) parens (s.next c) cs
    if s.isNormal then
      if c = '(' then others (parens + 1)
      else if c = ')' then others (parens - 1)
      else if c = sep ∧ parens = 0 then offset :: others parens
      else others parens
    else others parens

/-- The pieces of a text from an offset on, between separators at the given offsets. -/
def piecesAt (sep : Char) (cs : List Char) (start : Nat) : List Nat → Option (List (List Char))
  | [] => (dropBytes start cs).map ([·])
  | offset :: offsets => do
    let piece ← byteRange start offset cs
    let others ← piecesAt sep cs (← add offset sep.utf8Size) offsets
    return piece :: others

/-- The pieces of a text between its top-level separators. -/
def splitTopLevel (sep : Char) (cs : List Char) : Option (List (List Char)) :=
  piecesAt sep cs 0 (separatorsFrom sep 0 0 {} cs)

/-- Whether a text is one bracket from its first to its last byte. -/
def isBracketLiteral (cs : List Char) : Option Bool :=
  match cs with
  | '[' :: _ => do
    let last ← sub (byteLength cs) 1
    return matchingBracket cs 0 == some last
  | _ => return false

/-- The items of a list. -/
def listItems (value : List Char) : Option (Option (List (List Char))) := do
  if ← isBracketLiteral value then
    let inner ← byteRange 1 (← sub (byteLength value) 1) value
    return some (← splitTopLevel ',' inner)
  else if (separatorsFrom ',' 0 0 {} value).isEmpty then return none
  else return some (← splitTopLevel ',' value)

/-- Read what is assigned to a slice. -/
def parseSource (location : Location) (value : List Char) : Checked Source := do
  match ← listItems value with
  | some items => return .items items
  | none => return .pattern (← parseFrom location value [] value)

/-! ## Lengths -/

/-- The name of the vector that a slice reads. -/
def vectorName (segment : Segment) : Option (Option String) :=
  match lastRunStart Segment.isPathChar segment.leading with
  | none => some none
  | some start => (dropBytes start segment.leading).map fun name => some (String.ofList name)

/-- Where an open slice ends when its vector exists and reaches up to its start. -/
def existingUpper (existing : String → Option Nat) (segment : Segment) : Option (Option Nat) := do
  return ((← vectorName segment).bind existing).filter fun length => segment.lower ≤ length

/-- The lengths that are known of slices. -/
def lengths : List Segment → Option (List Nat)
  | [] => some []
  | segment :: segments =>
    match segment.upper with
    | none => lengths segments
    | some last => do
      let length ← sub last segment.lower
      return length :: (← lengths segments)

/-- The shortest length that is known on both sides. -/
def sharedLength (target : Pattern) (source : Source) : Option (Option Nat) := do
  let targetLengths ← lengths target.segments
  match source with
  | .pattern p => return (targetLengths ++ (← lengths p.segments)).min?
  | .items xs => return (targetLengths ++ [xs.length]).min?

/-- End an open slice where its vector ends. -/
def closeByVector (existing : String → Option Nat) (segment : Segment) : Option Segment :=
  match segment.upper with
  | some _ => some segment
  | none => do return { segment with upper := ← existingUpper existing segment }

/-- End the open slices of a side where their vectors end. -/
def closePatternByVectors (existing : String → Option Nat) (pattern : Pattern) :
    Option Pattern := do
  return { pattern with segments := ← pattern.segments.mapM (closeByVector existing) }

/-- End the open slices of a source where their vectors end. -/
def closeSourceByVectors (existing : String → Option Nat) : Source → Option Source
  | .pattern p => do return .pattern (← closePatternByVectors existing p)
  | .items xs => some (.items xs)

/-- End the open slices of vectors that exist when no length is known otherwise, and ask for the
shortest length again. -/
def settle (existing : String → Option Nat) (target : Pattern) (source : Source) :
    Option (Pattern × Source × Option Nat) := do
  let count ← sharedLength target source
  if count.isNone then
    let target ← closePatternByVectors existing target
    let source ← closeSourceByVectors existing source
    return (target, source, ← sharedLength target source)
  else return (target, source, count)

/-- End an open slice after the given number of indices; its vector is asked for again when there is
none. -/
def closeSegment (location : Location) (existing : String → Option Nat) (side : String)
    (count : Option Nat) (segment : Segment) : Checked Segment :=
  match segment.upper, count with
  | some _, _ => return segment
  | none, some count =>
    match add segment.lower count with
    | some last => return { segment with upper := some last }
    | none => throw (.invalidBound location side)
  | none, none => do
    match ← existingUpper existing segment with
    | some last => return { segment with upper := some last }
    | none => throw (.missingUpperBound location side)

/-- End the open slices of a side after the given number of indices. -/
def closePattern (location : Location) (existing : String → Option Nat) (side : String)
    (count : Option Nat) (pattern : Pattern) : Checked Pattern := do
  let segments ← pattern.segments.mapM (closeSegment location existing side count)
  return { pattern with segments := segments }

/-- End the open slices of a source after the given number of indices. -/
def closeSource (location : Location) (existing : String → Option Nat) (side : String)
    (count : Option Nat) : Source → Checked Source
  | .pattern p => do return .pattern (← closePattern location existing side count p)
  | .items xs => return .items xs

/-! ## Assignments -/

/-- The element of a slice with the given place in it, behind the text that leads up to it. -/
def element (k : Nat) (segment : Segment) : Option (List Char) := do
  let index ← add segment.lower k
  return segment.leading ++ '[' :: (natText index).toList ++ [']']

/-- The text of a side with its slices replaced by their elements in the given place. -/
def render (pattern : Pattern) (k : Nat) : Option (List Char) := do
  let parts ← pattern.segments.mapM (element k)
  return parts.flatten ++ pattern.tail

/-- The names of a target for the given number of indices. -/
def names (target : Pattern) (count : Nat) : Option (List (List Char)) :=
  if target.isScalar then (render target 0).map ([·]) else (List.range count).mapM (render target)

/-- The values for the given number of names and the given number of indices. -/
def values (names count : Nat) : Source → Option (List (List Char))
  | .items xs => some xs
  | .pattern p =>
    if p.isScalar then (render p 0).map (List.replicate names)
    else (List.range count).mapM (render p)

/-- The assignments between two sides whose slices are closed. -/
def pairs (location : Location) (target : Pattern) (source : Source) (count : Nat) :
    Checked (List (String × String)) := do
  let names ← names target count
  let values ← values names.length count source
  if values.length < names.length then
    throw (.lengthMismatch location names.length values.length)
  else return (names.zip values).map fun pair => (String.ofList pair.1, String.ofList pair.2)

/-- The assignments that a slice line stands for, by the machine. -/
def expand (location : Location) (existing : String → Option Nat) (name value : String) :
    Checked (List (String × String)) := do
  let target ← parseFrom location name.toList [] name.toList
  let source ← parseSource location value.toList
  let (target, source, count) ← settle existing target.wholeVector source
  let target ← closePattern location existing name count target
  let source ← closeSource location existing value count source
  let count ← sharedLength target source
  pairs location target source (count.getD 0)

end InputDeck.Slice.Machine
