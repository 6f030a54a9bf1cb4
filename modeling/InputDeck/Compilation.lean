import InputDeck.Evaluator
import InputDeck.Globals
import InputDeck.LogicalLine
import InputDeck.Slice
import InputDeck.Suit.Header

/-!
# Compilation

A text is compiled line by line. A suit header changes the current suit; every other line sends
statements to the evaluator. A statement that assigns names its target in full, and the value it
left there becomes a local name of the current suit, so that the lines below find it under its
short name. The first failure ends the compilation, and what was done before it stays done.
-/

namespace InputDeck

/-- What is known of a text that was compiled. -/
structure Compiled where
  /-- The last assignment of each global. -/
  provenance : Provenance := ∅
  /-- The suits that headers declare, in the order in which they were first seen. -/
  suits : List SuitPath := []
  /-- The number of statements that the evaluator got. -/
  statements : Nat := 0

/-- The state of a compilation. -/
structure Progress (σ : Type) where
  /-- The evaluator. -/
  engine : σ
  /-- The current suit. -/
  cursor : SuitCursor := {}
  /-- The cards assigned since the last header, by their names in the current suit. -/
  locals : Table Value := ∅
  /-- What is known so far. -/
  compiled : Compiled := {}

/-- The number of indices from `index` on that are defined without a gap, at most `count`. -/
def runLength (defined : Nat → Bool) : Nat → Nat → Nat
  | 0, _ => 0
  | count + 1, index => if defined index then runLength defined count (index + 1) + 1 else 0

/-- A hint for a line without an assignment sign. -/
def missingEqualsHint : String := "possibly missing '=' in card declaration"

namespace Progress

variable {σ : Type} [Evaluator σ]

/-- Whether an element of a vector is known in the current suit, as a local or a global name. -/
def isDefined (progress : Progress σ) (base : String) (index : Nat) : Bool :=
  let globals := Evaluator.globals progress.engine
  progress.locals.contains (elementName base index) ||
    globals.contains (elementName (progress.cursor.current.qualify base) index) ||
    globals.contains (elementName base index)

/--
The length of a vector that is known in the current suit. Each index is known by an entry of the
locals or by one of two names among the globals, so no run is longer than they are together.
-/
def existingLength? (progress : Progress σ) (base : String) : Option Nat :=
  let bound := progress.locals.size + 2 * (Evaluator.globals progress.engine).size
  match runLength (progress.isDefined base) bound 0 with
  | 0 => none
  | length => some length

/-- Send a statement to the evaluator. -/
def send (statement : String) (location : Location) (hint : Option String) :
    EStateM DeckError (Progress σ) (Option String) := fun progress =>
  let progress := { progress with
    compiled := { progress.compiled with statements := progress.compiled.statements + 1 } }
  match Evaluator.interpret statement progress.locals progress.engine with
  | .ok key engine => .ok key { progress with engine := engine }
  | .error cause engine =>
    .error (.expression (some location) statement hint cause) { progress with engine := engine }

/-- Note that a global was assigned, and make its value a local name. -/
def bind (progress : Progress σ) (name key : String) (origin : Origin) : Progress σ :=
  let localName := (progress.cursor.current.localize key).getD name
  { progress with
    locals :=
      match (Evaluator.globals progress.engine)[key]? with
      | some value => progress.locals.insert localName value
      | none => progress.locals
    compiled := { progress.compiled with
      provenance := progress.compiled.provenance.insert key origin } }

/-- The statement that assigns to a name of a suit. -/
def assignment (suit : SuitPath) (name value : String) : String :=
  suit.qualify name ++ " = " ++ value

/-- Assign to a name of the current suit. -/
def assign (name value : String) (location : Location) (comment : Option String) :
    EStateM DeckError (Progress σ) Unit := do
  let suit := (← get).cursor.current
  let key ← send (assignment suit name value) location none
  modify fun progress => progress.bind name (key.getD (suit.qualify name)) ⟨location.line, comment⟩

/-- Assign one after the other; the comment belongs to the first assignment. -/
def assignAll (location : Location) (comment : Option String) :
    List (String × String) → EStateM DeckError (Progress σ) Unit
  | [] => pure ()
  | (name, value) :: rest => do
    assign name value location comment
    assignAll location none rest

/-- Enter the suit of a header, whose cards have no local names yet. -/
def enter (settings : Settings) (line : LogicalLine) : EStateM DeckError (Progress σ) Unit := do
  let progress ← get
  match progress.cursor.enter settings line.text line.number with
  | .error e => throw e
  | .ok cursor =>
    let suits := progress.compiled.suits
    set { progress with
      cursor := cursor
      locals := ∅
      compiled := { progress.compiled with
        suits := if cursor.current ∈ suits then suits else suits ++ [cursor.current] } }

/-- The assignments to the elements of a vector. -/
def elementAssignments (name : String) (values : List String) : List (String × String) :=
  values.zipIdx.map fun (value, index) => (elementName name index, value)

/-- Compile a line that is no suit header. -/
def compileCardLine (line : LogicalLine) : EStateM DeckError (Progress σ) Unit := do
  let progress ← get
  let location := progress.cursor.locate line.number
  match CardLine.ofText line.text location with
  | .error e => throw e
  | .ok (.expression text) => do
    let _ ← send text location (some missingEqualsHint)
  | .ok (.scalar name value) => assign name value location line.comment
  | .ok (.vector name values) =>
    assignAll location line.comment (elementAssignments name values)
  | .ok (.slice name value) =>
    match Slice.expand location progress.existingLength? name value with
    | .error e => throw e
    | .ok pairs => assignAll location line.comment pairs

/-- Compile a line. -/
def compileLine (settings : Settings) (line : LogicalLine) :
    EStateM DeckError (Progress σ) Unit :=
  if SuitCursor.isHeader settings line.text then enter settings line else compileCardLine line

/-- Compile lines one after the other. -/
def compileLines (settings : Settings) : List LogicalLine → EStateM DeckError (Progress σ) Unit
  | [] => pure ()
  | line :: rest => do
    compileLine settings line
    compileLines settings rest

end Progress

/-- Compile a text with an evaluator. -/
def compile {σ : Type} [Evaluator σ] (settings : Settings) (text : String) :
    EStateM DeckError σ Compiled := fun engine =>
  match Progress.compileLines settings (LogicalLine.ofText settings text) { engine := engine } with
  | .ok _ progress => .ok progress.compiled progress.engine
  | .error e progress => .error e progress.engine

end InputDeck
