import InputDeck.Expr.Parsing

/-!
# Reading tokens by position

The parser functions of `Expr` pass on the tokens that are left. A token reader stands at a
position in one list of tokens instead and moves it forward token by token. It keeps its position
when it fails, so what is shown about positions covers every exit of the grammar.

The functions call each other in a circle and loop over operations, segments and arguments; each
call and each round of a loop takes one from the depth that is allowed. A reader whose depth is
used up has no result at all, which no failure of the grammar can be taken for.
-/

namespace InputDeck

/-- The symbol that a token is. -/
def Token.symbol? : Token → Option Symbol
  | symbol s => some s
  | _ => none

namespace Expr

/-- What reads tokens from a position: the result and the position behind it. -/
abbrev TokenReader := ExceptT GrammarError (StateT Nat Option)

namespace TokenReader

variable {α β : Type}

/-- The result of a reader that starts at a position, with the position at which it ends; nothing
when the depth of its calls is used up. -/
def readAt (reader : TokenReader α) (pos : Nat) : Option (Except GrammarError α × Nat) :=
  (ExceptT.run reader).run pos

/-- The reader whose depth of calls is used up. -/
def exhausted : TokenReader α := fun _ => none

/-! ## Single tokens -/

/-- The symbol at a position of a list of tokens. -/
def symbolAt (tokens : List Token) (pos : Nat) : Option Symbol := tokens[pos]?.bind Token.symbol?

section

variable (tokens : List Token)

/-- Look at the token at the position. -/
def peek : TokenReader (Option Token) := return tokens[← get]?

/-- Look at the symbol at the position. -/
def peekSymbol : TokenReader (Option Symbol) := return symbolAt tokens (← get)

/-- Step over a token. -/
def skip : TokenReader Unit := modify (· + 1)

/-- Take the token at the position, if there is one. -/
def advance : TokenReader (Option Token) := do
  match ← peek tokens with
  | none => return none
  | some token =>
    skip
    return some token

/-- Take a symbol if it stands at the position. -/
def eat (s : Symbol) : TokenReader Bool := do
  if (← peekSymbol tokens) = some s then
    skip
    return true
  else return false

/-- Take a symbol that must stand at the position. -/
def expect (s : Symbol) : TokenReader Unit := do
  if ← eat tokens s then return ()
  else throw (.missing s (← peek tokens))

/-! ## The functions of the grammar -/

/-- The segments that go on a name, each behind a dot. -/
def path : Nat → String → TokenReader String
  | 0, _ => exhausted
  | depth + 1, front => do
    if ← eat tokens .dot then
      match ← advance tokens with
      | some (.name segment) => path depth (front ++ "." ++ segment)
      | found => throw (.missingName found)
    else return front

mutual

/-- An expression of the first of the given levels, or of the tighter ones behind it. -/
def levels : Nat → List Level → TokenReader Expr
  | 0, _ => exhausted
  | depth + 1, [] => unary depth
  | depth + 1, level :: tighter => do
    let left ← levels depth tighter
    chain depth level tighter left

/-- The operations of one level that go on an expression, grouped to the left. -/
def chain : Nat → Level → List Level → Expr → TokenReader Expr
  | 0, _, _, _ => exhausted
  | depth + 1, level, tighter, left => do
    match (← peekSymbol tokens).bind level.operation? with
    | none => return left
    | some op =>
      skip
      let right ← levels depth tighter
      chain depth level tighter (.binary op left right)

/-- A power, or an operation in front of an operand. -/
def unary : Nat → TokenReader Expr
  | 0 => exhausted
  | depth + 1 => do
    match (← peekSymbol tokens).bind UnaryOp.ofSymbol? with
    | none => power depth
    | some op =>
      skip
      let operand ← unary depth
      return .unary op operand

/-- A primary expression, raised to a power when a caret follows. -/
def power : Nat → TokenReader Expr
  | 0 => exhausted
  | depth + 1 => do
    let base ← primary depth
    if ← eat tokens .caret then
      let exponent ← unary depth
      return .binary .power base exponent
    else return base

/-- A literal, an expression in parentheses, or what begins with a name. -/
def primary : Nat → TokenReader Expr
  | 0 => exhausted
  | depth + 1 => do
    match ← advance tokens with
    | some (.number x) => return .number x
    | some (.string s) => return .string s
    | some (.symbol .leftParen) =>
      let inner ← levels depth Level.all
      expect tokens .rightParen
      return inner
    | some (.symbol s) => throw (.unexpected (.symbol s))
    | some (.name first) => name depth first
    | none => throw .unexpectedEnd

/-- A name whose first segment is taken already, an element or a call. -/
def name : Nat → String → TokenReader Expr
  | 0, _ => exhausted
  | depth + 1, first => do
    let path ← path tokens depth first
    if ← eat tokens .leftParen then
      let arguments ← arguments depth
      return .call path arguments
    else if path = "true" then return .boolean true
    else if path = "false" then return .boolean false
    else if ← eat tokens .leftBracket then
      let index ← levels depth Level.all
      expect tokens .rightBracket
      return .element path index
    else return .name path

/-- The arguments of a call up to the closing parenthesis; there may be none. -/
def arguments : Nat → TokenReader (List Expr)
  | 0 => exhausted
  | depth + 1 => do
    if ← eat tokens .rightParen then return []
    else someArguments depth

/-- One or more arguments of a call up to the closing parenthesis. -/
def someArguments : Nat → TokenReader (List Expr)
  | 0 => exhausted
  | depth + 1 => do
    let argument ← levels depth Level.all
    if ← eat tokens .rightParen then return [argument]
    else
      expect tokens .comma
      let arguments ← someArguments depth
      return argument :: arguments

end

/-- A statement ends with its last token. -/
def finish (statement : Statement) : TokenReader Statement := do
  match ← peek tokens with
  | none => return statement
  | some token => throw (.afterStatement token)

/-- A statement from all tokens of the list. -/
def statement (depth : Nat) : TokenReader Statement := do
  if tokens.isEmpty then throw .emptyStatement
  else
    let e ← levels tokens depth Level.all
    if ← eat tokens .assign then
      match e.target? with
      | none => throw (Statement.assignedError e)
      | some target =>
        let value ← levels tokens depth Level.all
        finish tokens (.assign target value)
    else finish tokens (.evaluate e)

end

/-! ## How single steps read -/

section

variable {tokens : List Token} {pos : Nat} {s : Symbol}

/-- A sequence goes on where its first reader ends, unless that one fails. -/
theorem bind_readAt (reader : TokenReader α) (f : α → TokenReader β) :
    readAt (reader >>= f) pos =
      (reader.readAt pos).bind fun
        | (.ok a, after) => (f a).readAt after
        | (.error e, after) => some (.error e, after) := by
  unfold readAt
  rw [ExceptT.run_bind, StateT.run_bind]
  refine congrArg (Option.bind _) (funext ?_)
  rintro ⟨_ | a, after⟩ <;> rfl

/-- A sequence goes on behind what its first reader takes. -/
theorem bind_readAt_of_ok {reader : TokenReader α} {a : α} {after : Nat}
    (h : reader.readAt pos = some (.ok a, after)) (f : α → TokenReader β) :
    readAt (reader >>= f) pos = (f a).readAt after := by
  rw [bind_readAt, h, Option.bind_some]

/-- A sequence fails where its first reader does. -/
theorem bind_readAt_of_error {reader : TokenReader α} {e : GrammarError} {after : Nat}
    (h : reader.readAt pos = some (.error e, after)) (f : α → TokenReader β) :
    readAt (reader >>= f) pos = some (.error e, after) := by
  rw [bind_readAt, h, Option.bind_some]

/-- Looking at a token leaves the position as it is. -/
@[simp] theorem peek_readAt (f : Option Token → TokenReader α) :
    readAt (peek tokens >>= f) pos = (f tokens[pos]?).readAt pos := rfl

/-- Looking at a symbol leaves the position as it is. -/
@[simp] theorem peekSymbol_readAt (f : Option Symbol → TokenReader α) :
    readAt (peekSymbol tokens >>= f) pos = (f (symbolAt tokens pos)).readAt pos := rfl

/-- Taking a token moves the position unless the tokens are at their end. -/
theorem advance_readAt (f : Option Token → TokenReader α) :
    readAt (advance tokens >>= f) pos =
      match tokens[pos]? with
      | none => (f none).readAt pos
      | some token => (f (some token)).readAt (pos + 1) := by
  unfold advance
  rw [bind_assoc, peek_readAt]
  split <;> rfl

/-- Taking a symbol moves the position only where the symbol stands. -/
theorem eat_readAt (f : Bool → TokenReader α) :
    readAt (eat tokens s >>= f) pos =
      if symbolAt tokens pos = some s then (f true).readAt (pos + 1) else (f false).readAt pos := by
  unfold eat
  rw [bind_assoc, peekSymbol_readAt]
  split <;> rfl

/-- A symbol that is missing is named with the token in its place. -/
theorem expect_readAt (f : Unit → TokenReader α) :
    readAt (expect tokens s >>= f) pos =
      if symbolAt tokens pos = some s then (f ()).readAt (pos + 1)
      else some (.error (.missing s tokens[pos]?), pos) := by
  unfold expect
  rw [bind_assoc, eat_readAt]
  split <;> rfl

end

end TokenReader

end Expr

end InputDeck
