import InputDeck.ElementName
import InputDeck.Expr.Operation
import InputDeck.Table

/-!
# Evaluation

An expression is evaluated in a scope, and may print lines. Operands are evaluated from left to
right, except that `&&` and `||` leave out a right operand that cannot matter. What was printed
before a failure stays printed.
-/

namespace InputDeck

/-- The names that an expression can use. -/
structure Scope where
  /-- All names of the evaluator. -/
  globals : Table Value
  /-- The names that come before the globals. -/
  locals : Table Value := ∅

/-- The value of a name: a local one before a global one. -/
def Scope.lookup? (scope : Scope) (name : String) : Option Value :=
  scope.locals[name]? <|> scope.globals[name]?

/-- A computation that can fail and that prints lines. -/
abbrev Printing (α : Type) : Type := EStateM EvalError (List String) α

/-- A computation that prints nothing. -/
def Printing.ofExcept {α : Type} : Except EvalError α → Printing α
  | .ok a => pure a
  | .error e => throw e

/-- Add a line to what is printed. -/
def printLine (line : String) : Printing Unit := modify (· ++ [line])

/-- The value of a name in a scope. -/
def Scope.find (scope : Scope) (name : String) : Printing Value :=
  match scope.lookup? name with
  | some v => pure v
  | none => throw (.undefinedName name)

/-- The name of the element of a vector that a value as index selects. -/
def elementKey (path : String) (index : Value) : Except EvalError String := do
  let x ← index.asNumber "[]"
  match Number.index? x with
  | some n => return elementName path n
  | none => throw (.invalidIndex x)

/-- Call a function by its name. -/
def callFunction (function : String) (arguments : List Value) : Printing Value :=
  match Builtin.ofName? function with
  | none => throw (.unknownFunction function)
  | some .print => do
    printLine (Builtin.printed arguments)
    .ofExcept (Builtin.print.apply arguments)
  | some f => .ofExcept (f.apply arguments)

namespace Expr

mutual

/-- The value of an expression. -/
def eval (scope : Scope) : Expr → Printing Value
  | number x => pure (.number x)
  | string s => pure (.string s)
  | boolean b => pure (.boolean b)
  | name path => scope.find path
  | element path index => do
    let key ← .ofExcept (elementKey path (← eval scope index))
    scope.find key
  | unary op operand => do
    .ofExcept (op.apply (← eval scope operand))
  | binary .and left right => do
    if ← .ofExcept ((← eval scope left).asBoolean BinaryOp.and.symbol.spelling) then
      return .boolean (← .ofExcept ((← eval scope right).asBoolean BinaryOp.and.symbol.spelling))
    else return .boolean false
  | binary .or left right => do
    if ← .ofExcept ((← eval scope left).asBoolean BinaryOp.or.symbol.spelling) then
      return .boolean true
    else return .boolean (← .ofExcept ((← eval scope right).asBoolean BinaryOp.or.symbol.spelling))
  | binary op left right => do
    let l ← eval scope left
    let r ← eval scope right
    .ofExcept (op.apply l r)
  | call function arguments => do
    callFunction function (← evalAll scope arguments)

/-- The values of arguments, from left to right. -/
def evalAll (scope : Scope) : List Expr → Printing (List Value)
  | [] => pure []
  | e :: es => do
    let v ← eval scope e
    let vs ← evalAll scope es
    return v :: vs

end

end Expr

/-- The global name of a target. -/
def Target.key (scope : Scope) (target : Target) : Printing String :=
  match target.index with
  | none => pure target.path
  | some index => do .ofExcept (elementKey target.path (← index.eval scope))

end InputDeck
