import InputDeck.Evaluator
import InputDeck.Expr.Evaluation
import InputDeck.Expr.Lexing
import InputDeck.Expr.Parsing

/-!
# The interpreter

The built-in evaluator reads each statement, evaluates it in the scope of its globals, and keeps
the lines that are printed until they are taken.
-/

namespace InputDeck

/-- The state of the built-in evaluator. -/
structure Interpreter where
  /-- The values of all global names. -/
  globals : Table Value := ∅
  /-- The lines printed since they were last taken. -/
  output : List String := []

namespace Interpreter

instance : Inhabited Interpreter := ⟨{}⟩

/-- Run a computation that prints lines. -/
def printing {α : Type} (action : Printing α) : EStateM EvalError Interpreter α := fun vm =>
  match action vm.output with
  | .ok a output => .ok a { vm with output := output }
  | .error e output => .error e { vm with output := output }

/-- Read the one statement of a text. -/
def read (text : String) : Except EvalError Statement := do
  let tokens ← Token.ofText text
  (Statement.parse tokens).mapError .grammar

/--
Run a statement. An assignment evaluates the value before the index of the target, and reports the
name that it binds.
-/
def run (locals : Table Value) (statement : Statement) :
    EStateM EvalError Interpreter (Option String) := do
  let scope : Scope := ⟨(← get).globals, locals⟩
  match statement with
  | .assign target value =>
    let v ← printing (value.eval scope)
    let key ← printing (target.key scope)
    modify fun vm => { vm with globals := vm.globals.insert key v }
    return some key
  | .evaluate e =>
    let _ ← printing (e.eval scope)
    return none

/-- Read and run a statement. -/
def interpret (text : String) (locals : Table Value) :
    EStateM EvalError Interpreter (Option String) := do
  match read text with
  | .ok statement => run locals statement
  | .error e => throw e

/-- The lines printed since they were last taken, which are taken now. -/
def takeOutput (vm : Interpreter) : List String × Interpreter :=
  (vm.output, { vm with output := [] })

instance : Evaluator Interpreter where
  interpret := interpret
  globals := globals
  withGlobals globals vm := { vm with globals := globals }

end Interpreter

end InputDeck
