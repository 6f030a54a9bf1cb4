import InputDeck.Expr.Error
import InputDeck.Table
import InputDeck.Value.Basic

/-!
# Evaluators

The compiler hands statements to an evaluator one by one, with the cards of the current suit under
their own names, and reads the values it finds in the evaluator's global table.
-/

namespace InputDeck

/--
A state of an engine that runs statements. A statement that assigns reports the global name it
assigned, with an index in its normal form; any other reports nothing. A statement that fails may
leave its marks on the state.
-/
class Evaluator (σ : Type) where
  /-- Run a statement, with names that come before the globals. -/
  interpret : String → Table Value → EStateM EvalError σ (Option String)
  /-- The global table. -/
  globals : σ → Table Value
  /-- Put another global table in place. -/
  withGlobals : Table Value → σ → σ

end InputDeck
