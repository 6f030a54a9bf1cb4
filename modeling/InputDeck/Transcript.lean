import InputDeck.Evaluator

/-!
# Evaluators for observation

A transcript notes every statement that an evaluator gets, with the local names that come with it.
A fixed evaluator runs nothing and reports the same to every statement.
-/

namespace InputDeck

/-- An evaluator with a note of what it got. -/
structure Transcript (σ : Type) where
  /-- The evaluator. -/
  engine : σ
  /-- The statements it got, with the local names of each. -/
  sent : List (String × Table Value) := []

namespace Transcript

variable {σ : Type} [Evaluator σ]

instance : Evaluator (Transcript σ) where
  interpret statement locals := fun t =>
    let sent := t.sent ++ [(statement, locals)]
    match Evaluator.interpret statement locals t.engine with
    | .ok key engine => .ok key ⟨engine, sent⟩
    | .error e engine => .error e ⟨engine, sent⟩
  globals t := Evaluator.globals t.engine
  withGlobals globals t := { t with engine := Evaluator.withGlobals globals t.engine }

end Transcript

/-- An evaluator that runs nothing. -/
structure FixedEvaluator where
  /-- What it reports to every statement. -/
  report : Option String
  /-- Its global table. -/
  globals : Table Value := ∅

instance : Evaluator FixedEvaluator where
  interpret _ _ := fun engine => .ok engine.report engine
  globals engine := engine.globals
  withGlobals globals engine := { engine with globals := globals }

end InputDeck
