import InputDeck.Expr.Token
import InputDeck.Value.Basic

/-!
# Failures of statements

The causes for which a statement is not read or not evaluated, and the wording of each.
-/

namespace InputDeck

/-- Why the tokens of a statement are not read. -/
inductive GrammarError where
  /-- There is no token at all. -/
  | emptyStatement
  /-- A literal cannot be assigned to. -/
  | assignedLiteral
  /-- A call cannot be assigned to. -/
  | assignedCall
  /-- Only names can be assigned to. -/
  | assignedExpression
  /-- The statement has ended before this token. -/
  | afterStatement (found : Token)
  /-- Another symbol is needed here. -/
  | missing (expected : Symbol) (found : Option Token)
  /-- No expression begins with this token. -/
  | unexpected (found : Token)
  /-- The expression goes on behind the last token. -/
  | unexpectedEnd
  /-- A dot is followed by a name. -/
  | missingName (found : Option Token)

namespace GrammarError

/-- The wording of a cause. -/
def message : GrammarError → String
  | emptyStatement => "empty statement"
  | assignedLiteral => "cannot assign to a literal"
  | assignedCall => "cannot assign to a function call"
  | assignedExpression => "cannot assign to an expression"
  | afterStatement found => "unexpected " ++ found.shown ++ " after statement"
  | missing expected found =>
    "expected " ++ expected.title ++ ", found " ++ Token.shownOption found
  | unexpected found => "unexpected " ++ found.shown
  | unexpectedEnd => "unexpected end of expression"
  | missingName found => "expected a name after '.', found " ++ Token.shownOption found

end GrammarError

/-- How many arguments a function takes. -/
inductive Arity where
  /-- Exactly this many. -/
  | exactly (n : Nat)
  /-- One or more. -/
  | atLeastOne

/-- The wording of an arity. -/
def Arity.phrase : Arity → String
  | exactly n => Number.natText n
  | atLeastOne => "at least 1"

/-- What an operation needs. -/
inductive Operand where
  /-- A number. -/
  | number
  /-- A truth value. -/
  | boolean
  /-- Two operands of one kind that the operation knows. -/
  | matching

/-- The wording of a need. -/
def Operand.phrase : Operand → String
  | number => "a number"
  | boolean => "a boolean"
  | matching => "operands of matching kind"

/-- Why a statement fails. -/
inductive EvalError where
  /-- No token begins with this character; columns count characters from one. -/
  | unexpectedChar (c : Char) (column : Nat)
  /-- A text literal is not closed. -/
  | unterminatedString
  /-- A number literal is no numeral. -/
  | invalidNumber (text : String)
  /-- The tokens are no statement. -/
  | grammar (cause : GrammarError)
  /-- Nothing has this name. -/
  | undefinedName (name : String)
  /-- No function has this name. -/
  | unknownFunction (name : String)
  /-- A function is called with another number of arguments than it takes. -/
  | arity (name : String) (expected : Arity) (found : Nat)
  /-- An operation meets a value of the wrong kind. -/
  | typeMismatch (operation : String) (expected : Operand) (found : Kind)
  /-- A number is no index. -/
  | invalidIndex (x : Float)

namespace EvalError

/-- The wording of a failure. -/
def message : EvalError → String
  | unexpectedChar c column =>
    "unexpected character '" ++ String.singleton c ++ "' at column " ++ Number.natText column
  | unterminatedString => "unterminated string literal"
  | invalidNumber text => "invalid number literal '" ++ text ++ "'"
  | grammar cause => "syntax error: " ++ cause.message
  | undefinedName name => "undefined name '" ++ name ++ "'"
  | unknownFunction name => "unknown function '" ++ name ++ "'"
  | arity name expected found =>
    "function '" ++ name ++ "' expects " ++ expected.phrase ++ " argument(s), got " ++
      Number.natText found
  | typeMismatch operation expected found =>
    "'" ++ operation ++ "' expects " ++ expected.phrase ++ ", got a " ++ found.name
  | invalidIndex x => "index " ++ Number.indexText x ++ " is not a non-negative integer"

end EvalError

end InputDeck
