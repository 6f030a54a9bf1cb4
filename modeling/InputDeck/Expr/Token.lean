import InputDeck.Number.Layout
import InputDeck.Text.Quoted

/-!
# Tokens

The words of the expression language: number and text literals, segments of names, and symbols.
-/

namespace InputDeck

/-- The symbols of the expression language. -/
inductive Symbol where
  | leftParen
  | rightParen
  | leftBracket
  | rightBracket
  | comma
  | dot
  | assign
  | plus
  | minus
  | star
  | slash
  | percent
  | caret
  | less
  | lessEqual
  | greater
  | greaterEqual
  | equal
  | notEqual
  | both
  | either
  | bang
  deriving DecidableEq, Repr

namespace Symbol

/-- How a deck spells a symbol; a power may also be spelled with two stars. -/
def spelling : Symbol → String
  | leftParen => "("
  | rightParen => ")"
  | leftBracket => "["
  | rightBracket => "]"
  | comma => ","
  | dot => "."
  | assign => "="
  | plus => "+"
  | minus => "-"
  | star => "*"
  | slash => "/"
  | percent => "%"
  | caret => "^"
  | less => "<"
  | lessEqual => "<="
  | greater => ">"
  | greaterEqual => ">="
  | equal => "=="
  | notEqual => "!="
  | both => "&&"
  | either => "||"
  | bang => "!"

/-- The name of a symbol in messages. -/
def title : Symbol → String
  | leftParen => "LParen"
  | rightParen => "RParen"
  | leftBracket => "LBracket"
  | rightBracket => "RBracket"
  | comma => "Comma"
  | dot => "Dot"
  | assign => "Assign"
  | plus => "Plus"
  | minus => "Minus"
  | star => "Star"
  | slash => "Slash"
  | percent => "Percent"
  | caret => "Caret"
  | less => "Lt"
  | lessEqual => "Le"
  | greater => "Gt"
  | greaterEqual => "Ge"
  | equal => "EqEq"
  | notEqual => "NotEq"
  | both => "AndAnd"
  | either => "OrOr"
  | bang => "Bang"

end Symbol

/-- A word of the expression language. -/
inductive Token where
  /-- A number literal. -/
  | number (x : Float)
  /-- A text literal, without its quotes. -/
  | string (s : String)
  /-- A segment of a name. -/
  | name (s : String)
  /-- A symbol. -/
  | symbol (s : Symbol)

namespace Token

/-- How messages show a token. -/
def shown : Token → String
  | number x => "Number(" ++ Number.tokenText x ++ ")"
  | string s => "Str(" ++ Text.quoted s ++ ")"
  | name s => "Ident(" ++ Text.quoted s ++ ")"
  | symbol s => s.title

/-- How messages show the token at a place where there may be none. -/
def shownOption : Option Token → String
  | some token => "Some(" ++ token.shown ++ ")"
  | none => "None"

/-- Whether a dot behind a token separates names: it does behind a name and behind an index. -/
def endsName : Token → Bool
  | name _ => true
  | symbol .rightBracket => true
  | _ => false

end Token

end InputDeck
