import InputDeck.Expr.Basic
import InputDeck.Expr.Error

/-!
# Parsing

The grammar has five levels of operations that group to the left, then operations in front of one
operand, then powers, whose exponent may have such operations in front and groups to the right.
A statement is an expression, or a target, the assignment symbol and an expression.

Each function reads the front of a token list and returns what it read with the tokens behind it.
The functions call each other in a circle, so they take a bound on the depth of the calls. Between
two calls that begin at the same token the level only tightens, hence `depthBound` is deep enough
for every list of tokens, and beyond it the bound changes no answer.
-/

namespace InputDeck

namespace Expr

/-- The symbol needed at the front of a token list, and the tokens behind it. -/
def expect (s : Symbol) : List Token → Except GrammarError (List Token)
  | .symbol t :: rest => if t = s then .ok rest else .error (.missing s (some (.symbol t)))
  | ts => .error (.missing s ts.head?)

/-- The segments that go on a name, each behind a dot. -/
def parsePath (path : String) : List Token → Except GrammarError (String × List Token)
  | .symbol .dot :: .name segment :: rest => parsePath (path ++ "." ++ segment) rest
  | .symbol .dot :: rest => .error (.missingName rest.head?)
  | ts => .ok (path, ts)

/-- The operation of a level at the front of a token list, and the tokens behind it. -/
def nextOperation? (level : Level) : List Token → Option (BinaryOp × List Token)
  | .symbol s :: rest => (level.operation? s).map (·, rest)
  | _ => none

/-- The operation on one operand at the front of a token list, and the tokens behind it. -/
def nextUnary? : List Token → Option (UnaryOp × List Token)
  | .symbol s :: rest => (UnaryOp.ofSymbol? s).map (·, rest)
  | _ => none

mutual

/-- An expression of the first of the given levels, or of the tighter ones behind it. -/
def parseLevels : Nat → List Level → List Token → Except GrammarError (Expr × List Token)
  | 0, _, _ => .error .unexpectedEnd
  | depth + 1, [], ts => parseUnary depth ts
  | depth + 1, level :: tighter, ts => do
    let (left, rest) ← parseLevels depth tighter ts
    parseChain depth level tighter left rest

/-- The operations of one level that go on an expression, grouped to the left. -/
def parseChain : Nat → Level → List Level → Expr → List Token →
    Except GrammarError (Expr × List Token)
  | 0, _, _, _, _ => .error .unexpectedEnd
  | depth + 1, level, tighter, left, ts =>
    match nextOperation? level ts with
    | none => .ok (left, ts)
    | some (op, rest) => do
      let (right, rest) ← parseLevels depth tighter rest
      parseChain depth level tighter (.binary op left right) rest

/-- A power, or an operation in front of an operand. -/
def parseUnary : Nat → List Token → Except GrammarError (Expr × List Token)
  | 0, _ => .error .unexpectedEnd
  | depth + 1, ts =>
    match nextUnary? ts with
    | some (op, rest) => do
      let (operand, rest) ← parseUnary depth rest
      return (.unary op operand, rest)
    | none => parsePower depth ts

/-- A primary expression, raised to a power when a caret follows. -/
def parsePower : Nat → List Token → Except GrammarError (Expr × List Token)
  | 0, _ => .error .unexpectedEnd
  | depth + 1, ts => do
    match ← parsePrimary depth ts with
    | (base, .symbol .caret :: rest) =>
      let (exponent, rest) ← parseUnary depth rest
      return (.binary .power base exponent, rest)
    | (base, rest) => return (base, rest)

/-- A literal, an expression in parentheses, a name, an element or a call. -/
def parsePrimary : Nat → List Token → Except GrammarError (Expr × List Token)
  | 0, _ => .error .unexpectedEnd
  | _ + 1, [] => .error .unexpectedEnd
  | _ + 1, .number x :: rest => .ok (.number x, rest)
  | _ + 1, .string s :: rest => .ok (.string s, rest)
  | depth + 1, .symbol .leftParen :: rest => do
    let (inner, rest) ← parseLevels depth Level.all rest
    let rest ← expect .rightParen rest
    return (inner, rest)
  | _ + 1, .symbol s :: _ => .error (.unexpected (.symbol s))
  | depth + 1, .name segment :: rest => do
    let (path, rest) ← parsePath segment rest
    match rest with
    | .symbol .leftParen :: rest =>
      let (arguments, rest) ← parseArguments depth rest
      return (.call path arguments, rest)
    | rest =>
      if path = "true" then return (.boolean true, rest)
      else if path = "false" then return (.boolean false, rest)
      else
        match rest with
        | .symbol .leftBracket :: rest =>
          let (index, rest) ← parseLevels depth Level.all rest
          let rest ← expect .rightBracket rest
          return (.element path index, rest)
        | rest => return (.name path, rest)

/-- The arguments of a call up to the closing parenthesis; there may be none. -/
def parseArguments : Nat → List Token → Except GrammarError (List Expr × List Token)
  | 0, _ => .error .unexpectedEnd
  | _ + 1, .symbol .rightParen :: rest => .ok ([], rest)
  | depth + 1, ts => parseSomeArguments depth ts

/-- One or more arguments of a call up to the closing parenthesis. -/
def parseSomeArguments : Nat → List Token → Except GrammarError (List Expr × List Token)
  | 0, _ => .error .unexpectedEnd
  | depth + 1, ts => do
    match ← parseLevels depth Level.all ts with
    | (argument, .symbol .rightParen :: rest) => return ([argument], rest)
    | (argument, rest) =>
      let rest ← expect .comma rest
      let (arguments, rest) ← parseSomeArguments depth rest
      return (argument :: arguments, rest)

end

/-- A depth of calls that no list of this many tokens exceeds. -/
def depthBound (count : Nat) : Nat := 12 * count + 12

/-- Read an expression from the front of a token list. -/
def parse (ts : List Token) : Except GrammarError (Expr × List Token) :=
  parseLevels (depthBound ts.length) Level.all ts

end Expr

namespace Statement

/-- Why an expression that is no target cannot be assigned to. -/
def assignedError : Expr → GrammarError
  | .number _ => .assignedLiteral
  | .string _ => .assignedLiteral
  | .boolean _ => .assignedLiteral
  | .call _ _ => .assignedCall
  | _ => .assignedExpression

/-- A statement ends with its last token. -/
def finish (statement : Statement) : List Token → Except GrammarError Statement
  | [] => .ok statement
  | token :: _ => .error (.afterStatement token)

/-- Read a statement from all tokens of a list. -/
def parse (ts : List Token) : Except GrammarError Statement :=
  if ts.isEmpty then .error .emptyStatement
  else do
    match ← Expr.parse ts with
    | (e, .symbol .assign :: rest) =>
      match e.target? with
      | none => .error (assignedError e)
      | some target =>
        let (value, rest) ← Expr.parse rest
        finish (.assign target value) rest
    | (e, rest) => finish (.evaluate e) rest

end Statement

end InputDeck
