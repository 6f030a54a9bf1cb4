import InputDeck.Expr.Basic
import InputDeck.Expr.Error
import InputDeck.Number.Arithmetic

/-!
# Operations and functions on values

Each operation works on operands of the kinds it knows and fails on all others. Equality compares
values of any kinds; the other comparisons order numbers, where what is not a number is in no
order, or texts by their characters.
-/

namespace InputDeck

/-- The number that an operation needs. -/
def Value.asNumber (operation : String) (v : Value) : Except EvalError Float :=
  match v with
  | .number x => .ok x
  | v => .error (.typeMismatch operation .number v.kind)

/-- The truth value that an operation needs. -/
def Value.asBoolean (operation : String) (v : Value) : Except EvalError Bool :=
  match v with
  | .boolean b => .ok b
  | v => .error (.typeMismatch operation .boolean v.kind)

/-- The value of an operation on one operand. -/
def UnaryOp.apply (op : UnaryOp) (v : Value) : Except EvalError Value :=
  match op with
  | negate => (v.asNumber op.symbol.spelling).map fun x => .number (-x)
  | plus => (v.asNumber op.symbol.spelling).map .number
  | not => (v.asBoolean op.symbol.spelling).map fun b => .boolean !b

namespace BinaryOp

/-- What an operation does with two numbers. -/
def onNumbers? : BinaryOp → Option (Float → Float → Value)
  | add => some fun x y => .number (x + y)
  | subtract => some fun x y => .number (x - y)
  | multiply => some fun x y => .number (x * y)
  | divide => some fun x y => .number (x / y)
  | remainder => some fun x y => .number (Number.remainder x y)
  | power => some fun x y => .number (x.pow y)
  | less => some fun x y => .boolean (decide (x < y))
  | lessEqual => some fun x y => .boolean (decide (x ≤ y))
  | greater => some fun x y => .boolean (decide (y < x))
  | greaterEqual => some fun x y => .boolean (decide (y ≤ x))
  | _ => none

/-- What an operation does with two texts. -/
def onStrings? : BinaryOp → Option (String → String → Value)
  | add => some fun s t => .string (s ++ t)
  | less => some fun s t => .boolean (decide (s < t))
  | lessEqual => some fun s t => .boolean (decide (s ≤ t))
  | greater => some fun s t => .boolean (decide (t < s))
  | greaterEqual => some fun s t => .boolean (decide (t ≤ s))
  | _ => none

/-- The operand that does not fit: the right one only when the left one is a number. -/
def misfit (left right : Value) : Kind :=
  match left with
  | .number _ => right.kind
  | left => left.kind

/-- The value of an operation on two operands that have both been evaluated. -/
def apply (op : BinaryOp) (left right : Value) : Except EvalError Value :=
  let mismatch : EvalError := .typeMismatch op.symbol.spelling .matching (misfit left right)
  match op with
  | equal => .ok (.boolean (left == right))
  | notEqual => .ok (.boolean (left != right))
  | op =>
    match left, right with
    | .number x, .number y =>
      match op.onNumbers? with
      | some f => .ok (f x y)
      | none => .error mismatch
    | .string s, .string t =>
      match op.onStrings? with
      | some f => .ok (f s t)
      | none => .error mismatch
    | _, _ => .error mismatch

end BinaryOp

/-- The functions from numbers to numbers. -/
inductive NumberFunction where
  | sqrt
  | abs
  | exp
  | log
  | log10
  | sin
  | cos
  | tan
  | floor
  | ceil
  deriving DecidableEq, Repr

/-- The value of a function from numbers to numbers. -/
def NumberFunction.apply : NumberFunction → Float → Float
  | sqrt => Float.sqrt
  | abs => Float.abs
  | exp => Float.exp
  | log => Float.log
  | log10 => Float.log10
  | sin => Float.sin
  | cos => Float.cos
  | tan => Float.tan
  | floor => Number.floor
  | ceil => Number.ceiling

/-- The functions that a deck can call. -/
inductive Builtin where
  /-- Writes its arguments as a line, and is that line. -/
  | print
  /-- A function from numbers to numbers. -/
  | number (f : NumberFunction)
  /-- A power. -/
  | pow
  /-- The least of its arguments. -/
  | min
  /-- The greatest of its arguments. -/
  | max
  deriving DecidableEq, Repr

namespace Builtin

/-- The name that a deck calls a function by. -/
def name : Builtin → String
  | print => "print"
  | number .sqrt => "sqrt"
  | number .abs => "abs"
  | number .exp => "exp"
  | number .log => "log"
  | number .log10 => "log10"
  | number .sin => "sin"
  | number .cos => "cos"
  | number .tan => "tan"
  | number .floor => "floor"
  | number .ceil => "ceil"
  | pow => "pow"
  | min => "min"
  | max => "max"

/-- All functions. -/
def all : List Builtin :=
  [print, number .sqrt, number .abs, number .exp, number .log, number .log10, number .sin,
    number .cos, number .tan, number .floor, number .ceil, pow, min, max]

/-- The function of a name. -/
def ofName? (name : String) : Option Builtin := all.find? fun f => f.name == name

/-- A function is found under its name. -/
@[simp] theorem ofName?_name (f : Builtin) : ofName? f.name = some f := by
  cases f with
  | number f => cases f <;> decide
  | _ => decide

/-- What is found under a name has that name. -/
theorem name_of_ofName? {name : String} {f : Builtin} (h : ofName? name = some f) :
    f.name = name := by
  simpa using List.find?_some h

/-- The number that an argument is. -/
def argument (v : Value) : Except EvalError Float := v.asNumber "function argument"

/-- A folded choice among numbers, in the order of the arguments. -/
def choose (operation : String) (pick : Float → Float → Float) :
    Float → List Value → Except EvalError Float
  | best, [] => .ok best
  | best, v :: vs => do
    let x ← v.asNumber operation
    choose operation pick (pick best x) vs

/-- The line that `print` writes: the texts of its arguments, separated by spaces. -/
def printed (arguments : List Value) : String :=
  " ".intercalate (arguments.map fun v => v.text none)

/-- The value of a function. The line of `print` is its value; writing it is up to the caller. -/
def apply (f : Builtin) (arguments : List Value) : Except EvalError Value :=
  match f, arguments with
  | print, arguments => .ok (.string (printed arguments))
  | number f, [v] => (argument v).map fun x => .number (f.apply x)
  | number f, arguments => .error (.arity (number f).name (.exactly 1) arguments.length)
  | pow, [u, v] => do
    let x ← argument u
    let y ← argument v
    return .number (x.pow y)
  | pow, arguments => .error (.arity pow.name (.exactly 2) arguments.length)
  | min, [] => .error (.arity min.name .atLeastOne 0)
  | min, v :: vs => do
    let x ← v.asNumber min.name
    return .number (← choose min.name Number.lesser x vs)
  | max, [] => .error (.arity max.name .atLeastOne 0)
  | max, v :: vs => do
    let x ← v.asNumber max.name
    return .number (← choose max.name Number.greater x vs)

end Builtin

end InputDeck
