import InputDeck.Expr.Token

/-!
# Expressions and statements

An expression is a literal, a name, an element of a vector, an operation or a call. A statement
assigns the value of an expression to a name or to an element, or evaluates an expression for what
it does.
-/

namespace InputDeck

/-- An operation on one operand. -/
inductive UnaryOp where
  | negate
  | plus
  | not
  deriving DecidableEq, Repr

/-- An operation on two operands. -/
inductive BinaryOp where
  | add
  | subtract
  | multiply
  | divide
  | remainder
  | power
  | less
  | lessEqual
  | greater
  | greaterEqual
  | equal
  | notEqual
  | and
  | or
  deriving DecidableEq, Repr

namespace UnaryOp

/-- The operation that a symbol in front of an operand stands for. -/
def ofSymbol? : Symbol → Option UnaryOp
  | .minus => some negate
  | .plus => some plus
  | .bang => some not
  | _ => none

/-- The symbol of an operation. -/
def symbol : UnaryOp → Symbol
  | negate => .minus
  | plus => .plus
  | not => .bang

/-- The symbol of an operation stands for it. -/
@[simp] theorem ofSymbol?_symbol (op : UnaryOp) : ofSymbol? op.symbol = some op := by
  cases op <;> rfl

end UnaryOp

namespace BinaryOp

/-- The symbol of an operation. -/
def symbol : BinaryOp → Symbol
  | add => .plus
  | subtract => .minus
  | multiply => .star
  | divide => .slash
  | remainder => .percent
  | power => .caret
  | less => .less
  | lessEqual => .lessEqual
  | greater => .greater
  | greaterEqual => .greaterEqual
  | equal => .equal
  | notEqual => .notEqual
  | and => .both
  | or => .either

end BinaryOp

/-- The levels of the operations that group to the left, from the loosest to the tightest. -/
inductive Level where
  /-- `||`. -/
  | or
  /-- `&&`. -/
  | and
  /-- The six comparisons. -/
  | comparison
  /-- Sums and differences. -/
  | sum
  /-- Products, quotients and remainders. -/
  | product
  deriving DecidableEq, Repr

namespace Level

/-- The operation of a level that a symbol stands for. -/
def operation? : Level → Symbol → Option BinaryOp
  | or, .either => some .or
  | and, .both => some .and
  | comparison, .less => some .less
  | comparison, .lessEqual => some .lessEqual
  | comparison, .greater => some .greater
  | comparison, .greaterEqual => some .greaterEqual
  | comparison, .equal => some .equal
  | comparison, .notEqual => some .notEqual
  | sum, .plus => some .add
  | sum, .minus => some .subtract
  | product, .star => some .multiply
  | product, .slash => some .divide
  | product, .percent => some .remainder
  | _, _ => none

/-- The levels from the loosest to the tightest. -/
def all : List Level := [or, and, comparison, sum, product]

/-- A symbol that stands for an operation of a level is the symbol of that operation. -/
theorem symbol_of_operation? {level : Level} {s : Symbol} {op : BinaryOp}
    (h : level.operation? s = some op) : op.symbol = s := by
  unfold operation? at h
  split at h <;> first | (obtain rfl := Option.some.inj h; rfl) | simp at h

end Level

/-- An expression. -/
inductive Expr where
  /-- A number literal. -/
  | number (x : Float)
  /-- A text literal. -/
  | string (s : String)
  /-- A truth value. -/
  | boolean (b : Bool)
  /-- A name, with dots between its segments. -/
  | name (path : String)
  /-- An element of a vector. -/
  | element (path : String) (index : Expr)
  /-- An operation on one operand. -/
  | unary (op : UnaryOp) (operand : Expr)
  /-- An operation on two operands. -/
  | binary (op : BinaryOp) (left right : Expr)
  /-- A call of a function. -/
  | call (function : String) (arguments : List Expr)

/-- What can be assigned to: a name, or an element of a vector. -/
structure Target where
  /-- The name, with dots between its segments. -/
  path : String
  /-- The index of an element. -/
  index : Option Expr := none

/-- The target that an expression is. -/
def Expr.target? : Expr → Option Target
  | name path => some ⟨path, none⟩
  | element path index => some ⟨path, some index⟩
  | _ => none

/-- The expression that reads a target. -/
def Target.toExpr : Target → Expr
  | ⟨path, none⟩ => .name path
  | ⟨path, some index⟩ => .element path index

/-- An expression is a target exactly when it reads one. -/
theorem Expr.target?_eq_some_iff {e : Expr} {target : Target} :
    e.target? = some target ↔ e = target.toExpr := by
  obtain ⟨path, _ | index⟩ := target <;> cases e <;> simp [target?, Target.toExpr]

/-- A statement. -/
inductive Statement where
  /-- The value of an expression goes to a target. -/
  | assign (target : Target) (value : Expr)
  /-- An expression is evaluated for what it does. -/
  | evaluate (e : Expr)

end InputDeck
