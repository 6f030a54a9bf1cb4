import InputDeck.Proofs.Expr.Completeness
import InputDeck.Proofs.Expr.Statements
import Mathlib.Data.List.OfFn

/-!
# Syntax trees

The grammar of statements as trees: a tree is built by the rules only, and has tokens and a meaning.
The parser reads a statement exactly when the tokens have a tree that means it.
-/

namespace InputDeck

/-- The level of an operation that groups to the left; powers have none. -/
def BinaryOp.level? : BinaryOp → Option Level
  | or => some .or
  | and => some .and
  | less | lessEqual | greater | greaterEqual | equal | notEqual => some .comparison
  | add | subtract => some .sum
  | multiply | divide | remainder => some .product
  | power => none

/-- A level takes the symbols of its own operations. -/
theorem Level.operation?_eq_some_iff {level : Level} {s : Symbol} {op : BinaryOp} :
    level.operation? s = some op ↔ op.level? = some level ∧ op.symbol = s := by
  constructor
  · intro h
    refine ⟨?_, symbol_of_operation? h⟩
    unfold operation? at h
    split at h <;> first | (obtain rfl := Option.some.inj h; rfl) | cases h
  · rintro ⟨h, rfl⟩
    cases op <;> cases h <;> rfl

/-- A symbol that stands for an operation on one operand is the symbol of that operation. -/
theorem UnaryOp.symbol_of_ofSymbol? {s : Symbol} {op : UnaryOp} (h : ofSymbol? s = some op) :
    op.symbol = s := by
  unfold ofSymbol? at h
  split at h <;> first | (obtain rfl := Option.some.inj h; rfl) | cases h

/-- No two operations in front of an operand share a symbol. -/
theorem UnaryOp.symbol_injective : Function.Injective symbol := by
  intro op other h
  have := congrArg ofSymbol? h
  simpa using this

namespace Expr

/-! ## Dotted names -/

/-- A dotted name, segment by segment. -/
structure Path where
  /-- The first segment. -/
  first : String
  /-- The segments behind it, each with a dot in front. -/
  more : List String := []

namespace Path

/-- The tokens of a dotted name. -/
def tokens (path : Path) : List Token :=
  .name path.first :: path.more.flatMap fun segment => [.symbol .dot, .name segment]

/-- The text of a dotted name. -/
def text (path : Path) : String :=
  path.more.foldl (fun front segment => front ++ "." ++ segment) path.first

/-- The name of a truth value: one segment. -/
def ofBool (b : Bool) : Path := ⟨toString b, []⟩

/-- The tokens of a dotted name are those of its text. -/
theorem isPath (path : Path) : IsPath path.tokens path.text := by
  obtain ⟨first, more⟩ := path
  induction more using List.reverseRecOn with
  | nil => exact .segment first
  | append_singleton more segment ih =>
    have h := IsPath.dot segment ih
    simpa [tokens, text] using h

/-- Only the name of a truth value is spelled as one. -/
theorem eq_ofBool {path : Path} {b : Bool} (h : path.text = toString b) : path = ofBool b := by
  obtain ⟨first, more⟩ := path
  have htokens := eq_singleton_of_isPath (isPath ⟨first, more⟩) h
  cases more with
  | nil => simpa [tokens, ofBool] using htokens
  | cons => simp [tokens] at htokens

/-- A name that is spelled as no truth value is the name of none. -/
theorem ne_ofBool {path : Path} (htrue : path.text ≠ "true") (hfalse : path.text ≠ "false")
    (b : Bool) : path ≠ ofBool b := by
  rintro rfl
  cases b with
  | false => exact hfalse rfl
  | true => exact htrue rfl

/-- A name ends where no dot follows. -/
theorem append_inj {path other : Path} {rest behind : List Token}
    (hrest : rest.head? ≠ some (.symbol .dot)) (hbehind : behind.head? ≠ some (.symbol .dot))
    (h : path.tokens ++ rest = other.tokens ++ behind) : path = other ∧ rest = behind := by
  obtain ⟨first, more⟩ := path
  obtain ⟨first', more'⟩ := other
  simp only [tokens, List.cons_append, List.cons.injEq, Token.name.injEq] at h
  obtain ⟨rfl, hmore⟩ := h
  induction more generalizing more' with
  | nil =>
    cases more' with
    | nil => exact ⟨rfl, hmore⟩
    | cons => exact absurd (congrArg List.head? hmore) hrest
  | cons segment more ih =>
    cases more' with
    | nil => exact absurd (congrArg List.head? hmore).symm hbehind
    | cons segment' more' =>
      simp only [List.flatMap_cons, List.cons_append, List.nil_append, List.cons.injEq,
        Token.name.injEq, true_and] at hmore
      obtain ⟨rfl, hmore⟩ := hmore
      obtain ⟨hpath, rfl⟩ := ih more' hmore
      obtain ⟨-, rfl⟩ := Path.mk.inj hpath
      exact ⟨rfl, rfl⟩

end Path

/-- Tokens that are a name are those of a dotted name. -/
theorem IsPath.exists_path {ts : List Token} {text : String} (h : IsPath ts text) :
    ∃ path : Path, path.tokens = ts ∧ path.text = text := by
  induction h with
  | segment s => exact ⟨⟨s, []⟩, rfl, rfl⟩
  | dot s _ ih =>
    obtain ⟨⟨first, more⟩, rfl, rfl⟩ := ih
    exact ⟨⟨first, more ++ [s]⟩, by simp [Path.tokens], by simp [Path.text]⟩

/-! ## Trees of expressions -/

/-- A tree of a form: the levels from the loosest on, then operations in front of an operand, powers
and primary expressions. -/
inductive Tree : Form → Type
  /-- Behind the tightest level come the operations on one operand. -/
  | innermost (t : Tree .unary) : Tree (.levels [])
  /-- An operand of a level is an expression of it. -/
  | tighter {levels : List Level} (level : Level) (t : Tree (.levels levels)) :
      Tree (.levels (level :: levels))
  /-- Operations of one level group to the left. -/
  | operation {level : Level} {levels : List Level} (op : BinaryOp) (hop : op.level? = some level)
      (left : Tree (.levels (level :: levels))) (right : Tree (.levels levels)) :
      Tree (.levels (level :: levels))
  /-- An operation stands in front of its operand. -/
  | before (op : UnaryOp) (operand : Tree .unary) : Tree .unary
  /-- A power needs no operation in front. -/
  | bare (t : Tree .power) : Tree .unary
  /-- A primary expression needs no exponent. -/
  | base (t : Tree .primary) : Tree .power
  /-- An exponent stands behind its base, and may have operations in front. -/
  | exponent (lower : Tree .primary) (upper : Tree .unary) : Tree .power
  /-- A number. -/
  | number (x : Float) : Tree .primary
  /-- A text. -/
  | string (s : String) : Tree .primary
  /-- An expression in parentheses. -/
  | parentheses (t : Tree (.levels Level.all)) : Tree .primary
  /-- A name in front of arguments is called. -/
  | call (path : Path) (count : Nat) (argument : Fin count → Tree (.levels Level.all)) :
      Tree .primary
  /-- Two names are truth values. -/
  | boolean (b : Bool) : Tree .primary
  /-- Every other name stands for itself. -/
  | name (path : Path) (h : ∀ b, path ≠ .ofBool b) : Tree .primary
  /-- A name that is no truth value may have an index. -/
  | element (path : Path) (h : ∀ b, path ≠ .ofBool b) (index : Tree (.levels Level.all)) :
      Tree .primary

namespace Tree

/-- The tokens of a tree. -/
def tokens : {form : Form} → Tree form → List Token
  | _, innermost t => t.tokens
  | _, tighter _ t => t.tokens
  | _, operation op _ left right => left.tokens ++ .symbol op.symbol :: right.tokens
  | _, before op operand => .symbol op.symbol :: operand.tokens
  | _, bare t => t.tokens
  | _, base t => t.tokens
  | _, exponent lower upper => lower.tokens ++ .symbol .caret :: upper.tokens
  | _, number x => [.number x]
  | _, string s => [.string s]
  | _, parentheses t => .symbol .leftParen :: t.tokens ++ [.symbol .rightParen]
  | _, call path _ argument =>
    path.tokens ++ .symbol .leftParen :: commaSeparated (List.ofFn fun i => (argument i).tokens) ++
      [.symbol .rightParen]
  | _, boolean b => (Path.ofBool b).tokens
  | _, name path _ => path.tokens
  | _, element path _ index =>
    path.tokens ++ .symbol .leftBracket :: index.tokens ++ [.symbol .rightBracket]

/-- The expression that a tree means. -/
def value : {form : Form} → Tree form → Expr
  | _, innermost t => t.value
  | _, tighter _ t => t.value
  | _, operation op _ left right => .binary op left.value right.value
  | _, before op operand => .unary op operand.value
  | _, bare t => t.value
  | _, base t => t.value
  | _, exponent lower upper => .binary .power lower.value upper.value
  | _, number x => .number x
  | _, string s => .string s
  | _, parentheses t => t.value
  | _, call path _ argument => .call path.text (List.ofFn fun i => (argument i).value)
  | _, boolean b => .boolean b
  | _, name path _ => .name path.text
  | _, element path _ index => .element path.text index.value

/-- The target that a tree is: a name or an element, which may stand in parentheses. -/
def target? : {form : Form} → Tree form → Option Target
  | _, innermost t => t.target?
  | _, tighter _ t => t.target?
  | _, bare t => t.target?
  | _, base t => t.target?
  | _, parentheses t => t.target?
  | _, name path _ => some ⟨path.text, none⟩
  | _, element path _ index => some ⟨path.text, some index.value⟩
  | _, _ => none

variable {form : Form}

/-- A tree is a target exactly when it means one. -/
theorem target?_eq (t : Tree form) : t.target? = t.value.target? := by
  induction t with
  | innermost _ ih => exact ih
  | tighter _ _ ih => exact ih
  | bare _ ih => exact ih
  | base _ ih => exact ih
  | parentheses _ ih => exact ih
  | _ => rfl

/-- The tokens of a tree derive its meaning. -/
theorem derives (t : Tree form) : Derives form t.tokens t.value := by
  induction t with
  | innermost _ ih => exact .innermost ih
  | tighter level _ ih => exact .tighter level ih
  | operation op hop _ _ ihleft ihright =>
    exact .operation (Level.operation?_eq_some_iff.2 ⟨hop, rfl⟩) ihleft ihright
  | before op _ ih => exact .before (UnaryOp.ofSymbol?_symbol op) ih
  | bare _ ih => exact .bare ih
  | base _ ih => exact .base ih
  | exponent _ _ ihbase ihexponent => exact .exponent ihbase ihexponent
  | number x => exact .number x
  | string s => exact .string s
  | parentheses _ ih => exact .parentheses ih
  | call path count argument ih =>
    have h := @Derives.call _ _ (List.ofFn fun i => ((argument i).tokens, (argument i).value))
      path.isPath (by simpa [List.mem_ofFn] using ih)
    simpa [tokens, value, List.map_ofFn, Function.comp_def] using h
  | boolean b => exact .boolean b
  | name path h =>
    exact .name path.isPath (fun he => h true (Path.eq_ofBool he))
      fun he => h false (Path.eq_ofBool he)
  | element path h _ ih =>
    exact .element path.isPath (fun he => h true (Path.eq_ofBool he))
      (fun he => h false (Path.eq_ofBool he)) ih

end Tree

/-- What the rules derive has a tree. -/
theorem Derives.exists_tree {form : Form} {ts : List Token} {e : Expr} (h : Derives form ts e) :
    ∃ t : Tree form, t.tokens = ts ∧ t.value = e := by
  induction h with
  | innermost _ ih =>
    obtain ⟨t, rfl, rfl⟩ := ih
    exact ⟨.innermost t, rfl, rfl⟩
  | tighter level _ ih =>
    obtain ⟨t, rfl, rfl⟩ := ih
    exact ⟨.tighter level t, rfl, rfl⟩
  | operation hop _ _ ihleft ihright =>
    obtain ⟨left, rfl, rfl⟩ := ihleft
    obtain ⟨right, rfl, rfl⟩ := ihright
    obtain ⟨hlevel, rfl⟩ := Level.operation?_eq_some_iff.1 hop
    exact ⟨.operation _ hlevel left right, rfl, rfl⟩
  | @before _ _ _ op hop _ ih =>
    obtain ⟨t, rfl, rfl⟩ := ih
    obtain rfl := UnaryOp.symbol_of_ofSymbol? hop
    exact ⟨.before op t, rfl, rfl⟩
  | bare _ ih =>
    obtain ⟨t, rfl, rfl⟩ := ih
    exact ⟨.bare t, rfl, rfl⟩
  | base _ ih =>
    obtain ⟨t, rfl, rfl⟩ := ih
    exact ⟨.base t, rfl, rfl⟩
  | exponent _ _ ihbase ihexponent =>
    obtain ⟨lower, rfl, rfl⟩ := ihbase
    obtain ⟨upper, rfl, rfl⟩ := ihexponent
    exact ⟨.exponent lower upper, rfl, rfl⟩
  | number x => exact ⟨.number x, rfl, rfl⟩
  | string s => exact ⟨.string s, rfl, rfl⟩
  | parentheses _ ih =>
    obtain ⟨t, rfl, rfl⟩ := ih
    exact ⟨.parentheses t, rfl, rfl⟩
  | @call _ _ arguments hpath _ ih =>
    obtain ⟨path, rfl, rfl⟩ := hpath.exists_path
    choose argument htokens hvalue using
      fun i : Fin arguments.length => ih arguments[i] (List.getElem_mem i.isLt)
    exact ⟨.call path _ argument, by simp [Tree.tokens, htokens, List.ofFn_getElem_eq_map],
      by simp [Tree.value, hvalue, List.ofFn_getElem_eq_map]⟩
  | boolean b => exact ⟨.boolean b, rfl, rfl⟩
  | name hpath htrue hfalse =>
    obtain ⟨path, rfl, rfl⟩ := hpath.exists_path
    exact ⟨.name path (Path.ne_ofBool htrue hfalse), rfl, rfl⟩
  | element hpath htrue hfalse _ ih =>
    obtain ⟨path, rfl, rfl⟩ := hpath.exists_path
    obtain ⟨index, rfl, rfl⟩ := ih
    exact ⟨.element path (Path.ne_ofBool htrue hfalse) index, rfl, rfl⟩

end Expr

namespace Statement

open InputDeck.Expr

/-- A tree of a statement. -/
inductive Tree where
  /-- An expression is a statement. -/
  | evaluate (e : Expr.Tree (.levels Level.all))
  /-- So is a target with the sign and a value behind it. -/
  | assign (left : Expr.Tree (.levels Level.all)) (target : Target)
      (h : left.target? = some target) (value : Expr.Tree (.levels Level.all))

namespace Tree

/-- The tokens of a tree. -/
def tokens : Tree → List Token
  | evaluate e => e.tokens
  | assign left _ _ value => left.tokens ++ .symbol .assign :: value.tokens

/-- The statement that a tree means. -/
def statement : Tree → Statement
  | evaluate e => .evaluate e.value
  | assign _ target _ value => .assign target value.value

end Tree

/-- The tokens of an expression are read as its evaluation. -/
theorem parse_evaluate {ts : List Token} {e : Expr} (h : Derives (.levels Level.all) ts e) :
    parse ts = .ok (.evaluate e) := by
  have hparse := h.parse [] .nil
  rw [List.append_nil] at hparse
  obtain ⟨t, rest, rfl, -⟩ := h.isOperand.first
  simp only [parse, List.isEmpty_cons, Bool.false_eq_true, if_false, hparse]
  rfl

/-- Tokens are read as a statement exactly when they have a tree that means it. -/
theorem parse_eq_ok_iff {ts : List Token} {statement : Statement} :
    parse ts = .ok statement ↔ ∃ t : Tree, t.tokens = ts ∧ t.statement = statement := by
  constructor
  · intro h
    cases statement with
    | evaluate e =>
      obtain ⟨t, rfl, rfl⟩ := (parse_eq_evaluate h).exists_tree
      exact ⟨.evaluate t, rfl, rfl⟩
    | assign target e =>
      obtain ⟨us, vs, rfl, -, -, hleft, hright⟩ := parse_eq_assign h
      obtain ⟨left, rfl, hmeans⟩ := hleft.exists_tree
      obtain ⟨value, rfl, rfl⟩ := hright.exists_tree
      have htarget : left.target? = some target := by
        rw [left.target?_eq, hmeans, Expr.target?_eq_some_iff]
      exact ⟨.assign left target htarget value, rfl, rfl⟩
  · rintro ⟨t, rfl, rfl⟩
    cases t with
    | evaluate e => exact parse_evaluate e.derives
    | assign left target htarget value =>
      rw [left.target?_eq, Expr.target?_eq_some_iff] at htarget
      exact parse_assign (htarget ▸ left.derives) value.derives

end Statement

end InputDeck
