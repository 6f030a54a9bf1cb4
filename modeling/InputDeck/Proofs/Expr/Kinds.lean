import InputDeck.Proofs.Expr.Evaluation
import Mathlib.Tactic.FinCases

/-!
# Kinds of expressions

Names and elements of vectors can be given kinds, and with them the operations and functions tell
which expressions have a kind. In a scope whose values are of the kinds given, such an expression
has a value of its kind, unless a name is not there or a number is no index: no operation or
function fails on its operands.
-/

namespace InputDeck

/-- The kinds that names are given, as far as they are given one. -/
structure Kinds where
  /-- The kind of a name. -/
  name? : String → Option Kind
  /-- The kind of all elements of a vector. -/
  element? : String → Option Kind

/-- Whether the values that are found in a scope are of the kinds given. -/
structure Scope.Respects (scope : Scope) (kinds : Kinds) : Prop where
  /-- Names have values of their kind. -/
  name : ∀ {path : String} {k : Kind} {v : Value}, kinds.name? path = some k →
    scope.lookup? path = some v → v.kind = k
  /-- Elements have values of the kind of their vector. -/
  element : ∀ {path : String} {k : Kind} {index : Nat} {v : Value}, kinds.element? path = some k →
    scope.lookup? (elementName path index) = some v → v.kind = k

/-- The failures to look something up. -/
inductive EvalError.IsLookup : EvalError → Prop
  /-- Nothing has the name. -/
  | undefinedName (name : String) : IsLookup (.undefinedName name)
  /-- A number is no index. -/
  | invalidIndex (x : Float) : IsLookup (.invalidIndex x)

/-! ## Operations and functions -/

/-- The kinds of the operand and of the value of an operation. -/
inductive UnaryOp.HasKinds : UnaryOp → Kind → Kind → Prop
  /-- A number has an opposite. -/
  | negate : HasKinds .negate .number .number
  /-- A number may have a plus in front. -/
  | plus : HasKinds .plus .number .number
  /-- Truth values can be negated. -/
  | not : HasKinds .not .boolean .boolean

/-- The kinds of the operands and of the value of an operation. -/
inductive BinaryOp.HasKinds : BinaryOp → Kind → Kind → Kind → Prop
  /-- Numbers can be computed with. -/
  | arithmetic {op : BinaryOp}
      (h : op ∈ [add, subtract, multiply, divide, remainder, power]) :
      HasKinds op .number .number .number
  /-- Texts can be put together. -/
  | append : HasKinds .add .string .string .string
  /-- Numbers are in order, and so are texts. -/
  | order {op : BinaryOp} {k : Kind} (h : op ∈ [less, lessEqual, greater, greaterEqual])
      (hk : k ∈ [Kind.number, Kind.string]) : HasKinds op k k .boolean
  /-- Any two values are the same or not. -/
  | equality {op : BinaryOp} (h : op ∈ [equal, notEqual]) (k l : Kind) : HasKinds op k l .boolean
  /-- Truth values can be joined. -/
  | logic {op : BinaryOp} (h : op ∈ [BinaryOp.and, BinaryOp.or]) :
      HasKinds op .boolean .boolean .boolean

/-- The kinds of the arguments and of the value of a function. -/
inductive Builtin.HasKinds : Builtin → List Kind → Kind → Prop
  /-- Anything can be printed. -/
  | print (ks : List Kind) : HasKinds .print ks .string
  /-- A function from numbers to numbers has one argument. -/
  | number (f : NumberFunction) : HasKinds (.number f) [.number] .number
  /-- A power has a base and an exponent. -/
  | pow : HasKinds .pow [.number, .number] .number
  /-- The least number is one of at least one. -/
  | min (count : Nat) : HasKinds .min (.replicate (count + 1) .number) .number
  /-- So is the greatest. -/
  | max (count : Nat) : HasKinds .max (.replicate (count + 1) .number) .number

/-- The kinds of the operands decide the kind of the value. -/
theorem BinaryOp.HasKinds.unique {op : BinaryOp} {k l m l' m' : Kind} (h : op.HasKinds k l m)
    (hother : op.HasKinds k l' m') : m' = m := by
  cases h with
  | arithmetic h =>
    cases hother with
    | arithmetic => rfl
    | order hop | equality hop => fin_cases h <;> simp at hop
  | append =>
    cases hother with
    | append => rfl
    | order hop | equality hop => simp at hop
  | order h | equality h =>
    cases hother with
    | arithmetic hop => fin_cases hop <;> simp at h
    | append => simp at h
    | order | equality | logic => rfl
  | logic h =>
    cases hother with
    | order | equality | logic => rfl

/-- Truth values are joined to truth values. -/
theorem BinaryOp.HasKinds.eq_boolean {op : BinaryOp} {k l m : Kind} (h : op.HasKinds k l m)
    (hlogic : op = .and ∨ op = .or) : k = .boolean ∧ l = .boolean ∧ m = .boolean := by
  cases h with
  | arithmetic hop | order hop | equality hop =>
    rcases hlogic with rfl | rfl <;> simp at hop
  | append => rcases hlogic with hlogic | hlogic <;> cases hlogic
  | logic => exact ⟨rfl, rfl, rfl⟩

/-- A function decides the kind of its value. -/
theorem Builtin.HasKinds.unique {f : Builtin} {ks ls : List Kind} {k l : Kind}
    (h : f.HasKinds ks k) (hother : f.HasKinds ls l) : l = k := by
  cases h <;> cases hother <;> rfl

/-- A value of the kind of numbers is one. -/
theorem Value.exists_number {v : Value} (h : v.kind = .number) : ∃ x, v = .number x := by
  cases v <;> first | exact ⟨_, rfl⟩ | cases h

/-- A value of the kind of truth values is one. -/
theorem Value.exists_boolean {v : Value} (h : v.kind = .boolean) : ∃ b, v = .boolean b := by
  cases v <;> first | exact ⟨_, rfl⟩ | cases h

/-- A value of the kind of texts is one. -/
theorem Value.exists_string {v : Value} (h : v.kind = .string) : ∃ s, v = .string s := by
  cases v <;> first | exact ⟨_, rfl⟩ | cases h

/-- An operation on an operand of its kind has a value of its kind. -/
theorem UnaryOp.HasKinds.exists_apply {op : UnaryOp} {k l : Kind} (h : op.HasKinds k l) {v : Value}
    (hv : v.kind = k) : ∃ w, op.apply v = .ok w ∧ w.kind = l := by
  cases h with
  | negate | plus =>
    obtain ⟨x, rfl⟩ := Value.exists_number hv
    exact ⟨_, rfl, rfl⟩
  | not =>
    obtain ⟨b, rfl⟩ := Value.exists_boolean hv
    exact ⟨_, rfl, rfl⟩

/-- An operation on evaluated operands of its kinds has a value of its kind. -/
theorem BinaryOp.HasKinds.exists_apply {op : BinaryOp} {k l m : Kind} (h : op.HasKinds k l m)
    (hand : op ≠ .and) (hor : op ≠ .or) {u v : Value} (hu : u.kind = k) (hv : v.kind = l) :
    ∃ w, op.apply u v = .ok w ∧ w.kind = m := by
  cases h with
  | arithmetic h =>
    obtain ⟨x, rfl⟩ := Value.exists_number hu
    obtain ⟨y, rfl⟩ := Value.exists_number hv
    fin_cases h <;> exact ⟨_, rfl, rfl⟩
  | append =>
    obtain ⟨s, rfl⟩ := Value.exists_string hu
    obtain ⟨t, rfl⟩ := Value.exists_string hv
    exact ⟨_, rfl, rfl⟩
  | order h hk =>
    fin_cases hk
    · obtain ⟨x, rfl⟩ := Value.exists_number hu
      obtain ⟨y, rfl⟩ := Value.exists_number hv
      fin_cases h <;> exact ⟨_, rfl, rfl⟩
    · obtain ⟨s, rfl⟩ := Value.exists_string hu
      obtain ⟨t, rfl⟩ := Value.exists_string hv
      fin_cases h <;> exact ⟨_, rfl, rfl⟩
  | equality h => fin_cases h <;> exact ⟨_, rfl, rfl⟩
  | logic h =>
    fin_cases h
    · exact absurd rfl hand
    · exact absurd rfl hor

namespace Builtin

/-- A number can be chosen among numbers. -/
theorem exists_choose (operation : String) (pick : Float → Float → Float) (best : Float)
    {vs : List Value} (h : ∀ v ∈ vs, v.kind = .number) :
    ∃ x, choose operation pick best vs = .ok x := by
  induction vs generalizing best with
  | nil => exact ⟨best, rfl⟩
  | cons v vs ih =>
    obtain ⟨y, rfl⟩ := Value.exists_number (h v List.mem_cons_self)
    exact ih (pick best y) fun w hw => h w (List.mem_cons_of_mem _ hw)

/-- Arguments that are numbers, at least one, are a number and more of them. -/
private theorem exists_cons_of_replicate {vs : List Value} {count : Nat}
    (h : vs.map Value.kind = .replicate (count + 1) .number) :
    ∃ x rest, vs = .number x :: rest ∧ ∀ v ∈ rest, v.kind = .number := by
  cases vs with
  | nil => cases h
  | cons v rest =>
    obtain ⟨hv, hrest⟩ := List.cons.inj h
    obtain ⟨x, rfl⟩ := Value.exists_number hv
    refine ⟨x, rest, rfl, fun w hw => ?_⟩
    exact List.eq_of_mem_replicate (hrest ▸ List.mem_map_of_mem hw)

/-- A function has a value of its kind for arguments of its kinds. -/
theorem HasKinds.exists_apply {f : Builtin} {ks : List Kind} {k : Kind} (h : f.HasKinds ks k)
    {vs : List Value} (hvs : vs.map Value.kind = ks) : ∃ w, f.apply vs = .ok w ∧ w.kind = k := by
  cases h with
  | print => exact ⟨_, rfl, rfl⟩
  | number f =>
    obtain ⟨v, rfl, hv⟩ := List.map_eq_singleton_iff.1 hvs
    obtain ⟨x, rfl⟩ := Value.exists_number hv
    exact ⟨_, rfl, rfl⟩
  | pow =>
    obtain ⟨u, rest, rfl, hu, hrest⟩ := List.map_eq_cons_iff.1 hvs
    obtain ⟨v, rfl, hv⟩ := List.map_eq_singleton_iff.1 hrest
    obtain ⟨x, rfl⟩ := Value.exists_number hu
    obtain ⟨y, rfl⟩ := Value.exists_number hv
    exact ⟨_, rfl, rfl⟩
  | min =>
    obtain ⟨x, rest, rfl, hrest⟩ := exists_cons_of_replicate hvs
    obtain ⟨y, hy⟩ := exists_choose Builtin.min.name Number.lesser x hrest
    exact ⟨.number y, by simp [apply, Value.asNumber, hy, bind, Except.bind, pure, Except.pure], rfl⟩
  | max =>
    obtain ⟨x, rest, rfl, hrest⟩ := exists_cons_of_replicate hvs
    obtain ⟨y, hy⟩ := exists_choose Builtin.max.name Number.greater x hrest
    exact ⟨.number y, by simp [apply, Value.asNumber, hy, bind, Except.bind, pure, Except.pure], rfl⟩

end Builtin

/-! ## Expressions -/

namespace Expr

variable {kinds : Kinds}

/-- The kind of an expression. -/
inductive HasKind (kinds : Kinds) : Expr → Kind → Prop
  /-- A number literal is a number. -/
  | number (x : Float) : HasKind kinds (.number x) .number
  /-- A text literal is a text. -/
  | string (s : String) : HasKind kinds (.string s) .string
  /-- The truth values are such. -/
  | boolean (b : Bool) : HasKind kinds (.boolean b) .boolean
  /-- A name has the kind that it is given. -/
  | name {path : String} {k : Kind} (h : kinds.name? path = some k) : HasKind kinds (.name path) k
  /-- An element has the kind that its vector is given, and a number as index. -/
  | element {path : String} {index : Expr} {k : Kind} (h : kinds.element? path = some k)
      (hindex : HasKind kinds index .number) : HasKind kinds (.element path index) k
  /-- An operation fits its operand. -/
  | unary {op : UnaryOp} {operand : Expr} {k l : Kind} (hop : op.HasKinds k l)
      (h : HasKind kinds operand k) : HasKind kinds (.unary op operand) l
  /-- An operation fits its operands. -/
  | binary {op : BinaryOp} {left right : Expr} {k l m : Kind} (hop : op.HasKinds k l m)
      (hleft : HasKind kinds left k) (hright : HasKind kinds right l) :
      HasKind kinds (.binary op left right) m
  /-- A function fits its arguments. -/
  | call {f : Builtin} {arguments : List (Expr × Kind)} {k : Kind}
      (hf : f.HasKinds (arguments.map Prod.snd) k)
      (h : ∀ argument ∈ arguments, HasKind kinds argument.1 argument.2) :
      HasKind kinds (.call f.name (arguments.map Prod.fst)) k

/-- An expression has one kind. -/
theorem HasKind.unique {e : Expr} {k other : Kind} (h : HasKind kinds e k)
    (hother : HasKind kinds e other) : other = k := by
  induction h generalizing other with
  | number | string | boolean => cases hother; rfl
  | name h =>
    cases hother with
    | name hother => exact Option.some.inj (hother.symm.trans h)
  | element h =>
    cases hother with
    | element hother => exact Option.some.inj (hother.symm.trans h)
  | unary hop =>
    cases hother with
    | unary hother => cases hop <;> cases hother <;> rfl
  | binary hop _ _ ihleft =>
    cases hother with
    | binary hother hleft =>
      obtain rfl := ihleft hleft
      exact hop.unique hother
  | @call f arguments _ hf =>
    generalize hname : f.name = function, arguments.map Prod.fst = es at hother
    cases hother with
    | @call g _ _ hg =>
      have hfound := Builtin.ofName?_name f
      rw [hname, Builtin.ofName?_name] at hfound
      obtain rfl := Option.some.inj hfound
      exact hf.unique hg

end Expr

/-! ## Evaluation -/

/-- Whether a computation ends with a value of some kind, or else fails to look something up. -/
def Printing.Yields {α : Type} (x : Printing α) (good : α → Prop) : Prop :=
  ∀ output, match x output with
    | .ok a _ => good a
    | .error e _ => e.IsLookup

namespace Printing

variable {α β : Type} {good : α → Prop}

/-- A good value is yielded. -/
theorem yields_pure {a : α} (h : good a) : Yields (pure a) good := fun _ => h

/-- A good value of a computation that prints nothing is yielded. -/
theorem yields_ofExcept {x : Except EvalError α} (h : ∃ a, x = .ok a ∧ good a) :
    Yields (ofExcept x) good := by
  obtain ⟨a, rfl, ha⟩ := h
  exact yields_pure ha

/-- A failed lookup is all that may go wrong. -/
theorem yields_throw {e : EvalError} (h : e.IsLookup) : Yields (throw e : Printing α) good :=
  fun _ => h

/-- What good values of the first computation lead to is yielded by both. -/
theorem Yields.bind {next : β → Prop} {x : Printing α} {f : α → Printing β} (hx : x.Yields good)
    (hf : ∀ a, good a → (f a).Yields next) : (x >>= f).Yields next := by
  intro output
  have h := hx output
  rw [EStateM.bind_apply]
  cases hrun : x output with
  | ok a s =>
    rw [hrun] at h
    exact hf a h s
  | error e s =>
    rw [hrun] at h
    exact h

end Printing

namespace Scope

/-- A name that has only good values yields one. -/
theorem yields_find {scope : Scope} {name : String} {good : Value → Prop}
    (h : ∀ v, scope.lookup? name = some v → good v) : (scope.find name).Yields good := by
  unfold find
  split
  · next v hv => exact Printing.yields_pure (h v hv)
  · exact Printing.yields_throw (.undefinedName name)

end Scope

/-- A number as index yields the name of an element. -/
theorem yields_elementKey (path : String) (x : Float) :
    (Printing.ofExcept (elementKey path (.number x))).Yields
      fun key => ∃ index, key = elementName path index := by
  cases hindex : Number.index? x with
  | none =>
    have hkey : elementKey path (.number x) = .error (.invalidIndex x) := by
      simp only [elementKey, Value.asNumber, bind, Except.bind, hindex]
      rfl
    rw [hkey]
    exact Printing.yields_throw (.invalidIndex x)
  | some n =>
    rw [elementKey_number hindex]
    exact Printing.yields_pure ⟨n, rfl⟩

/-- A function yields a value of its kind for arguments of its kinds. -/
theorem yields_callFunction {f : Builtin} {ks : List Kind} {k : Kind} (h : f.HasKinds ks k)
    {vs : List Value} (hvs : vs.map Value.kind = ks) :
    (callFunction f.name vs).Yields fun v => v.kind = k := by
  have hvalue := Printing.yields_ofExcept (h.exists_apply hvs)
  unfold callFunction
  rw [Builtin.ofName?_name]
  cases f with
  | print =>
    have hline : (printLine (Builtin.printed vs)).Yields fun _ => True := fun _ => trivial
    exact hline.bind fun _ _ => hvalue
  | _ => exact hvalue

namespace Expr

variable {kinds : Kinds} {scope : Scope}

/-- Arguments that yield values of their kinds do so one after the other. -/
private theorem yields_evalAll {arguments : List (Expr × Kind)}
    (h : ∀ argument ∈ arguments, (argument.1.eval scope).Yields fun v => v.kind = argument.2) :
    (evalAll scope (arguments.map Prod.fst)).Yields
      fun vs => vs.map Value.kind = arguments.map Prod.snd := by
  induction arguments with
  | nil =>
    rw [List.map_nil, evalAll]
    exact Printing.yields_pure rfl
  | cons argument arguments ih =>
    rw [List.map_cons, evalAll]
    refine (h argument List.mem_cons_self).bind fun v hv => ?_
    refine (ih fun other hother => h other (List.mem_cons_of_mem _ hother)).bind fun vs hvs => ?_
    exact Printing.yields_pure (by rw [List.map_cons, List.map_cons, hv, hvs])

/-- An operand that yields a truth value yields it as one. -/
private theorem yields_asBoolean {v : Value} (operation : String) (h : v.kind = .boolean) :
    (Printing.ofExcept (v.asBoolean operation)).Yields fun _ => True := by
  obtain ⟨b, rfl⟩ := Value.exists_boolean h
  exact Printing.yields_pure trivial

/-- An operation on two operands that yield values of its kinds yields a value of its kind. -/
private theorem yields_binary {op : BinaryOp} {left right : Expr} {k l m : Kind}
    (hop : op.HasKinds k l m) (hleft : (left.eval scope).Yields fun v => v.kind = k)
    (hright : (right.eval scope).Yields fun v => v.kind = l) :
    ((binary op left right).eval scope).Yields fun v => v.kind = m := by
  -- Where the left operand decides, the right one is not evaluated.
  by_cases hand : op = .and
  · subst hand
    obtain ⟨rfl, rfl, rfl⟩ := hop.eq_boolean (.inl rfl)
    rw [eval]
    refine hleft.bind fun u hu => (yields_asBoolean _ hu).bind fun b _ => ?_
    cases b with
    | false => exact Printing.yields_pure rfl
    | true =>
      exact hright.bind fun v hv => (yields_asBoolean _ hv).bind fun c _ => Printing.yields_pure rfl
  · by_cases hor : op = .or
    · subst hor
      obtain ⟨rfl, rfl, rfl⟩ := hop.eq_boolean (.inr rfl)
      rw [eval]
      refine hleft.bind fun u hu => (yields_asBoolean _ hu).bind fun b _ => ?_
      cases b with
      | true => exact Printing.yields_pure rfl
      | false =>
        exact hright.bind fun v hv =>
          (yields_asBoolean _ hv).bind fun c _ => Printing.yields_pure rfl
    · rw [eval_binary hand hor]
      exact hleft.bind fun u hu => hright.bind fun v hv =>
        Printing.yields_ofExcept (hop.exists_apply hand hor hu hv)

/-- An expression with a kind yields a value of it. -/
theorem HasKind.yields {e : Expr} {k : Kind} (h : HasKind kinds e k)
    (hscope : scope.Respects kinds) : (e.eval scope).Yields fun v => v.kind = k := by
  induction h with
  | number | string | boolean =>
    rw [eval]
    exact Printing.yields_pure rfl
  | name h =>
    rw [eval]
    exact Scope.yields_find fun v => hscope.name h
  | element h _ ih =>
    rw [eval]
    refine ih.bind fun v hv => ?_
    obtain ⟨x, rfl⟩ := Value.exists_number hv
    refine (yields_elementKey _ x).bind ?_
    rintro _ ⟨index, rfl⟩
    exact Scope.yields_find fun v => hscope.element h
  | unary hop _ ih =>
    rw [eval]
    exact ih.bind fun v hv => Printing.yields_ofExcept (hop.exists_apply hv)
  | binary hop _ _ ihleft ihright => exact yields_binary hop ihleft ihright
  | call hf _ ih =>
    rw [eval]
    exact (yields_evalAll ih).bind fun vs hvs => yields_callFunction hf hvs

/-- In a scope of the kinds given, an expression with a kind has a value of it, and of no other
kind, unless a name is not there or a number is no index. -/
theorem HasKind.eval_sound {e : Expr} {k : Kind} (h : HasKind kinds e k)
    (hscope : scope.Respects kinds) (output : List String) :
    (∀ other, HasKind kinds e other → other = k) ∧
      ∃ after, (∃ v, e.eval scope output = .ok v after ∧ v.kind = k) ∨
        (∃ path, e.eval scope output = .error (.undefinedName path) after) ∨
        ∃ x, e.eval scope output = .error (.invalidIndex x) after := by
  refine ⟨fun other => h.unique, ?_⟩
  have hyields := h.yields hscope output
  cases hrun : e.eval scope output with
  | ok v after =>
    rw [hrun] at hyields
    exact ⟨after, .inl ⟨v, rfl, hyields⟩⟩
  | error failure after =>
    rw [hrun] at hyields
    cases hyields with
    | undefinedName path => exact ⟨after, .inr (.inl ⟨path, rfl⟩)⟩
    | invalidIndex x => exact ⟨after, .inr (.inr ⟨x, rfl⟩)⟩

/-- A local number in front of a global text, and a vector of texts: `!(print(v[n], n) + v[0] < "y")`
with these kinds. -/
theorem HasKind.eval_sound_local_index :
    ∃ (kinds : Kinds) (scope : Scope) (e : Expr),
      scope.globals["n"]? = some (.string "two") ∧ HasKind kinds e .boolean ∧
      scope.Respects kinds ∧
      ∃ after, (∃ v, e.eval scope [] = .ok v after ∧ v.kind = .boolean) ∨
        (∃ path, e.eval scope [] = .error (.undefinedName path) after) ∨
        ∃ x, e.eval scope [] = .error (.invalidIndex x) after := by
  let kinds : Kinds := {
    name? := fun path => if path = "n" then some .number else none
    element? := fun path => if path = "v" then some .string else none }
  let scope : Scope := {
    globals := ((∅ : Table Value).insert "n" (.string "two")).insert "v[0]" (.string "x")
    locals := (∅ : Table Value).insert "n" (.number 0) }
  let first : Expr := .element "v" (.name "n")
  let printed : Expr := .call Builtin.print.name [first, .name "n"]
  let e : Expr := .unary .not
    (.binary .less (.binary .add printed (.element "v" (.number 0))) (.string "y"))
  have hn : HasKind kinds (.name "n") .number := .name rfl
  have hfirst : HasKind kinds first .string := .element rfl hn
  have hprinted : HasKind kinds printed .string := by
    refine @HasKind.call kinds .print [(first, .string), (.name "n", .number)] .string (.print _) ?_
    simp [hfirst, hn]
  have he : HasKind kinds e .boolean :=
    .unary .not (.binary (.order (by simp) (by simp))
      (.binary .append hprinted (.element rfl (.number 0))) (.string "y"))
  have hscope : scope.Respects kinds := by
    constructor
    · intro path k v hk hv
      obtain ⟨rfl, ⟨⟩⟩ := Option.ite_none_right_eq_some.1 hk
      simp only [scope, Scope.lookup?, Table.getElem?_insert_eq, if_true] at hv
      cases hv
      rfl
    · intro path k index v hk hv
      obtain ⟨rfl, ⟨⟩⟩ := Option.ite_none_right_eq_some.1 hk
      -- The local number is not an element: its name has no bracket.
      have hother : "n" ≠ elementName "v" index := fun h => by
        have hheads := congrArg (fun name => name.toList.head?) h
        simp [elementName] at hheads
      simp only [scope, Scope.lookup?, Table.getElem?_insert_eq, if_neg hother] at hv
      split at hv
      · cases hv
        rfl
      · simp at hv
  have hglobal : scope.globals["n"]? = some (.string "two") := by
    simp only [scope, Table.getElem?_insert_eq]
    rfl
  exact ⟨kinds, scope, e, hglobal, he, hscope, (he.eval_sound hscope []).2⟩

end Expr

end InputDeck
