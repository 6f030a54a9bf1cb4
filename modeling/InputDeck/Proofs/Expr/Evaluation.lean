import InputDeck.Expr.Evaluation
import InputDeck.Proofs.Outcome

/-!
# What an evaluation reads and prints

An evaluation reads its scope by looking up names, and nothing else of it: so the locals and the
globals of a scope can be put together in one table. What it prints comes behind what was printed
before, whether it ends with a value or with a failure.
-/

namespace InputDeck

namespace Expr

/-- What holds of an expression when it holds of its operands holds of every expression. -/
theorem induction {motive : Expr → Prop} (number : ∀ x, motive (.number x))
    (string : ∀ s, motive (.string s)) (boolean : ∀ b, motive (.boolean b))
    (name : ∀ path, motive (.name path))
    (element : ∀ path index, motive index → motive (.element path index))
    (unary : ∀ op operand, motive operand → motive (.unary op operand))
    (binary : ∀ op left right, motive left → motive right → motive (.binary op left right))
    (call : ∀ function arguments, (∀ e ∈ arguments, motive e) → motive (.call function arguments)) :
    ∀ e, motive e
  | .number x => number x
  | .string s => string s
  | .boolean b => boolean b
  | .name path => name path
  | .element path index =>
    element path index (induction number string boolean name element unary binary call index)
  | .unary op operand =>
    unary op operand (induction number string boolean name element unary binary call operand)
  | .binary op left right =>
    binary op left right (induction number string boolean name element unary binary call left)
      (induction number string boolean name element unary binary call right)
  | .call function arguments =>
    call function arguments fun e _ =>
      induction number string boolean name element unary binary call e

/-- An operation that needs both of its operands evaluates both. -/
theorem eval_binary {op : BinaryOp} (hand : op ≠ .and) (hor : op ≠ .or) (scope : Scope)
    (left right : Expr) : (binary op left right).eval scope =
      (do
        let l ← left.eval scope
        let r ← right.eval scope
        .ofExcept (op.apply l r) : Printing Value) := by
  rw [eval]
  · exact hand
  · exact hor

end Expr

/-- A number that is an index selects an element. -/
theorem elementKey_number {path : String} {x : Float} {index : Nat}
    (h : Number.index? x = some index) :
    elementKey path (.number x) = .ok (elementName path index) := by
  simp [elementKey, Value.asNumber, h, bind, Except.bind, pure, Except.pure]

/-! ## Scopes -/

namespace Expr

/-- Expressions are evaluated alike in scopes where every name has the same value. -/
theorem eval_congr {scope other : Scope} (h : ∀ name, scope.lookup? name = other.lookup? name)
    (e : Expr) : e.eval scope = e.eval other := by
  have hfind : ∀ name, scope.find name = other.find name := by
    intro name
    rw [Scope.find, Scope.find, h]
  induction e using Expr.induction with
  | number | string | boolean => simp only [eval]
  | name path => rw [eval, eval, hfind]
  | element path index ih => simp only [eval, ih, hfind]
  | unary op operand ih => simp only [eval, ih]
  | binary op left right ihleft ihright => cases op <;> simp only [eval, ihleft, ihright]
  | call function arguments ih =>
    have hall : evalAll scope arguments = evalAll other arguments := by
      induction arguments with
      | nil => simp only [evalAll]
      | cons e es ihes =>
        simp only [evalAll, ih e List.mem_cons_self,
          ihes fun d hd => ih d (List.mem_cons_of_mem e hd)]
    simp only [eval, hall]

end Expr

/-- The names of a scope in one table, where a local name takes the place of a global one. -/
def Scope.table (scope : Scope) : Table Value := scope.globals ∪ scope.locals

/-- The table of a scope has the values that are found in it. -/
theorem Scope.getElem?_table (scope : Scope) (name : String) :
    scope.table[name]? = scope.locals[name]?.or scope.globals[name]? :=
  Std.ExtTreeMap.getElem?_union

/-- With its locals and its globals in one table a scope finds the same. -/
theorem Scope.lookup?_table (scope : Scope) (name : String) :
    (⟨scope.table, ∅⟩ : Scope).lookup? name = scope.lookup? name := by
  rw [lookup?, lookup?, getElem?_table]
  simp

/-- Locals in front of globals are evaluated as the one table that has each local name and every
other global one. -/
theorem Expr.eval_overlaid (globals locals : Table Value) :
    ∃ table : Table Value, (∀ key : String, table[key]? = locals[key]?.or globals[key]?) ∧
      ∀ (e : Expr) (output : List String),
        e.eval ⟨globals, locals⟩ output = e.eval ⟨table, ∅⟩ output := by
  refine ⟨Scope.table ⟨globals, locals⟩, Scope.getElem?_table _, fun e output => ?_⟩
  have hlookup := Scope.lookup?_table ⟨globals, locals⟩
  rw [eval_congr (fun name => (hlookup name).symm) e]

/-! ## Output -/

namespace Printing

variable {α β : Type}

/-- Whether a computation adds what it prints behind what was printed before. -/
def Appends (x : Printing α) : Prop := ∀ output, output <+: (x output).finalState

/-- A value prints nothing. -/
theorem appends_pure (a : α) : Appends (pure a) := fun _ => List.prefix_rfl

/-- A failure prints nothing. -/
theorem appends_throw (e : EvalError) : Appends (throw e : Printing α) := fun _ => List.prefix_rfl

/-- What prints nothing adds nothing. -/
theorem appends_ofExcept (x : Except EvalError α) : Appends (ofExcept x) := by
  cases x with
  | ok a => exact appends_pure a
  | error e => exact appends_throw e

/-- Computations that add lines add them one after the other. -/
theorem Appends.bind {x : Printing α} {f : α → Printing β} (hx : Appends x)
    (hf : ∀ a, Appends (f a)) : Appends (x >>= f) := fun output =>
  EStateM.finalState_bind (R := (· <+: ·)) (fun _ _ _ => List.IsPrefix.trans) (hx output)
    fun a t _ => hf a t

end Printing

open Printing

/-- Looking up a name prints nothing. -/
theorem Scope.appends_find (scope : Scope) (name : String) : Appends (scope.find name) := by
  unfold find
  split
  · exact appends_pure _
  · exact appends_throw _

/-- A call adds the line that it prints, if any. -/
theorem appends_callFunction (function : String) (arguments : List Value) :
    Appends (callFunction function arguments) := by
  unfold callFunction
  split
  · exact appends_throw _
  · exact Appends.bind (fun output => List.prefix_append output _) fun _ => appends_ofExcept _
  · exact appends_ofExcept _

namespace Expr

variable (scope : Scope)

/-- Arguments add their lines one after the other. -/
private theorem appends_evalAll {es : List Expr} (h : ∀ e ∈ es, Appends (e.eval scope)) :
    Appends (evalAll scope es) := by
  induction es with
  | nil =>
    rw [evalAll]
    exact appends_pure _
  | cons e es ih =>
    rw [evalAll]
    exact (h e List.mem_cons_self).bind fun v =>
      (ih fun d hd => h d (List.mem_cons_of_mem e hd)).bind fun vs => appends_pure _

/-- An operation on two operands adds the lines of those that it evaluates. -/
private theorem appends_binary (op : BinaryOp) {left right : Expr}
    (hleft : Appends (left.eval scope)) (hright : Appends (right.eval scope)) :
    Appends ((binary op left right).eval scope) := by
  by_cases hand : op = .and
  · subst hand
    rw [eval]
    refine hleft.bind fun l => (appends_ofExcept _).bind fun b => ?_
    split
    · exact hright.bind fun r => (appends_ofExcept _).bind fun c => appends_pure _
    · exact appends_pure _
  · by_cases hor : op = .or
    · subst hor
      rw [eval]
      refine hleft.bind fun l => (appends_ofExcept _).bind fun b => ?_
      split
      · exact appends_pure _
      · exact hright.bind fun r => (appends_ofExcept _).bind fun c => appends_pure _
    · rw [eval_binary hand hor]
      exact hleft.bind fun l => hright.bind fun r => appends_ofExcept _

/-- An evaluation adds what it prints behind what was printed before. -/
theorem appends_eval (e : Expr) : Appends (e.eval scope) := by
  induction e using Expr.induction with
  | number | string | boolean =>
    rw [eval]
    exact appends_pure _
  | name path =>
    rw [eval]
    exact scope.appends_find path
  | element path index ih =>
    rw [eval]
    exact ih.bind fun v => (appends_ofExcept _).bind fun key => scope.appends_find key
  | unary op operand ih =>
    rw [eval]
    exact ih.bind fun v => appends_ofExcept _
  | binary op left right ihleft ihright => exact appends_binary scope op ihleft ihright
  | call function arguments ih =>
    rw [eval]
    exact (appends_evalAll scope ih).bind fun vs => appends_callFunction function vs

end Expr

/-- So does finding the name that a target binds. -/
theorem Target.appends_key (target : Target) (scope : Scope) : Appends (target.key scope) := by
  unfold key
  split
  · exact appends_pure _
  · exact (Expr.appends_eval scope _).bind fun v => appends_ofExcept _

end InputDeck
