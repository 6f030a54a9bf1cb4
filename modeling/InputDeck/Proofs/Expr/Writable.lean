import InputDeck.Proofs.Expr.Statements
import InputDeck.Proofs.Text.WrittenCards

/-!
# Values that can be written

A text can be written between quotes when it has no quote and no blanks but spaces. Operations and
functions make such texts from such texts and numbers. So when the globals and the locals can be
written, and the only blanks of a statement are spaces, then so can the value that it assigns.
-/

namespace InputDeck

open InputDeck.Text

namespace Value

/-- Numbers can be written. -/
theorem isWritable_number (x : Float) : (number x).IsWritable := by
  rintro s ⟨⟩

/-- Truth values can be written. -/
theorem isWritable_boolean (b : Bool) : (boolean b).IsWritable := by
  rintro s ⟨⟩

/-- The text of a value that can be written has no quote and no blanks but spaces. -/
theorem IsWritable.text {v : Value} (h : v.IsWritable) :
    IsPlain (v.text none).toList ∧ '"' ∉ (v.text none).toList := by
  have hbare : ∀ {cs : List Char}, (∀ c ∈ cs, isBareChar c = true) → IsPlain cs ∧ '"' ∉ cs :=
    fun hcs => ⟨.of_isBlank fun c hc => isBlank_of_isBareChar (hcs c hc),
      fun hquote => ne_of_isBareChar (hcs _ hquote) (by decide) rfl⟩
  cases v with
  | number x => exact hbare (isBareChar_of_mem_deckText none x).2
  | boolean b => cases b <;> exact hbare (List.all_eq_true.1 (by decide))
  | string s => exact h s rfl

/-- A text that is made of two that can be written can be written. -/
theorem isWritable_append {s t : String} (hs : (string s).IsWritable) (ht : (string t).IsWritable) :
    (string (s ++ t)).IsWritable := by
  rintro _ ⟨⟩
  obtain ⟨hs, hsquote⟩ := hs s rfl
  obtain ⟨ht, htquote⟩ := ht t rfl
  rw [String.toList_append]
  exact ⟨hs.append ht, fun hquote => (List.mem_append.1 hquote).elim hsquote htquote⟩

/-- The line that is printed can be written when the values can. -/
theorem isWritable_printed {vs : List Value} (h : ∀ v ∈ vs, v.IsWritable) :
    (string (Builtin.printed vs)).IsWritable := by
  have hspace : (string " ").IsWritable := by
    rintro _ ⟨⟩
    refine ⟨fun c hc _ => List.mem_singleton.1 hc, by decide⟩
  have hjoin : ∀ texts : List String, (∀ text ∈ texts, (string text).IsWritable) →
      (string (" ".intercalate texts)).IsWritable := by
    intro texts
    induction texts with
    | nil =>
      rintro - _ ⟨⟩
      exact ⟨.of_isBlank (by simp), by simp⟩
    | cons text texts ih =>
      intro h
      cases texts with
      | nil =>
        rw [String.intercalate_singleton]
        exact h text List.mem_cons_self
      | cons other texts =>
        rw [String.intercalate_cons_cons]
        exact isWritable_append (isWritable_append (h text List.mem_cons_self) hspace)
          (ih fun t ht => h t (List.mem_cons_of_mem _ ht))
  refine hjoin _ fun text htext => ?_
  obtain ⟨v, hv, rfl⟩ := List.mem_map.1 htext
  rintro _ ⟨⟩
  exact (h v hv).text

end Value

/-- What an operation makes of one value can be written. -/
theorem UnaryOp.isWritable_of_apply {op : UnaryOp} {v w : Value} (h : op.apply v = .ok w) :
    w.IsWritable := by
  cases op with
  | negate =>
    obtain ⟨x, -, rfl⟩ := Except.map_eq_ok_iff.1 h
    exact Value.isWritable_number _
  | plus =>
    obtain ⟨x, -, rfl⟩ := Except.map_eq_ok_iff.1 h
    exact Value.isWritable_number _
  | not =>
    obtain ⟨b, -, rfl⟩ := Except.map_eq_ok_iff.1 h
    exact Value.isWritable_boolean _

/-- What an operation makes of two values can be written when they can. -/
theorem BinaryOp.isWritable_of_apply {op : BinaryOp} {left right v : Value}
    (h : op.apply left right = .ok v) (hleft : left.IsWritable) (hright : right.IsWritable) :
    v.IsWritable := by
  have hnumbers : ∀ {f : Float → Float → Value} (x y : Float), op.onNumbers? = some f →
      (f x y).IsWritable := by
    intro f x y hf
    cases op <;> cases hf <;>
      first | exact Value.isWritable_number _ | exact Value.isWritable_boolean _
  have hstrings : ∀ {f : String → String → Value} {s t : String}, op.onStrings? = some f →
      (Value.string s).IsWritable → (Value.string t).IsWritable → (f s t).IsWritable := by
    intro f s t hf hs ht
    cases op <;> cases hf <;>
      first | exact Value.isWritable_append hs ht | exact Value.isWritable_boolean _
  unfold apply at h
  dsimp only at h
  split at h
  · cases h
    exact Value.isWritable_boolean _
  · cases h
    exact Value.isWritable_boolean _
  · split at h
    · next x y =>
      split at h
      · next f hf =>
        cases h
        exact hnumbers x y hf
      · cases h
    · next s t =>
      split at h
      · next f hf =>
        cases h
        exact hstrings hf hleft hright
      · cases h
    · cases h

/-- What a function makes of values can be written when they can. -/
theorem Builtin.isWritable_of_apply {f : Builtin} {arguments : List Value} {v : Value}
    (h : f.apply arguments = .ok v) (harguments : ∀ w ∈ arguments, w.IsWritable) :
    v.IsWritable := by
  unfold apply at h
  split at h
  · cases h
    exact Value.isWritable_printed harguments
  · obtain ⟨x, -, rfl⟩ := Except.map_eq_ok_iff.1 h
    exact Value.isWritable_number _
  · cases h
  · obtain ⟨x, -, h⟩ := Except.bind_eq_ok_iff.1 h
    obtain ⟨y, -, h⟩ := Except.bind_eq_ok_iff.1 h
    cases h
    exact Value.isWritable_number _
  · cases h
  · cases h
  · obtain ⟨x, -, h⟩ := Except.bind_eq_ok_iff.1 h
    obtain ⟨y, -, h⟩ := Except.bind_eq_ok_iff.1 h
    cases h
    exact Value.isWritable_number _
  · cases h
  · obtain ⟨x, -, h⟩ := Except.bind_eq_ok_iff.1 h
    obtain ⟨y, -, h⟩ := Except.bind_eq_ok_iff.1 h
    cases h
    exact Value.isWritable_number _

/-- What prints nothing succeeds with its own value. -/
theorem Printing.eq_ok_of_ofExcept {α : Type} {x : Except EvalError α} {a : α}
    {output last : List String} (h : ofExcept x output = .ok a last) : x = .ok a := by
  cases x with
  | ok b =>
    cases h
    rfl
  | error e => cases h

/-- All values of a table can be written. -/
def Table.IsWritable (t : Table Value) : Prop :=
  ∀ (name : String) (v : Value), t[name]? = some v → v.IsWritable

/-- A table whose values can be written stays so when such a value is bound. -/
theorem Table.IsWritable.insert {t : Table Value} (h : IsWritable t) (name : String) {v : Value}
    (hv : v.IsWritable) : IsWritable (t.insert name v) := by
  intro other w hw
  rw [Table.getElem?_insert_eq] at hw
  split at hw
  · obtain rfl := Option.some.inj hw
    exact hv
  · exact h other w hw

/-- All values of a scope can be written. -/
structure Scope.IsWritable (scope : Scope) : Prop where
  /-- Those of the globals. -/
  globals : Table.IsWritable scope.globals
  /-- Those of the names that come before the globals. -/
  locals : Table.IsWritable scope.locals

/-- A value that is found in a scope can be written. -/
theorem Scope.IsWritable.of_find {scope : Scope} (h : scope.IsWritable) {name : String} {v : Value}
    {output last : List String} (hfind : scope.find name output = .ok v last) : v.IsWritable := by
  unfold Scope.find Scope.lookup? at hfind
  cases hlocal : scope.locals[name]? with
  | some w =>
    rw [hlocal] at hfind
    cases hfind
    exact h.locals name _ hlocal
  | none =>
    cases hglobal : scope.globals[name]? with
    | some w =>
      rw [hlocal, hglobal] at hfind
      cases hfind
      exact h.globals name _ hglobal
    | none =>
      rw [hlocal, hglobal] at hfind
      cases hfind

/-- A value that a function gives can be written when the arguments can. -/
theorem isWritable_of_callFunction {function : String} {arguments : List Value} {v : Value}
    {output last : List String} (h : callFunction function arguments output = .ok v last)
    (harguments : ∀ w ∈ arguments, w.IsWritable) : v.IsWritable := by
  unfold callFunction at h
  cases hf : Builtin.ofName? function with
  | none =>
    rw [hf] at h
    cases h
  | some f =>
    rw [hf] at h
    by_cases hprint : f = .print
    · subst hprint
      obtain ⟨_, middle, -, h⟩ := EStateM.bind_eq_ok_iff.1 h
      exact Builtin.isWritable_of_apply (Printing.eq_ok_of_ofExcept h) harguments
    · have hcall : Printing.ofExcept (f.apply arguments) output = .ok v last := by
        cases f with
        | print => exact absurd rfl hprint
        | _ => exact h
      exact Builtin.isWritable_of_apply (Printing.eq_ok_of_ofExcept hcall) harguments

namespace Expr

variable {scope : Scope}

/-- Whatever an expression evaluates to in a scope can be written. -/
def IsWritable (scope : Scope) (e : Expr) : Prop :=
  ∀ output v last, e.eval scope output = .ok v last → v.IsWritable

/-- An operation on two operands can be written when the operands can. -/
theorem isWritable_binary {left right : Expr} (op : BinaryOp) (hleft : left.IsWritable scope)
    (hright : right.IsWritable scope) : (binary op left right).IsWritable scope := by
  intro output v last h
  by_cases hand : op = .and
  · subst hand
    rw [eval] at h
    obtain ⟨l, s, -, h⟩ := EStateM.bind_eq_ok_iff.1 h
    obtain ⟨b, t, -, h⟩ := EStateM.bind_eq_ok_iff.1 h
    split at h
    · obtain ⟨r, s, -, h⟩ := EStateM.bind_eq_ok_iff.1 h
      obtain ⟨c, t, -, h⟩ := EStateM.bind_eq_ok_iff.1 h
      cases h
      exact Value.isWritable_boolean _
    · cases h
      exact Value.isWritable_boolean _
  · by_cases hor : op = .or
    · subst hor
      rw [eval] at h
      obtain ⟨l, s, -, h⟩ := EStateM.bind_eq_ok_iff.1 h
      obtain ⟨b, t, -, h⟩ := EStateM.bind_eq_ok_iff.1 h
      split at h
      · cases h
        exact Value.isWritable_boolean _
      · obtain ⟨r, s, -, h⟩ := EStateM.bind_eq_ok_iff.1 h
        obtain ⟨c, t, -, h⟩ := EStateM.bind_eq_ok_iff.1 h
        cases h
        exact Value.isWritable_boolean _
    · rw [eval] at h
      · obtain ⟨l, s, hl, h⟩ := EStateM.bind_eq_ok_iff.1 h
        obtain ⟨r, t, hr, h⟩ := EStateM.bind_eq_ok_iff.1 h
        exact BinaryOp.isWritable_of_apply (Printing.eq_ok_of_ofExcept h) (hleft _ _ _ hl)
          (hright _ _ _ hr)
      · exact hand
      · exact hor

/-- The values of arguments can be written when each argument can. -/
theorem isWritable_of_evalAll {es : List Expr} (h : ∀ e ∈ es, e.IsWritable scope)
    {output last : List String} {vs : List Value} (heval : evalAll scope es output = .ok vs last) :
    ∀ v ∈ vs, v.IsWritable := by
  induction es generalizing output vs with
  | nil =>
    rw [evalAll] at heval
    cases heval
    simp
  | cons e es ih =>
    rw [evalAll] at heval
    obtain ⟨v, s, hv, heval⟩ := EStateM.bind_eq_ok_iff.1 heval
    obtain ⟨ws, t, hws, heval⟩ := EStateM.bind_eq_ok_iff.1 heval
    cases heval
    intro w hw
    rcases List.mem_cons.1 hw with rfl | hw
    · exact h e List.mem_cons_self _ _ _ hv
    · exact ih (fun f hf => h f (List.mem_cons_of_mem _ hf)) hws w hw

/-- When the texts among its tokens and the values of the scope can be written, so can the value of
an expression. -/
theorem Derives.isWritable {form : Form} {ts : List Token} {e : Expr} (h : Derives form ts e)
    (hscope : scope.IsWritable) (hts : ∀ s, .string s ∈ ts → (Value.string s).IsWritable) :
    e.IsWritable scope := by
  induction h with
  | innermost _ ih => exact ih hts
  | tighter _ _ ih => exact ih hts
  | operation hop _ _ ihleft ihright =>
    exact isWritable_binary _ (ihleft fun s hs => hts s (by simp [hs]))
      (ihright fun s hs => hts s (by simp [hs]))
  | before hop _ _ =>
    intro output v last h
    rw [eval] at h
    obtain ⟨w, s, -, h⟩ := EStateM.bind_eq_ok_iff.1 h
    exact UnaryOp.isWritable_of_apply (Printing.eq_ok_of_ofExcept h)
  | bare _ ih => exact ih hts
  | base _ ih => exact ih hts
  | exponent _ _ ihbase ihexponent =>
    exact isWritable_binary _ (ihbase fun s hs => hts s (by simp [hs]))
      (ihexponent fun s hs => hts s (by simp [hs]))
  | number x =>
    intro output v last h
    cases h
    exact Value.isWritable_number x
  | string s =>
    intro output v last h
    cases h
    exact hts s List.mem_cons_self
  | parentheses _ ih => exact ih fun s hs => hts s (by simp [hs])
  | @call ts path arguments hpath _ ih =>
    intro output v last h
    rw [eval] at h
    obtain ⟨vs, t, hvs, h⟩ := EStateM.bind_eq_ok_iff.1 h
    refine isWritable_of_callFunction h (isWritable_of_evalAll (fun e he => ?_) hvs)
    obtain ⟨argument, hargument, rfl⟩ := List.mem_map.1 he
    refine ih argument hargument fun s hs => hts s ?_
    have hmem := mem_commaSeparated_of_mem (List.mem_map.2 ⟨argument, hargument, rfl⟩) hs
    simp [hmem]
  | boolean b =>
    intro output v last h
    cases h
    exact Value.isWritable_boolean b
  | name _ _ _ =>
    intro output v last h
    rw [eval] at h
    exact hscope.of_find h
  | element _ _ _ _ _ =>
    intro output v last h
    rw [eval] at h
    obtain ⟨w, s, -, h⟩ := EStateM.bind_eq_ok_iff.1 h
    obtain ⟨key, t, -, h⟩ := EStateM.bind_eq_ok_iff.1 h
    exact hscope.of_find h

end Expr

namespace Interpreter

variable {text : String} {locals : Table Value} {vm after : Interpreter}

/-- A statement whose only blanks are spaces leaves globals that can be written when globals and
locals could be written before. -/
theorem isWritable_of_interpret {report : Option String} (htext : IsPlain text.toList)
    (hglobals : Table.IsWritable vm.globals) (hlocals : Table.IsWritable locals)
    (h : interpret text locals vm = .ok report after) : Table.IsWritable after.globals := by
  cases report with
  | none =>
    rw [globals_of_interpret_none h]
    exact hglobals
  | some key =>
    obtain ⟨target, value, v, output, last, hread, heval, -, rfl⟩ := interpret_eq_some_iff.1 h
    obtain ⟨us, vs, hspelled, -, hvalue⟩ := read_eq_assign hread
    refine hglobals.insert key (hvalue.isWritable ⟨hglobals, hlocals⟩ (fun s hs => ?_) _ _ _ heval)
    have hmem : .string s ∈ us ++ .symbol .assign :: vs :=
      List.mem_append_right _ (List.mem_cons_of_mem _ hs)
    rintro _ ⟨⟩
    exact ⟨htext.of_subset fun c hc => (hspelled.mem_of_string hmem hc).1,
      fun hquote => (hspelled.mem_of_string hmem hquote).2 rfl⟩

end Interpreter

end InputDeck
