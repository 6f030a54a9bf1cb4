import InputDeck.Expr.Interpreter
import InputDeck.Proofs.Expr.Adjacent
import InputDeck.Proofs.Expr.Evaluation
import InputDeck.Proofs.Expr.Positions

/-!
# What statements do

A statement that reports a name binds it and leaves every other global alone; a statement that
reports nothing, or fails, leaves all of them alone. Whether a statement assigns can be told from
its text: without an assignment sign it does not, and with one in front of paired quotes it does.
-/

namespace InputDeck

open InputDeck.Scan InputDeck.Number

/-- What is parsed as an assignment is a target, the sign and a value. -/
theorem Statement.parse_eq_assign {ts : List Token} {target : Target} {value : Expr}
    (h : parse ts = .ok (.assign target value)) :
    ∃ us vs, ts = us ++ .symbol .assign :: vs ∧
      Expr.parse ts = .ok (target.toExpr, .symbol .assign :: vs) ∧
      Expr.parse vs = .ok (value, []) ∧ Expr.Derives (.levels Level.all) us target.toExpr ∧
      Expr.Derives (.levels Level.all) vs value := by
  rw [parse] at h
  split at h
  · cases h
  · obtain ⟨⟨e, rest⟩, hleft, hright⟩ := Except.bind_eq_ok_iff.1 h
    obtain ⟨us, rfl, hus⟩ := Expr.derives_of_parse hleft
    split at hright
    · next left behind heq =>
      obtain ⟨rfl, rfl⟩ := Prod.mk.inj heq
      split at hright
      · cases hright
      · next found htarget =>
        obtain ⟨⟨value', last⟩, hvalue, hfinish⟩ := Except.bind_eq_ok_iff.1 hright
        obtain ⟨vs, rfl, hvs⟩ := Expr.derives_of_parse hvalue
        cases last with
        | cons => cases hfinish
        | nil =>
          obtain ⟨rfl, rfl⟩ := Statement.assign.inj (Except.ok.inj hfinish)
          rw [List.append_nil] at hleft hvalue ⊢
          rw [Expr.target?_eq_some_iff.1 htarget] at hleft hus
          exact ⟨us, vs, rfl, hleft, hvalue, hus, hvs⟩
    · next behind heq _ =>
      cases behind with
      | nil => cases hright
      | cons => cases hright

/-- What is parsed as an expression is one in whole. -/
theorem Statement.parse_eq_evaluate {ts : List Token} {e : Expr}
    (h : parse ts = .ok (.evaluate e)) : Expr.Derives (.levels Level.all) ts e := by
  rw [parse] at h
  split at h
  · cases h
  · obtain ⟨⟨e', rest⟩, hleft, hright⟩ := Except.bind_eq_ok_iff.1 h
    obtain ⟨us, rfl, hus⟩ := Expr.derives_of_parse hleft
    split at hright
    · split at hright
      · cases hright
      · obtain ⟨⟨value, last⟩, hvalue, hfinish⟩ := Except.bind_eq_ok_iff.1 hright
        cases last with
        | nil => cases hfinish
        | cons => cases hfinish
    · next heq =>
      obtain ⟨rfl, rfl⟩ := Prod.mk.inj heq
      cases rest with
      | cons => cases hright
      | nil =>
        obtain rfl := Statement.evaluate.inj (Except.ok.inj hright)
        rwa [List.append_nil]

namespace Interpreter

variable {text : String} {locals : Table Value} {vm after : Interpreter}

/-- A statement is read when its tokens are parsed. -/
theorem read_eq_ok {statement : Statement} (h : read text = .ok statement) :
    ∃ ts, Token.ofText text = .ok ts ∧ Statement.parse ts = .ok statement := by
  obtain ⟨tokens, htokens, hparse⟩ := Except.bind_eq_ok_iff.1 h
  exact ⟨tokens, htokens, Except.mapError_eq_ok_iff.1 hparse⟩

/-- A statement that is read as an assignment is a target, the sign and a value. -/
theorem read_eq_assign {target : Target} {value : Expr}
    (h : read text = .ok (.assign target value)) :
    ∃ us vs, Token.Spelled (us ++ .symbol .assign :: vs) text.toList ∧
      Expr.Derives (.levels Level.all) us target.toExpr ∧
      Expr.Derives (.levels Level.all) vs value := by
  obtain ⟨tokens, htokens, hparse⟩ := read_eq_ok h
  obtain ⟨us, vs, rfl, -, -, hus, hvs⟩ := Statement.parse_eq_assign hparse
  exact ⟨us, vs, Token.spelled_of_ofText htokens, hus, hvs⟩

/-- A statement that is read as an expression is one in whole. -/
theorem read_eq_evaluate {e : Expr} (h : read text = .ok (.evaluate e)) :
    ∃ ts, Token.Spelled ts text.toList ∧ Expr.Derives (.levels Level.all) ts e := by
  obtain ⟨tokens, htokens, hparse⟩ := read_eq_ok h
  exact ⟨tokens, Token.spelled_of_ofText htokens, Statement.parse_eq_evaluate hparse⟩

/-- What prints lines leaves the globals alone. -/
private theorem printing_eq_ok_iff {α : Type} {action : Printing α} {a : α} :
    printing action vm = .ok a after ↔
      ∃ output, action vm.output = .ok a output ∧ after = { vm with output := output } := by
  unfold printing
  split
  · next b output haction =>
    simp only [haction]
    constructor
    · rintro ⟨⟩
      exact ⟨output, rfl, rfl⟩
    · rintro ⟨_, ⟨⟩, rfl⟩
      rfl
  · next e output haction => simp [haction]

/-- A failure to print lines leaves the globals alone. -/
private theorem globals_of_printing_error {α : Type} {action : Printing α} {e : EvalError}
    (h : printing action vm = .error e after) : after.globals = vm.globals := by
  unfold printing at h
  split at h
  · cases h
  · cases h
    rfl

/-- A statement that is read is run. -/
private theorem interpret_of_read {statement : Statement} (h : read text = .ok statement) :
    interpret text locals vm = run locals statement vm := by
  simp only [interpret, h]

/-- A statement that is not read does nothing. -/
private theorem interpret_of_read_error {e : EvalError} (h : read text = .error e) :
    interpret text locals vm = .error e vm := by
  simp only [interpret, h]
  rfl

/-- Statements that are read alike do the same. -/
theorem interpret_congr {other : String} (h : read text = read other) :
    interpret text locals vm = interpret other locals vm := by
  simp only [interpret, h]

/-- A statement that succeeds is read. -/
theorem exists_read_of_interpret {report : Option String}
    (h : interpret text locals vm = .ok report after) : ∃ statement, read text = .ok statement := by
  cases hread : read text with
  | ok statement => exact ⟨statement, rfl⟩
  | error e =>
    rw [interpret_of_read_error hread] at h
    cases h

private theorem run_assign (target : Target) (value : Expr) :
    run locals (.assign target value) vm =
      (do
        let v ← printing (value.eval ⟨vm.globals, locals⟩)
        let key ← printing (target.key ⟨vm.globals, locals⟩)
        modify fun vm => { vm with globals := vm.globals.insert key v }
        return some key : EStateM EvalError Interpreter (Option String)) vm := rfl

private theorem run_evaluate (e : Expr) :
    run locals (.evaluate e) vm =
      (do
        let _ ← printing (e.eval ⟨vm.globals, locals⟩)
        return none : EStateM EvalError Interpreter (Option String)) vm := rfl

/-- An assignment succeeds exactly when its value and its name are found, and binds the name. -/
private theorem run_assign_eq_ok_iff {target : Target} {value : Expr} {report : Option String} :
    run locals (.assign target value) vm = .ok report after ↔
      ∃ key v output last, report = some key ∧
        value.eval ⟨vm.globals, locals⟩ vm.output = .ok v output ∧
        target.key ⟨vm.globals, locals⟩ output = .ok key last ∧
        after = ⟨vm.globals.insert key v, last⟩ := by
  rw [run_assign]
  constructor
  · intro h
    obtain ⟨v, u, hv, h⟩ := EStateM.bind_eq_ok_iff.1 h
    obtain ⟨output, hout, rfl⟩ := printing_eq_ok_iff.1 hv
    obtain ⟨key, u, hkey, h⟩ := EStateM.bind_eq_ok_iff.1 h
    obtain ⟨last, hlast, rfl⟩ := printing_eq_ok_iff.1 hkey
    obtain ⟨_, u, hmodify, h⟩ := EStateM.bind_eq_ok_iff.1 h
    cases hmodify
    cases h
    exact ⟨key, v, output, last, rfl, hout, hlast, rfl⟩
  · rintro ⟨key, v, output, last, rfl, hout, hlast, rfl⟩
    refine EStateM.bind_eq_ok_iff.2 ⟨v, _, printing_eq_ok_iff.2 ⟨output, hout, rfl⟩, ?_⟩
    exact EStateM.bind_eq_ok_iff.2 ⟨key, _, printing_eq_ok_iff.2 ⟨last, hlast, rfl⟩, rfl⟩

/-- An expression succeeds exactly when it has a value, and binds nothing. -/
private theorem run_evaluate_eq_ok_iff {e : Expr} {report : Option String} :
    run locals (.evaluate e) vm = .ok report after ↔
      ∃ v output, report = none ∧ e.eval ⟨vm.globals, locals⟩ vm.output = .ok v output ∧
        after = { vm with output := output } := by
  rw [run_evaluate]
  constructor
  · intro h
    obtain ⟨v, u, hv, h⟩ := EStateM.bind_eq_ok_iff.1 h
    obtain ⟨output, hout, rfl⟩ := printing_eq_ok_iff.1 hv
    cases h
    exact ⟨v, output, rfl, hout, rfl⟩
  · rintro ⟨v, output, rfl, hout, rfl⟩
    exact EStateM.bind_eq_ok_iff.2 ⟨v, _, printing_eq_ok_iff.2 ⟨output, hout, rfl⟩, rfl⟩

/-- A statement reports nothing exactly when it is read as an expression that has a value. -/
theorem interpret_eq_none_iff :
    interpret text locals vm = .ok none after ↔
      ∃ e v output, read text = .ok (.evaluate e) ∧
        e.eval ⟨vm.globals, locals⟩ vm.output = .ok v output ∧
        after = { vm with output := output } := by
  cases hread : read text with
  | error e => simp [interpret_of_read_error hread]
  | ok statement =>
    rw [interpret_of_read hread]
    cases statement with
    | assign target value => simp [run_assign_eq_ok_iff]
    | evaluate e => simp [run_evaluate_eq_ok_iff]

/-- A statement reports a name exactly when it is read as an assignment whose value and name are
found; then it binds the name to the value. -/
theorem interpret_eq_some_iff {key : String} :
    interpret text locals vm = .ok (some key) after ↔
      ∃ target value v output last, read text = .ok (.assign target value) ∧
        value.eval ⟨vm.globals, locals⟩ vm.output = .ok v output ∧
        target.key ⟨vm.globals, locals⟩ output = .ok key last ∧
        after = ⟨vm.globals.insert key v, last⟩ := by
  cases hread : read text with
  | error e => simp [interpret_of_read_error hread]
  | ok statement =>
    rw [interpret_of_read hread]
    cases statement with
    | assign target value =>
      rw [run_assign_eq_ok_iff]
      constructor
      · rintro ⟨_, v, output, last, ⟨⟩, hout, hlast, rfl⟩
        exact ⟨target, value, v, output, last, rfl, hout, hlast, rfl⟩
      · rintro ⟨_, _, v, output, last, ⟨⟩, hout, hlast, rfl⟩
        exact ⟨key, v, output, last, rfl, hout, hlast, rfl⟩
    | evaluate e => simp [run_evaluate_eq_ok_iff]

/-- A statement that reports nothing leaves the globals alone. -/
theorem globals_of_interpret_none (h : interpret text locals vm = .ok none after) :
    after.globals = vm.globals := by
  obtain ⟨e, v, output, -, -, rfl⟩ := interpret_eq_none_iff.1 h
  rfl

/-- A statement that fails leaves the globals alone. -/
theorem globals_of_interpret_error {e : EvalError} (h : interpret text locals vm = .error e after) :
    after.globals = vm.globals := by
  cases hread : read text with
  | error d =>
    rw [interpret_of_read_error hread] at h
    cases h
    rfl
  | ok statement =>
    rw [interpret_of_read hread] at h
    cases statement with
    | evaluate value =>
      rw [run_evaluate] at h
      obtain h | ⟨v, u, -, h⟩ := EStateM.bind_eq_error_iff.1 h
      · exact globals_of_printing_error h
      · cases h
    | assign target value =>
      rw [run_assign] at h
      obtain h | ⟨v, u, hv, h⟩ := EStateM.bind_eq_error_iff.1 h
      · exact globals_of_printing_error h
      · obtain ⟨output, -, rfl⟩ := printing_eq_ok_iff.1 hv
        obtain h | ⟨key, u, hkey, h⟩ := EStateM.bind_eq_error_iff.1 h
        · have := globals_of_printing_error h
          exact this
        · obtain ⟨last, -, rfl⟩ := printing_eq_ok_iff.1 hkey
          cases h

/-- What prints lines adds them behind the lines that are there. -/
private theorem prefix_of_printing {α : Type} {action : Printing α} (h : action.Appends)
    (vm : Interpreter) : vm.output <+: (printing action vm).finalState.output := by
  have hprefix := h vm.output
  unfold printing
  cases hrun : action vm.output <;> rwa [hrun] at hprefix

/-- Steps that add lines add them one after the other. -/
private theorem prefix_of_bind {α β : Type} {x : EStateM EvalError Interpreter α}
    {f : α → EStateM EvalError Interpreter β} {vm : Interpreter}
    (hx : vm.output <+: (x vm).finalState.output)
    (hf : ∀ a next, next.output <+: (f a next).finalState.output) :
    vm.output <+: ((x >>= f) vm).finalState.output :=
  EStateM.finalState_bind (R := fun s t : Interpreter => s.output <+: t.output)
    (fun _ _ _ => List.IsPrefix.trans) hx fun a next _ => hf a next

/-- A statement that is run adds the lines that it prints. -/
private theorem prefix_of_run (locals : Table Value) (statement : Statement) (vm : Interpreter) :
    vm.output <+: (run locals statement vm).finalState.output := by
  cases statement with
  | assign target value =>
    rw [run_assign]
    refine prefix_of_bind (prefix_of_printing (Expr.appends_eval _ value) vm) fun v next => ?_
    exact prefix_of_bind (prefix_of_printing (target.appends_key _) next) fun key last =>
      List.prefix_rfl
  | evaluate e =>
    rw [run_evaluate]
    exact prefix_of_bind (prefix_of_printing (Expr.appends_eval _ e) vm) fun v next =>
      List.prefix_rfl

/-- A statement adds the lines that it prints behind the lines that are there, whatever it ends
with. -/
theorem prefix_of_interpret (text : String) (locals : Table Value) (vm : Interpreter) :
    vm.output <+: (interpret text locals vm).finalState.output := by
  cases hread : read text with
  | error e =>
    rw [interpret_of_read_error hread]
    exact List.prefix_rfl
  | ok statement =>
    rw [interpret_of_read hread]
    exact prefix_of_run locals statement vm

/-- A statement that fails or reports nothing leaves all globals as they were. One that reports a
name changes no other global; the name is the one that its target has in the state before it, and
has the value that its right side has in that state. In any case the output only grows at its
end. -/
theorem interpret_frame (text : String) (locals : Table Value) (vm : Interpreter) :
    vm.output <+: (interpret text locals vm).finalState.output ∧
      match interpret text locals vm with
      | .error _ after => after.globals = vm.globals
      | .ok none after => after.globals = vm.globals
      | .ok (some key) after =>
        (∃ target value v output, read text = .ok (.assign target value) ∧
          value.eval ⟨vm.globals, locals⟩ vm.output = .ok v output ∧
          target.key ⟨vm.globals, locals⟩ output = .ok key after.output ∧
          after.globals[key]? = some v) ∧
        ∀ other : String, other ≠ key → after.globals[other]? = vm.globals[other]? := by
  refine ⟨prefix_of_interpret text locals vm, ?_⟩
  split
  · next e after hrun => exact globals_of_interpret_error hrun
  · next after hrun => exact globals_of_interpret_none hrun
  · next key after hrun =>
    obtain ⟨target, value, v, output, last, hread, heval, hkey, rfl⟩ :=
      interpret_eq_some_iff.1 hrun
    refine ⟨⟨target, value, v, output, hread, heval, hkey, ?_⟩, fun other hother => ?_⟩
    · rw [Table.getElem?_insert_eq, if_pos rfl]
    · rw [Table.getElem?_insert_eq, if_neg hother.symm]

/-- The name that a target binds is its path, or an element of the vector with its path. -/
theorem key_eq_ok {target : Target} {scope : Scope} {key : String} {output last : List String}
    (h : target.key scope output = .ok key last) :
    key = target.path ∨ ∃ x index, index? x = some index ∧ key = elementName target.path index := by
  rcases target with ⟨path, _ | index⟩
  · cases h
    exact .inl rfl
  · obtain ⟨v, u, -, h⟩ := EStateM.bind_eq_ok_iff.1 h
    cases hkey : elementKey path v with
    | error e =>
      rw [hkey] at h
      cases h
    | ok found =>
      rw [hkey] at h
      cases h
      obtain ⟨x, -, hindex⟩ := Except.bind_eq_ok_iff.1 hkey
      split at hindex
      · next n hn =>
        obtain rfl := Except.ok.inj hindex
        exact .inr ⟨x, n, hn, rfl⟩
      · cases hindex

/-- Every name that a statement reports can be assigned. -/
theorem isAssignable_of_interpret {key : String}
    (h : interpret text locals vm = .ok (some key) after) : IsAssignable key := by
  obtain ⟨target, value, v, output, last, hread, -, hkey, -⟩ := interpret_eq_some_iff.1 h
  obtain ⟨us, vs, hspelled, htarget, -⟩ := read_eq_assign hread
  obtain ⟨hdotted, htrue, hfalse⟩ := htarget.isDottedName_path (Expr.target?_eq_some_iff.2 rfl)
    hspelled (List.subset_append_left _ _)
  rcases key_eq_ok hkey with rfl | ⟨x, index, hindex, rfl⟩
  · exact .name hdotted htrue hfalse
  · exact .element hdotted htrue hfalse hindex

/-- A text without an assignment sign is no assignment. -/
theorem interpret_ne_some_of_cutAssignment (h : cutAssignment none {} text.toList = none)
    (key : String) : interpret text locals vm ≠ .ok (some key) after := by
  intro hok
  obtain ⟨target, value, v, output, last, hread, -⟩ := interpret_eq_some_iff.1 hok
  obtain ⟨us, vs, hspelled, htarget, -⟩ := read_eq_assign hread
  obtain ⟨front, rest, hsplit, hfront, hrest⟩ := hspelled.exists_assign
  rw [hsplit, hfront.cutAssignment_assign htarget.assign_notMem
    (fun _ => htarget.isOperand.endsOperand) hrest] at h
  cases h

/-- What is assigned with paired quotes is never read as an expression. -/
theorem interpret_ne_none_of_quotesPaired {name value : String}
    (h : QuotesPaired value.toList) :
    interpret (name ++ " = " ++ value) locals vm ≠ .ok none after := by
  intro hok
  obtain ⟨e, v, output, hread, -⟩ := interpret_eq_none_iff.1 hok
  obtain ⟨ts, hspelled, hderives⟩ := read_eq_evaluate hread
  have hsplit : (name ++ " = " ++ value).toList =
      name.toList ++ ' ' :: '=' :: ' ' :: value.toList := by
    simp
  have hpaired : QuotesPaired ((name.toList ++ [' ', '=', ' ']) ++ value.toList) := by
    have := hspelled.count_quote
    rw [hsplit] at this
    simpa [QuotesPaired] using this
  have hname : QuotesPaired name.toList :=
    QuotesPaired.of_append_right (by decide) (h.of_append_right hpaired)
  obtain ⟨us, vs, rfl, -⟩ := hspelled.exists_assign_of_spaces hsplit hname
  exact hderives.assign_notMem (by simp)

end Interpreter

end InputDeck
