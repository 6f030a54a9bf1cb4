import InputDeck.Proofs.Expr.Completeness
import InputDeck.Proofs.Expr.Statements
import InputDeck.Proofs.Expr.Tokens
import InputDeck.Proofs.Number.Doubles

/-!
# Reading written statements

A statement that assigns to a name is read as what it was written for: the tokens in front of the
sign are a target with that name, and are read as it. So what is read as a value, in a scope of any
names, is bound to the name.
-/

namespace InputDeck

open InputDeck.Number

/-- A text is read as a value that neither names nor prints anything. -/
def Reads (text : List Char) (v : Value) : Prop :=
  ∃ ts e, (∀ total, Token.tokensFrom total false text = .ok ts) ∧ Expr.parse ts = .ok (e, []) ∧
    ∀ scope output, e.eval scope output = .ok v output

/-- The key of an element that is written with a number. -/
theorem Target.key_number {path : String} {x : Float} {index : Nat} (hindex : index? x = some index)
    (scope : Scope) (output : List String) :
    (⟨path, some (.number x)⟩ : Target).key scope output = .ok (elementName path index) output := by
  change Printing.ofExcept (elementKey path _) output = _
  rw [elementKey_number hindex]
  rfl

namespace Interpreter

/-- Tokens and a target that a text stands for in front of the sign of an assignment. -/
structure IsWritten (us : List Token) (target : Target) (text : String) : Prop where
  /-- In front of the sign, the text is cut into the tokens. -/
  tokens : ∀ total value,
    Token.tokensFrom total false (text.toList ++ ' ' :: '=' :: ' ' :: value) =
      (Token.tokensFrom total false value).map (us ++ .symbol .assign :: ·)
  /-- The tokens are read as the target. -/
  parse : ∀ vs, Expr.parse (us ++ .symbol .assign :: vs) =
    .ok (target.toExpr, .symbol .assign :: vs)

/-- Tokens and a target that stand for a key in front of the sign of an assignment. -/
structure IsTargetOf (us : List Token) (target : Target) (key : String) : Prop
    extends IsWritten us target key where
  /-- The target has the key. -/
  key : ∀ scope output, target.key scope output = .ok key output

/-- A dotted name is a target. -/
theorem exists_target_name {key : String} (h : IsDottedName key.toList) (htrue : key ≠ "true")
    (hfalse : key ≠ "false") : ∃ us, IsTargetOf us ⟨key, none⟩ key := by
  obtain ⟨us, hpath, htokens⟩ := Token.tokensFrom_path h
  rw [String.ofList_toList] at hpath
  have hderives := (Expr.Derives.name hpath htrue hfalse).ofPrimary Level.all
  refine ⟨us, ⟨fun total value => ?_, fun vs => hderives.parse _ (.of_symbol rfl)⟩,
    fun scope output => rfl⟩
  rw [htokens (by rintro c ⟨⟩; decide), Token.tokensFrom_sign]
  cases Token.tokensFrom total false value <;> rfl

/-- An element of the vector with a dotted name is written as a target, whatever its index is. -/
theorem exists_isWritten_element {path : String} (h : IsDottedName path.toList)
    (htrue : path ≠ "true") (hfalse : path ≠ "false") (index : Nat) :
    ∃ us, IsWritten us ⟨path, some (.number (Float.ofScientific index false 0))⟩
      (elementName path index) := by
  obtain ⟨us, hpath, htokens⟩ := Token.tokensFrom_path h
  rw [String.ofList_toList] at hpath
  have hderives := (Expr.Derives.element hpath htrue hfalse ((Expr.Derives.number
    (Float.ofScientific index false 0)).ofPrimary Level.all)).ofPrimary Level.all
  refine ⟨_, fun total value => ?_, fun vs => hderives.parse _ (.of_symbol rfl)⟩
  have hsplit : (elementName path index).toList ++ ' ' :: '=' :: ' ' :: value = path.toList ++
      ('[' :: (natText index).toList ++ ']' :: ' ' :: '=' :: ' ' :: value) := by
    simp [elementName]
  rw [hsplit, htokens (by rintro c ⟨⟩; decide), Token.tokensFrom_index, Token.tokensFrom_sign]
  cases Token.tokensFrom total false value <;> simp [Except.map]

/-- An element of the vector with a dotted name is a target. -/
theorem exists_target_element {path : String} (h : IsDottedName path.toList)
    (htrue : path ≠ "true") (hfalse : path ≠ "false") {x : Float} {index : Nat}
    (hindex : index? x = some index) :
    ∃ us, IsTargetOf us ⟨path, some (.number (Float.ofScientific index false 0))⟩
      (elementName path index) := by
  obtain ⟨us, hus⟩ := exists_isWritten_element h htrue hfalse index
  exact ⟨us, hus, fun scope output => Target.key_number (index?_ofScientific hindex) scope output⟩

/-- Every name that can be assigned is the key of a target. -/
theorem exists_target {key : String} (h : IsAssignable key) :
    ∃ us target, IsTargetOf us target key := by
  cases h with
  | name h htrue hfalse =>
    obtain ⟨us, hus⟩ := exists_target_name h htrue hfalse
    exact ⟨us, _, hus⟩
  | element h htrue hfalse hindex =>
    obtain ⟨us, hus⟩ := exists_target_element h htrue hfalse hindex
    exact ⟨us, _, hus⟩

namespace IsWritten

variable {us ts : List Token} {target : Target} {text value : String}

/-- In front of the tokens of an expression, a target and the sign are read as its assignment. -/
theorem read_eq (h : IsWritten us target text)
    (hlex : ∀ total, Token.tokensFrom total false value.toList = .ok ts) {e : Expr}
    (hexpr : Expr.parse ts = .ok (e, [])) :
    read (text ++ " = " ++ value) = .ok (.assign target e) := by
  have hsplit : (text ++ " = " ++ value).toList =
      text.toList ++ ' ' :: '=' :: ' ' :: value.toList := by simp
  have hparse := (Statement.parse_assign_eq_ok_iff (h.parse ts)).2 ⟨e, hexpr, rfl⟩
  unfold read Token.ofText
  rw [hsplit, h.tokens, hlex]
  simp only [Except.map, bind, Except.bind]
  rw [hparse]
  rfl

/-- A target and the sign are read in front of the tokens of an expression only. -/
theorem of_read (h : IsWritten us target text) {statement : Statement}
    (hread : read (text ++ " = " ++ value) = .ok statement) :
    ∃ total ts e, Token.tokensFrom total false value.toList = .ok ts ∧
      Expr.parse ts = .ok (e, []) ∧ statement = .assign target e := by
  obtain ⟨tokens, htokens, hparse⟩ := read_eq_ok hread
  have hsplit : (text ++ " = " ++ value).toList =
      text.toList ++ ' ' :: '=' :: ' ' :: value.toList := by simp
  rw [Token.ofText, hsplit, h.tokens] at htokens
  obtain ⟨ts, hlex, rfl⟩ := Except.map_eq_ok_iff.1 htokens
  obtain ⟨e, hexpr, rfl⟩ := (Statement.parse_assign_eq_ok_iff (h.parse ts)).1 hparse
  exact ⟨_, ts, e, hlex, hexpr, rfl⟩

variable {key : String} {locals : Table Value} {vm after : Interpreter}

/-- A statement that assigns what is read as a value binds the key of its target to the value. -/
theorem interpret_eq (h : IsWritten us target text)
    (hkey : ∀ scope output, target.key scope output = .ok key output) {v : Value}
    (hvalue : Reads value.toList v) :
    interpret (text ++ " = " ++ value) locals vm =
      .ok (some key) { vm with globals := vm.globals.insert key v } := by
  obtain ⟨ts, e, hlex, hexpr, heval⟩ := hvalue
  rw [interpret_eq_some_iff]
  exact ⟨target, e, v, vm.output, vm.output, h.read_eq hlex hexpr, heval _ _, hkey _ _, rfl⟩

/-- A statement that assigns to a target with a key reports the key, and binds it. -/
theorem report_eq (h : IsWritten us target text)
    (hkey : ∀ scope output, target.key scope output = .ok key output) {report : Option String}
    (hrun : interpret (text ++ " = " ++ value) locals vm = .ok report after) :
    report = some key ∧ ∃ v, after.globals = vm.globals.insert key v := by
  cases report with
  | none =>
    obtain ⟨e, v, output, hread, -⟩ := interpret_eq_none_iff.1 hrun
    obtain ⟨_, _, _, -, -, hassign⟩ := h.of_read hread
    cases hassign
  | some reported =>
    obtain ⟨target', e, v, output, last, hread, -, hreported, rfl⟩ :=
      interpret_eq_some_iff.1 hrun
    obtain ⟨_, _, _, -, -, hassign⟩ := h.of_read hread
    cases hassign
    rw [hkey] at hreported
    cases hreported
    exact ⟨rfl, v, rfl⟩

end IsWritten

/-- A statement that assigns what is read as a value binds its name to the value. -/
theorem interpret_of_reads {key value : String} {v : Value} (hkey : IsAssignable key)
    (hvalue : Reads value.toList v) (locals : Table Value) (vm : Interpreter) :
    interpret (key ++ " = " ++ value) locals vm =
      .ok (some key) { vm with globals := vm.globals.insert key v } := by
  obtain ⟨us, target, htarget⟩ := exists_target hkey
  exact htarget.interpret_eq htarget.key hvalue

end Interpreter

end InputDeck
