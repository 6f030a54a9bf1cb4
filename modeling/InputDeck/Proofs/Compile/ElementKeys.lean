import InputDeck.Proofs.Compile.Isolation
import InputDeck.Proofs.Compile.KnownVectors
import InputDeck.Proofs.Number.Rounding
import InputDeck.Proofs.Value.Reading

/-!
# Keys of elements

Lists and slices number the elements of a vector by machine words, but the evaluator reads an index
as it reads every number, as a double. So an element is kept under the index that the nearest double
holds. These are the same for all indices of at most fifty-three bits; behind them there are
neighbours that share an element.
-/

namespace InputDeck

open InputDeck.Number

namespace Interpreter

/-- How a statement assigns a text to the element of a vector with an index. -/
structure AssignsElement (statement text vector : String) (index : Nat) : Prop where
  /-- Whenever the statement is taken, it reports the element and binds no other global. -/
  report : ∀ (locals : Table Value) (vm after : Interpreter) (report : Option String),
    interpret statement locals vm = .ok report after →
      report = some (elementName vector index) ∧
        ∃ v, after.globals = vm.globals.insert (elementName vector index) v
  /-- It is taken when the vector has a dotted name and the text is read as a value. -/
  taken : IsDottedName vector.toList → vector ≠ "true" → vector ≠ "false" →
    ∀ v, Reads text.toList v → ∀ (locals : Table Value) (vm : Interpreter),
      interpret statement locals vm = .ok (some (elementName vector index))
        { vm with globals := vm.globals.insert (elementName vector index) v }

/-- The key of an element that is written with the digits of a machine word. -/
theorem key_of_lt {path : String} {n : Nat} (hn : n < wordLimit) (scope : Scope)
    (output : List String) :
    (⟨path, some (.number (Float.ofScientific n false 0))⟩ : Target).key scope output =
      .ok (elementName path (heldIndex n)) output :=
  Target.key_number (index?_ofScientific_of_lt hn) scope output

/-- What is read as a value is assigned to the element with the held index. -/
theorem interpret_elementName {path value : String} {v : Value} {n : Nat}
    (hpath : IsDottedName path.toList) (htrue : path ≠ "true") (hfalse : path ≠ "false")
    (hn : n < wordLimit) (hvalue : Reads value.toList v) (locals : Table Value)
    (vm : Interpreter) :
    interpret (elementName path n ++ " = " ++ value) locals vm =
      .ok (some (elementName path (heldIndex n)))
        { vm with globals := vm.globals.insert (elementName path (heldIndex n)) v } := by
  obtain ⟨us, hus⟩ := exists_isWritten_element hpath htrue hfalse n
  exact hus.interpret_eq (key_of_lt hn) hvalue

/-- A statement that assigns to an element of a suit without blanks reports the element with the
held index, and binds it. -/
theorem report_elementName {suit : SuitPath} (hsuit : suit.IsUnbroken) {base value : String}
    {n : Nat} (hn : n < wordLimit) (hname : Scan.IsClosed (elementName base n).toList)
    (hvalue : Scan.QuotesPaired value.toList) {locals : Table Value} {vm after : Interpreter}
    {report : Option String}
    (hrun : interpret (suit.qualify (elementName base n) ++ " = " ++ value) locals vm =
      .ok report after) :
    report = some (elementName (suit.qualify base) (heldIndex n)) ∧
      ∃ v, after.globals = vm.globals.insert (elementName (suit.qualify base) (heldIndex n)) v := by
  cases report with
  | none => exact absurd hrun (interpret_ne_none_of_quotesPaired hvalue)
  | some key =>
    obtain ⟨target, ts, hspelled, htarget, -⟩ := exists_target_of_interpret hvalue hrun
    have htext : suit.globalPrefix.toList ++ (elementName base n).toList =
        (elementName (suit.qualify base) n).toList := by
      rw [SuitPath.elementName_qualify, SuitPath.qualify, String.toList_append]
    have hblank : ∀ c ∈ (elementName (suit.qualify base) n).toList, Text.isBlank c = false := by
      rw [← htext]
      exact fun c hc =>
        (List.mem_append.1 hc).elim (hsuit.isBlank_globalPrefix c) (hname.unbroken c)
    rw [htext] at hspelled
    -- The path of the target is what is written in front of the index, so it is a dotted name.
    have hself : target.toExpr.target? = some target := Expr.target?_eq_some_iff.2 rfl
    obtain ⟨hpath, htrue, hfalse⟩ :=
      htarget.isDottedName_path hself hspelled (List.Subset.refl _)
    rw [htarget.path_eq_of_elementName hself hspelled hblank] at hpath htrue hfalse
    obtain ⟨us, hus⟩ := exists_isWritten_element hpath htrue hfalse n
    rw [← SuitPath.elementName_qualify] at hrun
    exact hus.report_eq (key_of_lt hn) hrun

/-- Whatever is assigned to an element of a suit without blanks goes to the element with the held
index. -/
theorem assignsElement_assignment {suit : SuitPath} (hsuit : suit.IsUnbroken)
    {base value : String} {n : Nat} (hn : n < wordLimit)
    (hname : Scan.IsClosed (elementName base n).toList)
    (hvalue : Scan.QuotesPaired value.toList) :
    AssignsElement (Progress.assignment suit (elementName base n) value) value
      (suit.qualify base) (heldIndex n) where
  report _ _ _ _ hrun := report_elementName hsuit hn hname hvalue hrun
  taken hpath htrue hfalse v hreads locals vm := by
    rw [Progress.assignment, ← SuitPath.elementName_qualify]
    exact interpret_elementName hpath htrue hfalse hn hreads locals vm

end Interpreter

namespace Progress

/-- Every element that a line assigns to, behind any lines, is assigned under its held index. -/
theorem assignsElement_of_mem_pairs {settings : Settings} {vm : Interpreter}
    {front : List LogicalLine} {p : Progress Interpreter}
    (hfront : compileLines settings front { engine := vm } = .ok () p)
    {text : String} {location : Location} {existing : String → Option Nat} {card : CardLine}
    (hcard : CardLine.ofText text location = .ok card) {pairs : List (String × String)}
    (hpairs : card.pairs location existing = .ok pairs) {base value : String} {n : Nat}
    (hn : n < wordLimit) (hpair : (elementName base n, value) ∈ pairs) :
    Interpreter.AssignsElement (assignment p.cursor.current (elementName base n) value) value
      (p.cursor.current.qualify base) (heldIndex n) := by
  have hcursor : p.cursor.IsUnbroken := isUnbroken_of_compileLines .default hfront
  exact Interpreter.assignsElement_assignment hcursor.current hn
    ((CardLine.hasClosedName_of_ofText hcard).pairs hpairs _ hpair)
    ((CardLine.isPart_of_ofText hcard).pairs hpairs _ hpair).2.paired

end Progress

/-- An element that is written with a number of machine words is assigned under the index that is
held for the number: the nearest whole number that a double holds, but no more than a machine word
holds. It is the number itself exactly when a double stands for this index, as for all numbers of at
most fifty-three bits, and different held indices address different elements. The elements that
lists and slices assign to are kept in the same way: whenever the statement is taken, as it is when
the vector has a dotted name and the value is read. -/
theorem element_addresses {path : String} (hpath : IsDottedName path.toList)
    (htrue : path ≠ "true") (hfalse : path ≠ "false") {n : Nat} (hn : n < wordLimit) :
    (∀ (locals : Table Value) (vm : Interpreter),
      Interpreter.interpret (elementName path n ++ " = 1") locals vm =
        .ok (some (elementName path (heldIndex n)))
          { vm with globals := vm.globals.insert (elementName path (heldIndex n)) (.number 1) }) ∧
    (heldIndex n = min (nearestHeld n) (wordLimit - 1) ∧
      (∃ x, (Binary64.ofFloat x).whole? = some (nearestHeld n)) ∧
      ∀ x m, (Binary64.ofFloat x).whole? = some m → Nat.dist n (nearestHeld n) ≤ Nat.dist n m) ∧
    ((heldIndex n = n ↔ ∃ x, index? x = some n) ∧ (n ≤ 2 ^ 53 → heldIndex n = n)) ∧
    (∀ m, elementName path (heldIndex m) = elementName path (heldIndex n) ↔
      heldIndex m = heldIndex n) ∧
    ∀ (settings : Settings) (vm : Interpreter) (front : List LogicalLine)
      (p : Progress Interpreter), Progress.compileLines settings front { engine := vm } = .ok () p →
      ∀ (text : String) (location : Location) (existing : String → Option Nat) (card : CardLine)
        (pairs : List (String × String)), CardLine.ofText text location = .ok card →
        card.pairs location existing = .ok pairs →
        ∀ base value, (elementName base n, value) ∈ pairs →
          Interpreter.AssignsElement
            (Progress.assignment p.cursor.current (elementName base n) value) value
            (p.cursor.current.qualify base) (heldIndex n) := by
  refine ⟨fun locals vm => ?_, ⟨rfl, ?_, fun x m h => Binary64.dist_nearestHeld_le h n⟩,
    ⟨heldIndex_eq_self_iff hn, heldIndex_of_le⟩, fun m => elementName_right_inj, ?_⟩
  · have hone : Reads "1".toList (.number 1) := reads_toDigits 1 false
    rw [← Interpreter.interpret_elementName hpath htrue hfalse hn hone, String.append_assoc]
    rfl
  · exact ⟨_, whole?_ofScientific_of_lt hn⟩
  · intro settings vm front p hfront text location existing card pairs hcard hpairs base value hpair
    exact Progress.assignsElement_of_mem_pairs hfront hcard hpairs hn hpair

/-- The first number that no double holds addresses the element in front of it, in the root and from
a slice of a suit. -/
theorem element_addresses_first_not_held :
    (∀ (locals : Table Value) (vm : Interpreter),
      Interpreter.interpret "v[9007199254740993] = 1" locals vm =
        .ok (some "v[9007199254740992]")
          { vm with globals := vm.globals.insert "v[9007199254740992]" (.number 1) }) ∧
    ∃ p : Progress Interpreter,
      Progress.compileLines {} [⟨"<s>", 1, none⟩] { engine := ({} : Interpreter) } = .ok () p ∧
      CardLine.ofText "w[9007199254740993:9007199254740994] = 1" ⟨2, .root⟩ =
        .ok (.slice "w[9007199254740993:9007199254740994]" "1") ∧
      Interpreter.AssignsElement "s.w[9007199254740993] = 1" "1" "s.w" 9007199254740992 ∧
      ∀ (locals : Table Value) (vm : Interpreter),
        Interpreter.interpret "s.w[9007199254740993] = 1" locals vm =
          .ok (some "s.w[9007199254740992]")
            { vm with globals := vm.globals.insert "s.w[9007199254740992]" (.number 1) } := by
  have hheld : heldIndex 9007199254740993 = 9007199254740992 := by decide +kernel
  have hdotted : IsDottedName "v".toList := .segment (show Token.IsSegment ['v'] by decide)
  obtain ⟨hreport, -, -, -, hlines⟩ := element_addresses (n := 9007199254740993) hdotted
    (by decide) (by decide) (by decide)
  rw [hheld] at hreport hlines
  obtain ⟨⟨⟩, p, hfront, hcurrent⟩ := EStateM.Result.exists_of_passes
    (Progress.compileLines {} [⟨"<s>", 1, none⟩] { engine := ({} : Interpreter) })
    (fun _ p => decide (p.cursor.current = .ofString "s")) (by decide +kernel)
  have hcard : CardLine.ofText "w[9007199254740993:9007199254740994] = 1" ⟨2, .root⟩ =
      .ok (.slice "w[9007199254740993:9007199254740994]" "1") :=
    Except.toOption_eq_some_iff.1 (by decide +kernel)
  have hpairs : CardLine.pairs ⟨2, .root⟩ (fun _ => none)
      (.slice "w[9007199254740993:9007199254740994]" "1") = .ok [("w[9007199254740993]", "1")] :=
    Except.toOption_eq_some_iff.1 (by decide +kernel)
  have hassigns := hlines _ _ _ _ hfront _ _ _ _ _ hcard hpairs "w" "1" List.mem_cons_self
  rw [of_decide_eq_true hcurrent] at hassigns
  have hvector : IsDottedName ((SuitPath.ofString "s").qualify "w").toList :=
    .dot (.segment (show Token.IsSegment ['s'] by decide)) (show Token.IsSegment ['w'] by decide)
  exact ⟨hreport, p, hfront, hcard, hassigns,
    hassigns.taken hvector (by decide) (by decide) _ (reads_toDigits 1 false)⟩

/-- A statement can assign to another element than the one it names, so that two indices address
one element, and an element of a slice is not kept under its name. A truth value has no elements. -/
theorem neighbours_share_element :
    elementName "v" 9007199254740993 = "v[9007199254740993]" ∧
    ∃ vm : Interpreter,
      Interpreter.interpret "v[9007199254740993] = 1" ∅ {} = .ok (some "v[9007199254740992]") vm ∧
      Interpreter.interpret "v[9007199254740992] = 1" ∅ {} = .ok (some "v[9007199254740992]") vm ∧
      vm.globals.keys = ["v[9007199254740992]"] ∧
      ((Progress.compileLines {} [⟨"v[9007199254740993:9007199254740994] = 1", 1, none⟩]
        { engine := ({} : Interpreter) }).passes fun _ p =>
          decide (p.engine.globals.keys = ["v[9007199254740992]"])) = true ∧
      ∀ key after, Interpreter.interpret "true[0] = 1" ∅ {} ≠ .ok (some key) after := by
  have hdotted : IsDottedName "v".toList := .segment (show Token.IsSegment ['v'] by decide)
  have hone : Reads "1".toList (.number 1) := reads_toDigits 1 false
  have hodd := Interpreter.interpret_elementName (n := 9007199254740993) hdotted (by decide)
    (by decide) (by decide) hone ∅ {}
  have heven := Interpreter.interpret_elementName (n := 9007199254740992) hdotted (by decide)
    (by decide) (by decide) hone ∅ {}
  rw [show heldIndex 9007199254740993 = 9007199254740992 by decide +kernel] at hodd
  rw [show heldIndex 9007199254740992 = 9007199254740992 by decide +kernel] at heven
  refine ⟨by decide, _, hodd, heven, by decide +kernel, by decide +kernel, fun key after h => ?_⟩
  have hfails : (Interpreter.read "true[0] = 1").toOption.isNone = true := by decide +kernel
  obtain ⟨statement, hread⟩ := Interpreter.exists_read_of_interpret h
  rw [hread] at hfails
  cases hfails

end InputDeck
