import InputDeck.Proofs.Compile.Simulation
import InputDeck.Proofs.Expr.Statements

/-!
# One notion of assignment

A line is told from an expression by a scan of its characters, a statement by its tokens and the
grammar. The two agree on every text: what the scan takes for an expression assigns nothing, what it
makes an assignment of is never read as an expression, and when a text is read as an assignment, the
scan finds the very sign that the parser takes.
-/

namespace InputDeck

open InputDeck.Text InputDeck.Scan

/-- When a text is read as an assignment, the scan for the sign stops where the parser takes it. -/
theorem Interpreter.sign_of_read {text : String} {target : Target} {value : Expr}
    (h : read text = .ok (.assign target value)) :
    ∃ front offset back,
      Token.placed text = .ok (front ++ (.symbol .assign, offset) :: back) ∧
      Expr.parse ((front ++ (.symbol .assign, offset) :: back).map Prod.fst) =
        .ok (target.toExpr, .symbol .assign :: back.map Prod.fst) ∧
      Expr.parse (back.map Prod.fst) = .ok (value, []) ∧
      (cutAssignment none {} text.toList).map (fun parts => byteLength parts.1) = some offset := by
  obtain ⟨ts, htokens, hparse⟩ := read_eq_ok h
  obtain ⟨us, vs, rfl, hleft, hright, htarget, -⟩ := Statement.parse_eq_assign hparse
  -- The placed tokens are the parsed ones, so they split at the sign as these do.
  rw [Token.ofText, ← Token.map_placedFrom text.length false 0] at htokens
  obtain ⟨placed, hplaced, hmap⟩ := Except.map_eq_ok_iff.1 htokens
  obtain ⟨front, others, rfl, rfl, hothers⟩ := List.map_eq_append_iff.1 hmap
  obtain ⟨⟨sign, offset⟩, back, rfl, rfl, rfl⟩ := List.map_eq_cons_iff.1 hothers
  refine ⟨front, offset, back, hplaced, by simpa using hleft, hright, ?_⟩
  obtain ⟨before, used, rest, hsplit, hoffset, hfront, hused, hrest⟩ :=
    Token.exists_of_placedFrom hplaced
  cases hused with
  | symbol =>
    have hcut := hfront.cutAssignment_assign htarget.assign_notMem
      (fun _ => htarget.isOperand.endsOperand) (hrest rfl)
    have htext : text.toList = before ++ '=' :: rest := hsplit
    rw [htext, hcut, Option.map_some, hoffset, Nat.zero_add]

namespace CardLine

/-- What the reader of lines and the interpreter have in common about a text. -/
structure Agreement (text : String) : Prop where
  /-- What goes to the evaluator as it is reports no name and leaves the globals alone, whether it
  succeeds or fails. -/
  expression : ∀ {location : Location} {statement : String},
    ofText text location = .ok (.expression statement) →
    statement = text ∧ ∀ (locals : Table Value) (vm : Interpreter),
      match Interpreter.interpret text locals vm with
      | .ok report after => report = none ∧ after.globals = vm.globals
      | .error _ after => after.globals = vm.globals
  /-- Every other line sends its pairs, as assignments to the current suit, until one fails. -/
  sent : ∀ {line : LogicalLine} {p : Progress Interpreter} {card : CardLine}, line.text = text →
    ofText text (p.cursor.locate line.number) = .ok card →
    (∀ statement, card ≠ .expression statement) →
    Progress.compileCardLine line p =
      match card.pairs (p.cursor.locate line.number) p.existingLength? with
      | .error e => .error e p
      | .ok pairs => Progress.assignAll (p.cursor.locate line.number) line.comment pairs p
  /-- None of these assignments is taken for an expression, in any suit. -/
  assignment : ∀ {location : Location} {existing : String → Option Nat} {card : CardLine}
    {pairs : List (String × String)}, ofText text location = .ok card →
    card.pairs location existing = .ok pairs → ∀ pair ∈ pairs, ∀ (suit : SuitPath)
      (locals : Table Value) (vm after : Interpreter),
      Interpreter.interpret (Progress.assignment suit pair.1 pair.2) locals vm ≠ .ok none after
  /-- When the text is read as an assignment, the sign that the parser takes behind the target is
  the one that the line is cut at. -/
  sign : ∀ {target : Target} {value : Expr},
    Interpreter.read text = .ok (.assign target value) →
    ∃ front offset back,
      Token.placed text = .ok (front ++ (.symbol .assign, offset) :: back) ∧
      Expr.parse ((front ++ (.symbol .assign, offset) :: back).map Prod.fst) =
        .ok (target.toExpr, .symbol .assign :: back.map Prod.fst) ∧
      Expr.parse (back.map Prod.fst) = .ok (value, []) ∧
      (cutAssignment none {} text.toList).map (fun parts => byteLength parts.1) = some offset

/-- The reader of lines and the interpreter agree on every text. -/
theorem agreement (text : String) : Agreement text where
  expression := by
    intro location statement h
    obtain ⟨rfl, hcut⟩ := isPart_of_ofText h
    refine ⟨rfl, fun locals vm => ?_⟩
    split
    · next report after hrun =>
      cases report with
      | none => exact ⟨rfl, Interpreter.globals_of_interpret_none hrun⟩
      | some key => exact absurd hrun (Interpreter.interpret_ne_some_of_cutAssignment hcut key)
    · next e after hrun => exact Interpreter.globals_of_interpret_error hrun
  sent := by
    rintro line p card rfl hcard hassigns
    exact Progress.compileCardLine_of_card hcard hassigns
  assignment := by
    intro location existing card pairs hcard hpairs pair hpair suit locals vm after
    have hvalue := ((isPart_of_ofText hcard).pairs hpairs pair hpair).2
    exact Interpreter.interpret_ne_none_of_quotesPaired hvalue.paired
  sign := Interpreter.sign_of_read

/-- A text whose sign is not its first one: the sign of an index comes before it. -/
example : (cutAssignment none {} "v[a == 1] = \"=\"".toList).map (fun parts => byteLength parts.1) =
    some 10 := by decide

end CardLine

end InputDeck
