import InputDeck.Compilation
import InputDeck.Proofs.Text.CardLines
import Mathlib.Data.List.Forall2

/-!
# Compilations that go alike

Two compilations, perhaps with different evaluators, go alike from related states when the relation
shows them the same cursor and the same vectors, and is kept by statements, bindings and headers.
Then they fail together or succeed in related states, line by line.
-/

namespace InputDeck

namespace SuitCursor

/-- Where a header stands decides nothing but how its failures are located. -/
theorem toOption_enter (settings : Settings) (cursor : SuitCursor) (text : String)
    (line other : Nat) :
    (cursor.enter settings text line).toOption = (cursor.enter settings text other).toOption := by
  unfold enter
  split
  · rfl
  · dsimp only
    split
    · rfl
    · split
      · split <;> rfl
      · rfl

end SuitCursor

namespace CardLine

/-- The names that a line assigns to, each with the value that it gets; a line that goes to the
evaluator as it is has none. -/
def pairs (location : Location) (existing : String → Option Nat) :
    CardLine → Except DeckError (List (String × String))
  | expression _ => .ok []
  | scalar name value => .ok [(name, value)]
  | vector name values => .ok (Progress.elementAssignments name values)
  | slice name value => Slice.expand location existing name value

/-- All that a line assigns is made of parts of it. -/
theorem IsPart.pairs {text : String} {card : CardLine} (h : card.IsPart text) {location : Location}
    {existing : String → Option Nat} {pairs : List (String × String)}
    (hpairs : card.pairs location existing = .ok pairs) :
    ∀ pair ∈ pairs,
      Scan.IsPart text.toList pair.1.toList ∧ Scan.IsPart text.toList pair.2.toList := by
  cases card with
  | expression statement =>
    obtain rfl := Except.ok.inj hpairs
    simp
  | scalar name value =>
    obtain rfl := Except.ok.inj hpairs
    simpa [IsPart] using h
  | vector name values =>
    obtain rfl := Except.ok.inj hpairs
    intro pair hpair
    obtain ⟨⟨value, index⟩, hvalue, rfl⟩ := List.mem_map.1 hpair
    refine ⟨?_, h.2 value (List.fst_mem_of_mem_zipIdx hvalue)⟩
    have hname := h.1.append (.index text.toList index)
    simpa [elementName] using hname
  | slice name value => exact Slice.isPart_of_expand h.1 h.2 hpairs

end CardLine

namespace Progress

open EStateM (Result)

variable {σ τ : Type}

/-- The state behind a header that leads to a cursor. -/
def entered (progress : Progress σ) (cursor : SuitCursor) : Progress σ :=
  let suits := progress.compiled.suits
  { progress with
    cursor := cursor
    locals := ∅
    compiled := { progress.compiled with
      suits := if cursor.current ∈ suits then suits else suits ++ [cursor.current] } }

/-- The state behind a statement that the evaluator ran. -/
def sent (progress : Progress σ) (engine : σ) : Progress σ :=
  { progress with
    engine := engine
    compiled := { progress.compiled with statements := progress.compiled.statements + 1 } }

/-- A header is entered exactly when it leads to a cursor. -/
theorem enter_apply (settings : Settings) (line : LogicalLine) (progress : Progress σ) :
    enter settings line progress =
      match progress.cursor.enter settings line.text line.number with
      | .error e => .error e progress
      | .ok cursor => .ok () (progress.entered cursor) := by
  unfold enter
  rw [EStateM.get_bind_apply]
  split
  · next h =>
    simp only [h]
    rfl
  · next h =>
    simp only [h]
    rfl

/-- A header is entered with success exactly when it leads to a cursor. -/
theorem enter_eq_ok_iff {settings : Settings} {line : LogicalLine} {p q : Progress σ} :
    enter settings line p = .ok () q ↔
      ∃ cursor, p.cursor.enter settings line.text line.number = .ok cursor ∧
        q = p.entered cursor := by
  rw [enter_apply]
  constructor
  · intro h
    split at h
    · cases h
    · next cursor hcursor =>
      cases h
      exact ⟨cursor, hcursor, rfl⟩
  · rintro ⟨cursor, hcursor, rfl⟩
    rw [hcursor]

variable [Evaluator σ] [Evaluator τ]

/-- A statement that is sent ends as the evaluator ends it. -/
theorem send_apply (statement : String) (location : Location) (hint : Option String)
    (p : Progress σ) :
    send statement location hint p =
      match Evaluator.interpret statement p.locals p.engine with
      | .ok report engine => .ok report (p.sent engine)
      | .error cause engine =>
        .error (.expression (some location) statement hint cause) (p.sent engine) := rfl

/-- A statement is sent with success exactly when the evaluator runs it. -/
theorem send_eq_ok_iff {statement : String} {location : Location} {hint report : Option String}
    {p q : Progress σ} :
    send statement location hint p = .ok report q ↔
      ∃ engine, Evaluator.interpret statement p.locals p.engine = .ok report engine ∧
        q = p.sent engine := by
  rw [send_apply]
  constructor
  · intro h
    split at h
    · next engine hrun =>
      cases h
      exact ⟨engine, hrun, rfl⟩
    · cases h
  · rintro ⟨engine, hrun, rfl⟩
    rw [hrun]

/-- An assignment succeeds exactly when the evaluator runs its statement. The name that is bound is
the one that the evaluator reports, or else the name in full. -/
theorem assign_eq_ok_iff {name value : String} {location : Location} {comment : Option String}
    {p q : Progress σ} :
    assign name value location comment p = .ok () q ↔
      ∃ report engine, Evaluator.interpret (assignment p.cursor.current name value) p.locals
          p.engine = .ok report engine ∧
        q = (p.sent engine).bind name (report.getD (p.cursor.current.qualify name))
          ⟨location.line, comment⟩ := by
  unfold assign
  rw [EStateM.get_bind_apply, EStateM.bind_eq_ok_iff]
  constructor
  · rintro ⟨report, middle, hsend, h⟩
    obtain ⟨engine, hrun, rfl⟩ := send_eq_ok_iff.1 hsend
    cases h
    exact ⟨report, engine, hrun, rfl⟩
  · rintro ⟨report, engine, hrun, rfl⟩
    exact ⟨report, p.sent engine, send_eq_ok_iff.2 ⟨engine, hrun, rfl⟩, rfl⟩

/-- A malformed line fails with nothing sent. -/
theorem compileCardLine_of_error {line : LogicalLine} {p : Progress σ} {e : DeckError}
    (hcard : CardLine.ofText line.text (p.cursor.locate line.number) = .error e) :
    compileCardLine line p = .error e p := by
  unfold compileCardLine
  rw [EStateM.get_bind_apply, hcard]
  rfl

/-- A line without an assignment sign is sent as it is. -/
theorem compileCardLine_of_expression {line : LogicalLine} {p : Progress σ} {text : String}
    (hcard : CardLine.ofText line.text (p.cursor.locate line.number) = .ok (.expression text)) :
    compileCardLine line p =
      (do let _ ← send text (p.cursor.locate line.number) (some missingEqualsHint)) p := by
  unfold compileCardLine
  rw [EStateM.get_bind_apply, hcard]

/-- A line that assigns sends its assignments one after the other. -/
theorem compileCardLine_of_card {line : LogicalLine} {p : Progress σ} {card : CardLine}
    (hcard : CardLine.ofText line.text (p.cursor.locate line.number) = .ok card)
    (hassigns : ∀ text, card ≠ .expression text) :
    compileCardLine line p =
      match card.pairs (p.cursor.locate line.number) p.existingLength? with
      | .error e => .error e p
      | .ok pairs => assignAll (p.cursor.locate line.number) line.comment pairs p := by
  unfold compileCardLine
  rw [EStateM.get_bind_apply, hcard]
  cases card with
  | expression text => exact absurd rfl (hassigns text)
  | scalar name value =>
    dsimp only [CardLine.pairs, assignAll]
    rw [EStateM.bind_apply]
    cases assign name value (p.cursor.locate line.number) line.comment p <;> rfl
  | vector name values => rfl
  | slice name value =>
    dsimp only [CardLine.pairs]
    split
    · next h =>
      rw [h]
      rfl
    · next h => rw [h]

/-- A line that is no header and assigns is its assignments, sent one after the other. -/
theorem compileLine_of_pairs {settings : Settings} {line : LogicalLine} {p : Progress σ}
    {card : CardLine} {pairs : List (String × String)}
    (hheader : SuitCursor.isHeader settings line.text = false)
    (hcard : CardLine.ofText line.text (p.cursor.locate line.number) = .ok card)
    (hassigns : ∀ text, card ≠ .expression text)
    (hpairs : card.pairs (p.cursor.locate line.number) p.existingLength? = .ok pairs) :
    compileLine settings line p =
      assignAll (p.cursor.locate line.number) line.comment pairs p := by
  rw [compileLine, if_neg (by simp [hheader]), compileCardLine_of_card hcard hassigns, hpairs]

/-- A line that assigns one value to one name binds the name that the evaluator reports. -/
theorem compileLine_of_scalar {settings : Settings} {line : LogicalLine} {p : Progress σ}
    {name value key : String} {engine : σ}
    (hheader : SuitCursor.isHeader settings line.text = false)
    (hcard : CardLine.ofText line.text (p.cursor.locate line.number) = .ok (.scalar name value))
    (hrun : Evaluator.interpret (assignment p.cursor.current name value) p.locals p.engine =
      .ok (some key) engine) :
    compileLine settings line p =
      .ok () ((p.sent engine).bind name key ⟨line.number, line.comment⟩) := by
  rw [compileLine, hheader, if_neg (by simp), compileCardLine, EStateM.get_bind_apply, hcard]
  exact assign_eq_ok_iff.2 ⟨some key, engine, hrun, rfl⟩

/-- A line that is no suit header and succeeds goes to the evaluator as it is, when it has no
assignment sign, or is a sequence of assignments of parts of the line to parts of it. -/
theorem compileCardLine_cases {line : LogicalLine} {p q : Progress σ}
    (h : compileCardLine line p = .ok () q) :
    (Scan.cutAssignment none {} line.text.toList = none ∧
      ∃ report, send line.text (p.cursor.locate line.number) (some missingEqualsHint) p =
        .ok report q) ∨
    Scan.cutAssignment none {} line.text.toList ≠ none ∧
      ∃ pairs : List (String × String), (∀ pair ∈ pairs,
          Scan.IsPart line.text.toList pair.1.toList ∧ Scan.IsPart line.text.toList pair.2.toList) ∧
        assignAll (p.cursor.locate line.number) line.comment pairs p = .ok () q := by
  cases hcard : CardLine.ofText line.text (p.cursor.locate line.number) with
  | error e =>
    rw [compileCardLine_of_error hcard] at h
    cases h
  | ok card =>
    have hpart := CardLine.isPart_of_ofText hcard
    by_cases hexpression : ∃ text, card = .expression text
    · obtain ⟨text, rfl⟩ := hexpression
      obtain ⟨rfl, hcut⟩ := hpart
      rw [compileCardLine_of_expression hcard] at h
      obtain ⟨report, middle, hsend, h⟩ := EStateM.bind_eq_ok_iff.1 h
      cases h
      exact .inl ⟨hcut, report, hsend⟩
    · have hassigns : ∀ text, card ≠ .expression text := fun text he => hexpression ⟨text, he⟩
      rw [compileCardLine_of_card hcard hassigns] at h
      split at h
      · cases h
      · next pairs hpairs =>
        refine .inr ⟨fun hcut => ?_, pairs, hpart.pairs hpairs, h⟩
        rw [CardLine.ofText, hcut] at hcard
        exact hassigns _ (Except.ok.inj hcard).symm

/-- A line that succeeds is a header that leads to a cursor, or succeeds in the current suit. -/
theorem compileLine_cases {settings : Settings} {line : LogicalLine} {p q : Progress σ}
    (h : compileLine settings line p = .ok () q) :
    (SuitCursor.isHeader settings line.text = true ∧
      ∃ cursor, p.cursor.enter settings line.text line.number = .ok cursor ∧
        q = p.entered cursor) ∨
    SuitCursor.isHeader settings line.text = false ∧ compileCardLine line p = .ok () q := by
  unfold compileLine at h
  split at h
  · next hheader => exact .inl ⟨hheader, enter_eq_ok_iff.1 h⟩
  · next hheader => exact .inr ⟨eq_false_of_ne_true hheader, h⟩

/-- A relation between the states of two compilations that a pair of lines keeps. -/
structure Simulates (R : Progress σ → Progress τ → Prop) (line other : LogicalLine) : Prop where
  /-- The lines have the same text. -/
  text : line.text = other.text
  /-- The lines have the same comment. -/
  comment : line.comment = other.comment
  /-- Related states have the same cursor. -/
  cursor : ∀ {p q}, R p q → p.cursor = q.cursor
  /-- Related states know the same vectors. -/
  existing : ∀ {p q}, R p q → p.existingLength? = q.existingLength?
  /-- A statement does the same in related states. -/
  send : ∀ {p q}, R p q → ∀ statement here there hint,
    Result.Agree R (Progress.send statement here hint p) (Progress.send statement there hint q)
  /-- A binding keeps states related. -/
  bind : ∀ {p q}, R p q → ∀ name key comment,
    R (p.bind name key ⟨line.number, comment⟩) (q.bind name key ⟨other.number, comment⟩)
  /-- A header keeps states related. -/
  enter : ∀ {p q}, R p q → ∀ cursor, R (p.entered cursor) (q.entered cursor)

namespace Simulates

variable {R : Progress σ → Progress τ → Prop} {line other : LogicalLine} {p : Progress σ}
  {q : Progress τ}

/-- An assignment does the same in related states. -/
theorem assign (h : Simulates R line other) (hpq : R p q) {here there : Location}
    (hhere : here.line = line.number) (hthere : there.line = other.number) (name value : String)
    (comment : Option String) :
    Result.Agree R (Progress.assign name value here comment p)
      (Progress.assign name value there comment q) := by
  unfold Progress.assign
  rw [EStateM.get_bind_apply, EStateM.get_bind_apply, h.cursor hpq]
  refine (h.send hpq _ here there none).bind fun key s t hst => ?_
  rw [hhere, hthere]
  exact .ok (h.bind hst _ _ _)

/-- Assignments one after the other do the same in related states. -/
theorem assignAll (h : Simulates R line other) (hpq : R p q) {here there : Location}
    (hhere : here.line = line.number) (hthere : there.line = other.number)
    (comment : Option String) (pairs : List (String × String)) :
    Result.Agree R (Progress.assignAll here comment pairs p)
      (Progress.assignAll there comment pairs q) := by
  induction pairs generalizing p q comment with
  | nil => exact .ok hpq
  | cons pair pairs ih =>
    exact (h.assign hpq hhere hthere _ _ _).bind fun _ s t hst => ih hst none

/-- A line that is no suit header does the same in related states. -/
theorem compileCardLine (h : Simulates R line other) (hpq : R p q) :
    Result.Agree R (Progress.compileCardLine line p) (Progress.compileCardLine other q) := by
  unfold Progress.compileCardLine
  rw [EStateM.get_bind_apply, EStateM.get_bind_apply, h.cursor hpq, ← h.text, ← h.comment,
    h.existing hpq]
  obtain ⟨card, hleft, hright⟩ | ⟨e, d, hleft, hright⟩ :=
    Except.eq_ok_or_eq_error_of_toOption_eq (CardLine.toOption_ofText line.text
      (q.cursor.locate line.number) (q.cursor.locate other.number))
  · rw [hleft, hright]
    cases card with
    | expression text =>
      exact (h.send hpq _ _ _ _).bind fun _ s t hst => .ok hst
    | scalar name value => exact h.assign hpq rfl rfl _ _ _
    | vector name values => exact h.assignAll hpq rfl rfl _ _
    | slice name value =>
      dsimp only
      obtain ⟨pairs, hhere, hthere⟩ | ⟨e, d, hhere, hthere⟩ :=
        Except.eq_ok_or_eq_error_of_toOption_eq (Slice.toOption_expand
          (q.cursor.locate line.number) (q.cursor.locate other.number) q.existingLength? name value)
      · rw [hhere, hthere]
        exact h.assignAll hpq rfl rfl _ _
      · rw [hhere, hthere]
        exact .error
  · rw [hleft, hright]
    exact .error

/-- A line does the same in related states. -/
theorem compileLine (h : Simulates R line other) (hpq : R p q) (settings : Settings) :
    Result.Agree R (Progress.compileLine settings line p)
      (Progress.compileLine settings other q) := by
  unfold Progress.compileLine
  rw [← h.text]
  split
  · rw [enter_apply, enter_apply, h.cursor hpq, ← h.text]
    obtain ⟨cursor, hleft, hright⟩ | ⟨e, d, hleft, hright⟩ :=
      Except.eq_ok_or_eq_error_of_toOption_eq
        (SuitCursor.toOption_enter settings q.cursor line.text line.number other.number)
    · rw [hleft, hright]
      exact .ok (h.enter hpq cursor)
    · rw [hleft, hright]
      exact .error
  · exact h.compileCardLine hpq

end Simulates

/-- Lines that follow others begin where these end. -/
theorem compileLines_append (settings : Settings) (front rest : List LogicalLine) :
    (compileLines settings (front ++ rest) : EStateM DeckError (Progress σ) Unit) =
      (do compileLines settings front; compileLines settings rest) := by
  induction front with
  | nil => rfl
  | cons line front ih =>
    funext p
    rw [List.cons_append, compileLines, compileLines, ih, EStateM.bind_apply, EStateM.bind_apply,
      EStateM.bind_apply]
    cases compileLine settings line p <;> rfl

/-- Lines one after the other do the same in related states. -/
theorem compileLines_agree {R : Progress σ → Progress τ → Prop} {lines others : List LogicalLine}
    (h : List.Forall₂ (Simulates R) lines others) (settings : Settings) {p : Progress σ}
    {q : Progress τ} (hpq : R p q) :
    Result.Agree R (compileLines settings lines p) (compileLines settings others q) := by
  induction h generalizing p q with
  | nil => exact .ok hpq
  | cons hline _ ih => exact (hline.compileLine hpq settings).bind fun _ s t hst => ih hst

end Progress

end InputDeck
