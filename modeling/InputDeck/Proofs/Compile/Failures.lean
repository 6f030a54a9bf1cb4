import InputDeck.Expr.Interpreter
import InputDeck.Proofs.Compile.Views
import InputDeck.Proofs.Text.FirstLines
import InputDeck.Proofs.Text.Located

/-!
# Failures of compilations

The first line that cannot be compiled ends a compilation. A transcript of the evaluator then has
all statements of the lines before it, and behind them some first statements of that line, up to
the one that the evaluator refused. The failure tells where that line begins, and the suit that was
current in front of it.
-/

namespace InputDeck

open EStateM (Result)

namespace CardLine

/-- The statements of a line that is no suit header, when none of them fails. -/
def statements (location : Location) (existing : String → Option Nat) (card : CardLine) :
    List String :=
  match card, card.pairs location existing with
  | expression text, _ => [text]
  | _, .ok pairs => pairs.map fun pair => Progress.assignment location.suit pair.1 pair.2
  | _, .error _ => []

/-- A line that assigns has a statement for each of its assignments. -/
theorem statements_of_pairs {location : Location} {existing : String → Option Nat}
    {card : CardLine} {pairs : List (String × String)} (hassigns : ∀ text, card ≠ .expression text)
    (hpairs : card.pairs location existing = .ok pairs) : card.statements location existing =
      pairs.map fun pair => Progress.assignment location.suit pair.1 pair.2 := by
  unfold statements
  rw [hpairs]
  cases card with
  | expression text => exact absurd rfl (hassigns text)
  | scalar name value => rfl
  | vector name values => rfl
  | slice name value => rfl

/-- What a line assigns is refused where it stands. -/
theorem failsAt_pairs {location : Location} (existing : String → Option Nat) (card : CardLine) :
    FailsAt location (card.pairs location existing) := by
  cases card with
  | expression text => exact .ok
  | scalar name value => exact .ok
  | vector name values => exact .ok
  | slice name value => exact Slice.failsAt_expand existing name value

end CardLine

namespace Progress

/-- The statements of a line, when none of them fails: none for a header or a malformed line. -/
def statements {σ : Type} [Evaluator σ] (settings : Settings) (line : LogicalLine)
    (progress : Progress σ) : List String :=
  if SuitCursor.isHeader settings line.text then []
  else
    let location := progress.cursor.locate line.number
    match CardLine.ofText line.text location with
    | .error _ => []
    | .ok card => card.statements location progress.existingLength?

/-- The statements of a line that is no suit header are those of what it asks for. -/
theorem statements_of_card {σ : Type} [Evaluator σ] {settings : Settings} {line : LogicalLine}
    {progress : Progress σ} {card : CardLine} (hheader : ¬SuitCursor.isHeader settings line.text)
    (hcard : CardLine.ofText line.text (progress.cursor.locate line.number) = .ok card) :
    progress.statements settings line =
      card.statements (progress.cursor.locate line.number) progress.existingLength? := by
  unfold statements
  rw [if_neg hheader]
  dsimp only
  rw [hcard]

variable {σ : Type} {before middle after : Progress (Transcript σ)}

/-- The evaluator got some statements, and the cursor stayed. -/
structure Sends (before after : Progress (Transcript σ)) (statements : List String) : Prop where
  /-- The statements are noted, with local names. -/
  sent : ∃ entries, entries.map Prod.fst = statements ∧
    after.engine.sent = before.engine.sent ++ entries
  /-- The cursor stays. -/
  cursor : after.cursor = before.cursor

/-- Nothing is sent at first. -/
theorem Sends.nil (before : Progress (Transcript σ)) : Sends before before [] :=
  ⟨⟨[], rfl, by simp⟩, rfl⟩

/-- Statements are sent in turn. -/
theorem Sends.trans {front rest : List String} (hfront : Sends before middle front)
    (hrest : Sends middle after rest) : Sends before after (front ++ rest) := by
  obtain ⟨⟨entries, rfl, hentries⟩, hcursor⟩ := hfront
  obtain ⟨⟨others, rfl, hothers⟩, hcursor'⟩ := hrest
  exact ⟨⟨entries ++ others, by simp, by rw [hothers, hentries, List.append_assoc]⟩,
    hcursor'.trans hcursor⟩

/-- How statements that are sent at a location end: with all of them sent, or at one that the
evaluator refuses. -/
inductive Sending {α : Type} (location : Location) (before : Progress (Transcript σ))
    (statements : List String) : Result DeckError (Progress (Transcript σ)) α → Prop
  /-- All of them are sent. -/
  | all {a : α} {after : Progress (Transcript σ)} (h : Sends before after statements) :
    Sending location before statements (.ok a after)
  /-- The evaluator refuses one, and the later ones are not sent. -/
  | refused {e : DeckError} {after : Progress (Transcript σ)} {own rest : List String}
    {statement : String} (hstatements : statements = own ++ statement :: rest)
    (h : Sends before after (own ++ [statement])) (hlocation : e.location? = some location)
    (hrefused : e.refused? = some statement) : Sending location before statements (.error e after)

/-- Statements are sent in turn until one is refused. -/
theorem Sending.bind {α β : Type} {location : Location} {front rest : List String}
    {x : EStateM DeckError (Progress (Transcript σ)) α}
    {f : α → EStateM DeckError (Progress (Transcript σ)) β}
    (hx : Sending location before front (x before))
    (hf : ∀ a middle, middle.cursor = before.cursor → Sending location middle rest (f a middle)) :
    Sending location before (front ++ rest) ((x >>= f) before) := by
  rw [EStateM.bind_apply]
  generalize x before = r at hx
  cases hx with
  | @all a middle hfront =>
    dsimp only
    have hrest := hf a middle hfront.cursor
    generalize f a middle = r at hrest
    cases hrest with
    | all h => exact .all (hfront.trans h)
    | @refused e after own later statement hstatements h hlocation hrefused =>
      have hown : Sends before after (front ++ own ++ [statement]) := by
        rw [List.append_assoc]
        exact hfront.trans h
      have hsplit : front ++ rest = front ++ own ++ statement :: later := by
        rw [hstatements, List.append_assoc]
      exact .refused hsplit hown hlocation hrefused
  | @refused e after own later statement hstatements h hlocation hrefused =>
    have hsplit : front ++ rest = own ++ statement :: (later ++ rest) := by
      rw [hstatements, List.append_assoc, List.cons_append]
    exact .refused hsplit h hlocation hrefused

variable [Evaluator σ]

/-- A statement is sent, and may be refused. -/
theorem sending_send (statement : String) (location : Location) (hint : Option String)
    (p : Progress (Transcript σ)) :
    Sending location p [statement] (send statement location hint p) := by
  unfold send
  dsimp only [Evaluator.interpret]
  cases Evaluator.interpret statement p.locals p.engine.engine with
  | ok key engine => exact .all ⟨⟨_, rfl, rfl⟩, rfl⟩
  | error e engine => exact .refused (List.nil_append _).symm ⟨⟨_, rfl, rfl⟩, rfl⟩ rfl rfl

/-- An assignment to a name of the current suit is sent. -/
theorem sending_assign (name value : String) (location : Location) (comment : Option String)
    (p : Progress (Transcript σ)) :
    Sending location p [assignment p.cursor.current name value]
      (assign name value location comment p) := by
  unfold assign
  rw [EStateM.get_bind_apply]
  refine Sending.bind (sending_send _ location none p) fun key q _ => ?_
  exact .all ⟨⟨[], rfl, (List.append_nil _).symm⟩, rfl⟩

/-- Assignments to names of the current suit are sent in turn. -/
theorem sending_assignAll (location : Location) (comment : Option String)
    (pairs : List (String × String)) (p : Progress (Transcript σ)) :
    Sending location p (pairs.map fun pair => assignment p.cursor.current pair.1 pair.2)
      (assignAll location comment pairs p) := by
  induction pairs generalizing p comment with
  | nil => exact .all (.nil p)
  | cons pair pairs ih =>
    refine (sending_assign pair.1 pair.2 location comment p).bind fun _ q hcursor => ?_
    rw [← hcursor]
    exact ih none q

/-- A line that is no suit header is malformed, with nothing sent, or ends as its statements do. -/
private theorem compileCardLine_ends (line : LogicalLine) (p : Progress (Transcript σ)) :
    (∃ e, e.IsSyntaxAt (p.cursor.locate line.number) ∧ compileCardLine line p = .error e p) ∨
      ∃ card, CardLine.ofText line.text (p.cursor.locate line.number) = .ok card ∧
        Sending (p.cursor.locate line.number) p
          (card.statements (p.cursor.locate line.number) p.existingLength?)
          (compileCardLine line p) := by
  cases hcard : CardLine.ofText line.text (p.cursor.locate line.number) with
  | error e =>
    exact .inl ⟨e, CardLine.failsAt_ofText line.text e hcard, compileCardLine_of_error hcard⟩
  | ok card =>
    by_cases hexpression : ∃ text, card = .expression text
    · obtain ⟨text, rfl⟩ := hexpression
      refine .inr ⟨_, rfl, ?_⟩
      rw [compileCardLine_of_expression hcard]
      exact Sending.bind (sending_send text _ _ p) fun _ q _ => .all (.nil q)
    · have hassigns : ∀ text, card ≠ .expression text := fun text he => hexpression ⟨text, he⟩
      rw [compileCardLine_of_card hcard hassigns]
      cases hpairs : card.pairs (p.cursor.locate line.number) p.existingLength? with
      | error e => exact .inl ⟨e, CardLine.failsAt_pairs _ card e hpairs, rfl⟩
      | ok pairs =>
        refine .inr ⟨card, rfl, ?_⟩
        rw [CardLine.statements_of_pairs hassigns hpairs]
        exact sending_assignAll _ _ pairs p

/-- How the failure of a line is told and what was sent of the line before. -/
structure Fails (settings : Settings) (line : LogicalLine) (before after : Progress (Transcript σ))
    (e : DeckError) (own : List (String × Table Value)) : Prop where
  /-- The line fails. -/
  fails : compileLine settings line before = .error e after
  /-- The failure tells the line and the suit in front of it. -/
  location : e.location? = some ⟨line.number, before.cursor.current⟩
  /-- What was sent of the line is noted behind what was sent before. -/
  sent : after.engine.sent = before.engine.sent ++ own
  /-- First statements of the line were sent. -/
  statements : own.map Prod.fst <+: before.statements settings line
  /-- The last one of them was refused, unless nothing of a malformed line was sent. -/
  refused : (own.map Prod.fst).getLast? = e.refused?

/-- A line that fails is located, and only first statements of it were sent. -/
theorem exists_fails {settings : Settings} {line : LogicalLine} {e : DeckError}
    (h : compileLine settings line before = .error e after) :
    ∃ own, Fails settings line before after e own := by
  have hline := h
  have hmalformed : ∀ d : DeckError, d.IsSyntaxAt (before.cursor.locate line.number) →
      .error d before = (.error e after : Result DeckError (Progress (Transcript σ)) Unit) →
      ∃ own, Fails settings line before after e own := by
    rintro d hd ⟨⟩
    exact ⟨[], h, hd.location, by simp, by simp, by simp [hd.refused]⟩
  unfold compileLine at hline
  split at hline
  · rw [enter_apply] at hline
    split at hline
    · next d henter =>
      exact hmalformed d (SuitCursor.failsAt_enter _ _ _ _ d henter) hline
    · cases hline
  · next hheader =>
    obtain ⟨d, hd, hcard⟩ | ⟨card, hcard, hsending⟩ := compileCardLine_ends line before
    · rw [hcard] at hline
      exact hmalformed d hd hline
    · rw [hline] at hsending
      cases hsending with
      | refused hall hsends hlocation hrefused =>
        obtain ⟨⟨entries, hentries, hsent⟩, -⟩ := hsends
        refine ⟨entries, h, hlocation, hsent, ?_, ?_⟩
        · rw [statements_of_card hheader hcard, hall, hentries]
          exact ⟨_, List.append_assoc _ _ _⟩
        · rw [hentries, hrefused, List.getLast?_concat]

/-- A line that succeeds sends all its statements. -/
theorem exists_sent_of_compileLine {settings : Settings} {line : LogicalLine}
    (h : compileLine settings line before = .ok () after) :
    ∃ entries, entries.map Prod.fst = before.statements settings line ∧
      after.engine.sent = before.engine.sent ++ entries := by
  rcases compileLine_cases h with ⟨hheader, cursor, -, rfl⟩ | ⟨hheader, hcompile⟩
  · exact ⟨[], by simp [statements, hheader], by simp [entered]⟩
  · obtain ⟨d, -, hcard⟩ | ⟨card, hcard, hsending⟩ := compileCardLine_ends line before
    · rw [hcard] at hcompile
      cases hcompile
    · rw [statements_of_card (by simp [hheader]) hcard]
      rw [hcompile] at hsending
      cases hsending with
      | all hsends => exact hsends.sent

/-- Lines fail at the first one of them that does. -/
theorem exists_of_compileLines_error {settings : Settings} {lines : List LogicalLine}
    {e : DeckError} (h : compileLines settings lines before = .error e after) :
    ∃ front line rest middle, lines = front ++ line :: rest ∧
      compileLines settings front before = .ok () middle ∧
      compileLine settings line middle = .error e after := by
  induction lines generalizing before with
  | nil => cases h
  | cons line lines ih =>
    obtain hline | ⟨_, middle, hline, hrest⟩ := EStateM.bind_eq_error_iff.1 h
    · exact ⟨[], line, lines, before, rfl, rfl, hline⟩
    · obtain ⟨front, other, rest, last, rfl, hfront, hother⟩ := ih hrest
      refine ⟨line :: front, other, rest, last, rfl, ?_, hother⟩
      exact EStateM.bind_eq_ok_iff.2 ⟨(), middle, hline, hfront⟩

end Progress

section

variable {σ : Type} [Evaluator σ] {settings : Settings} {text : String} {engine last : σ}
  {e : DeckError}

/-- How the compilation of a text ends at a line: lines before it, and what is known in front of it
and behind it, when the evaluator keeps a transcript. -/
structure StopsAt (settings : Settings) (text : String) (engine last : σ) (e : DeckError)
    (front : List LogicalLine) (line : LogicalLine) (before after : Progress (Transcript σ)) :
    Prop where
  /-- The line is one of the text, with lines before it and behind it, and begins with a raw line.
  -/
  place : ∃ rest above raw below, LogicalLine.ofText settings text = front ++ line :: rest ∧
    LogicalLine.BeginsAt settings text front line rest above raw below
  /-- The lines before it compile, from an empty transcript on. -/
  earlier : Progress.compileLines settings front { engine := { engine := engine } } = .ok () before
  /-- The line fails, with its number and the suit in front of it. What is sent of it stands behind
  what the lines before it sent. -/
  fails : ∃ own, Progress.Fails settings line before after e own
  /-- Nothing else is sent by the whole text. -/
  whole : compile settings text ({ engine := engine } : Transcript σ) = .error e after.engine
  /-- The evaluator itself ends as it does without a transcript. -/
  ends : after.engine.engine = last

/-- A compilation that fails stops at the first logical line that cannot be compiled. -/
theorem exists_stopsAt_of_compile_error (h : compile settings text engine = .error e last) :
    ∃ front line before after, StopsAt settings text engine last e front line before after := by
  have hview := (Transcript.engineView σ).compile settings text { engine := engine }
  rw [h] at hview
  cases hwhole : compile settings text ({ engine := engine } : Transcript σ) with
  | ok compiled transcript =>
    rw [hwhole] at hview
    cases hview
  | error d transcript =>
    rw [hwhole] at hview
    cases hview
    unfold compile at hwhole
    split at hwhole
    · cases hwhole
    · next d after hlines =>
      cases hwhole
      obtain ⟨front, line, rest, before, htext, hearlier, hline⟩ :=
        Progress.exists_of_compileLines_error hlines
      obtain ⟨above, raw, below, hbegins⟩ := LogicalLine.exists_beginsAt htext
      refine ⟨front, line, before, after, ⟨rest, above, raw, below, htext, hbegins⟩, hearlier,
        Progress.exists_fails hline, ?_, rfl⟩
      unfold compile
      rw [hlines]

/-- The second item of a list fails, on a line that goes on in the next one. -/
theorem exists_stopsAt_of_compile_error_second_item :
    ∃ e last, compile {} "<s>\nx = \"own\"\nv = x, &\n  other, x\ny = x" ({} : Interpreter) =
        .error e last ∧
      ∃ front line before after, StopsAt {} "<s>\nx = \"own\"\nv = x, &\n  other, x\ny = x"
        ({} : Interpreter) last e front line before after := by
  obtain ⟨e, last, hrun⟩ := EStateM.Result.eq_error_of_not_succeeds
    (r := compile {} "<s>\nx = \"own\"\nv = x, &\n  other, x\ny = x" ({} : Interpreter))
    (by decide +kernel)
  exact ⟨e, last, hrun, exists_stopsAt_of_compile_error hrun⟩

end

end InputDeck
