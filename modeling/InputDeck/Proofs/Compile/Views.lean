import InputDeck.Proofs.Compile.Simulation
import InputDeck.Transcript

/-!
# Views of evaluators

An evaluator that notes something beside its work runs every statement as the evaluator that it
carries. A compilation asks an evaluator for nothing but outcomes of statements and its global
table, so it does the same with both: the same failure or success, in states that differ by the
notes alone.
-/

namespace InputDeck

open EStateM (Result)

/-- A view of the states of one evaluator as states of another that runs the same. -/
structure EngineView {σ τ : Type} [Evaluator σ] [Evaluator τ] (view : σ → τ) : Prop where
  /-- A statement has the same outcome, seen otherwise. -/
  interpret : ∀ statement locals engine, Evaluator.interpret statement locals (view engine) =
    (Evaluator.interpret statement locals engine).mapState view
  /-- The global table is the same. -/
  globals : ∀ engine, Evaluator.globals (view engine) = Evaluator.globals engine

/-- A transcript runs the evaluator that it carries. -/
theorem Transcript.engineView (σ : Type) [Evaluator σ] :
    EngineView (Transcript.engine : Transcript σ → σ) where
  interpret statement locals t := by
    simp only [Evaluator.interpret]
    cases Evaluator.interpret statement locals t.engine <;> rfl
  globals _ := rfl

namespace Progress

variable {σ τ : Type}

/-- A state of a compilation with its evaluator seen otherwise. -/
def mapEngine (view : σ → τ) (progress : Progress σ) : Progress τ where
  engine := view progress.engine
  cursor := progress.cursor
  locals := progress.locals
  compiled := progress.compiled

end Progress

namespace EngineView

open Progress

variable {σ τ : Type} [Evaluator σ] [Evaluator τ] {view : σ → τ}

/-- The same vectors are known. -/
theorem existingLength? (h : EngineView view) (p : Progress σ) :
    (p.mapEngine view).existingLength? = p.existingLength? := by
  unfold Progress.existingLength? isDefined mapEngine
  simp only [h.globals]

/-- A statement is sent alike. -/
theorem send (h : EngineView view) (statement : String) (location : Location)
    (hint : Option String) (p : Progress σ) :
    Progress.send statement location hint (p.mapEngine view) =
      (Progress.send statement location hint p).mapState (mapEngine view) := by
  unfold Progress.send
  dsimp only [mapEngine]
  rw [h.interpret]
  cases Evaluator.interpret statement p.locals p.engine <;> rfl

/-- A name is bound alike. -/
theorem bind (h : EngineView view) (p : Progress σ) (name key : String) (origin : Origin) :
    (p.mapEngine view).bind name key origin = (p.bind name key origin).mapEngine view := by
  unfold Progress.bind mapEngine
  simp only [h.globals]

/-- An assignment is compiled alike. -/
theorem assign (h : EngineView view) (name value : String) (location : Location)
    (comment : Option String) (p : Progress σ) :
    Progress.assign name value location comment (p.mapEngine view) =
      (Progress.assign name value location comment p).mapState (mapEngine view) := by
  unfold Progress.assign
  rw [EStateM.get_bind_apply, EStateM.get_bind_apply]
  refine EStateM.bind_mapState (h.send _ _ _ p) fun key q => ?_
  exact congrArg (Result.ok ()) (h.bind q _ _ _)

/-- Assignments one after the other are compiled alike. -/
theorem assignAll (h : EngineView view) (location : Location) (comment : Option String)
    (pairs : List (String × String)) (p : Progress σ) :
    Progress.assignAll location comment pairs (p.mapEngine view) =
      (Progress.assignAll location comment pairs p).mapState (mapEngine view) := by
  induction pairs generalizing p comment with
  | nil => rfl
  | cons pair pairs ih =>
    exact EStateM.bind_mapState (h.assign _ _ _ _ p) fun _ q => ih none q

/-- A line that is no suit header is compiled alike. -/
theorem compileCardLine (h : EngineView view) (line : LogicalLine) (p : Progress σ) :
    Progress.compileCardLine line (p.mapEngine view) =
      (Progress.compileCardLine line p).mapState (mapEngine view) := by
  unfold Progress.compileCardLine
  rw [EStateM.get_bind_apply, EStateM.get_bind_apply, h.existingLength? p]
  dsimp only [mapEngine]
  cases CardLine.ofText line.text (p.cursor.locate line.number) with
  | error e => rfl
  | ok card =>
    cases card with
    | expression text =>
      exact EStateM.bind_mapState (h.send _ _ _ p) fun _ _ => rfl
    | scalar name value => exact h.assign _ _ _ _ p
    | vector name values => exact h.assignAll _ _ _ p
    | slice name value =>
      dsimp only
      cases Slice.expand (p.cursor.locate line.number) p.existingLength? name value with
      | error e => rfl
      | ok pairs => exact h.assignAll _ _ _ p

/-- A line is compiled alike. -/
theorem compileLine (h : EngineView view) (settings : Settings) (line : LogicalLine)
    (p : Progress σ) : Progress.compileLine settings line (p.mapEngine view) =
      (Progress.compileLine settings line p).mapState (mapEngine view) := by
  unfold Progress.compileLine
  split
  · rw [enter_apply, enter_apply]
    dsimp only [mapEngine]
    cases p.cursor.enter settings line.text line.number <;> rfl
  · exact h.compileCardLine line p

/-- Lines one after the other are compiled alike. -/
theorem compileLines (h : EngineView view) (settings : Settings) (lines : List LogicalLine)
    (p : Progress σ) : Progress.compileLines settings lines (p.mapEngine view) =
      (Progress.compileLines settings lines p).mapState (mapEngine view) := by
  induction lines generalizing p with
  | nil => rfl
  | cons line lines ih =>
    exact EStateM.bind_mapState (h.compileLine settings line p) fun _ q => ih q

/-- A text is compiled alike. -/
theorem compile (h : EngineView view) (settings : Settings) (text : String) (engine : σ) :
    InputDeck.compile settings text (view engine) =
      (InputDeck.compile settings text engine).mapState view := by
  have hlines := h.compileLines settings (LogicalLine.ofText settings text) { engine := engine }
  unfold InputDeck.compile
  dsimp only [mapEngine] at hlines
  rw [hlines]
  cases Progress.compileLines settings (LogicalLine.ofText settings text)
    ({ engine := engine } : Progress σ) <;> rfl

end EngineView

end InputDeck
