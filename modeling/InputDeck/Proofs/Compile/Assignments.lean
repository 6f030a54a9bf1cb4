import InputDeck.Proofs.Compile.Views
import InputDeck.Proofs.Expr.Statements

/-!
# The assignments of a text

A recording evaluator is an evaluator that keeps the names it reports. Compiling line by line with
one gives the list of all assignments that a text makes, each with its line and with its place in
the line. The list says everything that a compilation does to globals and provenance: the globals
that it does not name stay, and each that it names comes from its last mention.
-/

namespace InputDeck

open EStateM (Result)

/-- An evaluator with the names that it reported as assigned, the first one first. -/
structure Recording (σ : Type) where
  /-- The evaluator. -/
  engine : σ
  /-- The reported names. -/
  reports : List String := []

instance {σ : Type} [Evaluator σ] : Evaluator (Recording σ) where
  interpret statement locals recording :=
    match Evaluator.interpret statement locals recording.engine with
    | .ok key engine => .ok key ⟨engine, recording.reports ++ key.toList⟩
    | .error e engine => .error e ⟨engine, recording.reports⟩
  globals recording := Evaluator.globals recording.engine
  withGlobals globals recording :=
    { recording with engine := Evaluator.withGlobals globals recording.engine }

/-- A recording runs the evaluator that it carries. -/
theorem Recording.engineView (σ : Type) [Evaluator σ] :
    EngineView (Recording.engine : Recording σ → σ) where
  interpret statement locals recording := by
    simp only [Evaluator.interpret]
    cases Evaluator.interpret statement locals recording.engine <;> rfl
  globals _ := rfl

/-- An assignment that a text makes. -/
structure Assignment where
  /-- The global name that is assigned. -/
  global : String
  /-- The logical line that assigns it. -/
  line : LogicalLine
  /-- Whether the line assigned nothing before. -/
  isFirst : Bool
  deriving DecidableEq, Repr

namespace Assignment

/-- The comment that goes with an assignment: that of its line, if it is the first one there. -/
def comment (a : Assignment) : Option String := if a.isFirst then a.line.comment else none

/-- Where an assignment stands. -/
def origin (a : Assignment) : Origin := ⟨a.line.number, a.comment⟩

/-- Note an assignment. -/
def record (provenance : Provenance) (a : Assignment) : Provenance :=
  provenance.insert a.global a.origin

/-- The last assignment of a global in a list. -/
def last? (assigned : List Assignment) (name : String) : Option Assignment :=
  assigned.reverse.find? fun a => a.global == name

/-- What is noted of a global is its last assignment. -/
theorem getElem?_foldl_record (assigned : List Assignment) (provenance : Provenance)
    (name : String) :
    (assigned.foldl record provenance)[name]? =
      ((last? assigned name).map origin).or provenance[name]? :=
  Table.getElem?_foldl_insert assigned global origin provenance name

/-- A list has a last assignment of exactly the globals it names. -/
theorem last?_eq_none_iff {assigned : List Assignment} {name : String} :
    last? assigned name = none ↔ ∀ a ∈ assigned, a.global ≠ name :=
  Table.lastNamed?_eq_none_iff

/-- The last assignment of a global assigns it. -/
theorem global_of_last? {assigned : List Assignment} {name : String} {a : Assignment}
    (h : last? assigned name = some a) : a ∈ assigned ∧ a.global = name :=
  Table.of_lastNamed? h

/-- An assignment behind which its global is not assigned again is the last one. -/
theorem last?_append_cons {front rest : List Assignment} {a : Assignment}
    (h : ∀ b ∈ rest, b.global ≠ a.global) : last? (front ++ a :: rest) a.global = some a :=
  Table.lastNamed?_append_cons h

/-- The last assignment in two lists is that of the second one, if there is one. -/
theorem last?_append (front rest : List Assignment) (name : String) :
    last? (front ++ rest) name = (last? rest name).or (last? front name) :=
  Table.lastNamed?_append

end Assignment

/-- The assignments of a line to the given globals. -/
def LogicalLine.assignments (line : LogicalLine) : List String → List Assignment
  | [] => []
  | first :: others => ⟨first, line, true⟩ :: others.map (⟨·, line, false⟩)

/-- The assignments of a line name the globals. -/
@[simp] theorem LogicalLine.map_global_assignments (line : LogicalLine) (names : List String) :
    (line.assignments names).map Assignment.global = names := by
  cases names with
  | nil => rfl
  | cons first others => simp [assignments, Function.comp_def]

/-- The assignments of a line belong to it. -/
theorem LogicalLine.line_of_mem_assignments {line : LogicalLine} {names : List String}
    {a : Assignment} (h : a ∈ line.assignments names) : a.line = line := by
  cases names with
  | nil => cases h
  | cons first others =>
    obtain rfl | h := List.mem_cons.1 h
    · rfl
    · obtain ⟨name, -, rfl⟩ := List.mem_map.1 h
      rfl

namespace Progress

section

variable {σ : Type} [Evaluator σ]

/-- A state with an evaluator that records from here on. -/
def recording (progress : Progress σ) : Progress (Recording σ) where
  engine := ⟨progress.engine, []⟩
  cursor := progress.cursor
  locals := progress.locals
  compiled := progress.compiled

/-- A state without what was recorded. -/
def played (progress : Progress (Recording σ)) : Progress σ where
  engine := progress.engine.engine
  cursor := progress.cursor
  locals := progress.locals
  compiled := progress.compiled

/-- The assignments that lines make, as the evaluator reports them. -/
def assignments (settings : Settings) : List LogicalLine → Progress σ → List Assignment
  | [], _ => []
  | line :: rest, progress =>
    match compileLine settings line progress.recording with
    | .ok _ after =>
      line.assignments after.engine.reports ++ assignments settings rest after.played
    | .error _ _ => []

/-- A line does the same when it is recorded. -/
theorem compileLine_recording {settings : Settings} {line : LogicalLine} {p q : Progress σ}
    (h : compileLine settings line p = .ok () q) :
    ∃ after, compileLine settings line p.recording = .ok () after ∧ after.played = q := by
  have hview : compileLine settings line p =
      (compileLine settings line p.recording).mapState played :=
    (Recording.engineView σ).compileLine settings line p.recording
  rw [hview] at h
  cases hrecorded : compileLine settings line p.recording with
  | ok _ after =>
    rw [hrecorded] at h
    cases h
    exact ⟨after, rfl, rfl⟩
  | error e after =>
    rw [hrecorded] at h
    cases h

end

/-- What assignments do to globals and provenance. -/
structure Effect (before after : Progress Interpreter) (assigned : List Assignment) : Prop where
  /-- Every assignment is noted, in turn. -/
  provenance : after.compiled.provenance =
    assigned.foldl Assignment.record before.compiled.provenance
  /-- All other globals stay. -/
  unchanged : ∀ name, (∀ a ∈ assigned, a.global ≠ name) →
    after.engine.globals[name]? = before.engine.globals[name]?
  /-- What is assigned can be assigned, and is a global then. -/
  bound : ∀ a ∈ assigned, IsAssignable a.global ∧ a.global ∈ after.engine.globals

namespace Effect

variable {before middle after : Progress Interpreter} {front rest : List Assignment}

/-- Without assignments nothing happens. -/
theorem of_eq (hprovenance : after.compiled.provenance = before.compiled.provenance)
    (hglobals : after.engine.globals = before.engine.globals) : Effect before after [] :=
  ⟨hprovenance, fun _ _ => by rw [hglobals], by simp⟩

/-- A global stays one. -/
theorem mem_globals (h : Effect before after rest) {name : String}
    (hname : name ∈ before.engine.globals) : name ∈ after.engine.globals := by
  by_cases hassigned : ∀ a ∈ rest, a.global ≠ name
  · rw [Std.ExtTreeMap.mem_iff_isSome_getElem?] at hname ⊢
    rwa [h.unchanged name hassigned]
  · simp only [ne_eq, not_forall, not_not] at hassigned
    obtain ⟨a, ha, rfl⟩ := hassigned
    exact (h.bound a ha).2

/-- What happens first and then happens in turn. -/
theorem trans (hfront : Effect before middle front) (hrest : Effect middle after rest) :
    Effect before after (front ++ rest) where
  provenance := by rw [List.foldl_append, ← hfront.provenance, hrest.provenance]
  unchanged name hname := by
    rw [hrest.unchanged name fun a ha => hname a (List.mem_append_right _ ha),
      hfront.unchanged name fun a ha => hname a (List.mem_append_left _ ha)]
  bound a ha := by
    rcases List.mem_append.1 ha with ha | ha
    · exact (hfront.bound a ha).imp_right hrest.mem_globals
    · exact hrest.bound a ha

end Effect

/-- What a recorded part of a line does: the evaluator reports its assignments, and they happen. -/
structure Records (before after : Progress (Recording Interpreter)) (assigned : List Assignment) :
    Prop where
  /-- The names are reported. -/
  reports : after.engine.reports = before.engine.reports ++ assigned.map Assignment.global
  /-- The assignments happen. -/
  effect : Effect before.played after.played assigned

/-- Parts of a line are recorded in turn. -/
theorem Records.trans {before middle after : Progress (Recording Interpreter)}
    {front rest : List Assignment} (hfront : Records before middle front)
    (hrest : Records middle after rest) : Records before after (front ++ rest) where
  reports := by rw [hrest.reports, hfront.reports, List.map_append, List.append_assoc]
  effect := hfront.effect.trans hrest.effect

section

variable {before after : Progress (Recording Interpreter)} {line : LogicalLine}

/-- A recorded statement runs when the evaluator runs it, and what it reports is recorded. -/
private theorem exists_of_interpret {statement : String} {locals : Table Value}
    {recording last : Recording Interpreter} {report : Option String}
    (h : Evaluator.interpret statement locals recording = .ok report last) :
    ∃ vm, Interpreter.interpret statement locals recording.engine = .ok report vm ∧
      last = ⟨vm, recording.reports ++ report.toList⟩ := by
  dsimp only [Evaluator.interpret] at h
  cases hrun : Interpreter.interpret statement locals recording.engine with
  | ok key vm =>
    rw [hrun] at h
    cases h
    exact ⟨vm, rfl, rfl⟩
  | error e vm =>
    rw [hrun] at h
    cases h

/-- A statement is sent when the evaluator runs it, and what it reports is recorded. -/
theorem exists_of_send {statement : String} {location : Location} {hint report : Option String}
    (h : send statement location hint before = .ok report after) :
    ∃ vm, Interpreter.interpret statement before.locals before.engine.engine = .ok report vm ∧
      after = before.sent ⟨vm, before.engine.reports ++ report.toList⟩ := by
  obtain ⟨last, hlast, rfl⟩ := send_eq_ok_iff.1 h
  obtain ⟨vm, hrun, rfl⟩ := exists_of_interpret hlast
  exact ⟨vm, hrun, rfl⟩

/-- An assignment is sent when the evaluator runs its statement, and what it reports is recorded and
bound. -/
theorem exists_of_assign {name value : String} {location : Location} {comment : Option String}
    (h : assign name value location comment before = .ok () after) :
    ∃ report vm, Interpreter.interpret (assignment before.cursor.current name value) before.locals
        before.engine.engine = .ok report vm ∧
      after = (before.sent ⟨vm, before.engine.reports ++ report.toList⟩).bind name
        (report.getD (before.cursor.current.qualify name)) ⟨location.line, comment⟩ := by
  obtain ⟨report, last, hlast, rfl⟩ := assign_eq_ok_iff.1 h
  obtain ⟨vm, hrun, rfl⟩ := exists_of_interpret hlast
  exact ⟨report, vm, hrun, rfl⟩

/-- An assignment with paired quotes is recorded under its origin. -/
private theorem records_assign {name value : String} {location : Location} (isFirst : Bool)
    (hline : location.line = line.number) (hvalue : Scan.QuotesPaired value.toList)
    (h : assign name value location (if isFirst then line.comment else none) before =
      .ok () after) :
    ∃ global, Records before after [⟨global, line, isFirst⟩] := by
  obtain ⟨report, vm, hrun, rfl⟩ := exists_of_assign h
  cases report with
  | none => exact absurd hrun (Interpreter.interpret_ne_none_of_quotesPaired hvalue)
  | some global =>
    obtain ⟨target, e, v, output, last, -, -, -, rfl⟩ := Interpreter.interpret_eq_some_iff.1 hrun
    refine ⟨global, ?_, ?_, ?_, ?_⟩
    · simp [bind, sent]
    · simp [bind, sent, played, Assignment.record, Assignment.origin, Assignment.comment, hline]
    · intro other hother
      have hglobal := hother ⟨global, line, isFirst⟩ (by simp)
      simp [bind, sent, played, Table.getElem?_insert_eq, hglobal]
    · intro a ha
      obtain rfl := List.mem_singleton.1 ha
      exact ⟨Interpreter.isAssignable_of_interpret hrun, by simp [bind, sent, played]⟩

/-- Assignments behind the first one of a line are recorded without its comment. -/
private theorem records_assignAll_none {location : Location} {pairs : List (String × String)}
    (hline : location.line = line.number)
    (hpairs : ∀ pair ∈ pairs, Scan.QuotesPaired pair.2.toList)
    (h : assignAll location none pairs before = .ok () after) :
    ∃ names : List String, Records before after (names.map (⟨·, line, false⟩)) := by
  induction pairs generalizing before with
  | nil =>
    cases h
    exact ⟨[], by simp, .of_eq rfl rfl⟩
  | cons pair pairs ih =>
    obtain ⟨_, middle, hfirst, h⟩ := EStateM.bind_eq_ok_iff.1 h
    obtain ⟨global, hglobal⟩ :=
      records_assign false hline (hpairs pair (by simp)) hfirst
    obtain ⟨names, hnames⟩ := ih (fun other hother => hpairs other (by simp [hother])) h
    exact ⟨global :: names, hglobal.trans hnames⟩

/-- The assignments of a line are recorded with its comment at the first one. -/
theorem records_assignAll {location : Location} {pairs : List (String × String)}
    (hline : location.line = line.number)
    (hpairs : ∀ pair ∈ pairs, Scan.QuotesPaired pair.2.toList)
    (h : assignAll location line.comment pairs before = .ok () after) :
    ∃ names, Records before after (line.assignments names) := by
  cases pairs with
  | nil =>
    cases h
    exact ⟨[], by simp [LogicalLine.assignments], .of_eq rfl rfl⟩
  | cons pair pairs =>
    obtain ⟨_, middle, hfirst, h⟩ := EStateM.bind_eq_ok_iff.1 h
    obtain ⟨global, hglobal⟩ :=
      records_assign true hline (hpairs pair (by simp)) hfirst
    obtain ⟨names, hnames⟩ :=
      records_assignAll_none hline (fun other hother => hpairs other (by simp [hother])) h
    exact ⟨global :: names, hglobal.trans hnames⟩

/-- A line that is no suit header is recorded by the names that the evaluator reports. -/
private theorem records_compileCardLine (h : compileCardLine line before = .ok () after) :
    ∃ names, Records before after (line.assignments names) ∧
      (Scan.cutAssignment none {} line.text.toList = none → names = []) := by
  rcases compileCardLine_cases h with ⟨hcut, report, hsend⟩ | ⟨hsign, pairs, hpairs, h⟩
  · obtain ⟨vm, hrun, rfl⟩ := exists_of_send hsend
    cases report with
    | some key => exact absurd hrun (Interpreter.interpret_ne_some_of_cutAssignment hcut key)
    | none =>
      refine ⟨[], ⟨by simp [sent, LogicalLine.assignments], .of_eq rfl ?_⟩, fun _ => rfl⟩
      exact Interpreter.globals_of_interpret_none hrun
  · obtain ⟨names, hnames⟩ :=
      records_assignAll rfl (fun pair hpair => (hpairs pair hpair).2.paired) h
    exact ⟨names, hnames, fun hcut => absurd hcut hsign⟩

/-- A line is recorded by the names that the evaluator reports. -/
private theorem records_compileLine {settings : Settings}
    (h : compileLine settings line before = .ok () after) :
    ∃ names, Records before after (line.assignments names) ∧
      (Scan.cutAssignment none {} line.text.toList = none → names = []) := by
  rcases compileLine_cases h with ⟨-, cursor, -, rfl⟩ | ⟨-, hcard⟩
  · exact ⟨[], ⟨by simp [entered, LogicalLine.assignments], .of_eq rfl rfl⟩, fun _ => rfl⟩
  · exact records_compileCardLine hcard

end

variable {settings : Settings} {line : LogicalLine} {lines : List LogicalLine}
  {p q : Progress Interpreter}

/-- The assignments of some lines are those of the first one and then those of the others; a line
without an assignment sign has none. -/
theorem assignments_cons (h : compileLine settings line p = .ok () q) :
    ∃ names, p.assignments settings (line :: lines) =
        line.assignments names ++ q.assignments settings lines ∧
      Effect p q (line.assignments names) ∧
      (Scan.cutAssignment none {} line.text.toList = none → names = []) := by
  obtain ⟨after, hrecorded, rfl⟩ := compileLine_recording h
  obtain ⟨names, ⟨hreports, heffect⟩, hsign⟩ := records_compileLine hrecorded
  have hnames : after.engine.reports = names := by
    rw [hreports, LogicalLine.map_global_assignments]
    rfl
  refine ⟨names, ?_, heffect, hsign⟩
  rw [assignments, hrecorded]
  dsimp only
  rw [hnames]

/-- Lines do what their assignments say. -/
theorem effect_compileLines (h : compileLines settings lines p = .ok () q) :
    Effect p q (p.assignments settings lines) := by
  induction lines generalizing p with
  | nil =>
    cases h
    exact .of_eq rfl rfl
  | cons line lines ih =>
    obtain ⟨_, middle, hline, h⟩ := EStateM.bind_eq_ok_iff.1 h
    obtain ⟨names, hassignments, heffect, -⟩ := assignments_cons hline
    rw [hassignments]
    exact heffect.trans (ih h)

/-- Lines without assignment signs assign nothing. -/
theorem assignments_eq_nil
    (hlines : ∀ line ∈ lines, Scan.cutAssignment none {} line.text.toList = none)
    (h : compileLines settings lines p = .ok () q) : p.assignments settings lines = [] := by
  induction lines generalizing p with
  | nil => rfl
  | cons line lines ih =>
    obtain ⟨_, middle, hline, h⟩ := EStateM.bind_eq_ok_iff.1 h
    obtain ⟨names, hassignments, -, hsign⟩ := assignments_cons hline
    rw [hassignments, hsign (hlines line List.mem_cons_self)]
    exact ih (fun other hother => hlines other (List.mem_cons_of_mem _ hother)) h

/-- The assignments of lines belong to them. -/
theorem line_mem_of_mem_assignments {a : Assignment} (h : a ∈ p.assignments settings lines) :
    a.line ∈ lines := by
  induction lines generalizing p with
  | nil => cases h
  | cons line lines ih =>
    rw [assignments] at h
    split at h
    · obtain h | h := List.mem_append.1 h
      · rw [LogicalLine.line_of_mem_assignments h]
        exact List.mem_cons_self
      · exact List.mem_cons_of_mem _ (ih h)
    · cases h

end Progress

end InputDeck
