import InputDeck.Proofs.Deck.Build
import InputDeck.Proofs.Text.Joining

/-!
# A build behind another text

To build a text behind another one is to build the two in turn, with the cards made globals again
in between. That does the same as one build of the two texts with a line feed between them, when
the first text is complete and the second one begins with an absolute header: a header forgets the
local names, an absolute one forgets the suits before it, and the globals come back as they were.
-/

namespace InputDeck

open EStateM (Result)

namespace SuitCursor

/-- Whether a line is a suit header with a name that does not begin with two dots. -/
def isAbsoluteHeader (settings : Settings) (text : String) : Bool :=
  isHeader settings text && (headerName? settings text.toList).all fun inner =>
    (SuitPath.stripFront ['.', '.'] (Text.withoutBlanks inner)).isNone

/-- An absolute header leads to the same cursor from everywhere. -/
theorem toOption_enter_of_isAbsoluteHeader {settings : Settings} {text : String}
    (h : isAbsoluteHeader settings text = true) (cursor other : SuitCursor) (line number : Nat) :
    (cursor.enter settings text line).toOption = (other.enter settings text number).toOption := by
  unfold isAbsoluteHeader at h
  unfold enter
  split
  · rfl
  · next inner hinner =>
    rw [hinner] at h
    have hname : SuitPath.stripFront ['.', '.'] (Text.withoutBlanks inner) = none := by
      simpa using (Bool.and_eq_true_iff.1 h).2
    dsimp only
    split
    · rfl
    · rw [hname]

end SuitCursor

namespace Assignment

/-- An assignment of a line that stands further down. -/
def shift (count : Nat) (a : Assignment) : Assignment := { a with line := a.line.shift count }

/-- Lines that stand further down make the same assignments there. -/
theorem map_shift_assignments (count : Nat) (line : LogicalLine) (names : List String) :
    (line.shift count).assignments names = (line.assignments names).map (shift count) := by
  cases names with
  | nil => rfl
  | cons first others => simp [LogicalLine.assignments, shift]

/-- The last assignment of a global further down is the last one, further down. -/
theorem last?_map_shift (count : Nat) (assigned : List Assignment) (name : String) :
    last? (assigned.map (shift count)) name = (last? assigned name).map (shift count) := by
  rw [last?, last?, ← List.map_reverse, List.find?_map]
  rfl

end Assignment

namespace Progress

section

variable {σ : Type} [Evaluator σ]

/-- Two states of a compilation that differ at most in what is known so far. -/
structure SameState (p q : Progress σ) : Prop where
  /-- The evaluators are the same. -/
  engine : p.engine = q.engine
  /-- The cursors are the same. -/
  cursor : p.cursor = q.cursor
  /-- The local names are the same. -/
  locals : p.locals = q.locals

/-- Lines further down do the same. -/
theorem simulates_shift (σ : Type) [Evaluator σ] (line : LogicalLine) (count : Nat) :
    Simulates (@SameState σ) line (line.shift count) where
  text := rfl
  comment := rfl
  cursor h := h.cursor
  existing := by
    rintro ⟨engine, cursor, locals, _⟩ ⟨_, _, _, _⟩ ⟨rfl, rfl, rfl⟩
    rfl
  send := by
    rintro ⟨engine, cursor, locals, _⟩ ⟨_, _, _, _⟩ ⟨rfl, rfl, rfl⟩ statement here there hint
    unfold send
    dsimp only
    cases Evaluator.interpret statement locals engine with
    | ok key engine => exact .ok ⟨rfl, rfl, rfl⟩
    | error e engine => exact .error
  bind := by
    rintro ⟨engine, cursor, locals, _⟩ ⟨_, _, _, _⟩ ⟨rfl, rfl, rfl⟩ name key comment
    exact ⟨rfl, rfl, rfl⟩
  enter h cursor := ⟨h.engine, rfl, rfl⟩

/-- An absolute header leads to the same state from everywhere. -/
theorem compileLine_agree_of_isAbsoluteHeader {settings : Settings} {line : LogicalLine}
    (hline : SuitCursor.isAbsoluteHeader settings line.text = true) (count : Nat)
    {p q : Progress σ} (h : p.engine = q.engine) :
    Result.Agree SameState (compileLine settings line p)
      (compileLine settings (line.shift count) q) := by
  have hheader : SuitCursor.isHeader settings line.text = true :=
    (Bool.and_eq_true_iff.1 hline).1
  unfold compileLine
  rw [LogicalLine.text_shift, if_pos hheader, if_pos hheader, enter_apply, enter_apply,
    LogicalLine.text_shift]
  obtain ⟨cursor, hleft, hright⟩ | ⟨e, d, hleft, hright⟩ :=
    Except.eq_ok_or_eq_error_of_toOption_eq
      (SuitCursor.toOption_enter_of_isAbsoluteHeader hline p.cursor q.cursor line.number
        (line.shift count).number)
  · rw [hleft, hright]
    exact .ok ⟨h, rfl, rfl⟩
  · rw [hleft, hright]
    exact .error

/-- The assignments of lines that follow others come behind those of the others. -/
theorem assignments_append {settings : Settings} {front : List LogicalLine}
    (rest : List LogicalLine) {p q : Progress σ}
    (h : compileLines settings front p = .ok () q) :
    p.assignments settings (front ++ rest) =
      p.assignments settings front ++ q.assignments settings rest := by
  induction front generalizing p with
  | nil =>
    cases h
    rfl
  | cons line front ih =>
    obtain ⟨_, middle, hline, h⟩ := EStateM.bind_eq_ok_iff.1 h
    obtain ⟨after, hrecorded, rfl⟩ := compileLine_recording hline
    rw [List.cons_append, assignments, assignments, hrecorded]
    simp only [ih h, List.append_assoc]

/-- Lines further down make the same assignments there. -/
theorem assignments_shift (settings : Settings) (count : Nat) (lines : List LogicalLine)
    {p q : Progress σ} (h : SameState p q) :
    q.assignments settings (lines.map (LogicalLine.shift count)) =
      (p.assignments settings lines).map (Assignment.shift count) := by
  induction lines generalizing p q with
  | nil => rfl
  | cons line lines ih =>
    have hrecording : SameState p.recording q.recording :=
      ⟨congrArg (Recording.mk · []) h.engine, h.cursor, h.locals⟩
    have hagree := (simulates_shift (Recording σ) line count).compileLine hrecording settings
    rw [List.map_cons, assignments, assignments]
    generalize compileLine settings line p.recording = r,
      compileLine settings (line.shift count) q.recording = r' at hagree
    cases hagree with
    | error => rfl
    | @ok _ s t hst =>
      have hplayed : SameState s.played t.played :=
        ⟨congrArg Recording.engine hst.engine, hst.cursor, hst.locals⟩
      dsimp only
      rw [ih hplayed, ← hst.engine, Assignment.map_shift_assignments, List.map_append]

/-- Behind an absolute header, lines further down do the same from everywhere. -/
theorem compileLines_agree_of_isAbsoluteHeader {settings : Settings} {line : LogicalLine}
    (hline : SuitCursor.isAbsoluteHeader settings line.text = true) (lines : List LogicalLine)
    (count : Nat) {p q : Progress σ} (h : p.engine = q.engine) :
    Result.Agree SameState (compileLines settings (line :: lines) p)
      (compileLines settings ((line :: lines).map (LogicalLine.shift count)) q) := by
  refine (compileLine_agree_of_isAbsoluteHeader hline count h).bind fun _ s t hst => ?_
  refine compileLines_agree ?_ settings hst
  rw [List.forall₂_map_right_iff, List.forall₂_same]
  exact fun other _ => simulates_shift σ other count

end

/-- Behind an absolute header, lines further down make the same assignments from everywhere. -/
theorem assignments_shift_of_isAbsoluteHeader {settings : Settings} {line : LogicalLine}
    (hline : SuitCursor.isAbsoluteHeader settings line.text = true) (lines : List LogicalLine)
    (count : Nat) {p q : Progress Interpreter} (h : p.engine = q.engine) :
    q.assignments settings ((line :: lines).map (LogicalLine.shift count)) =
      (p.assignments settings (line :: lines)).map (Assignment.shift count) := by
  have hrecording : p.recording.engine = q.recording.engine := congrArg (Recording.mk · []) h
  have hagree := compileLine_agree_of_isAbsoluteHeader hline count hrecording
  rw [List.map_cons, assignments, assignments]
  generalize compileLine settings line p.recording = r,
    compileLine settings (line.shift count) q.recording = r' at hagree
  cases hagree with
  | error => rfl
  | @ok _ s t hst =>
    have hplayed : SameState s.played t.played :=
      ⟨congrArg Recording.engine hst.engine, hst.cursor, hst.locals⟩
    dsimp only
    rw [assignments_shift settings count lines hplayed, ← hst.engine,
      Assignment.map_shift_assignments, List.map_append]

end Progress

namespace LogicalLine

/-- Whether the first logical line of a text is an absolute suit header. -/
def beginsAbsolute (settings : Settings) (text : String) : Bool :=
  (ofText settings text).head?.any fun line => SuitCursor.isAbsoluteHeader settings line.text

/-- The raw lines that a text puts in front of another one. -/
def frontCount (front : String) : Nat := (Text.lines (front.toList ++ ['\n'])).length

end LogicalLine

namespace Deck

variable {deck middle built whole : Deck Interpreter} {front text : String}

/-- A successful build leaves the evaluator that the next build begins with. -/
theorem engine_start_of_build (hdeck : deck.Sound) (h : build text deck = .ok () built) :
    built.start.engine = built.engine := by
  have hglobals := globals_of_build hdeck h
  change ({ built.engine with globals := built.store.globals } : Interpreter) = built.engine
  rw [hglobals]

/-- Behind a built text, an absolute header leads the two builds to the same outcome. -/
private theorem compileLines_agree_of_build (hdeck : deck.Sound)
    (htext : LogicalLine.beginsAbsolute deck.settings text = true)
    (h : build front deck = .ok () middle) :
    ∃ progress, Progress.compileLines deck.settings (LogicalLine.ofText deck.settings front)
        deck.start = .ok () progress ∧ progress.engine = middle.engine ∧
      Result.Agree Progress.SameState
        (Progress.compileLines deck.settings (LogicalLine.ofText deck.settings text) middle.start)
        (Progress.compileLines deck.settings ((LogicalLine.ofText deck.settings text).map
          (LogicalLine.shift (LogicalLine.frontCount front))) progress) ∧
      progress.assignments deck.settings ((LogicalLine.ofText deck.settings text).map
          (LogicalLine.shift (LogicalLine.frontCount front))) =
        (middle.assignments text).map (Assignment.shift (LogicalLine.frontCount front)) := by
  have hengine := engine_start_of_build hdeck h
  have hsettings := settings_of_build h
  obtain ⟨progress, hlines, rfl⟩ := build_eq_ok_iff_compileLines.1 h
  unfold LogicalLine.beginsAbsolute at htext
  cases hofText : LogicalLine.ofText deck.settings text with
  | nil => simp [hofText] at htext
  | cons line lines =>
    have hline : SuitCursor.isAbsoluteHeader deck.settings line.text = true := by
      simpa [hofText] using htext
    refine ⟨progress, hlines, rfl, ?_, ?_⟩
    · exact Progress.compileLines_agree_of_isAbsoluteHeader hline lines _ hengine
    · rw [assignments, hsettings, hofText]
      exact Progress.assignments_shift_of_isAbsoluteHeader hline lines _ hengine

/-- A build of two texts with a line feed between them does what the lines of the first one and
then, further down, those of the second one do. -/
private theorem build_append_eq_ok_iff
    (hfront : LogicalLine.endsOpen deck.settings front = false) :
    build (front ++ "\n" ++ text) deck = .ok () whole ↔
      ∃ progress last, Progress.compileLines deck.settings (LogicalLine.ofText deck.settings front)
          deck.start = .ok () progress ∧
        Progress.compileLines deck.settings ((LogicalLine.ofText deck.settings text).map
          (LogicalLine.shift (LogicalLine.frontCount front))) progress = .ok () last ∧
        whole = ({ deck with engine := last.engine } : Deck Interpreter).takeOver
          last.compiled := by
  rw [build_eq_ok_iff_compileLines, LogicalLine.ofText_append text hfront,
    Progress.compileLines_append]
  constructor
  · rintro ⟨last, hlines, rfl⟩
    obtain ⟨_, progress, hfirst, hsecond⟩ := EStateM.bind_eq_ok_iff.1 hlines
    exact ⟨progress, last, hfirst, hsecond, rfl⟩
  · rintro ⟨progress, last, hfirst, hsecond, rfl⟩
    exact ⟨last, EStateM.bind_eq_ok_iff.2 ⟨(), progress, hfirst, hsecond⟩, rfl⟩

/-- One build of two texts makes the assignments of the first one and then, further down, those of
the second one. -/
private theorem assignments_append (hdeck : deck.Sound)
    (hfront : LogicalLine.endsOpen deck.settings front = false)
    (htext : LogicalLine.beginsAbsolute deck.settings text = true)
    (h : build front deck = .ok () middle) :
    deck.assignments (front ++ "\n" ++ text) = deck.assignments front ++
      (middle.assignments text).map (Assignment.shift (LogicalLine.frontCount front)) := by
  obtain ⟨progress, hlines, -, -, hassignments⟩ := compileLines_agree_of_build hdeck htext h
  rw [assignments, LogicalLine.ofText_append text hfront,
    Progress.assignments_append _ hlines]
  exact congrArg _ hassignments

/-- The line of a card that a text assigned, in a build where the text stands further down. -/
def shiftCard (count : Nat) (assigned : List Assignment) (card : Card) : Card :=
  if assigned.any fun a => a.global == card.globalName then
    { card with line := card.line.map (· + count) }
  else card

/-- What one build of two texts must make of a deck, compared with two builds. -/
structure SameUpToLines (assigned : List Assignment) (count : Nat)
    (built whole : Deck Interpreter) : Prop where
  /-- The globals are the same. -/
  globals : whole.engine.globals = built.engine.globals
  /-- The cards are the same, but for the lines of those that the second text assigned last. -/
  cards : ∀ path name, whole.store.card? path name =
    (built.store.card? path name).map (shiftCard count assigned)

/-- The two builds and the one build of two texts leave the same globals. -/
private theorem globals_eq_of_builds (hdeck : deck.Sound)
    (hfront : LogicalLine.endsOpen deck.settings front = false)
    (htext : LogicalLine.beginsAbsolute deck.settings text = true)
    (hmiddle : build front deck = .ok () middle) (hbuilt : build text middle = .ok () built)
    (hwhole : build (front ++ "\n" ++ text) deck = .ok () whole) :
    whole.engine.globals = built.engine.globals := by
  obtain ⟨progress, hlines, -, hagree, -⟩ := compileLines_agree_of_build hdeck htext hmiddle
  obtain ⟨second, hsecond, rfl⟩ := build_eq_ok_iff_compileLines.1 hbuilt
  obtain ⟨other, last, hother, hlast, rfl⟩ := (build_append_eq_ok_iff hfront).1 hwhole
  rw [hlines] at hother
  cases hother
  rw [settings_of_build hmiddle] at hsecond
  rw [hsecond, hlast] at hagree
  cases hagree with
  | ok hsame => exact congrArg Interpreter.globals hsame.engine.symm

/-- The two builds and the one build of two texts leave the same cards, but for the lines of those
that the second text assigned. -/
private theorem sameUpToLines_of_builds (hdeck : deck.Sound)
    (hfront : LogicalLine.endsOpen deck.settings front = false)
    (htext : LogicalLine.beginsAbsolute deck.settings text = true)
    (hmiddle : build front deck = .ok () middle) (hbuilt : build text middle = .ok () built)
    (hwhole : build (front ++ "\n" ++ text) deck = .ok () whole) :
    SameUpToLines (middle.assignments text) (LogicalLine.frontCount front) built whole := by
  have hglobals := globals_eq_of_builds hdeck hfront htext hmiddle hbuilt hwhole
  refine ⟨hglobals, fun path name => ?_⟩
  rw [Store.card?_eq_map_kept?, Store.card?_eq_map_kept?]
  by_cases hname : '.' ∈ name.toList
  · rw [kept?_eq_none_of_dot (hdeck.build hwhole) path hname,
      kept?_eq_none_of_dot ((hdeck.build hmiddle).build hbuilt) path hname]
    rfl
  · have hassigned : ∀ entry : Entry,
        ((middle.assignments text).any fun a =>
          a.global == (⟨entry, path, name⟩ : Card).globalName) =
        (Assignment.last? (middle.assignments text) (path.qualify name)).isSome := by
      intro entry
      rw [Assignment.last?, List.isSome_find?, List.any_reverse]
      rfl
    rw [kept?_of_build hdeck hwhole path hname,
      kept?_of_build (hdeck.build hmiddle) hbuilt path hname,
      kept?_of_build hdeck hmiddle path hname,
      assignments_append hdeck hfront htext hmiddle, Assignment.last?_append,
      Assignment.last?_map_shift, hglobals]
    cases hlast : Assignment.last? (middle.assignments text) (path.qualify name) with
    | some a =>
      cases hvalue : built.engine.globals[path.qualify name]? with
      | none => simp
      | some value =>
        simp only [Option.map_some, Option.some_or, shiftCard, hassigned, hlast]
        rfl
    | none =>
      -- What the second text did not assign is as the first one left it.
      have hsame : built.engine.globals[path.qualify name]? =
          middle.engine.globals[path.qualify name]? := by
        rw [getElem?_globals_of_build hbuilt hlast, globals_of_build hdeck hmiddle]
      simp only [Option.map_none, Option.none_or, hsame]
      cases Assignment.last? (deck.assignments front) (path.qualify name) with
      | some a =>
        cases middle.engine.globals[path.qualify name]? with
        | none => rfl
        | some value => simp [shiftCard, hassigned, hlast]
      | none =>
        cases deck.store.kept? path name with
        | none => rfl
        | some entry => simp [shiftCard, hassigned, hlast]

/-- To build a text behind another one is to build both with a line feed between them, when the
first one is complete and the second one begins with an absolute header: both fail, or both leave
the same globals and the same cards, but for the raw lines in front of those that the second text
assigned. -/
theorem buildBehind_eq_build (hdeck : deck.Reachable)
    (hfront : LogicalLine.endsOpen deck.settings front = false)
    (htext : LogicalLine.beginsAbsolute deck.settings text = true) :
    ((∃ built, buildBehind text front deck = .ok () built) ↔
      ∃ whole, build (front ++ "\n" ++ text) deck = .ok () whole) ∧
    ∀ middle built whole, build front deck = .ok () middle → build text middle = .ok () built →
      build (front ++ "\n" ++ text) deck = .ok () whole →
      SameUpToLines (middle.assignments text) (LogicalLine.frontCount front) built whole := by
  have hsound := hdeck.sound
  refine ⟨⟨?_, ?_⟩, ?_⟩
  · rintro ⟨built, hbehind⟩
    obtain ⟨middle, hmiddle, hbuilt⟩ := buildBehind_eq_ok_iff.1 hbehind
    obtain ⟨progress, hlines, -, hagree, -⟩ := compileLines_agree_of_build hsound htext hmiddle
    obtain ⟨second, hsecond, -⟩ := build_eq_ok_iff_compileLines.1 hbuilt
    rw [settings_of_build hmiddle] at hsecond
    rw [hsecond] at hagree
    generalize hlast : Progress.compileLines deck.settings _ progress = r at hagree
    cases hagree with
    | ok => exact ⟨_, (build_append_eq_ok_iff hfront).2 ⟨progress, _, hlines, hlast, rfl⟩⟩
  · rintro ⟨whole, hwhole⟩
    obtain ⟨progress, last, hfirst, hlast, -⟩ := (build_append_eq_ok_iff hfront).1 hwhole
    obtain ⟨middle, hmiddle⟩ : ∃ middle, build front deck = .ok () middle :=
      ⟨_, build_eq_ok_iff_compileLines.2 ⟨progress, hfirst, rfl⟩⟩
    obtain ⟨other, hother, -, hagree, -⟩ := compileLines_agree_of_build hsound htext hmiddle
    rw [hfirst] at hother
    cases hother
    rw [hlast] at hagree
    generalize hsecond : Progress.compileLines deck.settings _ (Deck.start _) = r at hagree
    cases hagree with
    | @ok _ second =>
      rw [← settings_of_build hmiddle] at hsecond
      have hbuilt := build_eq_ok_iff_compileLines.2 ⟨second, hsecond, rfl⟩
      exact ⟨_, buildBehind_eq_ok_iff.2 ⟨_, hmiddle, hbuilt⟩⟩
  · intro middle built whole hmiddle hbuilt hwhole
    exact sameUpToLines_of_builds hsound hfront htext hmiddle hbuilt hwhole

/-- Two texts, of which the second one uses a card of the first one, are built in turn and as one
to the same cards. -/
theorem buildBehind_eq_build_two_texts :
    LogicalLine.endsOpen {} "x = 1 # one\nz = x" = false ∧
    LogicalLine.beginsAbsolute {} "<s>\ny = x + 1 # two" = true ∧
    ∃ middle built whole : Deck Interpreter,
      build "x = 1 # one\nz = x" (empty {}) = .ok () middle ∧
      build "<s>\ny = x + 1 # two" middle = .ok () built ∧
      build "x = 1 # one\nz = x\n<s>\ny = x + 1 # two" (empty {}) = .ok () whole ∧
      SameUpToLines (middle.assignments "<s>\ny = x + 1 # two") 2 built whole := by
  have hfront : LogicalLine.endsOpen {} "x = 1 # one\nz = x" = false := by decide +kernel
  have htext : LogicalLine.beginsAbsolute {} "<s>\ny = x + 1 # two" = true := by decide +kernel
  obtain ⟨⟨⟩, last, hboth⟩ := EStateM.Result.eq_ok_of_succeeds
    (r := buildBehind "<s>\ny = x + 1 # two" "x = 1 # one\nz = x" (empty {})) (by decide +kernel)
  obtain ⟨middle, hmiddle, hbuilt⟩ := buildBehind_eq_ok_iff.1 hboth
  have hequal := @buildBehind_eq_build (empty {}) _ _ ⟨{}, .refl⟩ hfront htext
  obtain ⟨whole, hwhole⟩ := hequal.1.1 ⟨last, hboth⟩
  have hcount : LogicalLine.frontCount "x = 1 # one\nz = x" = 2 := by decide +kernel
  have hsame := hequal.2 middle last whole hmiddle hbuilt hwhole
  rw [hcount] at hsame
  exact ⟨hfront, htext, middle, last, whole, hmiddle, hbuilt, hwhole, hsame⟩

end Deck

end InputDeck
