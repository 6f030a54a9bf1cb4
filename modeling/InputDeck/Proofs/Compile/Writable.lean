import InputDeck.Proofs.Compile.Assignments
import InputDeck.Proofs.Compile.Headers
import InputDeck.Proofs.Expr.Writable
import InputDeck.Proofs.Suit.HeaderNames
import InputDeck.Proofs.Suit.UnbrokenPaths
import InputDeck.Proofs.Text.PlainLines

/-!
# Compilations that leave what can be written

A compilation keeps globals that can be assigned with values that can be written, and comments that
can stand behind them. Each line keeps this, so all lines do. When the suits of all headers are
paths of segments, the declared suits are named too.
-/

namespace InputDeck

open InputDeck.Text

variable {settings : Settings}

/-- Whether the headers among the logical lines of a text have paths of segments. -/
def LogicalLine.HasSegmentHeaders (settings : Settings) (text : String) : Prop :=
  ∀ line ∈ ofText settings text, SuitCursor.isHeader settings line.text = true →
    SuitCursor.HasSegments settings line.text

/-- Headers with paths of segments declare named suits. -/
theorem SuitCursor.isNamed_of_mem_declared {cursor : SuitCursor} (h : cursor.IsNamed)
    {lines : List LogicalLine}
    (hlines : ∀ line ∈ lines, isHeader settings line.text = true → HasSegments settings line.text)
    {path : SuitPath} (hpath : path ∈ cursor.declared settings lines) : path.IsNamed := by
  induction lines generalizing cursor with
  | nil => cases hpath
  | cons line lines ih =>
    have hrest := fun other hother => hlines other (List.mem_cons_of_mem line hother)
    rw [declared] at hpath
    split at hpath
    · next hheader =>
      split at hpath
      · next next hnext =>
        have hnamed := h.enter (hlines line List.mem_cons_self hheader) hnext
        rcases List.mem_cons.1 hpath with rfl | hpath
        · exact hnamed.current
        · exact ih hnamed hrest hpath
      · cases hpath
    · exact ih h hrest hpath

namespace Progress

/-- A state of a compilation with what can be written. -/
structure IsWritable (settings : Settings) (p : Progress Interpreter) : Prop where
  /-- All globals can be assigned. -/
  names : ∀ name, name ∈ p.engine.globals → IsAssignable name
  /-- Their values can be written. -/
  globals : Table.IsWritable p.engine.globals
  /-- So can those of the cards of the current suit. -/
  locals : Table.IsWritable p.locals
  /-- All comments can stand behind values. -/
  comments : ∀ (name : String) (origin : Origin), p.compiled.provenance[name]? = some origin →
    ∀ text, origin.comment = some text → IsComment settings text.toList
  /-- The suits of the cursor have no blanks. -/
  cursor : p.cursor.IsUnbroken

namespace IsWritable

variable {p q : Progress Interpreter}

/-- A statement whose only blanks are spaces leaves what can be written. -/
theorem sent (h : p.IsWritable settings) {statement : String} {report : Option String}
    {vm : Interpreter} (hstatement : IsPlain statement.toList)
    (hrun : Interpreter.interpret statement p.locals p.engine = .ok report vm) :
    (p.sent vm).IsWritable settings where
  names := by
    intro name hname
    cases report with
    | none =>
      apply h.names
      rwa [← Interpreter.globals_of_interpret_none hrun]
    | some key =>
      have hkey := Interpreter.isAssignable_of_interpret hrun
      obtain ⟨-, -, v, -, last, -, -, -, rfl⟩ := Interpreter.interpret_eq_some_iff.1 hrun
      dsimp only [Progress.sent] at hname
      rw [Std.ExtTreeMap.mem_insert, Std.LawfulEqCmp.compare_eq_iff_eq] at hname
      rcases hname with rfl | hname
      · exact hkey
      · exact h.names name hname
  globals := Interpreter.isWritable_of_interpret hstatement h.globals h.locals hrun
  locals := h.locals
  comments := h.comments
  cursor := h.cursor

/-- Sending a statement whose only blanks are spaces keeps what can be written. -/
theorem of_send (h : p.IsWritable settings) {statement : String} {location : Location}
    {hint report : Option String} (hstatement : IsPlain statement.toList)
    (hsend : send statement location hint p = .ok report q) : q.IsWritable settings := by
  obtain ⟨vm, hrun, rfl⟩ := send_eq_ok_iff.1 hsend
  exact h.sent hstatement hrun

/-- A binding keeps what can be written when its comment can stand behind a value. -/
theorem bind (h : p.IsWritable settings) (name key : String) (line : Nat) {comment : Option String}
    (hcomment : ∀ text, comment = some text → IsComment settings text.toList) :
    (p.bind name key ⟨line, comment⟩).IsWritable settings where
  names := h.names
  globals := h.globals
  locals := by
    unfold Progress.bind
    dsimp only
    split
    · next value hvalue => exact Table.IsWritable.insert h.locals _ (h.globals key value hvalue)
    · exact h.locals
  comments other origin horigin text htext := by
    have horigin : (p.compiled.provenance.insert key ⟨line, comment⟩)[other]? = some origin :=
      horigin
    rw [Table.getElem?_insert_eq] at horigin
    split at horigin
    · obtain rfl := Option.some.inj horigin
      exact hcomment text htext
    · exact h.comments other origin horigin text htext
  cursor := h.cursor

/-- The statement that assigns plain texts has no blanks but spaces. -/
theorem isPlain_assignment (h : p.IsWritable settings) {name value : String}
    (hname : IsPlain name.toList) (hvalue : IsPlain value.toList) :
    IsPlain (assignment p.cursor.current name value).toList := by
  have hsign : IsPlain " = ".toList := by
    intro c hc hblank
    have hchars : c = ' ' ∨ c = '=' ∨ c = ' ' := by simpa using hc
    rcases hchars with rfl | rfl | rfl
    · rfl
    · exact absurd hblank (by decide)
    · rfl
  have hfront : IsPlain p.cursor.current.globalPrefix.toList :=
    .of_isBlank h.cursor.current.isBlank_globalPrefix
  simp only [assignment, SuitPath.qualify, String.toList_append]
  exact ((hfront.append hname).append hsign).append hvalue

/-- An assignment of plain texts keeps what can be written. -/
theorem of_assign (h : p.IsWritable settings) {name value : String} {location : Location}
    {comment : Option String} (hname : IsPlain name.toList) (hvalue : IsPlain value.toList)
    (hcomment : ∀ text, comment = some text → IsComment settings text.toList)
    (hassign : assign name value location comment p = .ok () q) : q.IsWritable settings := by
  obtain ⟨report, vm, hrun, rfl⟩ := assign_eq_ok_iff.1 hassign
  have hsent := h.sent (h.isPlain_assignment hname hvalue) hrun
  exact hsent.bind _ _ _ hcomment

/-- Assignments of plain texts keep what can be written. -/
theorem of_assignAll (h : p.IsWritable settings) {location : Location} {comment : Option String}
    {pairs : List (String × String)}
    (hpairs : ∀ pair ∈ pairs, IsPlain pair.1.toList ∧ IsPlain pair.2.toList)
    (hcomment : ∀ text, comment = some text → IsComment settings text.toList)
    (hassign : assignAll location comment pairs p = .ok () q) : q.IsWritable settings := by
  induction pairs generalizing p comment with
  | nil =>
    cases hassign
    exact h
  | cons pair pairs ih =>
    obtain ⟨_, middle, hfirst, hrest⟩ := EStateM.bind_eq_ok_iff.1 hassign
    obtain ⟨hname, hvalue⟩ := hpairs pair List.mem_cons_self
    exact ih (h.of_assign hname hvalue hcomment hfirst)
      (fun other hother => hpairs other (List.mem_cons_of_mem _ hother)) (by simp) hrest

/-- A header keeps what can be written. -/
theorem entered (h : p.IsWritable settings) {cursor : SuitCursor} (hcursor : cursor.IsUnbroken) :
    (p.entered cursor).IsWritable settings where
  names := h.names
  globals := h.globals
  locals := by
    intro name v hv
    simp [Progress.entered] at hv
  comments := h.comments
  cursor := hcursor

/-- A logical line of a text keeps what can be written. -/
theorem of_compileLine (hs : settings.IsUsable) (h : p.IsWritable settings) {text : String}
    {line : LogicalLine} (hline : line ∈ LogicalLine.ofText settings text)
    (hcompile : compileLine settings line p = .ok () q) : q.IsWritable settings := by
  have hplain := LogicalLine.isPlain_text hline
  rcases compileLine_cases hcompile with ⟨-, cursor, hcursor, rfl⟩ | ⟨-, hcard⟩
  · exact h.entered (h.cursor.enter hcursor)
  · rcases compileCardLine_cases hcard with ⟨-, report, hsend⟩ | ⟨-, pairs, hpairs, hassign⟩
    · exact h.of_send hplain hsend
    · exact h.of_assignAll
        (fun pair hpair => (hpairs pair hpair).imp (·.isPlain hplain) (·.isPlain hplain))
        (fun comment hcomment => LogicalLine.isComment_of_mem hs hline hcomment) hassign

/-- Logical lines of a text keep what can be written. -/
theorem of_compileLines (hs : settings.IsUsable) (h : p.IsWritable settings) {text : String}
    {lines : List LogicalLine} (hlines : ∀ line ∈ lines, line ∈ LogicalLine.ofText settings text)
    (hcompile : compileLines settings lines p = .ok () q) : q.IsWritable settings := by
  induction lines generalizing p with
  | nil =>
    cases hcompile
    exact h
  | cons line lines ih =>
    obtain ⟨_, middle, hline, hrest⟩ := EStateM.bind_eq_ok_iff.1 hcompile
    exact ih (h.of_compileLine hs (hlines line List.mem_cons_self) hline)
      (fun other hother => hlines other (List.mem_cons_of_mem _ hother)) hrest

end IsWritable

end Progress

end InputDeck
