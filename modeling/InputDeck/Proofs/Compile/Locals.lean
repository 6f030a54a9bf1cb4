import InputDeck.Proofs.Compile.Assignments
import InputDeck.Proofs.Compile.Headers
import InputDeck.Proofs.Expr.References
import InputDeck.Proofs.Expr.Targets

/-!
# Local names

A header clears the local names, and every assignment below it binds one: the name within the suit
of the global that the evaluator reports, however the line spells it. So in a section, which is what
stands below a header up to the next one, the local names are the cards that the section assigned,
with the values that they have now.
-/

namespace InputDeck

/-- Whether statements that assign to names of a class in a suit assign to cards of the suit. -/
def SuitPath.Keeps (suit : SuitPath) (known : String → Prop) : Prop :=
  ∀ ⦃name value key : String⦄ ⦃locals : Table Value⦄ ⦃vm after : Interpreter⦄, known name →
    Scan.QuotesPaired value.toList →
    Interpreter.interpret (suit.qualify name ++ " = " ++ value) locals vm = .ok (some key) after →
    ∃ card, key = suit.qualify card

/-- A named suit keeps all names. -/
theorem SuitPath.IsNamed.keeps {suit : SuitPath} (h : suit.IsNamed) : suit.Keeps fun _ => True :=
  fun _ _ _ _ _ _ _ _ hrun => Interpreter.exists_qualify_of_interpret h hrun

/-- A suit without blanks keeps references. -/
theorem SuitPath.IsUnbroken.keeps {suit : SuitPath} (h : suit.IsUnbroken) :
    suit.Keeps IsReference :=
  fun _ _ _ _ _ _ hname hvalue hrun =>
    Interpreter.exists_qualify_of_reference h hname hvalue hrun

namespace Progress

variable {known : String → Prop}

/-- What the assignments of globals in one suit that keeps some names do: the cursor stays, all
other globals stay, and each assigned global is bound to its name within the suit, if that is one of
the names. -/
structure Binds (known : String → Prop) (before after : Progress Interpreter)
    (names : List String) : Prop where
  /-- The cursor stays. -/
  cursor : after.cursor = before.cursor
  /-- All other globals stay. -/
  unchanged : ∀ name, name ∉ names →
    after.engine.globals[name]? = before.engine.globals[name]?
  /-- What is assigned belongs to the suit, when the suit keeps all names. -/
  belongs : (∀ name, known name) → ∀ name ∈ names, ∃ card, name = before.cursor.current.qualify card
  /-- What is assigned is bound with its value, and all other local names stay. -/
  locals : ∀ card, known card → after.locals[card]? =
    if before.cursor.current.qualify card ∈ names then
      after.engine.globals[before.cursor.current.qualify card]?
    else before.locals[card]?

namespace Binds

variable {before middle after : Progress Interpreter} {front rest : List String}

/-- Without assignments nothing is bound. -/
theorem of_eq (hcursor : after.cursor = before.cursor) (hlocals : after.locals = before.locals)
    (hglobals : after.engine.globals = before.engine.globals) : Binds known before after [] where
  cursor := hcursor
  unchanged _ _ := by rw [hglobals]
  belongs := by simp
  locals _ _ := by simp [hlocals]

/-- What is bound first and what is bound then. -/
theorem trans (hfront : Binds known before middle front) (hrest : Binds known middle after rest) :
    Binds known before after (front ++ rest) where
  cursor := hrest.cursor.trans hfront.cursor
  unchanged name hname := by
    rw [List.mem_append, not_or] at hname
    rw [hrest.unchanged name hname.2, hfront.unchanged name hname.1]
  belongs hall name hname := by
    rcases List.mem_append.1 hname with hname | hname
    · exact hfront.belongs hall name hname
    · rw [← hfront.cursor]
      exact hrest.belongs hall name hname
  locals card hcard := by
    rw [hrest.locals card hcard, hfront.locals card hcard, hfront.cursor]
    simp only [List.mem_append]
    by_cases hlast : before.cursor.current.qualify card ∈ rest
    · simp [hlast]
    · simp [hlast, hrest.unchanged _ hlast]

/-- When there were no local names, there are those of what was assigned now. -/
theorem getElem?_locals_of_known (h : Binds known before after front) (hempty : before.locals = ∅)
    {name : String} (hname : known name) : after.locals[name]? =
      if after.cursor.current.qualify name ∈ front then
        after.engine.globals[after.cursor.current.qualify name]?
      else none := by
  rw [h.locals name hname, h.cursor, hempty]
  simp

/-- When the suit keeps all names, these are all local names. -/
theorem getElem?_locals (h : Binds (fun _ => True) before after front) (hempty : before.locals = ∅)
    (name : String) : after.locals[name]? =
      if after.cursor.current.qualify name ∈ front then
        after.engine.globals[after.cursor.current.qualify name]?
      else none :=
  h.getElem?_locals_of_known hempty trivial

/-- When the suit keeps all names, all that is assigned belongs to it. -/
theorem inSuit (h : Binds (fun _ => True) before after front) (name : String) (hname : name ∈ front) :
    ∃ card, name = before.cursor.current.qualify card :=
  h.belongs (fun _ => trivial) name hname

end Binds

/-- What a recorded part of a line binds: the names that the evaluator reports. -/
structure Reports (known : String → Prop) (before after : Progress (Recording Interpreter))
    (names : List String) : Prop where
  /-- The names are reported. -/
  reports : after.engine.reports = before.engine.reports ++ names
  /-- They are bound. -/
  binds : Binds known before.played after.played names

/-- Parts of a line bind in turn. -/
theorem Reports.trans {before middle after : Progress (Recording Interpreter)}
    {front rest : List String} (hfront : Reports known before middle front)
    (hrest : Reports known middle after rest) : Reports known before after (front ++ rest) where
  reports := by rw [hrest.reports, hfront.reports, List.append_assoc]
  binds := hfront.binds.trans hrest.binds

section

variable {before after : Progress (Recording Interpreter)} {line : LogicalLine}

/-- An assignment binds the name that the evaluator reports. -/
private theorem reports_assign (hsuit : before.cursor.current.Keeps known) {name value : String}
    {location : Location} {comment : Option String} (hvalue : Scan.QuotesPaired value.toList)
    (h : assign name value location comment before = .ok () after) :
    ∃ key, Reports known before after [key] := by
  obtain ⟨report, vm, hrun, rfl⟩ := exists_of_assign h
  cases report with
  | none => exact absurd hrun (Interpreter.interpret_ne_none_of_quotesPaired hvalue)
  | some key =>
    obtain ⟨target, e, v, output, last, -, -, -, rfl⟩ := Interpreter.interpret_eq_some_iff.1 hrun
    refine ⟨key, by simp [bind, sent], rfl, fun other hother => ?_, fun hall other hother => ?_,
      fun other hother => ?_⟩
    · have hne : key ≠ other := fun he => hother (by simp [he])
      simp [bind, sent, played, Table.getElem?_insert_eq, hne]
    · rw [List.mem_singleton.1 hother]
      exact hsuit (hall name) hvalue hrun
    · simp only [bind, sent, played, Evaluator.globals, Option.getD_some,
        Table.getElem?_insert_eq, if_true, List.mem_singleton]
      cases hlocal : before.cursor.current.localize key with
      | some card =>
        obtain rfl := SuitPath.localize_eq_some_iff.1 hlocal
        by_cases he : card = other
        · simp [he]
        · simp [he, Ne.symm he]
      | none =>
        -- Only a name that the suit does not keep is bound as the line spells it.
        have hnone : ∀ card, key ≠ before.cursor.current.qualify card := fun card he => by
          rw [he, SuitPath.localize_qualify] at hlocal
          cases hlocal
        have hne : name ≠ other := by
          rintro rfl
          obtain ⟨card, hcard⟩ := hsuit hother hvalue hrun
          exact hnone card hcard
        simp [hne, (hnone other).symm]

/-- Assignments bind the names that the evaluator reports. -/
theorem reports_assignAll (hsuit : before.cursor.current.Keeps known) {location : Location}
    {comment : Option String} {pairs : List (String × String)}
    (hpairs : ∀ pair ∈ pairs, Scan.QuotesPaired pair.2.toList)
    (h : assignAll location comment pairs before = .ok () after) :
    ∃ names, Reports known before after names := by
  induction pairs generalizing before comment with
  | nil =>
    cases h
    exact ⟨[], by simp, .of_eq rfl rfl rfl⟩
  | cons pair pairs ih =>
    obtain ⟨_, middle, hfirst, h⟩ := EStateM.bind_eq_ok_iff.1 h
    obtain ⟨key, hkey⟩ := reports_assign hsuit (hpairs pair List.mem_cons_self) hfirst
    have hcursor : middle.cursor = before.cursor := hkey.binds.cursor
    obtain ⟨names, hnames⟩ := ih (by rwa [hcursor])
      (fun other hother => hpairs other (List.mem_cons_of_mem _ hother)) h
    exact ⟨_, hkey.trans hnames⟩

/-- A line binds the names that the evaluator reports. -/
private theorem reports_compileCardLine (hsuit : before.cursor.current.Keeps known)
    (h : compileCardLine line before = .ok () after) :
    ∃ names, Reports known before after names := by
  rcases compileCardLine_cases h with ⟨hcut, report, hsend⟩ | ⟨-, pairs, hpairs, h⟩
  · obtain ⟨vm, hrun, rfl⟩ := exists_of_send hsend
    cases report with
    | some key => exact absurd hrun (Interpreter.interpret_ne_some_of_cutAssignment hcut key)
    | none =>
      exact ⟨[], by simp [sent], .of_eq rfl rfl (Interpreter.globals_of_interpret_none hrun)⟩
  · exact reports_assignAll hsuit (fun pair hpair => (hpairs pair hpair).2.paired) h

end

variable {settings : Settings} {lines : List LogicalLine} {p q : Progress Interpreter}

/-- The lines of a section bind what they assign. -/
theorem binds_compileLines (hsuit : p.cursor.current.Keeps known)
    (hlines : ∀ line ∈ lines, SuitCursor.isHeader settings line.text = false)
    (h : compileLines settings lines p = .ok () q) :
    Binds known p q ((p.assignments settings lines).map Assignment.global) := by
  induction lines generalizing p with
  | nil =>
    cases h
    exact .of_eq rfl rfl rfl
  | cons line lines ih =>
    obtain ⟨_, middle, hline, h⟩ := EStateM.bind_eq_ok_iff.1 h
    obtain ⟨after, hrecorded, rfl⟩ := compileLine_recording hline
    have hcard : compileCardLine line p.recording = .ok () after := by
      rwa [compileLine, hlines line List.mem_cons_self, if_neg (by simp)] at hrecorded
    have hkeeps : p.recording.cursor.current.Keeps known := hsuit
    obtain ⟨names, hreports, hbinds⟩ := reports_compileCardLine hkeeps hcard
    have hcursor : after.played.cursor = p.cursor := hbinds.cursor
    have hrest := ih (by rwa [hcursor])
      (fun other hother => hlines other (List.mem_cons_of_mem _ hother)) h
    have hnames : after.engine.reports = names := hreports
    have hassigned : p.assignments settings (line :: lines) =
        line.assignments names ++ after.played.assignments settings lines := by
      rw [assignments, hrecorded, ← hnames]
    rw [hassigned, List.map_append, LogicalLine.map_global_assignments]
    exact Binds.trans hbinds hrest

/-- Every property of cursors that the headers of some lines keep is kept by the lines. -/
theorem cursor_induction {P : SuitCursor → Prop}
    (hlines : ∀ line ∈ lines, SuitCursor.isHeader settings line.text = true →
      ∀ cursor next : SuitCursor, P cursor →
        cursor.enter settings line.text line.number = .ok next → P next)
    (hp : P p.cursor) (h : compileLines settings lines p = .ok () q) : P q.cursor := by
  induction lines generalizing p with
  | nil =>
    cases h
    exact hp
  | cons line lines ih =>
    obtain ⟨_, middle, hline, h⟩ := EStateM.bind_eq_ok_iff.1 h
    refine ih (fun other hother => hlines other (List.mem_cons_of_mem _ hother)) ?_ h
    rcases compileLine_cases hline with ⟨hheader, cursor, hcursor, rfl⟩ | ⟨-, hcard⟩
    · exact hlines line List.mem_cons_self hheader _ _ hp hcursor
    · rw [(cursor_of_compileCardLine hcard).1]
      exact hp

/-- Lines whose headers have paths of segments lead from named suits to named suits. -/
theorem isNamed_of_compileLines
    (hlines : ∀ line ∈ lines, SuitCursor.isHeader settings line.text = true →
      SuitCursor.HasSegments settings line.text)
    (hp : p.cursor.IsNamed) (h : compileLines settings lines p = .ok () q) : q.cursor.IsNamed :=
  cursor_induction (fun line hline hheader _ _ hcursor henter =>
    hcursor.enter (hlines line hline hheader) henter) hp h

/-- All lines lead from suits without blanks to suits without blanks. -/
theorem isUnbroken_of_compileLines (hp : p.cursor.IsUnbroken)
    (h : compileLines settings lines p = .ok () q) : q.cursor.IsUnbroken :=
  cursor_induction (fun _ _ _ _ _ hcursor henter => hcursor.enter henter) hp h

/-- Behind a header there are no local names. -/
theorem locals_of_compileLines_getLast? (hp : p.locals = ∅)
    (hlast : ∀ line ∈ lines.getLast?, SuitCursor.isHeader settings line.text = true)
    (h : compileLines settings lines p = .ok () q) : q.locals = ∅ := by
  rcases List.eq_nil_or_concat lines with rfl | ⟨front, header, rfl⟩
  · cases h
    exact hp
  · have hheader := hlast header (by simp)
    rw [List.concat_eq_append, compileLines_append] at h
    obtain ⟨_, middle, -, h⟩ := EStateM.bind_eq_ok_iff.1 h
    obtain ⟨_, last, hline, h⟩ := EStateM.bind_eq_ok_iff.1 h
    cases h
    rw [compileLine, if_pos hheader] at hline
    obtain ⟨cursor, -, rfl⟩ := enter_eq_ok_iff.1 hline
    rfl

section

variable {text : String} {vm : Interpreter} {front body rest : List LogicalLine}

/-- The sections of a text whose headers have paths of segments are in named suits. -/
theorem isNamed_of_section (htext : LogicalLine.ofText settings text = front ++ body ++ rest)
    (hheaders : ∀ line ∈ LogicalLine.ofText settings text,
      SuitCursor.isHeader settings line.text = true → SuitCursor.HasSegments settings line.text)
    (hstart : compileLines settings front { engine := vm } = .ok () p) : p.cursor.IsNamed := by
  refine isNamed_of_compileLines (fun line hline => hheaders line ?_) .default hstart
  rw [htext]
  simp [hline]

/-- What the local names of a state are, when it has been reached in a section by some assignments.
-/
structure Scoped (progress : Progress Interpreter) (assigned : List Assignment) : Prop where
  /-- A local name has the value that its global has now. -/
  current : ∀ name value, progress.locals[name]? = some value →
    progress.engine.globals[progress.cursor.current.qualify name]? = some value
  /-- What was assigned belongs to the suit, and is bound to its name there. -/
  bound : ∀ a ∈ assigned, ∃ name value, progress.cursor.current.localize a.global = some name ∧
    progress.locals[name]? = some value
  /-- No other name is bound, so none is left of another section. -/
  since : ∀ name ∈ progress.locals, ∃ a ∈ assigned,
    a.global = progress.cursor.current.qualify name

/-- Behind every line of a text whose headers have paths of segments, the local names are the cards
that were assigned since the last header, with the values that their globals have now. -/
theorem scoped_of_compileLines
    (htext : LogicalLine.ofText settings text = front ++ body ++ rest)
    (hheaders : ∀ line ∈ LogicalLine.ofText settings text,
      SuitCursor.isHeader settings line.text = true → SuitCursor.HasSegments settings line.text)
    (hfront : ∀ line ∈ front.getLast?, SuitCursor.isHeader settings line.text = true)
    (hbody : ∀ line ∈ body, SuitCursor.isHeader settings line.text = false)
    (hstart : compileLines settings front { engine := vm } = .ok () p)
    (h : compileLines settings body p = .ok () q) : q.Scoped (p.assignments settings body) := by
  have hnamed : p.cursor.IsNamed := isNamed_of_section htext hheaders hstart
  have hbinds := binds_compileLines hnamed.current.keeps hbody h
  have hlocals := hbinds.getElem?_locals (locals_of_compileLines_getLast? rfl hfront hstart)
  refine ⟨fun name value hvalue => ?_, fun a ha => ?_, fun name hname => ?_⟩
  · rw [hlocals] at hvalue
    split at hvalue
    · exact hvalue
    · cases hvalue
  · have hmem : a.global ∈ (p.assignments settings body).map Assignment.global :=
      List.mem_map_of_mem ha
    obtain ⟨card, hcard⟩ := hbinds.inSuit a.global hmem
    rw [← hbinds.cursor] at hcard
    obtain ⟨value, hvalue⟩ := Option.isSome_iff_exists.1
      (Std.ExtTreeMap.mem_iff_isSome_getElem?.1 ((effect_compileLines h).bound a ha).2)
    refine ⟨card, value, SuitPath.localize_eq_some_iff.2 hcard, ?_⟩
    rw [hlocals, ← hcard, if_pos hmem, hvalue]
  · rw [Std.ExtTreeMap.mem_iff_isSome_getElem?, hlocals] at hname
    split at hname
    · next hmem => exact List.mem_map.1 hmem
    · cases hname

/-- In the section of a relative header, an element is assigned by a computed index. -/
theorem scoped_of_compileLines_elements :
    ∃ front body rest : List LogicalLine, ∃ p q : Progress Interpreter,
      LogicalLine.ofText {} "<a/b>\nx = 1\n<../c>\nv = 1, 2\nv[1 + 1] = v[0]\n<a/b>" =
        front ++ body ++ rest ∧
      front.length = 3 ∧ body.length = 2 ∧
      compileLines {} front { engine := ({} : Interpreter) } = .ok () p ∧
      compileLines {} body p = .ok () q ∧ q.Scoped (p.assignments {} body) := by
  let front : List LogicalLine := [⟨"<a/b>", 1, none⟩, ⟨"x = 1", 2, none⟩, ⟨"<../c>", 3, none⟩]
  let body : List LogicalLine := [⟨"v = 1, 2", 4, none⟩, ⟨"v[1 + 1] = v[0]", 5, none⟩]
  have htext : LogicalLine.ofText {} "<a/b>\nx = 1\n<../c>\nv = 1, 2\nv[1 + 1] = v[0]\n<a/b>" =
      front ++ body ++ [⟨"<a/b>", 6, none⟩] := by decide +kernel
  have hheaders : ∀ line ∈ front ++ body ++ [⟨"<a/b>", 6, none⟩],
      SuitCursor.isHeader {} line.text = true → SuitCursor.HasSegments {} line.text := by
    have hnames : ∀ line ∈ front ++ body ++ [⟨"<a/b>", 6, none⟩],
        SuitCursor.isHeader {} line.text = true → line.text = "<a/b>" ∨ line.text = "<../c>" := by
      decide
    intro line hline hheader
    rcases hnames line hline hheader with he | he <;> rw [he]
    · have hsegments : IsDottedName ("a".toList ++ '.' :: "b".toList) :=
        .dot (.segment (by decide)) (by decide)
      exact .of_headerName "a/b".toList rfl (.absolute hsegments)
    · have hsegments : IsDottedName "c".toList := .segment (by decide)
      exact .of_headerName "../c".toList rfl (.relative hsegments)
  obtain ⟨⟨⟩, q, hboth⟩ := EStateM.Result.eq_ok_of_succeeds
    (r := (do compileLines {} front; compileLines {} body :
      EStateM DeckError (Progress Interpreter) Unit) { engine := {} })
    (by decide +kernel)
  obtain ⟨_, p, hstart, h⟩ := EStateM.bind_eq_ok_iff.1 hboth
  exact ⟨front, body, _, p, q, htext, rfl, rfl, hstart, h, scoped_of_compileLines htext
    (by rwa [htext]) (by decide) (by decide) hstart h⟩

end

end Progress

end InputDeck
