import InputDeck.Proofs.Compile.Locals

/-!
# What a name reads

A name of a line is looked up among the local names first and among the globals then. So it reads
the card of the suit exactly when the section has assigned the card above the line. The cards that
an earlier section of the same suit assigned are globals under their full names only: below a second
header of the suit, their short names read cards of the root, or nothing.
-/

namespace InputDeck

/-- The name that an error is about, when it is one that is not defined. -/
def EvalError.undefined? : EvalError → Option String
  | .undefinedName name => some name
  | _ => none

/-- No other error is about an undefined name. -/
theorem EvalError.undefined?_eq_some_iff {e : EvalError} {name : String} :
    e.undefined? = some name ↔ e = .undefinedName name := by
  cases e <;> simp [undefined?]

/-- A statement that was refused without a hint, and the name in it that is not defined. -/
def DeckError.undefined? : DeckError → Option (String × String)
  | .expression _ statement hint cause =>
    if hint = none then cause.undefined?.map (statement, ·) else none
  | _ => none

/-- Such a statement was refused because of the name. -/
theorem DeckError.exists_of_undefined? {e : DeckError} {statement name : String}
    (h : e.undefined? = some (statement, name)) :
    ∃ location, e = .expression location statement none (.undefinedName name) := by
  cases e with
  | expression location own hint cause =>
    rw [undefined?] at h
    split at h
    · next hhint =>
      obtain ⟨_, hname, hpair⟩ := Option.map_eq_some_iff.1 h
      obtain ⟨rfl, rfl⟩ := Prod.mk.inj hpair
      exact ⟨location, by rw [hhint, EvalError.undefined?_eq_some_iff.1 hname]⟩
    · cases h
  | _ => cases h

namespace Progress

/-- The names that the next statement can use. -/
def scope (progress : Progress Interpreter) : Scope := ⟨progress.engine.globals, progress.locals⟩

variable {settings : Settings} {text : String} {vm : Interpreter} {front body rest : List LogicalLine}
  {p q : Progress Interpreter} {done : List (String × String)} {location : Location}
  {comment : Option String} {r : Progress (Recording Interpreter)} {known : String → Prop}

/-- The lines of a section, and what is assigned one by one behind them, bind what they assign. -/
theorem binds_within_section (hsuit : p.cursor.current.Keeps known)
    (hbody : ∀ line ∈ body, SuitCursor.isHeader settings line.text = false)
    (h : compileLines settings body p = .ok () q)
    (hdone : ∀ pair ∈ done, Scan.QuotesPaired pair.2.toList)
    (hline : assignAll location comment done q.recording = .ok () r) :
    Binds known p r.played
      ((p.assignments settings body).map Assignment.global ++ r.engine.reports) := by
  have hbinds := binds_compileLines hsuit hbody h
  have hkeeps : q.recording.cursor.current.Keeps known := by
    rwa [← hbinds.cursor] at hsuit
  obtain ⟨names, hreports, hrest⟩ := reports_assignAll hkeeps hdone hline
  obtain rfl : names = r.engine.reports := hreports.symm
  exact hbinds.trans hrest

/-- What is assigned one by one behind the lines of a section is bound as the lines bind it, and all
that was assigned in the section or above is a global. -/
theorem within_section (hsuit : p.cursor.current.Keeps known)
    (hfront : ∀ line ∈ front.getLast?, SuitCursor.isHeader settings line.text = true)
    (hbody : ∀ line ∈ body, SuitCursor.isHeader settings line.text = false)
    (hstart : compileLines settings front { engine := vm } = .ok () p)
    (h : compileLines settings body p = .ok () q)
    (hdone : ∀ pair ∈ done, Scan.QuotesPaired pair.2.toList)
    (hline : assignAll location comment done q.recording = .ok () r) :
    (∀ name, known name → r.played.locals[name]? =
      if q.cursor.current.qualify name ∈
          (p.assignments settings body).map Assignment.global ++ r.engine.reports then
        r.played.engine.globals[q.cursor.current.qualify name]?
      else none) ∧
    (∀ a ∈ ({ engine := vm } : Progress Interpreter).assignments settings (front ++ body),
      a.global ∈ r.played.engine.globals) ∧
    ∀ name ∈ (p.assignments settings body).map Assignment.global ++ r.engine.reports,
      name ∈ r.played.engine.globals := by
  have hempty : p.locals = ∅ := locals_of_compileLines_getLast? rfl hfront hstart
  have hbinds := binds_within_section hsuit hbody h hdone hline
  have hcursor : r.played.cursor = q.cursor := (cursor_of_assignAll hline).1
  -- Any line with this number and this comment records the same.
  let line : LogicalLine := ⟨"", location.line, comment⟩
  have hsame : assignAll location line.comment done q.recording = .ok () r := hline
  obtain ⟨others, hothers, heffect⟩ := records_assignAll rfl hdone hsame
  rw [LogicalLine.map_global_assignments] at hothers
  obtain rfl : others = r.engine.reports := hothers.symm
  have hwhole : compileLines settings (front ++ body) { engine := vm } = .ok () q := by
    rw [compileLines_append]
    exact EStateM.bind_eq_ok_iff.2 ⟨(), p, hstart, h⟩
  refine ⟨fun name hname => ?_, fun a ha => ?_, fun name hname => ?_⟩
  · rw [hbinds.getElem?_locals_of_known hempty hname, hcursor]
  · exact heffect.mem_globals ((effect_compileLines hwhole).bound a ha).2
  · rcases List.mem_append.1 hname with hname | hname
    · obtain ⟨a, ha, rfl⟩ := List.mem_map.1 hname
      exact heffect.mem_globals ((effect_compileLines h).bound a ha).2
    · rw [← LogicalLine.map_global_assignments line r.engine.reports] at hname
      obtain ⟨a, ha, rfl⟩ := List.mem_map.1 hname
      exact (heffect.bound a ha).2

/-- Behind the lines of a section and what is assigned one by one behind them, a name that the suit
keeps stands for the card of the suit when it was assigned since the header, and otherwise for the
global with the name itself, if there is one. -/
theorem find_within_section (hsuit : p.cursor.current.Keeps known)
    (hfront : ∀ line ∈ front.getLast?, SuitCursor.isHeader settings line.text = true)
    (hbody : ∀ line ∈ body, SuitCursor.isHeader settings line.text = false)
    (hstart : compileLines settings front { engine := vm } = .ok () p)
    (h : compileLines settings body p = .ok () q)
    (hdone : ∀ pair ∈ done, Scan.QuotesPaired pair.2.toList)
    (hline : assignAll location comment done q.recording = .ok () r)
    {name : String} (hname : known name) (output : List String) :
    (q.cursor.current.qualify name ∈
        (p.assignments settings body).map Assignment.global ++ r.engine.reports →
      ∃ value, r.played.engine.globals[q.cursor.current.qualify name]? = some value ∧
        r.played.scope.find name output = .ok value output) ∧
    (q.cursor.current.qualify name ∉
        (p.assignments settings body).map Assignment.global ++ r.engine.reports →
      r.played.scope.find name output =
        match r.played.engine.globals[name]? with
        | some value => .ok value output
        | none => .error (.undefinedName name) output) := by
  obtain ⟨hlocals, -, hglobals⟩ := within_section hsuit hfront hbody hstart h hdone hline
  have hlocal := hlocals name hname
  refine ⟨fun hassigned => ?_, fun hnot => ?_⟩
  · obtain ⟨value, hvalue⟩ := Option.isSome_iff_exists.1
      (Std.ExtTreeMap.mem_iff_isSome_getElem?.1 (hglobals _ hassigned))
    rw [if_pos hassigned, hvalue] at hlocal
    refine ⟨value, hvalue, ?_⟩
    rw [Scope.find, Scope.lookup?, scope, hlocal]
    rfl
  · rw [if_neg hnot] at hlocal
    rw [Scope.find, Scope.lookup?, scope, hlocal]
    cases r.played.engine.globals[name]? <;> rfl

/-- In a text whose headers have paths of segments, behind every line and behind the first
assignments of the next one, a name reads the card of the current suit when it was assigned since the
last header, and otherwise the global with the name itself, if there is one. -/
theorem eval_name_of_compileLines
    (htext : LogicalLine.ofText settings text = front ++ body ++ rest)
    (hheaders : ∀ line ∈ LogicalLine.ofText settings text,
      SuitCursor.isHeader settings line.text = true → SuitCursor.HasSegments settings line.text)
    (hfront : ∀ line ∈ front.getLast?, SuitCursor.isHeader settings line.text = true)
    (hbody : ∀ line ∈ body, SuitCursor.isHeader settings line.text = false)
    (hstart : compileLines settings front { engine := vm } = .ok () p)
    (h : compileLines settings body p = .ok () q)
    (hdone : ∀ pair ∈ done, Scan.QuotesPaired pair.2.toList)
    (hline : assignAll location comment done q.recording = .ok () r)
    (name : String) (output : List String) :
    (q.cursor.current.qualify name ∈
        (p.assignments settings body).map Assignment.global ++ r.engine.reports →
      ∃ value, r.played.engine.globals[q.cursor.current.qualify name]? = some value ∧
        (Expr.name name).eval r.played.scope output = .ok value output) ∧
    (q.cursor.current.qualify name ∉
        (p.assignments settings body).map Assignment.global ++ r.engine.reports →
      (Expr.name name).eval r.played.scope output =
        match r.played.engine.globals[name]? with
        | some value => .ok value output
        | none => .error (.undefinedName name) output) := by
  have hnamed : p.cursor.IsNamed := isNamed_of_section htext hheaders hstart
  have heval : (Expr.name name).eval r.played.scope output = r.played.scope.find name output := by
    rw [Expr.eval]
  rw [heval]
  exact find_within_section hnamed.current.keeps hfront hbody hstart h hdone hline trivial output

/-- Only a text is a value with a text. -/
theorem eq_string_of_bind {value : Option Value} {s : String}
    (h : value.bind Value.string? = some s) : value = some (.string s) := by
  obtain ⟨v, rfl, hv⟩ := Option.bind_eq_some_iff.1 h
  cases v with
  | number => cases hv
  | boolean => cases hv
  | string => rw [Option.some.inj hv]

/-- Below the second header of a suit, behind the first assignment of a list, a name reads the root
although an earlier section of the suit assigned it, one that this section assigned reads the suit,
and the name of the list itself reads nothing. -/
theorem eval_name_of_compileLines_second_header :
    ∃ (q : Progress Interpreter) (r : Progress (Recording Interpreter)),
      compileLines {} (LogicalLine.ofText {} "x = \"root\"\n<s>\nx = \"own\"\n<t>\n<s>\nz = \"last\"")
        { engine := ({} : Interpreter) } = .ok () q ∧
      assignAll ⟨7, q.cursor.current⟩ none [("v[0]", "\"first\"")] q.recording = .ok () r ∧
      r.played.engine.globals["s.x"]? = some (.string "own") ∧
      (Expr.name "x").eval r.played.scope [] = .ok (.string "root") [] ∧
      (Expr.name "z").eval r.played.scope [] = .ok (.string "last") [] ∧
      (Expr.name "v").eval r.played.scope [] = .error (.undefinedName "v") [] := by
  let front : List LogicalLine := [⟨"x = \"root\"", 1, none⟩, ⟨"<s>", 2, none⟩,
    ⟨"x = \"own\"", 3, none⟩, ⟨"<t>", 4, none⟩, ⟨"<s>", 5, none⟩]
  let body : List LogicalLine := [⟨"z = \"last\"", 6, none⟩]
  have htext : LogicalLine.ofText {}
      "x = \"root\"\n<s>\nx = \"own\"\n<t>\n<s>\nz = \"last\"" = front ++ body ++ [] := by
    decide +kernel
  have hheaders : ∀ line ∈ front ++ body ++ [], SuitCursor.isHeader {} line.text = true →
      SuitCursor.HasSegments {} line.text := by
    have hnames : ∀ line ∈ front ++ body ++ [], SuitCursor.isHeader {} line.text = true →
        line.text = "<s>" ∨ line.text = "<t>" := by decide
    intro line hline hheader
    rcases hnames line hline hheader with he | he <;> rw [he]
    · exact .of_headerName "s".toList rfl (.absolute (.segment (by decide)))
    · exact .of_headerName "t".toList rfl (.absolute (.segment (by decide)))
  obtain ⟨⟨⟩, p, hstart, hpasses⟩ := EStateM.Result.exists_of_passes
    (compileLines {} front { engine := ({} : Interpreter) })
    (fun _ p => (compileLines {} body p).passes fun _ q =>
      (assignAll ⟨7, q.cursor.current⟩ none [("v[0]", "\"first\"")] q.recording).passes fun _ r =>
        decide (q.cursor.current.qualify "x" = "s.x" ∧ q.cursor.current.qualify "z" = "s.z" ∧
          q.cursor.current.qualify "v" = "s.v" ∧
          (p.assignments {} body).map Assignment.global ++ r.engine.reports = ["s.z", "s.v[0]"] ∧
          (r.played.engine.globals["s.x"]?.bind Value.string?) = some "own" ∧
          (r.played.engine.globals["s.z"]?.bind Value.string?) = some "last" ∧
          (r.played.engine.globals["x"]?.bind Value.string?) = some "root" ∧
          r.played.engine.globals["v"]?.isNone = true))
    (by decide +kernel)
  obtain ⟨⟨⟩, q, h, hpasses⟩ := EStateM.Result.exists_of_passes _ _ hpasses
  obtain ⟨⟨⟩, r, hline, hpasses⟩ := EStateM.Result.exists_of_passes _ _ hpasses
  obtain ⟨hx, hz, hv, hassigned, hown, hlast, hroot, hnone⟩ := of_decide_eq_true hpasses
  have hquotes : ∀ pair ∈ [("v[0]", "\"first\"")], Scan.QuotesPaired pair.2.toList := by decide
  have hreads := fun name => eval_name_of_compileLines htext (by rwa [htext]) (by decide)
    (by decide) hstart h hquotes hline name []
  refine ⟨q, r, ?_, hline, eq_string_of_bind hown, ?_, ?_, ?_⟩
  · rw [htext, List.append_nil, compileLines_append]
    exact EStateM.bind_eq_ok_iff.2 ⟨(), p, hstart, h⟩
  · rw [(hreads "x").2 (by rw [hx, hassigned]; decide), eq_string_of_bind hroot]
  · obtain ⟨value, hvalue, heval⟩ := (hreads "z").1 (by rw [hz, hassigned]; decide)
    rw [hz, eq_string_of_bind hlast] at hvalue
    rw [heval, Option.some.inj hvalue]
  · rw [(hreads "v").2 (by rw [hv, hassigned]; decide), Option.isNone_iff_eq_none.1 hnone]

/-- A card of a suit that was assigned above, in an earlier section of the suit, is not read below
the second header of the suit: the root is read in its place, and without it nothing is found. -/
theorem second_header_hides_cards :
    (∃ compiled vm, compile {} "x = \"root\"\n<s>\nx = \"own\"\n<t>\n<s>\nz = x"
        ({} : Interpreter) = .ok compiled vm ∧
        vm.globals["s.x"]? = some (.string "own") ∧ vm.globals["s.z"]? = some (.string "root")) ∧
      ∃ location vm, compile {} "<s>\nx = \"own\"\n<t>\n<s>\nz = x" ({} : Interpreter) =
        .error (.expression location "s.z = x" none (.undefinedName "x")) vm := by
  constructor
  · obtain ⟨compiled, vm, h, hvalues⟩ := EStateM.Result.exists_of_passes
      (compile {} "x = \"root\"\n<s>\nx = \"own\"\n<t>\n<s>\nz = x" ({} : Interpreter))
      (fun _ vm => decide ((vm.globals["s.x"]?.bind Value.string?) = some "own" ∧
        (vm.globals["s.z"]?.bind Value.string?) = some "root"))
      (by decide +kernel)
    obtain ⟨hown, hroot⟩ := of_decide_eq_true hvalues
    exact ⟨compiled, vm, h, eq_string_of_bind hown, eq_string_of_bind hroot⟩
  · obtain ⟨e, vm, h, hundefined⟩ := EStateM.Result.exists_of_fails
      (compile {} "<s>\nx = \"own\"\n<t>\n<s>\nz = x" ({} : Interpreter))
      (fun e _ => decide (e.undefined? = some ("s.z = x", "x")))
      (by decide +kernel)
    obtain ⟨location, rfl⟩ := DeckError.exists_of_undefined? (of_decide_eq_true hundefined)
    exact ⟨location, vm, h⟩

end Progress

end InputDeck
