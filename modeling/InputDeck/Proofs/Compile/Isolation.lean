import InputDeck.Proofs.Compile.Visibility

/-!
# What a line can change

The target of an assignment is the prefix of the current suit with the name of the line behind it,
read again as a whole. The name is closed, so no bracket or quote of the prefix can reach into it;
but a parenthesis at the front of the suit's path can close at the end of the name. Then the target
is what stands between them, which is no card of the suit. In every other suit a line changes
nothing but globals of the suit and of suits below it, whether it succeeds or fails.
-/

namespace InputDeck

open EStateM (Result)

namespace SuitPath

/-- Whether a suit is another one or stands below it. -/
def IsWithin (path above : SuitPath) : Prop :=
  path = above ∨ above = root ∨ ∃ rest, path.text.toList = above.text.toList ++ '/' :: rest

/-- Two paths with one dotted spelling are the same. -/
private theorem eq_of_map_dotted {path other : SuitPath}
    (h : path.text.toList.map dotted = other.text.toList.map dotted) : path = other := by
  rw [← ofString_map_dotted path, h, ofString_map_dotted]

/-- A global whose name begins with the prefix of a suit is a card of the suit or of one below it.
-/
theorem isWithin_of_isGlobalName {suit : SuitPath} {card : String}
    (h : IsGlobalName (suit.qualify card)) : (splitGlobal (suit.qualify card)).1.IsWithin suit := by
  have hdot := dot_notMem_splitGlobal (suit.qualify card)
  unfold IsGlobalName at h
  generalize (splitGlobal (suit.qualify card)).1 = path, (splitGlobal (suit.qualify card)).2 = name
    at h hdot
  by_cases hsuit : suit = root
  · exact .inr (.inl hsuit)
  have hnames := congrArg String.toList h
  rw [qualify, qualify, String.toList_append, String.toList_append, toList_globalPrefix hsuit,
    List.append_assoc, List.singleton_append] at hnames
  by_cases hroot : path = root
  · exfalso
    apply hdot
    rw [hroot, globalPrefix_root, String.toList_empty, List.nil_append] at hnames
    rw [hnames]
    simp
  rw [toList_globalPrefix hroot, List.append_assoc, List.singleton_append] at hnames
  rcases List.append_eq_append_iff.1 hnames with ⟨more, hpath, hname⟩ | ⟨more, hpath, hcard⟩
  · cases more with
    | nil => exact .inl (eq_of_map_dotted (by rw [hpath, List.append_nil]))
    | cons c more =>
      obtain ⟨-, hname⟩ := List.cons.inj hname
      exact absurd (by rw [hname]; simp) hdot
  · cases more with
    | nil => exact .inl (eq_of_map_dotted (by rw [hpath, List.append_nil]))
    | cons c more =>
      obtain ⟨rfl, -⟩ := List.cons.inj hcard
      refine .inr (.inr ⟨more.map slashed, ?_⟩)
      rw [← map_slashed_map_dotted path.isCanonical.dot_notMem, hpath, List.map_append,
        map_slashed_map_dotted suit.isCanonical.dot_notMem]
      rfl

end SuitPath

/-- A name that can be assigned begins with a letter or an underscore. -/
theorem IsAssignable.head?_ne {key : String} (h : IsAssignable key) :
    key.toList.head? ≠ some '(' := by
  have hdotted : ∀ {cs ds : List Char}, IsDottedName cs → (cs ++ ds).head? ≠ some '(' := by
    intro cs ds h
    obtain ⟨c, rest, rfl, hc⟩ := h.exists_cons
    rintro ⟨⟩
    exact absurd hc (by decide)
  cases h with
  | name h =>
    have := @hdotted _ [] h
    rwa [List.append_nil] at this
  | element h _ _ _ =>
    rw [elementName, String.toList_append, String.toList_append, String.toList_append,
      List.append_assoc, List.append_assoc]
    exact hdotted h

/-- Where a global that is assigned in a suit lands: under the prefix of the suit, and so in the
suit or below it, unless a parenthesis opens the path of the suit. -/
structure LandsIn (suit : SuitPath) (name : String) : Prop where
  /-- The prefix of the suit stands in front of the name, unless a parenthesis opens its path. -/
  prefixed : suit.globalPrefix.toList <+: name.toList ↔ suit.text.toList.head? ≠ some '('
  /-- Then the card is one of the suit or of a suit below it. -/
  within : suit.text.toList.head? ≠ some '(' → (SuitPath.splitGlobal name).1.IsWithin suit

namespace Interpreter

variable {suit : SuitPath} {name value key : String} {locals : Table Value}
  {vm after : Interpreter}

/-- A statement that assigns to a closed name in a suit without blanks reports a global that lands
in the suit. -/
theorem landsIn_of_interpret (hsuit : suit.IsUnbroken) (hname : Scan.IsClosed name.toList)
    (hvalue : Scan.QuotesPaired value.toList)
    (hrun : interpret (suit.qualify name ++ " = " ++ value) locals vm = .ok (some key) after) :
    LandsIn suit key := by
  have hassignable := isAssignable_of_interpret hrun
  by_cases hroot : suit = .root
  · subst hroot
    refine ⟨iff_of_true ?_ (by decide), fun _ => .inr (.inl rfl)⟩
    rw [SuitPath.globalPrefix_root]
    exact List.nil_prefix
  have hglobal := SuitPath.toList_globalPrefix hroot
  obtain ⟨c, rest, htext⟩ : ∃ c rest, suit.text.toList = c :: rest := by
    rcases suit.isCanonical.ends with he | ⟨hne, -, -⟩
    · exact ⟨_, _, he⟩
    · exact List.exists_cons_of_ne_nil hne
  rcases exists_qualify_of_isClosed hsuit hname (by simp [hglobal]) hvalue hrun with
    ⟨card, rfl⟩ | ⟨inner, hinner⟩
  · have hhead : suit.text.toList.head? ≠ some '(' := by
      have hkey := hassignable.head?_ne
      rw [SuitPath.qualify, String.toList_append, hglobal, htext] at hkey
      rw [htext]
      rintro ⟨⟩
      exact hkey rfl
    exact ⟨iff_of_true (by simp [SuitPath.qualify]) hhead,
      fun _ => SuitPath.isWithin_of_isGlobalName hassignable.isGlobalName⟩
  · have hhead : suit.text.toList.head? = some '(' := by
      rw [hglobal, htext] at hinner
      obtain ⟨hc, -⟩ := List.cons.inj hinner
      unfold SuitPath.dotted at hc
      split at hc
      · cases hc
      · rw [htext, hc]
        rfl
    refine ⟨iff_of_false (fun hpre => ?_) (by simp [hhead]), fun hne => absurd hhead hne⟩
    obtain ⟨more, hmore⟩ := hpre
    apply hassignable.head?_ne
    rw [← hmore, hglobal]
    rw [htext] at hhead ⊢
    obtain rfl := Option.some.inj hhead
    rfl

end Interpreter

namespace Progress

/-- Whether a global, or what is noted of it, differs between two states. -/
def Changes (before after : Progress Interpreter) (name : String) : Prop :=
  after.engine.globals[name]? ≠ before.engine.globals[name]? ∨
    after.compiled.provenance[name]? ≠ before.compiled.provenance[name]?

/-- Whether nothing changes between two states but globals that land in a suit. -/
def ChangesIn (suit : SuitPath) (before after : Progress Interpreter) : Prop :=
  ∀ name, Changes before after name → LandsIn suit name

/-- States with the same globals and notes differ in none. -/
theorem ChangesIn.of_eq {suit : SuitPath} {before after : Progress Interpreter}
    (hglobals : after.engine.globals = before.engine.globals)
    (hprovenance : after.compiled.provenance = before.compiled.provenance) :
    ChangesIn suit before after := by
  rintro name (h | h)
  · exact absurd (by rw [hglobals]) h
  · exact absurd (by rw [hprovenance]) h

/-- What changes in two steps changes in one of them. -/
theorem ChangesIn.trans {suit : SuitPath} (before middle after : Progress Interpreter)
    (hfront : ChangesIn suit before middle) (hrest : ChangesIn suit middle after) :
    ChangesIn suit before after := by
  intro name h
  by_cases hfirst : Changes before middle name
  · exact hfront name hfirst
  · simp only [Changes, ne_eq, not_or, not_not] at hfirst
    refine hrest name (h.imp ?_ ?_)
    · rw [hfirst.1]
      exact id
    · rw [hfirst.2]
      exact id

variable {p : Progress Interpreter}

/-- An assignment changes nothing but globals that land in the current suit. -/
theorem changesIn_assign (hsuit : p.cursor.current.IsUnbroken) {name value : String}
    (hname : Scan.IsClosed name.toList) (hvalue : Scan.QuotesPaired value.toList)
    (location : Location) (comment : Option String) :
    ChangesIn p.cursor.current p (assign name value location comment p).finalState := by
  unfold assign
  rw [EStateM.get_bind_apply, EStateM.bind_apply, send_apply]
  dsimp only [Evaluator.interpret]
  cases hrun : Interpreter.interpret (assignment p.cursor.current name value) p.locals p.engine with
  | error cause vm => exact .of_eq (Interpreter.globals_of_interpret_error hrun) rfl
  | ok report vm =>
    cases report with
    | none => exact absurd hrun (Interpreter.interpret_ne_none_of_quotesPaired hvalue)
    | some key =>
      have hlands := Interpreter.landsIn_of_interpret hsuit hname hvalue hrun
      obtain ⟨target, e, v, output, last, -, -, -, rfl⟩ := Interpreter.interpret_eq_some_iff.1 hrun
      intro other hother
      by_cases hkey : key = other
      · exact hkey ▸ hlands
      · have hbind : Changes p ((p.sent ⟨p.engine.globals.insert key v, last⟩).bind name key
            ⟨location.line, comment⟩) other := hother
        simp [Changes, bind, sent, Table.getElem?_insert_eq, hkey] at hbind

/-- Assignments one after the other change nothing but globals that land in the current suit. -/
theorem changesIn_assignAll (hsuit : p.cursor.current.IsUnbroken) (location : Location)
    (comment : Option String) {pairs : List (String × String)}
    (hpairs : ∀ pair ∈ pairs,
      Scan.IsClosed pair.1.toList ∧ Scan.QuotesPaired pair.2.toList) :
    ChangesIn p.cursor.current p (assignAll location comment pairs p).finalState := by
  induction pairs generalizing p comment with
  | nil => exact .of_eq rfl rfl
  | cons pair pairs ih =>
    obtain ⟨hname, hvalue⟩ := hpairs pair List.mem_cons_self
    refine EStateM.finalState_bind ChangesIn.trans
      (changesIn_assign hsuit hname hvalue location comment) fun _ q hassign => ?_
    have hcursor := (cursor_of_assign hassign).1
    rw [← hcursor] at hsuit ⊢
    exact ih hsuit none fun other hother => hpairs other (List.mem_cons_of_mem _ hother)

/-- A line that is no suit header changes nothing but globals that land in the current suit. -/
theorem changesIn_compileCardLine (hsuit : p.cursor.current.IsUnbroken) (line : LogicalLine) :
    ChangesIn p.cursor.current p (compileCardLine line p).finalState := by
  cases hcard : CardLine.ofText line.text (p.cursor.locate line.number) with
  | error e =>
    rw [compileCardLine_of_error hcard]
    exact .of_eq rfl rfl
  | ok card =>
    have hpart := CardLine.isPart_of_ofText hcard
    by_cases hexpression : ∃ text, card = .expression text
    · obtain ⟨text, rfl⟩ := hexpression
      obtain ⟨rfl, hcut⟩ := hpart
      rw [compileCardLine_of_expression hcard, EStateM.bind_apply, send_apply]
      dsimp only [Evaluator.interpret]
      cases hrun : Interpreter.interpret line.text p.locals p.engine with
      | error cause vm => exact .of_eq (Interpreter.globals_of_interpret_error hrun) rfl
      | ok report vm =>
        cases report with
        | some key => exact absurd hrun (Interpreter.interpret_ne_some_of_cutAssignment hcut key)
        | none => exact .of_eq (Interpreter.globals_of_interpret_none hrun) rfl
    · have hassigns : ∀ text, card ≠ .expression text := fun text he => hexpression ⟨text, he⟩
      rw [compileCardLine_of_card hcard hassigns]
      cases hpairs : card.pairs (p.cursor.locate line.number) p.existingLength? with
      | error e => exact .of_eq rfl rfl
      | ok pairs =>
        have hclosed := (CardLine.hasClosedName_of_ofText hcard).pairs hpairs
        exact changesIn_assignAll hsuit _ _ fun pair hpair =>
          ⟨hclosed pair hpair, (hpart.pairs hpairs pair hpair).2.paired⟩

/-- Whatever lines come before it, a line changes nothing but globals that land in the suit that is
current in front of it, also when it fails halfway. -/
theorem changesIn_compileLine {settings : Settings} {vm : Interpreter} {front : List LogicalLine}
    (hfront : compileLines settings front { engine := vm } = .ok () p) (line : LogicalLine) :
    ChangesIn p.cursor.current p (compileLine settings line p).finalState := by
  have hcursor : p.cursor.IsUnbroken := isUnbroken_of_compileLines .default hfront
  unfold compileLine
  split
  · rw [enter_apply]
    split
    · exact .of_eq rfl rfl
    · exact .of_eq rfl rfl
  · exact changesIn_compileCardLine hcursor.current line

/-- A list in a suit below another one changes its elements. -/
theorem changesIn_compileLine_list : ∃ p : Progress Interpreter,
    compileLines {} [⟨"<a/b[0>", 1, none⟩] { engine := ({} : Interpreter) } = .ok () p ∧
      ChangesIn p.cursor.current p (compileLine {} ⟨"v = \"x\", \"y\"", 2, none⟩ p).finalState := by
  obtain ⟨⟨⟩, p, hfront⟩ := EStateM.Result.eq_ok_of_succeeds
    (r := compileLines {} [⟨"<a/b[0>", 1, none⟩] { engine := ({} : Interpreter) })
    (by decide +kernel)
  exact ⟨p, hfront, changesIn_compileLine hfront _⟩

/-- A parenthesis that a header opens and a name closes lets a line of one suit assign to a card of
another one, which is neither that suit nor below it. -/
theorem parenthesis_leaves_suit : ∃ p q : Progress Interpreter,
    LogicalLine.ofText {} "<s>\nx = \"own\"\n<(s>\nx) = \"other\"" =
      [⟨"<s>", 1, none⟩, ⟨"x = \"own\"", 2, none⟩, ⟨"<(s>", 3, none⟩,
        ⟨"x) = \"other\"", 4, none⟩] ∧
      compileLines {} [⟨"<s>", 1, none⟩, ⟨"x = \"own\"", 2, none⟩, ⟨"<(s>", 3, none⟩]
        { engine := ({} : Interpreter) } = .ok () p ∧
      compileLine {} ⟨"x) = \"other\"", 4, none⟩ p = .ok () q ∧
      p.cursor.current.globalPrefix = "(s." ∧
      p.engine.globals["s.x"]? = some (.string "own") ∧
      q.engine.globals["s.x"]? = some (.string "other") := by
  have hrun : (match compileLines {}
        [⟨"<s>", 1, none⟩, ⟨"x = \"own\"", 2, none⟩, ⟨"<(s>", 3, none⟩]
        { engine := ({} : Interpreter) } with
      | .ok _ p => decide (p.cursor.current.globalPrefix = "(s." ∧
          (p.engine.globals["s.x"]?.bind Value.string?) = some "own") &&
        (match compileLine {} ⟨"x) = \"other\"", 4, none⟩ p with
        | .ok _ q => decide ((q.engine.globals["s.x"]?.bind Value.string?) = some "other")
        | .error _ _ => false)
      | .error _ _ => false) = true := by
    decide +kernel
  split at hrun
  · next p hfront =>
    obtain ⟨hp, hline⟩ := Bool.and_eq_true_iff.1 hrun
    obtain ⟨hglobal, hown⟩ := of_decide_eq_true hp
    split at hline
    · next q hq =>
      exact ⟨p, q, by decide +kernel, hfront, hq, hglobal, eq_string_of_bind hown,
        eq_string_of_bind (of_decide_eq_true hline)⟩
    · cases hline
  · cases hrun

end Progress

end InputDeck
