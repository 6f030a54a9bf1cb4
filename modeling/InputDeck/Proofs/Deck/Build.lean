import InputDeck.Proofs.Deck.Reachable
import InputDeck.Proofs.Store.FirstSeen
import InputDeck.Proofs.Text.LogicalLines

/-!
# What a build does to the cards

After a build the globals are the cards. A card whose global the text assigned has the final value
of the global and the line and comment of the last assignment; every other card is as it was, and
no card or suit is lost.
-/

namespace InputDeck

/-- What the last assignment of a global makes of its value. -/
def Assignment.entry (a : Assignment) (value : Value) : Entry where
  value := value
  line := some a.line.number
  comment := a.comment

namespace Deck

variable {deck built : Deck Interpreter} {text : String}

/-- The suits that the headers of a text declare. -/
def declared (deck : Deck Interpreter) (text : String) : List SuitPath :=
  SuitCursor.declared deck.settings {} (LogicalLine.ofText deck.settings text)

/-- Suits of headers fill no place. -/
@[simp] theorem kept?_foldl_ensureSuit (store : Store) (suits : List SuitPath) (path : SuitPath)
    (name : String) :
    (suits.foldl Store.ensureSuit store).kept? path name = store.kept? path name := by
  induction suits generalizing store with
  | nil => rfl
  | cons suit suits ih => rw [List.foldl_cons, ih, Store.kept?_ensureSuit]

/-- Suits of headers keep the suits that are there, in their order. -/
theorem order_prefix_foldl_ensureSuit (store : Store) (suits : List SuitPath) :
    store.order <+: (suits.foldl Store.ensureSuit store).order := by
  induction suits generalizing store with
  | nil => exact List.prefix_rfl
  | cons suit suits ih => exact (Store.order_prefix_ensureSuit store suit).trans (ih _)

/-- Suits of headers are there in the end. -/
theorem mem_order_foldl_ensureSuit {store : Store} {suits : List SuitPath} {suit : SuitPath}
    (h : suit ∈ suits) : suit ∈ (suits.foldl Store.ensureSuit store).order := by
  rw [Store.order_foldl_ensureSuit_eq, mem_addSuits]
  exact .inr h

/-- A build takes over what the lines of its text did. -/
theorem exists_effect_of_build (h : build text deck = .ok () built) :
    ∃ compiled : Compiled,
      Progress.Effect deck.start { deck.start with engine := built.engine, compiled := compiled }
        (deck.assignments text) ∧
      compiled.suits = addSuits [] (deck.declared text) ∧
      built = ({ deck with engine := built.engine } : Deck Interpreter).takeOver compiled := by
  obtain ⟨progress, hlines, rfl⟩ := build_eq_ok_iff_compileLines.1 h
  have heffect := Progress.effect_compileLines hlines
  exact ⟨progress.compiled, ⟨heffect.provenance, heffect.unchanged, heffect.bound⟩,
    Progress.suits_of_compileLines hlines, rfl⟩

/-- The global that the text does not assign keeps its value. -/
theorem getElem?_globals_of_build (h : build text deck = .ok () built) {name : String}
    (hname : Assignment.last? (deck.assignments text) name = none) :
    built.engine.globals[name]? = deck.store.globals[name]? := by
  obtain ⟨compiled, heffect, -, -⟩ := exists_effect_of_build h
  exact heffect.unchanged name (Assignment.last?_eq_none_iff.1 hname)

/-- No global is lost in a build. -/
theorem mem_globals_of_build (h : build text deck = .ok () built) {name : String}
    (hname : name ∈ deck.store.globals) : name ∈ built.engine.globals := by
  obtain ⟨compiled, heffect, -, -⟩ := exists_effect_of_build h
  exact heffect.mem_globals hname

/-- After a build the globals are the cards. -/
theorem globals_of_build (hdeck : deck.Sound) (h : build text deck = .ok () built) :
    built.store.globals = built.engine.globals := by
  have hsound := hdeck.build h
  obtain ⟨compiled, heffect, -, hbuilt⟩ := exists_effect_of_build h
  have hwell := wellFormed_foldl_ensureSuit hdeck.store compiled.suits
  rw [hbuilt]
  refine Store.globals_withGlobals hwell hsound.globals fun name hname => heffect.mem_globals ?_
  have hsame : (compiled.suits.foldl Store.ensureSuit deck.store).globals = deck.store.globals := by
    apply Table.ext_getElem?
    intro other
    rw [Store.getElem?_globals hwell, Store.getElem?_globals hdeck.store, kept?_foldl_ensureSuit]
  rwa [globals_start, ← hsame]

/-- A build puts the final values of the globals that the text assigns in their places, with the
lines and comments of their last assignments, and leaves every other place as it is. -/
theorem kept?_of_build (hdeck : deck.Sound) (h : build text deck = .ok () built)
    (path : SuitPath) {name : String} (hname : '.' ∉ name.toList) :
    built.store.kept? path name =
      match Assignment.last? (deck.assignments text) (path.qualify name) with
      | some a => built.engine.globals[path.qualify name]?.map a.entry
      | none => deck.store.kept? path name := by
  have hnames := (hdeck.build h).globals
  obtain ⟨compiled, heffect, -, hbuilt⟩ := exists_effect_of_build h
  have hstore : built.store =
      (compiled.suits.foldl Store.ensureSuit deck.store).withGlobals compiled.provenance
        built.engine.globals := by
    conv => lhs; rw [hbuilt]
    rfl
  have hprovenance : compiled.provenance[path.qualify name]? =
      (Assignment.last? (deck.assignments text) (path.qualify name)).map Assignment.origin := by
    have := congrArg (·[path.qualify name]?) heffect.provenance
    simpa [Assignment.getElem?_foldl_record, start] using this
  rw [hstore]
  cases hlast : Assignment.last? (deck.assignments text) (path.qualify name) with
  | some a =>
    rw [hlast, Option.map_some] at hprovenance
    obtain ⟨ha, hglobal⟩ := Assignment.global_of_last? hlast
    have hmem := (heffect.bound a ha).2
    rw [hglobal, Std.ExtTreeMap.mem_iff_isSome_getElem?] at hmem
    obtain ⟨value, hvalue⟩ := Option.isSome_iff_exists.1 hmem
    have hvalue : built.engine.globals[path.qualify name]? = some value := hvalue
    rw [Store.kept?_withGlobals_of_some hnames path hname hvalue,
      Store.toEntry_cardOfGlobal_of_origin value hprovenance, hvalue]
    have hcomment : a.comment ≠ some "" := by
      unfold Assignment.comment
      split
      · exact LogicalLine.comment_ne_empty (Progress.line_mem_of_mem_assignments ha)
      · simp
    simp only [Assignment.origin, Entry.withComment, Option.map_some, Assignment.entry]
    split
    · next comment heq =>
      rw [if_neg fun he => hcomment (by rw [heq, he]), heq]
    · next heq => rw [heq]
  | none =>
    rw [hlast, Option.map_none] at hprovenance
    have hold := getElem?_globals_of_build h hlast
    rw [Store.getElem?_globals_qualify hdeck.store path hname] at hold
    cases hentry : deck.store.kept? path name with
    | none =>
      rw [hentry, Option.map_none] at hold
      rw [Store.kept?_withGlobals_of_none hnames path hold, kept?_foldl_ensureSuit, hentry]
    | some entry =>
      rw [hentry, Option.map_some] at hold
      have hplace : (compiled.suits.foldl Store.ensureSuit deck.store).kept?
          (SuitPath.splitGlobal (path.qualify name)).1 (SuitPath.splitGlobal (path.qualify name)).2 =
            some entry := by
        rw [SuitPath.splitGlobal_qualify path hname, kept?_foldl_ensureSuit, hentry]
      rw [Store.kept?_withGlobals_of_some hnames path hname hold,
        Store.toEntry_cardOfGlobal_of_kept? entry.value hprovenance hplace]

/-- No place of a sound deck has a name with a dot. -/
theorem kept?_eq_none_of_dot (hdeck : deck.Sound) (path : SuitPath) {name : String}
    (hname : '.' ∈ name.toList) : deck.store.kept? path name = none := by
  cases hentry : deck.store.kept? path name with
  | none => rfl
  | some entry => exact absurd hname (hdeck.store.dot_notMem path name entry hentry)

/-- A text that assigns nothing and declares no suit leaves the store as it is. -/
theorem store_of_build_of_assignments_eq_nil (hdeck : deck.Sound)
    (h : build text deck = .ok () built) (hassignments : deck.assignments text = [])
    (hdeclared : deck.declared text = []) : built.store = deck.store := by
  have hglobals : built.engine.globals = deck.store.globals := by
    apply Table.ext_getElem?
    intro name
    exact getElem?_globals_of_build h (by rw [hassignments]; rfl)
  obtain ⟨compiled, heffect, hsuits, hbuilt⟩ := exists_effect_of_build h
  have hprovenance : compiled.provenance = ∅ := by
    have := heffect.provenance
    rwa [hassignments] at this
  rw [hdeclared] at hsuits
  have hstore : built.store = deck.store.withGlobals ∅ deck.store.globals := by
    rw [hbuilt, takeOver, hsuits, hprovenance]
    exact congrArg (deck.store.withGlobals ∅) hglobals
  rw [hstore, Store.withGlobals_globals hdeck.store]

/-- What a build of a text must make of a deck. -/
structure Updates (deck : Deck Interpreter) (text : String) (built : Deck Interpreter) : Prop where
  /-- The globals are the cards. -/
  globals : built.engine.globals = built.store.globals
  /-- The card of an assigned global has its final value and the line of the last assignment, and
  the comment of that line exactly when the line assigned nothing before. -/
  assigned : ∀ front a rest, deck.assignments text = front ++ a :: rest →
    (∀ b ∈ rest, b.global ≠ a.global) →
    ∃ card, built.store.card? (SuitPath.splitGlobal a.global).1
        (SuitPath.splitGlobal a.global).2 = some card ∧
      built.engine.globals[a.global]? = some card.value ∧ card.line = some a.line.number ∧
      card.comment = if a.isFirst then a.line.comment else none
  /-- Every other card keeps its value, line and comment, and no other card appears. -/
  others : ∀ path name, (∀ a ∈ deck.assignments text, SuitPath.splitGlobal a.global ≠ (path, name)) →
    built.store.card? path name = deck.store.card? path name
  /-- No card disappears. -/
  cards : ∀ path name, (deck.store.card? path name).isSome = true →
    (built.store.card? path name).isSome = true
  /-- No suit disappears, and the suits that were there come first, in their order. -/
  suits : deck.store.order <+: built.store.order
  /-- Every suit that a header declares is there. -/
  declared : ∀ suit ∈ deck.declared text, suit ∈ built.store.order
  /-- Without headers and assignment signs the store is the same. -/
  plain : (∀ line ∈ LogicalLine.ofText deck.settings text,
      SuitCursor.isHeader deck.settings line.text = false ∧
        Scan.cutAssignment none {} line.text.toList = none) → built.store = deck.store

/-- Every place of a sound deck has what a build makes of it. -/
private theorem isSome_kept?_of_build (hdeck : deck.Sound) (h : build text deck = .ok () built)
    (path : SuitPath) (name : String) (hentry : (deck.store.kept? path name).isSome = true) :
    (built.store.kept? path name).isSome = true := by
  obtain ⟨entry, hentry⟩ := Option.isSome_iff_exists.1 hentry
  have hname := hdeck.store.dot_notMem path name entry hentry
  rw [kept?_of_build hdeck h path hname]
  split
  · have hglobal : path.qualify name ∈ deck.store.globals := by
      rw [Std.ExtTreeMap.mem_iff_isSome_getElem?,
        Store.getElem?_globals_qualify hdeck.store path hname, hentry]
      rfl
    have hmem := mem_globals_of_build h hglobal
    rw [Std.ExtTreeMap.mem_iff_isSome_getElem?] at hmem
    simpa using hmem
  · rw [hentry]
    rfl

/-- A build that succeeds on a deck that operations led to makes the globals the cards, puts what
the text assigned in its places with lines and comments, and keeps all else. -/
theorem build_updates (hdeck : deck.Reachable) (h : build text deck = .ok () built) :
    Updates deck text built where
  globals := (globals_of_build hdeck.sound h).symm
  assigned front a rest hsplit hlast := by
    have hassigned : Assignment.last? (deck.assignments text) a.global = some a := by
      rw [hsplit]
      exact Assignment.last?_append_cons hlast
    obtain ⟨compiled, heffect, -, -⟩ := exists_effect_of_build h
    obtain ⟨hassignable, hmem⟩ := heffect.bound a (by simp [hsplit])
    obtain ⟨value, hvalue⟩ :=
      Option.isSome_iff_exists.1 (Std.ExtTreeMap.mem_iff_isSome_getElem?.1 hmem)
    have hvalue : built.engine.globals[a.global]? = some value := hvalue
    have hentry := kept?_of_build hdeck.sound h (SuitPath.splitGlobal a.global).1
      (SuitPath.dot_notMem_splitGlobal a.global)
    have hglobal : (SuitPath.splitGlobal a.global).1.qualify (SuitPath.splitGlobal a.global).2 =
      a.global := hassignable.isGlobalName
    rw [hglobal, hassigned] at hentry
    dsimp only at hentry
    rw [hvalue, Option.map_some] at hentry
    rw [Store.card?_eq_map_kept?, hentry]
    exact ⟨_, rfl, hvalue, rfl, rfl⟩
  others path name hothers := by
    rw [Store.card?_eq_map_kept?, Store.card?_eq_map_kept?]
    by_cases hname : '.' ∈ name.toList
    · rw [kept?_eq_none_of_dot (hdeck.sound.build h) path hname,
        kept?_eq_none_of_dot hdeck.sound path hname]
    · have hlast : Assignment.last? (deck.assignments text) (path.qualify name) = none := by
        rw [Assignment.last?_eq_none_iff]
        intro a ha he
        apply hothers a ha
        rw [he, SuitPath.splitGlobal_qualify path hname]
      rw [kept?_of_build hdeck.sound h path hname, hlast]
  cards path name hcard := by
    rw [Store.card?_eq_map_kept?, Option.isSome_map] at hcard ⊢
    exact isSome_kept?_of_build hdeck.sound h path name hcard
  suits := by
    obtain ⟨compiled, -, -, hbuilt⟩ := exists_effect_of_build h
    rw [hbuilt]
    exact (order_prefix_foldl_ensureSuit _ _).trans (Store.order_prefix_withGlobals _ _ _)
  declared suit hsuit := by
    obtain ⟨compiled, -, hsuits, hbuilt⟩ := exists_effect_of_build h
    rw [hbuilt]
    refine (Store.order_prefix_withGlobals _ _ _).subset (mem_order_foldl_ensureSuit ?_)
    rw [hsuits, mem_addSuits]
    exact .inr hsuit
  plain hlines := by
    obtain ⟨progress, hcompile, -⟩ := build_eq_ok_iff_compileLines.1 h
    exact store_of_build_of_assignments_eq_nil hdeck.sound h
      (Progress.assignments_eq_nil (fun line hline => (hlines line hline).2) hcompile)
      (SuitCursor.declared_eq_nil fun line hline => (hlines line hline).1)

/-- A text that assigns to a card that another text made, and declares a suit, updates the deck. -/
theorem build_updates_two_texts :
    ∃ deck built : Deck Interpreter, deck.Reachable ∧
      build "x = x + 1 # two\n<t>\nv = x, y + 3 # both" deck = .ok () built ∧
      Updates deck "x = x + 1 # two\n<t>\nv = x, y + 3 # both" built := by
  obtain ⟨⟨⟩, last, hboth⟩ := EStateM.Result.eq_ok_of_succeeds
    (r := buildBehind "x = x + 1 # two\n<t>\nv = x, y + 3 # both" "x = 1\ny = 2" (empty {}))
    (by decide +kernel)
  obtain ⟨middle, hfront, htext⟩ := buildBehind_eq_ok_iff.1 hboth
  have hmiddle : middle.Reachable := ⟨{}, .single (.build hfront)⟩
  exact ⟨middle, last, hmiddle, htext, build_updates hmiddle htext⟩

end Deck

end InputDeck
