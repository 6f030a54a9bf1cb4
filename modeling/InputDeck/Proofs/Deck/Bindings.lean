import InputDeck.Proofs.Deck.Build

/-!
# Builds of known bindings

When it is known which globals the lines of a text bind to which values, the cards behind the build
are known as well: the last binding of a global is the card of its place, with the line and the
comment of the binding, and every other place has the card that it had.
-/

namespace InputDeck

/-- A global that is bound to a value. -/
structure Binding where
  /-- The global name. -/
  global : String
  /-- The value of the global. -/
  value : Value
  /-- Where it is bound. -/
  origin : Origin

namespace Binding

/-- What the binding puts in a place. -/
def entry (b : Binding) : Entry where
  value := b.value
  line := some b.origin.line
  comment := b.origin.comment

/-- The last binding of a global. -/
def last? (bindings : List Binding) (name : String) : Option Binding :=
  Table.lastNamed? global bindings name

end Binding

namespace Progress

variable {p q r : Progress Interpreter} {front rest : List Binding}

/-- What happens to globals and provenance when globals are bound one after the other, each by a
statement of its own. -/
structure BindsAll (p q : Progress Interpreter) (bindings : List Binding) : Prop where
  /-- The last binding of a global gives its value. -/
  globals : ∀ name, q.engine.globals[name]? =
    ((Binding.last? bindings name).map Binding.value).or p.engine.globals[name]?
  /-- The last binding of a global is where it comes from. -/
  provenance : ∀ name, q.compiled.provenance[name]? =
    ((Binding.last? bindings name).map Binding.origin).or p.compiled.provenance[name]?
  /-- The evaluator got as many statements as there are bindings. -/
  statements : q.compiled.statements = p.compiled.statements + bindings.length

/-- Where globals and provenance stay and no statement is sent, nothing is bound. -/
theorem BindsAll.of_eq (hglobals : q.engine.globals = p.engine.globals)
    (hprovenance : q.compiled.provenance = p.compiled.provenance)
    (hstatements : q.compiled.statements = p.compiled.statements) : BindsAll p q [] where
  globals name := by rw [hglobals]; rfl
  provenance name := by rw [hprovenance]; rfl
  statements := by simp [hstatements]

/-- Globals that are bound first and globals that are bound then. -/
theorem BindsAll.trans (hfront : BindsAll p q front) (hrest : BindsAll q r rest) :
    BindsAll p r (front ++ rest) where
  globals name := by
    rw [hrest.globals, hfront.globals]
    unfold Binding.last?
    rw [Table.lastNamed?_append, Option.map_or, Option.or_assoc]
  provenance name := by
    rw [hrest.provenance, hfront.provenance]
    unfold Binding.last?
    rw [Table.lastNamed?_append, Option.map_or, Option.or_assoc]
  statements := by rw [hrest.statements, hfront.statements, List.length_append, Nat.add_assoc]

/-- A statement that binds a global, and is noted as that, binds it. -/
theorem bindsAll_bind (p : Progress Interpreter) (name key : String) (v : Value) (origin : Origin) :
    BindsAll p ((p.sent { p.engine with globals := p.engine.globals.insert key v }).bind name key
      origin) [⟨key, v, origin⟩] where
  globals other := by
    change (p.engine.globals.insert key v)[other]? = _
    rw [Table.getElem?_insert_eq]
    by_cases he : key = other <;> simp [Binding.last?, Table.lastNamed?, he]
  provenance other := by
    change (p.compiled.provenance.insert key origin)[other]? = _
    rw [Table.getElem?_insert_eq]
    by_cases he : key = other <;> simp [Binding.last?, Table.lastNamed?, he]
  statements := rfl

/-- Whether a statement binds a global to a value, whatever names are known. -/
def SendsBinding (statement : String) (b : Binding) : Prop :=
  ∀ (locals : Table Value) (vm : Interpreter), Interpreter.interpret statement locals vm =
    .ok (some b.global) { vm with globals := vm.globals.insert b.global b.value }

/-- An assignment whose statement binds a global binds it at the place of the assignment. -/
theorem exists_assign {name value : String} {b : Binding} {location : Location}
    (h : SendsBinding (assignment p.cursor.current name value) b)
    (hline : location.line = b.origin.line) :
    ∃ q, assign name value location b.origin.comment p = .ok () q ∧ q.cursor = p.cursor ∧
      BindsAll p q [b] := by
  refine ⟨(p.sent { p.engine with globals := p.engine.globals.insert b.global b.value }).bind name
    b.global b.origin, ?_, rfl, bindsAll_bind p name b.global b.value b.origin⟩
  refine assign_eq_ok_iff.2 ⟨some b.global, _, h p.locals p.engine, ?_⟩
  rw [hline]
  rfl

/-- Assignments whose statements bind globals bind them in turn. -/
theorem exists_assignAll {pairs : List (String × String)} {bindings : List Binding}
    {location : Location}
    (h : List.Forall₂ (fun pair b => SendsBinding (assignment p.cursor.current pair.1 pair.2) b ∧
      b.origin = ⟨location.line, none⟩) pairs bindings) :
    ∃ q, assignAll location none pairs p = .ok () q ∧ BindsAll p q bindings := by
  generalize hsuit : p.cursor.current = suit at h
  induction h generalizing p with
  | nil => exact ⟨p, rfl, .of_eq rfl rfl rfl⟩
  | @cons pair b pairs bindings hpair _ ih =>
    obtain ⟨hsends, horigin⟩ := hpair
    have hline : location.line = b.origin.line := by rw [horigin]
    rw [← hsuit] at hsends
    obtain ⟨middle, hassign, hcursor, hfirst⟩ := exists_assign hsends hline
    obtain ⟨q, hrest, hbinds⟩ := ih (p := middle) (by rw [hcursor, hsuit])
    rw [horigin] at hassign
    exact ⟨q, EStateM.bind_eq_ok_iff.2 ⟨(), middle, hassign, hrest⟩, hfirst.trans hbinds⟩

end Progress

namespace Deck

variable {deck built : Deck Interpreter} {text : String} {bindings : List Binding}

/-- What a build makes of a deck when its text binds globals. -/
structure Bound (deck built : Deck Interpreter) (bindings : List Binding) : Prop where
  /-- The last binding of the global of a place is the card of the place. -/
  bound : ∀ path name b, '.' ∉ name.toList →
    Binding.last? bindings (path.qualify name) = some b →
    built.store.card? path name = some ⟨b.entry, path, name⟩
  /-- All other cards stay as they are. -/
  others : ∀ path name, (∀ b ∈ bindings, SuitPath.splitGlobal b.global ≠ (path, name)) →
    built.store.card? path name = deck.store.card? path name

/-- A text whose lines bind globals is built, and what they bind is put in its places. -/
theorem exists_build_of_bindsAll (hdeck : deck.Sound) {q : Progress Interpreter}
    (hlines : Progress.compileLines deck.settings (LogicalLine.ofText deck.settings text)
      deck.start = .ok () q) (hbinds : Progress.BindsAll deck.start q bindings) :
    ∃ built, build text deck = .ok () built ∧ Bound deck built bindings := by
  obtain ⟨built, hengine, hbuild⟩ : ∃ built : Deck Interpreter,
      built.engine = q.engine ∧ build text deck = .ok () built :=
    ⟨_, rfl, build_eq_ok_iff_compileLines.2 ⟨q, hlines, rfl⟩⟩
  have heffect := Progress.effect_compileLines hlines
  have horigin : ∀ name, (Assignment.last? (deck.assignments text) name).map Assignment.origin =
      (Binding.last? bindings name).map Binding.origin := by
    intro name
    have hrecorded := congrArg (·[name]?) heffect.provenance
    simpa [Assignment.getElem?_foldl_record, assignments, start, hbinds.provenance] using
      hrecorded.symm
  refine ⟨built, hbuild, fun path name b hname hlast => ?_, fun path name hothers => ?_⟩
  · have hassigned := horigin (path.qualify name)
    rw [hlast, Option.map_some] at hassigned
    obtain ⟨a, ha, hsame⟩ := Option.map_eq_some_iff.1 hassigned
    have hvalue : built.engine.globals[path.qualify name]? = some b.value := by
      rw [hengine, hbinds.globals, hlast]
      rfl
    have hkept := kept?_of_build hdeck hbuild path hname
    rw [ha] at hkept
    dsimp only at hkept
    rw [hvalue, Option.map_some] at hkept
    rw [Store.card?_eq_map_kept?, hkept, Option.map_some, Binding.entry, ← hsame]
    rfl
  · rw [Store.card?_eq_map_kept?, Store.card?_eq_map_kept?]
    by_cases hname : '.' ∈ name.toList
    · rw [kept?_eq_none_of_dot (hdeck.build hbuild) path hname,
        kept?_eq_none_of_dot hdeck path hname]
    · have hnone : Binding.last? bindings (path.qualify name) = none := by
        refine Table.lastNamed?_eq_none_iff.2 fun b hb he => hothers b hb ?_
        rw [he, SuitPath.splitGlobal_qualify path hname]
      have hassigned := horigin (path.qualify name)
      rw [hnone, Option.map_none, Option.map_eq_none_iff] at hassigned
      rw [kept?_of_build hdeck hbuild path hname, hassigned]

end Deck

end InputDeck
