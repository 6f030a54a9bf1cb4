import InputDeck.Proofs.Compile.Assignments
import InputDeck.Proofs.Deck.Steps
import InputDeck.Proofs.Store.Operations
import InputDeck.Proofs.Store.TakingOver
import Mathlib.Logic.Relation

/-!
# Reachable decks

A deck that began empty is changed by builds, by single statements, by taking over the globals, and
by operations on its cards. All of these, also when they fail, leave a well-formed store and an
evaluator whose globals are all global names of cards.
-/

namespace InputDeck

namespace Deck

/-- One operation on a deck, with card names without dots where cards are put in by hand. -/
inductive Step : Deck Interpreter → Deck Interpreter → Prop
  /-- A text is built. -/
  | build {deck next : Deck Interpreter} {text : String} (h : build text deck = .ok () next) :
      Step deck next
  /-- A text fails to be built. -/
  | failedBuild {deck next : Deck Interpreter} {text : String} {e : DeckError}
      (h : build text deck = .error e next) : Step deck next
  /-- A text is built behind another one. -/
  | buildBehind {deck next : Deck Interpreter} {text front : String}
      (h : buildBehind text front deck = .ok () next) : Step deck next
  /-- One of two texts fails to be built. -/
  | failedBuildBehind {deck next : Deck Interpreter} {text front : String} {e : DeckError}
      (h : buildBehind text front deck = .error e next) : Step deck next
  /-- A statement is run. -/
  | recompile {deck next : Deck Interpreter} {statement : String}
      (h : recompile statement deck = .ok () next) : Step deck next
  /-- A statement fails. -/
  | failedRecompile {deck next : Deck Interpreter} {statement : String} {e : DeckError}
      (h : recompile statement deck = .error e next) : Step deck next
  /-- The globals become cards. -/
  | update {deck : Deck Interpreter} : Step deck deck.update
  /-- The cards are changed by hand. -/
  | store {deck : Deck Interpreter} {next : Store} (h : deck.store.Step next) :
      Step deck { deck with store := next }

/-- The decks that operations lead to from an empty deck. -/
def Reachable (deck : Deck Interpreter) : Prop :=
  ∃ settings, Relation.ReflTransGen Step (empty settings) deck

/-- What every reachable deck is like. -/
structure Sound (deck : Deck Interpreter) : Prop where
  /-- The store is well-formed. -/
  store : deck.store.WellFormed
  /-- The globals have global names of cards. -/
  globals : ∀ name, name ∈ deck.engine.globals → SuitPath.IsGlobalName name

/-- The state that a text is compiled from. -/
def start (deck : Deck Interpreter) : Progress Interpreter := { engine := deck.seed.engine }

/-- The assignments that a build of a text makes, in turn, as the evaluator reports them. -/
def assignments (deck : Deck Interpreter) (text : String) : List Assignment :=
  deck.start.assignments deck.settings (LogicalLine.ofText deck.settings text)

/-- A build succeeds exactly when the logical lines of its text do. -/
theorem build_eq_ok_iff_compileLines {deck built : Deck Interpreter} {text : String} :
    build text deck = .ok () built ↔
      ∃ progress, Progress.compileLines deck.settings (LogicalLine.ofText deck.settings text)
          deck.start = .ok () progress ∧
        built = ({ deck with engine := progress.engine } : Deck Interpreter).takeOver
          progress.compiled := by
  rw [build_eq_ok_iff]
  constructor
  · rintro ⟨_, _, hcompile, rfl⟩
    obtain ⟨progress, hlines, rfl, rfl⟩ := compile_eq_ok_iff.1 hcompile
    exact ⟨progress, hlines, rfl⟩
  · rintro ⟨progress, hlines, rfl⟩
    exact ⟨_, _, compile_eq_ok_iff.2 ⟨progress, hlines, rfl, rfl⟩, rfl⟩

/-- The globals that a text is compiled from are the cards. -/
@[simp] theorem globals_start (deck : Deck Interpreter) :
    deck.start.engine.globals = deck.store.globals := rfl

/-- All globals of a well-formed store have global names of cards. -/
theorem isGlobalName_of_mem_globals {store : Store} (h : store.WellFormed) {name : String}
    (hname : name ∈ store.globals) : SuitPath.IsGlobalName name := by
  rw [Std.ExtTreeMap.mem_iff_isSome_getElem?, Store.getElem?_globals h] at hname
  split at hname
  · assumption
  · cases hname

/-- Assignments add no global without a global name of a card. -/
theorem isGlobalName_of_effect {p q : Progress Interpreter} {assigned : List Assignment}
    (h : Progress.Effect p q assigned)
    (hp : ∀ name, name ∈ p.engine.globals → SuitPath.IsGlobalName name) {name : String}
    (hname : name ∈ q.engine.globals) : SuitPath.IsGlobalName name := by
  by_cases hassigned : ∀ a ∈ assigned, a.global ≠ name
  · apply hp
    rw [Std.ExtTreeMap.mem_iff_isSome_getElem?] at hname ⊢
    rwa [← h.unchanged name hassigned]
  · simp only [ne_eq, not_forall, not_not] at hassigned
    obtain ⟨a, ha, rfl⟩ := hassigned
    exact (h.bound a ha).1.isGlobalName

/-- Suits of headers keep a store well-formed. -/
theorem wellFormed_foldl_ensureSuit {store : Store} (h : store.WellFormed)
    (suits : List SuitPath) : (suits.foldl Store.ensureSuit store).WellFormed := by
  induction suits generalizing store with
  | nil => exact h
  | cons suit suits ih => exact ih (h.ensureSuit suit)

namespace Sound

variable {deck next : Deck Interpreter}

/-- A build keeps a deck sound. -/
theorem build (h : deck.Sound) {text : String} (hbuild : Deck.build text deck = .ok () next) :
    next.Sound := by
  obtain ⟨progress, hlines, rfl⟩ := build_eq_ok_iff_compileLines.1 hbuild
  refine ⟨(wellFormed_foldl_ensureSuit h.store _).withGlobals _ _, fun name hname => ?_⟩
  refine isGlobalName_of_effect (Progress.effect_compileLines hlines) (fun other hother => ?_) hname
  exact isGlobalName_of_mem_globals h.store hother

/-- A deck with a well-formed store is sound when its globals are its cards. -/
theorem of_seed (h : deck.store.WellFormed) : deck.seed.Sound :=
  ⟨h, fun _ hname => isGlobalName_of_mem_globals h hname⟩

/-- A statement keeps a deck sound. -/
theorem recompile (h : deck.Sound) {statement : String}
    (hrun : Deck.recompile statement deck = .ok () next) : next.Sound := by
  obtain ⟨report, vm, hrun', rfl⟩ := recompile_eq_ok_iff.1 hrun
  refine ⟨h.store, fun name hname => ?_⟩
  cases report with
  | none => exact h.globals name (by rwa [← Interpreter.globals_of_interpret_none hrun'])
  | some key =>
    obtain ⟨target, e, v, output, last, -, -, -, rfl⟩ := Interpreter.interpret_eq_some_iff.1 hrun'
    by_cases hkey : key = name
    · rw [← hkey]
      exact (Interpreter.isAssignable_of_interpret hrun').isGlobalName
    · apply h.globals
      rw [Std.ExtTreeMap.mem_iff_isSome_getElem?] at hname ⊢
      rwa [Table.getElem?_insert_eq, if_neg hkey] at hname

/-- A statement that fails keeps a deck sound. -/
theorem failedRecompile (h : deck.Sound) {statement : String} {e : DeckError}
    (hrun : Deck.recompile statement deck = .error e next) : next.Sound := by
  unfold Deck.recompile at hrun
  dsimp only [Evaluator.interpret] at hrun
  split at hrun
  · cases hrun
  · next cause engine hrun' =>
    cases hrun
    exact ⟨h.store, fun name hname => h.globals name
      (by rwa [← Interpreter.globals_of_interpret_error hrun'])⟩

/-- Every operation keeps a deck sound. -/
theorem step (h : deck.Sound) (hstep : Step deck next) : next.Sound := by
  cases hstep with
  | build hbuild => exact h.build hbuild
  | failedBuild hbuild =>
    obtain ⟨engine, -, rfl⟩ := build_eq_error_iff.1 hbuild
    exact of_seed h.store
  | buildBehind hbuild =>
    obtain ⟨middle, hfront, htext⟩ := buildBehind_eq_ok_iff.1 hbuild
    exact (h.build hfront).build htext
  | failedBuildBehind hbuild =>
    obtain ⟨last, -, rfl⟩ := buildBehind_eq_error_iff.1 hbuild
    exact of_seed h.store
  | recompile hrun => exact h.recompile hrun
  | failedRecompile hrun => exact h.failedRecompile hrun
  | update => exact ⟨h.store.withGlobals _ _, h.globals⟩
  | store hstore => exact ⟨h.store.step hstore, h.globals⟩

end Sound

/-- Reachable decks are sound. -/
theorem Reachable.sound {deck : Deck Interpreter} (h : Reachable deck) : deck.Sound := by
  obtain ⟨settings, hsteps⟩ := h
  induction hsteps with
  | refl => exact ⟨Store.wellFormed_default, fun name hname => by simp [empty] at hname⟩
  | tail _ hstep ih => exact ih.step hstep

end Deck

end InputDeck
