import InputDeck.Proofs.Compile.Writable
import InputDeck.Proofs.Deck.Reachable
import InputDeck.Proofs.Store.Writable

/-!
# Decks that can be written

Whatever text is built into a deck whose cards are read from their lines, the cards of the deck are
read from their lines again, when the marks of its settings have no other meaning. The suits are
read from their headers when the headers of the texts have paths of segments.
-/

namespace InputDeck.Deck

/-- The decks that builds of texts with headers of segments lead to from an empty deck with given
settings. -/
inductive BuiltWith (settings : Settings) : Deck Interpreter → Prop
  /-- Nothing is built yet. -/
  | empty : BuiltWith settings (empty settings)
  /-- A text is built. -/
  | build {deck next : Deck Interpreter} {text : String} (h : BuiltWith settings deck)
      (htext : LogicalLine.HasSegmentHeaders settings text)
      (hbuild : build text deck = .ok () next) : BuiltWith settings next
  /-- A text is built behind another one. -/
  | buildBehind {deck next : Deck Interpreter} {text front : String} (h : BuiltWith settings deck)
      (htext : LogicalLine.HasSegmentHeaders settings text)
      (hfront : LogicalLine.HasSegmentHeaders settings front)
      (hbuild : buildBehind text front deck = .ok () next) : BuiltWith settings next

variable {settings : Settings} {deck built : Deck Interpreter} {text : String}

/-- A compilation begins with what can be written when the cards of the deck can be. -/
theorem isWritable_start (h : deck.store.HasWritableCards settings) :
    deck.start.IsWritable settings where
  names name hname := h.isAssignable_of_mem_globals hname
  globals := h.globals
  locals name v hv := by simp [start] at hv
  comments name origin horigin := by simp [start] at horigin
  cursor := .default

/-- A build of any text leads to cards that are read from their lines. -/
theorem hasWritableCards_of_build (hs : settings.IsUsable) (hsettings : deck.settings = settings)
    (h : deck.store.HasWritableCards settings) (hbuild : build text deck = .ok () built) :
    built.store.HasWritableCards settings := by
  obtain ⟨progress, hlines, rfl⟩ := build_eq_ok_iff_compileLines.1 hbuild
  rw [hsettings] at hlines
  have hlast := (isWritable_start h).of_compileLines hs (fun _ hline => hline) hlines
  exact (h.foldl_ensureSuit _).withGlobals hlast.names hlast.globals hlast.comments

/-- A build of a text with headers of segments leads to a store that is read from its deck. -/
theorem isWritable_of_build (hs : settings.IsUsable) (hsettings : deck.settings = settings)
    (h : deck.store.IsWritable settings) (htext : LogicalLine.HasSegmentHeaders settings text)
    (hbuild : build text deck = .ok () built) : built.store.IsWritable settings := by
  have hcards := hasWritableCards_of_build hs hsettings h.toHasWritableCards hbuild
  obtain ⟨progress, hlines, rfl⟩ := build_eq_ok_iff_compileLines.1 hbuild
  rw [hsettings] at hlines
  have hlast := (isWritable_start h.toHasWritableCards).of_compileLines hs (fun _ hline => hline)
    hlines
  have hsuits : ∀ path ∈ progress.compiled.suits, path.IsNamed := by
    intro path hpath
    rw [Progress.suits_of_compileLines hlines, mem_addSuits] at hpath
    exact SuitCursor.isNamed_of_mem_declared .default htext (hpath.resolve_left List.not_mem_nil)
  exact ⟨hcards, (h.toHasNamedSuits.foldl_ensureSuit hsuits).withGlobals hlast.names⟩

/-- A deck that only texts were built into has the settings of the empty deck, and is read from
what is written of it. -/
theorem BuiltWith.isWritable (hs : settings.IsUsable) (h : BuiltWith settings deck) :
    deck.settings = settings ∧ deck.store.IsWritable settings := by
  induction h with
  | empty => exact ⟨rfl, ⟨.default, .default⟩⟩
  | build _ htext hbuild ih =>
    obtain ⟨hsettings, hstore⟩ := ih
    exact ⟨(settings_of_build hbuild).trans hsettings,
      isWritable_of_build hs hsettings hstore htext hbuild⟩
  | buildBehind _ htext hfront hbuild ih =>
    obtain ⟨hsettings, hstore⟩ := ih
    obtain ⟨middle, hmiddle, hlast⟩ := buildBehind_eq_ok_iff.1 hbuild
    have hsame := (settings_of_build hmiddle).trans hsettings
    exact ⟨(settings_of_build hlast).trans hsame, isWritable_of_build hs hsame
      (isWritable_of_build hs hsettings hstore hfront hmiddle) htext hlast⟩

end InputDeck.Deck
