import InputDeck.Proofs.Deck.Steps

/-!
# Failed builds

A build that fails may have written globals, and a build behind another text may have kept a whole
first part before the second one failed. In both cases the deck goes back to the cards it had, in
the order of suits it had, and the globals are the values of these cards again.
-/

namespace InputDeck.Deck

/-- What a failure must leave of a deck: its settings and cards, and only these as globals. -/
structure RestoredFrom (failed deck : Deck Interpreter) : Prop where
  /-- The settings stay. -/
  settings : failed.settings = deck.settings
  /-- All suits and cards are there, with their lines, comments and order, and no others. -/
  store : failed.store = deck.store
  /-- Every global is the value of a card. -/
  globals : failed.engine.globals = deck.store.globals

/-- A failed build restores the deck it began with. -/
theorem restoredFrom_of_build {deck failed : Deck Interpreter} {text : String} {e : DeckError}
    (h : build text deck = .error e failed) : failed.RestoredFrom deck := by
  obtain ⟨engine, -, rfl⟩ := build_eq_error_iff.1 h
  exact ⟨rfl, rfl, rfl⟩

/-- When either part fails, a build behind another text restores the deck before both. -/
theorem restoredFrom_of_buildBehind {deck failed : Deck Interpreter} {text front : String}
    {e : DeckError} (h : buildBehind text front deck = .error e failed) :
    failed.RestoredFrom deck := by
  obtain ⟨last, hparts, rfl⟩ := buildBehind_eq_error_iff.1 h
  have hsettings : last.settings = deck.settings := by
    rcases hparts with hfront | ⟨middle, hfront, htext⟩
    · exact settings_of_build_error hfront
    · exact (settings_of_build_error htext).trans (settings_of_build hfront)
  exact ⟨hsettings, rfl, rfl⟩

/-- A build that fails, alone or behind another text, leaves the settings, the cards and the order
of suits as they were and makes the cards the globals again, however far it came. -/
theorem failed_build_restores (deck : Deck Interpreter) :
    (∀ text e failed, build text deck = .error e failed → failed.RestoredFrom deck) ∧
    ∀ text front e failed, buildBehind text front deck = .error e failed →
      failed.RestoredFrom deck :=
  ⟨fun _ _ _ => restoredFrom_of_build, fun _ _ _ _ => restoredFrom_of_buildBehind⟩

/-- A deck with one card. -/
def oneCard : Deck Interpreter :=
  { empty {} with store := ({} : Store).add "s" "x" (.number 1) (some "one") }

/-- The deck with one card survives a text that fails behind two assignments, and a text that fails
behind a whole one that made a suit. -/
theorem failed_build_restores_oneCard :
    (∃ e failed, build "x = 2\n<t>\ny = 3\nz = missing" oneCard = .error e failed ∧
      failed.RestoredFrom oneCard) ∧
    ∃ e failed, buildBehind "y = missing" "x = 2\n<t>\nz = 3" oneCard = .error e failed ∧
      failed.RestoredFrom oneCard := by
  obtain ⟨e, failed, hbuild⟩ := EStateM.Result.eq_error_of_not_succeeds
    (r := build "x = 2\n<t>\ny = 3\nz = missing" oneCard) (by decide +kernel)
  obtain ⟨d, last, hbehind⟩ := EStateM.Result.eq_error_of_not_succeeds
    (r := buildBehind "y = missing" "x = 2\n<t>\nz = 3" oneCard) (by decide +kernel)
  exact ⟨⟨e, failed, hbuild, (failed_build_restores oneCard).1 _ _ _ hbuild⟩,
    d, last, hbehind, (failed_build_restores oneCard).2 _ _ _ _ hbehind⟩

end InputDeck.Deck
