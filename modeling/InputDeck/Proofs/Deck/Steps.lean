import InputDeck.Deck
import InputDeck.Proofs.Outcome

/-!
# Outcomes of builds

A build succeeds exactly when its text is compiled from the seeded deck, and what it leaves is read
off the compilation. A build behind another text is the two builds one after the other, with the
cards of the first deck put back when either of them fails.
-/

namespace InputDeck

variable {σ : Type} [Evaluator σ]

/-- A text is compiled exactly when its logical lines are, one after the other. -/
theorem compile_eq_ok_iff {settings : Settings} {text : String} {engine last : σ}
    {compiled : Compiled} :
    compile settings text engine = .ok compiled last ↔
      ∃ progress : Progress σ,
        Progress.compileLines settings (LogicalLine.ofText settings text) { engine := engine } =
          .ok () progress ∧ progress.compiled = compiled ∧ progress.engine = last := by
  unfold compile
  split
  · next progress hlines => simp [hlines]
  · next e progress hlines => simp [hlines]

namespace Deck

/-- A build succeeds exactly when its text is compiled, and takes over what was compiled. -/
theorem build_eq_ok_iff {deck built : Deck σ} {text : String} :
    build text deck = .ok () built ↔
      ∃ compiled engine, compile deck.settings text deck.seed.engine = .ok compiled engine ∧
        built = ({ deck with engine := engine } : Deck σ).takeOver compiled := by
  have hsettings : deck.seed.settings = deck.settings := rfl
  unfold build
  simp only [hsettings]
  cases compile deck.settings text deck.seed.engine with
  | ok compiled engine =>
    constructor
    · rintro ⟨⟩
      exact ⟨compiled, engine, rfl, rfl⟩
    · rintro ⟨_, _, ⟨⟩, rfl⟩
      rfl
  | error e engine => simp

/-- A build fails exactly when its text is not compiled, and seeds the deck again. -/
theorem build_eq_error_iff {deck failed : Deck σ} {text : String} {e : DeckError} :
    build text deck = .error e failed ↔
      ∃ engine, compile deck.settings text deck.seed.engine = .error e engine ∧
        failed = ({ deck with engine := engine } : Deck σ).seed := by
  have hsettings : deck.seed.settings = deck.settings := rfl
  unfold build
  simp only [hsettings]
  cases compile deck.settings text deck.seed.engine with
  | ok compiled engine => simp
  | error d engine =>
    constructor
    · rintro ⟨⟩
      exact ⟨engine, rfl, rfl⟩
    · rintro ⟨_, ⟨⟩, rfl⟩
      rfl

/-- A build behind another text succeeds exactly when both texts are built in turn. -/
theorem buildBehind_eq_ok_iff {deck built : Deck σ} {text front : String} :
    buildBehind text front deck = .ok () built ↔
      ∃ middle, build front deck = .ok () middle ∧ build text middle = .ok () built := by
  unfold buildBehind
  split
  · next last hparts =>
    obtain ⟨⟨⟩, middle, hfront, htext⟩ := EStateM.bind_eq_ok_iff.1 hparts
    simp [hfront, htext]
  · next e failed hparts =>
    constructor
    · intro h
      cases h
    · rintro ⟨middle, hfront, htext⟩
      rw [EStateM.bind_eq_ok_iff.2 ⟨(), middle, hfront, htext⟩] at hparts
      cases hparts

/-- A build behind another text fails when one of the two builds does, and puts the cards back. -/
theorem buildBehind_eq_error_iff {deck failed : Deck σ} {text front : String} {e : DeckError} :
    buildBehind text front deck = .error e failed ↔
      ∃ last, (build front deck = .error e last ∨
          ∃ middle, build front deck = .ok () middle ∧ build text middle = .error e last) ∧
        failed = ({ last with store := deck.store } : Deck σ).seed := by
  unfold buildBehind
  split
  · next last hparts =>
    obtain ⟨⟨⟩, middle, hfront, htext⟩ := EStateM.bind_eq_ok_iff.1 hparts
    simp [hfront, htext]
  · next d last hparts =>
    have hcases := EStateM.bind_eq_error_iff.1 hparts
    constructor
    · intro h
      injection h with hd hfailed
      subst hd
      refine ⟨last, hcases.imp id ?_, hfailed.symm⟩
      rintro ⟨⟨⟩, middle, hfront, htext⟩
      exact ⟨middle, hfront, htext⟩
    · rintro ⟨other, hother, rfl⟩
      have hsame : (do build front; build text : EStateM DeckError (Deck σ) Unit) deck =
          .error e other := by
        refine EStateM.bind_eq_error_iff.2 (hother.imp id ?_)
        rintro ⟨middle, hfront, htext⟩
        exact ⟨(), middle, hfront, htext⟩
      rw [hparts] at hsame
      injection hsame with hd hlast
      rw [hd, hlast]

/-- A statement is run in a deck when the evaluator runs it with no local names. -/
theorem recompile_eq_ok_iff {deck next : Deck σ} {statement : String} :
    recompile statement deck = .ok () next ↔
      ∃ report engine, Evaluator.interpret statement ∅ deck.engine = .ok report engine ∧
        next = { deck with engine := engine } := by
  unfold recompile
  split
  · next report engine hrun =>
    rw [hrun]
    constructor
    · rintro ⟨⟩
      exact ⟨report, engine, rfl, rfl⟩
    · rintro ⟨_, _, ⟨⟩, rfl⟩
      rfl
  · next cause engine hrun => simp [hrun]

/-- Building changes no settings when it succeeds. -/
theorem settings_of_build {deck built : Deck σ} {text : String}
    (h : build text deck = .ok () built) : built.settings = deck.settings := by
  obtain ⟨compiled, engine, -, rfl⟩ := build_eq_ok_iff.1 h
  rfl

/-- Building changes no settings when it fails. -/
theorem settings_of_build_error {deck failed : Deck σ} {text : String} {e : DeckError}
    (h : build text deck = .error e failed) : failed.settings = deck.settings := by
  obtain ⟨engine, -, rfl⟩ := build_eq_error_iff.1 h
  rfl

end Deck

end InputDeck
