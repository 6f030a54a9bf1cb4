import InputDeck.Compilation
import InputDeck.Expr.Interpreter
import InputDeck.Store.DeckText
import InputDeck.Store.Query
import InputDeck.Store.Vector

/-!
# Decks

A deck is a card store with an evaluator and the settings of its texts. To build a text is to make
the cards globals, to compile the text and to make the globals cards again. A text that is not
compiled leaves the cards as they were, and the globals are the cards again.
-/

namespace InputDeck

/-- A card store with an evaluator. -/
structure Deck (σ : Type) where
  /-- The characters that structure the texts, and the decimals of what is written. -/
  settings : Settings := {}
  /-- The evaluator. -/
  engine : σ
  /-- The cards. -/
  store : Store := {}

namespace Deck

/-- An empty deck with the built-in evaluator. -/
def empty (settings : Settings) : Deck Interpreter := { settings := settings, engine := {} }

instance : Inhabited (Deck Interpreter) := ⟨empty {}⟩

variable {σ : Type} [Evaluator σ]

/-- Make the cards the globals of the evaluator. -/
def seed (deck : Deck σ) : Deck σ :=
  { deck with engine := Evaluator.withGlobals deck.store.globals deck.engine }

/-- Take over what was compiled: the suits of headers first, then every global as a card. -/
def takeOver (deck : Deck σ) (compiled : Compiled) : Deck σ :=
  { deck with
    store := (compiled.suits.foldl Store.ensureSuit deck.store).withGlobals compiled.provenance
      (Evaluator.globals deck.engine) }

/-- Compile a text into the deck. -/
def build (text : String) : EStateM DeckError (Deck σ) Unit := fun deck =>
  let deck := deck.seed
  match compile deck.settings text deck.engine with
  | .ok compiled engine => .ok () (({ deck with engine := engine } : Deck σ).takeOver compiled)
  | .error e engine => .error e ({ deck with engine := engine } : Deck σ).seed

/-- Compile a text behind another one. Neither stays in the deck when one of them fails. -/
def buildBehind (text front : String) : EStateM DeckError (Deck σ) Unit := fun deck =>
  match (do build front; build text : EStateM DeckError (Deck σ) Unit) deck with
  | .ok _ built => .ok () built
  | .error e failed => .error e ({ failed with store := deck.store } : Deck σ).seed

/--
Compile the contents of a file, behind another text if there is one. The contents are missing when
the file cannot be read as text.
-/
def buildFile (path : String) (contents : Option String) (front : Option String) :
    EStateM DeckError (Deck σ) Unit :=
  match contents, front with
  | none, _ => throw (.fileOpen path)
  | some text, some front => buildBehind text front
  | some text, none => build text

/-- Run a statement in the evaluator, with all names in full. The cards stay as they are. -/
def recompile (statement : String) : EStateM DeckError (Deck σ) Unit := fun deck =>
  match Evaluator.interpret statement ∅ deck.engine with
  | .ok _ engine => .ok () { deck with engine := engine }
  | .error cause engine => .error (.expression none statement none cause) { deck with engine := engine }

/-- Make every global a card; cards that exist keep their lines and comments. -/
def update (deck : Deck σ) : Deck σ :=
  { deck with store := deck.store.withGlobals ∅ (Evaluator.globals deck.engine) }

/-- The text of the deck. -/
def text (deck : Deck σ) : String := deck.store.deckText deck.settings.precision

end Deck

end InputDeck
