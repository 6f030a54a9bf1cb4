import InputDeck.Number.Binary64
import InputDeck.Sorting
import InputDeck.Store.Basic

/-!
# Cards and globals

The evaluator knows the cards of a store under their global names. Before a text is compiled the
globals are the cards; afterwards every global is a card again, those that the text assigned with
the line and the comment they were assigned at.
-/

namespace InputDeck

/-- Where a global was assigned. -/
structure Origin where
  /-- The line of the assignment. -/
  line : Nat
  /-- The comment of the line. -/
  comment : Option String := none
  deriving DecidableEq, Repr

/-- The last assignment of each global that a text assigned. -/
abbrev Provenance := Table Origin

/-- The globals that hold the values of cards; of two cards with one global name the later counts. -/
def Store.globals (store : Store) : Table Value :=
  store.cards.foldl (fun globals card => globals.insert card.globalName card.value) ∅

/-- The rank of a global among those that go back into the store: globals that were not assigned
come after all that were. -/
def Provenance.rank (provenance : Provenance) (name : String) : Nat :=
  match provenance[name]? with
  | some origin => origin.line
  | none => Number.wordLimit - 1

/-- Whether a global may go back into the store before another: by line and then by name. -/
def Provenance.before (provenance : Provenance) (a b : String × Value) : Bool :=
  ((compare (provenance.rank a.1) (provenance.rank b.1)).then (compare a.1 b.1)).isLE

/--
The card that a global becomes. One that was assigned has the line and the comment of its
assignment; any other has those of the card that is there, if there is one.
-/
def Store.cardOfGlobal (store : Store) (provenance : Provenance) (name : String) (value : Value) :
    Card :=
  let (path, card) := SuitPath.splitGlobal name
  match provenance[name]? with
  | some origin =>
    ⟨({ value := value, line := some origin.line } : Entry).withComment origin.comment, path, card⟩
  | none =>
    match store.card? path card with
    | some old => ⟨{ old.toEntry with value := value }, path, card⟩
    | none => ⟨{ value := value }, path, card⟩

/-- The store with each of the given globals as a card, so that new suits come in the order of the
lines; the order in which the globals are given does not matter. -/
def Store.withEntries (store : Store) (provenance : Provenance)
    (entries : List (String × Value)) : Store :=
  (sortBy provenance.before entries).foldl
    (fun store item => store.insert (store.cardOfGlobal provenance item.1 item.2)) store

/-- The store with every global as a card. -/
def Store.withGlobals (store : Store) (provenance : Provenance) (globals : Table Value) : Store :=
  store.withEntries provenance globals.toList

end InputDeck
