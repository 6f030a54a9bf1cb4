import InputDeck.Proofs.Deck.Reachable

/-!
# Builds of the empty text

To build the empty text is to make the cards globals and the globals cards again. A card whose name
has no dot comes back in its own place, so whatever operations with such names led to the store, it
stays as it is. The global of a card whose name has a dot spells a place in a suit below: a card
appears there, or the one that is there loses its value.
-/

namespace InputDeck

/-- Operations with card names without dots lead to well-formed stores. -/
theorem Store.wellFormed_of_steps {store : Store} (h : Relation.ReflTransGen Step {} store) :
    store.WellFormed := by
  induction h with
  | refl => exact wellFormed_default
  | tail _ hstep ih => exact ih.step hstep

namespace Deck

/-- The empty text is always built, and takes the cards to the globals and back. -/
theorem build_empty (deck : Deck Interpreter) :
    build "" deck = .ok () { deck.seed with store := deck.store.withGlobals ∅ deck.store.globals } :=
  build_eq_ok_iff_compileLines.2 ⟨deck.start, rfl, rfl⟩

/-- A store that operations with card names without dots led to is left as it is when its cards
become globals and its globals cards, and so by a build of the empty text. -/
theorem build_empty_unchanged {store : Store} (h : Relation.ReflTransGen Store.Step {} store) :
    store.withGlobals ∅ store.globals = store ∧
      ∀ deck : Deck Interpreter, deck.store = store →
        ∃ built, build "" deck = .ok () built ∧ built.store = store := by
  have hsame := Store.withGlobals_globals (Store.wellFormed_of_steps h)
  refine ⟨hsame, ?_⟩
  rintro deck rfl
  exact ⟨_, build_empty deck, hsame⟩

/-- The cards of a store may have names with slashes and blanks or without any character, and some
of them may have been changed or taken away. -/
theorem build_empty_unchanged_odd_names :
    ∃ store : Store, Relation.ReflTransGen Store.Step {} store ∧ store.size = 4 ∧
      ∃ built, build "" ({ empty {} with store := store } : Deck Interpreter) = .ok () built ∧
        built.store = store := by
  let added : Store := (((({} : Store).add "a/b" "c/d" (.boolean true) (some "note")).add
    " " "" (.string "x.y") none).addVector "/s/" "v" [.boolean true, .boolean false]).add
    "s" "w" (.boolean true) none
  have hadded : Relation.ReflTransGen Store.Step {} added :=
    (((Relation.ReflTransGen.single (.add _ _ _ (by decide))).tail (.add _ _ _ (by decide))).tail
      (.addVector _ _ (by decide))).tail (.add _ _ _ (by decide))
  have hrun : (match added.remove "s" "w" with
      | .ok (_, removed) => match removed.update "a.b" "c/d" (.string "new") none with
        | .ok store => decide (store.size = 4)
        | .error _ => false
      | .error _ => false) = true := by
    decide +kernel
  split at hrun
  · next card removed hremoved =>
    split at hrun
    · next store hstore =>
      have hsteps := (hadded.tail (.remove hremoved)).tail (.update hstore)
      exact ⟨store, hsteps, of_decide_eq_true hrun, (build_empty_unchanged hsteps).2 _ rfl⟩
    · cases hrun
  · cases hrun

/-- A deck in which a card with a dot in its name was put into a store. -/
def withDottedName (store : Store) : Deck Interpreter :=
  { empty {} with store := store.add "a" "b.c" (.string "other") none }

/-- The text that a card holds. -/
def textOf (store : Store) (suit name : String) : Option String :=
  (store.card? (.ofString suit) name).bind fun card => card.value.string?

/-- A card whose name has a dot makes a card appear in the suit below, or takes the value of the
card that is there. -/
theorem build_empty_dotted_name :
    (∃ built, build "" (withDottedName {}) = .ok () built ∧
      (withDottedName {}).store.hasCard "a/b" "c" = false ∧ built.store.hasCard "a/b" "c" = true) ∧
    ∃ built,
      build "" (withDottedName (({} : Store).add "a/b" "c" (.string "own") none)) = .ok () built ∧
      textOf (withDottedName (({} : Store).add "a/b" "c" (.string "own") none)).store "a/b" "c" =
        some "own" ∧
      textOf built.store "a/b" "c" = some "other" := by
  refine ⟨⟨_, build_empty _, ?_, ?_⟩, _, build_empty _, ?_, ?_⟩ <;> decide +kernel

end Deck

end InputDeck
