import InputDeck.Proofs.Store.Places
import InputDeck.Store.DeckText

/-!
# Stores that are written alike

What a deck shows of a card is its name, the text of its value and its comment. Two stores with the
same suits in the same order are written alike when their places show the same.
-/

namespace InputDeck

/-- Sorting elements by what they show is sorting what they show. -/
theorem map_sortBy {α β : Type} {le : α → α → Bool} {le' : β → β → Bool} {f : α → β}
    (h : ∀ a b, le' (f a) (f b) = le a b) (xs : List α) :
    (sortBy le xs).map f = sortBy le' (xs.map f) := by
  have hinsert : ∀ (a : α) (xs : List α),
      (insertBy le a xs).map f = insertBy le' (f a) (xs.map f) := by
    intro a xs
    induction xs with
    | nil => rfl
    | cons b xs ih =>
      rw [insertBy, List.map_cons, insertBy, h]
      split
      · rfl
      · rw [List.map_cons, ih]
  induction xs with
  | nil => rfl
  | cons a xs ih => rw [sortBy_cons, hinsert, ih, List.map_cons, sortBy_cons]

/-- What a deck shows of an entry: the text of its value and its comment. -/
def Entry.shown (entry : Entry) : String × Option String :=
  (entry.value.written none, entry.comment)

/-- What a deck shows of a card. -/
def Card.shown (card : Card) : String × String × Option String := (card.name, card.toEntry.shown)

/-- The line that shows a name, the text of a value and a comment. -/
def lineOf (item : String × String × Option String) : String :=
  item.1 ++ " = " ++ item.2.1 ++
    (match item.2.2 with
    | some text => "  # " ++ text
    | none => "") ++ "\n"

namespace Suit

variable {suit other : Suit} {path : SuitPath}

/-- What the cards of a suit show. -/
theorem map_shown_cards (suit : Suit) (path : SuitPath) :
    (suit.cards path).map Card.shown = (suit.map fun _ entry => entry.shown).toList := by
  rw [cards, List.map_map, Std.ExtTreeMap.toList_map]
  rfl

/-- Suits that show the same are written alike. -/
theorem written_congr
    (h : ∀ name : String, other[name]?.map Entry.shown = suit[name]?.map Entry.shown) :
    other.written none path = suit.written none path := by
  have htables : (other.map fun _ entry => entry.shown) = suit.map fun _ entry => entry.shown := by
    apply Table.ext_getElem?
    intro name
    rw [Std.ExtTreeMap.getElem?_map, Std.ExtTreeMap.getElem?_map]
    exact h name
  have hempty : other.isEmpty = suit.isEmpty := by
    rw [Bool.eq_iff_iff, Std.ExtTreeMap.isEmpty_iff, Std.ExtTreeMap.isEmpty_iff,
      ← Std.ExtTreeMap.map_eq_empty_iff, htables, Std.ExtTreeMap.map_eq_empty_iff]
  have hshown : (other.sorted path).map Card.shown = (suit.sorted path).map Card.shown := by
    have hsorted : ∀ suit : Suit, (suit.sorted path).map Card.shown =
        sortBy (fun a b => naturalLe a.1 b.1) ((suit.cards path).map Card.shown) := by
      intro suit
      apply map_sortBy
      exact fun _ _ => rfl
    rw [hsorted, hsorted, map_shown_cards, map_shown_cards, htables]
  have hwritten : (other.sorted path).map (Card.written none) =
      (suit.sorted path).map (Card.written none) := by
    have hlines := congrArg (List.map lineOf) hshown
    rwa [List.map_map, List.map_map] at hlines
  unfold written
  rw [hempty, hwritten]

end Suit

namespace Store

variable {store other : Store}

/-- Without repetition in the order, a deck is written suit by suit. -/
private theorem deckText_eq_join (h : store.order.Nodup) :
    store.deckText none =
      String.join (store.order.map fun path => ((store.suit? path).getD ∅).written none path) := by
  rw [deckText, order, List.map_map]
  refine congrArg String.join (List.map_congr_left fun item hitem => ?_)
  simp [(mem_suits_iff h).1 hitem]

/-- Stores with the same suits that show the same in every place are written alike. -/
theorem deckText_congr (h : store.order.Nodup) (horder : other.order = store.order)
    (hshown : ∀ path name, (other.kept? path name).map Entry.shown =
      (store.kept? path name).map Entry.shown) :
    other.deckText none = store.deckText none := by
  rw [deckText_eq_join h, deckText_eq_join (horder ▸ h), horder]
  refine congrArg String.join (List.map_congr_left fun path hpath => ?_)
  apply Suit.written_congr
  intro name
  obtain ⟨suit, hsuit⟩ := Option.isSome_iff_exists.1 (isSome_suit?_iff.2 hpath)
  obtain ⟨suit', hsuit'⟩ := Option.isSome_iff_exists.1 (isSome_suit?_iff.2 (horder ▸ hpath))
  simpa [kept?, hsuit, hsuit'] using hshown path name

end Store

end InputDeck
