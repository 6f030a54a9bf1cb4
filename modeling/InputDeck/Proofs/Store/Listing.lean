import InputDeck.Proofs.Store.Places
import Mathlib.Data.List.Nodup

/-!
# Listing the cards of a store

A store is seen through the order of its suits, its suits and cards by their places, and the list
and the number of all cards. These belong together when the order begins with the root and repeats
no suit: then every card is listed once, suit by suit.
-/

namespace InputDeck

/-- What is seen of a store. -/
structure Catalogue where
  /-- The paths of the suits in the order in which they were first seen. -/
  order : List SuitPath
  /-- Whether there is a suit. -/
  hasSuit : SuitPath → Bool
  /-- The card of a place. -/
  card? : SuitPath → String → Option Card
  /-- All cards. -/
  cards : List Card
  /-- The number of cards. -/
  size : Nat

/-- The parts of a catalogue belong together. -/
structure Catalogue.IsTidy (catalogue : Catalogue) : Prop where
  /-- The root is the first suit. -/
  head? : catalogue.order.head? = some .root
  /-- No suit stands twice in the order. -/
  nodup : catalogue.order.Nodup
  /-- The suits of the order are the suits that there are. -/
  mem_order : ∀ path, path ∈ catalogue.order ↔ catalogue.hasSuit path = true
  /-- A card has the place that it is found in. -/
  place : ∀ path name card, catalogue.card? path name = some card →
    card.suit = path ∧ card.name = name
  /-- The cards that are listed are those of all places. -/
  mem_cards : ∀ card, card ∈ catalogue.cards ↔
    ∃ path name, catalogue.card? path name = some card
  /-- No two cards that are listed have the same place. -/
  nodup_places : (catalogue.cards.map fun card => (card.suit, card.name)).Nodup
  /-- The cards of a suit are listed before those of the suits behind it. -/
  bySuits : catalogue.cards.Pairwise fun a b =>
    catalogue.order.idxOf a.suit ≤ catalogue.order.idxOf b.suit
  /-- The cards are counted as they are listed. -/
  size_eq : catalogue.size = catalogue.cards.length

/-- The elements of a list without repetition stand in it by rising index. -/
theorem pairwise_idxOf_le {α : Type} [DecidableEq α] {xs : List α}
    (h : xs.Nodup) : xs.Pairwise fun a b => xs.idxOf a ≤ xs.idxOf b := by
  rw [List.pairwise_iff_getElem]
  intro i j hi hj hij
  rw [h.idxOf_getElem i hi, h.idxOf_getElem j hj]
  exact Nat.le_of_lt hij

namespace Store

variable {store other : Store}

/-- What is seen of a store. -/
def catalogue (store : Store) : Catalogue where
  order := store.order
  hasSuit path := (store.suit? path).isSome
  card? := store.card?
  cards := store.cards
  size := store.size

/-- Without repetition in the order, the suits of a store are found under its paths. -/
theorem suits_eq_map (h : store.order.Nodup) :
    store.suits = store.order.map fun path => (path, (store.suit? path).getD ∅) := by
  rw [order, List.map_map]
  refine ((List.map_congr_left fun item hitem => ?_).trans (List.map_id _)).symm
  simp [(mem_suits_iff h).1 hitem]

/-- A card is listed among the cards of its suit. -/
private theorem suit_eq_of_mem {suit : Suit} {path : SuitPath} {card : Card}
    (h : card ∈ suit.cards path) : card.suit = path :=
  (mem_cards_suit_iff.1 h).1

/-- Without repetition in the order, no two cards of a store have the same place. -/
theorem nodup_places (h : store.order.Nodup) :
    (store.cards.map fun card => (card.suit, card.name)).Nodup := by
  rw [cards, List.map_flatMap, List.nodup_flatMap]
  constructor
  · rintro ⟨path, suit⟩ -
    rw [Suit.cards, List.map_map]
    refine List.pairwise_map.2 (Std.ExtTreeMap.distinct_keys_toList.imp fun {a b} hne he => hne ?_)
    have hname : a.1 = b.1 := (Prod.mk.inj he).2
    rw [hname]
    exact Std.ReflCmp.compare_self
  · refine (List.pairwise_map.1 h).imp fun {a b} hne place ha hb => hne ?_
    obtain ⟨card, hcard, rfl⟩ := List.mem_map.1 ha
    obtain ⟨twin, htwin, he⟩ := List.mem_map.1 hb
    have hsuit : twin.suit = card.suit := (Prod.mk.inj he).1
    rw [← suit_eq_of_mem hcard, ← suit_eq_of_mem htwin, hsuit]

/-- Without repetition in the order, the cards of a store are listed suit by suit. -/
theorem pairwise_idxOf_cards (h : store.order.Nodup) :
    store.cards.Pairwise fun a b => store.order.idxOf a.suit ≤ store.order.idxOf b.suit := by
  rw [cards, List.pairwise_flatMap]
  constructor
  · rintro ⟨path, suit⟩ -
    refine List.pairwise_of_forall_mem_list fun a ha b hb => ?_
    have hsuit : a.suit = b.suit := (suit_eq_of_mem ha).trans (suit_eq_of_mem hb).symm
    exact Nat.le_of_eq (congrArg (fun path => store.order.idxOf path) hsuit)
  · refine (List.pairwise_map.1 (pairwise_idxOf_le h)).imp fun {a b} hle x hx y hy => ?_
    rw [suit_eq_of_mem hx, suit_eq_of_mem hy]
    exact hle

/-- The cards of a store are counted as they are listed. -/
theorem size_eq_length_cards (store : Store) : store.size = store.cards.length := by
  obtain ⟨suits⟩ := store
  have hcount : ∀ count, suits.foldl (fun count item => count + item.2.size) count =
      count + (suits.flatMap fun item => item.2.cards item.1).length := by
    induction suits with
    | nil => exact fun count => rfl
    | cons item suits ih =>
      intro count
      rw [List.foldl_cons, ih, List.flatMap_cons, List.length_append, Suit.cards, List.length_map,
        Std.ExtTreeMap.length_toList, Nat.add_assoc]
  simpa [size, cards] using hcount 0

/-- A store whose order begins with the root and repeats no suit is tidy. -/
theorem isTidy_catalogue (hhead : store.order.head? = some .root) (h : store.order.Nodup) :
    store.catalogue.IsTidy where
  head? := hhead
  nodup := h
  mem_order _ := isSome_suit?_iff.symm
  place _ _ _ hcard := ⟨(place_of_card? hcard).1, (place_of_card? hcard).2.1⟩
  mem_cards card := by
    refine (mem_cards_iff_card? h).trans ⟨fun hcard => ⟨_, _, hcard⟩, ?_⟩
    rintro ⟨path, name, hcard⟩
    obtain ⟨rfl, rfl, -⟩ := place_of_card? hcard
    exact hcard
  nodup_places := nodup_places h
  bySuits := pairwise_idxOf_cards h
  size_eq := size_eq_length_cards store

end Store

end InputDeck
