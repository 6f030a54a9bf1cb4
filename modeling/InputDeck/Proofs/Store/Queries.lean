import InputDeck.Proofs.Store.ElementNames
import InputDeck.Proofs.Store.Listing
import InputDeck.Store.Query
import InputDeck.Store.Vector
import Mathlib.Data.List.Pairwise

/-!
# Queries in the order of lines

A query in the order of lines finds exactly the cards of the suits that it asks for, each of them
once. The cards stand by line, those without a line first, and the cards of one line stand by name
in natural order. So the elements of a vector that one line assigned stand by index, however many
they are.
-/

namespace InputDeck.Store

open InputDeck.Text

/-- The cards of the suits that are asked for, in the order of their lines. -/
structure ListsInOrder (store : Store) (asked : SuitPath → Prop) (found : List Card) : Prop where
  /-- The cards of the suits that are asked for are found, and no other cards. -/
  mem_iff : ∀ card, card ∈ found ↔ asked card.suit ∧ store.card? card.suit card.name = some card
  /-- No place is found twice. -/
  nodup_places : (found.map fun card => (card.suit, card.name)).Nodup
  /-- Cards stand by line, those without a line first, and the cards of one line by name. -/
  ordered : found.Pairwise fun a b =>
    a.line < b.line ∨ a.line = b.line ∧ (compareNatural a.name b.name).isLE = true
  /-- The elements of a vector from one line stand by index. -/
  elements : ∀ a ∈ found, ∀ b ∈ found, a.line = b.line → ∀ base i j,
    IsElementName a.name base i → IsElementName b.name base j → i < j → [a, b].Sublist found

variable {store : Store}

/-- What cards are ordered by: the line, and then the name. -/
def compareLines : Card → Card → Ordering :=
  compareLex (compareOn fun card => card.line) fun a b => compareNatural a.name b.name

instance : Std.TransCmp compareLines :=
  have : Std.TransCmp fun a b : Card => compareNatural a.name b.name :=
    { eq_swap := Std.OrientedCmp.eq_swap, isLE_trans := Std.TransCmp.isLE_trans }
  inferInstanceAs (Std.TransCmp (compareLex _ _))

/-- A card may stand before those that are not less. -/
theorem lineLe_eq_isLE (a b : Card) : lineLe a b = (compareLines a b).isLE := by
  rw [lineLe, compareIndex_eq_compare]
  rfl

/-- A card may stand before those of a later line, and of the same line by its name. -/
theorem lineLe_iff {a b : Card} : lineLe a b = true ↔
    a.line < b.line ∨ a.line = b.line ∧ (compareNatural a.name b.name).isLE = true := by
  rw [lineLe, Ordering.isLE_then_iff_or, compareIndex_eq_lt_iff, compareIndex_eq_compare,
    Std.LawfulEqCmp.compare_eq_iff_eq]

/-- Cards that are sorted are in the order of their lines. -/
theorem pairwise_lineLe (cards : List Card) :
    (sortBy lineLe cards).Pairwise fun a b => lineLe a b = true := by
  refine pairwise_sortBy (fun a b c hab hbc => ?_) (fun a b => ?_) cards
  · rw [lineLe_eq_isLE] at hab hbc ⊢
    exact Std.TransCmp.isLE_trans hab hbc
  · rw [lineLe_eq_isLE, lineLe_eq_isLE,
      show compareLines b a = (compareLines a b).swap from Std.OrientedCmp.eq_swap]
    cases compareLines a b <;> rfl

/-- Two different entries of a list stand in it one way or the other. -/
theorem pair_sublist_or {α : Type} {xs : List α} {a b : α} (ha : a ∈ xs) (hb : b ∈ xs)
    (hne : a ≠ b) : [a, b].Sublist xs ∨ [b, a].Sublist xs := by
  have hpairs : xs.Pairwise fun x y => [x, y].Sublist xs ∨ [y, x].Sublist xs :=
    List.pairwise_iff_forall_sublist.2 .inl
  have : Std.Symm fun x y => [x, y].Sublist xs ∨ [y, x].Sublist xs := ⟨fun _ _ => Or.symm⟩
  exact hpairs.forall ha hb hne

/-- Fewer elements of a list have fewer images. -/
theorem flatMap_sublist {α β : Type} {xs ys : List α} (h : xs.Sublist ys) (f : α → List β) :
    (xs.flatMap f).Sublist (ys.flatMap f) := by
  induction h with
  | slnil => exact .slnil
  | cons y _ ih => exact ih.trans (List.sublist_append_right (f y) _)
  | cons_cons y _ ih => exact (List.append_sublist_append_left (f y)).2 ih

/-- Cards of places that are asked for are listed in order once they are sorted. -/
theorem listsInOrder_sortBy (asked : SuitPath → Prop) {cards : List Card}
    (hmem : ∀ card, card ∈ cards ↔
      asked card.suit ∧ store.card? card.suit card.name = some card)
    (hplaces : (cards.map fun card => (card.suit, card.name)).Nodup) :
    store.ListsInOrder asked (sortBy lineLe cards) := by
  have hordered := (pairwise_lineLe cards).imp fun {a b} => lineLe_iff.1
  refine ⟨fun card => mem_sortBy.trans (hmem card), ?_, hordered, ?_⟩
  · exact ((sortBy_perm lineLe cards).map _).nodup_iff.2 hplaces
  · intro a ha b hb hline base i j hi hj hij
    have hlt : compareNatural a.name b.name = .lt :=
      (isNaturalOrder_compareNatural.lt_iff _ _ _ _ _ _ (.element hi) (.element hj)).2
        (.inr ⟨rfl, hij⟩)
    have hne : a ≠ b := by
      rintro rfl
      rw [isNaturalOrder_compareNatural.refl] at hlt
      cases hlt
    rcases pair_sublist_or ha hb hne with h | h
    · exact h
    · -- The other way round, the cards were not in order.
      rcases List.pairwise_iff_forall_sublist.1 hordered h with hless | ⟨-, hle⟩
      · rw [hline] at hless
        cases hnone : b.line with
        | none => rw [hnone] at hless; exact hless.elim
        | some line => rw [hnone] at hless; exact absurd hless (Nat.lt_irrefl line)
      · rw [isNaturalOrder_compareNatural.swap a.name, hlt] at hle
        cases hle

/-- No two cards of some of the suits have the same place. -/
theorem nodup_places_of_sublist (h : store.order.Nodup) {items : List (SuitPath × Suit)}
    (hitems : items.Sublist store.suits) :
    ((items.flatMap fun item => item.2.cards item.1).map
      fun card => (card.suit, card.name)).Nodup :=
  ((flatMap_sublist hitems _).map _).nodup (nodup_places h)

/-- The cards of some of the suits are those that their places show. -/
theorem mem_flatMap_cards_iff (h : store.order.Nodup) (asked : SuitPath → Prop)
    {items : List (SuitPath × Suit)}
    (hitems : ∀ item, item ∈ items ↔ item ∈ store.suits ∧ asked item.1) {card : Card} :
    card ∈ (items.flatMap fun item => item.2.cards item.1) ↔
      asked card.suit ∧ store.card? card.suit card.name = some card := by
  rw [← mem_cards_iff_card? h, cards, List.mem_flatMap, List.mem_flatMap]
  constructor
  · rintro ⟨item, hitem, hcard⟩
    obtain ⟨hmem, hasked⟩ := (hitems item).1 hitem
    exact ⟨(mem_cards_suit_iff.1 hcard).1 ▸ hasked, item, hmem, hcard⟩
  · rintro ⟨hasked, item, hmem, hcard⟩
    exact ⟨item, (hitems item).2 ⟨hmem, (mem_cards_suit_iff.1 hcard).1 ▸ hasked⟩, hcard⟩

/-- The cards of all suits with the pattern in their path are listed in order. -/
theorem listsInOrder_suitsInOrder (h : store.order.Nodup) (pattern : String) :
    store.ListsInOrder (fun path => withoutStar pattern.toList <:+: path.text.toList)
      (store.suitsInOrder pattern) := by
  refine listsInOrder_sortBy _ (fun card => ?_) ?_
  · refine mem_flatMap_cards_iff h (fun path => _ <:+: path.text.toList) fun item => ?_
    rw [mem_sortBy, List.mem_filter, matchesPath, occursIn_iff]
  · refine ((List.Perm.flatMap_right _ (sortBy_perm _ _)).map _).nodup_iff.2 ?_
    exact nodup_places_of_sublist h List.filter_sublist

/-- The cards of a suit that exists are listed in order, and the root has none when it is
missing. -/
theorem exists_suitInOrder (h : store.order.Nodup) {suit : String}
    (hsuit : SuitPath.ofString suit ∈ store.order ∨ (SuitPath.ofString suit).isRoot = true) :
    ∃ found, store.suitInOrder suit = .ok found ∧
      store.ListsInOrder (· = .ofString suit) found := by
  cases hfound : store.suit? (.ofString suit) with
  | some cards =>
    have hmem := (mem_suits_iff h).2 hfound
    have hitems : ∀ item, item ∈ [(SuitPath.ofString suit, cards)] ↔
        item ∈ store.suits ∧ item.1 = .ofString suit := by
      rintro ⟨path, other⟩
      rw [List.mem_singleton]
      constructor
      · rintro ⟨⟩
        exact ⟨hmem, rfl⟩
      · rintro ⟨hother, rfl⟩
        rw [mem_suits_iff h, hfound] at hother
        rw [Option.some.inj hother]
    have hplaces := nodup_places_of_sublist h (List.singleton_sublist.2 hmem)
    rw [List.flatMap_singleton] at hplaces
    refine ⟨sortBy lineLe (cards.cards (.ofString suit)), by rw [suitInOrder, hfound], ?_⟩
    refine listsInOrder_sortBy _ (fun card => ?_) hplaces
    rw [← mem_flatMap_cards_iff h (· = .ofString suit) hitems, List.flatMap_singleton]
  | none =>
    have hroot : (SuitPath.ofString suit).isRoot = true := by
      rw [← isSome_suit?_iff, hfound] at hsuit
      simpa using hsuit
    refine ⟨[], by rw [suitInOrder, hfound]; exact if_pos hroot, ?_⟩
    have hnone : ∀ card, card ∈ ([] : List Card) ↔ card.suit = .ofString suit ∧
        store.card? card.suit card.name = some card := by
      refine fun card => ⟨nofun, ?_⟩
      rintro ⟨hcard, hplace⟩
      rw [hcard, card?, hfound] at hplace
      cases hplace
    exact listsInOrder_sortBy (· = .ofString suit) hnone List.nodup_nil

/-- Only a suit that is missing cannot be listed, unless it is the root. -/
theorem suitInOrder_eq_error {suit : String} (hsuit : SuitPath.ofString suit ∉ store.order)
    (hroot : (SuitPath.ofString suit).isRoot = false) :
    store.suitInOrder suit = .error (.suitNotFound suit) := by
  rw [suitInOrder, suit?_eq_none_of_notMem hsuit]
  exact if_neg (Bool.eq_false_iff.1 hroot)

/-- Names are ordered naturally, and so are the cards that queries find: whatever the store, a suit
or a pattern lists exactly the cards that it asks for, each once, by their lines and then by their
names, so that the elements of a vector from one line stand by index. -/
theorem queries_in_natural_order (h : store.order.Nodup) (suit : String) :
    IsNaturalOrder compareNatural ∧
      (SuitPath.ofString suit ∈ store.order ∨ (SuitPath.ofString suit).isRoot = true →
        ∃ found, store.suitInOrder suit = .ok found ∧
          store.ListsInOrder (· = .ofString suit) found) ∧
      (SuitPath.ofString suit ∉ store.order → (SuitPath.ofString suit).isRoot = false →
        store.suitInOrder suit = .error (.suitNotFound suit)) ∧
      store.ListsInOrder (fun path => withoutStar suit.toList <:+: path.text.toList)
        (store.suitsInOrder suit) :=
  ⟨isNaturalOrder_compareNatural, exists_suitInOrder h, suitInOrder_eq_error,
    listsInOrder_suitsInOrder h suit⟩

/-- In a suit with eleven elements of a vector, the third one stands in front of the last one. -/
theorem queries_in_natural_order_eleven :
    let store := ({} : Store).addVector "s" "v" (List.replicate 11 (.boolean true))
    store.order.Nodup ∧ ∃ found, store.suitInOrder "s" = .ok found ∧
      ∃ a b, [a, b].Sublist found ∧ a.name = "v[2]" ∧ b.name = "v[10]" := by
  intro store
  have hnodup : store.order.Nodup := by decide +kernel
  obtain ⟨-, hexact, -⟩ := queries_in_natural_order hnodup "s"
  obtain ⟨found, hfound, hlists⟩ := hexact (.inl (by decide +kernel))
  have hshown : ∀ name, (store.card? (.ofString "s") name).map (fun card => card.line) = some none →
      ∃ card ∈ found, card.name = name ∧ card.line = none := by
    intro name hname
    obtain ⟨card, hcard, hline⟩ := Option.map_eq_some_iff.1 hname
    obtain ⟨hsuit, rfl, -⟩ := place_of_card? hcard
    exact ⟨card, (hlists.mem_iff card).2 ⟨hsuit, hsuit ▸ hcard⟩, rfl, hline⟩
  obtain ⟨a, ha, hname, hline⟩ := hshown "v[2]" (by decide +kernel)
  obtain ⟨b, hb, hname', hline'⟩ := hshown "v[10]" (by decide +kernel)
  refine ⟨hnodup, found, hfound, a, b, ?_, hname, hname'⟩
  refine hlists.elements a ha b hb (hline.trans hline'.symm) "v" 2 10 ?_ ?_ (by decide)
  · exact elementName?_eq_some_iff.1 (by rw [hname]; decide +kernel)
  · exact elementName?_eq_some_iff.1 (by rw [hname']; decide +kernel)

/-- Behind an empty base, digits in brackets are no index: two such texts of the same value are
different names, and are not equal in natural order. -/
theorem digits_without_base_differ :
    compareNatural "[1]" "[01]" ≠ .eq ∧ "[1]" ≠ "[01]" ∧
      ∃ base digits digits', "[1]" = base ++ "[" ++ String.ofList digits ++ "]" ∧
        "[01]" = base ++ "[" ++ String.ofList digits' ++ "]" ∧
        Number.word? digits = some 1 ∧ Number.word? digits' = some 1 :=
  ⟨by decide +kernel, by decide, "", ['1'], ['0', '1'], by decide, by decide, by decide, by decide⟩

end InputDeck.Store
