import InputDeck.Store.Basic

/-!
# Places of a store

A place is a suit and a name. Every operation of a store is described by what it leaves in each
place and by the order of suits: an insertion fills one place, a new suit is empty and comes last.
Inserting what a place holds already changes nothing at all.
-/

namespace InputDeck

namespace Store

/-- What a store keeps in a place. -/
def kept? (store : Store) (path : SuitPath) (name : String) : Option Entry :=
  (store.suit? path).bind fun suit => suit[name]?

/-- A card is what a store keeps in its place, with the place. -/
theorem card?_eq_map_kept? (store : Store) (path : SuitPath) (name : String) :
    store.card? path name = (store.kept? path name).map fun entry => ⟨entry, path, name⟩ := by
  unfold card? kept?
  cases store.suit? path with
  | none => rfl
  | some suit => cases hentry : suit[name]? <;> simp [hentry]

/-- The card of a place has the place. -/
theorem place_of_card? {store : Store} {path : SuitPath} {name : String} {card : Card}
    (h : store.card? path name = some card) :
    card.suit = path ∧ card.name = name ∧ store.kept? path name = some card.toEntry := by
  rw [card?_eq_map_kept?] at h
  obtain ⟨entry, hentry, rfl⟩ := Option.map_eq_some_iff.1 h
  exact ⟨rfl, rfl, hentry⟩

/-- A new store keeps nothing. -/
@[simp] theorem kept?_default (path : SuitPath) (name : String) :
    ({} : Store).kept? path name = none := by
  rw [kept?, suit?, List.lookup_cons]
  split
  · simp
  · rfl

/-- A suit exists exactly when it has a place in the order. -/
theorem isSome_suit?_iff {store : Store} {path : SuitPath} :
    (store.suit? path).isSome = true ↔ path ∈ store.order := by
  rw [suit?, List.lookup_isSome_iff, order, List.mem_map]
  simp only [beq_iff_eq]
  constructor <;>
    · rintro ⟨item, hitem, he⟩
      exact ⟨item, hitem, he.symm⟩

/-- A suit that is no part of the order has no cards. -/
theorem suit?_eq_none_of_notMem {store : Store} {path : SuitPath} (h : path ∉ store.order) :
    store.suit? path = none := by
  rw [← Option.not_isSome_iff_eq_none, isSome_suit?_iff]
  exact h

/-- The suit of a card is a part of the order. -/
theorem mem_order_of_kept? {store : Store} {path : SuitPath} {name : String} {entry : Entry}
    (h : store.kept? path name = some entry) : path ∈ store.order := by
  obtain ⟨suit, hsuit, -⟩ := Option.bind_eq_some_iff.1 h
  exact isSome_suit?_iff.1 (by rw [hsuit]; rfl)

/-- A suit that is made is empty, and every other suit stays. -/
theorem suit?_ensureSuit (store : Store) (made path : SuitPath) :
    (store.ensureSuit made).suit? path =
      if path = made then some ((store.suit? made).getD ∅) else store.suit? path := by
  unfold ensureSuit
  split
  · next hmem =>
    obtain ⟨suit, hsuit⟩ := Option.isSome_iff_exists.1 (isSome_suit?_iff.2 hmem)
    split
    · next he => simp [he, hsuit]
    · rfl
  · next hmem =>
    have hnone := suit?_eq_none_of_notMem hmem
    simp only [suit?] at hnone ⊢
    rw [List.lookup_append, List.lookup_cons, List.lookup_nil]
    by_cases he : path = made
    · simp [he, hnone]
    · have hb : (path == made) = false := by simp [he]
      simp [he, hb]

/-- Changing a suit leaves every other suit as it is. -/
theorem suit?_modifySuit (store : Store) (changed path : SuitPath) (f : Suit → Suit) :
    (store.modifySuit changed f).suit? path =
      if path = changed then (store.suit? path).map f else store.suit? path := by
  obtain ⟨suits⟩ := store
  simp only [suit?, modifySuit]
  induction suits with
  | nil => simp
  | cons item suits ih =>
    obtain ⟨first, cards⟩ := item
    rw [List.map_cons]
    by_cases hp : path = first
    · subst hp
      by_cases hi : path = changed <;> simp [hi]
    · have hb : (path == first) = false := by simp [hp]
      by_cases hi : first = changed
      · simpa only [if_pos hi, List.lookup_cons, hb] using ih
      · simpa only [if_neg hi, List.lookup_cons, hb] using ih

/-- An insertion fills the place of its card, and makes the suit when it is new. -/
theorem suit?_insert (store : Store) (card : Card) (path : SuitPath) :
    (store.insert card).suit? path =
      if path = card.suit then
        some (((store.suit? card.suit).getD ∅).insert card.name card.toEntry)
      else store.suit? path := by
  rw [insert, suit?_modifySuit, suit?_ensureSuit]
  split <;> simp

/-- An insertion fills the place of its card and no other one. -/
theorem kept?_insert (store : Store) (card : Card) (path : SuitPath) (name : String) :
    (store.insert card).kept? path name =
      if path = card.suit ∧ name = card.name then some card.toEntry
      else store.kept? path name := by
  simp only [kept?, suit?_insert]
  by_cases hp : path = card.suit
  · subst hp
    rw [if_pos rfl, Option.bind_some, Table.getElem?_insert_eq]
    by_cases hn : name = card.name
    · simp [hn]
    · cases store.suit? card.suit <;> simp [hn, Ne.symm hn]
  · simp [hp]

/-- Making a suit fills no place. -/
@[simp] theorem kept?_ensureSuit (store : Store) (made path : SuitPath) (name : String) :
    (store.ensureSuit made).kept? path name = store.kept? path name := by
  simp only [kept?, suit?_ensureSuit]
  split
  · next he => cases hsuit : store.suit? path <;> simp [← he, hsuit]
  · rfl

/-- An insertion adds at most the suit of its card, behind all others. -/
theorem order_insert (store : Store) (card : Card) :
    (store.insert card).order = (store.ensureSuit card.suit).order := by
  rw [insert, order_modifySuit]

/-- Making a suit keeps the suits that are there, in their order. -/
theorem order_prefix_ensureSuit (store : Store) (path : SuitPath) :
    store.order <+: (store.ensureSuit path).order := by
  rw [order_ensureSuit]
  split
  · exact List.prefix_rfl
  · exact List.prefix_append _ _

/-- An insertion keeps the suits that are there, in their order. -/
theorem order_prefix_insert (store : Store) (card : Card) :
    store.order <+: (store.insert card).order := by
  rw [order_insert]
  exact order_prefix_ensureSuit store card.suit

/-- Making a suit makes no suit twice. -/
theorem nodup_order_ensureSuit {store : Store} (h : store.order.Nodup) (path : SuitPath) :
    (store.ensureSuit path).order.Nodup := by
  rw [order_ensureSuit]
  split
  · exact h
  · next hmem =>
    refine List.nodup_append.2 ⟨h, by simp, fun other hother last hlast => ?_⟩
    rintro rfl
    exact hmem (List.mem_singleton.1 hlast ▸ hother)

/-- The cards of a suit are exactly its names with what stands under them. -/
theorem mem_cards_suit_iff {suit : Suit} {path : SuitPath} {card : Card} :
    card ∈ suit.cards path ↔ card.suit = path ∧ suit[card.name]? = some card.toEntry := by
  obtain ⟨entry, place, name⟩ := card
  simp only [Suit.cards, List.mem_map, Prod.exists, Card.mk.injEq]
  constructor
  · rintro ⟨key, value, hmem, rfl, rfl, rfl⟩
    exact ⟨rfl, Std.ExtTreeMap.mem_toList_iff_getElem?_eq_some.1 hmem⟩
  · rintro ⟨rfl, hentry⟩
    exact ⟨name, entry, Std.ExtTreeMap.mem_toList_iff_getElem?_eq_some.2 hentry, rfl, rfl, rfl⟩

/-- Without repetition in the order, the suits of a list are found under their paths. -/
theorem mem_suits_iff {store : Store} (h : store.order.Nodup) {path : SuitPath} {suit : Suit} :
    (path, suit) ∈ store.suits ↔ store.suit? path = some suit := by
  obtain ⟨suits⟩ := store
  simp only [order, suit?] at h ⊢
  induction suits with
  | nil => simp
  | cons item suits ih =>
    obtain ⟨first, cards⟩ := item
    rw [List.map_cons] at h
    obtain ⟨hfirst, hrest⟩ := List.nodup_cons.1 h
    rw [List.mem_cons, ih hrest, List.lookup_cons]
    by_cases he : path = first
    · subst he
      have hnone : suits.lookup path = none := by
        rw [List.lookup_eq_none_iff]
        rintro ⟨other, _⟩ hmem
        have hne : path ≠ other := by
          rintro rfl
          exact hfirst (List.mem_map.2 ⟨_, hmem, rfl⟩)
        simpa using hne
      simp [hnone, eq_comm]
    · have hb : (path == first) = false := by simp [he]
      simp [he, hb]

/-- Without repetition in the order, the cards of a store are exactly what it keeps in its places.
-/
theorem mem_cards_iff {store : Store} (h : store.order.Nodup) {card : Card} :
    card ∈ store.cards ↔ store.kept? card.suit card.name = some card.toEntry := by
  simp only [cards, List.mem_flatMap, Prod.exists, kept?, Option.bind_eq_some_iff]
  constructor
  · rintro ⟨path, suit, hmem, hcard⟩
    obtain ⟨rfl, hentry⟩ := mem_cards_suit_iff.1 hcard
    exact ⟨suit, (mem_suits_iff h).1 hmem, hentry⟩
  · rintro ⟨suit, hsuit, hentry⟩
    exact ⟨card.suit, suit, (mem_suits_iff h).2 hsuit, mem_cards_suit_iff.2 ⟨rfl, hentry⟩⟩

/-- Without repetition in the order, the cards of a store are exactly those that its places show. -/
theorem mem_cards_iff_card? {store : Store} (h : store.order.Nodup) {card : Card} :
    card ∈ store.cards ↔ store.card? card.suit card.name = some card := by
  rw [mem_cards_iff h]
  constructor
  · intro hentry
    rw [card?_eq_map_kept?, hentry]
    rfl
  · exact fun hcard => (place_of_card? hcard).2.2

/-- Inserting what a place holds already changes nothing. -/
theorem insert_eq_self {store : Store} (h : store.order.Nodup) {card : Card}
    (hentry : store.kept? card.suit card.name = some card.toEntry) : store.insert card = store := by
  rw [insert, order_ensureSuit_of_mem (mem_order_of_kept? hentry)]
  obtain ⟨suit, hsuit, hcard⟩ := Option.bind_eq_some_iff.1 hentry
  have hsame : suit.insert card.name card.toEntry = suit := by
    apply Table.ext_getElem?
    intro name
    rw [Table.getElem?_insert_eq]
    split
    · next he => rw [← he, hcard]
    · rfl
  have hmap : (store.suits.map fun item =>
      if item.1 = card.suit then (item.1, item.2.insert card.name card.toEntry) else item) =
        store.suits := by
    refine (List.map_congr_left fun item hitem => ?_).trans (List.map_id _)
    by_cases he : item.1 = card.suit
    · have hitem' : item.2 = suit := by
        have := (mem_suits_iff h).1 (show (item.1, item.2) ∈ store.suits from hitem)
        rw [he, hsuit] at this
        exact (Option.some.inj this).symm
      rw [if_pos he, hitem', hsame, ← hitem']
      rfl
    · rw [if_neg he]
      rfl
  simp only [modifySuit, hmap]

end Store

end InputDeck
