import InputDeck.Proofs.Store.Ledger
import Mathlib.Algebra.BigOperators.Group.List.Basic

/-!
# The stores that ledgers show

A store is what its ledger shows: its suits in their order, each with its cards. A ledger in step
is seen like the store it shows, and every change of a suit shows as the same change there.
-/

namespace InputDeck

namespace Ledger

variable {ledger : Ledger}

/-- The cards of a suit without their places. -/
def entries (cards : Table Card) : Suit := cards.map fun _ card => card.toEntry

/-- The store that a ledger shows. -/
def toStore (ledger : Ledger) : Store :=
  ⟨ledger.order.map fun path => (path, ((ledger.suits[path]?).map entries).getD ∅)⟩

@[simp] theorem order_toStore (ledger : Ledger) : ledger.toStore.order = ledger.order := by
  rw [Store.order, toStore, List.map_map]
  exact List.map_id _

/-- A store is shown by a ledger with the same order and the same suits. -/
theorem toStore_eq {store : Store} (h : ledger.order.Nodup) (horder : store.order = ledger.order)
    (hsuit : ∀ path, store.suit? path = (ledger.suits[path]?).map entries) :
    ledger.toStore = store := by
  have hsuits := Store.suits_eq_map (show store.order.Nodup from horder ▸ h)
  simp only [horder, hsuit] at hsuits
  obtain ⟨suits⟩ := store
  exact congrArg Store.mk hsuits.symm

namespace InStep

variable (h : ledger.InStep)
include h

/-- A suit of the store has the cards of the ledger. -/
theorem suit?_toStore (path : SuitPath) :
    ledger.toStore.suit? path = (ledger.suits[path]?).map entries := by
  have hnodup : ledger.toStore.order.Nodup := by
    rw [order_toStore]
    exact h.nodup
  cases hcards : ledger.suits[path]? with
  | none =>
    refine Store.suit?_eq_none_of_notMem fun hmem => ?_
    rw [order_toStore, h.mem_order, Std.ExtTreeMap.mem_iff_isSome_getElem?, hcards] at hmem
    cases hmem
  | some cards =>
    have hmem : path ∈ ledger.order := by
      rw [h.mem_order, Std.ExtTreeMap.mem_iff_isSome_getElem?, hcards]
      rfl
    refine (Store.mem_suits_iff hnodup).1 (List.mem_map.2 ⟨path, hmem, ?_⟩)
    rw [hcards]
    rfl

/-- A place of the store shows the card of the ledger. -/
theorem card?_toStore (path : SuitPath) (name : String) :
    ledger.toStore.card? path name = ledger.card? path name := by
  unfold Store.card? card?
  rw [h.suit?_toStore]
  cases hcards : ledger.suits[path]? with
  | none => rfl
  | some cards =>
    simp only [Option.map_some, Option.bind_eq_bind, Option.bind_some, entries,
      Std.ExtTreeMap.getElem?_map]
    cases hcard : cards[name]? with
    | none => rfl
    | some card =>
      obtain ⟨rfl, rfl⟩ := h.placedAt path cards hcards name card hcard
      rfl

/-- The cards of the store are listed as those of the ledger. -/
theorem cards_toStore : ledger.toStore.cards = ledger.cards := by
  rw [Store.cards, toStore, List.flatMap_map, cards, List.filterMap_eq_flatMap_toList,
    List.flatMap_assoc]
  refine List.flatMap_congr fun path _ => ?_
  cases hcards : ledger.suits[path]? with
  | none => simp [Suit.cards]
  | some cards =>
    simp only [Option.map_some, Option.getD_some, Option.toList_some, List.flatMap_singleton,
      Suit.cards, entries, Std.ExtTreeMap.toList_map, List.map_map]
    refine List.map_congr_left ?_
    rintro ⟨name, card⟩ hitem
    obtain ⟨rfl, rfl⟩ := h.placedAt path cards hcards name card
      (Std.ExtTreeMap.mem_toList_iff_getElem?_eq_some.1 hitem)
    rfl

/-- The suits of the order are those of the map, in another order. -/
theorem perm_suits :
    (ledger.order.filterMap fun path => ledger.suits[path]?).Perm
      (ledger.suits.toList.map Prod.snd) := by
  have hkeys : ledger.order.Perm (ledger.suits.toList.map Prod.fst) := by
    rw [Std.ExtTreeMap.map_fst_toList_eq_keys,
      List.perm_ext_iff_of_nodup h.nodup Std.ExtTreeMap.nodup_keys]
    intro path
    rw [h.mem_order, Std.ExtTreeMap.mem_keys]
  have hfound : ((ledger.suits.toList.map Prod.fst).filterMap fun path => ledger.suits[path]?) =
      ledger.suits.toList.map Prod.snd := by
    rw [List.filterMap_map, ← List.filterMap_eq_map]
    refine List.filterMap_congr fun item hitem => ?_
    exact Std.ExtTreeMap.mem_toList_iff_getElem?_eq_some.1 hitem
  rw [← hfound]
  exact hkeys.filterMap _

/-- The cards of a ledger are counted as they are listed. -/
theorem size_eq_length_cards : ledger.size = ledger.cards.length := by
  rw [cards, List.length_flatMap, size]
  have hsum := (h.perm_suits.map fun cards => cards.size).sum_nat
  rw [List.map_map] at hsum
  simp only [List.length_map, Std.ExtTreeMap.length_toList]
  exact hsum.symm

/-- The store and the ledger are seen alike. -/
theorem catalogue_toStore : ledger.toStore.catalogue = ledger.catalogue := by
  have hsuit : (fun path => (ledger.toStore.suit? path).isSome) =
      fun path => ledger.suits.contains path := by
    funext path
    rw [h.suit?_toStore, Option.isSome_map, Std.ExtTreeMap.contains_eq_isSome_getElem?]
  have hcard : ledger.toStore.card? = ledger.card? := by
    funext path name
    exact h.card?_toStore path name
  rw [Store.catalogue, catalogue, order_toStore, hsuit, hcard, Store.size_eq_length_cards,
    h.cards_toStore, h.size_eq_length_cards]

/-- A ledger in step is tidy. -/
theorem isTidy_catalogue : ledger.catalogue.IsTidy := by
  rw [← h.catalogue_toStore]
  apply Store.isTidy_catalogue
  · rw [order_toStore]
    exact h.head?
  · rw [order_toStore]
    exact h.nodup

/-! ### The same operation on both -/

/-- A suit that is made shows as one. -/
theorem toStore_ensureSuit (path : SuitPath) :
    (ledger.ensureSuit path).toStore = ledger.toStore.ensureSuit path := by
  refine toStore_eq ((ledger.keeps_ensureSuit path).inStep h).nodup ?_ fun other => ?_
  · rw [Store.order_ensureSuit, order_toStore, ensureSuit]
    simp only [h.mem_order]
  · rw [Store.suit?_ensureSuit, h.suit?_toStore, h.suit?_toStore, getElem?_ensureSuit]
    split
    · cases ledger.suits[path]? with
      | none => rfl
      | some cards => rfl
    · rfl

/-- A change of a suit shows as one of its entries. -/
theorem toStore_modifySuit {path : SuitPath} {f : Table Card → Table Card} {g : Suit → Suit}
    (hfg : ∀ cards, ledger.suits[path]? = some cards → entries (f cards) = g (entries cards)) :
    (ledger.modifySuit path f).toStore = ledger.toStore.modifySuit path g := by
  refine toStore_eq h.nodup ?_ fun other => ?_
  · rw [Store.order_modifySuit, order_toStore]
    rfl
  · rw [Store.suit?_modifySuit, h.suit?_toStore, getElem?_modifySuit]
    split
    · next he =>
      subst he
      cases hcards : ledger.suits[other]? with
      | none => rfl
      | some cards => simp [hfg cards hcards]
    · rfl

end InStep

/-- A card that is put into a suit is an entry of it. -/
theorem entries_insert (cards : Table Card) (card : Card) :
    entries (cards.insert card.name card) = (entries cards).insert card.name card.toEntry := by
  apply Table.ext_getElem?
  intro name
  rw [Table.getElem?_insert_eq, entries, entries, Std.ExtTreeMap.getElem?_map,
    Std.ExtTreeMap.getElem?_map, Table.getElem?_insert_eq]
  split <;> rfl

/-- A card that is taken out of a suit is no entry of it. -/
theorem entries_erase (cards : Table Card) (name : String) :
    entries (cards.erase name) = (entries cards).erase name := by
  apply Table.ext_getElem?
  intro other
  rw [Std.ExtTreeMap.getElem?_erase, entries, entries, Std.ExtTreeMap.getElem?_map,
    Std.ExtTreeMap.getElem?_map, Std.ExtTreeMap.getElem?_erase]
  split <;> rfl

/-- A name that no card has is not taken out. -/
theorem erase_eq_self {cards : Table Card} {name : String} (h : cards[name]? = none) :
    cards.erase name = cards := by
  apply Table.ext_getElem?
  intro other
  rw [Std.ExtTreeMap.getElem?_erase]
  split
  · next he =>
    obtain rfl := Std.LawfulEqCmp.eq_of_compare he
    exact h.symm
  · rfl

/-- A card that is changed in its suit is another entry of it. -/
theorem entries_modify {cards : Table Card} {name : String} {card : Card}
    (h : cards[name]? = some card) (f : Card → Card) :
    entries (cards.modify name f) = (entries cards).insert name (f card).toEntry := by
  apply Table.ext_getElem?
  intro other
  simp only [Table.getElem?_insert_eq, entries, Std.ExtTreeMap.getElem?_map,
    Std.ExtTreeMap.getElem?_modify, Std.LawfulEqCmp.compare_eq_iff_eq]
  split
  · next he => simp [h]
  · rfl

/-- A card is found in its place, or else its suit or the card is missing. -/
theorem get_eq (ledger : Ledger) (suit name : String) :
    ledger.get suit name =
      match ledger.suits[SuitPath.ofString suit]? with
      | some cards =>
        match cards[name]? with
        | some card => .ok card
        | none => .error (.cardNotFound suit name)
      | none => .error (.suitNotFound suit) := by
  unfold get find
  cases ledger.suits[SuitPath.ofString suit]? <;> rfl

/-- A card is found exactly when its place has it. -/
theorem get_eq_ok_iff {suit name : String} {card : Card} :
    ledger.get suit name = .ok card ↔ ledger.card? (.ofString suit) name = some card := by
  rw [get_eq, card?]
  cases ledger.suits[SuitPath.ofString suit]? with
  | none => simp
  | some cards => cases hcard : cards[name]? <;> simp [hcard]

/-- The card of a place once a suit was changed. -/
theorem card?_modifySuit (ledger : Ledger) (changed path : SuitPath) (f : Table Card → Table Card)
    (name : String) :
    (ledger.modifySuit changed f).card? path name =
      if path = changed then ledger.suits[path]?.bind fun cards => (f cards)[name]?
      else ledger.card? path name := by
  unfold card?
  rw [getElem?_modifySuit]
  split
  · exact Option.bind_map ..
  · rfl

/-- A card that is rewritten is still there, and so is every other one. -/
theorem exists_get_of_update {suit name : String} {value : Value} {comment : Option String}
    {next : Ledger} (hupdate : update suit name value comment ledger = .ok () next)
    {other : String} {card : Card} (hcard : ledger.get suit other = .ok card) :
    ∃ card, next.get suit other = .ok card := by
  unfold update at hupdate
  split at hupdate
  · obtain rfl := (EStateM.Result.ok.inj hupdate).2
    rw [get_eq_ok_iff, card?] at hcard
    obtain ⟨cards, hcards, hother⟩ := Option.bind_eq_some_iff.1 hcard
    simp only [get_eq_ok_iff, card?_modifySuit, if_true, hcards, Option.bind_some,
      Std.ExtTreeMap.getElem?_modify]
    split
    · next he =>
      obtain rfl := Std.LawfulEqCmp.eq_of_compare he
      rw [hother]
      exact ⟨_, rfl⟩
    · exact ⟨card, hother⟩
  · cases hupdate

/-- Elements that exist in a ledger exist in every one that has its cards. -/
theorem checkElements_of_forall {next : Ledger} {suit base : String}
    (h : ∀ name card, ledger.get suit name = .ok card → ∃ card, next.get suit name = .ok card)
    {index : Nat} {values : List Value}
    (hcheck : ledger.checkElements suit base index values = .ok ()) :
    next.checkElements suit base index values = .ok () := by
  induction values generalizing index with
  | nil => rfl
  | cons value values ih =>
    obtain ⟨card, hcard, hrest⟩ := Except.bind_eq_ok_iff.1 hcheck
    obtain ⟨other, hother⟩ := h _ card hcard
    exact Except.bind_eq_ok_iff.2 ⟨other, hother, ih hrest⟩

/-- A suit whose cards stay is not changed. -/
theorem modifySuit_eq_self {path : SuitPath} {f : Table Card → Table Card}
    (h : ∀ cards, ledger.suits[path]? = some cards → f cards = cards) :
    ledger.modifySuit path f = ledger := by
  have hsuits : (ledger.modifySuit path f).suits = ledger.suits := by
    apply Std.ExtTreeMap.ext_getElem?
    intro other
    rw [getElem?_modifySuit]
    split
    · next he =>
      subst he
      cases hcards : ledger.suits[other]? with
      | none => rfl
      | some cards => rw [Option.map_some, h cards hcards]
    · rfl
  obtain ⟨suits, order⟩ := ledger
  exact congrArg (Ledger.mk · order) hsuits

namespace InStep

variable (h : ledger.InStep)
include h

/-- A card has the place that it is found in. -/
theorem place_of_card? {path : SuitPath} {name : String} {card : Card}
    (hcard : ledger.card? path name = some card) : card.suit = path ∧ card.name = name := by
  obtain ⟨cards, hcards, hname⟩ := Option.bind_eq_some_iff.1 hcard
  exact h.placedAt path cards hcards name card hname

/-- A card that is put in its place shows as one. -/
theorem toStore_insert (card : Card) :
    (ledger.insert card).toStore = ledger.toStore.insert card := by
  have hmade := (ledger.keeps_ensureSuit card.suit).inStep h
  rw [insert, hmade.toStore_modifySuit (g := fun suit => suit.insert card.name card.toEntry)
    (fun cards _ => entries_insert cards card), h.toStore_ensureSuit]
  rfl

/-- A value that is put in a place shows as one. -/
theorem toStore_add (suit name : String) (value : Value) (comment : Option String) :
    (ledger.add suit name value comment).toStore = ledger.toStore.add suit name value comment :=
  h.toStore_insert _

/-- Values that are put in the places of elements show as such. -/
theorem toStore_addElements (suit base : String) (index : Nat) (values : List Value) :
    (ledger.addElements suit base index values).toStore =
      ledger.toStore.addElements suit base index values := by
  induction values generalizing ledger index with
  | nil => rfl
  | cons value values ih =>
    have hadd := (ledger.keeps_add suit (elementName base index) value none).inStep h
    rw [addElements, ih hadd, h.toStore_add]
    rfl

/-- The same card is found in the store, or the same is missing. -/
theorem get_toStore (suit name : String) : ledger.toStore.get suit name = ledger.get suit name := by
  rw [get_eq, Store.get, Store.find, h.suit?_toStore]
  cases hcards : ledger.suits[SuitPath.ofString suit]? with
  | none => rfl
  | some cards =>
    have hentry : (entries cards)[name]? = (cards[name]?).map Card.toEntry := by
      rw [entries, Std.ExtTreeMap.getElem?_map]
    dsimp only [Option.map_some]
    cases hcard : cards[name]? with
    | none =>
      rw [hcard] at hentry
      simp only [bind, Except.bind, hentry, Option.map_none]
      rfl
    | some card =>
      obtain ⟨hsuit, hname⟩ := h.placedAt _ cards hcards name card hcard
      rw [hcard] at hentry
      simp only [bind, Except.bind, hentry, Option.map_some]
      rw [← hsuit, ← hname]
      rfl

/-- The same elements exist in the store, or the same one is missing. -/
theorem checkElements_toStore (suit base : String) (index : Nat) (values : List Value) :
    ledger.toStore.checkElements suit base index values =
      ledger.checkElements suit base index values := by
  induction values generalizing index with
  | nil => rfl
  | cons value values ih =>
    rw [checkElements, Store.checkElements, h.get_toStore, ih]

/-- A global becomes the same card in the store. -/
theorem cardOfGlobal_toStore (provenance : Provenance) (name : String) (value : Value) :
    ledger.toStore.cardOfGlobal provenance name value =
      ledger.cardOfGlobal provenance name value := by
  unfold Store.cardOfGlobal cardOfGlobal
  obtain ⟨path, own⟩ := SuitPath.splitGlobal name
  dsimp only
  cases provenance[name]? with
  | some origin => rfl
  | none =>
    rw [h.card?_toStore]
    cases hcard : ledger.card? path own with
    | some card =>
      obtain ⟨rfl, rfl⟩ := h.place_of_card? hcard
      rw [get_eq_ok_iff.2 (by rw [SuitPath.ofString_text]; exact hcard)]
    | none =>
      cases hget : ledger.get path.text own with
      | error e => rfl
      | ok card =>
        rw [get_eq_ok_iff, SuitPath.ofString_text, hcard] at hget
        cases hget

/-- Globals become the same cards in the store. -/
theorem toStore_withGlobals (provenance : Provenance) (globals : Table Value) :
    (ledger.withGlobals provenance globals).toStore =
      ledger.toStore.withGlobals provenance globals := by
  unfold withGlobals Store.withGlobals Store.withEntries
  generalize sortBy provenance.before globals.toList = items
  induction items generalizing ledger with
  | nil => rfl
  | cons item items ih =>
    rw [List.foldl_cons, List.foldl_cons, ih ((ledger.keeps_insert _).inStep h), h.toStore_insert,
      h.cardOfGlobal_toStore]

/-- A card that is rewritten in place shows as one that is put there. -/
theorem toStore_rewrite {suit name : String} {card : Card}
    (hcard : ledger.get suit name = .ok card) (value : Value) (comment : Option String) :
    (ledger.modifySuit (.ofString suit) fun cards =>
      cards.modify name (rewrite value comment)).toStore =
        ledger.toStore.insert (rewrite value comment card) := by
  rw [get_eq_ok_iff] at hcard
  obtain ⟨cards, hcards, hname⟩ := Option.bind_eq_some_iff.1 hcard
  obtain ⟨hsuit, rfl⟩ := h.place_of_card? hcard
  have hplace : (rewrite value comment card).suit = .ofString suit := hsuit
  have hmem : SuitPath.ofString suit ∈ ledger.toStore.order := by
    rw [← Store.isSome_suit?_iff, h.suit?_toStore, hcards]
    rfl
  rw [Store.insert, hplace, Store.order_ensureSuit_of_mem hmem]
  refine h.toStore_modifySuit fun other hother => ?_
  obtain rfl := Option.some.inj (hcards.symm.trans hother)
  exact entries_modify hname (rewrite value comment)

end InStep

end Ledger

end InputDeck
