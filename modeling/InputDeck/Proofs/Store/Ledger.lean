import InputDeck.Globals
import InputDeck.Proofs.Outcome
import InputDeck.Proofs.Store.Listing
import InputDeck.Store.Vector
import Mathlib.Algebra.GroupWithZero.Nat

/-!
# Stores in two parts

A ledger keeps the suits of a store and their order apart: a map has the cards of each suit, every
card with its place, and a list has the suits as they were first seen. The operations change the
two parts in place, one step after the other, so what a failing one has done so far stays done.
Nothing in the types ties the parts together. That they stay in step is what every operation keeps.
-/

namespace InputDeck

namespace SuitPath

/-- The order of paths by their characters. -/
instance : Ord SuitPath := ⟨compareOn SuitPath.text⟩

instance : Std.TransOrd SuitPath where
  eq_swap {p q} := show compare p.text q.text = (compare q.text p.text).swap from
    Std.OrientedCmp.eq_swap
  isLE_trans {p q r} hpq hqr := by
    have hpq : (compare p.text q.text).isLE = true := hpq
    have hqr : (compare q.text r.text).isLE = true := hqr
    show (compare p.text r.text).isLE = true
    exact Std.TransCmp.isLE_trans hpq hqr

instance : Std.LawfulEqOrd SuitPath where
  eq_of_compare {p q} h := by
    have h : compare p.text q.text = .eq := h
    rw [← ofString_text p, Std.LawfulEqCmp.eq_of_compare h, ofString_text]

end SuitPath

/-- The suits of a store by their paths, and their order. -/
structure Ledger where
  /-- The cards of each suit by their names; a card repeats its suit and its name. -/
  suits : Std.ExtTreeMap SuitPath (Table Card) compare := ∅
  /-- The paths of the suits in the order in which they were first seen. -/
  order : List SuitPath := []

namespace Ledger

/-- The card of a place. -/
def card? (ledger : Ledger) (path : SuitPath) (name : String) : Option Card := do
  (← ledger.suits[path]?)[name]?

/-- All cards, suit by suit, those of a suit in the order of their names. -/
def cards (ledger : Ledger) : List Card :=
  (ledger.order.filterMap fun path => ledger.suits[path]?).flatMap fun cards =>
    cards.toList.map Prod.snd

/-- The number of cards, summed over the map. -/
def size (ledger : Ledger) : Nat := (ledger.suits.toList.map fun item => item.2.size).sum

/-- What is seen of a ledger. -/
def catalogue (ledger : Ledger) : Catalogue where
  order := ledger.order
  hasSuit path := ledger.suits.contains path
  card? := ledger.card?
  cards := ledger.cards
  size := ledger.size

/-- Have a suit, behind all others when it is new. -/
def ensureSuit (ledger : Ledger) (path : SuitPath) : Ledger where
  suits := ledger.suits.insertIfNew path ∅
  order := if path ∈ ledger.suits then ledger.order else ledger.order ++ [path]

/-- The empty root suit alone. -/
def new : Ledger := ensureSuit {} .root

/-- Change the cards of a suit. -/
def modifySuit (ledger : Ledger) (path : SuitPath) (f : Table Card → Table Card) : Ledger :=
  { ledger with suits := ledger.suits.modify path f }

/-- Put a card in its place, whose suit is made when it is new. -/
def insert (ledger : Ledger) (card : Card) : Ledger :=
  (ledger.ensureSuit card.suit).modifySuit card.suit fun cards => cards.insert card.name card

/-- Put a value in a place, without a line and with a comment unless it is empty. -/
def add (ledger : Ledger) (suit name : String) (value : Value) (comment : Option String) :
    Ledger :=
  ledger.insert ⟨({ value := value } : Entry).withComment comment, .ofString suit, name⟩

/-- A suit that has to exist. -/
def find (ledger : Ledger) (suit : String) : Except DeckError (Table Card) :=
  match ledger.suits[SuitPath.ofString suit]? with
  | some cards => .ok cards
  | none => .error (.suitNotFound suit)

/-- A card that has to exist. -/
def get (ledger : Ledger) (suit name : String) : Except DeckError Card := do
  let cards ← ledger.find suit
  match cards[name]? with
  | some card => return card
  | none => throw (.cardNotFound suit name)

/-- The value of a card as an element of a type. -/
def read {α : Type} [Readable α] (ledger : Ledger) (suit name : String) : Except DeckError α := do
  (← ledger.get suit name).read

/-- The value of a card as an element of a type; a card that is missing is added. -/
def readOrAdd {α : Type} [Storable α] (suit name : String) (default : α) :
    EStateM DeckError Ledger α := fun ledger =>
  if (ledger.card? (.ofString suit) name).isSome then
    match (ledger.read suit name : Except DeckError α) with
    | .ok value => .ok value ledger
    | .error e => .error e ledger
  else
    let card : Card := ⟨{ value := Storable.toValue default }, .ofString suit, name⟩
    match (card.read : Except DeckError α) with
    | .ok value => .ok value (ledger.insert card)
    | .error e => .error e ledger

/-- Another value in a card, and another comment unless that is empty. -/
def rewrite (value : Value) (comment : Option String) (card : Card) : Card :=
  { card with toEntry := ({ card.toEntry with value := value } : Entry).withComment comment }

/-- Give a card another value, and another comment unless that is empty; its line stays. -/
def update (suit name : String) (value : Value) (comment : Option String) :
    EStateM DeckError Ledger Unit := fun ledger =>
  match ledger.get suit name with
  | .ok _ =>
    .ok () (ledger.modifySuit (.ofString suit) fun cards =>
      cards.modify name (rewrite value comment))
  | .error e => .error e ledger

/-- Take a card away. -/
def remove (suit name : String) : EStateM DeckError Ledger Card := fun ledger =>
  match ledger.find suit with
  | .ok cards =>
    let left := ledger.modifySuit (.ofString suit) fun cards => cards.erase name
    match cards[name]? with
    | some card => .ok card left
    | none => .error (.cardNotFound suit name) left
  | .error e => .error e ledger

/-- Put values in the places of elements from an index on. -/
def addElements (ledger : Ledger) (suit base : String) : Nat → List Value → Ledger
  | _, [] => ledger
  | index, value :: values =>
    (ledger.add suit (elementName base index) value none).addElements suit base (index + 1) values

/-- Whether all elements from an index on exist, as many as there are values. -/
def checkElements (ledger : Ledger) (suit base : String) :
    Nat → List Value → Except DeckError Unit
  | _, [] => .ok ()
  | index, _ :: values => do
    let _ ← ledger.get suit (elementName base index)
    ledger.checkElements suit base (index + 1) values

/-- Give the elements from an index on other values, one by one. -/
def updateElements (suit base : String) : Nat → List Value → EStateM DeckError Ledger Unit
  | _, [] => pure ()
  | index, value :: values => do
    update suit (elementName base index) value none
    updateElements suit base (index + 1) values

/-- Give the first elements of a vector other values. All of them have to exist. -/
def updateVector (suit base : String) (values : List Value) : EStateM DeckError Ledger Unit :=
  fun ledger =>
    match ledger.checkElements suit base 0 values with
    | .ok _ => updateElements suit base 0 values ledger
    | .error e => .error e ledger

/-- The card that a global becomes: with the line and the comment of its assignment, or as the card
that is there, or anew. -/
def cardOfGlobal (ledger : Ledger) (provenance : Provenance) (name : String) (value : Value) :
    Card :=
  let (path, card) := SuitPath.splitGlobal name
  match provenance[name]?, ledger.get path.text card with
  | some origin, _ =>
    ⟨({ value := value, line := some origin.line } : Entry).withComment origin.comment, path, card⟩
  | none, .ok existing => { existing with value := value }
  | none, .error _ => ⟨{ value := value }, path, card⟩

/-- The ledger with every global as a card. -/
def withGlobals (ledger : Ledger) (provenance : Provenance) (globals : Table Value) : Ledger :=
  (sortBy provenance.before globals.toList).foldl
    (fun ledger item => ledger.insert (ledger.cardOfGlobal provenance item.1 item.2)) ledger

/-! ### The parts in step -/

/-- The cards of a suit have their places. -/
def PlacedAt (path : SuitPath) (cards : Table Card) : Prop :=
  ∀ (name : String) (card : Card), cards[name]? = some card → card.suit = path ∧ card.name = name

namespace PlacedAt

variable {path : SuitPath} {cards : Table Card}

/-- No card is out of place where there is none. -/
theorem empty (path : SuitPath) : PlacedAt path ∅ := by
  intro name card h
  simp at h

/-- A card is put under its own name. -/
theorem insert {card : Card} (h : PlacedAt card.suit cards) :
    PlacedAt card.suit (cards.insert card.name card) := by
  intro name other hother
  rw [Table.getElem?_insert_eq] at hother
  split at hother
  · next hname =>
    obtain rfl := Option.some.inj hother
    exact ⟨rfl, hname⟩
  · exact h name other hother

/-- A card that is taken away leaves the others in place. -/
theorem erase (h : PlacedAt path cards) (name : String) : PlacedAt path (cards.erase name) := by
  intro other card hcard
  rw [Std.ExtTreeMap.getElem?_erase] at hcard
  split at hcard
  · cases hcard
  · exact h other card hcard

/-- A card that is rewritten stays in place. -/
theorem rewrite (h : PlacedAt path cards) (name : String) (value : Value)
    (comment : Option String) : PlacedAt path (cards.modify name (rewrite value comment)) := by
  intro other card hcard
  rw [Std.ExtTreeMap.getElem?_modify] at hcard
  split at hcard
  · next he =>
    obtain ⟨old, hold, rfl⟩ := Option.map_eq_some_iff.1 hcard
    obtain rfl := Std.LawfulEqCmp.eq_of_compare he
    exact h name old hold
  · exact h other card hcard

end PlacedAt

/-- The two parts of a ledger are in step. -/
structure InStep (ledger : Ledger) : Prop where
  /-- The root is the first suit. -/
  head? : ledger.order.head? = some .root
  /-- No suit stands twice in the order. -/
  nodup : ledger.order.Nodup
  /-- The order has exactly the suits of the map. -/
  mem_order : ∀ path, path ∈ ledger.order ↔ path ∈ ledger.suits
  /-- Every card is filed under its own suit and its own name. -/
  placedAt : ∀ path cards, ledger.suits[path]? = some cards → PlacedAt path cards

/-- What every operation does to the parts of a ledger. -/
structure Keeps (before after : Ledger) : Prop where
  /-- The order only grows at its end. -/
  grows : before.order <+: after.order
  /-- Parts that are in step stay in step. -/
  inStep : before.InStep → after.InStep

variable {ledger : Ledger}

/-- A ledger that stays is kept. -/
theorem Keeps.refl (ledger : Ledger) : Keeps ledger ledger := ⟨List.prefix_rfl, id⟩

/-- What two operations keep, they keep one after the other. -/
theorem Keeps.trans {first second third : Ledger} (h : Keeps first second)
    (hnext : Keeps second third) : Keeps first third :=
  ⟨h.grows.trans hnext.grows, hnext.inStep ∘ h.inStep⟩

/-- The cards of a suit once one was made. -/
theorem getElem?_ensureSuit (ledger : Ledger) (made path : SuitPath) :
    (ledger.ensureSuit made).suits[path]? =
      if path = made then some (ledger.suits[made]?.getD ∅) else ledger.suits[path]? := by
  simp only [ensureSuit, Std.ExtTreeMap.getElem?_insertIfNew, Std.LawfulEqCmp.compare_eq_iff_eq]
  by_cases he : path = made
  · subst he
    cases hsuit : ledger.suits[path]? with
    | none => simp [Std.ExtTreeMap.mem_iff_isSome_getElem?, hsuit]
    | some cards => simp [Std.ExtTreeMap.mem_iff_isSome_getElem?, hsuit]
  · rw [if_neg he, if_neg fun h => he h.1.symm]

/-- The cards of a suit once one was changed. -/
theorem getElem?_modifySuit (ledger : Ledger) (changed path : SuitPath)
    (f : Table Card → Table Card) :
    (ledger.modifySuit changed f).suits[path]? =
      if path = changed then ledger.suits[path]?.map f else ledger.suits[path]? := by
  simp only [modifySuit, Std.ExtTreeMap.getElem?_modify, Std.LawfulEqCmp.compare_eq_iff_eq]
  by_cases he : path = changed
  · rw [if_pos he, if_pos he.symm, he]
  · rw [if_neg he, if_neg (Ne.symm he)]

/-- Making a suit keeps the parts in step. -/
theorem keeps_ensureSuit (ledger : Ledger) (path : SuitPath) :
    Keeps ledger (ledger.ensureSuit path) where
  grows := by
    rw [ensureSuit]
    split
    · exact List.prefix_rfl
    · exact List.prefix_append _ _
  inStep h := by
    have hmem : ∀ other, other ∈ (ledger.ensureSuit path).suits ↔
        other = path ∨ other ∈ ledger.suits := by
      intro other
      rw [ensureSuit, Std.ExtTreeMap.mem_insertIfNew, Std.LawfulEqCmp.compare_eq_iff_eq, eq_comm]
    refine ⟨?_, ?_, fun other => ?_, fun other cards hcards => ?_⟩
    · rw [ensureSuit]
      split
      · exact h.head?
      · rw [List.head?_append, h.head?]
        rfl
    · rw [ensureSuit]
      split
      · exact h.nodup
      · next hnew =>
        rw [← h.mem_order] at hnew
        refine List.nodup_append.2 ⟨h.nodup, by simp, fun other hother last hlast he => ?_⟩
        exact hnew (List.mem_singleton.1 hlast ▸ he ▸ hother)
    · rw [hmem, ← h.mem_order, ensureSuit]
      split
      · next hold =>
        rw [← h.mem_order] at hold
        exact ⟨.inr, fun hother => hother.elim (fun he => he ▸ hold) id⟩
      · simp [or_comm]
    · rw [getElem?_ensureSuit] at hcards
      split at hcards
      · next he =>
        obtain rfl := Option.some.inj hcards
        cases hsuit : ledger.suits[path]? with
        | none => exact PlacedAt.empty other
        | some cards => exact he ▸ h.placedAt path cards hsuit
      · exact h.placedAt other cards hcards

/-- A new ledger is in step. -/
theorem inStep_new : new.InStep where
  head? := by simp [new, ensureSuit]
  nodup := by simp [new, ensureSuit]
  mem_order path := by
    simp only [new, ensureSuit, Std.ExtTreeMap.mem_insertIfNew, Std.LawfulEqCmp.compare_eq_iff_eq]
    simp [eq_comm]
  placedAt path cards hcards := by
    rw [new, getElem?_ensureSuit] at hcards
    split at hcards
    · obtain rfl := Option.some.inj hcards
      exact PlacedAt.empty path
    · simp at hcards

/-- A change of a suit that leaves its cards in place keeps the parts in step. -/
theorem keeps_modifySuit (ledger : Ledger) {path : SuitPath} {f : Table Card → Table Card}
    (hf : ∀ cards, PlacedAt path cards → PlacedAt path (f cards)) :
    Keeps ledger (ledger.modifySuit path f) where
  grows := List.prefix_rfl
  inStep h := by
    refine ⟨h.head?, h.nodup, fun other => ?_, fun other cards hcards => ?_⟩
    · rw [modifySuit, Std.ExtTreeMap.mem_modify]
      exact h.mem_order other
    · rw [getElem?_modifySuit] at hcards
      split at hcards
      · next he =>
        subst he
        obtain ⟨old, hold, rfl⟩ := Option.map_eq_some_iff.1 hcards
        exact hf old (h.placedAt other old hold)
      · exact h.placedAt other cards hcards

/-- An insertion keeps the parts in step. -/
theorem keeps_insert (ledger : Ledger) (card : Card) : Keeps ledger (ledger.insert card) :=
  (ledger.keeps_ensureSuit card.suit).trans
    (keeps_modifySuit _ fun _ hcards => PlacedAt.insert hcards)

/-- A value that is put in a place keeps the parts in step. -/
theorem keeps_add (ledger : Ledger) (suit name : String) (value : Value)
    (comment : Option String) : Keeps ledger (ledger.add suit name value comment) :=
  ledger.keeps_insert _

/-- Values that are put in the places of elements keep the parts in step. -/
theorem keeps_addElements (ledger : Ledger) (suit base : String) (index : Nat)
    (values : List Value) : Keeps ledger (ledger.addElements suit base index values) := by
  induction values generalizing ledger index with
  | nil => exact .refl ledger
  | cons value values ih => exact (ledger.keeps_add ..).trans (ih _ (index + 1))

/-- A card that is rewritten keeps the parts in step. -/
theorem keeps_update (ledger : Ledger) (suit name : String) (value : Value)
    (comment : Option String) :
    Keeps ledger (update suit name value comment ledger).finalState := by
  unfold update
  split
  · exact ledger.keeps_modifySuit fun cards hcards => hcards.rewrite name value comment
  · exact .refl ledger

/-- A card that is taken away leaves the parts in step. -/
theorem keeps_remove (ledger : Ledger) (suit name : String) :
    Keeps ledger (remove suit name ledger).finalState := by
  have hleft : Keeps ledger
      (ledger.modifySuit (.ofString suit) fun cards => cards.erase name) :=
    ledger.keeps_modifySuit fun cards hcards => hcards.erase name
  unfold remove
  split
  · dsimp only
    split
    · exact hleft
    · exact hleft
  · exact .refl ledger

/-- Elements that are rewritten one by one keep the parts in step, also when one is missing. -/
theorem keeps_updateElements (ledger : Ledger) (suit base : String) (index : Nat)
    (values : List Value) :
    Keeps ledger (updateElements suit base index values ledger).finalState := by
  induction values generalizing ledger index with
  | nil => exact .refl ledger
  | cons value values ih =>
    refine EStateM.finalState_bind (R := Keeps) (fun _ _ _ => Keeps.trans)
      (ledger.keeps_update ..) fun _ next _ => ?_
    exact ih next (index + 1)

/-- A vector that is rewritten keeps the parts in step. -/
theorem keeps_updateVector (ledger : Ledger) (suit base : String) (values : List Value) :
    Keeps ledger (updateVector suit base values ledger).finalState := by
  unfold updateVector
  split
  · exact ledger.keeps_updateElements suit base 0 values
  · exact .refl ledger

/-- A value that is read or added keeps the parts in step. -/
theorem keeps_readOrAdd {α : Type} [Storable α] (ledger : Ledger) (suit name : String)
    (default : α) : Keeps ledger (readOrAdd suit name default ledger).finalState := by
  unfold readOrAdd
  split
  · split
    · exact .refl ledger
    · exact .refl ledger
  · dsimp only
    split
    · exact ledger.keeps_insert _
    · exact .refl ledger

/-- Globals that become cards keep the parts in step. -/
theorem keeps_withGlobals (ledger : Ledger) (provenance : Provenance) (globals : Table Value) :
    Keeps ledger (ledger.withGlobals provenance globals) := by
  unfold withGlobals
  generalize sortBy provenance.before globals.toList = items
  induction items generalizing ledger with
  | nil => exact .refl ledger
  | cons item items ih => exact (ledger.keeps_insert _).trans (ih _)

end Ledger

end InputDeck
