import InputDeck.Card

/-!
# Card stores

A store holds the suits of a deck in the order in which they were first seen, each with its cards.
A new store has the empty root suit. No operation takes a suit away or moves it.
-/

namespace InputDeck

/-- The suits of a deck, in the order in which they were first seen. -/
structure Store where
  /-- Each suit with its cards. -/
  suits : List (SuitPath × Suit) := [(.root, ∅)]

namespace Store

instance : Inhabited Store := ⟨{}⟩

/-- The paths of the suits in the order in which they were first seen. -/
def order (store : Store) : List SuitPath := store.suits.map Prod.fst

/-- The cards of a suit. -/
def suit? (store : Store) (path : SuitPath) : Option Suit := store.suits.lookup path

/-- A card by its place. -/
def card? (store : Store) (path : SuitPath) (name : String) : Option Card := do
  let entry ← (← store.suit? path)[name]?
  return ⟨entry, path, name⟩

/-- All cards, suit by suit, those of a suit in the order of their names. -/
def cards (store : Store) : List Card := store.suits.flatMap fun item => item.2.cards item.1

/-- The number of suits. -/
def suitCount (store : Store) : Nat := store.suits.length

/-- The number of cards. -/
def size (store : Store) : Nat := store.suits.foldl (fun count item => count + item.2.size) 0

/-- Whether there is no card. -/
def isEmpty (store : Store) : Bool := store.suits.all fun item => item.2.isEmpty

/-- Have a suit, behind all others when it is new. -/
def ensureSuit (store : Store) (path : SuitPath) : Store :=
  if path ∈ store.order then store else ⟨store.suits ++ [(path, ∅)]⟩

/-- Change the cards of a suit. -/
def modifySuit (store : Store) (path : SuitPath) (f : Suit → Suit) : Store :=
  ⟨store.suits.map fun item => if item.1 = path then (item.1, f item.2) else item⟩

/-- Put a card in its place, whose suit is made when it is new. -/
def insert (store : Store) (card : Card) : Store :=
  (store.ensureSuit card.suit).modifySuit card.suit fun suit =>
    suit.insert card.name card.toEntry

/-- Put a value in a place, without a line and with a comment unless it is empty. -/
def add (store : Store) (suit name : String) (value : Value) (comment : Option String) : Store :=
  store.insert ⟨({ value := value } : Entry).withComment comment, .ofString suit, name⟩

/-- A suit that has to exist. -/
def find (store : Store) (suit : String) : Except DeckError Suit :=
  match store.suit? (.ofString suit) with
  | some cards => .ok cards
  | none => .error (.suitNotFound suit)

/-- A card that has to exist. -/
def get (store : Store) (suit name : String) : Except DeckError Card := do
  let cards ← store.find suit
  match cards[name]? with
  | some entry => return ⟨entry, .ofString suit, name⟩
  | none => throw (.cardNotFound suit name)

/-- The value of a card as an element of a type. -/
def read {α : Type} [Readable α] (store : Store) (suit name : String) : Except DeckError α := do
  (← store.get suit name).read

/-- The value of a card as an element of a type; a card that is missing is added. -/
def readOrAdd {α : Type} [Storable α] (store : Store) (suit name : String) (default : α) :
    Except DeckError (α × Store) :=
  match store.card? (.ofString suit) name with
  | some card => do return (← card.read, store)
  | none => do
    let card : Card := ⟨{ value := Storable.toValue default }, .ofString suit, name⟩
    return (← card.read, store.insert card)

/-- Give a card another value, and another comment unless that is empty; its line stays. -/
def update (store : Store) (suit name : String) (value : Value) (comment : Option String) :
    Except DeckError Store := do
  let card ← store.get suit name
  return store.insert { card with
    toEntry := ({ card.toEntry with value := value } : Entry).withComment comment }

/-- Take a card away. -/
def remove (store : Store) (suit name : String) : Except DeckError (Card × Store) := do
  let card ← store.get suit name
  return (card, store.modifySuit card.suit fun cards => cards.erase name)

/-- Whether a suit exists. -/
def hasSuit (store : Store) (suit : String) : Bool := (store.suit? (.ofString suit)).isSome

/-- Whether a card exists. -/
def hasCard (store : Store) (suit name : String) : Bool :=
  (store.card? (.ofString suit) name).isSome

@[simp] theorem order_ensureSuit_of_mem {store : Store} {path : SuitPath}
    (h : path ∈ store.order) : store.ensureSuit path = store := by
  simp [ensureSuit, h]

/-- Changing the cards of a suit leaves the order as it is. -/
@[simp] theorem order_modifySuit (store : Store) (path : SuitPath) (f : Suit → Suit) :
    (store.modifySuit path f).order = store.order := by
  simp only [order, modifySuit, List.map_map]
  apply List.map_congr_left
  intro item _
  simp only [Function.comp]
  split <;> rfl

/-- Having a suit puts it behind all others when it is new. -/
theorem order_ensureSuit (store : Store) (path : SuitPath) :
    (store.ensureSuit path).order =
      if path ∈ store.order then store.order else store.order ++ [path] := by
  unfold ensureSuit
  split
  · rfl
  · simp [order]

end Store

end InputDeck
