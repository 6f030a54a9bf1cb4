import InputDeck.Proofs.Store.TakingOver
import InputDeck.Proofs.Text.WrittenCards
import InputDeck.Proofs.Value.Reading

/-!
# The lines of a deck

A store that is written is a list of lines: the headers of its suits, its cards and empty lines. The
text of the deck is these lines one under the other. When the names, the values and the comments of
the cards are fit to be written, every line is read as it stands. The headers and the comments are
always written with the usual characters, so this needs settings that have them.
-/

namespace InputDeck

open InputDeck.Text

variable {settings : Settings}

/-- A card that is read from its line. -/
structure Card.IsWritable (settings : Settings) (card : Card) : Prop where
  /-- The name of the card has no dot. -/
  dot_notMem : '.' ∉ card.name.toList
  /-- Its global can be assigned. -/
  isAssignable : IsAssignable card.globalName
  /-- Its value can be written between quotes, if it is a text. -/
  value : card.value.IsWritable
  /-- Its comment can stand behind the value. -/
  comment : ∀ text, card.comment = some text → IsComment settings text.toList

/-- The line of a card in a deck. -/
def Card.deckLine (precision : Option Nat) (card : Card) : DeckLine :=
  ⟨card.name ++ " = " ++ card.value.written precision, card.comment⟩

/-- The line of a suit in a deck. -/
def SuitPath.deckLine (path : SuitPath) : DeckLine := ⟨path.header, none⟩

/-- The lines of a suit in a deck. -/
def Suit.deckLines (precision : Option Nat) (suit : Suit) (path : SuitPath) :
    List (Option DeckLine) :=
  if path.isRoot && suit.isEmpty then []
  else
    (if path.isRoot then [] else [some path.deckLine]) ++
      (suit.sorted path).map (fun card => some (card.deckLine precision)) ++ [none]

/-- The lines of a deck. -/
def Store.deckLines (precision : Option Nat) (store : Store) : List (Option DeckLine) :=
  store.suits.flatMap fun item => item.2.deckLines precision item.1

/-- The cards of a store as its deck lists them. -/
def Store.sorted (store : Store) : List Card :=
  store.suits.flatMap fun item => item.2.sorted item.1

/-- A deck lists the cards of its store and no others. -/
theorem Store.mem_sorted {store : Store} {card : Card} :
    card ∈ store.sorted ↔ card ∈ store.cards := by
  simp [sorted, cards, Suit.sorted]

/-- A card is written as its line. -/
theorem Card.toList_written (precision : Option Nat) (card : Card) :
    (card.written precision).toList =
      DeckLine.raw (some (card.deckLine precision)) ++ ['\n'] := by
  unfold written writtenComment deckLine DeckLine.raw
  cases card.comment <;> simp

/-- A suit is written as its lines. -/
theorem Suit.toList_written (precision : Option Nat) (suit : Suit) (path : SuitPath) :
    (suit.written precision path).toList =
      ((suit.deckLines precision path).map DeckLine.raw).flatMap (· ++ ['\n']) := by
  have hcards : ∀ cards : List Card, (String.join (cards.map (Card.written precision))).toList =
      ((cards.map fun card => some (card.deckLine precision)).map DeckLine.raw).flatMap
        (· ++ ['\n']) := by
    intro cards
    simp [String.toList_join, List.flatMap_map, Card.toList_written]
  unfold written deckLines SuitPath.writtenHeader
  split
  · rfl
  · cases path.isRoot with
    | true => simp [hcards, DeckLine.raw]
    | false => simp [hcards, DeckLine.raw, SuitPath.deckLine, SuitPath.header]

/-- A store is written as its lines. -/
theorem Store.toList_deckText (precision : Option Nat) (store : Store) :
    (store.deckText precision).toList =
      ((store.deckLines precision).map DeckLine.raw).flatMap (· ++ ['\n']) := by
  rw [deckText, deckLines, String.toList_join, List.map_flatMap, List.flatMap_assoc,
    List.flatMap_map]
  simp only [Suit.toList_written]

/-- The line of a card is read as it stands. -/
theorem Card.IsWritable.isReadable_deckLine (hs : settings.IsUsable) {card : Card}
    (h : card.IsWritable settings) (precision : Option Nat)
    (hmark : card.comment ≠ none → settings.commentMark = '#') :
    (card.deckLine precision).IsReadable settings := by
  obtain ⟨-, hname⟩ := h.isAssignable.of_qualify h.dot_notMem
  refine ⟨?_, h.comment, hmark⟩
  have hbody := hname.isBody hs (Value.isWritten_written h.value precision)
  have hsplit : (card.deckLine precision).body.toList =
      card.name.toList ++ ' ' :: '=' :: ' ' :: (card.value.written precision).toList := by
    simp [deckLine]
  rw [hsplit]
  exact hbody

/-- The line of a named suit is read as it stands. -/
theorem SuitPath.IsNamed.isReadable_deckLine (hs : settings.IsUsable)
    (hopen : settings.suitOpen = '<') (hclose : settings.suitClose = '>') {path : SuitPath}
    (h : path.IsNamed) (hroot : path ≠ root) : path.deckLine.IsReadable settings where
  body := h.isBody_header hs hopen hclose hroot
  comment text htext := by cases htext
  mark hcomment := absurd rfl hcomment

namespace Store

/-- A store whose cards are read from their lines. -/
structure HasWritableCards (settings : Settings) (store : Store) : Prop where
  /-- No suit is repeated, and no card name has a dot. -/
  wellFormed : store.WellFormed
  /-- Every card is read from its line. -/
  card : ∀ path name card, store.card? path name = some card → card.IsWritable settings

/-- A store whose suits are read from their headers. -/
structure HasNamedSuits (store : Store) : Prop where
  /-- The root suit comes first. -/
  root : store.order.head? = some .root
  /-- All other suits are paths of segments. -/
  isNamed : ∀ path ∈ store.order, path.IsNamed

/-- A store that is read from its deck. -/
structure IsWritable (settings : Settings) (store : Store) : Prop
    extends HasWritableCards settings store, HasNamedSuits store

/-- A store in whose deck there are no headers and no comments but those with the marks of the
settings. -/
structure MarkedBy (settings : Settings) (store : Store) : Prop where
  /-- The comment mark is the usual one, unless there are no comments. -/
  comment : settings.commentMark = '#' ∨ ∀ card ∈ store.cards, card.comment = none
  /-- The characters around headers are the usual ones, unless there are no headers. -/
  header : (settings.suitOpen = '<' ∧ settings.suitClose = '>') ∨ ∀ path ∈ store.order, path = .root

variable {store : Store} {precision : Option Nat}

/-- Every deck is written with the usual marks. -/
theorem markedBy_default (store : Store) : store.MarkedBy {} := ⟨.inl rfl, .inl ⟨rfl, rfl⟩⟩

/-- Every card of a store whose cards are read from their lines is one of them. -/
theorem HasWritableCards.of_mem_cards (h : store.HasWritableCards settings) {card : Card}
    (hcard : card ∈ store.cards) : card.IsWritable settings :=
  h.card _ _ card ((mem_cards_iff_card? h.wellFormed.nodup).1 hcard)

/-- The lines of a store are headers of its suits, cards and empty lines. -/
theorem mem_deckLines {line : DeckLine} (h : some line ∈ store.deckLines precision) :
    (∃ path ∈ store.order, path ≠ .root ∧ line = path.deckLine) ∨
      ∃ card ∈ store.cards, line = card.deckLine precision := by
  obtain ⟨⟨path, suit⟩, hitem, hline⟩ := List.mem_flatMap.1 h
  dsimp only [Suit.deckLines] at hline
  split at hline
  · cases hline
  · rw [List.mem_append, List.mem_append] at hline
    rcases hline with (hline | hline) | hline
    · split at hline
      · cases hline
      · next hroot =>
        rw [SuitPath.isRoot_iff] at hroot
        obtain rfl := Option.some.inj (List.mem_singleton.1 hline)
        exact .inl ⟨path, List.mem_map.2 ⟨_, hitem, rfl⟩, hroot, rfl⟩
    · obtain ⟨card, hcard, hsame⟩ := List.mem_map.1 hline
      obtain rfl := Option.some.inj hsame
      exact .inr ⟨card, List.mem_flatMap.2 ⟨_, hitem, mem_sortBy.1 hcard⟩, rfl⟩
    · cases List.mem_singleton.1 hline

/-- Every line of a store that is read from its deck is read as it stands. -/
theorem IsWritable.isReadable_of_mem_deckLines (hs : settings.IsUsable)
    (h : store.IsWritable settings) (hmarks : store.MarkedBy settings) {line : DeckLine}
    (hline : some line ∈ store.deckLines precision) : line.IsReadable settings := by
  rcases mem_deckLines hline with ⟨path, hpath, hroot, rfl⟩ | ⟨card, hcard, rfl⟩
  · obtain ⟨hopen, hclose⟩ := hmarks.header.resolve_right fun hall => hroot (hall path hpath)
    exact (h.isNamed path hpath).isReadable_deckLine hs hopen hclose hroot
  · refine (h.of_mem_cards hcard).isReadable_deckLine hs precision fun hcomment => ?_
    exact hmarks.comment.resolve_right fun hall => hcomment (hall card hcard)

/-- The logical lines of a written deck are its lines, without the empty ones. -/
theorem IsWritable.map_content_ofText (hs : settings.IsUsable) (h : store.IsWritable settings)
    (hmarks : store.MarkedBy settings) (precision : Option Nat) :
    (LogicalLine.ofText settings (store.deckText precision)).map LogicalLine.content =
      (store.deckLines precision).filterMap id :=
  LogicalLine.map_content_ofText hs
    (fun _ hline => h.isReadable_of_mem_deckLines hs hmarks hline) (store.toList_deckText precision)

end Store

end InputDeck
