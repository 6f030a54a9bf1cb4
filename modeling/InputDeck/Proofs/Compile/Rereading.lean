import InputDeck.Proofs.Compile.Headers
import InputDeck.Proofs.Store.DeckLines

/-!
# Compiling a written deck

The lines of a deck that was written are compiled without a failure. Each header leads to its suit,
and each card binds its global to the value that is read from its line, with the comment of the
card. So in the end the globals are the cards, and the declared suits are all but the root. All of
this holds with any decimals and with any marks of the settings that the deck is written with.
-/

namespace InputDeck

/-- The last card of a list that has a global name. -/
def Card.last? (cards : List Card) (name : String) : Option Card :=
  cards.reverse.find? fun card => card.globalName == name

/-- The last card in two lists is that of the second one, if there is one. -/
theorem Card.last?_append (front rest : List Card) (name : String) :
    last? (front ++ rest) name = (last? rest name).or (last? front name) :=
  Table.lastNamed?_append

/-- The last card that has a global name has it. -/
theorem Card.of_last? {cards : List Card} {name : String} {card : Card}
    (h : last? cards name = some card) : card ∈ cards ∧ card.globalName = name :=
  Table.of_lastNamed? h

namespace Progress

open LogicalLine (content)

/-- What happens to globals and provenance when cards are read from their lines as some values. -/
structure Rereads (read : Card → Value) (p q : Progress Interpreter) (cards : List Card) :
    Prop where
  /-- The last card of a global gives its value. -/
  globals : ∀ name, q.engine.globals[name]? =
    ((Card.last? cards name).map read).or p.engine.globals[name]?
  /-- The last card of a global gives its comment. -/
  comments : ∀ name, q.compiled.provenance[name]?.map Origin.comment =
    ((Card.last? cards name).map fun card => card.comment).or
      (p.compiled.provenance[name]?.map Origin.comment)

variable {settings : Settings} {precision : Option Nat} {read : Card → Value}
  {p q r : Progress Interpreter} {line : LogicalLine} {lines : List LogicalLine}

/-- Where nothing happens to globals and provenance, no cards are read. -/
theorem Rereads.of_eq (hglobals : q.engine.globals = p.engine.globals)
    (hprovenance : q.compiled.provenance = p.compiled.provenance) : Rereads read p q [] where
  globals name := by rw [hglobals]; rfl
  comments name := by rw [hprovenance]; rfl

/-- Cards that are read first and cards that are read then. -/
theorem Rereads.trans {front rest : List Card} (hfront : Rereads read p q front)
    (hrest : Rereads read q r rest) : Rereads read p r (front ++ rest) where
  globals name := by
    rw [hrest.globals, hfront.globals, Card.last?_append, Option.map_or, Option.or_assoc]
  comments name := by
    rw [hrest.comments, hfront.comments, Card.last?_append, Option.map_or, Option.or_assoc]

/-- The line of a card binds the global of the card. -/
theorem compileLine_card (hs : settings.IsUsable) {card : Card}
    (hline : content line = card.deckLine precision) (h : card.IsWritable settings)
    (hreads : Reads (card.value.written precision).toList (read card))
    (hcursor : p.cursor.current = card.suit) :
    ∃ q, compileLine settings line p = .ok () q ∧ q.cursor = p.cursor ∧
      q.compiled.suits = p.compiled.suits ∧ Rereads read p q [card] := by
  obtain ⟨htext, hcomment⟩ := DeckLine.mk.inj hline
  obtain ⟨-, hname⟩ := h.isAssignable.of_qualify h.dot_notMem
  have hrun : Interpreter.interpret
      (assignment p.cursor.current card.name (card.value.written precision)) p.locals p.engine =
        .ok (some card.globalName)
          { p.engine with globals := p.engine.globals.insert card.globalName (read card) } := by
    rw [hcursor]
    exact Interpreter.interpret_of_reads h.isAssignable hreads p.locals p.engine
  refine ⟨_, compileLine_of_scalar ?_ ?_ hrun, rfl, rfl, ?_⟩
  · rw [htext]
    exact hname.isHeader_eq_false hs _
  · rw [htext]
    exact CardLine.ofText_written hname (Value.isWritten_written h.value precision) _
  · constructor
    · intro name
      change (p.engine.globals.insert card.globalName (read card))[name]? = _
      rw [Table.getElem?_insert_eq]
      by_cases he : card.globalName = name <;> simp [Card.last?, he]
    · intro name
      change (p.compiled.provenance.insert card.globalName
        ⟨line.number, line.comment⟩)[name]?.map Origin.comment = _
      rw [Table.getElem?_insert_eq, hcomment]
      by_cases he : card.globalName = name <;> simp [Card.last?, he]

/-- The lines of cards of the current suit bind their globals. -/
theorem compileLines_cards (hs : settings.IsUsable) {cards : List Card}
    (hlines : lines.map content = cards.map (Card.deckLine precision))
    (h : ∀ card ∈ cards, card.IsWritable settings ∧
      Reads (card.value.written precision).toList (read card) ∧ p.cursor.current = card.suit) :
    ∃ q, compileLines settings lines p = .ok () q ∧ q.compiled.suits = p.compiled.suits ∧
      Rereads read p q cards := by
  induction cards generalizing lines p with
  | nil =>
    obtain rfl := List.map_eq_nil_iff.1 hlines
    exact ⟨p, rfl, rfl, .of_eq rfl rfl⟩
  | cons card cards ih =>
    cases lines with
    | nil => cases hlines
    | cons line lines =>
      obtain ⟨hline, hlines⟩ := List.cons.inj hlines
      obtain ⟨hcard, hreads, hcursor⟩ := h card List.mem_cons_self
      obtain ⟨middle, hcompile, hmiddle, hsuits, hread⟩ :=
        compileLine_card hs hline hcard hreads hcursor
      obtain ⟨q, hrest, hrestSuits, hrestRead⟩ := ih hlines fun other hother => by
        rw [hmiddle]
        exact h other (List.mem_cons_of_mem _ hother)
      exact ⟨q, EStateM.bind_eq_ok_iff.2 ⟨(), middle, hcompile, hrest⟩, hrestSuits.trans hsuits,
        hread.trans hrestRead⟩

/-- A header of a path of segments leads to the suit of the path. -/
theorem compileLine_header (hopen : settings.suitOpen = '<') (hclose : settings.suitClose = '>')
    {path : String} (htext : line.text = "<" ++ path ++ ">")
    (h : SuitPath.IsSegmentPath path.toList) :
    compileLine settings line p =
      .ok () (p.entered ⟨SuitPath.ofString path, some (SuitPath.ofString path)⟩) := by
  have hheader : SuitCursor.isHeader settings line.text = true := by
    simp [htext, SuitCursor.isHeader, hopen]
  rw [compileLine, if_pos hheader, enter_apply, htext,
    SuitCursor.enter_of_isSegmentPath hopen hclose h]

/-- The line of a suit leads to the suit. -/
theorem compileLine_suit (hopen : settings.suitOpen = '<') (hclose : settings.suitClose = '>')
    {path : SuitPath} (hline : content line = path.deckLine) (h : path.IsNamed)
    (hroot : path ≠ .root) :
    compileLine settings line p = .ok () (p.entered ⟨path, some path⟩) := by
  obtain ⟨htext, -⟩ := DeckLine.mk.inj hline
  have hcompile := compileLine_header (p := p) hopen hclose htext (h.isSegmentPath hroot)
  rwa [SuitPath.ofString_text] at hcompile

/-- The lines of named suits lead from suit to suit and bind the globals of their cards. -/
theorem compileLines_suits (hs : settings.IsUsable) {suits : List (SuitPath × Suit)}
    (hlines : lines.map content =
      (suits.flatMap fun item => item.2.deckLines precision item.1).filterMap id)
    (hsuits : ∀ item ∈ suits, item.1.IsNamed ∧ item.1 ≠ .root)
    (hmarks : suits ≠ [] → settings.suitOpen = '<' ∧ settings.suitClose = '>')
    (hcards : ∀ item ∈ suits, ∀ card ∈ item.2.cards item.1,
      card.IsWritable settings ∧ Reads (card.value.written precision).toList (read card)) :
    ∃ q, compileLines settings lines p = .ok () q ∧
      q.compiled.suits = addSuits p.compiled.suits (suits.map Prod.fst) ∧
      Rereads read p q (suits.flatMap fun item => item.2.sorted item.1) := by
  induction suits generalizing lines p with
  | nil =>
    obtain rfl := List.map_eq_nil_iff.1 hlines
    exact ⟨p, rfl, rfl, .of_eq rfl rfl⟩
  | cons item suits ih =>
    obtain ⟨path, suit⟩ := item
    obtain ⟨hpath, hroot⟩ := hsuits _ List.mem_cons_self
    have hisRoot : path.isRoot = false := by
      rw [Bool.eq_false_iff, Ne, SuitPath.isRoot_iff]
      exact hroot
    have hsplit : lines.map content =
        (path.deckLine :: (suit.sorted path).map (Card.deckLine precision)) ++
          (suits.flatMap fun item => item.2.deckLines precision item.1).filterMap id := by
      rw [hlines]
      simp [Suit.deckLines, hisRoot, List.filterMap_map]
    obtain ⟨front, rest, rfl, hfront, hrest⟩ := List.map_eq_append_iff.1 hsplit
    obtain ⟨header, front, rfl, hheader, hfront⟩ := List.map_eq_cons_iff.1 hfront
    obtain ⟨hopen, hclose⟩ := hmarks (List.cons_ne_nil _ _)
    have henter := compileLine_suit (p := p) hopen hclose hheader hpath hroot
    obtain ⟨middle, hcompile, hmiddle, hread⟩ :=
      compileLines_cards (p := p.entered ⟨path, some path⟩) hs hfront fun card hcard => by
        have hmem := mem_sortBy.1 hcard
        obtain ⟨hwritable, hreads⟩ := hcards _ List.mem_cons_self card hmem
        exact ⟨hwritable, hreads, (Store.mem_cards_suit_iff.1 hmem).1.symm⟩
    obtain ⟨q, hothers, hothersSuits, hothersRead⟩ := ih (p := middle) hrest
      (fun other hother => hsuits other (List.mem_cons_of_mem _ hother)) (fun _ => ⟨hopen, hclose⟩)
      fun other hother => hcards other (List.mem_cons_of_mem _ hother)
    refine ⟨q, ?_, ?_, ?_⟩
    · rw [compileLines_append]
      refine EStateM.bind_eq_ok_iff.2 ⟨(), middle, ?_, hothers⟩
      exact EStateM.bind_eq_ok_iff.2 ⟨(), _, henter, hcompile⟩
    · rw [hothersSuits, hmiddle]
      rfl
    · have hentered : Rereads read p (p.entered ⟨path, some path⟩) [] := .of_eq rfl rfl
      exact (hentered.trans hread).trans hothersRead

/-- The logical lines of a deck bind the globals of all its cards, and declare all its suits but
the root. -/
theorem compileLines_deck (hs : settings.IsUsable) {store : Store} (h : store.IsWritable settings)
    (hmarks : store.MarkedBy settings)
    (hreads : ∀ card ∈ store.cards, Reads (card.value.written precision).toList (read card))
    (hlines : lines.map content = (store.deckLines precision).filterMap id)
    (hcursor : p.cursor.current = .root) :
    ∃ q, compileLines settings lines p = .ok () q ∧
      q.compiled.suits = addSuits p.compiled.suits store.order.tail ∧
      Rereads read p q store.sorted := by
  have hcards : ∀ item ∈ store.suits, ∀ card ∈ item.2.cards item.1,
      card.IsWritable settings ∧ Reads (card.value.written precision).toList (read card) := by
    intro item hitem card hcard
    have hmem : card ∈ store.cards := List.mem_flatMap.2 ⟨item, hitem, hcard⟩
    exact ⟨h.of_mem_cards hmem, hreads card hmem⟩
  obtain ⟨suits⟩ := store
  cases suits with
  | nil => cases h.root
  | cons item suits =>
    obtain ⟨path, suit⟩ := item
    obtain rfl : path = .root := Option.some.inj h.root
    have hnodup : (.root :: suits.map Prod.fst).Nodup := h.wellFormed.nodup
    have hsplit : lines.map content = (suit.sorted .root).map (Card.deckLine precision) ++
        (suits.flatMap fun item => item.2.deckLines precision item.1).filterMap id := by
      rw [hlines]
      cases hempty : suit.isEmpty with
      | true =>
        have hnone : suit.toList = [] := by
          rw [Std.ExtTreeMap.toList_eq_nil_iff, ← Std.ExtTreeMap.isEmpty_iff]
          exact hempty
        simp [Store.deckLines, Suit.deckLines, hempty, Suit.sorted, Suit.cards, hnone]
      | false => simp [Store.deckLines, Suit.deckLines, hempty, List.filterMap_map]
    obtain ⟨front, rest, rfl, hfront, hrest⟩ := List.map_eq_append_iff.1 hsplit
    obtain ⟨middle, hcompile, hmiddle, hread⟩ := compileLines_cards (p := p) hs hfront
      fun card hcard => by
        have hmem := mem_sortBy.1 hcard
        obtain ⟨hwritable, hvalue⟩ := hcards _ List.mem_cons_self card hmem
        exact ⟨hwritable, hvalue, hcursor.trans (Store.mem_cards_suit_iff.1 hmem).1.symm⟩
    have hothersNamed : ∀ other ∈ suits, other.1.IsNamed ∧ other.1 ≠ .root := by
      intro other hother
      have hmem : other.1 ∈ suits.map Prod.fst := List.mem_map.2 ⟨other, hother, rfl⟩
      refine ⟨h.isNamed _ (List.mem_cons_of_mem _ hmem), fun he => ?_⟩
      exact (List.nodup_cons.1 hnodup).1 (he ▸ hmem)
    have hothersMarks : suits ≠ [] → settings.suitOpen = '<' ∧ settings.suitClose = '>' := by
      intro hne
      obtain ⟨other, others, rfl⟩ := List.exists_cons_of_ne_nil hne
      refine hmarks.header.resolve_right fun hall => ?_
      exact (hothersNamed other List.mem_cons_self).2 (hall _ (by simp [Store.order]))
    obtain ⟨q, hothers, hothersSuits, hothersRead⟩ := compileLines_suits (p := middle) hs hrest
      hothersNamed hothersMarks fun other hother => hcards other (List.mem_cons_of_mem _ hother)
    refine ⟨q, ?_, ?_, hread.trans hothersRead⟩
    · rw [compileLines_append]
      exact EStateM.bind_eq_ok_iff.2 ⟨(), middle, hcompile, hothers⟩
    · rw [hothersSuits, hmiddle]
      rfl

end Progress

end InputDeck
