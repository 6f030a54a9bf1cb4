import InputDeck.Proofs.Deck.Rereading
import InputDeck.Proofs.Deck.Writable

/-!
# Writing built decks

A deck that only texts were built into, with suits that are paths of segments, is written as a text
that is read from its lines. So a fresh deck that is built from this text has the same suits and
cards, and is written as the same text.
-/

namespace InputDeck

/-- A card of the same kind as another one, with an equal value and the same comment. -/
structure Card.Same (card other : Card) : Prop where
  /-- The kind is the same. -/
  kind : other.value.kind = card.value.kind
  /-- The values are equal. -/
  value : card.value.Same other.value
  /-- The comment is the same. -/
  comment : other.comment = card.comment

/-- A card that was read again from a numeral of its value is the same card. -/
theorem Card.RereadAs.same {card other : Card}
    (h : RereadAs (fun card => card.value.reread) card other)
    (hreads : card.value.ReadsBack) : card.Same other := by
  have hsame : card.value.Same other.value := by
    rw [h.value]
    exact Value.same_reread hreads
  exact ⟨hsame.kind_eq.symm, hsame, h.comment⟩

namespace Deck

/-- A deck that another one was built again as. -/
structure Rebuilds (deck rebuilt : Deck Interpreter) : Prop where
  /-- The suits are the same, in the same order. -/
  suits : rebuilt.store.order = deck.store.order
  /-- In each suit there are the same names, with the same cards. -/
  cards : ∀ path name,
    Option.Rel Card.Same (deck.store.card? path name) (rebuilt.store.card? path name)
  /-- The text is the same. -/
  text : rebuilt.text = deck.text

variable {deck : Deck Interpreter}

/-- The text of a deck with the usual settings that texts with headers of segments were built into
builds a fresh deck with the same suits in the same order, the same cards and the same text, when
the digits of its numbers are numerals of them. -/
theorem build_text (h : BuiltWith {} deck)
    (hreads : ∀ card ∈ deck.store.cards, card.value.ReadsBack) :
    ∃ rebuilt, build deck.text (empty {}) = .ok () rebuilt ∧ Rebuilds deck rebuilt := by
  obtain ⟨hsettings, hstore⟩ := h.isWritable Settings.isUsable_default
  have htext : deck.text = deck.store.deckText none := by rw [Deck.text, hsettings]
  rw [htext]
  obtain ⟨rebuilt, hbuild, horder, hcards⟩ := exists_build_deckText hstore hreads
  refine ⟨rebuilt, hbuild, horder, fun path name => ?_, ?_⟩
  · have hread : ∀ card, deck.store.card? path name = some card → card.value.ReadsBack := by
      intro card hcard
      obtain ⟨rfl, rfl, -⟩ := Store.place_of_card? hcard
      exact hreads card ((Store.mem_cards_iff_card? hstore.wellFormed.nodup).2 hcard)
    have hrel := hcards path name
    generalize deck.store.card? path name = card at hread hrel ⊢
    generalize rebuilt.store.card? path name = other at hrel ⊢
    cases hrel with
    | none => exact .none
    | some hreread => exact .some (hreread.same (hread _ rfl))
  · rw [htext, Deck.text, settings_of_build hbuild]
    exact deckText_of_rereadAs hstore.wellFormed.nodup hreads horder hcards

/-- A text with an absolute and a relative header, with a comma and a number sign between quotes, a
list of values, a comment and an infinity is written as a text that is built again. -/
theorem build_text_two_suits :
    LogicalLine.HasSegmentHeaders {}
      "<a/b>\ns = \"p # q, r\" # r, s\nv = true, -0.5\n<../c.d>\nx = -1/0" ∧
    ∃ deck : Deck Interpreter,
      build "<a/b>\ns = \"p # q, r\" # r, s\nv = true, -0.5\n<../c.d>\nx = -1/0" (empty {}) =
        .ok () deck ∧
      (∀ card ∈ deck.store.cards, card.value.ReadsBack) ∧
      ∃ rebuilt, build deck.text (empty {}) = .ok () rebuilt ∧ Rebuilds deck rebuilt := by
  generalize htext : "<a/b>\ns = \"p # q, r\" # r, s\nv = true, -0.5\n<../c.d>\nx = -1/0" = text
  have hheaders : ∀ line ∈ LogicalLine.ofText {} text, SuitCursor.isHeader {} line.text = true →
      line.text = "<a/b>" ∨ line.text = "<../c.d>" := by
    subst htext
    decide +kernel
  have hnames : LogicalLine.HasSegmentHeaders {} text := by
    intro line hline hheader inner hinner
    rcases hheaders line hline hheader with hline | hline <;> rw [hline] at hinner
    · obtain rfl : "a/b".toList = inner := Option.some.inj hinner
      have hsegments : IsDottedName ("a".toList ++ '.' :: "b".toList) :=
        .dot (.segment (by decide)) (by decide)
      exact .absolute hsegments
    · obtain rfl : "../c.d".toList = inner := Option.some.inj hinner
      have hsegments : IsDottedName ("c".toList ++ '.' :: "d".toList) :=
        .dot (.segment (by decide)) (by decide)
      exact .relative hsegments
  obtain ⟨⟨⟩, deck, hbuild, hpasses⟩ := EStateM.Result.exists_of_passes (build text (empty {}))
    (fun _ deck => decide (∀ card ∈ deck.store.cards, card.value.ReadsBack))
    (by
      subst htext
      decide +kernel)
  have hreads := of_decide_eq_true hpasses
  exact ⟨hnames, deck, hbuild, hreads, build_text (.build .empty hnames hbuild) hreads⟩

end Deck

end InputDeck
