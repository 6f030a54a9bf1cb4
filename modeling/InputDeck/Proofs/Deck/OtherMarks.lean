import InputDeck.Proofs.Deck.Rereading
import InputDeck.Proofs.Deck.Writable

/-!
# Decks with other marks

A deck is read with the marks of its settings, but it is always written with the usual ones. So
what is written is read with the same settings as long as there are no comments or the usual comment
mark, and no headers or the usual characters around them. Otherwise it may not even be built.
-/

namespace InputDeck.Deck

variable {settings : Settings} {deck : Deck Interpreter}

/-- What is written of a deck that texts were built into is read line by line with the settings of
the deck, and a fresh deck with these settings that is built from it has the same suits in the same
order, with the same texts, truth values and comments, when the deck is written with their marks. -/
theorem build_text_with_settings (hs : settings.IsUsable) (h : BuiltWith settings deck)
    (hmarks : deck.store.MarkedBy settings) :
    (LogicalLine.ofText settings deck.text).map LogicalLine.content =
        (deck.store.deckLines settings.precision).filterMap id ∧
      ∃ rebuilt, build deck.text (empty settings) = .ok () rebuilt ∧
        rebuilt.store.order = deck.store.order ∧
        ∀ path name, Option.Rel Card.Alike (deck.store.card? path name)
          (rebuilt.store.card? path name) := by
  obtain ⟨hsettings, hstore⟩ := h.isWritable hs
  rw [Deck.text, hsettings]
  exact ⟨hstore.map_content_ofText hs hmarks settings.precision,
    exists_build_alike hs hstore hmarks settings.precision⟩

/-- Settings with another continuation mark and two decimals. -/
def tilde : Settings := { continuationMark := '~', precision := some 2 }

/-- With another continuation mark and two decimals, a line that goes on in the next one, a comment
with the usual continuation mark and a suit are written as a text that is built again. -/
theorem build_text_with_settings_tilde :
    ∃ deck rebuilt : Deck Interpreter,
      build "x = 1 ~\n + 0.25 # a & b\n<s/t>\ny = \"p # q\"" (empty tilde) = .ok () deck ∧
      deck.text = "x = 1.25e0  # a & b\n\n<s/t>\ny = \"p # q\"\n\n" ∧
      build deck.text (empty tilde) = .ok () rebuilt ∧
      rebuilt.store.order = deck.store.order ∧
      ∀ path name, Option.Rel Card.Alike (deck.store.card? path name)
        (rebuilt.store.card? path name) := by
  generalize htext : "x = 1 ~\n + 0.25 # a & b\n<s/t>\ny = \"p # q\"" = text
  have hheaders : ∀ line ∈ LogicalLine.ofText tilde text,
      SuitCursor.isHeader tilde line.text = true → line.text = "<s/t>" := by
    subst htext
    decide +kernel
  have hnames : LogicalLine.HasSegmentHeaders tilde text := by
    intro line hline hheader
    rw [hheaders line hline hheader]
    have hsegments : IsDottedName ("s".toList ++ '.' :: "t".toList) :=
      .dot (.segment (by decide)) (by decide)
    have hname : SuitCursor.headerName? tilde "<s/t>".toList = some "s/t".toList := by decide
    exact .of_headerName _ hname (.absolute hsegments)
  obtain ⟨⟨⟩, deck, hdeck, hwritten⟩ := EStateM.Result.exists_of_passes (build text (empty tilde))
    (fun _ deck => decide (deck.text = "x = 1.25e0  # a & b\n\n<s/t>\ny = \"p # q\"\n\n"))
    (by subst htext; decide +kernel)
  obtain ⟨-, rebuilt, hrebuilt, horder, hcards⟩ := build_text_with_settings (by decide)
    (.build .empty hnames hdeck) ⟨.inl rfl, .inl ⟨rfl, rfl⟩⟩
  exact ⟨deck, rebuilt, hdeck, of_decide_eq_true hwritten, hrebuilt, horder, hcards⟩

/-- Settings with another comment mark. -/
def exclamation : Settings := { commentMark := '!' }

/-- Settings with other characters around headers. -/
def braces : Settings := { suitOpen := '\x7b', suitClose := '\x7d' }

/-- A comment behind another mark makes a deck that is written as a text that is not built with the
same settings, and so does a header between other characters. -/
theorem build_text_other_marks :
    (exclamation.IsUsable ∧ ∃ deck e failed, BuiltWith exclamation deck ∧
      build deck.text (empty exclamation) = .error e failed) ∧
    braces.IsUsable ∧ ∃ deck e failed, BuiltWith braces deck ∧
      build deck.text (empty braces) = .error e failed := by
  -- What is built from a text with the right headers is written as a text that is not built.
  have hlost : ∀ (text : String) {settings : Settings},
      LogicalLine.HasSegmentHeaders settings text →
      (build text (empty settings)).passes
        (fun _ deck => !(build deck.text (empty settings)).succeeds) = true →
      ∃ deck e failed, BuiltWith settings deck ∧
        build deck.text (empty settings) = .error e failed := by
    intro text settings hnames hbuild
    obtain ⟨⟨⟩, deck, hdeck, hlost⟩ := EStateM.Result.exists_of_passes _ _ hbuild
    rw [Bool.not_eq_true'] at hlost
    obtain ⟨e, failed, hfailed⟩ := EStateM.Result.eq_error_of_not_succeeds hlost
    exact ⟨deck, e, failed, .build .empty hnames hdeck, hfailed⟩
  refine ⟨⟨by decide, hlost "x = 1 ! one" ?_ (by decide +kernel)⟩, by decide,
    hlost "\x7bs\x7d\nx = 1" ?_ (by decide +kernel)⟩
  · intro line hline hheader
    have hnone : ∀ line ∈ LogicalLine.ofText exclamation "x = 1 ! one",
        SuitCursor.isHeader exclamation line.text = false := by
      decide +kernel
    rw [hnone line hline] at hheader
    cases hheader
  · intro line hline hheader
    have hone : ∀ line ∈ LogicalLine.ofText braces "\x7bs\x7d\nx = 1",
        SuitCursor.isHeader braces line.text = true → line.text = "\x7bs\x7d" := by
      decide +kernel
    rw [hone line hline hheader]
    have hname : SuitCursor.headerName? braces "\x7bs\x7d".toList = some ['s'] := by decide
    exact .of_headerName _ hname (.absolute (.segment (by decide)))

end InputDeck.Deck
