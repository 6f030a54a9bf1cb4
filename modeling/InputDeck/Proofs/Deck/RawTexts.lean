import InputDeck.Proofs.Deck.Rereading
import InputDeck.Proofs.Deck.Writable
import InputDeck.Proofs.Store.Operations

/-!
# Texts that are written as they are

Cards that are put into a store by hand can hold any texts and any comments, and a deck is written
with these as they are. So a fresh deck is built with the same texts and comments exactly when every
card is read from its line: the texts have no quotes and no blanks but spaces, the comments have no
continuation marks, no blanks but spaces and none of these at their ends, and the global names can
be assigned.
-/

namespace InputDeck

/-- A card that is like one that is read from its line is read from its own one. -/
theorem Card.Alike.isWritable {settings : Settings} {card other : Card} (h : card.Alike other)
    (hsuit : other.suit = card.suit) (hname : other.name = card.name)
    (hother : other.IsWritable settings) : card.IsWritable settings where
  dot_notMem := hname ▸ hother.dot_notMem
  isAssignable := by
    have hassignable := hother.isAssignable
    rwa [globalName, hsuit, hname] at hassignable
  value s hs := by
    have hvalue := h.value
    rw [hs] at hvalue
    exact hother.value s hvalue.symm
  comment := h.comment ▸ hother.comment

namespace Store

/-- The stores that values under names of cards in named suits lead to. -/
inductive Filled : Store → Prop
  /-- There is no card yet. -/
  | empty : Filled {}
  /-- A value is put in a place. -/
  | add {store : Store} {suit name : String} (value : Value) (comment : Option String)
      (h : Filled store) (hsuit : (SuitPath.ofString suit).IsNamed)
      (hname : IsCardName name.toList) : Filled (store.add suit name value comment)
  /-- Values are put in the places of elements. -/
  | addVector {store : Store} {suit base : String} (values : List Value) (h : Filled store)
      (hsuit : (SuitPath.ofString suit).IsNamed) (hbase : Token.IsSegment base.toList) :
      Filled (store.addVector suit base values)
  /-- A card gets another value. -/
  | update {store next : Store} {suit name : String} {value : Value} {comment : Option String}
      (h : Filled store) (hupdate : store.update suit name value comment = .ok next) : Filled next

namespace HasNamedSuits

variable {store next : Store} {suit : String}

/-- Values that are put in the places of elements of a named suit leave all suits named. -/
theorem addElements (h : store.HasNamedSuits) (hsuit : (SuitPath.ofString suit).IsNamed)
    (base : String) (index : Nat) (values : List Value) :
    (store.addElements suit base index values).HasNamedSuits := by
  induction values generalizing store index with
  | nil => exact h
  | cons value values ih =>
    have hadd : (store.add suit (elementName base index) value none).HasNamedSuits := by
      rw [add]
      exact h.insert hsuit
    exact ih hadd (index + 1)

/-- Another value in a place leaves all suits named. -/
theorem update (h : store.HasNamedSuits) {name : String} {value : Value} {comment : Option String}
    (hupdate : store.update suit name value comment = .ok next) : next.HasNamedSuits := by
  obtain ⟨card, hget, hnext⟩ := Except.bind_eq_ok_iff.1 hupdate
  obtain rfl := Except.ok.inj hnext
  have hsuit : card.suit.IsNamed := h.isNamed _ (mem_order_of_kept? (kept?_of_get hget))
  exact h.insert hsuit

end HasNamedSuits

/-- Values under names of cards in named suits lead to well-formed stores whose suits are read from
their headers. -/
theorem Filled.sound {store : Store} (h : store.Filled) :
    store.WellFormed ∧ store.HasNamedSuits := by
  induction h with
  | empty => exact ⟨wellFormed_default, .default⟩
  | add value comment _ hsuit hname ih =>
    exact ⟨ih.1.add _ value comment (hname.notMem (by decide) (by decide) (by decide)),
      ih.2.insert hsuit⟩
  | addVector values _ hsuit hbase ih =>
    exact ⟨ih.1.addElements _ values 0 (hbase.notMem (by decide)),
      ih.2.addElements hsuit _ 0 values⟩
  | update _ hupdate ih => exact ⟨ih.1.update hupdate, ih.2.update hupdate⟩

end Store

namespace Deck

/-- A deck of cards that were put in by hand is built again with the same texts and comments, and
with no other cards, exactly when every card is read from its line. -/
theorem build_deckText_iff {store : Store} (h : store.Filled) :
    (∃ rebuilt, build (store.deckText none) (empty {}) = .ok () rebuilt ∧
      ∀ path name, Option.Rel Card.Alike (store.card? path name)
        (rebuilt.store.card? path name)) ↔
    ∀ card ∈ store.cards, card.IsWritable {} := by
  obtain ⟨hwellFormed, hsuits⟩ := h.sound
  constructor
  · rintro ⟨rebuilt, hbuild, hcards⟩ card hcard
    -- Whatever the text is, the cards that it is built into are read from their lines.
    have hrebuilt : rebuilt.store.HasWritableCards {} :=
      hasWritableCards_of_build Settings.isUsable_default rfl .default hbuild
    have hplace := (Store.mem_cards_iff_card? hwellFormed.nodup).1 hcard
    have hrel := hcards card.suit card.name
    rw [hplace] at hrel
    generalize hother : rebuilt.store.card? card.suit card.name = other at hrel
    cases hrel with
    | some halike =>
      obtain ⟨hsuit, hname, -⟩ := Store.place_of_card? hother
      exact halike.isWritable hsuit hname (hrebuilt.card _ _ _ hother)
  · intro hcards
    have hwritable : store.IsWritable {} := by
      refine ⟨⟨hwellFormed, fun path name card hcard => hcards card ?_⟩, hsuits⟩
      obtain ⟨rfl, rfl, -⟩ := Store.place_of_card? hcard
      exact (Store.mem_cards_iff_card? hwellFormed.nodup).2 hcard
    obtain ⟨rebuilt, hbuild, -, hsame⟩ :=
      exists_build_alike Settings.isUsable_default hwritable store.markedBy_default none
    exact ⟨rebuilt, hbuild, hsame⟩

/-- A text with a comma and a comment mark, and a comment with quotes and a comment mark, come back
from a deck that is built again. -/
theorem build_deckText_iff_marks :
    ∃ store rebuilt, Store.Filled store ∧
      (store.cards.map fun card => (card.globalName, card.value.string?, card.comment)) =
        [("a.x", some "s # t, u", some "\"v\" # w")] ∧
      build (store.deckText none) (empty {}) = .ok () rebuilt ∧
      ∀ path name, Option.Rel Card.Alike (store.card? path name)
        (rebuilt.store.card? path name) := by
  let added : Store := ({} : Store).add "/a" "x" (.string "p") none
  have hrun : (match added.update "a" "x" (.string "s # t, u") (some "\"v\" # w") with
      | .ok store => decide
          ((store.cards.map fun card => (card.globalName, card.value.string?, card.comment)) =
            [("a.x", some "s # t, u", some "\"v\" # w")])
      | .error _ => false) = true := by
    decide +kernel
  have hsuit : (SuitPath.ofString "/a").IsNamed := by
    have hpath : SuitPath.IsSegmentPath ['a'] := .segment (by decide)
    have htext : String.ofList ('/' :: ['a']) = "/a" := by decide
    exact htext ▸ hpath.isNamed.2
  have hname : IsCardName "x".toList := .segment (by decide)
  split at hrun
  · next store hupdate =>
    have hshown := of_decide_eq_true hrun
    have hfilled : store.Filled := .update (.add (.string "p") none .empty hsuit hname) hupdate
    obtain ⟨rebuilt, hbuild, hsame⟩ := (build_deckText_iff hfilled).2 fun card hcard => by
      obtain ⟨other, hcards, hother⟩ := List.map_eq_singleton_iff.1 hshown
      obtain rfl : card = other := List.mem_singleton.1 (hcards ▸ hcard)
      obtain ⟨hglobal, hstring, hcomment⟩ : card.globalName = "a.x" ∧
          card.value.string? = some "s # t, u" ∧ card.comment = some "\"v\" # w" := by
        simpa using hother
      have hdotted : IsDottedName ("a".toList ++ '.' :: "x".toList) :=
        .dot (.segment (by decide)) (by decide)
      refine ⟨?_, ?_, fun s hs => ?_, fun text htext => ?_⟩
      · exact hfilled.sound.1.dot_notMem _ _ _
          ((Store.mem_cards_iff hfilled.sound.1.nodup).1 hcard)
      · rw [hglobal]
        exact .name hdotted (by decide) (by decide)
      · rw [hs] at hstring
        obtain rfl := Option.some.inj hstring
        decide
      · rw [hcomment] at htext
        obtain rfl := Option.some.inj htext
        exact ⟨by decide, by decide, by decide, by decide⟩
    exact ⟨store, rebuilt, hfilled, hshown, hbuild, hsame⟩
  · cases hrun

/-- A store with one text that was put in by hand. -/
def oneText (s : String) (comment : Option String) : Store :=
  ({} : Store).add "/" "x" (.string s) comment

/-- A text with a quote makes a deck that is not built, a tab is lost from a text, and behind the
end of a line a comment makes another card. -/
theorem build_deckText_other_texts :
    (∀ s comment, (oneText s comment).Filled) ∧
    (∃ e failed, build ((oneText "a\"b" none).deckText none) (empty {}) = .error e failed) ∧
    (∃ rebuilt, build ((oneText "a\tb" none).deckText none) (empty {}) = .ok () rebuilt ∧
      (rebuilt.store.card? .root "x").bind (·.value.string?) = some "ab") ∧
    ∃ rebuilt, build ((oneText "a" (some "note\ny = 1")).deckText none) (empty {}) =
        .ok () rebuilt ∧
      (rebuilt.store.card? .root "x").bind (·.comment) = some "note" ∧
      rebuilt.store.hasCard "/" "y" = true := by
  refine ⟨fun s comment => ?_, EStateM.Result.eq_error_of_not_succeeds (by decide +kernel), ?_, ?_⟩
  · have hroot : (SuitPath.ofString "/").IsNamed := .inl (by decide)
    exact .add (.string s) comment .empty hroot (.segment (by decide))
  · obtain ⟨⟨⟩, rebuilt, hbuild, hvalue⟩ := EStateM.Result.exists_of_passes
      (build ((oneText "a\tb" none).deckText none) (empty {}))
      (fun _ rebuilt =>
        decide ((rebuilt.store.card? .root "x").bind (·.value.string?) = some "ab"))
      (by decide +kernel)
    exact ⟨rebuilt, hbuild, of_decide_eq_true hvalue⟩
  · obtain ⟨⟨⟩, rebuilt, hbuild, hcards⟩ := EStateM.Result.exists_of_passes
      (build ((oneText "a" (some "note\ny = 1")).deckText none) (empty {}))
      (fun _ rebuilt => decide ((rebuilt.store.card? .root "x").bind (·.comment) = some "note" ∧
        rebuilt.store.hasCard "/" "y" = true))
      (by decide +kernel)
    exact ⟨rebuilt, hbuild, of_decide_eq_true hcards⟩

end Deck

end InputDeck
