import InputDeck.Proofs.Compile.Rereading
import InputDeck.Proofs.Deck.Build
import InputDeck.Proofs.Store.WrittenAlike

/-!
# Building a written deck again

A store whose names, values and comments are fit to be written is written as a deck that a fresh
deck can be built from. The fresh deck then has the same suits in the same order, and the same cards
in them with the same comments and with the values that are read from their lines. With the shortest
digits these are equal values, and the fresh deck is written as the same deck.
-/

namespace InputDeck

variable {settings : Settings} {precision : Option Nat} {read : Card → Value}

/-- A card that another one was read again as, with the value that was read. -/
structure Card.RereadAs (read : Card → Value) (card other : Card) : Prop where
  /-- The suit is the same. -/
  suit : other.suit = card.suit
  /-- The name is the same. -/
  name : other.name = card.name
  /-- The value is what was read from the line of the card. -/
  value : other.value = read card
  /-- The comment is the same. -/
  comment : other.comment = card.comment

/-- A card with the value of another one, or with another number, and with the same comment. -/
structure Card.Alike (card other : Card) : Prop where
  /-- The values are the same or both are numbers. -/
  value : card.value.Alike other.value
  /-- The comment is the same. -/
  comment : other.comment = card.comment

/-- Suits that are no part of a list are added to it as they are. -/
theorem addSuits_of_nodup {suits added : List SuitPath} (h : (suits ++ added).Nodup) :
    addSuits suits added = suits ++ added := by
  induction added generalizing suits with
  | nil => simp [addSuits]
  | cons suit added ih =>
    have hnot : suit ∉ suits := by
      intro hmem
      exact (List.nodup_append.1 h).2.2 _ hmem _ List.mem_cons_self rfl
    have hsplit : suits ++ suit :: added = (suits ++ [suit]) ++ added := by simp
    rw [hsplit] at h ⊢
    rw [← ih h, addSuits, List.foldl_cons, if_neg hnot]
    rfl

namespace Store

variable {store : Store}

/-- Suits that are no part of a store are made in turn. -/
theorem order_foldl_ensureSuit {suits : List SuitPath} (h : (store.order ++ suits).Nodup) :
    (suits.foldl ensureSuit store).order = store.order ++ suits := by
  rw [order_foldl_ensureSuit_eq, addSuits_of_nodup h]

/-- In a new store, the suits of a store but the root make its order. -/
theorem HasNamedSuits.order_foldl_ensureSuit_tail (h : store.HasNamedSuits)
    (hnodup : store.order.Nodup) :
    ((addSuits [] store.order.tail).foldl Store.ensureSuit {}).order = store.order := by
  have hroot := h.root
  cases horder : store.order with
  | nil => simp [horder] at hroot
  | cons path others =>
    rw [horder] at hroot hnodup
    obtain rfl : path = .root := Option.some.inj hroot
    have hothers : ([] ++ others : List SuitPath).Nodup := (List.nodup_cons.1 hnodup).2
    rw [List.tail_cons, addSuits_of_nodup hothers]
    exact order_foldl_ensureSuit hnodup

/-- Globals of suits that are there make no others. -/
theorem order_withGlobals {provenance : Provenance} {globals : Table Value}
    (h : ∀ name, name ∈ globals → (SuitPath.splitGlobal name).1 ∈ store.order) :
    (store.withGlobals provenance globals).order = store.order := by
  refine withGlobals_induction (P := fun s => s.order = store.order) rfl ?_
  intro s hs name value hvalue
  have hname : name ∈ globals := Std.ExtTreeMap.mem_iff_isSome_getElem?.2 (by rw [hvalue]; rfl)
  rw [order_insert, suit_cardOfGlobal, order_ensureSuit_of_mem (hs ▸ h name hname), hs]

/-- Among the cards of a store, the last one with the global name of a place is the card there. -/
theorem last?_qualify (h : store.WellFormed) (path : SuitPath) {name : String}
    (hname : '.' ∉ name.toList) :
    Card.last? store.sorted (path.qualify name) = store.card? path name := by
  cases hlast : Card.last? store.sorted (path.qualify name) with
  | some card =>
    obtain ⟨hsorted, hglobal⟩ := Card.of_last? hlast
    have hmem : card ∈ store.cards := mem_sorted.1 hsorted
    have hdot : '.' ∉ card.name.toList := h.dot_notMem _ _ _ ((mem_cards_iff h.nodup).1 hmem)
    have hsplit := congrArg SuitPath.splitGlobal hglobal
    rw [Card.globalName, SuitPath.splitGlobal_qualify _ hdot,
      SuitPath.splitGlobal_qualify _ hname] at hsplit
    obtain ⟨rfl, rfl⟩ := Prod.mk.inj hsplit
    exact ((mem_cards_iff_card? h.nodup).1 hmem).symm
  | none =>
    cases hcard : store.card? path name with
    | none => rfl
    | some card =>
      obtain ⟨rfl, rfl, -⟩ := place_of_card? hcard
      have hmem : card ∈ store.sorted := mem_sorted.2 ((mem_cards_iff_card? h.nodup).2 hcard)
      have hnot := List.find?_eq_none.1 hlast card (List.mem_reverse.2 hmem)
      simp [Card.globalName] at hnot

variable {base : Store} {provenance : Provenance} {globals : Table Value}

/-- Every global that was read from the line of a card has the global name of the card. -/
private theorem exists_card_of_mem (h : store.WellFormed)
    (hglobals : ∀ name, globals[name]? = (Card.last? store.sorted name).map read)
    {name : String} (hname : name ∈ globals) :
    ∃ card ∈ store.cards, card.globalName = name ∧ '.' ∉ card.name.toList := by
  rw [Std.ExtTreeMap.mem_iff_isSome_getElem?, hglobals, Option.isSome_map] at hname
  obtain ⟨card, hlast⟩ := Option.isSome_iff_exists.1 hname
  obtain ⟨hsorted, hglobal⟩ := Card.of_last? hlast
  have hmem : card ∈ store.cards := mem_sorted.1 hsorted
  exact ⟨card, hmem, hglobal, h.dot_notMem _ _ _ ((mem_cards_iff h.nodup).1 hmem)⟩

/-- The globals that were read from the lines of cards become the cards again. -/
theorem card?_withGlobals_of_last? (h : store.HasWritableCards settings)
    (hbase : ∀ path name, base.kept? path name = none)
    (hglobals : ∀ name, globals[name]? = (Card.last? store.sorted name).map read)
    (hcomments : ∀ name, provenance[name]?.map Origin.comment =
      (Card.last? store.sorted name).map fun card => card.comment)
    (path : SuitPath) (name : String) :
    Option.Rel (Card.RereadAs read) (store.card? path name)
      ((base.withGlobals provenance globals).card? path name) := by
  have hnames : ∀ name, name ∈ globals → SuitPath.IsGlobalName name := by
    intro name hname
    obtain ⟨card, -, rfl, hdot⟩ := exists_card_of_mem h.wellFormed hglobals hname
    exact SuitPath.isGlobalName_qualify _ hdot
  by_cases hdot : '.' ∈ name.toList
  · have hnone : store.card? path name = none := by
      rw [Option.eq_none_iff_forall_ne_some]
      exact fun card hcard =>
        h.wellFormed.dot_notMem _ _ _ (place_of_card? hcard).2.2 hdot
    rw [hnone, card?_eq_map_kept?, kept?_withGlobals_of_dot path hdot, hbase]
    exact .none
  · have hlast := last?_qualify h.wellFormed path hdot
    have hvalue := hglobals (path.qualify name)
    have hcomment := hcomments (path.qualify name)
    rw [hlast] at hvalue hcomment
    cases hcard : store.card? path name with
    | none =>
      rw [hcard] at hvalue
      rw [card?_eq_map_kept?, kept?_withGlobals_of_none hnames path hvalue, hbase]
      exact .none
    | some card =>
      rw [hcard] at hvalue hcomment
      obtain ⟨origin, horigin, hsame⟩ := Option.map_eq_some_iff.1 hcomment
      rw [card?_eq_map_kept?, kept?_withGlobals_of_some hnames path hdot hvalue,
        toEntry_cardOfGlobal_of_origin _ horigin, hsame]
      obtain ⟨hsuit, hcardName, -⟩ := place_of_card? hcard
      refine .some ⟨hsuit.symm, hcardName.symm, by simp, ?_⟩
      have hne : card.comment ≠ some "" := by
        intro he
        exact ((h.card _ _ _ hcard).comment "" he).ne_nil rfl
      unfold Entry.withComment
      split
      · next text htext =>
        rw [if_neg (by rintro rfl; exact hne htext)]
        exact htext.symm
      · next htext => exact htext.symm

end Store

namespace Deck

open SuitPath

/-- The suits and cards that a written deck is built into, with any decimals and with any settings
that have its marks. -/
theorem exists_build_of_reads {store : Store} (hs : settings.IsUsable)
    (h : store.IsWritable settings) (hmarks : store.MarkedBy settings)
    (hreads : ∀ card ∈ store.cards, Reads (card.value.written precision).toList (read card)) :
    ∃ rebuilt, build (store.deckText precision) (empty settings) = .ok () rebuilt ∧
      rebuilt.store.order = store.order ∧
      ∀ path name, Option.Rel (Card.RereadAs read) (store.card? path name)
        (rebuilt.store.card? path name) := by
  obtain ⟨q, hcompile, hsuits, hread⟩ := Progress.compileLines_deck (p := (empty settings).start) hs
    h hmarks hreads (h.map_content_ofText hs hmarks precision) rfl
  have hglobals : ∀ name, q.engine.globals[name]? =
      (Card.last? store.sorted name).map read := by
    intro name
    rw [hread.globals]
    exact Option.or_none
  have hcomments : ∀ name, q.compiled.provenance[name]?.map Origin.comment =
      (Card.last? store.sorted name).map fun card => card.comment := by
    intro name
    rw [hread.comments]
    exact Option.or_none
  let base := q.compiled.suits.foldl Store.ensureSuit ({} : Store)
  have hbase : base.order = store.order := by
    change (q.compiled.suits.foldl Store.ensureSuit ({} : Store)).order = _
    rw [hsuits]
    exact h.order_foldl_ensureSuit_tail h.wellFormed.nodup
  refine ⟨_, build_eq_ok_iff_compileLines.2 ⟨q, hcompile, rfl⟩, ?_, ?_⟩
  · change (base.withGlobals q.compiled.provenance q.engine.globals).order = _
    rw [Store.order_withGlobals, hbase]
    intro name hname
    obtain ⟨card, hmem, rfl, hdot⟩ := Store.exists_card_of_mem h.wellFormed hglobals hname
    rw [hbase, Card.globalName, splitGlobal_qualify _ hdot]
    exact Store.mem_order_of_kept? ((Store.mem_cards_iff h.wellFormed.nodup).1 hmem)
  · refine Store.card?_withGlobals_of_last? h.toHasWritableCards (fun path name => ?_) hglobals
      hcomments
    rw [kept?_foldl_ensureSuit]
    exact Store.kept?_default path name

/-- The suits and cards that a deck with the usual marks and the shortest digits is built into. -/
theorem exists_build_deckText {store : Store} (h : store.IsWritable {})
    (hreads : ∀ card ∈ store.cards, card.value.ReadsBack) :
    ∃ rebuilt, build (store.deckText none) (empty {}) = .ok () rebuilt ∧
      rebuilt.store.order = store.order ∧
      ∀ path name, Option.Rel (Card.RereadAs fun card => card.value.reread)
        (store.card? path name) (rebuilt.store.card? path name) :=
  exists_build_of_reads Settings.isUsable_default h store.markedBy_default fun card hcard =>
    Value.reads_written (hreads card hcard) fun s hs => ((h.of_mem_cards hcard).value s hs).2

/-- The suits, the texts, the truth values and the comments that a written deck is built into. -/
theorem exists_build_alike {store : Store} (hs : settings.IsUsable) (h : store.IsWritable settings)
    (hmarks : store.MarkedBy settings) (precision : Option Nat) :
    ∃ rebuilt, build (store.deckText precision) (empty settings) = .ok () rebuilt ∧
      rebuilt.store.order = store.order ∧
      ∀ path name, Option.Rel Card.Alike (store.card? path name)
        (rebuilt.store.card? path name) := by
  have hexists : ∀ card : Card, ∃ w, card ∈ store.cards →
      Reads (card.value.written precision).toList w ∧ card.value.Alike w := by
    intro card
    by_cases hcard : card ∈ store.cards
    · obtain ⟨w, hw⟩ := Value.exists_reads_written precision fun s hs =>
        ((h.of_mem_cards hcard).value s hs).2
      exact ⟨w, fun _ => hw⟩
    · exact ⟨card.value, fun hmem => absurd hmem hcard⟩
  choose read hread using hexists
  obtain ⟨rebuilt, hbuild, horder, hcards⟩ :=
    exists_build_of_reads hs h hmarks fun card hcard => (hread card hcard).1
  refine ⟨rebuilt, hbuild, horder, fun path name => ?_⟩
  have hmem : ∀ card, store.card? path name = some card → card ∈ store.cards := by
    intro card hcard
    obtain ⟨rfl, rfl, -⟩ := Store.place_of_card? hcard
    exact (Store.mem_cards_iff_card? h.wellFormed.nodup).2 hcard
  have hrel := hcards path name
  generalize store.card? path name = card at hmem hrel ⊢
  generalize rebuilt.store.card? path name = other at hrel ⊢
  cases hrel with
  | none => exact .none
  | some hreread =>
    exact .some ⟨hreread.value ▸ (hread _ (hmem _ rfl)).2, hreread.comment⟩

/-- Related entries show the same when related values do. -/
private theorem map_eq_of_rel {α β γ : Type} {r : α → β → Prop} {a : Option α} {b : Option β}
    {f : α → γ} {g : β → γ} (h : Option.Rel r a b) (hr : ∀ x y, a = some x → r x y → f x = g y) :
    a.map f = b.map g := by
  cases h with
  | none => rfl
  | some hxy => exact congrArg some (hr _ _ rfl hxy)

/-- A store whose cards were all read again is written as before. -/
theorem deckText_of_rereadAs {store other : Store} (hnodup : store.order.Nodup)
    (hreads : ∀ card ∈ store.cards, card.value.ReadsBack) (horder : other.order = store.order)
    (hcards : ∀ path name, Option.Rel (Card.RereadAs fun card => card.value.reread)
      (store.card? path name) (other.card? path name)) :
    other.deckText none = store.deckText none := by
  refine Store.deckText_congr hnodup horder fun path name => ?_
  have hshown : ∀ s : Store, (s.kept? path name).map Entry.shown =
      (s.card? path name).map fun card => card.toEntry.shown := by
    intro s
    rw [Store.card?_eq_map_kept?, Option.map_map]
    rfl
  rw [hshown, hshown]
  refine (map_eq_of_rel (hcards path name) fun card again hcard hsame => ?_).symm
  obtain ⟨rfl, rfl, -⟩ := Store.place_of_card? hcard
  have hmem : card ∈ store.cards := (Store.mem_cards_iff_card? hnodup).2 hcard
  rw [Entry.shown, Entry.shown, hsame.value, hsame.comment, Value.written_reread (hreads card hmem)]

end Deck

end InputDeck
