import InputDeck.Proofs.Expr.Writable
import InputDeck.Proofs.Store.DeckLines

/-!
# Stores that stay readable

The suits of a store are read from their headers and its cards from their lines. This stays so when
named suits are made and when globals with names that can be assigned, and with values and comments
that can be written, become cards of it.
-/

namespace InputDeck

open InputDeck.SuitPath

variable {settings : Settings}

namespace Store

variable {store : Store}

namespace HasNamedSuits

/-- A new store has the root suit alone. -/
theorem default : ({} : Store).HasNamedSuits where
  root := rfl
  isNamed _ hpath := .inl (List.mem_singleton.1 hpath)

/-- One more named suit is read from its header. -/
theorem ensureSuit (h : store.HasNamedSuits) {path : SuitPath} (hpath : path.IsNamed) :
    (store.ensureSuit path).HasNamedSuits where
  root := by
    obtain ⟨others, horder⟩ := order_prefix_ensureSuit store path
    rw [← horder, List.head?_append, h.root]
    rfl
  isNamed other hother := by
    rw [order_ensureSuit] at hother
    split at hother
    · exact h.isNamed other hother
    · rcases List.mem_append.1 hother with hother | hother
      · exact h.isNamed other hother
      · obtain rfl := List.mem_singleton.1 hother
        exact hpath

/-- So is the suit of one more card, when it is named. -/
theorem insert (h : store.HasNamedSuits) {card : Card} (hcard : card.suit.IsNamed) :
    (store.insert card).HasNamedSuits where
  root := by
    rw [order_insert]
    exact (h.ensureSuit hcard).root
  isNamed := by
    rw [order_insert]
    exact (h.ensureSuit hcard).isNamed

/-- Named suits are read from their headers. -/
theorem foldl_ensureSuit (h : store.HasNamedSuits) {suits : List SuitPath}
    (hsuits : ∀ path ∈ suits, path.IsNamed) :
    (suits.foldl Store.ensureSuit store).HasNamedSuits := by
  induction suits generalizing store with
  | nil => exact h
  | cons suit suits ih =>
    exact ih (h.ensureSuit (hsuits suit List.mem_cons_self))
      fun path hpath => hsuits path (List.mem_cons_of_mem _ hpath)

/-- So are the suits of globals that can be assigned. -/
theorem withGlobals (h : store.HasNamedSuits) {provenance : Provenance} {globals : Table Value}
    (hnames : ∀ name, name ∈ globals → IsAssignable name) :
    (store.withGlobals provenance globals).HasNamedSuits := by
  refine withGlobals_induction h fun s hs name value hvalue => hs.insert ?_
  have hname : name ∈ globals := Std.ExtTreeMap.mem_iff_isSome_getElem?.2 (by rw [hvalue]; rfl)
  have hassignable := hnames name hname
  rw [suit_cardOfGlobal]
  rw [← hassignable.isGlobalName] at hassignable
  exact (hassignable.of_qualify (dot_notMem_splitGlobal name)).1

end HasNamedSuits

namespace HasWritableCards

/-- A new store has no cards. -/
theorem default : ({} : Store).HasWritableCards settings where
  wellFormed := wellFormed_default
  card path name card h := by
    rw [card?_eq_map_kept?, kept?_default] at h
    cases h

/-- One more suit leaves the cards as they are. -/
theorem ensureSuit (h : store.HasWritableCards settings) (path : SuitPath) :
    (store.ensureSuit path).HasWritableCards settings where
  wellFormed := h.wellFormed.ensureSuit path
  card other name card hcard := by
    rw [card?_eq_map_kept?, kept?_ensureSuit, ← card?_eq_map_kept?] at hcard
    exact h.card other name card hcard

/-- So do any number of suits. -/
theorem foldl_ensureSuit (h : store.HasWritableCards settings) (suits : List SuitPath) :
    (suits.foldl Store.ensureSuit store).HasWritableCards settings := by
  induction suits generalizing store with
  | nil => exact h
  | cons suit suits ih => exact ih (h.ensureSuit suit)

/-- One more card is read from its line. -/
theorem insert (h : store.HasWritableCards settings) {card : Card}
    (hcard : card.IsWritable settings) : (store.insert card).HasWritableCards settings where
  wellFormed := h.wellFormed.insert hcard.dot_notMem
  card path name other hother := by
    rw [card?_eq_map_kept?, kept?_insert] at hother
    split at hother
    · next hplace =>
      obtain ⟨rfl, rfl⟩ := hplace
      obtain rfl := Option.some.inj hother
      exact hcard
    · rw [← card?_eq_map_kept?] at hother
      exact h.card path name other hother

/-- A global that can be assigned and written is read from its line as a card. -/
theorem cardOfGlobal (h : store.HasWritableCards settings) {provenance : Provenance} {name : String}
    {value : Value} (hname : IsAssignable name) (hvalue : value.IsWritable)
    (hcomment : ∀ origin, provenance[name]? = some origin →
      ∀ text, origin.comment = some text → IsComment settings text.toList) :
    (store.cardOfGlobal provenance name value).IsWritable settings where
  dot_notMem := by
    rw [name_cardOfGlobal]
    exact dot_notMem_splitGlobal name
  isAssignable := by
    have hglobal : (store.cardOfGlobal provenance name value).globalName = name := by
      rw [Card.globalName, suit_cardOfGlobal, name_cardOfGlobal]
      exact hname.isGlobalName
    rwa [hglobal]
  value := by rwa [value_cardOfGlobal]
  comment text htext := by
    cases horigin : provenance[name]? with
    | some origin =>
      rw [toEntry_cardOfGlobal_of_origin value horigin] at htext
      unfold Entry.withComment at htext
      split at htext
      · next comment hsome =>
        split at htext
        · cases htext
        · obtain rfl := Option.some.inj htext
          exact hcomment origin horigin _ hsome
      · cases htext
    | none =>
      cases hentry : store.kept? (splitGlobal name).1 (splitGlobal name).2 with
      | none =>
        rw [toEntry_cardOfGlobal_of_empty value horigin hentry] at htext
        cases htext
      | some entry =>
        rw [toEntry_cardOfGlobal_of_kept? value horigin hentry] at htext
        have hcard : store.card? (splitGlobal name).1 (splitGlobal name).2 =
            some ⟨entry, (splitGlobal name).1, (splitGlobal name).2⟩ := by
          rw [card?_eq_map_kept?, hentry]
          rfl
        exact (h.card _ _ _ hcard).comment text htext

/-- The cards of globals that can be assigned and written are read from their lines. -/
theorem withGlobals (h : store.HasWritableCards settings) {provenance : Provenance}
    {globals : Table Value} (hnames : ∀ name, name ∈ globals → IsAssignable name)
    (hvalues : Table.IsWritable globals)
    (hcomments : ∀ (name : String) (origin : Origin), provenance[name]? = some origin →
      ∀ text, origin.comment = some text → IsComment settings text.toList) :
    (store.withGlobals provenance globals).HasWritableCards settings := by
  refine withGlobals_induction h fun s hs name value hvalue => hs.insert ?_
  have hname : name ∈ globals := Std.ExtTreeMap.mem_iff_isSome_getElem?.2 (by rw [hvalue]; rfl)
  exact hs.cardOfGlobal (hnames name hname) (hvalues name value hvalue) (hcomments name)

/-- Every global of the cards is one of a card that is read from its line. -/
theorem exists_of_getElem?_globals (h : store.HasWritableCards settings) {name : String}
    {value : Value} (hvalue : store.globals[name]? = some value) :
    ∃ card : Card, card.IsWritable settings ∧ card.globalName = name ∧ card.value = value := by
  rw [getElem?_globals h.wellFormed] at hvalue
  split at hvalue
  · next hname =>
    obtain ⟨entry, hentry, rfl⟩ := Option.map_eq_some_iff.1 hvalue
    have hcard : store.card? (splitGlobal name).1 (splitGlobal name).2 =
        some ⟨entry, (splitGlobal name).1, (splitGlobal name).2⟩ := by
      rw [card?_eq_map_kept?, hentry]
      rfl
    exact ⟨_, h.card _ _ _ hcard, hname, rfl⟩
  · cases hvalue

/-- The globals of the cards can be assigned. -/
theorem isAssignable_of_mem_globals (h : store.HasWritableCards settings) {name : String}
    (hname : name ∈ store.globals) : IsAssignable name := by
  rw [Std.ExtTreeMap.mem_iff_isSome_getElem?] at hname
  obtain ⟨value, hvalue⟩ := Option.isSome_iff_exists.1 hname
  obtain ⟨card, hcard, rfl, -⟩ := h.exists_of_getElem?_globals hvalue
  exact hcard.isAssignable

/-- The globals of the cards can be written. -/
theorem globals (h : store.HasWritableCards settings) : Table.IsWritable store.globals := by
  intro name value hvalue
  obtain ⟨card, hcard, -, rfl⟩ := h.exists_of_getElem?_globals hvalue
  exact hcard.value

end HasWritableCards

end Store

end InputDeck
