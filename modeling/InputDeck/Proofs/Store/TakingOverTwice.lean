import InputDeck.Proofs.Store.FirstSeen

/-!
# Globals in any order, and a second time

The order in which a table is enumerated decides nothing: the globals are sorted by a total order
on their names first. And globals that went back into a store go back again without a change. Of
several globals that spell one place the last one leaves its value and the last assigned one its
line and its comment, whatever stood there, so the place is the same behind the second time; and
the first time made all suits that are needed.
-/

namespace InputDeck

namespace SuitPath

/-- A name without empty segments and without slashes spells a place. -/
theorem isGlobalName_of_splitOn {name : String} (hslash : '/' ∉ name.toList)
    (hsegments : [] ∉ name.toList.splitOn '.') : IsGlobalName name := by
  cases hcut : Text.cutLast '.' name.toList with
  | none => exact isGlobalName_of_dot_notMem (Text.cutLast_eq_none_iff.1 hcut)
  | some parts =>
    obtain ⟨suit, card⟩ := parts
    obtain ⟨hname, hcard⟩ := Text.cutLast_eq_some hcut
    rw [hname, List.splitOn_append_cons_self, List.mem_append, not_or] at hsegments
    have hsuit : [] ∉ suit.splitOn '.' := hsegments.1
    rw [← String.ofList_toList (s := name), hname]
    refine isGlobalName_of_dotted hcard (fun hmem => hslash (by simp [hname, hmem])) ?_ ?_ ?_
    · rintro rfl
      exact hsuit List.mem_cons_self
    · intro hhead
      obtain ⟨rest, rfl⟩ := List.head?_eq_some_iff.1 hhead
      exact hsuit (by simp [List.splitOn_cons_eq_if_modifyHead])
    · intro hlast
      obtain ⟨front, rfl⟩ := List.getLast?_eq_some_iff.1 hlast
      exact hsuit (by simp [List.splitOn_append_cons_self])

end SuitPath

namespace Store

open SuitPath

variable {store : Store} {provenance : Provenance} {items : List (String × Value)}
  {path : SuitPath} {name : String}

/-! ## Any order -/

/-- Entries of different names are sorted in one way. -/
theorem sortBy_before_congr {entries : List (String × Value)} {globals : Table Value}
    (h : entries.Perm globals.toList) :
    sortBy provenance.before entries = sortBy provenance.before globals.toList := by
  have hperm : (sortBy provenance.before entries).Perm (sortBy provenance.before globals.toList) :=
    (sortBy_perm _ _).trans (h.trans (sortBy_perm _ _).symm)
  refine hperm.eq_of_pairwise (fun a b ha hb hab hba => ?_)
    (provenance.pairwise_before entries) (provenance.pairwise_before globals.toList)
  have hname : a.1 = b.1 := by
    rw [Provenance.before_iff] at hab hba
    rcases hab with hab | ⟨hrank, hab⟩
    · omega
    · exact le_antisymm hab (hba.resolve_left (by omega)).2
  have hfirst := mem_sorted_iff.1 (hperm.mem_iff.1 ha)
  have hsecond := mem_sorted_iff.1 hb
  rw [hname, hsecond] at hfirst
  exact Prod.ext hname (Option.some.inj hfirst).symm

/-! ## What stands in one place -/

/-- What a global leaves in its place, by what stands there. -/
def settleOne (provenance : Provenance) (item : String × Value) (old : Option Entry) : Entry :=
  match provenance[item.1]? with
  | some origin =>
    ({ value := item.2, line := some origin.line } : Entry).withComment origin.comment
  | none =>
    match old with
    | some entry => { entry with value := item.2 }
    | none => { value := item.2 }

/-- A global becomes the card that it leaves in its place. -/
theorem toEntry_cardOfGlobal (store : Store) (provenance : Provenance) (item : String × Value) :
    (store.cardOfGlobal provenance item.1 item.2).toEntry =
      settleOne provenance item (store.kept? (splitGlobal item.1).1 (splitGlobal item.1).2) := by
  unfold settleOne
  split
  · next origin horigin => exact toEntry_cardOfGlobal_of_origin item.2 horigin
  · next hnone =>
    split
    · next entry hentry => exact toEntry_cardOfGlobal_of_kept? item.2 hnone hentry
    · next hempty => exact toEntry_cardOfGlobal_of_empty item.2 hnone hempty

/-- What globals leave in one place, by what stands there. -/
def settle (provenance : Provenance) (items : List (String × Value)) (old : Option Entry) :
    Option Entry :=
  items.foldl (fun old item => some (settleOne provenance item old)) old

/-- The line and the comment of what stands in a place. -/
def noteOf (old : Option Entry) : Option Nat × Option String :=
  (old.bind Entry.line, old.bind Entry.comment)

/-- A global leaves its value, with the line and the comment of its assignment or of what stood
there. -/
theorem settleOne_cases (provenance : Provenance) (item : String × Value) :
    (∃ entry, ∀ old, settleOne provenance item old = entry) ∨
      ∀ old, settleOne provenance item old = ⟨item.2, (noteOf old).1, (noteOf old).2⟩ := by
  unfold settleOne
  split
  · exact .inl ⟨_, fun _ => rfl⟩
  · refine .inr fun old => ?_
    cases old <;> rfl

/-- A line and a comment that globals leave in a place are left in it again. -/
theorem settle_of_noteOf (hne : items ≠ []) {old settled : Option Entry}
    (h : noteOf settled = noteOf (settle provenance items old)) :
    settle provenance items settled = settle provenance items old := by
  -- Only the line and the comment of what stands there can matter, until a global is assigned.
  induction items generalizing old settled with
  | nil => exact absurd rfl hne
  | cons item items ih =>
    change noteOf settled = noteOf (settle provenance items (settleOne provenance item old)) at h
    change settle provenance items (settleOne provenance item settled) =
      settle provenance items (settleOne provenance item old)
    obtain ⟨entry, hentry⟩ | hnote := settleOne_cases provenance item
    · rw [hentry, hentry]
    · rw [hnote] at h
      rw [hnote, hnote]
      cases items with
      | nil =>
        change noteOf settled = noteOf old at h
        rw [h]
      | cons next items => exact ih (by simp) h

/-- What globals left in a place is left by them again. -/
theorem settle_settle (provenance : Provenance) (items : List (String × Value))
    (old : Option Entry) :
    settle provenance items (settle provenance items old) = settle provenance items old := by
  by_cases hne : items = []
  · rw [hne]
    rfl
  · exact settle_of_noteOf hne rfl

/-- The globals among others that spell a place. -/
def ofPlace (path : SuitPath) (name : String) (items : List (String × Value)) :
    List (String × Value) :=
  items.filter fun item => splitGlobal item.1 = (path, name)

/-- A place is settled by the globals that spell it. -/
theorem kept?_putAll (provenance : Provenance) (store : Store) (items : List (String × Value))
    (path : SuitPath) (name : String) :
    (putAll provenance store items).kept? path name =
      settle provenance (ofPlace path name items) (store.kept? path name) := by
  induction items generalizing store with
  | nil => rfl
  | cons item items ih =>
    rw [putAll_cons, ih, kept?_insert, suit_cardOfGlobal, name_cardOfGlobal, ofPlace, ofPlace]
    by_cases hplace : splitGlobal item.1 = (path, name)
    · rw [List.filter_cons_of_pos (by simpa using hplace), if_pos (by simp [hplace]),
        toEntry_cardOfGlobal, hplace]
      rfl
    · rw [List.filter_cons_of_neg (by simpa using hplace), if_neg]
      rintro ⟨rfl, rfl⟩
      exact hplace rfl

/-! ## Suits that stand in a store more than once -/

/-- All suits of a path hold the same in a place. -/
def Agrees (store : Store) (path : SuitPath) (name : String) : Prop :=
  ∀ suit, (path, suit) ∈ store.suits → suit[name]? = store.kept? path name

/-- An insertion fills its place in all suits of the path, and leaves other places alike. -/
theorem agrees_insert {card : Card}
    (h : path = card.suit ∧ name = card.name ∨ store.Agrees path name) :
    (store.insert card).Agrees path name := by
  intro suit hsuit
  obtain ⟨⟨other, cards⟩, hcards, heq⟩ := List.mem_map.1 hsuit
  have hold : (other, cards) ∈ store.suits ∨ other ∉ store.order ∧ cards = ∅ := by
    unfold ensureSuit at hcards
    split at hcards
    · exact .inl hcards
    · next hnew =>
      rcases List.mem_append.1 hcards with hcards | hcards
      · exact .inl hcards
      · obtain ⟨rfl, rfl⟩ := Prod.mk.inj (List.mem_singleton.1 hcards)
        exact .inr ⟨hnew, rfl⟩
  have hother : store.Agrees other name → cards[name]? = store.kept? other name := by
    intro hagrees
    rcases hold with hcards | ⟨hnew, rfl⟩
    · exact hagrees cards hcards
    · simp [kept?, suit?_eq_none_of_notMem hnew]
  rw [kept?_insert]
  dsimp only at heq
  split at heq
  · next hpath =>
    obtain ⟨rfl, rfl⟩ := Prod.mk.inj heq
    rw [Table.getElem?_insert_eq]
    by_cases hname : card.name = name
    · rw [if_pos hname, if_pos ⟨hpath, hname.symm⟩]
    · rw [if_neg hname, if_neg fun he => hname he.2.symm]
      exact hother (h.resolve_left fun he => hname he.2.symm)
  · next hpath =>
    obtain ⟨rfl, rfl⟩ := Prod.mk.inj heq
    rw [if_neg fun he => hpath he.1]
    exact hother (h.resolve_left fun he => hpath he.1)

/-- Places that are alike in all suits of a path stay so when globals are put in. -/
theorem agrees_putAll (h : store.Agrees path name) :
    (putAll provenance store items).Agrees path name := by
  induction items generalizing store with
  | nil => exact h
  | cons item items ih => exact ih (agrees_insert (.inr h))

/-- The places that globals spell are alike in all suits of a path behind them. -/
theorem agrees_putAll_of_mem (provenance : Provenance) (store : Store) {item : String × Value}
    (h : item ∈ items) :
    (putAll provenance store items).Agrees (splitGlobal item.1).1 (splitGlobal item.1).2 := by
  induction items generalizing store with
  | nil => cases h
  | cons first items ih =>
    rw [putAll_cons]
    rcases List.mem_cons.1 h with rfl | h
    · exact agrees_putAll (agrees_insert (.inl (by simp)))
    · exact ih _ h

/-- When the suits of globals are there, each suit is changed in the places that globals spell. -/
theorem exists_suits_putAll (provenance : Provenance)
    (h : ∀ item ∈ items, (splitGlobal item.1).1 ∈ store.order) :
    ∃ f : SuitPath → Suit → Suit,
      (putAll provenance store items).suits = store.suits.map (fun s => (s.1, f s.1 s.2)) ∧
      ∀ path name, (∀ item ∈ items, splitGlobal item.1 ≠ (path, name)) →
        ∀ suit, (f path suit)[name]? = suit[name]? := by
  induction items generalizing store with
  | nil => exact ⟨fun _ suit => suit, by simp [putAll], fun _ _ _ _ => rfl⟩
  | cons item items ih =>
    let card := store.cardOfGlobal provenance item.1 item.2
    have hcard : card.suit ∈ store.order := by simpa [card] using h item List.mem_cons_self
    have horder : (store.insert card).order = store.order := by
      rw [order_insert, order_ensureSuit_of_mem hcard]
    have hrest : ∀ other ∈ items, (splitGlobal other.1).1 ∈ (store.insert card).order := by
      rw [horder]
      exact fun other hother => h other (List.mem_cons_of_mem _ hother)
    obtain ⟨f, hsuits, hframe⟩ := ih hrest
    let put (path : SuitPath) (suit : Suit) : Suit :=
      if path = card.suit then suit.insert card.name card.toEntry else suit
    refine ⟨fun path suit => f path (put path suit), ?_, fun path name hnone suit => ?_⟩
    · rw [putAll_cons, hsuits, insert, order_ensureSuit_of_mem hcard, modifySuit, List.map_map]
      refine List.map_congr_left fun s _ => ?_
      by_cases hs : s.1 = card.suit <;> simp [hs, put]
    · rw [hframe path name fun other hother => hnone other (List.mem_cons_of_mem _ hother)]
      by_cases hpath : path = card.suit
      · have hname : card.name ≠ name := by
          rintro rfl
          refine hnone item List.mem_cons_self (Prod.ext ?_ ?_)
          · simpa [card] using hpath.symm
          · simp [card]
        simp only [put, if_pos hpath, Table.getElem?_insert_eq, if_neg hname]
      · simp only [put, if_neg hpath]

/-- Globals change nothing when their suits are there, alike in their places, and these are as the
globals leave them. -/
theorem putAll_eq_self_of_agrees (hsuits : ∀ item ∈ items, (splitGlobal item.1).1 ∈ store.order)
    (hagrees : ∀ item ∈ items, store.Agrees (splitGlobal item.1).1 (splitGlobal item.1).2)
    (hkept : ∀ path name, (putAll provenance store items).kept? path name = store.kept? path name) :
    putAll provenance store items = store := by
  obtain ⟨f, hmap, hframe⟩ := exists_suits_putAll provenance hsuits
  have hself : store.suits.map (fun s => (s.1, f s.1 s.2)) = store.suits := by
    refine (List.map_congr_left fun s hs => ?_).trans (List.map_id _)
    refine Prod.ext rfl (Table.ext_getElem? fun name => ?_)
    -- Where a global is put, the suit holds what the first one of the path does.
    by_cases hplace : ∃ item ∈ items, splitGlobal item.1 = (s.1, name)
    · obtain ⟨item, hitem, hplace⟩ := hplace
      have hbehind := agrees_putAll_of_mem provenance store hitem
      have hbefore := hagrees item hitem
      rw [hplace] at hbehind hbefore
      calc (f s.1 s.2)[name]?
          = (putAll provenance store items).kept? s.1 name := by
            refine hbehind _ ?_
            rw [hmap]
            exact List.mem_map.2 ⟨s, hs, rfl⟩
        _ = store.kept? s.1 name := hkept s.1 name
        _ = s.2[name]? := (hbefore s.2 hs).symm
    · exact hframe s.1 name (fun item hitem he => hplace ⟨item, hitem, he⟩) s.2
  calc putAll provenance store items
      = ⟨(putAll provenance store items).suits⟩ := rfl
    _ = store := by rw [hmap, hself]

/-- Globals that were put in change nothing when they are put in again. -/
theorem putAll_putAll (provenance : Provenance) (store : Store) (items : List (String × Value)) :
    putAll provenance (putAll provenance store items) items = putAll provenance store items := by
  refine putAll_eq_self_of_agrees (fun item hitem => ?_)
    (fun item hitem => agrees_putAll_of_mem provenance store hitem) fun path name => ?_
  · rw [order_putAll_eq, mem_addSuits]
    exact .inr (List.mem_map.2 ⟨item, hitem, rfl⟩)
  · rw [kept?_putAll, kept?_putAll, settle_settle]

/-! ## Globals that go back -/

/-- Globals lead to one store, whatever order the table is enumerated in and however often they go
back. A place that none of them spells is as it was, and when their names have no slash and no
empty segment, each of them is the value of the card in the place that it spells. -/
theorem withGlobals_determined (store : Store) (provenance : Provenance) (globals : Table Value) :
    (∀ entries, entries.Perm globals.toList →
      store.withEntries provenance entries = store.withGlobals provenance globals) ∧
    (store.withGlobals provenance globals).withGlobals provenance globals =
      store.withGlobals provenance globals ∧
    (∀ path name, (∀ global ∈ globals, splitGlobal global ≠ (path, name)) →
      (store.withGlobals provenance globals).card? path name = store.card? path name) ∧
    ((∀ global ∈ globals, '/' ∉ global.toList ∧ [] ∉ global.toList.splitOn '.') →
      ∀ global value, globals[global]? = some value →
        ∃ card, (store.withGlobals provenance globals).card? (splitGlobal global).1
          (splitGlobal global).2 = some card ∧ card.value = value) := by
  refine ⟨fun entries hentries => ?_, ?_, fun path name hnone => ?_,
    fun hnames global value h => ?_⟩
  · rw [withGlobals, withEntries, withEntries, sortBy_before_congr hentries]
  · simp only [withGlobals_eq_putAll, putAll_putAll]
  · rw [card?_eq_map_kept?, card?_eq_map_kept?, withGlobals_eq_putAll, kept?_putAll_of_ne]
    intro item hitem
    refine hnone item.1 (Std.ExtTreeMap.mem_iff_isSome_getElem?.2 ?_)
    rw [mem_sorted_iff.1 hitem]
    rfl
  · have hglobals : ∀ name, name ∈ globals → IsGlobalName name := fun name hname =>
      isGlobalName_of_splitOn (hnames name hname).1 (hnames name hname).2
    have hname : IsGlobalName global :=
      hglobals global (Std.ExtTreeMap.mem_iff_isSome_getElem?.2 (by rw [h]; rfl))
    rw [← hname] at h
    rw [card?_eq_map_kept?,
      kept?_withGlobals_of_some hglobals _ (dot_notMem_splitGlobal global) h]
    exact ⟨_, rfl, value_cardOfGlobal ..⟩

/-- Globals lead to one store: a flag of a suit, assigned with a comment, and a text of the root. -/
theorem withGlobals_determined_two_suits :
    let globals : Table Value := (∅ : Table Value).insert "s.x" (.boolean true) |>.insert "y"
      (.string "a")
    let provenance : Provenance := (∅ : Provenance).insert "s.x" { line := 2, comment := "flag" }
    let store := ({} : Store).withGlobals provenance globals
    ({} : Store).withEntries provenance globals.toList.reverse = store ∧
      store.withGlobals provenance globals = store ∧
      store.card? (.ofString "s") "z" = none ∧
      ∃ card, store.card? (.ofString "s") "x" = some card ∧ card.value = .boolean true := by
  intro globals provenance store
  have hmem : ∀ global ∈ globals, global = "s.x" ∨ global = "y" := by
    intro global hglobal
    simp only [globals, Std.ExtTreeMap.mem_insert, Std.LawfulEqCmp.compare_eq_iff_eq,
      Std.ExtTreeMap.not_mem_empty, or_false] at hglobal
    exact hglobal.symm.imp Eq.symm Eq.symm
  obtain ⟨horder, htwice, hframe, hvalue⟩ := withGlobals_determined {} provenance globals
  refine ⟨horder _ (List.reverse_perm _), htwice, ?_, ?_⟩
  · refine (hframe (.ofString "s") "z" fun global hglobal => ?_).trans (by decide +kernel)
    rcases hmem global hglobal with rfl | rfl <;> decide +kernel
  · refine hvalue (fun global hglobal => ?_) "s.x" (.boolean true) ?_
    · rcases hmem global hglobal with rfl | rfl <;> decide +kernel
    · rw [Table.getElem?_insert_eq, if_neg (by decide), Table.getElem?_insert_eq, if_pos rfl]

end Store

end InputDeck
