import InputDeck.Proofs.Store.GlobalNames

/-!
# Globals as cards

A table of globals goes back into a store card by card. Different global names spell different
places, so the order of the cards decides nothing but the order of new suits: in the end every
global is the card of its place, and every other place is as it was.
-/

namespace InputDeck

open SuitPath

namespace Store

variable {store : Store} {provenance : Provenance}

/-- A global becomes a card of the suit that its name spells. -/
@[simp] theorem suit_cardOfGlobal (store : Store) (provenance : Provenance) (name : String)
    (value : Value) : (store.cardOfGlobal provenance name value).suit = (splitGlobal name).1 := by
  simp only [cardOfGlobal]
  cases provenance[name]? with
  | some origin => rfl
  | none => cases store.card? (splitGlobal name).1 (splitGlobal name).2 <;> rfl

/-- A global becomes the card whose name its own name spells. -/
@[simp] theorem name_cardOfGlobal (store : Store) (provenance : Provenance) (name : String)
    (value : Value) : (store.cardOfGlobal provenance name value).name = (splitGlobal name).2 := by
  simp only [cardOfGlobal]
  cases provenance[name]? with
  | some origin => rfl
  | none => cases store.card? (splitGlobal name).1 (splitGlobal name).2 <;> rfl

/-- A global becomes a card with its value. -/
@[simp] theorem value_cardOfGlobal (store : Store) (provenance : Provenance) (name : String)
    (value : Value) : (store.cardOfGlobal provenance name value).value = value := by
  simp only [cardOfGlobal]
  cases provenance[name]? with
  | some origin => simp
  | none => cases store.card? (splitGlobal name).1 (splitGlobal name).2 <;> rfl

/-- A global that was assigned has the line and the comment of its assignment. -/
theorem toEntry_cardOfGlobal_of_origin {name : String} {origin : Origin} (value : Value)
    (h : provenance[name]? = some origin) :
    (store.cardOfGlobal provenance name value).toEntry =
      ({ value := value, line := some origin.line } : Entry).withComment origin.comment := by
  simp only [cardOfGlobal, h]

/-- A global that was not assigned keeps what else stands in its place. -/
theorem toEntry_cardOfGlobal_of_kept? {name : String} {entry : Entry} (value : Value)
    (h : provenance[name]? = none)
    (hentry : store.kept? (splitGlobal name).1 (splitGlobal name).2 = some entry) :
    (store.cardOfGlobal provenance name value).toEntry = { entry with value := value } := by
  simp only [cardOfGlobal, h, card?_eq_map_kept?, hentry, Option.map_some]

/-- A global that was not assigned and has an empty place is a bare value. -/
theorem toEntry_cardOfGlobal_of_empty {name : String} (value : Value)
    (h : provenance[name]? = none)
    (hentry : store.kept? (splitGlobal name).1 (splitGlobal name).2 = none) :
    (store.cardOfGlobal provenance name value).toEntry = { value := value } := by
  simp only [cardOfGlobal, h, card?_eq_map_kept?, hentry, Option.map_none]

/-- The card that a global becomes depends on the store by its place only. -/
theorem cardOfGlobal_congr {other : Store} {name : String} (value : Value)
    (h : other.kept? (splitGlobal name).1 (splitGlobal name).2 =
      store.kept? (splitGlobal name).1 (splitGlobal name).2) :
    other.cardOfGlobal provenance name value = store.cardOfGlobal provenance name value := by
  simp only [cardOfGlobal, card?_eq_map_kept?, h]

/-- Put globals into a store one after the other. -/
def putAll (provenance : Provenance) (store : Store) (items : List (String × Value)) : Store :=
  items.foldl (fun store item => store.insert (store.cardOfGlobal provenance item.1 item.2)) store

theorem putAll_cons (store : Store) (item : String × Value) (items : List (String × Value)) :
    putAll provenance store (item :: items) =
      putAll provenance (store.insert (store.cardOfGlobal provenance item.1 item.2)) items := rfl

/-- A place that no global spells is left as it was. -/
theorem kept?_putAll_of_ne {path : SuitPath} {name : String}
    {items : List (String × Value)} (h : ∀ item ∈ items, splitGlobal item.1 ≠ (path, name)) :
    (putAll provenance store items).kept? path name = store.kept? path name := by
  induction items generalizing store with
  | nil => rfl
  | cons item items ih =>
    rw [putAll_cons, ih fun other hother => h other (List.mem_cons_of_mem _ hother), kept?_insert,
      if_neg]
    rintro ⟨hpath, hname⟩
    refine h item List.mem_cons_self (Prod.ext ?_ ?_)
    · simpa using hpath.symm
    · simpa using hname.symm

/-- When the globals spell different places, each is the card of its place in the end. -/
private theorem kept?_putAll_of_mem (provenance : Provenance) (store : Store)
    {items : List (String × Value)} {item : String × Value}
    (hplaces : items.Pairwise fun a b => splitGlobal a.1 ≠ splitGlobal b.1) (hitem : item ∈ items) :
    (putAll provenance store items).kept? (splitGlobal item.1).1 (splitGlobal item.1).2 =
      some (store.cardOfGlobal provenance item.1 item.2).toEntry := by
  induction items generalizing store with
  | nil => cases hitem
  | cons first items ih =>
    obtain ⟨hfirst, hrest⟩ := List.pairwise_cons.1 hplaces
    rw [putAll_cons]
    rcases List.mem_cons.1 hitem with rfl | hitem
    · have hothers : ∀ other ∈ items,
          splitGlobal other.1 ≠ ((splitGlobal item.1).1, (splitGlobal item.1).2) :=
        fun other hother => (hfirst other hother).symm
      rw [kept?_putAll_of_ne hothers, kept?_insert, if_pos (by simp)]
    · rw [ih _ hrest hitem, cardOfGlobal_congr]
      rw [kept?_insert, if_neg]
      rintro ⟨hpath, hname⟩
      refine hfirst item hitem (Prod.ext ?_ ?_)
      · simpa using hpath.symm
      · simpa using hname.symm

/-- Globals that are cards already change nothing. -/
private theorem putAll_eq_self {items : List (String × Value)} (h : store.order.Nodup)
    (hitems : ∀ item ∈ items, store.kept? (splitGlobal item.1).1 (splitGlobal item.1).2 =
      some (store.cardOfGlobal provenance item.1 item.2).toEntry) :
    putAll provenance store items = store := by
  induction items with
  | nil => rfl
  | cons item items ih =>
    rw [putAll_cons, insert_eq_self h (by simpa using hitems item List.mem_cons_self)]
    exact ih fun other hother => hitems other (List.mem_cons_of_mem _ hother)

/-- Every property that insertions of globals keep holds when all globals are put in. -/
private theorem putAll_induction {P : Store → Prop} {items : List (String × Value)}
    (hstore : P store)
    (hstep : ∀ s, P s → ∀ item ∈ items, P (s.insert (s.cardOfGlobal provenance item.1 item.2))) :
    P (putAll provenance store items) := by
  induction items generalizing store with
  | nil => exact hstore
  | cons item items ih =>
    rw [putAll_cons]
    exact ih (hstep store hstore item List.mem_cons_self)
      fun s hs other hother => hstep s hs other (List.mem_cons_of_mem _ hother)

variable {globals : Table Value}

theorem withGlobals_eq_putAll (store : Store) (provenance : Provenance)
    (globals : Table Value) :
    store.withGlobals provenance globals =
      putAll provenance store (sortBy provenance.before globals.toList) := rfl

/-- The entries of a table are sorted with nothing lost and nothing added. -/
theorem mem_sorted_iff {item : String × Value} :
    item ∈ sortBy provenance.before globals.toList ↔ globals[item.1]? = some item.2 := by
  rw [mem_sortBy, ← Std.ExtTreeMap.mem_toList_iff_getElem?_eq_some]

/-- Every property that insertions of globals keep holds of the store with all globals. -/
theorem withGlobals_induction {P : Store → Prop} (hstore : P store)
    (hstep : ∀ s, P s → ∀ name value, globals[name]? = some value →
      P (s.insert (s.cardOfGlobal provenance name value))) :
    P (store.withGlobals provenance globals) := by
  rw [withGlobals_eq_putAll]
  refine putAll_induction hstore fun s hs item hitem => ?_
  exact hstep s hs item.1 item.2 (mem_sorted_iff.1 hitem)

/-- Names that spell places spell different ones when they differ. -/
private theorem pairwise_places (h : ∀ name, name ∈ globals → IsGlobalName name) :
    (sortBy provenance.before globals.toList).Pairwise
      fun a b => splitGlobal a.1 ≠ splitGlobal b.1 := by
  have hkeys : globals.toList.Pairwise fun a b => splitGlobal a.1 ≠ splitGlobal b.1 := by
    refine (Std.ExtTreeMap.distinct_keys_toList (t := globals)).imp_of_mem fun {a b} ha hb hne => ?_
    have hname : ∀ item ∈ globals.toList, IsGlobalName item.1 := fun item hitem =>
      h _ (Std.ExtTreeMap.mem_iff_isSome_getElem?.2
        (by rw [Std.ExtTreeMap.mem_toList_iff_getElem?_eq_some.1 hitem]; rfl))
    intro he
    have hab : a.1 = b.1 := by
      rw [← hname a ha, ← hname b hb, he]
    simp [hab] at hne
  exact ((sortBy_perm _ _).pairwise_iff fun hne => hne.symm).2 hkeys

/-- A global that spells a place is the card of the place. -/
theorem kept?_withGlobals_of_some (h : ∀ name, name ∈ globals → IsGlobalName name)
    (path : SuitPath) {name : String} (hname : '.' ∉ name.toList) {value : Value}
    (hvalue : globals[path.qualify name]? = some value) :
    (store.withGlobals provenance globals).kept? path name =
      some (store.cardOfGlobal provenance (path.qualify name) value).toEntry := by
  have hitem : (path.qualify name, value) ∈ sortBy provenance.before globals.toList :=
    mem_sorted_iff.2 hvalue
  have hcard := kept?_putAll_of_mem provenance store (pairwise_places h) hitem
  rwa [splitGlobal_qualify path hname] at hcard

/-- A place that no global spells is as it was. -/
theorem kept?_withGlobals_of_none (h : ∀ name, name ∈ globals → IsGlobalName name)
    (path : SuitPath) {name : String} (hvalue : globals[path.qualify name]? = none) :
    (store.withGlobals provenance globals).kept? path name = store.kept? path name := by
  rw [withGlobals_eq_putAll]
  refine kept?_putAll_of_ne fun item hitem hplace => ?_
  have hglobal := mem_sorted_iff.1 hitem
  have hkey : IsGlobalName item.1 :=
    h _ (Std.ExtTreeMap.mem_iff_isSome_getElem?.2 (by rw [hglobal]; rfl))
  rw [IsGlobalName, hplace] at hkey
  rw [← hkey, hvalue] at hglobal
  cases hglobal

/-- A name with a dot is no place of a global. -/
theorem kept?_withGlobals_of_dot (path : SuitPath) {name : String} (hname : '.' ∈ name.toList) :
    (store.withGlobals provenance globals).kept? path name = store.kept? path name := by
  rw [withGlobals_eq_putAll]
  refine kept?_putAll_of_ne fun item _ hplace => ?_
  have hdot := dot_notMem_splitGlobal item.1
  rw [hplace] at hdot
  exact hdot hname

/-- The values of the cards are those of the globals, and where there is no global those that were
there. -/
theorem map_value_card?_withGlobals (h : ∀ name, name ∈ globals → IsGlobalName name)
    (path : SuitPath) {name : String} (hname : '.' ∉ name.toList) :
    ((store.withGlobals provenance globals).card? path name).map (·.value) =
      globals[path.qualify name]?.or ((store.card? path name).map (·.value)) := by
  rw [card?_eq_map_kept?, card?_eq_map_kept?]
  cases hvalue : globals[path.qualify name]? with
  | some value => simp [kept?_withGlobals_of_some h path hname hvalue]
  | none => simp [kept?_withGlobals_of_none h path hvalue]

/-- What is noted of globals, and suits without cards, do not matter for the values of the cards
that the globals become. -/
theorem map_value_card?_withGlobals_congr {other : Store} {notes : Provenance}
    (h : ∀ name, name ∈ globals → IsGlobalName name)
    (hkept : ∀ path name, other.kept? path name = store.kept? path name) (path : SuitPath)
    (name : String) :
    ((other.withGlobals notes globals).card? path name).map (·.value) =
      ((store.withGlobals provenance globals).card? path name).map (·.value) := by
  by_cases hname : '.' ∈ name.toList
  · simp [card?_eq_map_kept?, kept?_withGlobals_of_dot path hname, hkept]
  · rw [map_value_card?_withGlobals h path hname, map_value_card?_withGlobals h path hname,
      card?_eq_map_kept?, card?_eq_map_kept?, hkept]

/-- Globals that are the cards of their places already change nothing. -/
theorem withGlobals_eq_self (h : store.order.Nodup)
    (hglobals : ∀ name value, globals[name]? = some value →
      store.kept? (splitGlobal name).1 (splitGlobal name).2 =
        some (store.cardOfGlobal provenance name value).toEntry) :
    store.withGlobals provenance globals = store := by
  rw [withGlobals_eq_putAll]
  exact putAll_eq_self h fun item hitem => hglobals _ _ (mem_sorted_iff.1 hitem)

/-- The globals of a well-formed store go back into the places they came from. -/
@[simp] theorem withGlobals_globals (h : store.WellFormed) :
    store.withGlobals ∅ store.globals = store := by
  refine withGlobals_eq_self h.nodup fun name value hvalue => ?_
  rw [getElem?_globals h] at hvalue
  split at hvalue
  · obtain ⟨entry, hentry, rfl⟩ := Option.map_eq_some_iff.1 hvalue
    rw [hentry, toEntry_cardOfGlobal_of_kept? entry.value (by simp) hentry]
  · cases hvalue

/-- Suits of a store stay, in their order, when globals become cards. -/
theorem order_prefix_withGlobals (store : Store) (provenance : Provenance)
    (globals : Table Value) : store.order <+: (store.withGlobals provenance globals).order :=
  withGlobals_induction (P := fun s => store.order <+: s.order) List.prefix_rfl
    fun s hs _ _ _ => hs.trans (order_prefix_insert s _)

/-- A well-formed store stays so when globals become cards. -/
theorem WellFormed.withGlobals (h : store.WellFormed) (provenance : Provenance)
    (globals : Table Value) : (store.withGlobals provenance globals).WellFormed :=
  withGlobals_induction h fun s hs name value _ =>
    hs.insert (by simpa using dot_notMem_splitGlobal name)

/-- When every card has a global, the globals that became cards are the globals of the store. -/
theorem globals_withGlobals (h : store.WellFormed)
    (hnames : ∀ name, name ∈ globals → IsGlobalName name)
    (hcards : ∀ name, name ∈ store.globals → name ∈ globals) :
    (store.withGlobals provenance globals).globals = globals := by
  apply Table.ext_getElem?
  intro name
  rw [getElem?_globals (h.withGlobals provenance globals)]
  cases hvalue : globals[name]? with
  | some value =>
    have hname : IsGlobalName name :=
      hnames name (Std.ExtTreeMap.mem_iff_isSome_getElem?.2 (by rw [hvalue]; rfl))
    have hplace : globals[(splitGlobal name).1.qualify (splitGlobal name).2]? = some value := by
      rw [hname, hvalue]
    rw [if_pos hname, kept?_withGlobals_of_some hnames _ (dot_notMem_splitGlobal name) hplace]
    simp
  | none =>
    split
    · next hname =>
      have hplace : globals[(splitGlobal name).1.qualify (splitGlobal name).2]? = none := by
        rw [hname, hvalue]
      have hold : store.globals[name]? = none := by
        rw [← Option.not_isSome_iff_eq_none, ← Std.ExtTreeMap.mem_iff_isSome_getElem?]
        intro hmem
        have := Std.ExtTreeMap.mem_iff_isSome_getElem?.1 (hcards name hmem)
        rw [hvalue] at this
        cases this
      rw [getElem?_globals h, if_pos hname] at hold
      rw [kept?_withGlobals_of_none hnames _ hplace, hold]
    · rfl

end Store

end InputDeck
