import InputDeck.Globals
import InputDeck.Proofs.Store.Places

/-!
# Global names

The global name of a card whose own name has no dots spells its place: splitting it at the last dot
gives the suit and the name back. So in a well-formed store, where every suit stands once and no
card name has a dot, the globals are the cards seen under other names, and nothing else.
-/

namespace InputDeck

namespace SuitPath

/-- The slashes of a text without dots come back from its dotted spelling. -/
theorem map_slashed_map_dotted {cs : List Char} (h : '.' ∉ cs) :
    (cs.map dotted).map slashed = cs := by
  rw [List.map_map]
  refine (List.map_congr_left fun c hc => ?_).trans (List.map_id cs)
  have hdot : c ≠ '.' := fun hdot => h (hdot ▸ hc)
  by_cases hslash : c = '/' <;> simp [dotted, slashed, hslash, hdot]

/-- A path is the root exactly when it says so. -/
theorem isRoot_iff {path : SuitPath} : path.isRoot = true ↔ path = root := by
  rw [isRoot, beq_iff_eq]
  constructor
  · intro h
    obtain ⟨text, hcanonical⟩ := path
    cases h
    rfl
  · rintro rfl
    rfl

/-- The dotted spelling of a suit that is not the root has dots for its slashes. -/
theorem dotted?_of_ne_root {path : SuitPath} (h : path ≠ root) :
    path.dotted? = some (String.ofList (path.text.toList.map dotted)) := by
  rw [dotted?, if_neg]
  rwa [isRoot_iff]

/-- A suit that is not the root is prefixed by its dotted spelling and a dot. -/
theorem toList_globalPrefix {path : SuitPath} (h : path ≠ root) :
    path.globalPrefix.toList = path.text.toList.map dotted ++ ['.'] := by
  simp [globalPrefix, dotted?_of_ne_root h]

/-- The global names of different cards of a suit are different. -/
@[simp] theorem qualify_inj {path : SuitPath} {name other : String} :
    path.qualify name = path.qualify other ↔ name = other := by
  simp [qualify]

/-- The dotted spelling of a suit names it. -/
theorem ofString_map_dotted (path : SuitPath) :
    ofString (String.ofList (path.text.toList.map dotted)) = path := by
  conv => rhs; rw [← ofString_text path]
  simp only [ofString, canonical, String.toList_ofList,
    map_slashed_map_dotted path.isCanonical.dot_notMem,
    map_slashed_of_dot_notMem path.isCanonical.dot_notMem]

/-- The global name of a card spells the place of the card. -/
theorem splitGlobal_qualify (path : SuitPath) {name : String} (h : '.' ∉ name.toList) :
    splitGlobal (path.qualify name) = (path, name) := by
  by_cases hroot : path = root
  · subst hroot
    rw [qualify_root, splitGlobal, Text.cutLast_eq_none_iff.2 h]
  · have hsplit : (path.qualify name).toList =
        path.text.toList.map dotted ++ '.' :: name.toList := by
      rw [qualify, String.toList_append, toList_globalPrefix hroot, List.append_assoc]
      rfl
    rw [splitGlobal, hsplit, Text.cutLast_append_cons _ h]
    simp only [ofString_map_dotted, String.ofList_toList]

/-- No card name that is split off a global name has a dot. -/
theorem dot_notMem_splitGlobal (name : String) : '.' ∉ (splitGlobal name).2.toList := by
  unfold splitGlobal
  split
  · next suit card hcut =>
    rw [String.toList_ofList]
    exact (Text.cutLast_eq_some hcut).2
  · next hcut => exact Text.cutLast_eq_none_iff.1 hcut

/-- A name that the place it is split into spells again. -/
def IsGlobalName (name : String) : Prop :=
  (splitGlobal name).1.qualify (splitGlobal name).2 = name

instance (name : String) : Decidable (IsGlobalName name) := inferInstanceAs (Decidable (_ = _))

/-- The global names of cards are global names. -/
theorem isGlobalName_qualify (path : SuitPath) {name : String} (h : '.' ∉ name.toList) :
    IsGlobalName (path.qualify name) := by
  rw [IsGlobalName, splitGlobal_qualify path h]

/-- A name without dots is the global name of a card of the root suit. -/
theorem isGlobalName_of_dot_notMem {name : String} (h : '.' ∉ name.toList) :
    IsGlobalName name := by
  rw [← qualify_root name]
  exact isGlobalName_qualify root h

/-- The two sides of a last dot spell a place when the first one is a path with dots for slashes. -/
theorem isGlobalName_of_dotted {suit card : List Char} (hcard : '.' ∉ card)
    (hslash : '/' ∉ suit) (hne : suit ≠ []) (hhead : suit.head? ≠ some '.')
    (hlast : suit.getLast? ≠ some '.') :
    IsGlobalName (String.ofList (suit ++ '.' :: card)) := by
  have hmap : (suit.map slashed).map dotted = suit := by
    rw [List.map_map]
    refine (List.map_congr_left fun c hc => ?_).trans (List.map_id suit)
    have hc : c ≠ '/' := fun he => hslash (he ▸ hc)
    by_cases hdot : c = '.' <;> simp [dotted, slashed, hdot, hc]
  have hcanonical : canonical suit = suit.map slashed := by
    have htrim : Text.trim isSlash (suit.map slashed) = suit.map slashed := by
      apply Text.trim_eq_self
      · intro c hc
        rw [List.head?_map, Option.map_eq_some_iff] at hc
        obtain ⟨d, hd, rfl⟩ := hc
        have hdot : d ≠ '.' := fun he => hhead (he ▸ hd)
        have hd' : d ≠ '/' := fun he => hslash (he ▸ List.mem_of_head? hd)
        simp [isSlash, slashed, hdot, hd']
      · intro c hc
        rw [List.getLast?_map, Option.map_eq_some_iff] at hc
        obtain ⟨d, hd, rfl⟩ := hc
        have hdot : d ≠ '.' := fun he => hlast (he ▸ hd)
        have hd' : d ≠ '/' := fun he => hslash (he ▸ List.mem_of_getLast? hd)
        simp [isSlash, slashed, hdot, hd']
    rw [canonical, htrim]
    cases suit with
    | nil => exact absurd rfl hne
    | cons c cs => rfl
  have hroot : ofString (String.ofList suit) ≠ root := by
    intro he
    have htext : canonical suit = ['/'] := by
      have := congrArg String.toList (congrArg SuitPath.text he)
      rwa [ofString, String.toList_ofList, String.toList_ofList] at this
    rw [hcanonical] at htext
    have hone : suit = ['.'] := by
      rw [← hmap, htext]
      rfl
    exact hhead (by rw [hone]; rfl)
  apply String.toList_inj.1
  rw [splitGlobal, String.toList_ofList, Text.cutLast_append_cons suit hcard]
  simp only [qualify, String.toList_append, toList_globalPrefix hroot]
  simp [ofString, hcanonical, hmap]

end SuitPath

namespace Store

open SuitPath

/-- Every suit stands once in the order, and no card name has a dot. -/
structure WellFormed (store : Store) : Prop where
  /-- No suit is repeated. -/
  nodup : store.order.Nodup
  /-- No card name has a dot. -/
  dot_notMem : ∀ path name entry, store.kept? path name = some entry → '.' ∉ name.toList

/-- A new store is well-formed. -/
theorem wellFormed_default : ({} : Store).WellFormed where
  nodup := by simp [order]
  dot_notMem path name entry h := by simp at h

/-- An insertion of a card whose name has no dot keeps a store well-formed. -/
theorem WellFormed.insert {store : Store} (h : store.WellFormed) {card : Card}
    (hname : '.' ∉ card.name.toList) : (store.insert card).WellFormed where
  nodup := by
    rw [order_insert]
    exact nodup_order_ensureSuit h.nodup card.suit
  dot_notMem path name entry hentry := by
    rw [kept?_insert] at hentry
    split at hentry
    · next hplace =>
      rw [hplace.2]
      exact hname
    · exact h.dot_notMem path name entry hentry

/-- A new suit keeps a store well-formed. -/
theorem WellFormed.ensureSuit {store : Store} (h : store.WellFormed) (path : SuitPath) :
    (store.ensureSuit path).WellFormed where
  nodup := nodup_order_ensureSuit h.nodup path
  dot_notMem other name entry hentry :=
    h.dot_notMem other name entry (by rwa [kept?_ensureSuit] at hentry)

/-- The globals of a well-formed store are what it keeps in the places that the names spell. -/
theorem getElem?_globals {store : Store} (h : store.WellFormed) (name : String) :
    store.globals[name]? =
      if IsGlobalName name then
        (store.kept? (splitGlobal name).1 (splitGlobal name).2).map Entry.value
      else none := by
  have hplace : ∀ card ∈ store.cards, splitGlobal card.globalName = (card.suit, card.name) ∧
      store.kept? card.suit card.name = some card.toEntry := by
    intro card hcard
    have hentry := (mem_cards_iff h.nodup).1 hcard
    exact ⟨splitGlobal_qualify _ (h.dot_notMem _ _ _ hentry), hentry⟩
  rw [globals, Table.getElem?_foldl_insert]
  cases hfind : store.cards.reverse.find? fun card => card.globalName == name with
  | some card =>
    have hcard : card ∈ store.cards := List.mem_reverse.1 (List.mem_of_find?_eq_some hfind)
    obtain rfl : card.globalName = name := by simpa using List.find?_some hfind
    obtain ⟨hsplit, hentry⟩ := hplace card hcard
    have hglobal : IsGlobalName card.globalName := by
      rw [IsGlobalName, hsplit]
      rfl
    simp [hglobal, hsplit, hentry]
  | none =>
    split
    · next hglobal =>
      cases hentry : store.kept? (splitGlobal name).1 (splitGlobal name).2 with
      | none => simp
      | some entry =>
        let card : Card := ⟨entry, (splitGlobal name).1, (splitGlobal name).2⟩
        have hcard : card ∈ store.cards := (mem_cards_iff h.nodup).2 hentry
        have hnot := List.find?_eq_none.1 hfind card (List.mem_reverse.2 hcard)
        exact absurd hglobal (by simpa [IsGlobalName, Card.globalName, card] using hnot)
    · simp

/-- The global of a place holds the value that stands there. -/
theorem getElem?_globals_qualify {store : Store} (h : store.WellFormed) (path : SuitPath)
    {name : String} (hname : '.' ∉ name.toList) :
    store.globals[path.qualify name]? = (store.kept? path name).map Entry.value := by
  rw [getElem?_globals h, if_pos (isGlobalName_qualify path hname), splitGlobal_qualify path hname]

end Store

end InputDeck
