import InputDeck.Proofs.Store.GlobalNames

/-!
# Names of places

A place is a suit and the name of a card in it. The spellings of paths and of places are read back:
a path from its own text and from its dotted spelling, a place from its global name when the name
of the card has no dots, and a global name from the place that it is split into. The last of these
holds of the names without dots and of those with a path in dotted spelling in front of the last
dot, and of no others.
-/

namespace InputDeck

namespace SuitPath

/-- The names that places spell. -/
inductive IsPlaceName : List Char → Prop
  /-- A name without dots is a card of the root. -/
  | card {card : List Char} (hcard : '.' ∉ card) : IsPlaceName card
  /-- In front of the last dot stands a path with dots for slashes, and none at its ends. -/
  | inSuit {suit card : List Char} (hcard : '.' ∉ card) (hne : suit ≠ []) (hslash : '/' ∉ suit)
      (hhead : suit.head? ≠ some '.') (hlast : suit.getLast? ≠ some '.') :
      IsPlaceName (suit ++ '.' :: card)

/-- Only the root has no dotted spelling, and every other path is read back from its own. -/
theorem map_ofString_dotted? (path : SuitPath) :
    path.dotted?.map ofString = if path = root then none else some path := by
  by_cases hroot : path = root
  · rw [if_pos hroot, hroot]
    rfl
  · rw [if_neg hroot, dotted?_of_ne_root hroot]
    exact congrArg some (ofString_map_dotted path)

/-- A dot of the dotted spelling stands for a slash of the path. -/
private theorem eq_slash_of_dotted {path : SuitPath} {c : Char} (hc : c ∈ path.text.toList)
    (hdot : dotted c = '.') : c = '/' := by
  unfold dotted at hdot
  split at hdot
  · assumption
  · exact absurd (hdot ▸ hc) path.isCanonical.dot_notMem

/-- No slash is left in a dotted spelling. -/
private theorem slash_notMem_map_dotted (cs : List Char) : '/' ∉ cs.map dotted := by
  intro hmem
  obtain ⟨c, -, hc⟩ := List.mem_map.1 hmem
  unfold dotted at hc
  split at hc
  · cases hc
  · next hslash => exact hslash hc

/-- The dotted spelling of a path that is not the root stands in front of the last dot of a name. -/
private theorem isPlaceName_dotted {path : SuitPath} (hroot : path ≠ root) {card : List Char}
    (hcard : '.' ∉ card) : IsPlaceName (path.text.toList.map dotted ++ '.' :: card) := by
  have hends : path.text.toList ≠ [] ∧ path.text.toList.head? ≠ some '/' ∧
      path.text.toList.getLast? ≠ some '/' := by
    apply path.isCanonical.ends.resolve_left
    intro htext
    apply hroot
    rw [← ofString_text path, ← @String.ofList_toList path.text, htext]
    rfl
  obtain ⟨hne, hhead, hlast⟩ := hends
  apply IsPlaceName.inSuit hcard
  · simpa using hne
  · exact slash_notMem_map_dotted _
  · rw [List.head?_map, ne_eq, Option.map_eq_some_iff]
    rintro ⟨c, hc, hdot⟩
    apply hhead
    rw [hc, eq_slash_of_dotted (List.mem_of_head? hc) hdot]
  · rw [List.getLast?_map, ne_eq, Option.map_eq_some_iff]
    rintro ⟨c, hc, hdot⟩
    apply hlast
    rw [hc, eq_slash_of_dotted (List.mem_of_getLast? hc) hdot]

/-- The names that come back from the places they are split into are those that places spell. -/
theorem isGlobalName_iff {name : String} : IsGlobalName name ↔ IsPlaceName name.toList := by
  constructor
  · intro h
    have hcard := dot_notMem_splitGlobal name
    rw [IsGlobalName] at h
    by_cases hroot : (splitGlobal name).1 = root
    · rw [hroot, qualify_root] at h
      rw [← h]
      exact .card hcard
    · rw [← h, qualify, String.toList_append, toList_globalPrefix hroot, List.append_assoc]
      exact isPlaceName_dotted hroot hcard
  · intro h
    rw [← @String.ofList_toList name]
    generalize name.toList = cs at h
    cases h with
    | card hcard =>
      apply isGlobalName_of_dot_notMem
      rwa [String.toList_ofList]
    | inSuit hcard hne hslash hhead hlast =>
      exact isGlobalName_of_dotted hcard hslash hne hhead hlast

/-- A card has the place that its global name is split into exactly when its own name has no
dots. -/
theorem splitGlobal_qualify_iff {path : SuitPath} {card : String} :
    splitGlobal (path.qualify card) = (path, card) ↔ '.' ∉ card.toList := by
  constructor
  · intro h
    have hcard := dot_notMem_splitGlobal (path.qualify card)
    rwa [h] at hcard
  · exact splitGlobal_qualify path

/--
The spellings of paths and places are read back. A path is named by its own text and, but for the
root, by its dotted spelling. A card is found again in its suit by its global name, and its place is
when its own name has no dots. A global name is spelled again by the place that it is split into
exactly when it is a name that a place spells.
-/
theorem spellings_are_read_back (path card name : String) :
    ofString (ofString path).text = ofString path ∧
      (ofString path).dotted?.map ofString =
        (if ofString path = root then none else some (ofString path)) ∧
      (splitGlobal ((ofString path).qualify card) = (ofString path, card) ↔ '.' ∉ card.toList) ∧
      (ofString path).localize ((ofString path).qualify card) = some card ∧
      ((splitGlobal name).1.qualify (splitGlobal name).2 = name ↔ IsPlaceName name.toList) :=
  ⟨ofString_text _, map_ofString_dotted? _, splitGlobal_qualify_iff, localize_qualify _ card,
    isGlobalName_iff⟩

end SuitPath

end InputDeck
