import InputDeck.Proofs.Suit.HeaderNames

/-!
# Paths without blanks

A header loses all blanks of its name, so no suit that a text leads to has any in its path, whatever
else stands there.
-/

namespace InputDeck

open InputDeck.Text

namespace SuitPath

/-- Whether no blank breaks a path. -/
def IsUnbroken (path : SuitPath) : Prop := ∀ c ∈ path.text.toList, isBlank c = false

variable {path : SuitPath} {cs : List Char}

/-- The root has no blanks. -/
theorem isUnbroken_root : root.IsUnbroken := by
  intro c hc
  obtain rfl : c = '/' := by simpa [root] using hc
  decide

/-- The global names of the cards of a path without blanks have none in front. -/
theorem IsUnbroken.isBlank_globalPrefix (h : path.IsUnbroken) :
    ∀ c ∈ path.globalPrefix.toList, isBlank c = false := by
  intro c hc
  by_cases hroot : path = root
  · subst hroot
    simp at hc
  · rw [toList_globalPrefix hroot, List.mem_append, List.mem_singleton] at hc
    rcases hc with hc | rfl
    · obtain ⟨d, hd, rfl⟩ := List.mem_map.1 hc
      unfold dotted
      split
      · decide
      · exact h d hd
    · decide

/-- A text without blanks names a path without blanks. -/
theorem isUnbroken_ofString (h : ∀ c ∈ cs, isBlank c = false) :
    (ofString (String.ofList cs)).IsUnbroken := by
  intro c hc
  rw [ofString, String.toList_ofList, String.toList_ofList, canonical] at hc
  split at hc
  · obtain rfl := List.mem_singleton.1 hc
    decide
  · obtain ⟨d, hd, rfl⟩ := List.mem_map.1 ((trim_sublist _ _).subset hc)
    unfold slashed
    split
    · decide
    · exact h d hd

/-- Next to a path without blanks, a text without blanks leads to a path without blanks. -/
theorem IsUnbroken.sibling (h : path.IsUnbroken) (hcs : ∀ c ∈ cs, isBlank c = false) :
    (path.sibling (String.ofList cs)).IsUnbroken := by
  have hrest : ∀ c ∈ trim isSlash cs, isBlank c = false := fun c hc =>
    hcs c ((trim_sublist _ _).subset hc)
  have hparent : ∀ c ∈ path.parentText, isBlank c = false := by
    intro c hc
    unfold parentText at hc
    split at hc
    · next parent last hcut =>
      apply h
      rw [(cutLast_eq_some hcut).1]
      exact List.mem_append_left _ hc
    · cases hc
  simp only [SuitPath.sibling, String.toList_ofList]
  split
  · exact isUnbroken_ofString hrest
  · split
    · exact isUnbroken_ofString hparent
    · refine isUnbroken_ofString fun c hc => ?_
      rcases List.mem_append.1 hc with hc | hc
      · exact hparent c hc
      · rcases List.mem_cons.1 hc with rfl | hc
        · decide
        · exact hrest c hc

end SuitPath

namespace SuitCursor

/-- A cursor whose suits have no blanks. -/
structure IsUnbroken (cursor : SuitCursor) : Prop where
  /-- The suit of the cards that come next. -/
  current : cursor.current.IsUnbroken
  /-- The suit of the last absolute header. -/
  previous : ∀ path, cursor.previous = some path → path.IsUnbroken

/-- The suit that a text begins in has no blanks. -/
theorem IsUnbroken.default : IsUnbroken {} where
  current := SuitPath.isUnbroken_root
  previous path h := by cases h

/-- Every header leads from suits without blanks to suits without blanks. -/
theorem IsUnbroken.enter {cursor next : SuitCursor} (h : cursor.IsUnbroken) {settings : Settings}
    {text : String} {line : Nat} (henter : cursor.enter settings text line = .ok next) :
    next.IsUnbroken := by
  obtain ⟨inner, -, hleads⟩ := enter_eq_ok_iff.1 henter
  have hname : ∀ c ∈ withoutBlanks inner, isBlank c = false := fun _ => isBlank_of_mem_withoutBlanks
  generalize withoutBlanks inner = name at hname hleads
  cases hleads with
  | @relative rest previous hprevious =>
    have hrest : ∀ c ∈ rest, isBlank c = false := fun c hc => hname c (by simp [hc])
    exact ⟨(h.previous previous hprevious).sibling hrest, h.previous⟩
  | absolute =>
    have hsuit := SuitPath.isUnbroken_ofString hname
    exact ⟨hsuit, fun path hpath => Option.some.inj hpath ▸ hsuit⟩

end SuitCursor

end InputDeck
