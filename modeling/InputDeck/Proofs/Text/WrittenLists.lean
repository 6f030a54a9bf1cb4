import InputDeck.Proofs.Text.Pieces
import InputDeck.Proofs.Text.Stripped
import InputDeck.Proofs.Text.WrittenCards

/-!
# Written lists

Written values with a comma and a space between them make a list. Whatever stands between the quotes
of the values, the list is cut at these commas and nowhere else, it is no slice, and it has no
comment. So the items of the list in brackets are the values that it was written from.
-/

namespace InputDeck

open InputDeck.Text InputDeck.Scan

namespace Value

/-- A text of written values with commas and spaces between them. -/
structure IsListed (cs : List Char) : Prop where
  /-- Only spaces are blank. -/
  plain : IsPlain cs
  /-- All quotes are closed. -/
  paired : QuotesPaired cs
  /-- Outside quotes there are bare characters, commas and spaces. -/
  bare : ∀ c ∈ outside false cs, isBareChar c = true ∨ c = ',' ∨ c = ' '

/-- A written value alone is listed. -/
theorem IsWritten.isListed {cs : List Char} (h : IsWritten cs) : IsListed cs :=
  ⟨h.plain, h.paired, fun c hc => .inl (h.bare c hc)⟩

namespace IsListed

variable {cs ds : List Char} {items : List (List Char)}

/-- With a comma and a space between them, two lists make one. -/
theorem append (hcs : IsListed cs) (hds : IsListed ds) : IsListed (cs ++ [',', ' '] ++ ds) where
  plain := by
    have hsep : IsPlain [',', ' '] := by decide
    exact (hcs.plain.append hsep).append hds.plain
  paired := (hcs.paired.append (by decide)).append hds.paired
  bare c hc := by
    rw [outside_append (hcs.paired.append (by decide)), outside_append hcs.paired,
      List.mem_append, List.mem_append] at hc
    rcases hc with (hc | hc) | hc
    · exact hcs.bare c hc
    · obtain rfl | rfl : c = ',' ∨ c = ' ' := by simpa [outside] using hc
      · exact .inr (.inl rfl)
      · exact .inr (.inr rfl)
    · exact hds.bare c hc

/-- Written values are listed with commas and spaces between them. -/
theorem intercalate (h : ∀ item ∈ items, IsWritten item) :
    IsListed ([',', ' '].intercalate items) := by
  induction items with
  | nil => exact ⟨by decide, by decide, by simp [outside]⟩
  | cons item items ih =>
    cases items with
    | nil =>
      rw [List.intercalate_singleton]
      exact (h item List.mem_cons_self).isListed
    | cons other items =>
      rw [List.intercalate_cons_cons]
      exact (h item List.mem_cons_self).isListed.append
        (ih fun next hnext => h next (List.mem_cons_of_mem _ hnext))

/-- No character with another meaning stands outside the quotes of a list. -/
theorem notMem_outside (h : IsListed cs) {c : Char} (hc : isBareChar c = false)
    (hcomma : c ≠ ',') (hspace : c ≠ ' ') : c ∉ outside false cs := by
  intro hmem
  rcases h.bare c hmem with hbare | hbare | hbare
  · rw [hbare] at hc
    cases hc
  · exact hcomma hbare
  · exact hspace hbare

/-- A bracket can enclose a list. -/
theorem isEnclosed (h : IsListed cs) : IsEnclosed cs where
  paired := h.paired
  balanced := balancedFrom_of_outside
    (h.notMem_outside (c := '[') (by decide) (by decide) (by decide))
    (h.notMem_outside (c := ']') (by decide) (by decide) (by decide))

/-- A list in brackets has its quotes closed. -/
theorem quotesPaired_bracket (h : IsListed cs) : QuotesPaired ('[' :: cs ++ [']']) :=
  ((QuotesPaired.cons_iff (by decide)).2 h.paired).append (by decide)

/-- A list in brackets has its brackets in pairs. -/
theorem bracketsBalanced_bracket (h : IsListed cs) : bracketsBalanced ('[' :: cs ++ [']']) := by
  have hopen : '[' ∉ outside (State.quoted ⟨false, 1⟩) cs :=
    h.notMem_outside (by decide) (by decide) (by decide)
  have hclose : ']' ∉ outside (State.quoted ⟨false, 1⟩) cs :=
    h.notMem_outside (by decide) (by decide) (by decide)
  have hinner : balancedFrom ⟨false, 1⟩ (cs ++ [']']) = true := by
    rw [balancedFrom_append_of_notMem hopen hclose, State.after_eq_self h.paired hopen hclose]
    rfl
  exact hinner

/-- No character with another meaning stands outside the quotes of a list in brackets. -/
theorem notMem_outside_bracket (h : IsListed cs) {c : Char} (hc : isBareChar c = false)
    (hcomma : c ≠ ',') (hspace : c ≠ ' ') (hopen : c ≠ '[') (hclose : c ≠ ']') :
    c ∉ outside false ('[' :: cs ++ [']']) := by
  rw [outside_append ((QuotesPaired.cons_iff (by decide)).2 h.paired)]
  simpa [outside, hopen, hclose] using h.notMem_outside hc hcomma hspace

end IsListed

namespace IsWritten

variable {cs : List Char} {items : List (List Char)}

/-- A written value leaves nothing open. -/
theorem leavesNothingOpen (h : IsWritten cs) : LeavesNothingOpen cs where
  state := State.after_eq_self h.paired (h.notMem_outside (c := '[') (by decide))
    (h.notMem_outside (c := ']') (by decide))
  parens := parensAfter_of_notMem (h.notMem_outside (c := '(') (by decide))
    (h.notMem_outside (c := ')') (by decide)) 0

/-- A written value has no blanks outside its quotes to be stripped. -/
theorem stripped_eq (h : IsWritten cs) : stripped false cs = cs := by
  have hself := stripUnquoted_eq_self h.paired fun c hc => isBlank_of_isBareChar (h.bare c hc)
  rw [stripUnquoted_eq_some h.paired] at hself
  exact Option.some.inj hself

/-- A list is stripped of the spaces behind its commas. -/
theorem stripped_intercalate (h : ∀ item ∈ items, IsWritten item) :
    stripped false ([',', ' '].intercalate items) = [','].intercalate items := by
  induction items with
  | nil => rfl
  | cons item items ih =>
    have hitem := h item List.mem_cons_self
    cases items with
    | nil => rw [List.intercalate_singleton, List.intercalate_singleton, hitem.stripped_eq]
    | cons other items =>
      have hrest := ih fun next hnext => h next (List.mem_cons_of_mem _ hnext)
      have happend : ∀ ds, stripped false (item ++ ds) = item ++ stripped false ds := by
        intro ds
        have hboth := stripped_append {} item ds
        rw [hitem.leavesNothingOpen.state] at hboth
        exact hboth.trans (congrArg (· ++ _) hitem.stripped_eq)
      have hsep : ∀ ds, stripped false ([',', ' '] ++ ds) = [','] ++ stripped false ds :=
        fun _ => rfl
      rw [List.intercalate_cons_cons, List.intercalate_cons_cons, List.append_assoc, happend, hsep,
        hrest, List.append_assoc]

/-- A list without spaces is cut at its commas into the values that it was written from. -/
theorem splitTopLevel_intercalate (hne : items ≠ []) (h : ∀ item ∈ items, IsWritten item) :
    splitTopLevel ',' ([','].intercalate items) = items :=
  (splitTopLevel_intercalate_eq_self_iff isSeparator_comma hne).2
    ⟨fun item hitem => (h item hitem).hasTopLevel,
      fun item hitem => (h item (List.dropLast_subset _ hitem)).leavesNothingOpen⟩

end IsWritten

end Value

end InputDeck
