import InputDeck.CardLine
import InputDeck.Slice

/-!
# Paired quotes

A quote is open behind a text exactly when its quotes do not come in pairs. All cuts of a line are
made outside quotes, so every part that a line is taken apart into has its quotes in pairs when the
line has.
-/

namespace InputDeck.Scan

open InputDeck.Text InputDeck.Number

/-- The quotes of a text come in pairs. -/
def QuotesPaired (cs : List Char) : Prop := cs.count '"' % 2 = 0

instance (cs : List Char) : Decidable (QuotesPaired cs) := inferInstanceAs (Decidable (_ = _))

namespace QuotesPaired

variable {cs ds : List Char}

/-- A text without quotes has them in pairs. -/
theorem of_notMem (h : '"' ∉ cs) : QuotesPaired cs := by
  rw [QuotesPaired, List.count_eq_zero.2 h]

/-- Two texts with paired quotes make one. -/
theorem append (hcs : QuotesPaired cs) (hds : QuotesPaired ds) : QuotesPaired (cs ++ ds) := by
  rw [QuotesPaired, List.count_append]
  rw [QuotesPaired] at hcs hds
  omega

/-- What follows paired quotes has its quotes in pairs when the whole has. -/
theorem of_append_left (hcs : QuotesPaired cs) (h : QuotesPaired (cs ++ ds)) : QuotesPaired ds := by
  rw [QuotesPaired, List.count_append] at h
  rw [QuotesPaired] at hcs ⊢
  omega

/-- What stands in front of paired quotes has its quotes in pairs when the whole has. -/
theorem of_append_right (hds : QuotesPaired ds) (h : QuotesPaired (cs ++ ds)) :
    QuotesPaired cs := by
  rw [QuotesPaired, List.count_append] at h
  rw [QuotesPaired] at hds ⊢
  omega

/-- A character other than a quote changes nothing. -/
theorem cons_iff {c : Char} (hc : c ≠ '"') : QuotesPaired (c :: cs) ↔ QuotesPaired cs := by
  rw [QuotesPaired, List.count_cons_of_ne hc, QuotesPaired]

/-- A quote more pairs what is not paired, and the other way around. -/
theorem cons_quote_iff : QuotesPaired ('"' :: cs) ↔ ¬QuotesPaired cs := by
  rw [QuotesPaired, List.count_cons_self, QuotesPaired]
  omega

end QuotesPaired

/-- Quotes are open and closed by quotes alone. -/
theorem State.quoted_next (s : State) (c : Char) :
    (s.next c).quoted = (s.quoted ^^ c == '"') := by
  unfold State.next
  split
  · next hc => simp [hc]
  · next hc =>
    have hne : (c == '"') = false := by simp [hc]
    rw [hne, Bool.xor_false]
    repeat' split
    all_goals rfl

/-- Behind a character other than a quote, as much is quoted as in front of it. -/
theorem State.quoted_next_of_ne {s : State} {c : Char} (hc : c ≠ '"') :
    (s.next c).quoted = s.quoted := by
  have hne : (c == '"') = false := by simp [hc]
  rw [State.quoted_next, hne, Bool.xor_false]

/-- Behind a quote, the opposite is quoted. -/
theorem State.quoted_next_quote (s : State) : (s.next '"').quoted = !s.quoted := by
  simp [State.quoted_next]

/-- A quote is open behind a text when it was open before and the quotes of the text come in pairs,
or the other way around. -/
theorem State.quoted_after (s : State) (cs : List Char) :
    (s.after cs).quoted = (s.quoted ^^ !decide (QuotesPaired cs)) := by
  induction cs generalizing s with
  | nil => simp [QuotesPaired]
  | cons c cs ih =>
    rw [State.after_cons, ih, State.quoted_next]
    by_cases hc : c = '"'
    · subst hc
      by_cases hcs : QuotesPaired cs <;> simp [QuotesPaired.cons_quote_iff, hcs]
    · have hne : (c == '"') = false := by simp [hc]
      rw [hne, Bool.xor_false]
      simp [QuotesPaired.cons_iff hc]

/-- When no quote is open on either side of a text, its quotes come in pairs. -/
theorem quotesPaired_of_after {s : State} {cs : List Char} (hs : s.quoted = false)
    (h : (s.after cs).quoted = false) : QuotesPaired cs := by
  rw [State.quoted_after, hs] at h
  simpa using h

/-- A cut at an unquoted character is made where no quote is open. -/
theorem quoted_after_of_cutUnquoted {target : Char} {s : State} {cs before after : List Char}
    (h : cutUnquoted target s cs = some (before, after)) : (s.after before).quoted = false := by
  induction cs generalizing s before with
  | nil => simp [cutUnquoted] at h
  | cons c cs ih =>
    rw [cutUnquoted] at h
    split at h
    · next hc =>
      obtain ⟨rfl, rfl⟩ := Prod.mk.inj (Option.some.inj h)
      exact hc.2
    · obtain ⟨⟨b, a⟩, hcut, hparts⟩ := Option.map_eq_some_iff.1 h
      obtain ⟨rfl, rfl⟩ := Prod.mk.inj hparts
      rw [State.after_cons]
      exact ih hcut

/-- A closing bracket stands where no quote is open. -/
theorem quoted_after_of_cutClosing {s : State} {cs inner after : List Char}
    (h : cutClosing s cs = some (inner, after)) : (s.after inner).quoted = false := by
  induction cs generalizing s inner with
  | nil => simp [cutClosing] at h
  | cons c cs ih =>
    rw [cutClosing] at h
    split at h
    · next hc =>
      obtain ⟨rfl, rfl⟩ := Prod.mk.inj (Option.some.inj h)
      have hnormal := hc.2
      simp only [State.isNormal, Bool.and_eq_true, Bool.not_eq_true', State.quoted_next,
        hc.1] at hnormal
      simpa using hnormal.1
    · obtain ⟨⟨b, a⟩, hcut, hparts⟩ := Option.map_eq_some_iff.1 h
      obtain ⟨rfl, rfl⟩ := Prod.mk.inj hparts
      rw [State.after_cons]
      exact ih hcut

/-- An assignment sign stands where no quote is open. -/
theorem quoted_after_of_cutAssignment {front : Option Char} {s : State}
    {cs before after : List Char} (h : cutAssignment front s cs = some (before, after)) :
    (s.after before).quoted = false := by
  induction cs generalizing front s before with
  | nil => simp [cutAssignment] at h
  | cons c cs ih =>
    rw [cutAssignment] at h
    split at h
    · next hc =>
      obtain ⟨rfl, rfl⟩ := Prod.mk.inj (Option.some.inj h)
      exact hc.2.1
    · obtain ⟨⟨b, a⟩, hcut, hparts⟩ := Option.map_eq_some_iff.1 h
      obtain ⟨rfl, rfl⟩ := Prod.mk.inj hparts
      rw [State.after_cons]
      exact ih hcut

/-- What is left of a text without its unquoted blanks has its quotes in pairs. -/
theorem quotesPaired_of_stripUnquoted {cs stripped : List Char}
    (h : stripUnquoted cs = some stripped) : QuotesPaired stripped := by
  have hfrom : ∀ {cs stripped : List Char} {quoted : Bool},
      stripUnquotedFrom quoted cs = some stripped →
      stripped.count '"' % 2 = quoted.toNat := by
    intro cs
    induction cs with
    | nil =>
      intro stripped quoted h
      cases quoted with
      | true => cases h
      | false =>
        obtain rfl := Option.some.inj h
        rfl
    | cons c cs ih =>
      intro stripped quoted h
      rw [stripUnquotedFrom] at h
      split at h
      · next hc =>
        obtain ⟨rest, hrest, rfl⟩ := Option.map_eq_some_iff.1 h
        have := ih hrest
        rw [hc, List.count_cons_self]
        cases quoted <;> simp at this ⊢ <;> omega
      · next hc =>
        split at h
        · obtain ⟨rest, hrest, rfl⟩ := Option.map_eq_some_iff.1 h
          rw [List.count_cons_of_ne hc]
          exact ih hrest
        · exact ih h
  exact hfrom h

/-- A character goes on with the piece behind it, or is a separator outside quotes behind an empty
piece. -/
theorem splitFrom_cons_cases (sep : Char) (parens : Nat) (s : State) (c : Char) (cs : List Char) :
    (∃ parens' first others, splitFrom sep parens' (s.next c) cs = first :: others ∧
      splitFrom sep parens s (c :: cs) = (c :: first) :: others) ∨
    c = sep ∧ s.quoted = false ∧ ∃ parens' first others,
      splitFrom sep parens' (s.next c) cs = first :: others ∧
      splitFrom sep parens s (c :: cs) = [] :: first :: others := by
  have hpieces : ∀ parens', ∃ first others,
      splitFrom sep parens' (s.next c) cs = first :: others := fun parens' =>
    List.exists_cons_of_ne_nil (splitFrom_ne_nil sep parens' (s.next c) cs)
  have hhead : ∀ parens', ∃ parens'' first others,
      splitFrom sep parens'' (s.next c) cs = first :: others ∧
      (splitFrom sep parens' (s.next c) cs).modifyHead (c :: ·) = (c :: first) :: others := by
    intro parens'
    obtain ⟨first, others, hsplit⟩ := hpieces parens'
    exact ⟨parens', first, others, hsplit, by rw [hsplit, List.modifyHead_cons]⟩
  rw [splitFrom]
  split
  · next hnormal =>
    split
    · exact .inl (hhead _)
    · split
      · exact .inl (hhead _)
      · split
        · next hc =>
          simp only [State.isNormal, Bool.and_eq_true, Bool.not_eq_true'] at hnormal
          obtain ⟨first, others, hsplit⟩ := hpieces parens
          exact .inr ⟨hc.1, hnormal.1, parens, first, others, hsplit, by rw [hsplit]⟩
        · exact .inl (hhead _)
  · exact .inl (hhead _)

/-- When no quote is open behind a text, its first piece closes the quote that is open in front of
it, and all other pieces have their quotes in pairs. -/
theorem quotesPaired_of_splitFrom {sep : Char} (hsep : sep ≠ '"') {parens : Nat} {s : State}
    {cs first : List Char} {others : List (List Char)}
    (h : splitFrom sep parens s cs = first :: others) (hquoted : (s.after cs).quoted = false) :
    first.count '"' % 2 = s.quoted.toNat ∧ ∀ piece ∈ others, QuotesPaired piece := by
  induction cs generalizing parens s first others with
  | nil =>
    obtain ⟨rfl, rfl⟩ := List.cons.inj h
    rw [State.after_nil] at hquoted
    simp [hquoted]
  | cons c cs ih =>
    rw [State.after_cons] at hquoted
    rcases splitFrom_cons_cases sep parens s c cs with
      ⟨parens', next, rest, hsplit, hcons⟩ | ⟨rfl, hs, parens', next, rest, hsplit, hcons⟩
    · rw [hcons] at h
      obtain ⟨rfl, rfl⟩ := List.cons.inj h
      obtain ⟨hnext, hrest⟩ := ih hsplit hquoted
      refine ⟨?_, hrest⟩
      rw [State.quoted_next] at hnext
      by_cases hc : c = '"'
      · subst hc
        rw [List.count_cons_self]
        cases hs : s.quoted <;> simp [hs] at hnext ⊢ <;> omega
      · have hne : (c == '"') = false := by simp [hc]
        rw [hne, Bool.xor_false] at hnext
        rw [List.count_cons_of_ne hc, hnext]
    · rw [hcons] at h
      obtain ⟨rfl, rfl⟩ := List.cons.inj h
      obtain ⟨hnext, hrest⟩ := ih hsplit hquoted
      have hne : (c == '"') = false := by simp [hsep]
      rw [State.quoted_next, hs, hne] at hnext
      refine ⟨by simp [hs], fun piece hpiece => ?_⟩
      rcases List.mem_cons.1 hpiece with rfl | hpiece
      · exact hnext
      · exact hrest piece hpiece

/-- The pieces between the top-level separators of a text with paired quotes have them in pairs. -/
theorem quotesPaired_of_mem_splitTopLevel {sep : Char} {cs piece : List Char} (hsep : sep ≠ '"')
    (hcs : QuotesPaired cs) (h : piece ∈ splitTopLevel sep cs) : QuotesPaired piece := by
  have hafter : (({} : State).after cs).quoted = false := by
    rw [State.quoted_after]
    simpa using hcs
  obtain ⟨first, others, hsplit⟩ := List.exists_cons_of_ne_nil (splitFrom_ne_nil sep 0 {} cs)
  obtain ⟨hfirst, hothers⟩ := quotesPaired_of_splitFrom hsep hsplit hafter
  rw [splitTopLevel, hsplit] at h
  rcases List.mem_cons.1 h with rfl | h
  · exact hfirst
  · exact hothers piece h

/-- What is left of a text without its unquoted blanks are characters of it. -/
theorem subset_of_stripUnquoted {cs stripped : List Char} (h : stripUnquoted cs = some stripped) :
    stripped ⊆ cs := by
  have hfrom : ∀ {cs stripped : List Char} {quoted : Bool},
      stripUnquotedFrom quoted cs = some stripped → stripped ⊆ cs := by
    intro cs
    induction cs with
    | nil =>
      intro stripped quoted h
      cases quoted with
      | true => cases h
      | false =>
        obtain rfl := Option.some.inj h
        exact List.Subset.refl []
    | cons c cs ih =>
      intro stripped quoted h
      rw [stripUnquotedFrom] at h
      repeat' split at h
      · obtain ⟨rest, hrest, rfl⟩ := Option.map_eq_some_iff.1 h
        exact List.cons_subset_cons c (ih hrest)
      · obtain ⟨rest, hrest, rfl⟩ := Option.map_eq_some_iff.1 h
        exact List.cons_subset_cons c (ih hrest)
      · exact List.subset_cons_of_subset c (ih h)
  exact hfrom h

/-- The pieces between the top-level separators of a text have characters of the text. -/
theorem subset_of_mem_splitTopLevel {sep : Char} {cs piece : List Char}
    (h : piece ∈ splitTopLevel sep cs) : piece ⊆ cs := by
  have hfrom : ∀ {cs : List Char} {parens : Nat} {s : State} {piece : List Char},
      piece ∈ splitFrom sep parens s cs → piece ⊆ cs := by
    intro cs
    induction cs with
    | nil =>
      intro parens s piece h
      obtain rfl := List.mem_singleton.1 h
      exact List.Subset.refl []
    | cons c cs ih =>
      intro parens s piece h
      rcases splitFrom_cons_cases sep parens s c cs with
        ⟨parens', next, rest, hsplit, hcons⟩ | ⟨-, -, parens', next, rest, hsplit, hcons⟩
      · rw [hcons] at h
        rcases List.mem_cons.1 h with rfl | h
        · exact List.cons_subset_cons c (ih (by rw [hsplit]; exact List.mem_cons_self))
        · exact List.subset_cons_of_subset c (ih (by rw [hsplit]; exact List.mem_cons_of_mem _ h))
      · rw [hcons, ← hsplit] at h
        rcases List.mem_cons.1 h with rfl | h
        · exact List.nil_subset _
        · exact List.subset_cons_of_subset c (ih h)
  exact hfrom h

/-- Every character is a separator or belongs to a piece. -/
theorem length_flatten_splitFrom (sep : Char) (parens : Nat) (s : State) (cs : List Char) :
    (splitFrom sep parens s cs).flatten.length + (splitFrom sep parens s cs).length =
      cs.length + 1 := by
  have hhead : ∀ (c : Char) {pieces : List (List Char)}, pieces ≠ [] →
      (pieces.modifyHead (c :: ·)).flatten.length + (pieces.modifyHead (c :: ·)).length =
        pieces.flatten.length + pieces.length + 1 := by
    intro c pieces hne
    obtain ⟨first, others, rfl⟩ := List.exists_cons_of_ne_nil hne
    simp
    omega
  induction cs generalizing parens s with
  | nil => rfl
  | cons c cs ih =>
    rw [List.length_cons, splitFrom]
    repeat' split
    all_goals first | rw [hhead c (splitFrom_ne_nil sep _ _ cs), ih] | skip
    have hrest := ih parens (s.next c)
    simp only [List.flatten_cons, List.nil_append, List.length_cons]
    omega

/-- A text has no more pieces than characters when none of them is empty. -/
theorem length_splitTopLevel_le {sep : Char} {cs : List Char}
    (h : ∀ piece ∈ splitTopLevel sep cs, piece ≠ []) :
    (splitTopLevel sep cs).length ≤ cs.length := by
  have htotal := length_flatten_splitFrom sep 0 {} cs
  have hpieces : ∀ {pieces : List (List Char)}, (∀ piece ∈ pieces, piece ≠ []) →
      pieces.length ≤ pieces.flatten.length := by
    intro pieces hne
    induction pieces with
    | nil => exact Nat.le_refl _
    | cons piece pieces ih =>
      have hpiece := List.length_pos_iff.2 (hne piece List.mem_cons_self)
      have hothers := ih fun other hother => hne other (List.mem_cons_of_mem _ hother)
      simp only [List.length_cons, List.flatten_cons, List.length_append]
      omega
  have hle := hpieces h
  have hpos := List.length_pos_iff.2 (splitFrom_ne_nil sep 0 {} cs)
  rw [splitTopLevel] at hle ⊢
  omega

/-- The text of the items of a list has characters of the value. -/
theorem subset_of_listText? {value items : List Char} (h : CardLine.listText? value = some items) :
    items ⊆ value := by
  unfold CardLine.listText? at h
  split at h
  · next inner hinner =>
    obtain rfl := Option.some.inj h
    unfold bracketLiteral? at hinner
    split at hinner
    · next rest =>
      split at hinner
      · next inner' hcut =>
        obtain rfl := Option.some.inj hinner
        rw [eq_append_of_cutClosing hcut]
        exact List.subset_cons_of_subset _ (List.subset_append_left _ _)
      · cases hinner
    · cases hinner
  · split at h
    · obtain rfl := Option.some.inj h
      exact List.Subset.refl _
    · cases h

/-- The text of the items of a list has its quotes in pairs when the value has. -/
theorem quotesPaired_of_listText? {value items : List Char} (hvalue : QuotesPaired value)
    (h : CardLine.listText? value = some items) : QuotesPaired items := by
  unfold CardLine.listText? at h
  split at h
  · next inner hinner =>
    obtain rfl := Option.some.inj h
    unfold bracketLiteral? at hinner
    split at hinner
    · next rest =>
      split at hinner
      · next inner' hcut =>
        obtain rfl := Option.some.inj hinner
        exact quotesPaired_of_after rfl (quoted_after_of_cutClosing hcut)
      · cases hinner
    · cases hinner
  · split at h
    · obtain rfl := Option.some.inj h
      exact hvalue
    · cases h

end InputDeck.Scan
