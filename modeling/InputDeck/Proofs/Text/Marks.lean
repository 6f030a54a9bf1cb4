import InputDeck.Proofs.Text.Visible
import InputDeck.Settings

/-!
# Usable marks

A deck is structured by four characters of the settings. They can be told from each other and from
what stands in names, numbers and statements when they are different and when none of them has
another meaning.
-/

namespace InputDeck.Settings

/-- The characters other than letters, digits and blanks that names, numbers, headers and the
statements of cards are made of. -/
def reserved : List Char := ['_', '"', '=', '/', '.', ',', ':', '[', ']', '(', ')', '+', '-', '*']

/-- Whether a character has no other meaning. -/
structure IsMark (c : Char) : Prop where
  /-- It is no letter and no digit. -/
  isAlphanum : c.isAlphanum = false
  /-- It is no blank. -/
  isBlank : Text.isBlank c = false
  /-- It is no other character of statements. -/
  notMem : c ∉ reserved

/-- Settings whose characters are different and have no other meaning. -/
structure IsUsable (settings : Settings) : Prop where
  /-- The comment mark has no other meaning. -/
  comment : IsMark settings.commentMark
  /-- The continuation mark has no other meaning. -/
  continuation : IsMark settings.continuationMark
  /-- The character that opens headers has no other meaning. -/
  suitOpen : IsMark settings.suitOpen
  /-- The character that closes headers has no other meaning. -/
  suitClose : IsMark settings.suitClose
  /-- They are four characters. -/
  nodup : [settings.commentMark, settings.continuationMark, settings.suitOpen,
    settings.suitClose].Nodup

instance (c : Char) : Decidable (IsMark c) :=
  decidable_of_iff (c.isAlphanum = false ∧ Text.isBlank c = false ∧ c ∉ reserved)
    ⟨fun ⟨halphanum, hblank, hmem⟩ => ⟨halphanum, hblank, hmem⟩,
      fun ⟨halphanum, hblank, hmem⟩ => ⟨halphanum, hblank, hmem⟩⟩

instance (settings : Settings) : Decidable settings.IsUsable :=
  decidable_of_iff (IsMark settings.commentMark ∧ IsMark settings.continuationMark ∧
      IsMark settings.suitOpen ∧ IsMark settings.suitClose ∧ [settings.commentMark,
        settings.continuationMark, settings.suitOpen, settings.suitClose].Nodup)
    ⟨fun ⟨hcomment, hcontinuation, hopen, hclose, hnodup⟩ =>
        ⟨hcomment, hcontinuation, hopen, hclose, hnodup⟩,
      fun ⟨hcomment, hcontinuation, hopen, hclose, hnodup⟩ =>
        ⟨hcomment, hcontinuation, hopen, hclose, hnodup⟩⟩

/-- The usual characters are different and have no other meaning. -/
theorem isUsable_default : IsUsable {} := by decide

namespace IsMark

variable {c : Char}

/-- A mark is no reserved character. -/
theorem ne (h : IsMark c) {d : Char} (hd : d ∈ reserved) : c ≠ d := by
  rintro rfl
  exact h.notMem hd

/-- A mark is no space. -/
theorem ne_space (h : IsMark c) : c ≠ ' ' := by
  rintro rfl
  have := h.isBlank
  revert this
  decide

/-- No name has a mark. -/
theorem isNamePart (h : IsMark c) : Token.isNamePart c = false := by
  simp [Token.isNamePart, h.isAlphanum, h.ne (d := '_') (by decide)]

/-- No name begins with a mark. -/
theorem ne_of_isNameStart (h : IsMark c) {d : Char} (hd : Token.isNameStart d = true) : d ≠ c := by
  rintro rfl
  have hpart := Token.isNamePart_of_isNameStart hd
  rw [h.isNamePart] at hpart
  cases hpart

end IsMark

namespace IsUsable

variable {settings : Settings}

/-- No comment mark opens or closes a header. -/
theorem commentMark_ne (h : settings.IsUsable) :
    settings.suitOpen ≠ settings.commentMark ∧ settings.commentMark ≠ settings.suitClose := by
  have := h.nodup
  simp only [List.nodup_cons, List.mem_cons, List.not_mem_nil, or_false, not_or] at this
  exact ⟨fun he => this.1.2.1 he.symm, this.1.2.2⟩

/-- No line goes on behind the end of a header. -/
theorem suitClose_ne (h : settings.IsUsable) : settings.suitClose ≠ settings.continuationMark := by
  have := h.nodup
  simp only [List.nodup_cons, List.mem_cons, List.not_mem_nil, or_false, not_or] at this
  exact fun he => this.2.1.2 he.symm

end IsUsable

end InputDeck.Settings
