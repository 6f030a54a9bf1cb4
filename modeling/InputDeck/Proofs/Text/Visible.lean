import InputDeck.Expr.Lexing

/-!
# Visible characters

The characters of names and of numerals are visible ASCII characters, so none of them is a blank,
and the classes that begin tokens are told apart by their code points.
-/

namespace InputDeck

/-- The only blanks of a text are spaces. -/
def Text.IsPlain (cs : List Char) : Prop := ∀ c ∈ cs, isBlank c = true → c = ' '

instance : DecidablePred Text.IsPlain := fun cs =>
  List.decidableBAll (fun c => Text.isBlank c = true → c = ' ') cs

namespace Text.IsPlain

variable {cs ds : List Char}

/-- A text without blanks is plain. -/
theorem of_isBlank (h : ∀ c ∈ cs, isBlank c = false) : IsPlain cs := by
  intro c hc hblank
  rw [h c hc] at hblank
  cases hblank

/-- Two plain texts make one. -/
theorem append (hcs : IsPlain cs) (hds : IsPlain ds) : IsPlain (cs ++ ds) := fun c hc =>
  (List.mem_append.1 hc).elim (hcs c) (hds c)

/-- What has characters of a plain text is plain. -/
theorem of_subset (h : IsPlain cs) (hds : ds ⊆ cs) : IsPlain ds := fun c hc => h c (hds hc)

/-- No line ends in a plain text. -/
theorem newline_notMem (h : IsPlain cs) : '\n' ∉ cs := fun hc => by
  have := h _ hc (by decide)
  revert this
  decide

/-- No carriage return stands in a plain text. -/
theorem return_notMem (h : IsPlain cs) : '\r' ∉ cs := fun hc => by
  have := h _ hc (by decide)
  revert this
  decide

end Text.IsPlain

/-- A text without its blanks other than spaces. -/
def Text.toPlain (cs : List Char) : List Char := cs.filter fun c => c == ' ' || !isBlank c

theorem Text.toPlain_append (cs ds : List Char) : toPlain (cs ++ ds) = toPlain cs ++ toPlain ds :=
  List.filter_append ..

/-- The only blanks that are left are spaces. -/
theorem Text.isPlain_toPlain (cs : List Char) : IsPlain (toPlain cs) := by
  intro c hc hblank
  simpa [hblank] using (List.mem_filter.1 hc).2

/-- Nothing is taken away exactly when the only blanks are spaces. -/
theorem Text.toPlain_eq_self_iff {cs : List Char} : toPlain cs = cs ↔ IsPlain cs := by
  rw [toPlain, List.filter_eq_self]
  refine forall₂_congr fun c _ => ?_
  cases isBlank c <;> simp

/-- No visible ASCII character is a blank. -/
theorem Text.isBlank_of_toNat {c : Char} (hlow : 32 < c.toNat) (hhigh : c.toNat < 127) :
    isBlank c = false := by
  simp only [isBlank, inRanges, blankRanges, List.any_cons, List.any_nil, Bool.or_false,
    Bool.or_eq_false_iff, Bool.and_eq_false_iff, decide_eq_false_iff_not]
  omega

/-- The code points of digits. -/
theorem Number.toNat_of_isDigit {c : Char} (h : c.isDigit = true) :
    48 ≤ c.toNat ∧ c.toNat ≤ 57 := by
  simpa [Char.isDigit, UInt32.le_iff_toNat_le] using h

/-- A digit is no blank. -/
theorem Number.isBlank_of_isDigit {c : Char} (h : c.isDigit = true) : Text.isBlank c = false := by
  have := toNat_of_isDigit h
  exact Text.isBlank_of_toNat (by omega) (by omega)

namespace Token

/-- The code points of letters. -/
theorem toNat_of_isAlpha {c : Char} (h : c.isAlpha = true) :
    (65 ≤ c.toNat ∧ c.toNat ≤ 90) ∨ (97 ≤ c.toNat ∧ c.toNat ≤ 122) := by
  have hranges : c.isAlpha = (decide (65 ≤ c.val ∧ c.val ≤ 90) ||
      (decide (97 ≤ c.val) && decide (c.val ≤ 122))) := rfl
  rw [hranges] at h
  simpa [UInt32.le_iff_toNat_le] using h

/-- The code points that names begin with. -/
theorem toNat_of_isNameStart {c : Char} (h : isNameStart c = true) :
    65 ≤ c.toNat ∧ c.toNat ≤ 122 := by
  simp only [isNameStart, Bool.or_eq_true, beq_iff_eq] at h
  rcases h with h | rfl
  · have := toNat_of_isAlpha h
    omega
  · decide

/-- The code points that names go on with. -/
theorem toNat_of_isNamePart {c : Char} (h : isNamePart c = true) :
    48 ≤ c.toNat ∧ c.toNat ≤ 122 := by
  simp only [isNamePart, Char.isAlphanum, Bool.or_eq_true, beq_iff_eq] at h
  rcases h with (h | h) | rfl
  · have := toNat_of_isAlpha h
    omega
  · have := Number.toNat_of_isDigit h
    omega
  · decide

/-- No character of a name is a blank. -/
theorem isBlank_of_isNamePart {c : Char} (h : isNamePart c = true) : Text.isBlank c = false := by
  have := toNat_of_isNamePart h
  exact Text.isBlank_of_toNat (by omega) (by omega)

/-- What begins a name can go on with it. -/
theorem isNamePart_of_isNameStart {c : Char} (h : isNameStart c = true) : isNamePart c = true := by
  simp only [isNameStart, Bool.or_eq_true] at h
  simp only [isNamePart, Char.isAlphanum, Bool.or_eq_true]
  exact h.imp_left .inl

/-- No number begins as a name does. -/
theorem startsNumber_of_isNameStart {c : Char} (h : isNameStart c = true) (afterName : Bool)
    (cs : List Char) : startsNumber afterName c cs = false := by
  have hc := toNat_of_isNameStart h
  have hdigit : c.isDigit = false := by
    apply Bool.eq_false_iff.2
    intro hdigit
    have := Number.toNat_of_isDigit hdigit
    omega
  have hdot : c ≠ '.' := by
    rintro rfl
    revert hc
    decide
  simp [startsNumber, hdigit, hdot]

end Token

end InputDeck
