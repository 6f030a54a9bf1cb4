import InputDeck.Proofs.Text.Outside

/-!
# Cuts of a text

What the cuts of a line find, said of the texts alone: a cut at a character is made at the first one
that stands outside quotes, and a cut at the bracket that closes an open one takes a text whose
quotes and brackets come in pairs. A text whose brackets come in pairs can be read in parts: what
stands behind a part closes the brackets that the part leaves open, and behind a cut nothing is
open.
-/

namespace InputDeck.Scan

open InputDeck.Text

variable {target c : Char} {s : State} {cs ds before inner after : List Char}

/-! ## Characters outside quotes -/

/-- A character that is not the one looked for, or is quoted, adds no place where it stands. -/
private theorem notMem_outside_cons (hc : ¬(c = target ∧ s.quoted = false))
    (h : target ∉ outside (s.next c).quoted cs) : target ∉ outside s.quoted (c :: cs) := by
  rw [State.quoted_next] at h
  rw [outside]
  by_cases hquote : c = '"'
  · simpa [hquote] using h
  · have hne : (c == '"') = false := by simp [hquote]
    rw [hne, Bool.xor_false] at h
    rw [if_neg hquote]
    split
    · exact h
    · next hquoted =>
      refine fun hmem => (List.mem_cons.1 hmem).elim (fun htarget => ?_) h
      exact hc ⟨htarget.symm, by simpa using hquoted⟩

/-- In front of a cut, the character that is looked for does not stand outside quotes. -/
theorem notMem_outside_of_cutUnquoted (h : cutUnquoted target s cs = some (before, after)) :
    target ∉ outside s.quoted before := by
  induction cs generalizing s before with
  | nil => cases h
  | cons c cs ih =>
    rw [cutUnquoted] at h
    split at h
    · obtain ⟨rfl, rfl⟩ := Prod.mk.inj (Option.some.inj h)
      simp [outside]
    · next hc =>
      obtain ⟨⟨b, a⟩, hcut, hparts⟩ := Option.map_eq_some_iff.1 h
      obtain ⟨rfl, rfl⟩ := Prod.mk.inj hparts
      exact notMem_outside_cons hc (ih hcut)

/-- A cut is made at the first of the characters that stands outside quotes. -/
theorem cutUnquoted_eq_some_iff (htarget : target ≠ '"') :
    cutUnquoted target s cs = some (before, after) ↔
      cs = before ++ target :: after ∧ (s.after before).quoted = false ∧
        target ∉ outside s.quoted before := by
  constructor
  · exact fun h => ⟨eq_append_of_cutUnquoted h, quoted_after_of_cutUnquoted h,
      notMem_outside_of_cutUnquoted h⟩
  · rintro ⟨rfl, hquoted, hbefore⟩
    rw [cutUnquoted_append (cutUnquoted_eq_none htarget hbefore), cutUnquoted,
      if_pos ⟨rfl, hquoted⟩]
    simp

/-- There is no cut exactly when the character does not stand outside quotes. -/
theorem cutUnquoted_eq_none_iff (htarget : target ≠ '"') :
    cutUnquoted target s cs = none ↔ target ∉ outside s.quoted cs := by
  refine ⟨fun h => ?_, cutUnquoted_eq_none htarget⟩
  induction cs generalizing s with
  | nil => simp [outside]
  | cons c cs ih =>
    rw [cutUnquoted] at h
    split at h
    · cases h
    · next hc => exact notMem_outside_cons hc (ih (Option.map_eq_none_iff.1 h))

/-! ## Enclosed texts -/

/-- A text that a bracket can enclose: its quotes and its brackets come in pairs. -/
structure IsEnclosed (cs : List Char) : Prop where
  /-- Its quotes come in pairs. -/
  paired : QuotesPaired cs
  /-- Its brackets come in pairs. -/
  balanced : bracketsBalanced cs = true

/-- Except for a closing bracket when nothing is open, a character changes what is open alike when
one more bracket is. -/
theorem State.next_deeper (hc : ¬(c = ']' ∧ s.isNormal = true)) (count : Nat) :
    State.next ⟨s.quoted, s.depth + count⟩ c = ⟨(s.next c).quoted, (s.next c).depth + count⟩ := by
  obtain ⟨quoted, depth⟩ := s
  unfold State.next
  by_cases hquote : c = '"'
  · simp [hquote]
  · cases quoted with
    | true => simp [hquote]
    | false =>
      by_cases hopen : c = '['
      · simp [hopen, Nat.add_right_comm]
      · by_cases hclose : c = ']'
        · subst hclose
          have hpositive : depth ≠ 0 := by simpa [State.isNormal] using hc
          have hsub : depth + count - 1 = depth - 1 + count := by omega
          simp [hsub]
        · simp [hquote, hopen, hclose]

/-- The closing bracket of an open one stands behind a text that closes all other brackets. -/
theorem cutClosing_eq_some_iff : cutClosing ⟨s.quoted, s.depth + 1⟩ cs = some (inner, after) ↔
    cs = inner ++ ']' :: after ∧ (s.after inner).quoted = false ∧
      balancedFrom s inner = true := by
  induction cs generalizing s inner with
  | nil => simp [cutClosing]
  | cons c cs ih =>
    by_cases hc : c = ']' ∧ s.isNormal = true
    · obtain ⟨rfl, hnormal⟩ := hc
      obtain ⟨hquoted, hdepth⟩ : s.quoted = false ∧ s.depth = 0 := by
        simpa [State.isNormal] using hnormal
      rw [cutClosing, if_pos (by simp [State.next, State.isNormal, hquoted, hdepth])]
      cases inner with
      | nil => simp [balancedFrom, hquoted, hdepth]
      | cons d inner =>
        simp only [balancedFrom, List.cons_append, List.cons.injEq]
        constructor
        · simp
        · rintro ⟨⟨rfl, -⟩, -, hclosed⟩
          simp [hnormal] at hclosed
    · have hopen := State.next_deeper hc 1
      rw [cutClosing, hopen, if_neg (by simp [State.isNormal])]
      cases inner with
      | nil =>
        constructor
        · simp
        · rintro ⟨hsplit, hquoted, hdepth⟩
          refine absurd ⟨(List.cons.inj hsplit).1, ?_⟩ hc
          simpa [State.isNormal, balancedFrom] using And.intro hquoted hdepth
      | cons d inner =>
        simp only [Option.map_eq_some_iff, Prod.mk.injEq, List.cons.injEq, Prod.exists,
          List.cons_append, balancedFrom, State.after_cons]
        constructor
        · rintro ⟨b, a, hcut, ⟨rfl, rfl⟩, rfl⟩
          obtain ⟨rfl, hquoted, hbalanced⟩ := ih.1 hcut
          refine ⟨⟨rfl, rfl⟩, hquoted, ?_⟩
          rw [hbalanced, Bool.and_true, Bool.not_eq_true', Bool.and_eq_false_imp]
          exact fun hclose => by simpa using fun hnormal => hc ⟨by simpa using hclose, hnormal⟩
        · rintro ⟨⟨rfl, rfl⟩, hquoted, hbalanced⟩
          rw [Bool.and_eq_true] at hbalanced
          exact ⟨inner, after, ih.2 ⟨rfl, hquoted, hbalanced.2⟩, ⟨rfl, rfl⟩, rfl⟩

/-- A bracket ends behind the text that it encloses. -/
theorem cutBracket_eq_some_iff : cutBracket cs = some (inner, after) ↔
    cs = inner ++ ']' :: after ∧ IsEnclosed inner := by
  have hcut : cutBracket cs = some (inner, after) ↔ _ := cutClosing_eq_some_iff (s := {})
  rw [hcut, State.quoted_after]
  simp only [Bool.false_xor, Bool.not_eq_false', decide_eq_true_eq]
  exact and_congr_right fun _ => ⟨fun h => ⟨h.1, h.2⟩, fun h => ⟨h.paired, h.balanced⟩⟩

/-- A text is one bracket exactly when the bracket encloses all that is between its ends. -/
theorem bracketLiteral?_eq_some_iff :
    bracketLiteral? cs = some inner ↔ cs = '[' :: inner ++ [']'] ∧ IsEnclosed inner := by
  constructor
  · intro h
    unfold bracketLiteral? at h
    split at h
    · split at h
      · next found hcut =>
        obtain rfl := Option.some.inj h
        obtain ⟨rfl, henclosed⟩ := cutBracket_eq_some_iff.1 hcut
        exact ⟨rfl, henclosed⟩
      · cases h
    · cases h
  · rintro ⟨rfl, henclosed⟩
    have hcut : cutBracket (inner ++ [']']) = some (inner, []) :=
      cutBracket_eq_some_iff.2 ⟨rfl, henclosed⟩
    simp [bracketLiteral?, hcut]

/-! ## Open brackets -/

/-- A place where nothing is open is like the start of a text. -/
theorem State.eq_start (h : s.isNormal = true) : s = {} := by
  obtain ⟨_ | _, _ | _⟩ := s <;> first | rfl | cases h

/-- Outside quotes, only the number of open brackets counts. -/
theorem State.eq_of_quoted (h : s.quoted = false) : s = ⟨false, s.depth⟩ := by
  rw [← h]

/-- A text that closes all brackets leaves none open. -/
theorem depth_of_balancedFrom (h : balancedFrom s cs = true) : (s.after cs).depth = 0 := by
  induction cs generalizing s with
  | nil => simpa [balancedFrom] using h
  | cons c cs ih =>
    rw [balancedFrom, Bool.and_eq_true] at h
    exact ih h.2

/-- What stands behind a part of a text closes the brackets that the part leaves open. -/
theorem balancedFrom_of_append (h : balancedFrom s (cs ++ ds) = true) :
    balancedFrom (s.after cs) ds = true := by
  induction cs generalizing s with
  | nil => exact h
  | cons c cs ih =>
    rw [List.cons_append, balancedFrom, Bool.and_eq_true] at h
    exact ih h.2

/-- A part of a text that leaves no bracket open has its brackets in pairs. -/
theorem balancedFrom_of_append_of_depth (h : balancedFrom s (cs ++ ds) = true)
    (hdepth : (s.after cs).depth = 0) : balancedFrom s cs = true := by
  induction cs generalizing s with
  | nil => simpa [balancedFrom] using hdepth
  | cons c cs ih =>
    rw [List.cons_append, balancedFrom, Bool.and_eq_true] at h
    rw [balancedFrom, h.1, Bool.true_and]
    exact ih h.2 hdepth

/-- Behind a text with its brackets in pairs, another one is read as it is by itself. -/
theorem balancedFrom_append (h : balancedFrom s cs = true) (ds : List Char) :
    balancedFrom s (cs ++ ds) = balancedFrom (s.after cs) ds := by
  induction cs generalizing s with
  | nil => rfl
  | cons c cs ih =>
    rw [balancedFrom, Bool.and_eq_true] at h
    rw [List.cons_append, balancedFrom, h.1, Bool.true_and, ih h.2]
    rfl

/-- A part of a text that closes no bracket in front of it does the same when more are open. -/
theorem after_of_balancedFrom (h : balancedFrom s (cs ++ ds) = true) (count : Nat) :
    State.after ⟨s.quoted, s.depth + count⟩ cs =
      ⟨(s.after cs).quoted, (s.after cs).depth + count⟩ := by
  induction cs generalizing s with
  | nil => rfl
  | cons c cs ih =>
    rw [List.cons_append, balancedFrom, Bool.and_eq_true] at h
    have hclose : ¬(c = ']' ∧ s.isNormal = true) := by
      rintro ⟨rfl, hnormal⟩
      simp [hnormal] at h
    rw [State.after_cons, State.next_deeper hclose, ih h.2, State.after_cons]

/-- In front of its first bracket a text leaves none open. -/
theorem depth_after_of_cutUnquoted {before afterOpen : List Char} (hs : s.depth = 0)
    (h : cutUnquoted '[' s cs = some (before, afterOpen)) : (s.after before).depth = 0 := by
  induction cs generalizing s before with
  | nil => cases h
  | cons c cs ih =>
    rw [cutUnquoted] at h
    split at h
    · obtain ⟨rfl, rfl⟩ := Prod.mk.inj (Option.some.inj h)
      exact hs
    · next hc =>
      obtain ⟨⟨b, a⟩, hcut, hparts⟩ := Option.map_eq_some_iff.1 h
      obtain ⟨rfl, rfl⟩ := Prod.mk.inj hparts
      refine ih (s := s.next c) ?_ hcut
      obtain ⟨quoted, depth⟩ := s
      obtain rfl : depth = 0 := hs
      cases quoted with
      | true =>
        unfold State.next
        by_cases hquote : c = '"' <;> simp [hquote]
      | false =>
        have hopen : c ≠ '[' := fun he => hc ⟨he, rfl⟩
        unfold State.next
        by_cases hquote : c = '"' <;> by_cases hbracket : c = ']' <;>
          simp [hquote, hopen, hbracket]

/-- Nothing is open behind a closing bracket that is looked for. -/
theorem isNormal_of_cutClosing {inner after : List Char}
    (h : cutClosing s cs = some (inner, after)) : ((s.after inner).next ']').isNormal = true := by
  induction cs generalizing s inner with
  | nil => cases h
  | cons c cs ih =>
    rw [cutClosing] at h
    split at h
    · next hc =>
      obtain ⟨rfl, rfl⟩ := Prod.mk.inj (Option.some.inj h)
      rw [← hc.1]
      exact hc.2
    · obtain ⟨⟨b, a⟩, hcut, hparts⟩ := Option.map_eq_some_iff.1 h
      obtain ⟨rfl, rfl⟩ := Prod.mk.inj hparts
      exact ih (s := s.next c) hcut

/-- Nothing is open in front of the first bracket of a text. -/
theorem after_cutUnquoted_eq {afterOpen : List Char}
    (h : cutUnquoted '[' {} cs = some (before, afterOpen)) : State.after {} before = {} := by
  rw [State.eq_of_quoted (quoted_after_of_cutUnquoted h), depth_after_of_cutUnquoted rfl h]

/-- Nothing is open behind a bracket and the text that it encloses. -/
theorem after_cutBracket_eq (h : cutBracket cs = some (inner, after)) :
    State.after {} ('[' :: inner ++ [']']) = {} := by
  apply State.eq_start
  rw [List.cons_append, State.after_cons, State.after_append]
  exact isNormal_of_cutClosing h

end InputDeck.Scan
