import InputDeck.Proofs.Text.Enclosed

/-!
# Balanced texts

Reading a text from the left, a count tells whether its brackets come in pairs; seen from outside,
they do when the text without its quoted parts is balanced: a row of characters that are no brackets
and of balanced texts in brackets. Quotes keep brackets from counting, and brackets do not keep
quotes from doing so.
-/

namespace InputDeck.Scan

open InputDeck.Text

variable {s : State} {c : Char} {cs inner after : List Char}

/-- A text in which every bracket has its partner. -/
inductive IsBalanced : List Char → Prop where
  /-- The empty text. -/
  | nil : IsBalanced []
  /-- A character that is no bracket, in front of a balanced text. -/
  | other {c : Char} {cs : List Char} :
      c ≠ '[' → c ≠ ']' → IsBalanced cs → IsBalanced (c :: cs)
  /-- A balanced text in brackets, in front of another one. -/
  | bracket {inner rest : List Char} :
      IsBalanced inner → IsBalanced rest → IsBalanced ('[' :: inner ++ ']' :: rest)

/-! ## Partners of open brackets -/

/-- The last open bracket is closed by a bracket, and behind that one nothing is open. -/
theorem State.isNormal_next (hs : 0 < s.depth) (h : (s.next c).depth = 0) :
    c = ']' ∧ (s.next c).isNormal = true := by
  obtain ⟨quoted, depth⟩ := s
  have hdepth : depth ≠ 0 := Nat.pos_iff_ne_zero.1 hs
  unfold State.next at h ⊢
  by_cases hquote : c = '"'
  · simp [hquote, hdepth] at h
  · cases quoted with
    | true => simp [hquote, hdepth] at h
    | false =>
      by_cases hopen : c = '['
      · simp [hopen] at h
      · by_cases hclose : c = ']'
        · simpa [hclose, isNormal] using h
        · simp [hquote, hopen, hclose, hdepth] at h

/-- A bracket that is open in front of a text whose brackets come in pairs is closed by it, and so
are those of the text behind. -/
theorem exists_cutClosing_of_balancedFrom (hs : 0 < s.depth) (h : balancedFrom s cs = true) :
    ∃ inner after, cutClosing s cs = some (inner, after) ∧ bracketsBalanced after = true := by
  induction cs generalizing s with
  | nil => simp [balancedFrom, Nat.pos_iff_ne_zero.1 hs] at h
  | cons c cs ih =>
    rw [balancedFrom, Bool.and_eq_true] at h
    rw [cutClosing]
    by_cases hc : c = ']' ∧ (s.next c).isNormal = true
    · rw [State.eq_start hc.2] at h
      exact ⟨[], cs, if_pos hc, h.2⟩
    · have hdepth : 0 < (s.next c).depth :=
        Nat.pos_of_ne_zero fun hzero => hc (State.isNormal_next hs hzero)
      obtain ⟨inner, after, hcut, hafter⟩ := ih hdepth h.2
      exact ⟨c :: inner, after, by rw [if_neg hc, hcut]; rfl, hafter⟩

/-- When the brackets of a text come in pairs, the first one has its partner, and the brackets of
the text behind it come in pairs. -/
theorem exists_cutBracket {before afterOpen : List Char}
    (hopen : cutUnquoted '[' {} cs = some (before, afterOpen)) (h : bracketsBalanced cs = true) :
    ∃ inner after, cutBracket afterOpen = some (inner, after) ∧ bracketsBalanced after = true := by
  rw [bracketsBalanced, eq_append_of_cutUnquoted hopen] at h
  have hrest := balancedFrom_of_append h
  rw [after_cutUnquoted_eq hopen, balancedFrom, Bool.and_eq_true] at hrest
  exact exists_cutClosing_of_balancedFrom Nat.one_pos hrest.2

/-- The brackets of the text behind the first bracket come in pairs when those of the text do. -/
theorem bracketsBalanced_behind {before afterOpen : List Char}
    (hopen : cutUnquoted '[' {} cs = some (before, afterOpen))
    (hclose : cutBracket afterOpen = some (inner, after)) (h : bracketsBalanced cs = true) :
    bracketsBalanced after = true := by
  obtain ⟨inner', after', hcut, hafter⟩ := exists_cutBracket hopen h
  obtain ⟨rfl, rfl⟩ := Prod.mk.inj (Option.some.inj (hclose.symm.trans hcut))
  exact hafter

/-! ## Texts without quotes -/

/-- Outside quotes, other characters than quotes and brackets change nothing. -/
theorem State.next_other {depth : Nat} (hquote : c ≠ '"') (hopen : c ≠ '[') (hclose : c ≠ ']') :
    State.next ⟨false, depth⟩ c = ⟨false, depth⟩ := by
  simp [State.next, hquote, hopen, hclose]

/-- Whether brackets come in pairs is seen in what stands outside quotes. -/
theorem balancedFrom_outside (s : State) (cs : List Char) :
    balancedFrom ⟨false, s.depth⟩ (outside s.quoted cs) = balancedFrom s cs := by
  induction cs generalizing s with
  | nil => rfl
  | cons c cs ih =>
    obtain ⟨quoted, depth⟩ := s
    by_cases hquote : c = '"'
    · simpa [outside, balancedFrom, hquote, State.next] using ih ⟨!quoted, depth⟩
    · cases quoted with
      | true =>
        simpa [outside, balancedFrom, hquote, State.next, State.isNormal] using ih ⟨true, depth⟩
      | false =>
        have hquoted : (State.next ⟨false, depth⟩ c).quoted = false :=
          State.quoted_next_of_ne hquote
        have hrest := ih (State.next ⟨false, depth⟩ c)
        rw [hquoted, ← State.eq_of_quoted hquoted] at hrest
        rw [outside, if_neg hquote, if_neg (by simp), balancedFrom, balancedFrom, hrest]

/-- Behind a balanced text without quotes, the rest is read as it is by itself. -/
theorem IsBalanced.balancedFrom_append (h : IsBalanced cs) (hquote : '"' ∉ cs) (depth : Nat)
    (rest : List Char) :
    balancedFrom ⟨false, depth⟩ (cs ++ rest) = balancedFrom ⟨false, depth⟩ rest := by
  induction h generalizing depth rest with
  | nil => rfl
  | @other c cs hopen hclose _ ih =>
    obtain ⟨hc, hcs⟩ := not_or.1 (mt List.mem_cons.2 hquote)
    rw [List.cons_append, balancedFrom, State.next_other (Ne.symm hc) hopen hclose, ih hcs]
    simp [hclose]
  | @bracket inner rest' _ _ ihInner ihRest =>
    simp only [List.cons_append, List.mem_cons, List.mem_append, not_or] at hquote
    obtain ⟨-, hinner, -, hrest⟩ := hquote
    calc balancedFrom ⟨false, depth⟩ (('[' :: inner ++ ']' :: rest') ++ rest)
        = balancedFrom ⟨false, depth + 1⟩ (inner ++ (']' :: (rest' ++ rest))) := by
          simp [balancedFrom, State.next]
      _ = balancedFrom ⟨false, depth + 1⟩ (']' :: (rest' ++ rest)) := ihInner hinner _ _
      _ = balancedFrom ⟨false, depth⟩ (rest' ++ rest) := by
          simp [balancedFrom, State.next, State.isNormal]
      _ = balancedFrom ⟨false, depth⟩ rest := ihRest hrest _ _

/-- A text without quotes is balanced when its brackets come in pairs. -/
theorem isBalanced_of_bracketsBalanced {cs : List Char} (hquote : '"' ∉ cs)
    (h : bracketsBalanced cs = true) : IsBalanced cs := by
  -- The text in the first brackets is not an end of the whole, so this goes by the length.
  match cs with
  | [] => exact .nil
  | c :: cs =>
    obtain ⟨hc, hcs⟩ := not_or.1 (mt List.mem_cons.2 hquote)
    rw [bracketsBalanced, balancedFrom, Bool.and_eq_true] at h
    by_cases hopen : c = '['
    · subst hopen
      obtain ⟨inner, after, hcut, hafter⟩ := exists_cutClosing_of_balancedFrom Nat.one_pos h.2
      obtain ⟨rfl, henclosed⟩ := cutBracket_eq_some_iff.1 hcut
      simp only [List.mem_cons, List.mem_append, not_or] at hcs
      have hinner : IsBalanced inner :=
        isBalanced_of_bracketsBalanced hcs.1 henclosed.balanced
      have hrest : IsBalanced after := isBalanced_of_bracketsBalanced hcs.2.2 hafter
      exact .bracket hinner hrest
    · have hclose : c ≠ ']' := by
        rintro rfl
        exact absurd h.1 (by decide)
      rw [State.next_other (Ne.symm hc) hopen hclose] at h
      exact .other hopen hclose (isBalanced_of_bracketsBalanced hcs h.2)
termination_by cs.length
decreasing_by all_goals simp_all <;> omega

/-! ## Texts with quotes -/

/-- No quote stands outside quotes. -/
theorem quote_notMem_outside (quoted : Bool) (cs : List Char) : '"' ∉ outside quoted cs := by
  induction cs generalizing quoted with
  | nil => simp [outside]
  | cons c cs ih =>
    rw [outside]
    split
    · exact ih _
    · next hc =>
      split
      · exact ih _
      · exact not_or.2 ⟨Ne.symm hc, ih _⟩ ∘ List.mem_cons.1

/-- The brackets of a text come in pairs exactly when what stands outside its quotes is balanced. -/
theorem bracketsBalanced_iff : bracketsBalanced cs = true ↔ IsBalanced (outside false cs) := by
  have hquote := quote_notMem_outside false cs
  have houtside : bracketsBalanced (outside false cs) = bracketsBalanced cs :=
    balancedFrom_outside {} cs
  constructor
  · intro h
    exact isBalanced_of_bracketsBalanced hquote (houtside.trans h)
  · intro h
    have hall := h.balancedFrom_append hquote 0 []
    rw [List.append_nil] at hall
    exact houtside.symm.trans hall

/-- The bracket that closes another one stands behind a text with its quotes in pairs that is
balanced outside them, and its offset is the number of bytes in front of it. -/
theorem matchingBracket_eq_some_iff {front rest : List Char} {offset : Nat} :
    matchingBracket (front ++ '[' :: rest) (byteLength front) = some offset ↔
      ∃ inner after, rest = inner ++ ']' :: after ∧ QuotesPaired inner ∧
        IsBalanced (outside false inner) ∧ offset = byteLength (front ++ '[' :: inner) := by
  have hoffset : ∀ inner : List Char, byteLength front + '['.utf8Size + byteLength inner =
      byteLength (front ++ '[' :: inner) := by
    intro inner
    rw [byteLength_append, byteLength_cons, Nat.add_assoc]
  rw [matchingBracket, dropBytes_byteLength]
  simp only [Option.map_eq_some_iff, Prod.exists, hoffset]
  constructor
  · rintro ⟨inner, after, hcut, rfl⟩
    obtain ⟨rfl, henclosed⟩ := cutBracket_eq_some_iff.1 hcut
    exact ⟨inner, after, rfl, henclosed.paired, bracketsBalanced_iff.1 henclosed.balanced, rfl⟩
  · rintro ⟨inner, after, rfl, hpaired, hbalanced, rfl⟩
    exact ⟨inner, after,
      cutBracket_eq_some_iff.2 ⟨rfl, hpaired, bracketsBalanced_iff.2 hbalanced⟩, rfl⟩

end InputDeck.Scan
