import InputDeck.Proofs.Text.Enclosed

/-!
# Stripped texts

Stripping the blanks outside quotes takes away only characters that no scan of a text looks at. So
the same quotes and brackets are open at the same places of what is left, its brackets come in pairs
exactly when they did, and its pieces are the pieces of the text, each of them stripped by itself.
-/

namespace InputDeck.Scan

open InputDeck.Text

/-- What is left of a text without the blanks outside its quotes, when `quoted` is open in front of
it and whether or not a quote stays open. -/
def stripped (quoted : Bool) : List Char → List Char
  | [] => []
  | c :: cs =>
    if c = '"' then c :: stripped (!quoted) cs
    else if quoted || !isBlank c then c :: stripped quoted cs
    else stripped quoted cs

variable {s : State} {c sep : Char} {cs ds : List Char} {parens : Nat}

/-- A text is stripped as long as no quote stays open. -/
theorem stripUnquotedFrom_eq (quoted : Bool) (cs : List Char) :
    stripUnquotedFrom quoted cs =
      if cs.count '"' % 2 = quoted.toNat then some (stripped quoted cs) else none := by
  induction cs generalizing quoted with
  | nil => cases quoted <;> rfl
  | cons c cs ih =>
    rw [stripUnquotedFrom, stripped]
    by_cases hc : c = '"'
    · subst hc
      have hcount : ('"' :: cs).count '"' % 2 = quoted.toNat ↔
          cs.count '"' % 2 = (!quoted).toNat := by
        rw [List.count_cons_self]
        cases quoted <;> simp <;> omega
      rw [if_pos rfl, if_pos rfl, ih]
      by_cases h : cs.count '"' % 2 = (!quoted).toNat <;> simp only [hcount, h] <;> rfl
    · rw [if_neg hc, if_neg hc, List.count_cons_of_ne hc, ih]
      split <;> split <;> rfl

/-- A text with its quotes in pairs is stripped. -/
theorem stripUnquoted_eq_some (h : QuotesPaired cs) :
    stripUnquoted cs = some (stripped false cs) := by
  rw [stripUnquoted, stripUnquotedFrom_eq, if_pos (show _ = false.toNat from h)]

/-- A blank opens and closes nothing. -/
theorem State.next_of_isBlank (s : State) (h : isBlank c = true) : s.next c = s := by
  have hne : ∀ d, isBlank d = false → c ≠ d := by
    rintro d hd rfl
    rw [hd] at h
    cases h
  simp [State.next, hne '"' (by decide), hne '[' (by decide), hne ']' (by decide)]

/-- A character is either left, or is a blank that changes nothing of what is open. -/
theorem stripped_cases (s : State) (c : Char) :
    (∀ cs, stripped s.quoted (c :: cs) = c :: stripped (s.next c).quoted cs) ∨
      isBlank c = true ∧ s.next c = s ∧
        ∀ cs, stripped s.quoted (c :: cs) = stripped s.quoted cs := by
  by_cases hc : c = '"'
  · subst hc
    refine .inl fun cs => ?_
    rw [stripped, if_pos rfl, State.quoted_next_quote]
  · have hquoted := State.quoted_next_of_ne (s := s) hc
    cases hkept : s.quoted || !isBlank c with
    | true =>
      refine .inl fun cs => ?_
      rw [stripped, if_neg hc, hkept, if_pos rfl, hquoted]
    | false =>
      obtain ⟨hopen, hblank⟩ : s.quoted = false ∧ isBlank c = true := by simpa using hkept
      refine .inr ⟨hblank, State.next_of_isBlank s hblank, fun cs => ?_⟩
      rw [stripped, if_neg hc, hkept, if_neg (by simp)]

/-- Two texts one behind the other are stripped one by one. -/
theorem stripped_append (s : State) (cs ds : List Char) :
    stripped s.quoted (cs ++ ds) = stripped s.quoted cs ++ stripped (s.after cs).quoted ds := by
  induction cs generalizing s with
  | nil => rfl
  | cons c cs ih =>
    rw [List.cons_append, State.after_cons]
    rcases stripped_cases s c with hkept | ⟨-, hnext, hdropped⟩
    · rw [hkept, hkept, ih, List.cons_append]
    · rw [hdropped, hdropped, hnext, ih]

/-- The same is open behind a text when it is stripped. -/
theorem after_stripped (s : State) (cs : List Char) :
    s.after (stripped s.quoted cs) = s.after cs := by
  induction cs generalizing s with
  | nil => rfl
  | cons c cs ih =>
    rw [State.after_cons]
    rcases stripped_cases s c with hkept | ⟨-, hnext, hdropped⟩
    · rw [hkept, State.after_cons, ih]
    · rw [hdropped, ih, hnext]

/-- The quotes of a text come in pairs exactly when they do without its blanks. -/
theorem quotesPaired_stripped_iff : QuotesPaired (stripped false cs) ↔ QuotesPaired cs := by
  have hafter := congrArg State.quoted (after_stripped {} cs)
  rw [State.quoted_after, State.quoted_after] at hafter
  simpa using hafter

/-- Outside its quotes, a stripped text has the characters that are no blanks. -/
theorem outside_stripped (quoted : Bool) (cs : List Char) :
    outside quoted (stripped quoted cs) = withoutBlanks (outside quoted cs) := by
  induction cs generalizing quoted with
  | nil => rfl
  | cons c cs ih =>
    rw [stripped, outside]
    by_cases hc : c = '"'
    · rw [if_pos hc, if_pos hc, outside, if_pos hc, ih]
    · rw [if_neg hc, if_neg hc]
      cases quoted with
      | true => rw [if_pos (by simp), if_pos rfl, outside, if_neg hc, if_pos rfl, ih]
      | false =>
        cases hblank : isBlank c with
        | true => simp [ih, withoutBlanks, hblank]
        | false => simp [outside, hc, ih, withoutBlanks, hblank]

/-- Brackets come in pairs exactly when they do without the blanks. -/
theorem balancedFrom_stripped (s : State) (cs : List Char) :
    balancedFrom s (stripped s.quoted cs) = balancedFrom s cs := by
  induction cs generalizing s with
  | nil => rfl
  | cons c cs ih =>
    rcases stripped_cases s c with hkept | ⟨hblank, hnext, hdropped⟩
    · rw [hkept, balancedFrom, balancedFrom, ih]
    · have hclose : c ≠ ']' := by
        rintro rfl
        cases hblank
      rw [hdropped, ih, balancedFrom, hnext]
      simp [hclose]

/-- A text without a colon outside its quotes has none there without its blanks either. -/
theorem hasColon_stripped (h : ':' ∉ outside false cs) :
    CardLine.hasColon (stripped false cs) = false := by
  have hmem : ':' ∉ outside false (stripped false cs) := by
    rw [outside_stripped]
    exact fun hcolon => h (List.mem_filter.1 hcolon).1
  rw [CardLine.hasColon, cutUnquoted_eq_none (by decide) hmem]
  rfl

/-- A bracket can enclose a text when it can enclose it without its blanks. -/
theorem IsEnclosed.stripped (h : IsEnclosed cs) : IsEnclosed (stripped false cs) :=
  ⟨quotesPaired_stripped_iff.2 h.paired, (balancedFrom_stripped {} cs).trans h.balanced⟩

/-- Pieces of a text, each of them stripped; `quoted` is open in front of the first one. -/
def strippedPieces (quoted : Bool) : List (List Char) → List (List Char)
  | [] => []
  | first :: others => stripped quoted first :: others.map (stripped false)

/-- The pieces of a stripped text are the pieces of the text, each of them stripped. -/
theorem splitFrom_stripped (hsep : sep ≠ '"') (hblank : isBlank sep = false) (parens : Nat)
    (s : State) (cs : List Char) :
    splitFrom sep parens s (stripped s.quoted cs) =
      strippedPieces s.quoted (splitFrom sep parens s cs) := by
  induction cs generalizing parens s with
  | nil => rfl
  | cons c cs ih =>
    rcases stripped_cases s c with hkept | ⟨hc, hnext, hdropped⟩
    · have hhead : ∀ parens', (splitFrom sep parens' (s.next c)
          (stripped (s.next c).quoted cs)).modifyHead (c :: ·) =
          strippedPieces s.quoted ((splitFrom sep parens' (s.next c) cs).modifyHead (c :: ·)) := by
        intro parens'
        rw [ih]
        cases splitFrom sep parens' (s.next c) cs with
        | nil => rfl
        | cons first others => simp [strippedPieces, hkept]
      rw [hkept, splitFrom, splitFrom]
      simp only [hhead]
      split
      · next hnormal =>
        split
        · rfl
        · split
          · rfl
          · split
            · next hsplit =>
              have hquoted : (s.next c).quoted = false := by
                simp only [State.isNormal, Bool.and_eq_true, Bool.not_eq_true'] at hnormal
                rw [State.quoted_next_of_ne (hsplit.1 ▸ hsep)]
                exact hnormal.1
              rw [ih, hquoted]
              cases splitFrom sep parens (s.next c) cs <;> rfl
            · rfl
      · rfl
    · have hne : ∀ d, isBlank d = false → c ≠ d := by
        rintro d hd rfl
        rw [hd] at hc
        cases hc
      have hcons : splitFrom sep parens s (c :: cs) =
          (splitFrom sep parens s cs).modifyHead (c :: ·) := by
        rw [splitFrom, hnext]
        simp [hne '(' (by decide), hne ')' (by decide), hne sep hblank]
      rw [hdropped, ih, hcons]
      cases splitFrom sep parens s cs with
      | nil => rfl
      | cons first others => simp [strippedPieces, hdropped]

/-- Between its top-level separators, a stripped text has the stripped pieces of the text. -/
theorem splitTopLevel_stripped (hsep : sep ≠ '"') (hblank : isBlank sep = false) (cs : List Char) :
    splitTopLevel sep (stripped false cs) = (splitTopLevel sep cs).map (stripped false) := by
  obtain ⟨first, others, hsplit⟩ := List.exists_cons_of_ne_nil (splitFrom_ne_nil sep 0 {} cs)
  have hfrom := splitFrom_stripped hsep hblank 0 {} cs
  rw [hsplit] at hfrom
  rw [splitTopLevel, splitTopLevel, hsplit]
  exact hfrom

/-- A piece that is not blank is not empty when it is stripped. -/
theorem stripped_ne_nil (h : c ∈ cs) (hc : isBlank c = false) (quoted : Bool) :
    stripped quoted cs ≠ [] := by
  induction cs generalizing quoted with
  | nil => cases h
  | cons d cs ih =>
    rw [stripped]
    split
    · exact List.cons_ne_nil _ _
    · split
      · exact List.cons_ne_nil _ _
      · next hdropped =>
        refine ih ((List.mem_cons.1 h).resolve_left ?_) quoted
        rintro rfl
        simp [hc] at hdropped

/-! ## Lists -/

/-- While a bracket is open, no separator is at the top level. -/
theorem splitFrom_append_of_balanced {inner : List Char} (h : balancedFrom s inner = true)
    (parens : Nat) (ds : List Char) :
    splitFrom sep parens ⟨s.quoted, s.depth + 1⟩ (inner ++ ds) =
      (splitFrom sep parens ⟨(s.after inner).quoted, (s.after inner).depth + 1⟩ ds).modifyHead
        (inner ++ ·) := by
  induction inner generalizing s with
  | nil =>
    rw [List.nil_append, State.after_nil]
    cases splitFrom sep parens ⟨s.quoted, s.depth + 1⟩ ds <;> rfl
  | cons c inner ih =>
    rw [balancedFrom, Bool.and_eq_true] at h
    have hclose : ¬(c = ']' ∧ s.isNormal = true) := by
      rintro ⟨rfl, hnormal⟩
      simp [hnormal] at h
    rw [List.cons_append, splitFrom, if_neg (by simp [State.isNormal]), State.next_deeper hclose,
      ih h.2, State.after_cons]
    cases splitFrom sep parens _ ds <;> rfl

/-- A text that is one bracket has no top-level separator. -/
theorem hasTopLevel_of_isEnclosed {inner : List Char} (h : IsEnclosed inner) (hsep : sep ≠ '[') :
    hasTopLevel sep ('[' :: inner ++ [']']) = false := by
  have hquoted : (State.after {} inner).quoted = false := by
    simp [State.quoted_after, h.paired]
  have hinner : splitFrom sep 0 ⟨false, 0 + 1⟩ (inner ++ [']']) = _ :=
    splitFrom_append_of_balanced h.balanced 0 [']']
  have hclose : ∀ depth, splitFrom sep 0 ⟨false, depth + 1⟩ [']'] = [[']']] := by
    intro depth
    rw [splitFrom, if_neg (by simp [State.isNormal])]
    rfl
  rw [hquoted, hclose] at hinner
  have hopen : State.next {} '[' = ⟨false, 0 + 1⟩ := rfl
  rw [hasTopLevel, splitTopLevel, List.cons_append, splitFrom,
    if_pos (show State.isNormal {} = true from rfl), if_neg (by decide), if_neg (by decide),
    if_neg fun h => hsep h.1.symm, hopen, hinner]
  rfl

/-- The items of a list are the same without the blanks, each of them stripped. -/
theorem listText?_stripped {items : List Char} (h : CardLine.listText? cs = some items) :
    CardLine.listText? (stripped false cs) = some (stripped false items) := by
  rw [CardLine.listText?] at h ⊢
  cases hliteral : bracketLiteral? cs with
  | some inner =>
    obtain ⟨rfl, henclosed⟩ := bracketLiteral?_eq_some_iff.1 hliteral
    rw [hliteral] at h
    obtain rfl := Option.some.inj h
    have hquoted : (State.after {} inner).quoted = false := by
      simp [State.quoted_after, henclosed.paired]
    have hstripped : stripped false ('[' :: inner ++ [']']) =
        '[' :: stripped false inner ++ [']'] := by
      have happend := stripped_append {} inner [']']
      rw [hquoted] at happend
      exact congrArg ('[' :: ·) happend
    rw [bracketLiteral?_eq_some_iff.2 ⟨hstripped, henclosed.stripped⟩]
  | none =>
    rw [hliteral] at h
    have hcomma : hasTopLevel ',' cs = true := by
      cases hcomma : hasTopLevel ',' cs with
      | true => rfl
      | false => simp [hcomma] at h
    simp only [hcomma, if_true] at h
    obtain rfl := Option.some.inj h
    have hstripped : hasTopLevel ',' (stripped false cs) = true := by
      rw [hasTopLevel, splitTopLevel_stripped (by decide) (by decide), List.length_map]
      exact hcomma
    cases hother : bracketLiteral? (stripped false cs) with
    | none => simp [hstripped]
    | some inner =>
      obtain ⟨hbracket, henclosed⟩ := bracketLiteral?_eq_some_iff.1 hother
      rw [hbracket, hasTopLevel_of_isEnclosed henclosed (by decide)] at hstripped
      cases hstripped

end InputDeck.Scan
