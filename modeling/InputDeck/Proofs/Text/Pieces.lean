import InputDeck.Proofs.Text.Enclosed

/-!
# Pieces of a text

A text is cut at the separators behind which nothing is open: no quote, no bracket and no
parenthesis, where parentheses count only outside quotes and brackets. Cutting and joining are
inverse to each other in both directions. The pieces of a text make the text again, and none of them
can be cut further; texts that cannot be cut are the pieces of the text that they make, as long as
each of them but the last leaves nothing open. A text with its quotes, brackets and parentheses in
pairs leaves nothing open.
-/

namespace InputDeck.Scan

open InputDeck.Text

variable {sep c : Char} {s : State} {parens : Nat} {cs ds inner piece : List Char}
  {pieces others : List (List Char)}

/-! ## Open parentheses -/

/-- The number of open parentheses behind a character. -/
def State.nextParens (s : State) (parens : Nat) (c : Char) : Nat :=
  if s.isNormal then
    if c = '(' then parens + 1
    else if c = ')' then parens - 1
    else parens
  else parens

/-- The number of open parentheses behind a text. -/
def parensAfter (s : State) (parens : Nat) : List Char → Nat
  | [] => parens
  | c :: cs => parensAfter (s.next c) (s.nextParens parens c) cs

@[simp] theorem parensAfter_nil (s : State) (parens : Nat) : parensAfter s parens [] = parens := rfl

@[simp] theorem parensAfter_cons (s : State) (parens : Nat) (c : Char) (cs : List Char) :
    parensAfter s parens (c :: cs) = parensAfter (s.next c) (s.nextParens parens c) cs := rfl

/-- The parentheses of two texts one behind the other are counted one by one. -/
@[simp] theorem parensAfter_append (s : State) (parens : Nat) (cs ds : List Char) :
    parensAfter s parens (cs ++ ds) = parensAfter (s.after cs) (parensAfter s parens cs) ds := by
  induction cs generalizing s parens with
  | nil => rfl
  | cons c cs ih => exact ih (s.next c) (s.nextParens parens c)

/-- Parentheses do not count where a quote or a bracket is open. -/
theorem State.nextParens_of_open (hs : s.isNormal = false) (parens : Nat) (c : Char) :
    s.nextParens parens c = parens := by
  simp [nextParens, hs]

/-- Parentheses do not count between quotes. -/
theorem parensAfter_of_notMem (hopen : '(' ∉ outside s.quoted cs)
    (hclose : ')' ∉ outside s.quoted cs) (parens : Nat) : parensAfter s parens cs = parens := by
  induction cs generalizing s with
  | nil => rfl
  | cons c cs ih =>
    have hcount : s.nextParens parens c = parens := by
      cases hs : s.isNormal with
      | false => exact State.nextParens_of_open hs parens c
      | true =>
        have hquoted : s.quoted = false := by
          rw [State.isNormal, Bool.and_eq_true, Bool.not_eq_true'] at hs
          exact hs.1
        have hne : ∀ d, d ≠ '"' → d ∉ outside s.quoted (c :: cs) → c ≠ d := by
          rintro d hd hmem rfl
          exact hmem (mem_outside_cons hd hquoted cs)
        simp [State.nextParens, hne '(' (by decide) hopen, hne ')' (by decide) hclose]
    rw [parensAfter_cons, hcount]
    exact ih (fun hmem => hopen (outside_next_subset s c cs hmem))
      fun hmem => hclose (outside_next_subset s c cs hmem)

/-- Whether neither a quote nor a bracket nor a parenthesis is open behind a text. -/
structure LeavesNothingOpen (cs : List Char) : Prop where
  /-- No quote and no bracket. -/
  state : State.after {} cs = {}
  /-- No parenthesis. -/
  parens : parensAfter {} 0 cs = 0

/-! ## Cuts at separators -/

/-- A separator that is none of the characters that open something, and closes no parenthesis. -/
structure IsSeparator (sep : Char) : Prop where
  /-- It opens no quote. -/
  quote : sep ≠ '"'
  /-- It opens no bracket. -/
  bracket : sep ≠ '['
  /-- It opens no parenthesis. -/
  opening : sep ≠ '('
  /-- It closes no parenthesis. -/
  closing : sep ≠ ')'

/-- A comma separates. -/
theorem isSeparator_comma : IsSeparator ',' := ⟨by decide, by decide, by decide, by decide⟩

/-- Behind a separator where nothing is open, nothing is open. -/
theorem IsSeparator.next_eq (hsep : IsSeparator sep) (hs : s.isNormal = true) :
    s.next sep = {} := by
  rw [State.eq_start hs]
  simp [State.next, hsep.quote, hsep.bracket]

/-- A text is cut at a separator where nothing is open. -/
theorem splitFrom_cons_of_normal (hsep : IsSeparator sep) (hs : s.isNormal = true)
    (cs : List Char) : splitFrom sep 0 s (sep :: cs) = [] :: splitFrom sep 0 {} cs := by
  rw [splitFrom, if_pos hs, if_neg hsep.opening, if_neg hsep.closing, if_pos ⟨rfl, rfl⟩,
    hsep.next_eq hs]

/-- A character goes on with the piece behind it where it does not separate. -/
theorem splitFrom_cons_of_not (h : ¬(c = sep ∧ s.isNormal = true ∧ parens = 0)) (cs : List Char) :
    splitFrom sep parens s (c :: cs) =
      (splitFrom sep (s.nextParens parens c) (s.next c) cs).modifyHead (c :: ·) := by
  rw [splitFrom, State.nextParens]
  split
  · next hs =>
    split
    · rfl
    · split
      · rfl
      · rw [if_neg fun hcut => h ⟨hcut.1, hs, hcut.2⟩]
  · rfl

/-- A text that is one piece goes on with the piece behind it. -/
theorem splitFrom_append_of_singleton (hsep : IsSeparator sep)
    (h : splitFrom sep parens s cs = [cs]) (ds : List Char) :
    splitFrom sep parens s (cs ++ ds) =
      (splitFrom sep (parensAfter s parens cs) (s.after cs) ds).modifyHead (cs ++ ·) := by
  induction cs generalizing parens s with
  | nil => cases hds : splitFrom sep parens s ds <;> simp [hds]
  | cons c cs ih =>
    have hcut : ¬(c = sep ∧ s.isNormal = true ∧ parens = 0) := by
      rintro ⟨rfl, hs, rfl⟩
      rw [splitFrom_cons_of_normal hsep hs] at h
      cases h
    obtain ⟨first, others, hsplit⟩ := List.exists_cons_of_ne_nil
      (splitFrom_ne_nil sep (s.nextParens parens c) (s.next c) cs)
    rw [splitFrom_cons_of_not hcut, hsplit, List.modifyHead_cons] at h
    obtain ⟨hfirst, rfl⟩ := List.cons.inj h
    obtain rfl := (List.cons.inj hfirst).2
    rw [List.cons_append, splitFrom_cons_of_not hcut, ih hsplit, State.after_cons, parensAfter_cons]
    cases splitFrom sep _ _ ds <;> rfl

/-- The pieces of a text with separators between them make the text. -/
theorem intercalate_splitFrom (sep : Char) (parens : Nat) (s : State) (cs : List Char) :
    [sep].intercalate (splitFrom sep parens s cs) = cs := by
  induction cs generalizing parens s with
  | nil => rfl
  | cons c cs ih =>
    rcases splitFrom_cons_cases sep parens s c cs with
      ⟨parens', first, others, hsplit, hcons⟩ | ⟨rfl, -, parens', first, others, hsplit, hcons⟩
    · have hrest := ih parens' (s.next c)
      rw [hsplit] at hrest
      rw [hcons]
      cases others with
      | nil => simpa using hrest
      | cons second others =>
        rw [List.intercalate_cons_cons] at hrest ⊢
        simpa using hrest
    · have hrest := ih parens' (s.next c)
      rw [hsplit] at hrest
      rw [hcons, List.intercalate_cons_cons, hrest]
      rfl

/-- No piece of a text can be cut further. -/
theorem splitFrom_of_splitFrom (hsep : IsSeparator sep) {first : List Char}
    (h : splitFrom sep parens s cs = first :: others) :
    splitFrom sep parens s first = [first] ∧
      ∀ piece ∈ others, splitFrom sep 0 {} piece = [piece] := by
  induction cs generalizing parens s first others with
  | nil =>
    obtain ⟨rfl, rfl⟩ := List.cons.inj h
    exact ⟨rfl, by simp⟩
  | cons c cs ih =>
    by_cases hcut : c = sep ∧ s.isNormal = true ∧ parens = 0
    · obtain ⟨rfl, hs, rfl⟩ := hcut
      rw [splitFrom_cons_of_normal hsep hs] at h
      obtain ⟨rfl, rfl⟩ := List.cons.inj h
      refine ⟨rfl, fun piece hpiece => ?_⟩
      obtain ⟨next, rest, hsplit⟩ := List.exists_cons_of_ne_nil (splitFrom_ne_nil c 0 {} cs)
      obtain ⟨hnext, hrest⟩ := ih hsplit
      rw [hsplit] at hpiece
      rcases List.mem_cons.1 hpiece with rfl | hpiece
      · exact hnext
      · exact hrest piece hpiece
    · obtain ⟨next, rest, hsplit⟩ := List.exists_cons_of_ne_nil
        (splitFrom_ne_nil sep (s.nextParens parens c) (s.next c) cs)
      rw [splitFrom_cons_of_not hcut, hsplit, List.modifyHead_cons] at h
      obtain ⟨rfl, rfl⟩ := List.cons.inj h
      obtain ⟨hnext, hrest⟩ := ih hsplit
      exact ⟨by rw [splitFrom_cons_of_not hcut, hnext, List.modifyHead_cons], hrest⟩

/-- A text has no top-level separator exactly when it is one piece. -/
theorem hasTopLevel_eq_false_iff : hasTopLevel sep cs = false ↔ splitTopLevel sep cs = [cs] := by
  have hjoined := intercalate_splitFrom sep 0 {} cs
  obtain ⟨first, others, hsplit⟩ := List.exists_cons_of_ne_nil (splitFrom_ne_nil sep 0 {} cs)
  rw [hsplit] at hjoined
  rw [hasTopLevel, splitTopLevel, hsplit]
  cases others with
  | nil => simpa using hjoined
  | cons second others => simp

/-- No piece of a text has a top-level separator. -/
theorem hasTopLevel_of_mem_splitTopLevel (hsep : IsSeparator sep)
    (h : piece ∈ splitTopLevel sep cs) : hasTopLevel sep piece = false := by
  obtain ⟨first, others, hsplit⟩ := List.exists_cons_of_ne_nil (splitFrom_ne_nil sep 0 {} cs)
  obtain ⟨hfirst, hothers⟩ := splitFrom_of_splitFrom hsep hsplit
  rw [splitTopLevel, hsplit] at h
  rw [hasTopLevel_eq_false_iff]
  rcases List.mem_cons.1 h with rfl | h
  · exact hfirst
  · exact hothers piece h

/-- A text in front of a separator is the first piece exactly when it has no top-level separator and
leaves nothing open. -/
theorem splitTopLevel_append_eq_cons_iff (hsep : IsSeparator sep) :
    splitTopLevel sep (piece ++ sep :: cs) = piece :: others ↔
      hasTopLevel sep piece = false ∧ LeavesNothingOpen piece ∧ splitTopLevel sep cs = others := by
  constructor
  · intro h
    have hpiece : hasTopLevel sep piece = false :=
      hasTopLevel_of_mem_splitTopLevel hsep (by rw [h]; exact List.mem_cons_self)
    have happend :=
      splitFrom_append_of_singleton hsep (hasTopLevel_eq_false_iff.1 hpiece) (sep :: cs)
    rw [splitTopLevel, happend] at h
    by_cases hopen : (State.after {} piece).isNormal = true ∧ parensAfter {} 0 piece = 0
    · obtain ⟨hs, hparens⟩ := hopen
      rw [hparens, splitFrom_cons_of_normal hsep hs, List.modifyHead_cons] at h
      exact ⟨hpiece, ⟨State.eq_start hs, hparens⟩, (List.cons.inj h).2⟩
    · -- The separator would belong to the piece.
      obtain ⟨first, rest, hsplit⟩ := List.exists_cons_of_ne_nil (splitFrom_ne_nil sep
        ((State.after {} piece).nextParens (parensAfter {} 0 piece) sep)
        ((State.after {} piece).next sep) cs)
      rw [splitFrom_cons_of_not fun hcut => hopen hcut.2, hsplit, List.modifyHead_cons,
        List.modifyHead_cons] at h
      have hlength := congrArg List.length (List.cons.inj h).1
      simp at hlength
  · rintro ⟨hpiece, hopen, rfl⟩
    rw [splitTopLevel, splitFrom_append_of_singleton hsep (hasTopLevel_eq_false_iff.1 hpiece),
      hopen.state, hopen.parens, splitFrom_cons_of_normal hsep rfl, List.modifyHead_cons,
      List.append_nil]
    rfl

/-- A separator where nothing is open cuts a text. -/
theorem one_lt_length_splitFrom (hsep : IsSeparator sep) {before after : List Char}
    (hs : (s.after before).isNormal = true) (hparens : parensAfter s parens before = 0) :
    1 < (splitFrom sep parens s (before ++ sep :: after)).length := by
  have hpos : ∀ parens s cs, 0 < (splitFrom sep parens s cs).length := fun parens s cs =>
    List.length_pos_iff.2 (splitFrom_ne_nil sep parens s cs)
  induction before generalizing s parens with
  | nil =>
    obtain rfl : parens = 0 := hparens
    rw [State.after_nil] at hs
    rw [List.nil_append, splitFrom_cons_of_normal hsep hs, List.length_cons]
    exact Nat.succ_lt_succ (hpos 0 {} after)
  | cons c before ih =>
    rw [List.cons_append]
    by_cases hcut : c = sep ∧ s.isNormal = true ∧ parens = 0
    · obtain ⟨rfl, hs, rfl⟩ := hcut
      rw [splitFrom_cons_of_normal hsep hs, List.length_cons]
      exact Nat.succ_lt_succ (hpos 0 {} _)
    · rw [splitFrom_cons_of_not hcut, List.length_modifyHead]
      exact ih hs hparens

/-- A top-level separator is one behind a text that leaves nothing open. -/
theorem hasTopLevel_eq_true_iff (hsep : IsSeparator sep) :
    hasTopLevel sep cs = true ↔
      ∃ before after, cs = before ++ sep :: after ∧ LeavesNothingOpen before := by
  constructor
  · intro h
    rw [hasTopLevel, decide_eq_true_eq] at h
    obtain ⟨first, others, hsplit⟩ := List.exists_cons_of_ne_nil (splitFrom_ne_nil sep 0 {} cs)
    rw [splitTopLevel, hsplit] at h
    obtain ⟨second, others, rfl⟩ := List.exists_cons_of_ne_nil (l := others) (by
      rintro rfl
      simp at h)
    have hjoined := intercalate_splitFrom sep 0 {} cs
    rw [hsplit, List.intercalate_cons_cons, List.append_assoc, List.singleton_append] at hjoined
    rw [← hjoined] at hsplit
    exact ⟨first, _, hjoined.symm, ((splitTopLevel_append_eq_cons_iff hsep).1 hsplit).2.1⟩
  · rintro ⟨before, after, rfl, hopen⟩
    rw [hasTopLevel, decide_eq_true_eq]
    exact one_lt_length_splitFrom hsep (by rw [hopen.state]; rfl) hopen.parens

/-- Texts are the pieces of the text that they make exactly when none of them has a top-level
separator and each of them but the last leaves nothing open. -/
theorem splitTopLevel_intercalate_eq_self_iff (hsep : IsSeparator sep) (hne : pieces ≠ []) :
    splitTopLevel sep ([sep].intercalate pieces) = pieces ↔
      (∀ piece ∈ pieces, hasTopLevel sep piece = false) ∧
        ∀ piece ∈ pieces.dropLast, LeavesNothingOpen piece := by
  induction pieces with
  | nil => exact absurd rfl hne
  | cons piece pieces ih =>
    cases pieces with
    | nil => simp [hasTopLevel_eq_false_iff]
    | cons next pieces =>
      rw [List.intercalate_cons_cons, List.append_assoc, List.singleton_append,
        splitTopLevel_append_eq_cons_iff hsep, ih (List.cons_ne_nil _ _)]
      simp only [List.dropLast_cons_cons, List.forall_mem_cons]
      constructor
      · rintro ⟨hpiece, hopen, hpieces, hlast⟩
        exact ⟨⟨hpiece, hpieces⟩, hopen, hlast⟩
      · rintro ⟨⟨hpiece, hpieces⟩, hopen, hlast⟩
        exact ⟨hpiece, hopen, hpieces, hlast⟩

/-! ## Texts that leave nothing open -/

/--
A text with its quotes, its brackets and its parentheses in pairs. Between quotes everything may
stand that is no quote, and in brackets the parentheses do not count.
-/
inductive IsNested : List Char → Prop where
  /-- The empty text. -/
  | nil : IsNested []
  /-- A character that opens and closes nothing, in front of such a text. -/
  | other {c : Char} {cs : List Char} (hc : c ∉ ['"', '[', ']', '(', ')']) (h : IsNested cs) :
      IsNested (c :: cs)
  /-- A quoted text in front of such a text. -/
  | quotes {inner cs : List Char} (hinner : '"' ∉ inner) (h : IsNested cs) :
      IsNested ('"' :: inner ++ '"' :: cs)
  /-- Brackets with their quotes and brackets in pairs between them, in front of such a text. -/
  | brackets {inner cs : List Char} (hinner : IsEnclosed inner) (h : IsNested cs) :
      IsNested ('[' :: inner ++ ']' :: cs)
  /-- Such a text in parentheses, in front of another one. -/
  | parentheses {inner cs : List Char} (hinner : IsNested inner) (h : IsNested cs) :
      IsNested ('(' :: inner ++ ')' :: cs)

/-- Between quotes nothing is opened or closed. -/
theorem parensAfter_of_quoted (hs : s.quoted = true) (h : '"' ∉ inner) (parens : Nat) :
    s.after inner = s ∧ parensAfter s parens inner = parens := by
  induction inner with
  | nil => exact ⟨rfl, rfl⟩
  | cons c inner ih =>
    obtain ⟨hc, hinner⟩ := not_or.1 (mt List.mem_cons.2 h)
    have hnext : s.next c = s := by simp [State.next, Ne.symm hc, hs]
    rw [State.after_cons, parensAfter_cons, State.nextParens_of_open (by simp [State.isNormal, hs]),
      hnext]
    exact ih hinner

/-- In brackets no parenthesis counts. -/
theorem parensAfter_of_balanced (h : balancedFrom s inner = true) (parens : Nat) :
    parensAfter ⟨s.quoted, s.depth + 1⟩ parens inner = parens := by
  induction inner generalizing s with
  | nil => rfl
  | cons c inner ih =>
    rw [balancedFrom, Bool.and_eq_true] at h
    have hclose : ¬(c = ']' ∧ s.isNormal = true) := by
      rintro ⟨rfl, hnormal⟩
      simp [hnormal] at h
    rw [parensAfter_cons, State.nextParens_of_open (by simp [State.isNormal]),
      State.next_deeper hclose, ih h.2]

/-- Behind a text with its delimiters in pairs, as much is open as in front of it. -/
theorem IsNested.after_eq (h : IsNested cs) (parens : Nat) :
    State.after {} cs = {} ∧ parensAfter {} parens cs = parens := by
  induction h generalizing parens with
  | nil => exact ⟨rfl, rfl⟩
  | @other c cs hc _ ih =>
    simp only [List.mem_cons, List.not_mem_nil, or_false, not_or] at hc
    obtain ⟨hquote, hopen, hclose, hleft, hright⟩ := hc
    have hnext : State.next {} c = {} := by simp [State.next, hquote, hopen, hclose]
    have hparens : State.nextParens {} parens c = parens := by
      simp [State.nextParens, hleft, hright]
    rw [State.after_cons, parensAfter_cons, hnext, hparens]
    exact ih parens
  | @quotes inner cs hinner _ ih =>
    obtain ⟨hafter, hparens⟩ :=
      parensAfter_of_quoted (s := State.next {} '"') rfl hinner (State.nextParens {} parens '"')
    rw [List.cons_append, State.after_cons, parensAfter_cons, State.after_append,
      parensAfter_append, hafter, hparens]
    exact ih parens
  | @brackets inner cs hinner _ ih =>
    have hquoted : (State.after {} inner).quoted = false := by
      simp [State.quoted_after, hinner.paired]
    have hdepth := depth_of_balancedFrom hinner.balanced
    have hafter : State.after ⟨false, 0 + 1⟩ inner = ⟨false, 0 + 1⟩ := by
      have hbalanced : balancedFrom {} (inner ++ []) = true := by
        rw [List.append_nil]
        exact hinner.balanced
      have hdeeper := after_of_balancedFrom hbalanced 1
      rw [hquoted, hdepth] at hdeeper
      exact hdeeper
    have hparens := parensAfter_of_balanced (s := {}) hinner.balanced parens
    have hopen : State.next {} '[' = ⟨false, 0 + 1⟩ := rfl
    have hcount : State.nextParens {} parens '[' = parens := rfl
    rw [List.cons_append, State.after_cons, parensAfter_cons, hopen, hcount, State.after_append,
      parensAfter_append, hafter, hparens]
    exact ih parens
  | @parentheses inner cs _ _ ihInner ihRest =>
    obtain ⟨hafter, hparens⟩ := ihInner (parens + 1)
    have hopen : State.next {} '(' = {} := rfl
    have hcount : State.nextParens {} parens '(' = parens + 1 := rfl
    rw [List.cons_append, State.after_cons, parensAfter_cons, hopen, hcount, State.after_append,
      parensAfter_append, hafter, hparens]
    exact ihRest parens

/-- A text with its delimiters in pairs leaves nothing open. -/
theorem IsNested.leavesNothingOpen (h : IsNested cs) : LeavesNothingOpen cs :=
  ⟨(h.after_eq 0).1, (h.after_eq 0).2⟩

/-! ## Commas -/

/--
Cutting a text at its top-level commas and joining texts with commas are inverse to each other. The
pieces of every text make the text, and none of them has a top-level comma. One or more texts with
their delimiters in pairs and without a top-level comma are the pieces of the text that they make. A
top-level comma is one in front of which nothing is left open.
-/
theorem cutting_and_joining_are_inverse :
    (∀ cs, [','].intercalate (splitTopLevel ',' cs) = cs ∧
      ∀ piece ∈ splitTopLevel ',' cs, hasTopLevel ',' piece = false) ∧
    (∀ pieces, pieces ≠ [] →
      (∀ piece ∈ pieces, IsNested piece ∧ hasTopLevel ',' piece = false) →
      splitTopLevel ',' ([','].intercalate pieces) = pieces) ∧
    ∀ cs, hasTopLevel ',' cs = true ↔
      ∃ before after, cs = before ++ ',' :: after ∧ LeavesNothingOpen before := by
  refine ⟨fun cs => ⟨intercalate_splitFrom ',' 0 {} cs, fun piece hpiece => ?_⟩, ?_,
    fun cs => hasTopLevel_eq_true_iff isSeparator_comma⟩
  · exact hasTopLevel_of_mem_splitTopLevel isSeparator_comma hpiece
  · intro pieces hne h
    rw [splitTopLevel_intercalate_eq_self_iff isSeparator_comma hne]
    refine ⟨fun piece hpiece => (h piece hpiece).2, fun piece hpiece => ?_⟩
    exact (h piece (List.dropLast_subset _ hpiece)).1.leavesNothingOpen

/-- Commas between quotes, in brackets and in parentheses do not cut, and a parenthesis that is left
open between quotes or in brackets keeps no comma behind them from cutting. -/
theorem cutting_and_joining_are_inverse_nested :
    let pieces := [['"', ',', '(', '"'], ['[', '(', ',', ']'], ['(', 'a', ',', 'b', ')'], []]
    (∀ piece ∈ pieces, IsNested piece ∧ hasTopLevel ',' piece = false) ∧
      splitTopLevel ',' ([','].intercalate pieces) = pieces := by
  intro pieces
  have hquotes : IsNested ('"' :: [',', '('] ++ ['"']) := .quotes (by decide) .nil
  have hbrackets : IsNested ('[' :: ['(', ','] ++ [']']) := .brackets ⟨by decide, by decide⟩ .nil
  have hnames : IsNested ['a', ',', 'b'] :=
    .other (by decide) (.other (by decide) (.other (by decide) .nil))
  have hparentheses : IsNested ('(' :: ['a', ',', 'b'] ++ [')']) := .parentheses hnames .nil
  have hpieces : ∀ piece ∈ pieces, IsNested piece ∧ hasTopLevel ',' piece = false := by
    simp only [pieces, List.forall_mem_cons, List.not_mem_nil, false_implies, implies_true,
      and_true]
    exact ⟨⟨hquotes, by decide⟩, ⟨hbrackets, by decide⟩, ⟨hparentheses, by decide⟩, .nil, by decide⟩
  exact ⟨hpieces, cutting_and_joining_are_inverse.2.1 pieces (by simp [pieces]) hpieces⟩

/-- A parenthesis that is closed in brackets stays open, so the comma behind it does not cut. -/
example : splitTopLevel ',' ['(', '[', ')', ']', ',', 'x'] = [['(', '[', ')', ']', ',', 'x']] := by
  decide

end InputDeck.Scan
