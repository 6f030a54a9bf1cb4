import InputDeck.Proofs.Text.Scanner
import InputDeck.Proofs.Text.Stripped

/-!
# Quoted spans

The texts between the quotes of a line are what a scanner reads in its quoted regions, whether or
not brackets are open there. Stripping a text knows nothing of regions: it keeps a flag of its own
that every quote turns over. Both see the same spans on every text, so stripping keeps each of them
as it stands, and takes the blanks out of each of the texts around them.
-/

namespace InputDeck.Scan

open InputDeck.Text

variable {s : State} {c : Char} {cs out : List Char} {quoted : Bool}

/-! ## The parts of a text -/

/-- Whether a region lies between quotes. -/
def Region.isQuoted : Region → Bool
  | .inQuotes | .inBracketQuotes => true
  | .normal | .inBracket => false

/-- The region of a place lies between quotes when a quote is open there. -/
@[simp] theorem State.isQuoted_region (s : State) : s.region.isQuoted = s.quoted := by
  obtain ⟨_ | _, _ | _⟩ := s <;> rfl

/-- Behind a text, a scanner is in a quoted region exactly when the text has an odd number of
quotes. -/
theorem Scanner.exists_readAll (cs : List Char) :
    ∃ scanner, Scanner.readAll {} cs = some scanner ∧
      scanner.region = (State.after {} cs).region ∧
      (scanner.region.isQuoted = true ↔ cs.count '"' % 2 = 1) := by
  refine ⟨_, State.readAll_scanner {} cs, rfl, ?_⟩
  have hquoted : (State.after {} cs).quoted = true ↔ ¬QuotesPaired cs := by
    simp [State.quoted_after]
  rw [State.scanner, State.isQuoted_region, hquoted, QuotesPaired]
  omega

/--
The parts of a text that a scanner reads in its quoted regions, or in the others, one part for each
stay in them. The quotes themselves belong to no part, and a part may be empty.
-/
def partsFrom (quoted : Bool) (s : State) : List Char → List (List Char)
  | [] => if s.region.isQuoted = quoted then [[]] else []
  | c :: cs =>
    if s.region.isQuoted = quoted then
      if (s.next c).region.isQuoted = quoted then
        (partsFrom quoted (s.next c) cs).modifyHead (c :: ·)
      else [] :: partsFrom quoted (s.next c) cs
    else partsFrom quoted (s.next c) cs

/-- The texts between the quotes of a text, from left to right. -/
def quotedSpans (cs : List Char) : List (List Char) := partsFrom true {} cs

/-- The texts around the quoted spans of a text, from left to right. -/
def unquotedParts (cs : List Char) : List (List Char) := partsFrom false {} cs

/-- A quote ends a part. -/
theorem partsFrom_quote (quoted : Bool) (s : State) (cs : List Char) :
    partsFrom quoted s ('"' :: cs) =
      if s.quoted = quoted then [] :: partsFrom quoted (s.next '"') cs
      else partsFrom quoted (s.next '"') cs := by
  rw [partsFrom, State.isQuoted_region, State.isQuoted_region, State.quoted_next_quote]
  cases s.quoted <;> cases quoted <;> rfl

/-- Every other character belongs to the part that it stands in. -/
theorem partsFrom_cons_of_ne (hc : c ≠ '"') (quoted : Bool) (s : State) (cs : List Char) :
    partsFrom quoted s (c :: cs) =
      if s.quoted = quoted then (partsFrom quoted (s.next c) cs).modifyHead (c :: ·)
      else partsFrom quoted (s.next c) cs := by
  rw [partsFrom, State.isQuoted_region, State.isQuoted_region, State.quoted_next_of_ne hc]
  split <;> rfl

/-! ## What stripping leaves of them -/

/-- Stripping keeps every quoted span. -/
theorem partsFrom_true_stripped (s : State) (cs : List Char) :
    partsFrom true s (stripped s.quoted cs) = partsFrom true s cs := by
  induction cs generalizing s with
  | nil => rfl
  | cons c cs ih =>
    by_cases hc : c = '"'
    · subst hc
      rw [stripped, if_pos rfl, partsFrom_quote, partsFrom_quote, ← State.quoted_next_quote, ih]
    · have hnext := State.quoted_next_of_ne (s := s) hc
      have hkept : partsFrom true s (c :: stripped s.quoted cs) = partsFrom true s (c :: cs) := by
        rw [partsFrom_cons_of_ne hc, partsFrom_cons_of_ne hc, ← hnext, ih]
      rw [stripped, if_neg hc]
      split
      · exact hkept
      · next hdropped =>
        obtain ⟨hquoted, hblank⟩ : s.quoted = false ∧ isBlank c = true := by
          simpa using hdropped
        rw [partsFrom_cons_of_ne hc, if_neg (by simp [hquoted]), State.next_of_isBlank s hblank, ih]

/-- Stripping takes the blanks out of every part outside quotes. -/
theorem partsFrom_false_stripped (s : State) (cs : List Char) :
    partsFrom false s (stripped s.quoted cs) = (partsFrom false s cs).map withoutBlanks := by
  induction cs generalizing s with
  | nil => cases hs : s.quoted <;> simp [stripped, partsFrom, hs]
  | cons c cs ih =>
    by_cases hc : c = '"'
    · subst hc
      rw [stripped, if_pos rfl, partsFrom_quote, partsFrom_quote, ← State.quoted_next_quote, ih]
      split <;> rfl
    · have hnext := State.quoted_next_of_ne (s := s) hc
      rw [stripped, if_neg hc, partsFrom_cons_of_ne hc]
      cases hquoted : s.quoted with
      | true =>
        rw [if_pos (by simp), partsFrom_cons_of_ne hc, if_neg (by simp [hquoted]),
          if_neg (by simp), ← ih, hnext, hquoted]
      | false =>
        cases hblank : isBlank c with
        | true =>
          have hrest := ih s
          rw [hquoted] at hrest
          rw [if_neg (by simp), State.next_of_isBlank s hblank, if_pos rfl, hrest]
          cases partsFrom false s cs <;> simp [withoutBlanks, hblank]
        | false =>
          have hrest := ih (s.next c)
          rw [hnext, hquoted] at hrest
          rw [if_pos (by simp), partsFrom_cons_of_ne hc, if_pos hquoted, if_pos rfl, hrest]
          cases partsFrom false (s.next c) cs <;> simp [withoutBlanks, hblank]

/-- What stripping the blanks outside quotes leaves of a text. -/
structure StripsTo (cs out : List Char) : Prop where
  /-- The same spans are quoted, character for character and in the same order. -/
  spans : quotedSpans out = quotedSpans cs
  /-- No blank is left outside them. -/
  blanks : ∀ part ∈ unquotedParts out, ∀ c ∈ part, isBlank c = false
  /-- Every part outside them has the same characters that are no blanks. -/
  others : (unquotedParts out).map withoutBlanks = (unquotedParts cs).map withoutBlanks

/-- A stripped text is what stripping leaves. -/
theorem stripsTo_stripped (cs : List Char) : StripsTo cs (stripped false cs) := by
  have hparts : unquotedParts (stripped false cs) = (unquotedParts cs).map withoutBlanks :=
    partsFrom_false_stripped {} cs
  refine ⟨partsFrom_true_stripped {} cs, ?_, ?_⟩
  · intro part hpart c hc
    rw [hparts] at hpart
    obtain ⟨whole, -, rfl⟩ := List.mem_map.1 hpart
    exact isBlank_of_mem_withoutBlanks hc
  · rw [hparts, List.map_map]
    exact List.map_congr_left fun part _ => withoutBlanks_withoutBlanks part

/-- A stripped text stays as it is when it is stripped again. -/
theorem stripUnquoted_stripped (h : QuotesPaired cs) :
    stripUnquoted (stripped false cs) = some (stripped false cs) := by
  refine stripUnquoted_eq_self (quotesPaired_stripped_iff.2 h) fun c hc => ?_
  rw [outside_stripped] at hc
  exact isBlank_of_mem_withoutBlanks hc

/-- Exactly the texts whose quotes come in pairs are stripped. -/
theorem stripUnquoted_eq_some_iff :
    stripUnquoted cs = some out ↔ QuotesPaired cs ∧ out = stripped false cs := by
  rw [stripUnquoted, stripUnquotedFrom_eq, Option.ite_none_right_eq_some, Option.some.injEq]
  exact and_congr_right fun _ => eq_comm

/--
Stripping fails exactly on the texts with an odd number of quotes, and a scanner is in a quoted
region exactly behind those. What stripping leaves of every other text has the spans that a scanner
finds between the quotes of the text, and around them the characters that are no blanks; it is left
as it is when it is stripped again, and its brackets come in pairs exactly when those of the text
do.
-/
theorem stripUnquoted_keeps_quoted_spans (cs : List Char) :
    (∀ front, front <+: cs → ∃ scanner, Scanner.readAll {} front = some scanner ∧
      scanner.region = (State.after {} front).region ∧
      (scanner.region.isQuoted = true ↔ front.count '"' % 2 = 1)) ∧
    (stripUnquoted cs = none ↔ cs.count '"' % 2 = 1) ∧
    ∀ out, stripUnquoted cs = some out →
      StripsTo cs out ∧ stripUnquoted out = some out ∧
        (bracketsBalanced out = true ↔ bracketsBalanced cs = true) := by
  refine ⟨fun front _ => Scanner.exists_readAll front, ?_, ?_⟩
  · have hnone : stripUnquoted cs = none ↔ ¬QuotesPaired cs := by
      rw [Option.eq_none_iff_forall_ne_some]
      simp [stripUnquoted_eq_some_iff]
    rw [hnone, QuotesPaired]
    omega
  · intro out h
    obtain ⟨hpaired, rfl⟩ := stripUnquoted_eq_some_iff.1 h
    have hbrackets : bracketsBalanced (stripped false cs) = bracketsBalanced cs :=
      balancedFrom_stripped {} cs
    exact ⟨stripsTo_stripped cs, stripUnquoted_stripped hpaired, by rw [hbrackets]⟩

/-- Quotes between brackets enclose a span as others do: its blank and its bracket are kept. -/
theorem stripUnquoted_keeps_quoted_spans_in_brackets :
    let cs := ['[', ' ', '"', 'a', ' ', ']', '"', ' ', ']']
    let out := ['[', '"', 'a', ' ', ']', '"', ']']
    stripUnquoted cs = some out ∧ quotedSpans cs = [['a', ' ', ']']] ∧ StripsTo cs out ∧
      stripUnquoted out = some out ∧
        (bracketsBalanced out = true ↔ bracketsBalanced cs = true) := by
  intro cs out
  have hstrip : stripUnquoted cs = some out := by decide
  exact ⟨hstrip, by decide, (stripUnquoted_keeps_quoted_spans cs).2.2 out hstrip⟩

end InputDeck.Scan
