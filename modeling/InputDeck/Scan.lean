import InputDeck.Text.Blank
import InputDeck.Text.Cut

/-!
# Quotes and brackets

Every question about the structure of a line is answered by reading it once from the left while
keeping track of two things: whether the place is between quotes, and how many square brackets are
open there. A quote inside brackets opens a quoted part as any other does; brackets between quotes
do not count, and neither does a closing bracket when none is open.

A cut returns the text before and after the character it was made at, so an offset is the byte
length of the text before it.
-/

namespace InputDeck.Scan

open InputDeck.Text

/-- Where a place lies with respect to quotes and brackets. -/
inductive Region where
  | normal
  | inQuotes
  | inBracket
  | inBracketQuotes
  deriving DecidableEq, Repr

/-- What is open at a place of a text. -/
structure State where
  /-- Whether a quote is open. -/
  quoted : Bool := false
  /-- The number of open brackets. -/
  depth : Nat := 0
  deriving DecidableEq, Repr

namespace State

/-- The region of a place. -/
def region (s : State) : Region :=
  match s.quoted, s.depth with
  | false, 0 => .normal
  | true, 0 => .inQuotes
  | false, _ + 1 => .inBracket
  | true, _ + 1 => .inBracketQuotes

/-- What is open behind a character. -/
def next (s : State) (c : Char) : State :=
  if c = '"' then { s with quoted := !s.quoted }
  else if s.quoted then s
  else if c = '[' then { s with depth := s.depth + 1 }
  else if c = ']' then { s with depth := s.depth - 1 }
  else s

/-- What is open behind a text. -/
def after (s : State) (cs : List Char) : State := cs.foldl next s

/-- Whether neither a quote nor a bracket is open. -/
def isNormal (s : State) : Bool := !s.quoted && s.depth == 0

/-- A place is in the normal region exactly when nothing is open. -/
theorem region_eq_normal_iff {s : State} : s.region = .normal ↔ s.isNormal = true := by
  obtain ⟨_ | _, _ | _⟩ := s <;> simp [region, isNormal]

@[simp] theorem after_nil (s : State) : s.after [] = s := rfl

@[simp] theorem after_cons (s : State) (c : Char) (cs : List Char) :
    s.after (c :: cs) = (s.next c).after cs := rfl

@[simp] theorem after_append (s : State) (cs ds : List Char) :
    s.after (cs ++ ds) = (s.after cs).after ds :=
  List.foldl_append

end State

/-- The characters of a text with what is open where each of them is read. -/
def places (s : State) : List Char → List (Char × State)
  | [] => []
  | c :: cs => (c, s) :: places (s.next c) cs

/-- The text before and after the first `target` outside quotes. -/
def cutUnquoted (target : Char) (s : State) : List Char → Option (List Char × List Char)
  | [] => none
  | c :: cs =>
    if c = target ∧ s.quoted = false then some ([], cs)
    else (cutUnquoted target (s.next c) cs).map fun parts => (c :: parts.1, parts.2)

/-- Whether a character in front of `=` makes it a part of another symbol. -/
def joinsAssignment (c : Char) : Bool := c == '=' || c == '!' || c == '<' || c == '>'

/--
The text before and after the assignment sign: the first `=` outside quotes that neither follows
`=`, `!`, `<` or `>` nor stands before another `=`. The character in front of the text is given.
-/
def cutAssignment (front : Option Char) (s : State) : List Char → Option (List Char × List Char)
  | [] => none
  | c :: cs =>
    if c = '=' ∧ s.quoted = false ∧ front.any joinsAssignment = false ∧ cs.head? ≠ some '=' then
      some ([], cs)
    else (cutAssignment (some c) (s.next c) cs).map fun parts => (c :: parts.1, parts.2)

/--
The pieces of a text between the separators outside quotes, brackets and parentheses. Parentheses
count only outside quotes and brackets, and a closing one does not count when none is open.
-/
def splitFrom (sep : Char) (parens : Nat) (s : State) : List Char → List (List Char)
  | [] => [[]]
  | c :: cs =>
    if s.isNormal then
      if c = '(' then (splitFrom sep (parens + 1) (s.next c) cs).modifyHead (c :: ·)
      else if c = ')' then (splitFrom sep (parens - 1) (s.next c) cs).modifyHead (c :: ·)
      else if c = sep ∧ parens = 0 then [] :: splitFrom sep parens (s.next c) cs
      else (splitFrom sep parens (s.next c) cs).modifyHead (c :: ·)
    else (splitFrom sep parens (s.next c) cs).modifyHead (c :: ·)

/-- The pieces of a text between its top-level separators; there is at least one. -/
def splitTopLevel (sep : Char) (cs : List Char) : List (List Char) := splitFrom sep 0 {} cs

/-- Whether a text has a top-level separator. -/
def hasTopLevel (sep : Char) (cs : List Char) : Bool := 1 < (splitTopLevel sep cs).length

/-- The text before and after the bracket that leaves nothing open. -/
def cutClosing (s : State) : List Char → Option (List Char × List Char)
  | [] => none
  | c :: cs =>
    if c = ']' ∧ (s.next c).isNormal then some ([], cs)
    else (cutClosing (s.next c) cs).map fun parts => (c :: parts.1, parts.2)

/-- Behind an opening bracket: the text inside the bracket and the text behind it. -/
def cutBracket (cs : List Char) : Option (List Char × List Char) :=
  cutClosing ⟨false, 1⟩ cs

/-- The byte offset of the bracket that closes the one at a byte offset. -/
def matchingBracket (cs : List Char) (offset : Nat) : Option Nat :=
  match dropBytes offset cs with
  | some ('[' :: rest) =>
    (cutBracket rest).map fun parts => offset + '['.utf8Size + byteLength parts.1
  | _ => none

/-- Whether every bracket outside quotes has its partner, when `s` is open in front of the text. -/
def balancedFrom (s : State) : List Char → Bool
  | [] => s.depth == 0
  | c :: cs => !(c == ']' && s.isNormal) && balancedFrom (s.next c) cs

/-- Whether every bracket outside quotes has its partner. -/
def bracketsBalanced (cs : List Char) : Bool := balancedFrom {} cs

/-- What stands inside a text that is one bracket from its first to its last character. -/
def bracketLiteral? (cs : List Char) : Option (List Char) :=
  match cs with
  | '[' :: rest =>
    match cutBracket rest with
    | some (inner, []) => some inner
    | _ => none
  | _ => none

/-- A text without the blanks outside its quotes, when `quoted` is open in front of it. -/
def stripUnquotedFrom (quoted : Bool) : List Char → Option (List Char)
  | [] => if quoted then none else some []
  | c :: cs =>
    if c = '"' then (stripUnquotedFrom (!quoted) cs).map (c :: ·)
    else if quoted || !isBlank c then (stripUnquotedFrom quoted cs).map (c :: ·)
    else stripUnquotedFrom quoted cs

/-- A text without the blanks outside its quotes; none when a quote stays open. -/
def stripUnquoted (cs : List Char) : Option (List Char) := stripUnquotedFrom false cs

/-- A cut at an unquoted character loses nothing. -/
theorem eq_append_of_cutUnquoted {target : Char} {s : State} {cs before after : List Char}
    (h : cutUnquoted target s cs = some (before, after)) : cs = before ++ target :: after := by
  induction cs generalizing s before with
  | nil => simp [cutUnquoted] at h
  | cons c cs ih =>
    rw [cutUnquoted] at h
    split at h
    · next hc =>
      obtain ⟨rfl, rfl⟩ : [] = before ∧ cs = after := by simpa using h
      simp [hc.1]
    · obtain ⟨⟨b, a⟩, hcut, hparts⟩ := Option.map_eq_some_iff.1 h
      obtain ⟨rfl, rfl⟩ : c :: b = before ∧ a = after := by simpa using hparts
      simp [ih hcut]

/-- A cut at the assignment sign loses nothing. -/
theorem eq_append_of_cutAssignment {front : Option Char} {s : State} {cs before after : List Char}
    (h : cutAssignment front s cs = some (before, after)) : cs = before ++ '=' :: after := by
  induction cs generalizing front s before with
  | nil => simp [cutAssignment] at h
  | cons c cs ih =>
    rw [cutAssignment] at h
    split at h
    · next hc =>
      obtain ⟨rfl, rfl⟩ : [] = before ∧ cs = after := by simpa using h
      simp [hc.1]
    · obtain ⟨⟨b, a⟩, hcut, hparts⟩ := Option.map_eq_some_iff.1 h
      obtain ⟨rfl, rfl⟩ : c :: b = before ∧ a = after := by simpa using hparts
      simp [ih hcut]

/-- A cut at a closing bracket loses nothing. -/
theorem eq_append_of_cutClosing {s : State} {cs inner after : List Char}
    (h : cutClosing s cs = some (inner, after)) : cs = inner ++ ']' :: after := by
  induction cs generalizing s inner with
  | nil => simp [cutClosing] at h
  | cons c cs ih =>
    rw [cutClosing] at h
    split at h
    · next hc =>
      obtain ⟨rfl, rfl⟩ : [] = inner ∧ cs = after := by simpa using h
      simp [hc.1]
    · obtain ⟨⟨b, a⟩, hcut, hparts⟩ := Option.map_eq_some_iff.1 h
      obtain ⟨rfl, rfl⟩ : c :: b = inner ∧ a = after := by simpa using hparts
      simp [ih hcut]

/-- Splitting gives at least one piece. -/
theorem splitFrom_ne_nil (sep : Char) (parens : Nat) (s : State) (cs : List Char) :
    splitFrom sep parens s cs ≠ [] := by
  induction cs generalizing parens s with
  | nil => simp [splitFrom]
  | cons c cs ih =>
    unfold splitFrom
    repeat' split
    all_goals simp [ih]

end InputDeck.Scan
