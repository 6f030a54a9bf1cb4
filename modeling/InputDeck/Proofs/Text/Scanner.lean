import InputDeck.Scan

/-!
# The scanner

A scanner of texts names the region of a place, and counts the open brackets beside it. It goes by
the region alone: a bracket that is closed in a bracket takes one off the count, which is a fault
when the count is zero, and the bracket that leaves none is the end of the region. It never comes to
a fault, because region and count go together: a place between brackets is one where brackets are
open.
-/

namespace InputDeck.Scan

open InputDeck.Text

/-- What a scanner keeps of the place that it has come to. -/
structure Scanner where
  /-- The region of the place. -/
  region : Region := .normal
  /-- The count of open brackets. -/
  depth : Nat := 0
  deriving DecidableEq, Repr

namespace Scanner

/-- Leave a bracket, which is a fault when none is counted. -/
def leave (scanner : Scanner) : Option Scanner :=
  if scanner.depth = 0 then none
  else if scanner.depth - 1 = 0 then some ⟨.normal, scanner.depth - 1⟩
  else some ⟨.inBracket, scanner.depth - 1⟩

/-- Read a character. -/
def read (scanner : Scanner) (c : Char) : Option Scanner :=
  match scanner.region with
  | .normal =>
    if c = '"' then some { scanner with region := .inQuotes }
    else if c = '[' then some ⟨.inBracket, 1⟩
    else some scanner
  | .inQuotes =>
    if c = '"' then some { scanner with region := .normal }
    else some scanner
  | .inBracket =>
    if c = '"' then some { scanner with region := .inBracketQuotes }
    else if c = '[' then some { scanner with depth := scanner.depth + 1 }
    else if c = ']' then scanner.leave
    else some scanner
  | .inBracketQuotes =>
    if c = '"' then some { scanner with region := .inBracket }
    else some scanner

/-- Read a text. -/
def readAll (scanner : Scanner) (cs : List Char) : Option Scanner := cs.foldlM read scanner

/-- Whether no bracket is closed in the normal region, and the text does not end between brackets. -/
def balanced (scanner : Scanner) : List Char → Option Bool
  | [] => some (scanner.region != .inBracket && scanner.region != .inBracketQuotes)
  | c :: cs =>
    (scanner.read c).bind fun next =>
      if c = ']' ∧ scanner.region = .normal then some false else next.balanced cs

/-- The offset of the first bracket behind which the region is the normal one, when a text starts at
an offset. -/
def closing (scanner : Scanner) (offset : Nat) : List Char → Option (Option Nat)
  | [] => some none
  | c :: cs =>
    (scanner.read c).bind fun next =>
      if c = ']' ∧ next.region = .normal then some (some offset)
      else next.closing (offset + c.utf8Size) cs

/-- The offset of the bracket that closes the one at an offset, where the scanner starts. -/
def matchingBracket (cs : List Char) (offset : Nat) : Option (Option Nat) :=
  match dropBytes offset cs with
  | some ('[' :: rest) => closing {} offset ('[' :: rest)
  | _ => some none

end Scanner

/-! ## What the scanner keeps -/

variable {s : State} {c : Char} {cs : List Char}

/-- What a scanner keeps when what is open is known. -/
def State.scanner (s : State) : Scanner := ⟨s.region, s.depth⟩

/-- Brackets are open exactly in the regions between brackets. -/
theorem State.depth_pos_iff :
    0 < s.depth ↔ s.region = .inBracket ∨ s.region = .inBracketQuotes := by
  obtain ⟨_ | _, _ | _⟩ := s <;> simp [region]

/-- The scanner reads a character without a fault, and keeps what is open behind it. -/
theorem State.read_scanner (s : State) (c : Char) : s.scanner.read c = some (s.next c).scanner := by
  obtain ⟨quoted, depth⟩ := s
  by_cases hquote : c = '"'
  · cases quoted <;> cases depth <;> simp [scanner, region, Scanner.read, next, hquote]
  · cases quoted with
    | true => cases depth <;> simp [scanner, region, Scanner.read, next, hquote]
    | false =>
      by_cases hopen : c = '['
      · cases depth <;> simp [scanner, region, Scanner.read, next, hopen]
      · by_cases hclose : c = ']'
        · obtain _ | _ | depth := depth <;>
            simp [scanner, region, Scanner.read, Scanner.leave, next, hclose]
        · cases depth <;> simp [scanner, region, Scanner.read, next, hquote, hopen, hclose]

/-- The scanner reads a text without a fault, and keeps what is open behind it. -/
theorem State.readAll_scanner (s : State) (cs : List Char) :
    s.scanner.readAll cs = some (s.after cs).scanner := by
  induction cs generalizing s with
  | nil => rfl
  | cons c cs ih =>
    rw [Scanner.readAll, List.foldlM_cons, State.read_scanner]
    exact ih (s.next c)

/-- The scanner finds brackets in pairs without a fault where they come in pairs. -/
theorem State.balanced_scanner (s : State) (cs : List Char) :
    s.scanner.balanced cs = some (balancedFrom s cs) := by
  induction cs generalizing s with
  | nil => obtain ⟨_ | _, _ | _⟩ := s <;> rfl
  | cons c cs ih =>
    have hregion : s.scanner.region = .normal ↔ s.isNormal = true := State.region_eq_normal_iff
    rw [Scanner.balanced, State.read_scanner, Option.bind_some, balancedFrom, ih]
    by_cases hc : c = ']' ∧ s.isNormal = true
    · rw [if_pos ⟨hc.1, hregion.2 hc.2⟩]
      simp [hc.1, hc.2]
    · rw [if_neg fun h => hc ⟨h.1, hregion.1 h.2⟩]
      have hpartner : (c == ']' && s.isNormal) = false :=
        Bool.eq_false_iff.2 fun h => hc (by simpa using h)
      rw [hpartner, Bool.not_false, Bool.true_and]

/-- The scanner finds without a fault the bracket that leaves nothing open. -/
theorem State.closing_scanner (s : State) (offset : Nat) (cs : List Char) :
    s.scanner.closing offset cs =
      some ((cutClosing s cs).map fun parts => offset + byteLength parts.1) := by
  induction cs generalizing s offset with
  | nil => rfl
  | cons c cs ih =>
    have hregion : (s.next c).scanner.region = .normal ↔ (s.next c).isNormal = true :=
      State.region_eq_normal_iff
    rw [Scanner.closing, State.read_scanner, Option.bind_some, cutClosing, ih]
    by_cases hc : c = ']' ∧ (s.next c).isNormal = true
    · rw [if_pos ⟨hc.1, hregion.2 hc.2⟩, if_pos hc]
      rfl
    · rw [if_neg fun h => hc ⟨h.1, hregion.1 h.2⟩, if_neg hc, Option.map_map]
      simp [Function.comp_def, Nat.add_assoc]

/-- The scanner finds without a fault the bracket that closes another one. -/
theorem Scanner.matchingBracket_eq (cs : List Char) (offset : Nat) :
    Scanner.matchingBracket cs offset = some (Scan.matchingBracket cs offset) := by
  unfold Scan.matchingBracket
  split
  · next rest hdrop =>
    have hclosing : Scanner.closing {} offset ('[' :: rest) = _ :=
      State.closing_scanner {} offset ('[' :: rest)
    have hcut : cutClosing {} ('[' :: rest) =
        (cutBracket rest).map fun parts => ('[' :: parts.1, parts.2) := rfl
    rw [Scanner.matchingBracket, hdrop]
    rw [hcut, Option.map_map] at hclosing
    simpa [Function.comp_def, Nat.add_assoc] using hclosing
  · next hdrop =>
    unfold Scanner.matchingBracket
    split
    · next rest hrest => exact absurd hrest (hdrop rest)
    · rfl

end InputDeck.Scan
