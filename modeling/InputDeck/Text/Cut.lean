/-!
# Cutting texts

Cuts of a text at its first or last separator, the removal of unwanted characters at its ends,
the search for a part of it, and its length in UTF-8 bytes. A cut returns what stands before and
after the separator, so gluing the two parts around the separator gives the text back.
-/

namespace InputDeck.Text

/-- The parts of a text before and after the first `sep`. -/
def cutFirst (sep : Char) : List Char → Option (List Char × List Char)
  | [] => none
  | c :: cs => if c = sep then some ([], cs) else
      (cutFirst sep cs).map fun parts => (c :: parts.1, parts.2)

/-- The parts of a text before and after the last `sep`. -/
def cutLast (sep : Char) : List Char → Option (List Char × List Char)
  | [] => none
  | c :: cs =>
    match cutLast sep cs with
    | some (before, after) => some (c :: before, after)
    | none => if c = sep then some ([], cs) else none

/-- A cut at the first separator loses nothing, and no separator stands before it. -/
theorem cutFirst_eq_some {sep : Char} {cs before after : List Char}
    (h : cutFirst sep cs = some (before, after)) :
    cs = before ++ sep :: after ∧ sep ∉ before := by
  induction cs generalizing before with
  | nil => simp [cutFirst] at h
  | cons c cs ih =>
    rw [cutFirst] at h
    split at h
    · next hc =>
      obtain ⟨rfl, rfl⟩ : [] = before ∧ cs = after := by simpa using h
      simp [hc]
    · next hc =>
      obtain ⟨⟨b, a⟩, hcut, hparts⟩ := Option.map_eq_some_iff.1 h
      obtain ⟨rfl, rfl⟩ : c :: b = before ∧ a = after := by simpa using hparts
      obtain ⟨rfl, hb⟩ := ih hcut
      exact ⟨rfl, by simpa [hb] using Ne.symm hc⟩

/-- Only a text without the separator has no first one. -/
theorem cutFirst_eq_none_iff {sep : Char} {cs : List Char} :
    cutFirst sep cs = none ↔ sep ∉ cs := by
  induction cs with
  | nil => simp [cutFirst]
  | cons c cs ih =>
    rw [cutFirst]
    split
    · next hc => simp [hc]
    · next hc => simpa [ih] using fun _ => Ne.symm hc

/-- The first separator is found behind any text that has none. -/
theorem cutFirst_append_cons {sep : Char} {before : List Char} (h : sep ∉ before)
    (after : List Char) : cutFirst sep (before ++ sep :: after) = some (before, after) := by
  induction before with
  | nil => simp [cutFirst]
  | cons c cs ih =>
    obtain ⟨hc, hcs⟩ := not_or.1 (mt List.mem_cons.2 h)
    simp [cutFirst, Ne.symm hc, ih hcs]

/-- Only a text without the separator has no last one. -/
theorem cutLast_eq_none_iff {sep : Char} {cs : List Char} :
    cutLast sep cs = none ↔ sep ∉ cs := by
  induction cs with
  | nil => simp [cutLast]
  | cons c cs ih =>
    rw [cutLast]
    split
    · next h => simp [h] at ih; simp [ih]
    · next h =>
      simp only [h, true_iff] at ih
      by_cases hc : c = sep
      · simp [hc]
      · simpa [hc, ih] using Ne.symm hc

/-- A cut at the last separator loses nothing, and no separator stands after it. -/
theorem cutLast_eq_some {sep : Char} {cs before after : List Char}
    (h : cutLast sep cs = some (before, after)) :
    cs = before ++ sep :: after ∧ sep ∉ after := by
  induction cs generalizing before with
  | nil => simp [cutLast] at h
  | cons c cs ih =>
    rw [cutLast] at h
    split at h
    · next b a hcut =>
      obtain ⟨rfl, rfl⟩ : c :: b = before ∧ a = after := by simpa using h
      obtain ⟨hcs, ha⟩ := ih hcut
      exact ⟨by simp [hcs], ha⟩
    · next hcut =>
      split at h
      · next hc =>
        obtain ⟨rfl, rfl⟩ : [] = before ∧ cs = after := by simpa using h
        exact ⟨by simp [hc], cutLast_eq_none_iff.1 hcut⟩
      · simp at h

/-- The last separator is found behind any text when none follows it. -/
theorem cutLast_append_cons {sep : Char} (before : List Char) {after : List Char}
    (h : sep ∉ after) : cutLast sep (before ++ sep :: after) = some (before, after) := by
  induction before with
  | nil => simp [cutLast, cutLast_eq_none_iff.2 h]
  | cons c cs ih => simp [cutLast, ih]

/-- A text without the characters of the class `p` at its end. -/
def trimEnd (p : Char → Bool) (cs : List Char) : List Char := (cs.reverse.dropWhile p).reverse

/-- A text without the characters of the class `p` at its two ends. -/
def trim (p : Char → Bool) (cs : List Char) : List Char := trimEnd p (cs.dropWhile p)

@[simp] theorem trimEnd_nil (p : Char → Bool) : trimEnd p [] = [] := rfl

@[simp] theorem trim_nil (p : Char → Bool) : trim p [] = [] := rfl

/-- What is trimmed at the end is a part of the text. -/
theorem trimEnd_sublist (p : Char → Bool) (cs : List Char) : (trimEnd p cs).Sublist cs := by
  simpa [trimEnd] using (List.dropWhile_sublist p (l := cs.reverse)).reverse

/-- What is trimmed is a part of the text. -/
theorem trim_sublist (p : Char → Bool) (cs : List Char) : (trim p cs).Sublist cs :=
  (trimEnd_sublist p _).trans (List.dropWhile_sublist p)

/-- What is trimmed at the end goes on to the end of the text with characters of the class. -/
theorem trimEnd_append (p : Char → Bool) (cs : List Char) :
    trimEnd p cs ++ (cs.reverse.takeWhile p).reverse = cs := by
  rw [trimEnd, ← List.reverse_append, List.takeWhile_append_dropWhile, List.reverse_reverse]

/-- Behind a character that is not of the class, only the rest is trimmed. -/
theorem trimEnd_cons {p : Char → Bool} {c : Char} (hc : p c = false) (cs : List Char) :
    trimEnd p (c :: cs) = c :: trimEnd p cs := by
  have hrest : ∀ ds : List Char, (ds ++ [c]).dropWhile p = ds.dropWhile p ++ [c] := by
    intro ds
    induction ds with
    | nil => simp [hc]
    | cons d ds ih => cases hd : p d <;> simp [hd, ih]
  simp [trimEnd, hrest]

/-- No character of the class is left at the end. -/
theorem getLast?_trimEnd {p : Char → Bool} {cs : List Char} {c : Char}
    (h : (trimEnd p cs).getLast? = some c) : p c = false := by
  have hfront := List.head?_dropWhile_not p cs.reverse
  rw [trimEnd, List.getLast?_reverse] at h
  simpa [h] using hfront

/-- No character of the class is left at the end. -/
theorem getLast?_trim {p : Char → Bool} {cs : List Char} {c : Char}
    (h : (trim p cs).getLast? = some c) : p c = false :=
  getLast?_trimEnd h

/-- No character of the class is left at the front. -/
theorem head?_trim {p : Char → Bool} {cs : List Char} {c : Char}
    (h : (trim p cs).head? = some c) : p c = false := by
  have hfront := List.head?_dropWhile_not p cs
  rw [← trimEnd_append p (cs.dropWhile p)] at hfront
  rw [trim] at h
  simpa [h] using hfront

/-- A text without characters of the class at its ends is trimmed already. -/
theorem trim_eq_self {p : Char → Bool} {cs : List Char}
    (hfront : ∀ c, cs.head? = some c → p c = false)
    (hend : ∀ c, cs.getLast? = some c → p c = false) : trim p cs = cs := by
  have hdrop : ∀ ds : List Char, (∀ c, ds.head? = some c → p c = false) → ds.dropWhile p = ds := by
    intro ds h
    cases ds with
    | nil => rfl
    | cons d ds => simp [h d rfl]
  rw [trim, hdrop cs hfront, trimEnd, hdrop cs.reverse (by simpa using hend), List.reverse_reverse]

/-- The text before a last character `c`, when the text ends in `c`. -/
def stripLast (c : Char) (cs : List Char) : Option (List Char) :=
  if cs.getLast? = some c then some cs.dropLast else none

@[simp] theorem stripLast_append_singleton (c : Char) (cs : List Char) :
    stripLast c (cs ++ [c]) = some cs := by
  simp [stripLast]

/-- A text before its last character. -/
theorem eq_append_of_stripLast {c : Char} {cs rest : List Char} (h : stripLast c cs = some rest) :
    cs = rest ++ [c] := by
  simp only [stripLast, Option.ite_none_right_eq_some, Option.some.injEq] at h
  obtain ⟨hlast, rfl⟩ := h
  obtain ⟨front, rfl⟩ := List.getLast?_eq_some_iff.1 hlast
  simp

/-- Whether `needle` stands somewhere in a text. -/
def occursIn (needle : List Char) : List Char → Bool
  | [] => needle.isEmpty
  | c :: cs => needle.isPrefixOf (c :: cs) || occursIn needle cs

/-- A needle occurs in a text exactly when it is an infix of it. -/
theorem occursIn_iff {needle cs : List Char} : occursIn needle cs = true ↔ needle <:+: cs := by
  induction cs with
  | nil => simp [occursIn]
  | cons c cs ih => simp [occursIn, ih, List.infix_cons_iff]

/-- The number of bytes of a text in UTF-8. -/
def byteLength : List Char → Nat
  | [] => 0
  | c :: cs => c.utf8Size + byteLength cs

@[simp] theorem byteLength_nil : byteLength [] = 0 := rfl

@[simp] theorem byteLength_cons (c : Char) (cs : List Char) :
    byteLength (c :: cs) = c.utf8Size + byteLength cs := rfl

@[simp] theorem byteLength_append (cs ds : List Char) :
    byteLength (cs ++ ds) = byteLength cs + byteLength ds := by
  induction cs with
  | nil => simp
  | cons c cs ih => simp [ih, Nat.add_assoc]

/-- The rest of a text from a byte offset on, when the offset is a character boundary. -/
def dropBytes : Nat → List Char → Option (List Char)
  | 0, cs => some cs
  | _ + 1, [] => none
  | n + 1, c :: cs => if c.utf8Size ≤ n + 1 then dropBytes (n + 1 - c.utf8Size) cs else none

/-- The first character is dropped with all its bytes. -/
theorem dropBytes_cons (c : Char) (n : Nat) (cs : List Char) :
    dropBytes (c.utf8Size + n) (c :: cs) = dropBytes n cs := by
  obtain ⟨m, hm⟩ := Nat.exists_eq_add_one.2 (Nat.add_pos_left c.utf8Size_pos n)
  rw [hm, dropBytes, if_pos (hm ▸ Nat.le_add_right _ _), ← hm, Nat.add_sub_cancel_left]

/-- A text is cut at the byte length of its first part into exactly its two parts. -/
theorem dropBytes_byteLength (cs ds : List Char) :
    dropBytes (byteLength cs) (cs ++ ds) = some ds := by
  induction cs with
  | nil => cases ds <;> rfl
  | cons c cs ih => rw [byteLength_cons, List.cons_append, dropBytes_cons, ih]

end InputDeck.Text
