import InputDeck.Scan

/-!
# Cuts at byte offsets

A text is held as bytes, and cut between two byte offsets. Such a cut is a fault unless the offsets
are in order, inside the text and at the boundaries of characters. Offsets that come from reading
the text are, so cutting at them is taking the text apart.
-/

namespace InputDeck.Text

variable {cs ds rest : List Char}

/-- A text has no more characters than bytes. -/
theorem length_le_byteLength (cs : List Char) : cs.length ≤ byteLength cs := by
  induction cs with
  | nil => exact Nat.le_refl _
  | cons c cs ih =>
    have hc : 0 < c.utf8Size := Char.utf8Size_pos c
    simp only [List.length_cons, byteLength_cons]
    omega

/-- The first bytes of a text, when their number is a character boundary. -/
def takeBytes : Nat → List Char → Option (List Char)
  | 0, _ => some []
  | _ + 1, [] => none
  | n + 1, c :: cs =>
    if c.utf8Size ≤ n + 1 then (takeBytes (n + 1 - c.utf8Size) cs).map (c :: ·) else none

/-- The text between two byte offsets, when they are in order and character boundaries. -/
def byteRange (start stop : Nat) (cs : List Char) : Option (List Char) :=
  if start ≤ stop then (dropBytes start cs).bind (takeBytes (stop - start)) else none

/-- The first character is taken with all its bytes. -/
theorem takeBytes_cons (c : Char) (n : Nat) (cs : List Char) :
    takeBytes (c.utf8Size + n) (c :: cs) = (takeBytes n cs).map (c :: ·) := by
  obtain ⟨m, hm⟩ := Nat.exists_eq_add_one.2 (Nat.add_pos_left c.utf8Size_pos n)
  rw [hm, takeBytes, if_pos (hm ▸ Nat.le_add_right _ _), ← hm, Nat.add_sub_cancel_left]

/-- A text is cut at the byte length of its first part into exactly that part. -/
theorem takeBytes_byteLength (cs ds : List Char) :
    takeBytes (byteLength cs) (cs ++ ds) = some cs := by
  induction cs with
  | nil => cases ds <;> rfl
  | cons c cs ih =>
    rw [byteLength_cons, List.cons_append, takeBytes_cons, ih]
    rfl

/-- What stands between two parts of a text is cut out at the byte lengths in front of its ends. -/
theorem byteRange_byteLength (cs ds rest : List Char) :
    byteRange (byteLength cs) (byteLength (cs ++ ds)) (cs ++ ds ++ rest) = some ds := by
  rw [byteRange, byteLength_append, if_pos (Nat.le_add_right _ _), List.append_assoc,
    dropBytes_byteLength, Nat.add_sub_cancel_left]
  exact takeBytes_byteLength ds rest

/-- What is cut off behind a byte is shorter. -/
theorem length_lt_of_dropBytes {n : Nat} (h : dropBytes (n + 1) cs = some ds) :
    ds.length < cs.length := by
  have hle : ∀ {m : Nat} {xs ys : List Char}, dropBytes m xs = some ys → ys.length ≤ xs.length := by
    intro m xs
    induction xs generalizing m with
    | nil =>
      intro ys h
      cases m <;> simp [dropBytes] at h
      simp [← h]
    | cons x xs ih =>
      intro ys h
      cases m with
      | zero =>
        obtain rfl := Option.some.inj h
        exact Nat.le_refl _
      | succ m =>
        rw [dropBytes] at h
        split at h
        · exact Nat.le_succ_of_le (ih h)
        · cases h
  cases cs with
  | nil => cases h
  | cons c cs =>
    rw [dropBytes] at h
    split at h
    · exact Nat.lt_succ_of_le (hle h)
    · cases h

/-- The characters of a text with their byte offsets, when the given number of bytes stands in front
of it. -/
def charIndices (offset : Nat) : List Char → List (Nat × Char)
  | [] => []
  | c :: cs => (offset, c) :: charIndices (offset + c.utf8Size) cs

theorem charIndices_append (offset : Nat) (cs ds : List Char) :
    charIndices offset (cs ++ ds) =
      charIndices offset cs ++ charIndices (offset + byteLength cs) ds := by
  induction cs generalizing offset with
  | nil => simp [charIndices]
  | cons c cs ih => simp [charIndices, ih, Nat.add_assoc]

@[simp] theorem map_snd_charIndices (offset : Nat) (cs : List Char) :
    (charIndices offset cs).map Prod.snd = cs := by
  induction cs generalizing offset with
  | nil => rfl
  | cons c cs ih => simp [charIndices, ih]

/-- The byte offset of the longest end of a text whose characters are all of a class, when it has
one. -/
def lastRunStart (p : Char → Bool) (cs : List Char) : Option Nat :=
  ((charIndices 0 cs).reverse.takeWhile fun entry => p entry.2).getLast?.map Prod.fst

/-- The longest end of a text whose characters are all of a class is cut off where it starts. -/
theorem lastRunStart_eq (p : Char → Bool) (cs : List Char) :
    lastRunStart p cs = (if (cs.reverse.takeWhile p).reverse = [] then none
      else some (byteLength (cs.reverse.dropWhile p).reverse)) := by
  generalize hrun : (cs.reverse.takeWhile p).reverse = run
  generalize hfront : (cs.reverse.dropWhile p).reverse = front
  have hsplit : cs = front ++ run := by
    rw [← hrun, ← hfront, ← List.reverse_append, List.takeWhile_append_dropWhile,
      List.reverse_reverse]
  have htake : (charIndices 0 cs).reverse.takeWhile (fun entry => p entry.2) =
      (charIndices (byteLength front) run).reverse := by
    have hall : ∀ entry ∈ (charIndices (byteLength front) run).reverse, p entry.2 = true := by
      intro entry hentry
      have hmem : entry.2 ∈ run := by
        rw [← map_snd_charIndices (byteLength front) run]
        exact List.mem_map_of_mem (List.mem_reverse.1 hentry)
      rw [← hrun, List.mem_reverse] at hmem
      exact List.all_eq_true.1 List.all_takeWhile _ hmem
    have hnone : (charIndices 0 front).reverse.takeWhile (fun entry => p entry.2) = [] := by
      rcases List.eq_nil_or_concat front with rfl | ⟨init, c, rfl⟩
      · rfl
      · have hc : cs.reverse.dropWhile p = c :: init.reverse := by
          rw [← List.reverse_reverse (cs.reverse.dropWhile p), hfront]
          simp
        have hlast : p c = false := by
          have hhead := List.head?_dropWhile_not p cs.reverse
          rwa [hc] at hhead
        simp [charIndices_append, charIndices, hlast]
    rw [hsplit, charIndices_append, List.reverse_append, Nat.zero_add,
      List.takeWhile_append_of_pos hall, hnone, List.append_nil]
  rw [lastRunStart, htake, List.getLast?_reverse]
  cases run <;> simp [charIndices]

end InputDeck.Text
