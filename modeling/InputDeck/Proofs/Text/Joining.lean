import InputDeck.LogicalLine
import InputDeck.Proofs.Compile.Simulation

/-!
# A text in front of another

The raw lines of two texts with a line feed between them are those of the one and then those of the
other. When the first text does not end in a line that goes on, the same is true of the logical
lines, but for the numbers of the later ones.
-/

namespace InputDeck

namespace Text

/-- A line in front of others is never the last part of nothing. -/
private theorem consLine_append (c : Char) {front : List (List Char)} (hne : front ≠ [])
    (rest : List (List Char)) : consLine c (front ++ rest) = consLine c front ++ rest := by
  cases front with
  | nil => exact absurd rfl hne
  | cons line front => rfl

/-- A character other than a line end opens a line, also when it is a carriage return. -/
private theorem lines_cons_of_ne {c : Char} {cs : List Char} (hn : c ≠ '\n')
    (hr : ∀ rest, c = '\r' → cs ≠ '\n' :: rest) : lines (c :: cs) = consLine c (lines cs) := by
  rw [lines]
  · exact hn
  · exact fun rest hc he => hr rest hc he

/-- A text with a line end has a line. -/
private theorem lines_append_newline_ne_nil (cs : List Char) : lines (cs ++ ['\n']) ≠ [] := by
  fun_induction lines cs with
  | case1 => simp
  | case2 cs ih => simp
  | case3 cs ih =>
    rw [List.cons_append, List.cons_append, lines]
    simp
  | case4 c cs hn hr ih =>
    rw [List.cons_append]
    by_cases hc : c = '\r' ∧ cs = []
    · obtain ⟨rfl, rfl⟩ := hc
      decide
    · rw [lines_cons_of_ne hn]
      · cases h : lines (cs ++ ['\n']) <;> simp [consLine]
      · rintro rest rfl he
        cases cs with
        | nil => exact hc ⟨rfl, rfl⟩
        | cons d cs =>
          obtain ⟨rfl, -⟩ := List.cons.inj he
          exact hr cs rfl rfl

/-- The lines of two texts with a line feed between them are those of the one and of the other. -/
theorem lines_append_cons_newline (cs ds : List Char) :
    lines (cs ++ '\n' :: ds) = lines (cs ++ ['\n']) ++ lines ds := by
  fun_induction lines cs with
  | case1 => simp
  | case2 cs ih => simpa using ih
  | case3 cs ih =>
    rw [List.cons_append, List.cons_append, lines, ih, List.cons_append, List.cons_append, lines]
    rfl
  | case4 c cs hn hr ih =>
    rw [List.cons_append, List.cons_append]
    by_cases hc : c = '\r' ∧ cs = []
    · obtain ⟨rfl, rfl⟩ := hc
      simp [lines]
    · have hnot : ∀ es rest, c = '\r' → cs ++ '\n' :: es ≠ '\n' :: rest := by
        rintro es rest rfl he
        cases cs with
        | nil => exact hc ⟨rfl, rfl⟩
        | cons d cs =>
          obtain ⟨rfl, -⟩ := List.cons.inj he
          exact hr cs rfl rfl
      rw [lines_cons_of_ne hn (hnot ds), lines_cons_of_ne hn (hnot []), ih,
        consLine_append c (lines_append_newline_ne_nil cs)]

/-- A text with a character has a line. -/
private theorem lines_cons_ne_nil (c : Char) (cs : List Char) : lines (c :: cs) ≠ [] := by
  generalize hds : c :: cs = ds
  fun_cases lines ds with
  | case1 => cases hds
  | case2 => simp
  | case3 => simp
  | case4 => cases h : lines cs <;> simp_all [consLine]

/-- A character in front of the first line stands there among the characters that are kept. -/
private theorem map_filter_consLine (p : Char → Bool) (c : Char) {rest : List (List Char)}
    (hne : rest ≠ []) : (consLine c rest).map (List.filter p) =
      (rest.map (List.filter p)).modifyHead ([c].filter p ++ ·) := by
  cases rest with
  | nil => exact absurd rfl hne
  | cons line rest =>
    by_cases hc : p c = true <;> simp [consLine, hc]

/-- A line end behind a text adds at most an empty line, but for the blanks of the last line. -/
theorem map_filter_lines_append_newline (p : Char → Bool) (hp : p '\r' = false) (cs : List Char) :
    (lines (cs ++ ['\n'])).map (List.filter p) = (lines cs).map (List.filter p) ∨
      (lines (cs ++ ['\n'])).map (List.filter p) = (lines cs).map (List.filter p) ++ [[]] := by
  fun_induction lines cs with
  | case1 => exact .inr rfl
  | case2 cs ih => exact ih.imp (by simp) (by simp)
  | case3 cs ih =>
    rw [List.cons_append, List.cons_append, lines]
    exact ih.imp (by simp) (by simp)
  | case4 c cs hn hr ih =>
    rw [List.cons_append]
    by_cases hc : c = '\r' ∧ cs = []
    · obtain ⟨rfl, rfl⟩ := hc
      simp [lines, consLine, hp]
    · have hnot : ∀ rest, c = '\r' → cs ++ ['\n'] ≠ '\n' :: rest := by
        rintro rest rfl he
        cases cs with
        | nil => exact hc ⟨rfl, rfl⟩
        | cons d cs =>
          obtain ⟨rfl, -⟩ := List.cons.inj he
          exact hr cs rfl rfl
      rw [lines_cons_of_ne hn hnot]
      cases cs with
      | nil => simp [lines, consLine]
      | cons d cs =>
        have hleft := lines_append_newline_ne_nil (d :: cs)
        have hright := lines_cons_ne_nil d cs
        rw [map_filter_consLine p c hleft, map_filter_consLine p c hright]
        rcases ih with ih | ih
        · exact .inl (by rw [ih])
        · right
          obtain ⟨line, rest, hlines⟩ := List.exists_cons_of_ne_nil hright
          rw [ih, hlines]
          rfl

end Text

namespace LogicalLine

open InputDeck.Text

/-- A logical line that stands further down. -/
def shift (count : Nat) (line : LogicalLine) : LogicalLine :=
  { line with number := line.number + count }

@[simp] theorem text_shift (count : Nat) (line : LogicalLine) :
    (line.shift count).text = line.text := rfl

/-- Whether the last line of a text that is not dropped goes on in the next one. -/
def endsOpen (settings : Settings) (text : String) : Bool :=
  (fragments settings text.toList).getLast?.any fun item =>
    (stripLast settings.continuationMark item.2.body).isSome

/-- The fragments of raw lines, numbered from a line on. -/
def fragmentsFrom (settings : Settings) (number : Nat) (raws : List (List Char)) :
    List (Nat × Fragment) :=
  (raws.zipIdx number).filterMap fun (raw, number) =>
    let line := clean raw
    if isDropped settings line then none else some (number, fragment settings line)

theorem fragments_eq (settings : Settings) (text : List Char) :
    fragments settings text = fragmentsFrom settings 1 (lines text) := rfl

theorem fragmentsFrom_append (settings : Settings) (number : Nat)
    (front rest : List (List Char)) :
    fragmentsFrom settings number (front ++ rest) =
      fragmentsFrom settings number front ++
        fragmentsFrom settings (number + front.length) rest := by
  rw [fragmentsFrom, List.zipIdx_append, List.filterMap_append]
  rfl

/-- Fragments further down have greater numbers. -/
private theorem fragmentsFrom_add (settings : Settings) (number count : Nat)
    (raws : List (List Char)) :
    fragmentsFrom settings (number + count) raws =
      (fragmentsFrom settings number raws).map fun item => (item.1 + count, item.2) := by
  induction raws generalizing number with
  | nil => rfl
  | cons raw raws ih =>
    have hrest := ih (number + 1)
    rw [Nat.add_right_comm] at hrest
    simp only [fragmentsFrom, List.zipIdx_cons, List.filterMap_cons] at hrest ⊢
    rw [hrest]
    by_cases hdropped : isDropped settings (clean raw) = true <;> simp [hdropped]

/-- Only the characters of a raw line that are kept decide about its fragment. -/
private theorem fragmentsFrom_congr (settings : Settings) (number : Nat)
    {front rest : List (List Char)}
    (h : front.map (List.filter fun c => c == ' ' || !isBlank c) =
      rest.map (List.filter fun c => c == ' ' || !isBlank c)) :
    fragmentsFrom settings number front = fragmentsFrom settings number rest := by
  induction front generalizing number rest with
  | nil =>
    obtain rfl := List.map_eq_nil_iff.1 h.symm
    rfl
  | cons raw front ih =>
    cases rest with
    | nil => cases h
    | cons other rest =>
      rw [List.map_cons, List.map_cons] at h
      obtain ⟨hraw, hrest⟩ := List.cons.inj h
      have hclean : clean raw = clean other := congrArg (List.dropWhile isSpace) hraw
      have := ih (number + 1) hrest
      simp only [fragmentsFrom, List.zipIdx_cons, List.filterMap_cons, hclean] at this ⊢
      rw [this]

/-- Only the characters of its raw lines that are kept decide about the logical lines of a text. -/
theorem ofText_congr (settings : Settings) {text other : String}
    (h : (lines text.toList).map (List.filter fun c => c == ' ' || !isBlank c) =
      (lines other.toList).map (List.filter fun c => c == ' ' || !isBlank c)) :
    ofText settings text = ofText settings other :=
  congrArg (gather settings none []) (fragmentsFrom_congr settings 1 h)

/-- A line end behind a text changes none of its fragments. -/
private theorem fragments_append_newline (settings : Settings) (text : List Char) :
    fragmentsFrom settings 1 (lines (text ++ ['\n'])) = fragments settings text := by
  rw [fragments_eq]
  obtain h | h := map_filter_lines_append_newline (fun c => c == ' ' || !isBlank c) (by decide) text
  · exact fragmentsFrom_congr settings 1 h
  · have hempty : (lines text ++ [[]]).map (List.filter fun c => c == ' ' || !isBlank c) =
        (lines text).map (List.filter fun c => c == ' ' || !isBlank c) ++ [[]] := by simp
    rw [fragmentsFrom_congr settings 1 (h.trans hempty.symm), fragmentsFrom_append]
    simp [fragmentsFrom, clean, isDropped]

/-- The fragments of two texts with a line feed between them are those of the one and of the other,
further down by the raw lines in front. -/
theorem fragments_append_cons_newline (settings : Settings) (front text : List Char) :
    fragments settings (front ++ '\n' :: text) =
      fragments settings front ++ (fragments settings text).map fun item =>
        (item.1 + (lines (front ++ ['\n'])).length, item.2) := by
  rw [fragments_eq, lines_append_cons_newline, fragmentsFrom_append, fragments_append_newline,
    fragmentsFrom_add, fragments_eq settings text]

/-- Fragments that end in no line that goes on make the same logical lines before others. -/
private theorem gather_append (settings : Settings) {front : List (Nat × Fragment)}
    (rest : List (Nat × Fragment)) {pending : Option Open} {comments : List (List Char)}
    (hempty : front = [] → pending = none ∧ comments = [])
    (hfront : front.getLast?.any (fun item =>
      (stripLast settings.continuationMark item.2.body).isSome) = false) :
    gather settings pending comments (front ++ rest) =
      gather settings pending comments front ++ gather settings none [] rest := by
  fun_induction gather settings pending comments front with
  | case1 comments line =>
    obtain ⟨hpending, -⟩ := hempty rfl
    cases hpending
  | case2 comments =>
    obtain ⟨-, rfl⟩ := hempty rfl
    rfl
  | case3 pending comments number fragment others comments' head hhead ih =>
    have hne : others ≠ [] := by
      rintro rfl
      simp [hhead] at hfront
    rw [List.cons_append, gather]
    simp only [hhead]
    refine ih (fun h => absurd h hne) ?_
    rwa [List.getLast?_cons_of_ne_nil hne] at hfront
  | case4 pending comments number fragment others comments' hhead ih =>
    rw [List.cons_append, gather]
    simp only [hhead, List.cons_append]
    refine congrArg _ (ih (fun _ => ⟨rfl, rfl⟩) ?_)
    cases others with
    | nil => rfl
    | cons other others => rwa [List.getLast?_cons_cons] at hfront

/-- Fragments further down make the same logical lines further down. -/
private theorem gather_add (settings : Settings) (count : Nat) (rest : List (Nat × Fragment))
    (pending : Option Open) (comments : List (List Char)) :
    gather settings (pending.map fun line => { line with number := line.number + count }) comments
        (rest.map fun item => (item.1 + count, item.2)) =
      (gather settings pending comments rest).map (shift count) := by
  fun_induction gather settings pending comments rest with
  | case1 comments line => rfl
  | case2 comments => rfl
  | case3 pending comments number fragment others comments' head hhead ih =>
    rw [← ih, List.map_cons, gather]
    simp only [hhead]
    cases pending <;> rfl
  | case4 pending comments number fragment others comments' hhead ih =>
    rw [List.map_cons, gather]
    simp only [hhead, List.map_cons]
    rw [← ih]
    cases pending <;> rfl

/-- When the first of two texts does not end in a line that goes on, their logical lines are those
of the one and of the other, further down by the raw lines in front. -/
theorem ofText_append {settings : Settings} {front : String} (text : String)
    (h : endsOpen settings front = false) :
    ofText settings (front ++ "\n" ++ text) =
      ofText settings front ++ (ofText settings text).map
        (shift (lines (front.toList ++ ['\n'])).length) := by
  have hsplit : (front ++ "\n" ++ text).toList = front.toList ++ '\n' :: text.toList := by simp
  rw [ofText, hsplit, fragments_append_cons_newline,
    gather_append settings _ (fun _ => ⟨rfl, rfl⟩) h]
  exact congrArg _ (gather_add settings _ _ none [])

end LogicalLine

end InputDeck
