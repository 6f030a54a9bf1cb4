import InputDeck.Proofs.Text.Joining

/-!
# Where logical lines begin

The logical lines of a text stand in the order of its raw lines, each with raw lines of its own.
So a text can be cut in front of any logical line: what stands above makes the logical lines
before it, and what stands from its first raw line on makes it and the later ones.
-/

namespace InputDeck.LogicalLine

open InputDeck.Text

variable {settings : Settings}

/-- The logical lines of raw lines that are numbered from a line on. -/
def ofRaws (settings : Settings) (number : Nat) (raws : List (List Char)) : List LogicalLine :=
  gather settings none [] (fragmentsFrom settings number raws)

/-- The logical lines of a text are those of its raw lines, counted from one. -/
theorem ofText_eq_ofRaws (settings : Settings) (text : String) :
    ofText settings text = ofRaws settings 1 (lines text.toList) := rfl

/-- A logical line that is open keeps its number. -/
private theorem number_of_gather_some {pending : Open} {comments : List (List Char)}
    {items : List (Nat × Fragment)} {line : LogicalLine} {rest : List LogicalLine}
    (h : gather settings (some pending) comments items = line :: rest) :
    line.number = pending.number := by
  induction items generalizing pending comments with
  | nil =>
    obtain ⟨rfl, -⟩ := List.cons.inj h
    rfl
  | cons item items ih =>
    rw [gather] at h
    split at h
    · exact (ih h :)
    · obtain ⟨rfl, -⟩ := List.cons.inj h
      rfl

/-- A logical line has the number of its first fragment. -/
private theorem number_of_gather {item : Nat × Fragment} {items : List (Nat × Fragment)}
    {line : LogicalLine} {rest : List LogicalLine}
    (h : gather settings none [] (item :: items) = line :: rest) : line.number = item.1 := by
  rw [gather] at h
  split at h
  · exact number_of_gather_some h
  · obtain ⟨rfl, -⟩ := List.cons.inj h
    rfl

/-- The fragments of a logical line that others follow are followed by the fragments of these. -/
private theorem exists_of_gather_cons_cons {pending : Option Open} {comments : List (List Char)}
    {items : List (Nat × Fragment)} {first second : LogicalLine} {rest : List LogicalLine}
    (h : gather settings pending comments items = first :: second :: rest) :
    ∃ front back, items = front ++ back ∧
      (∀ others, gather settings pending comments (front ++ others) =
        first :: gather settings none [] others) ∧
      gather settings none [] back = second :: rest := by
  fun_induction gather settings pending comments items with
  | case1 comments line => simp at h
  | case2 comments => cases h
  | case3 pending comments number fragment items comments' head hhead ih =>
    obtain ⟨front, back, rfl, hfront, hback⟩ := ih h
    refine ⟨(number, fragment) :: front, back, rfl, fun others => ?_, hback⟩
    rw [List.cons_append, gather]
    simp only [hhead]
    exact hfront others
  | case4 pending comments number fragment items comments' hhead ih =>
    obtain ⟨rfl, hitems⟩ := List.cons.inj h
    refine ⟨[(number, fragment)], items, rfl, fun others => ?_, hitems⟩
    rw [List.singleton_append, gather]
    simp only [hhead]
    rfl

/-- The fragments of some logical lines can be cut in front of each of these. -/
private theorem exists_of_gather_append_cons {items : List (Nat × Fragment)}
    {front : List LogicalLine} {line : LogicalLine} {rest : List LogicalLine}
    (h : gather settings none [] items = front ++ line :: rest) :
    ∃ before item after, items = before ++ item :: after ∧
      gather settings none [] before = front ∧ line.number = item.1 ∧
      gather settings none [] (item :: after) = line :: rest := by
  induction front generalizing items with
  | nil =>
    cases items with
    | nil => cases h
    | cons item after => exact ⟨[], item, after, rfl, rfl, number_of_gather h, h⟩
  | cons first front ih =>
    obtain ⟨own, back, rfl, hown, hback⟩ : ∃ own back, items = own ++ back ∧
        (∀ others, gather settings none [] (own ++ others) =
          first :: gather settings none [] others) ∧
        gather settings none [] back = front ++ line :: rest := by
      cases front <;> exact exists_of_gather_cons_cons h
    obtain ⟨before, item, after, rfl, hbefore, hnumber, hafter⟩ := ih hback
    refine ⟨own ++ before, item, after, by simp, ?_, hnumber, hafter⟩
    rw [hown, hbefore]

/-- The raw lines of some fragments can be cut in front of the raw line of each. -/
private theorem exists_of_fragmentsFrom {number : Nat} {raws : List (List Char)}
    {before after : List (Nat × Fragment)} {item : Nat × Fragment}
    (h : fragmentsFrom settings number raws = before ++ item :: after) :
    ∃ above raw below, raws = above ++ raw :: below ∧
      isDropped settings (clean raw) = false ∧ item.1 = number + above.length ∧
      fragmentsFrom settings number above = before ∧
      fragmentsFrom settings item.1 (raw :: below) = item :: after := by
  induction raws generalizing number before with
  | nil => simp [fragmentsFrom] at h
  | cons raw raws ih =>
    have hcons : ∀ rest, fragmentsFrom settings number (raw :: rest) =
        fragmentsFrom settings number [raw] ++ fragmentsFrom settings (number + 1) rest :=
      fun rest => fragmentsFrom_append settings number [raw] rest
    cases hdropped : isDropped settings (clean raw) with
    | true =>
      have hraw : fragmentsFrom settings number [raw] = [] := by simp [fragmentsFrom, hdropped]
      rw [hcons, hraw, List.nil_append] at h
      obtain ⟨above, first, below, rfl, hfirst, hnumber, habove, hbelow⟩ := ih h
      refine ⟨raw :: above, first, below, rfl, hfirst, ?_, ?_, hbelow⟩
      · rw [hnumber, List.length_cons]
        omega
      · rw [hcons, hraw, habove, List.nil_append]
    | false =>
      have hraw : fragmentsFrom settings number [raw] =
          [(number, fragment settings (clean raw))] := by simp [fragmentsFrom, hdropped]
      cases before with
      | nil =>
        have hitem : (number, fragment settings (clean raw)) = item := by
          rw [hcons, hraw] at h
          exact (List.cons.inj h).1
        subst hitem
        exact ⟨[], raw, raws, rfl, hdropped, rfl, rfl, h⟩
      | cons first before =>
        rw [hcons, hraw] at h
        obtain ⟨rfl, hrest⟩ := List.cons.inj h
        obtain ⟨above, other, below, rfl, hother, hnumber, habove, hbelow⟩ := ih hrest
        refine ⟨raw :: above, other, below, rfl, hother, ?_, ?_, hbelow⟩
        · rw [hnumber, List.length_cons]
          omega
        · rw [hcons, hraw, habove, List.singleton_append]

/-- A logical line among those before and behind it, and the raw line that it begins with. -/
structure BeginsAt (settings : Settings) (text : String) (front : List LogicalLine)
    (line : LogicalLine) (rest : List LogicalLine) (above : List (List Char)) (raw : List Char)
    (below : List (List Char)) : Prop where
  /-- The raw line stands between others in the text. -/
  raws : lines text.toList = above ++ raw :: below
  /-- It is not dropped. -/
  kept : isDropped settings (clean raw) = false
  /-- Its number, counted from one, is that of the logical line. -/
  number : line.number = above.length + 1
  /-- What stands above it makes the logical lines before. -/
  earlier : ofRaws settings 1 above = front
  /-- What stands from it on makes the logical line and those behind. -/
  later : ofRaws settings line.number (raw :: below) = line :: rest

/-- Every logical line begins with a raw line. -/
theorem exists_beginsAt {text : String} {front : List LogicalLine} {line : LogicalLine}
    {rest : List LogicalLine} (h : ofText settings text = front ++ line :: rest) :
    ∃ above raw below, BeginsAt settings text front line rest above raw below := by
  obtain ⟨before, item, after, hitems, hbefore, hnumber, hafter⟩ := exists_of_gather_append_cons h
  rw [fragments_eq] at hitems
  obtain ⟨above, raw, below, hlines, hdropped, hplace, habove, hbelow⟩ :=
    exists_of_fragmentsFrom hitems
  refine ⟨above, raw, below, hlines, hdropped, by omega, ?_, ?_⟩
  · rw [ofRaws, habove, hbefore]
  · rw [hnumber, ofRaws, hbelow, hafter]

end InputDeck.LogicalLine
