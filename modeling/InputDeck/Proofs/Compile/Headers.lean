import InputDeck.Proofs.Compile.Simulation

/-!
# The headers of a text

Only headers move the cursor and declare suits. So the suits that a compilation declares can be
told from the lines alone, by following the cursor from header to header.
-/

namespace InputDeck

/-- The suits that the headers of lines declare, when they are read from a cursor on. -/
def SuitCursor.declared (settings : Settings) (cursor : SuitCursor) :
    List LogicalLine → List SuitPath
  | [] => []
  | line :: rest =>
    if isHeader settings line.text then
      match cursor.enter settings line.text line.number with
      | .ok next => next.current :: next.declared settings rest
      | .error _ => []
    else cursor.declared settings rest

/-- Lines without headers declare nothing. -/
theorem SuitCursor.declared_eq_nil {settings : Settings} {cursor : SuitCursor}
    {lines : List LogicalLine} (h : ∀ line ∈ lines, isHeader settings line.text = false) :
    cursor.declared settings lines = [] := by
  induction lines with
  | nil => rfl
  | cons line lines ih =>
    rw [declared, if_neg (by simp [h line List.mem_cons_self])]
    exact ih fun other hother => h other (List.mem_cons_of_mem _ hother)

/-- The suits of a list behind others, without those that are there already. -/
def addSuits (suits : List SuitPath) (added : List SuitPath) : List SuitPath :=
  added.foldl (fun suits suit => if suit ∈ suits then suits else suits ++ [suit]) suits

/-- Adding suits loses none and adds no others. -/
@[simp] theorem mem_addSuits {suits added : List SuitPath} {suit : SuitPath} :
    suit ∈ addSuits suits added ↔ suit ∈ suits ∨ suit ∈ added := by
  induction added generalizing suits with
  | nil => simp [addSuits]
  | cons first added ih =>
    rw [addSuits, List.foldl_cons]
    change suit ∈ addSuits _ added ↔ _
    rw [ih, List.mem_cons]
    split
    · next hfirst =>
      constructor
      · exact Or.imp_right .inr
      · rintro (h | rfl | h)
        · exact .inl h
        · exact .inl hfirst
        · exact .inr h
    · simp [or_assoc]

namespace Progress

variable {σ : Type} [Evaluator σ] {p q : Progress σ}

/-- A statement moves no cursor and declares no suit. -/
theorem cursor_of_send {statement : String} {location : Location} {hint report : Option String}
    (h : send statement location hint p = .ok report q) :
    q.cursor = p.cursor ∧ q.compiled.suits = p.compiled.suits := by
  obtain ⟨engine, -, rfl⟩ := send_eq_ok_iff.1 h
  exact ⟨rfl, rfl⟩

/-- An assignment moves no cursor and declares no suit. -/
theorem cursor_of_assign {name value : String} {location : Location} {comment : Option String}
    (h : assign name value location comment p = .ok () q) :
    q.cursor = p.cursor ∧ q.compiled.suits = p.compiled.suits := by
  obtain ⟨report, engine, -, rfl⟩ := assign_eq_ok_iff.1 h
  exact ⟨rfl, rfl⟩

/-- Assignments move no cursor and declare no suit. -/
theorem cursor_of_assignAll {location : Location} {comment : Option String}
    {pairs : List (String × String)} (h : assignAll location comment pairs p = .ok () q) :
    q.cursor = p.cursor ∧ q.compiled.suits = p.compiled.suits := by
  induction pairs generalizing p comment with
  | nil =>
    cases h
    exact ⟨rfl, rfl⟩
  | cons pair pairs ih =>
    obtain ⟨_, middle, hfirst, h⟩ := EStateM.bind_eq_ok_iff.1 h
    have hsame := cursor_of_assign hfirst
    rw [← hsame.1, ← hsame.2]
    exact ih h

/-- A line that is no suit header moves no cursor and declares no suit. -/
theorem cursor_of_compileCardLine {line : LogicalLine} (h : compileCardLine line p = .ok () q) :
    q.cursor = p.cursor ∧ q.compiled.suits = p.compiled.suits := by
  rcases compileCardLine_cases h with ⟨-, report, hsend⟩ | ⟨-, pairs, -, h⟩
  · exact cursor_of_send hsend
  · exact cursor_of_assignAll h

/-- The suits that lines declare come behind those that were declared before. -/
theorem suits_of_compileLines {settings : Settings} {lines : List LogicalLine}
    (h : compileLines settings lines p = .ok () q) :
    q.compiled.suits = addSuits p.compiled.suits (p.cursor.declared settings lines) := by
  induction lines generalizing p with
  | nil =>
    cases h
    rfl
  | cons line lines ih =>
    obtain ⟨_, middle, hline, h⟩ := EStateM.bind_eq_ok_iff.1 h
    rw [ih h, SuitCursor.declared]
    rcases compileLine_cases hline with ⟨hheader, cursor, hcursor, rfl⟩ | ⟨hheader, hcard⟩
    · rw [if_pos hheader, hcursor]
      rfl
    · rw [if_neg (by simp [hheader])]
      obtain ⟨hcursor, hsuits⟩ := cursor_of_compileCardLine hcard
      rw [hcursor, hsuits]

end Progress

end InputDeck
