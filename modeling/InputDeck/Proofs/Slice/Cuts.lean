import InputDeck.Proofs.Slice.Machine
import InputDeck.Proofs.Text.Enclosed

/-!
# Cuts of the machine

The machine reads both sides of a slice line without a fault. It cuts a text at offsets where it
found a bracket, a colon or a comma: these are characters of one byte, so the offsets in front of
them and behind them are in the text and boundaries of characters.
-/

namespace InputDeck.Slice.Machine

open InputDeck.Text InputDeck.Number InputDeck.Scan

/-! ## Outcomes -/

variable {α β : Type}

@[simp] theorem mk_ok_bind (a : α) (f : α → Checked β) :
    ((ExceptT.mk (some (.ok a)) : Checked α) >>= f) = f a := rfl

@[simp] theorem liftM_some_bind (a : α) (f : α → Checked β) :
    ((liftM (some a) : Checked α) >>= f) = f a := rfl

/-- A computation that is not stopped goes on with its outcome. -/
theorem run_bind {x : Checked α} {r : Except DeckError α} {f : α → Checked β}
    {g : α → Except DeckError β} (hx : x.run = some r)
    (hf : ∀ a, r = .ok a → (f a).run = some (g a)) : (x >>= f).run = some (r >>= g) := by
  obtain rfl : x = ExceptT.mk (some r) := hx
  cases r with
  | ok a => exact hf a rfl
  | error e => rfl

/-- What a computation that is not stopped returns may be changed. -/
theorem run_bind_pure {x : Checked α} {r : Except DeckError α} (hx : x.run = some r) (f : α → β) :
    (x >>= fun a => pure (f a)).run = some (r.map f) := by
  have hbind := run_bind (f := fun a => pure (f a)) (g := fun a => .ok (f a)) hx fun _ _ => rfl
  cases r <;> exact hbind

/-- What is done without a fault to each item is done without one to all. -/
theorem mapM_eq_some {f : α → Option β} {g : α → β} {xs : List α}
    (h : ∀ x ∈ xs, f x = some (g x)) : xs.mapM f = some (xs.map g) := by
  induction xs with
  | nil => rfl
  | cons x xs ih =>
    obtain ⟨hx, hxs⟩ := List.forall_mem_cons.1 h
    simp [hx, ih hxs]

/-- Computations that are not stopped one by one are not stopped one after the other. -/
theorem run_mapM {f : α → Checked β} {g : α → Except DeckError β} {xs : List α}
    (h : ∀ x ∈ xs, (f x).run = some (g x)) : (xs.mapM f).run = some (xs.mapM g) := by
  induction xs with
  | nil => rfl
  | cons x xs ih =>
    obtain ⟨hx, hxs⟩ := List.forall_mem_cons.1 h
    rw [List.mapM_cons, List.mapM_cons]
    exact run_bind hx fun _ _ => run_bind (ih hxs) fun _ _ => rfl

theorem add_eq_some {a b : Nat} (h : a + b < wordLimit) : add a b = some (a + b) := if_pos h

theorem sub_eq_some {a b : Nat} (h : b ≤ a) : sub a b = some (a - b) := if_pos h

/-! ## Reading -/

variable {location : Location}

/-- A text is cut where a character is found outside quotes. -/
theorem findUnquoted_eq_some {target : Char} {cs before after : List Char}
    (h : cutUnquoted target {} cs = some (before, after)) :
    findUnquoted target cs = some (byteLength before) := by
  rw [findUnquoted, h]
  rfl

/-- Behind a part of a text and a character of one byte, the rest of it is cut off. -/
theorem behind_byteLength {c : Char} (hc : c.utf8Size = 1) (cs : List Char) {ds : List Char}
    (h : byteLength (cs ++ c :: ds) < wordLimit) :
    behind (byteLength cs) (cs ++ c :: ds) = some ds := by
  simp only [byteLength_append, byteLength_cons, hc] at h
  have hdrop := dropBytes_byteLength (cs ++ [c]) ds
  simp only [byteLength_append, byteLength_cons, hc, byteLength_nil, List.append_assoc,
    List.singleton_append] at hdrop
  rw [behind, add_eq_some (by omega)]
  exact hdrop

/-- A side is cut at its first bracket into the texts in front of it, inside and behind it. -/
theorem cuts_of_bracket {rest before afterOpen inner after : List Char}
    (hopen : cutUnquoted '[' {} rest = some (before, afterOpen))
    (hclose : cutBracket afterOpen = some (inner, after)) (h : byteLength rest < wordLimit) :
    ∃ opening closing, findUnquoted '[' rest = some opening ∧
      matchingBracket rest opening = some closing ∧ byteRange 0 opening rest = some before ∧
      inside opening closing rest = some inner ∧
      through opening closing rest = some ('[' :: inner ++ [']']) ∧
      behind closing rest = some after := by
  have hsize : '['.utf8Size = 1 ∧ ']'.utf8Size = 1 := by decide
  have hfind := findUnquoted_eq_some hopen
  obtain rfl := eq_append_of_cutUnquoted hopen
  have hmatch : matchingBracket (before ++ '[' :: afterOpen) (byteLength before) =
      some (byteLength (before ++ '[' :: inner)) := by
    rw [matchingBracket, dropBytes_byteLength]
    simp [hclose, Nat.add_assoc]
  obtain rfl := eq_append_of_cutClosing hclose
  simp only [byteLength_append, byteLength_cons, hsize] at h
  refine ⟨_, _, hfind, hmatch, ?_, ?_, ?_, ?_⟩
  · exact byteRange_byteLength [] before _
  · have hrange := byteRange_byteLength (before ++ ['[']) inner (']' :: after)
    rw [inside, add_eq_some (by omega)]
    simpa [hsize, Nat.add_assoc] using hrange
  · have hrange := byteRange_byteLength before ('[' :: inner ++ [']']) after
    rw [through, add_eq_some (by simp [hsize]; omega)]
    simpa [hsize, Nat.add_assoc] using hrange
  · have hlt : byteLength ((before ++ '[' :: inner) ++ ']' :: after) < wordLimit := by
      simp [hsize]
      omega
    simpa using behind_byteLength hsize.2 (before ++ '[' :: inner) hlt

/-- A slice is cut at its colon into the texts of its bounds. -/
theorem cuts_of_colon {inner lowerText upperText : List Char}
    (hcolon : cutUnquoted ':' {} inner = some (lowerText, upperText))
    (h : byteLength inner < wordLimit) : ∃ colon, findUnquoted ':' inner = some colon ∧
      byteRange 0 colon inner = some lowerText ∧ behind colon inner = some upperText := by
  refine ⟨_, findUnquoted_eq_some hcolon, ?_, ?_⟩
  all_goals obtain rfl := eq_append_of_cutUnquoted hcolon
  · exact byteRange_byteLength [] lowerText _
  · exact behind_byteLength (by decide) lowerText h

/-- What stands inside a bracket and behind it is not longer than the whole. -/
theorem byteLength_lt_of_bracket {rest before afterOpen inner after : List Char}
    (hopen : cutUnquoted '[' {} rest = some (before, afterOpen))
    (hclose : cutBracket afterOpen = some (inner, after)) (h : byteLength rest < wordLimit) :
    byteLength inner < wordLimit ∧ byteLength after < wordLimit := by
  rw [eq_append_of_cutUnquoted hopen, eq_append_of_cutClosing hclose] at h
  simp only [byteLength_append, byteLength_cons] at h
  omega

/-- The machine reads a side without a fault. -/
theorem parseFrom_eq {side literal rest : List Char} (h : byteLength rest < wordLimit) :
    (parseFrom location side literal rest).run =
      some (Pattern.parseFrom location side literal rest) := by
  fun_induction Pattern.parseFrom location side literal rest with
  | case1 literal rest hopen =>
    rw [parseFrom, findUnquoted, hopen]
    rfl
  | case2 literal rest before afterOpen hopen hclose =>
    have hmatch : matchingBracket rest (byteLength before) = none := by
      rw [eq_append_of_cutUnquoted hopen, matchingBracket, dropBytes_byteLength]
      simp [hclose]
    rw [parseFrom, findUnquoted_eq_some hopen]
    simp only [hmatch]
    rfl
  | case3 literal rest before afterOpen hopen inner after hclose hcolon ih =>
    obtain ⟨opening, closing, hfind, hmatch, hbefore, hinner, hbracket, hafter⟩ :=
      cuts_of_bracket hopen hclose h
    rw [parseFrom, hfind]
    simp only [hmatch, hbefore, hinner, hbracket, liftM_some_bind, findUnquoted, hcolon,
      Option.map_none]
    split
    · next hnone => simp [hafter] at hnone
    · next found hfound =>
      obtain rfl : after = found := Option.some.inj (hafter.symm.trans hfound)
      rw [← ih (byteLength_lt_of_bracket hopen hclose h).2]
      simp
  | case4 literal rest before afterOpen hopen inner after hclose lowerText upperText hcut e
      hbounds =>
    obtain ⟨opening, closing, hfind, hmatch, hbefore, hinner, -⟩ :=
      cuts_of_bracket hopen hclose h
    obtain ⟨colon, hcolon, hlower, hupper⟩ :=
      cuts_of_colon hcut (byteLength_lt_of_bracket hopen hclose h).1
    rw [parseFrom, hfind]
    simp only [hmatch, hbefore, hinner, liftM_some_bind, hcolon, hlower, hupper, hbounds]
    rfl
  | case5 literal rest before afterOpen hopen inner after hclose lowerText upperText hcut lower
      upper hbounds ih =>
    obtain ⟨opening, closing, hfind, hmatch, hbefore, hinner, -, hafter⟩ :=
      cuts_of_bracket hopen hclose h
    obtain ⟨hltInner, hltAfter⟩ := byteLength_lt_of_bracket hopen hclose h
    obtain ⟨colon, hcolon, hlower, hupper⟩ := cuts_of_colon hcut hltInner
    rw [parseFrom, hfind]
    simp only [hmatch, hbefore, hinner, liftM_some_bind, hcolon, hlower, hupper, hbounds,
      mk_ok_bind]
    split
    · next hnone => simp [hafter] at hnone
    · next found hfound =>
      obtain rfl : after = found := Option.some.inj (hafter.symm.trans hfound)
      exact run_bind_pure (ih hltAfter) _

/-! ## Lists -/

/-- The pieces of a text between the offsets of its separators are those that it is split into. -/
theorem piecesAt_separatorsFrom {sep : Char} {front done rest : List Char} {parens : Nat}
    {s : State} (h : byteLength (front ++ done ++ rest) < wordLimit) :
    piecesAt sep (front ++ done ++ rest) (byteLength front)
        (separatorsFrom sep (byteLength (front ++ done)) parens s rest) =
      some ((splitFrom sep parens s rest).modifyHead (done ++ ·)) := by
  induction rest generalizing front done parens s with
  | nil =>
    rw [separatorsFrom, piecesAt, List.append_assoc, dropBytes_byteLength]
    simp [splitFrom]
  | cons c cs ih =>
    -- A character that is no separator goes on with the piece in front of it.
    have hgoes : ∀ parens, piecesAt sep (front ++ done ++ c :: cs) (byteLength front)
        (separatorsFrom sep (byteLength (front ++ done) + c.utf8Size) parens (s.next c) cs) =
        some (((splitFrom sep parens (s.next c) cs).modifyHead (c :: ·)).modifyHead
          (done ++ ·)) := by
      intro parens
      have hlater := @ih front (done ++ [c]) parens (s.next c) (by simpa using h)
      simpa [Function.comp_def, List.modifyHead_modifyHead, Nat.add_assoc] using hlater
    rw [separatorsFrom, splitFrom]
    split
    · split
      · exact hgoes _
      · split
        · exact hgoes _
        · split
          · next hsep =>
            obtain ⟨rfl, -⟩ := hsep
            have hpiece := byteRange_byteLength front done (c :: cs)
            have hlt : byteLength (front ++ done) + c.utf8Size < wordLimit := by
              simp only [byteLength_append, byteLength_cons] at h ⊢
              omega
            have hlater := @ih (front ++ done ++ [c]) [] parens (s.next c) (by simpa using h)
            simp only [List.append_nil, List.append_assoc, List.singleton_append,
              byteLength_append, byteLength_cons, byteLength_nil, Nat.add_zero] at hlater hpiece
            simp only [piecesAt, byteLength_append, List.append_assoc, hpiece,
              add_eq_some (byteLength_append front done ▸ hlt), Nat.add_assoc,
              Option.bind_eq_bind, Option.bind_some]
            rw [hlater]
            cases splitFrom c parens (s.next c) cs <;> simp
          · exact hgoes _
    · exact hgoes _

/-- The machine splits a text at its top-level separators without a fault. -/
theorem splitTopLevel_eq {sep : Char} {cs : List Char} (h : byteLength cs < wordLimit) :
    splitTopLevel sep cs = some (Scan.splitTopLevel sep cs) := by
  have hpieces := @piecesAt_separatorsFrom sep [] [] cs 0 {} h
  simp only [List.nil_append, byteLength_nil] at hpieces
  rw [splitTopLevel, hpieces, Scan.splitTopLevel]
  cases splitFrom sep 0 {} cs <;> simp

/-- There is one piece more than there are separators. -/
theorem length_splitFrom (sep : Char) (offset parens : Nat) (s : State) (cs : List Char) :
    (splitFrom sep parens s cs).length = (separatorsFrom sep offset parens s cs).length + 1 := by
  induction cs generalizing offset parens s with
  | nil => rfl
  | cons c cs ih =>
    rw [splitFrom, separatorsFrom]
    repeat' split
    all_goals simp [ih (offset + c.utf8Size)]

/-- A text is one bracket for the machine exactly when it is. -/
theorem isBracketLiteral_eq (cs : List Char) :
    isBracketLiteral cs = some (bracketLiteral? cs).isSome := by
  have hsize : '['.utf8Size = 1 ∧ ']'.utf8Size = 1 := by decide
  unfold isBracketLiteral
  split
  · next rest =>
    have hsub : sub (byteLength ('[' :: rest)) 1 = some (byteLength rest) := by
      rw [sub_eq_some (by simp [hsize])]
      simp [hsize]
    have hmatch : matchingBracket ('[' :: rest) 0 =
        (cutBracket rest).map fun parts => byteLength parts.1 + 1 := by
      simp [matchingBracket, dropBytes, hsize, Nat.add_comm]
    rw [hsub, hmatch, bracketLiteral?]
    cases hcut : cutBracket rest with
    | none => rfl
    | some parts =>
      obtain ⟨inner, after⟩ := parts
      obtain rfl := eq_append_of_cutClosing hcut
      cases after with
      | nil => simp [hsize]
      | cons c after =>
        have hc : 0 < c.utf8Size := Char.utf8Size_pos c
        have hne : 1 ≠ ']'.utf8Size + (c.utf8Size + byteLength after) := by omega
        simpa using hne
  · next hne =>
    have hnone : bracketLiteral? cs = none := by
      cases hliteral : bracketLiteral? cs with
      | none => rfl
      | some inner =>
        obtain ⟨rfl, -⟩ := bracketLiteral?_eq_some_iff.1 hliteral
        exact absurd rfl (hne _)
    rw [hnone]
    rfl

/-- The machine reads the items of a list without a fault. -/
theorem listItems_eq {value : List Char} (h : byteLength value < wordLimit) :
    listItems value = some ((CardLine.listText? value).map (Scan.splitTopLevel ',')) := by
  unfold listItems CardLine.listText?
  rw [isBracketLiteral_eq]
  cases hliteral : bracketLiteral? value with
  | some inner =>
    obtain ⟨rfl, -⟩ := bracketLiteral?_eq_some_iff.1 hliteral
    have hsize : '['.utf8Size = 1 ∧ ']'.utf8Size = 1 := by decide
    have hsub : sub (byteLength ('[' :: inner ++ [']'])) 1 = some (byteLength ('[' :: inner)) := by
      rw [sub_eq_some (by simp [hsize])]
      simp [hsize]
      omega
    have hrange : byteRange 1 (byteLength ('[' :: inner)) ('[' :: inner ++ [']']) = some inner := by
      simpa [hsize] using byteRange_byteLength ['['] inner [']']
    have hsplit : splitTopLevel ',' inner = some (Scan.splitTopLevel ',' inner) := by
      refine splitTopLevel_eq (Nat.lt_of_le_of_lt ?_ h)
      simp only [byteLength_append, byteLength_cons]
      omega
    simp only [Option.isSome_some, Option.bind_eq_bind, Option.bind_some, if_true, hsub, hrange,
      hsplit]
    rfl
  | none =>
    have hempty : (separatorsFrom ',' 0 0 {} value).isEmpty = !hasTopLevel ',' value := by
      rw [hasTopLevel, Scan.splitTopLevel, length_splitFrom ',' 0]
      cases separatorsFrom ',' 0 0 {} value <;> simp
    cases hcomma : hasTopLevel ',' value <;> simp [hempty, hcomma, splitTopLevel_eq h]

/-- The machine reads what is assigned to a slice without a fault. -/
theorem parseSource_eq {value : List Char} (h : byteLength value < wordLimit) :
    (parseSource location value).run = some (Source.parse location value) := by
  unfold parseSource Source.parse
  rw [listItems_eq h]
  cases CardLine.listText? value with
  | some text => rfl
  | none => exact run_bind_pure (parseFrom_eq h) Source.pattern

end InputDeck.Slice.Machine
