import InputDeck.Proofs.Expr.Names
import InputDeck.Proofs.Text.Outside

/-!
# Where tokens stand

Every token of a statement stands at an offset, the number of bytes in front of it. The scan of a
line for its assignment sign passes over the spelling of every other token: the signs inside of
comparisons touch each other or follow a sign that they join, and those inside of texts are quoted.
So it stops at the offset of the first assignment token behind words that end in an operand.
-/

namespace InputDeck

open InputDeck.Text InputDeck.Scan

namespace Token

/-- The tokens of what is left of a statement, each with its offset; `offset` is that of the first
character. -/
def placedFrom (total : Nat) (afterName : Bool) (offset : Nat) (cs : List Char) :
    Except EvalError (List (Token × Nat)) :=
  match cs with
  | [] => .ok []
  | c :: cs =>
    if isBlank c then placedFrom total afterName (offset + c.utf8Size) cs
    else
      match _ : next total afterName c cs with
      | .error e => .error e
      | .ok (t, rest) =>
        (placedFrom total t.endsName (offset + (byteLength (c :: cs) - byteLength rest)) rest).map
          ((t, offset) :: ·)
termination_by cs.length
decreasing_by
  · simp
  · exact Nat.lt_succ_of_le (length_next ‹_›)

/-- The tokens of a statement, each with its offset. -/
def placed (text : String) : Except EvalError (List (Token × Nat)) :=
  placedFrom text.length false 0 text.toList

/-- Without their offsets, the tokens are those that are parsed. -/
theorem map_placedFrom (total : Nat) (afterName : Bool) (offset : Nat) (cs : List Char) :
    (placedFrom total afterName offset cs).map (List.map Prod.fst) =
      tokensFrom total afterName cs := by
  fun_induction tokensFrom total afterName cs generalizing offset with
  | case1 => rw [placedFrom]; rfl
  | case2 afterName c cs hblank ih => rw [placedFrom, if_pos hblank, ih]
  | case3 afterName c cs hblank e hnext =>
    rw [placedFrom, if_neg hblank]
    split
    · next he =>
      obtain rfl := Except.error.inj (he.symm.trans hnext)
      rfl
    · next he => cases he.symm.trans hnext
  | case4 afterName c cs hblank t rest hnext ih =>
    rw [placedFrom, if_neg hblank]
    split
    · next he => cases he.symm.trans hnext
    · next he =>
      obtain ⟨rfl, rfl⟩ := Prod.mk.inj (Except.ok.inj (he.symm.trans hnext))
      rw [← ih]
      cases placedFrom _ _ _ _ <;> rfl

/-- In front of a token stand the words before it, and its offset is their length in bytes. -/
theorem exists_of_placedFrom {total offset n : Nat} {afterName : Bool} {cs : List Char}
    {front back : List (Token × Nat)} {t : Token}
    (h : placedFrom total afterName offset cs = .ok (front ++ (t, n) :: back)) :
    ∃ before used rest, cs = before ++ (used ++ rest) ∧ n = offset + byteLength before ∧
      Spelled (front.map Prod.fst) before ∧ Spells t used ∧
      (t = .symbol .assign → rest.head? ≠ some '=') := by
  fun_induction placedFrom total afterName offset cs generalizing front with
  | case1 => simp at h
  | case2 afterName offset c cs hblank ih =>
    obtain ⟨before, used, rest, rfl, rfl, hfront, hused, hrest⟩ := ih h
    exact ⟨c :: before, used, rest, rfl, by simp [Nat.add_assoc], .blank hblank hfront, hused,
      hrest⟩
  | case3 => cases h
  | case4 afterName offset c cs hblank u after hnext ih =>
    obtain ⟨placed, hplaced, heq⟩ := Except.map_eq_ok_iff.1 h
    obtain ⟨word, hsplit, hword, hassign⟩ := spells_of_next hnext
    cases front with
    | nil =>
      obtain ⟨htoken, -⟩ := List.cons.inj heq
      obtain ⟨rfl, rfl⟩ := Prod.mk.inj htoken
      exact ⟨[], word, after, hsplit, rfl, .nil, hword, hassign⟩
    | cons first front =>
      obtain ⟨rfl, rfl⟩ := List.cons.inj heq
      obtain ⟨before, used, rest, rfl, rfl, hfront, hused, hrest⟩ := ih hplaced
      refine ⟨word ++ before, used, rest, by simp [hsplit], ?_, .token hword (fun hu => ?_) hfront,
        hused, hrest⟩
      · have hbytes := congrArg byteLength hsplit
        simp only [byteLength_append] at hbytes ⊢
        rw [hbytes]
        omega
      · have hhead := hassign hu
        cases before with
        | nil => simp
        | cons d before => simpa using hhead

/-- The scan for the assignment sign passes over the spelling of any other token. -/
theorem Spells.cutAssignment_append {t : Token} {used : List Char} (h : Spells t used)
    (ht : t ≠ .symbol .assign) {front : Option Char} {s : State} (hs : s.quoted = false)
    (ds : List Char) :
    cutAssignment front s (used ++ ds) =
      (cutAssignment (used.getLast?.or front) (s.after used) ds).map
        fun parts => (used ++ parts.1, parts.2) := by
  cases h with
  | number _ hchars =>
    have hnot : ∀ c, isNumeralChar c = false → c ∉ used := by
      intro c hc hmem
      simp [hchars c hmem] at hc
    apply cutAssignment_append_of_notMem
    rw [hs, outside_of_notMem (hnot '"' (by decide))]
    exact hnot '=' (by decide)
  | name h =>
    apply cutAssignment_append_of_notMem
    rw [hs, outside_of_notMem (h.notMem (by decide))]
    exact h.notMem (by decide)
  | string h =>
    apply cutAssignment_append_of_notMem
    rw [hs, outside_quoted h]
    exact List.not_mem_nil
  | symbol symbol =>
    -- The signs of comparisons are passed over because of what stands next to them.
    cases symbol
    case assign => exact absurd rfl ht
    case lessEqual | greaterEqual | equal | notEqual =>
      simp [Symbol.spelling, cutAssignment, joinsAssignment, State.next, hs]
      try rfl
    all_goals
      apply cutAssignment_append_of_notMem
      rw [hs]
      decide
  | stars =>
    apply cutAssignment_append_of_notMem
    rw [hs]
    decide

/-- The scan for the assignment sign passes over words that have none. -/
theorem Spelled.cutAssignment_append {ts : List Token} {cs : List Char} (h : Spelled ts cs)
    (hassign : .symbol .assign ∉ ts) {front : Option Char} {s : State} (hs : s.quoted = false)
    (ds : List Char) :
    cutAssignment front s (cs ++ ds) =
      (cutAssignment (cs.getLast?.or front) (s.after cs) ds).map
        fun parts => (cs ++ parts.1, parts.2) := by
  induction h generalizing front s with
  | nil => simp
  | @blank c ts cs hc h ih =>
    have hother : ∀ d, isBlank d = false → c ≠ d := by
      rintro d hd rfl
      simp [hc] at hd
    have hfirst : '=' ∉ outside s.quoted [c] := by
      simp [outside, hs, hother '"' (by decide), (hother '=' (by decide)).symm]
    have hnext : (s.after [c]).quoted = false := by
      simp [State.quoted_next, hs, hother '"' (by decide)]
    rw [← List.singleton_append, List.append_assoc, cutAssignment_append_of_notMem hfirst,
      ih hassign hnext, Option.map_map, List.getLast?_append, Option.or_assoc, State.after_append]
    rfl
  | @token t used ts cs ht _ h ih =>
    obtain ⟨htoken, hwords⟩ := not_or.1 (mt List.mem_cons.2 hassign)
    have hused : (s.after used).quoted = false := by
      have hpaired : QuotesPaired used := ht.count_quote
      simp [State.quoted_after, hs, hpaired]
    rw [List.append_assoc, ht.cutAssignment_append (Ne.symm htoken) hs, ih hwords hused,
      Option.map_map, List.getLast?_append, Option.or_assoc, State.after_append]
    simp only [Function.comp_def, List.append_assoc]

/-- Behind words without a sign that end in an operand, the scan stops at the sign. -/
theorem Spelled.cutAssignment_assign {ts : List Token} {cs rest : List Char} (h : Spelled ts cs)
    (hassign : .symbol .assign ∉ ts) (hts : ∀ t, ts.getLast? = some t → t.endsOperand = true)
    (hrest : rest.head? ≠ some '=') :
    cutAssignment none {} (cs ++ '=' :: rest) = some (cs, rest) := by
  have hpaired : QuotesPaired cs := h.count_quote
  have hclosed : (State.after {} cs).quoted = false := by
    simp [State.quoted_after, hpaired]
  have hlast : (cs.getLast?.or none).any joinsAssignment = false := by
    cases hcs : cs.getLast? with
    | none => rfl
    | some c =>
      have hne : ∀ d, isBlank d = false → closesOperand d = false → c ≠ d := by
        rintro d hblank hd rfl
        exact h.getLast?_ne hts hblank hd hcs
      simp [joinsAssignment, hne '=' (by decide) rfl, hne '!' (by decide) rfl,
        hne '<' (by decide) rfl, hne '>' (by decide) rfl]
  rw [h.cutAssignment_append hassign rfl, cutAssignment, if_pos ⟨rfl, hclosed, hlast, hrest⟩]
  simp

end Token

end InputDeck
