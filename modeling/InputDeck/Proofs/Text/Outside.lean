import InputDeck.Proofs.Text.Quotes

/-!
# What stands outside quotes

Every scan of a line looks only at the characters outside quotes. So a scan for a character that
does not stand there finds nothing, brackets that do not stand there open nothing, and blanks that
do not stand there are not stripped.
-/

namespace InputDeck.Scan

open InputDeck.Text

/-- The characters of a text outside its quotes, when a quote is open in front of it or is not. -/
def outside (quoted : Bool) : List Char → List Char
  | [] => []
  | c :: cs =>
    if c = '"' then outside (!quoted) cs
    else if quoted then outside quoted cs
    else c :: outside quoted cs

/-- What stands outside quotes behind a character stands outside quotes with it. -/
theorem outside_next_subset (s : State) (c : Char) (cs : List Char) :
    outside (s.next c).quoted cs ⊆ outside s.quoted (c :: cs) := by
  rw [outside]
  split
  · next hc =>
    rw [hc, State.quoted_next_quote]
    exact List.Subset.refl _
  · next hc =>
    rw [State.quoted_next_of_ne hc]
    split
    · exact List.Subset.refl _
    · exact List.subset_cons_self c _

/-- A character that is not quoted stands outside quotes. -/
theorem mem_outside_cons {c : Char} (hc : c ≠ '"') {quoted : Bool}
    (hquoted : quoted = false) (cs : List Char) : c ∈ outside quoted (c :: cs) := by
  rw [outside, if_neg hc, hquoted]
  exact List.mem_cons_self

/-- What stands outside quotes is a part of the text. -/
theorem outside_subset (quoted : Bool) (cs : List Char) : outside quoted cs ⊆ cs := by
  induction cs generalizing quoted with
  | nil => exact List.Subset.refl _
  | cons c cs ih =>
    have hrest : ∀ quoted, outside quoted cs ⊆ c :: cs := fun quoted =>
      List.Subset.trans (ih quoted) (List.subset_cons_self c cs)
    rw [outside]
    split
    · exact hrest _
    · split
      · exact hrest _
      · exact List.cons_subset_cons c (ih quoted)

/-- Without quotes, a text stands outside quotes as a whole. -/
theorem outside_of_notMem {cs : List Char} (h : '"' ∉ cs) : outside false cs = cs := by
  induction cs with
  | nil => rfl
  | cons c cs ih =>
    obtain ⟨hc, hcs⟩ := not_or.1 (mt List.mem_cons.2 h)
    rw [outside, if_neg (Ne.symm hc), if_neg (by simp), ih hcs]

/-- Behind a text with an odd number of quotes, a quote is open when none was in front of it, and
the other way around. -/
theorem outside_append_eq (quoted : Bool) (cs ds : List Char) :
    outside quoted (cs ++ ds) =
      outside quoted cs ++ outside (quoted ^^ !decide (QuotesPaired cs)) ds := by
  induction cs generalizing quoted with
  | nil => simp [outside, QuotesPaired]
  | cons c cs ih =>
    rw [List.cons_append, outside, outside]
    by_cases hc : c = '"'
    · subst hc
      rw [if_pos rfl, if_pos rfl, ih]
      by_cases hcs : QuotesPaired cs <;> simp [QuotesPaired.cons_quote_iff, hcs]
    · rw [if_neg hc, if_neg hc, ih]
      simp only [QuotesPaired.cons_iff hc]
      cases quoted <;> rfl

/-- What stands outside the quotes of two texts, where the first one leaves no quote open. -/
theorem outside_append {cs : List Char} (h : QuotesPaired cs) (ds : List Char) :
    outside false (cs ++ ds) = outside false cs ++ outside false ds := by
  simp [outside_append_eq, h]

/-- Between quotes, nothing stands outside them. -/
theorem outside_quoted {cs : List Char} (h : '"' ∉ cs) :
    outside false ('"' :: cs ++ ['"']) = [] := by
  have hrest : outside true (cs ++ ['"']) = [] := by
    induction cs with
    | nil => rfl
    | cons c cs ih =>
      obtain ⟨hc, hcs⟩ := not_or.1 (mt List.mem_cons.2 h)
      rw [List.cons_append, outside, if_neg (Ne.symm hc), if_pos rfl, ih hcs]
  rw [List.cons_append, outside, if_pos rfl]
  exact hrest

/-- What does not stand outside quotes is not found there. -/
theorem cutUnquoted_eq_none {target : Char} {s : State} {cs : List Char} (htarget : target ≠ '"')
    (h : target ∉ outside s.quoted cs) : cutUnquoted target s cs = none := by
  induction cs generalizing s with
  | nil => rfl
  | cons c cs ih =>
    rw [cutUnquoted, if_neg, ih fun hmem => h (outside_next_subset s c cs hmem), Option.map_none]
    rintro ⟨rfl, hquoted⟩
    exact h (mem_outside_cons htarget hquoted cs)

/-- Behind a text in which a character is not found, it is found where it is found in the rest. -/
theorem cutUnquoted_append {target : Char} {s : State} {cs : List Char}
    (h : cutUnquoted target s cs = none) (ds : List Char) :
    cutUnquoted target s (cs ++ ds) =
      (cutUnquoted target (s.after cs) ds).map fun parts => (cs ++ parts.1, parts.2) := by
  induction cs generalizing s with
  | nil => simp
  | cons c cs ih =>
    rw [cutUnquoted] at h
    split at h
    · cases h
    · next hc =>
      rw [Option.map_eq_none_iff] at h
      rw [List.cons_append, cutUnquoted, if_neg hc, ih h, Option.map_map]
      rfl

/-- Behind a text in which no sign stands outside quotes, the assignment sign is found where it is
found in the rest. -/
theorem cutAssignment_append_of_notMem {front : Option Char} {s : State} {cs : List Char}
    (h : '=' ∉ outside s.quoted cs) (ds : List Char) :
    cutAssignment front s (cs ++ ds) =
      (cutAssignment (cs.getLast?.or front) (s.after cs) ds).map
        fun parts => (cs ++ parts.1, parts.2) := by
  induction cs generalizing front s with
  | nil => simp
  | cons c cs ih =>
    have hlast : (c :: cs).getLast?.or front = cs.getLast?.or (some c) := by
      cases cs with
      | nil => rfl
      | cons d cs => simp [List.getLast?_cons]
    rw [List.cons_append, cutAssignment, if_neg,
      ih fun hmem => h (outside_next_subset s c cs hmem), hlast, Option.map_map]
    · rfl
    · rintro ⟨rfl, hquoted, -⟩
      exact h (mem_outside_cons (by decide) hquoted cs)

/-- The assignment sign is cut out behind a text that it does not stand in outside quotes. -/
theorem cutAssignment_append {cs ds : List Char} (hpaired : QuotesPaired cs)
    (h : '=' ∉ outside false cs) (hlast : cs.getLast?.any joinsAssignment = false)
    (hds : ds.head? ≠ some '=') : cutAssignment none {} (cs ++ '=' :: ds) = some (cs, ds) := by
  have hclosed : (State.after {} cs).quoted = false := by
    rw [State.quoted_after]
    simpa using hpaired
  rw [cutAssignment_append_of_notMem h, cutAssignment,
    if_pos ⟨rfl, hclosed, by simpa using hlast, hds⟩]
  simp

/-- A character that is no bracket outside quotes opens and closes no bracket. -/
private theorem depth_next {s : State} {c : Char} {cs : List Char}
    (hopen : '[' ∉ outside s.quoted (c :: cs)) (hclose : ']' ∉ outside s.quoted (c :: cs)) :
    (s.next c).depth = s.depth := by
  unfold State.next
  repeat' split
  · rfl
  · rfl
  · next hc hquoted hbracket =>
    subst hbracket
    exact absurd (mem_outside_cons hc (by simpa using hquoted) cs) hopen
  · next hc hquoted _ hbracket =>
    subst hbracket
    exact absurd (mem_outside_cons hc (by simpa using hquoted) cs) hclose
  · rfl

/-- Without brackets outside quotes, as many brackets are open behind a text as in front of it. -/
theorem State.depth_after {s : State} {cs : List Char} (hopen : '[' ∉ outside s.quoted cs)
    (hclose : ']' ∉ outside s.quoted cs) : (s.after cs).depth = s.depth := by
  induction cs generalizing s with
  | nil => rfl
  | cons c cs ih =>
    rw [State.after_cons, ih (fun hmem => hopen (outside_next_subset s c cs hmem))
      fun hmem => hclose (outside_next_subset s c cs hmem), depth_next hopen hclose]

/-- With its quotes paired and without brackets outside them, a text leaves open what was open. -/
theorem State.after_eq_self {s : State} {cs : List Char} (hpaired : QuotesPaired cs)
    (hopen : '[' ∉ outside s.quoted cs) (hclose : ']' ∉ outside s.quoted cs) : s.after cs = s := by
  have hquoted : (s.after cs).quoted = s.quoted := by simp [State.quoted_after, hpaired]
  have hdepth := State.depth_after hopen hclose
  calc s.after cs = ⟨(s.after cs).quoted, (s.after cs).depth⟩ := rfl
    _ = s := by rw [hquoted, hdepth]

/-- Behind a text without brackets outside quotes, the brackets of the rest have to have their
partners. -/
theorem balancedFrom_append_of_notMem {s : State} {cs : List Char}
    (hopen : '[' ∉ outside s.quoted cs) (hclose : ']' ∉ outside s.quoted cs) (ds : List Char) :
    balancedFrom s (cs ++ ds) = balancedFrom (s.after cs) ds := by
  induction cs generalizing s with
  | nil => rfl
  | cons c cs ih =>
    have hlone : (c == ']' && s.isNormal) = false := by
      apply Bool.eq_false_iff.2
      intro h
      simp only [State.isNormal, Bool.and_eq_true, beq_iff_eq, Bool.not_eq_true'] at h
      obtain ⟨rfl, hquoted, -⟩ := h
      exact hclose (mem_outside_cons (by decide) hquoted cs)
    rw [List.cons_append, balancedFrom, hlone,
      ih (fun hmem => hopen (outside_next_subset s c cs hmem))
        fun hmem => hclose (outside_next_subset s c cs hmem)]
    rfl

/-- Without brackets outside quotes, all brackets have their partners when none is open. -/
theorem balancedFrom_of_outside {s : State} {cs : List Char} (hopen : '[' ∉ outside s.quoted cs)
    (hclose : ']' ∉ outside s.quoted cs) : balancedFrom s cs = (s.depth == 0) := by
  rw [← List.append_nil cs, balancedFrom_append_of_notMem hopen hclose, balancedFrom,
    State.depth_after hopen hclose]

/-- A text is one piece when no separator stands outside its quotes. -/
theorem splitFrom_eq_singleton {sep : Char} {parens : Nat} {s : State} {cs : List Char}
    (hsep : sep ≠ '"') (h : sep ∉ outside s.quoted cs) : splitFrom sep parens s cs = [cs] := by
  induction cs generalizing parens s with
  | nil => rfl
  | cons c cs ih =>
    have hrest : ∀ parens, splitFrom sep parens (s.next c) cs = [cs] :=
      fun parens => ih fun hmem => h (outside_next_subset s c cs hmem)
    unfold splitFrom
    simp only [hrest, List.modifyHead_cons]
    split
    · next hnormal =>
      have hne : ¬(c = sep ∧ parens = 0) := by
        rintro ⟨rfl, -⟩
        simp only [State.isNormal, Bool.and_eq_true, Bool.not_eq_true'] at hnormal
        exact h (mem_outside_cons hsep hnormal.1 cs)
      rw [if_neg hne]
      repeat' split
      all_goals rfl
    · rfl

/-- Nothing is stripped when no blank stands outside quotes. -/
theorem stripUnquoted_eq_self {cs : List Char} (hpaired : QuotesPaired cs)
    (h : ∀ c ∈ outside false cs, isBlank c = false) : stripUnquoted cs = some cs := by
  have hall : ∀ {quoted : Bool}, cs.count '"' % 2 = quoted.toNat →
      (∀ c ∈ outside quoted cs, isBlank c = false) → stripUnquotedFrom quoted cs = some cs := by
    clear hpaired h
    induction cs with
    | nil =>
      intro quoted hcount _
      cases quoted with
      | false => rfl
      | true => simp at hcount
    | cons c cs ih =>
      intro quoted hcount h
      rw [outside] at h
      rw [stripUnquotedFrom]
      by_cases hc : c = '"'
      · subst hc
        rw [List.count_cons_self] at hcount
        rw [if_pos rfl] at h ⊢
        rw [ih _ h, Option.map_some]
        cases quoted <;> simp at hcount ⊢ <;> omega
      · rw [List.count_cons_of_ne hc] at hcount
        rw [if_neg hc] at h ⊢
        cases quoted with
        | true =>
          rw [if_pos (by simp), ih hcount (by simpa using h), Option.map_some]
        | false =>
          rw [if_neg (by simp)] at h
          rw [if_pos (by simp [h c List.mem_cons_self]),
            ih hcount fun d hd => h d (List.mem_cons_of_mem _ hd), Option.map_some]
  exact hall hpaired h

/-- Behind paired quotes, blanks are stripped as if the rest stood alone. -/
theorem stripUnquoted_append {cs : List Char} (hpaired : QuotesPaired cs) (ds : List Char) :
    stripUnquoted (cs ++ ds) =
      (stripUnquoted cs).bind fun front => (stripUnquoted ds).map (front ++ ·) := by
  have hall : ∀ {quoted : Bool}, cs.count '"' % 2 = quoted.toNat →
      stripUnquotedFrom quoted (cs ++ ds) = (stripUnquotedFrom quoted cs).bind
        fun front => (stripUnquotedFrom false ds).map (front ++ ·) := by
    clear hpaired
    induction cs with
    | nil =>
      intro quoted hcount
      cases quoted with
      | false => simp [stripUnquotedFrom]
      | true => simp at hcount
    | cons c cs ih =>
      intro quoted hcount
      have hkept : ∀ {quoted : Bool}, cs.count '"' % 2 = quoted.toNat →
          (stripUnquotedFrom quoted (cs ++ ds)).map (c :: ·) =
            ((stripUnquotedFrom quoted cs).map (c :: ·)).bind
              fun front => (stripUnquotedFrom false ds).map (front ++ ·) := by
        intro quoted hcount
        rw [ih hcount]
        cases stripUnquotedFrom quoted cs <;> cases stripUnquotedFrom false ds <;> simp
      rw [List.cons_append, stripUnquotedFrom, stripUnquotedFrom]
      by_cases hc : c = '"'
      · subst hc
        rw [List.count_cons_self] at hcount
        rw [if_pos rfl, if_pos rfl]
        apply hkept
        cases quoted <;> simp at hcount ⊢ <;> omega
      · rw [List.count_cons_of_ne hc] at hcount
        rw [if_neg hc, if_neg hc]
        split
        · exact hkept hcount
        · exact ih hcount
  exact hall hpaired

/-- Of blanks alone, nothing is left when blanks are stripped. -/
theorem stripUnquoted_of_isBlank {cs : List Char} (h : ∀ c ∈ cs, isBlank c = true) :
    stripUnquoted cs = some [] := by
  rw [stripUnquoted]
  induction cs with
  | nil => rfl
  | cons c cs ih =>
    have hblank := h c List.mem_cons_self
    have hquote : c ≠ '"' := by
      rintro rfl
      exact absurd hblank (by decide)
    rw [stripUnquotedFrom, if_neg hquote, if_neg (by simp [hblank])]
    exact ih fun d hd => h d (List.mem_cons_of_mem _ hd)

/-- Without quotes, every blank is stripped. -/
theorem stripUnquoted_of_notMem {cs : List Char} (h : '"' ∉ cs) :
    stripUnquoted cs = some (withoutBlanks cs) := by
  rw [stripUnquoted]
  induction cs with
  | nil => rfl
  | cons c cs ih =>
    obtain ⟨hc, hcs⟩ := not_or.1 (mt List.mem_cons.2 h)
    rw [stripUnquotedFrom, if_neg (Ne.symm hc), ih hcs]
    cases hblank : isBlank c <;> simp [withoutBlanks, hblank]

/-- A text whose blanks are stripped begins with none. -/
theorem isBlank_head?_stripUnquoted {cs ds : List Char} (h : stripUnquoted cs = some ds) :
    ∀ c ∈ ds.head?, isBlank c = false := by
  rw [stripUnquoted] at h
  induction cs with
  | nil =>
    obtain rfl := Option.some.inj h
    rintro c ⟨⟩
  | cons c cs ih =>
    rw [stripUnquotedFrom] at h
    split at h
    · next hquote =>
      obtain ⟨ds, -, rfl⟩ := Option.map_eq_some_iff.1 h
      rintro d ⟨⟩
      rw [hquote]
      decide
    · split at h
      · next hvisible =>
        obtain ⟨ds, -, rfl⟩ := Option.map_eq_some_iff.1 h
        rintro d ⟨⟩
        simpa using hvisible
      · exact ih h

/-- A text whose blanks are stripped ends as it did when it did not end in a blank. -/
theorem getLast?_stripUnquoted {front ds : List Char} {c : Char} (hc : isBlank c = false)
    (h : stripUnquoted (front ++ [c]) = some ds) : ds.getLast? = some c := by
  have hall : ∀ {quoted : Bool} {ds : List Char},
      stripUnquotedFrom quoted (front ++ [c]) = some ds → ds.getLast? = some c := by
    clear h
    induction front with
    | nil =>
      intro quoted ds h
      have hnil : ∀ {quoted : Bool} {es : List Char},
          (stripUnquotedFrom quoted []).map (c :: ·) = some es → es.getLast? = some c := by
        intro quoted es hes
        cases quoted with
        | true => cases hes
        | false =>
          obtain rfl := Option.some.inj hes
          rfl
      rw [List.nil_append, stripUnquotedFrom] at h
      split at h
      · exact hnil h
      · rw [if_pos (by simp [hc])] at h
        exact hnil h
    | cons d front ih =>
      intro quoted ds h
      have hkept : ∀ {quoted : Bool},
          (stripUnquotedFrom quoted (front ++ [c])).map (d :: ·) = some ds →
            ds.getLast? = some c := by
        intro quoted hds
        obtain ⟨es, hes, rfl⟩ := Option.map_eq_some_iff.1 hds
        rw [List.getLast?_cons, ih hes, Option.getD_some]
      rw [List.cons_append, stripUnquotedFrom] at h
      split at h
      · exact hkept h
      · split at h
        · exact hkept h
        · exact ih h
  exact hall h

end InputDeck.Scan

namespace InputDeck.CardLine

open InputDeck.Text InputDeck.Scan

/-- A line with a name without blanks, quotes and signs asks for what the name and its value, whose
blanks are stripped, ask for. -/
theorem ofText_sides {name value : String} {item : List Char}
    (hname : ∀ c ∈ name.toList, isBlank c = false ∧ c ≠ '"' ∧ c ≠ '=')
    (hstrip : stripUnquoted value.toList = some item) (location : Location) :
    ofText (name ++ " = " ++ value) location =
      ofSides (name ++ " = " ++ value) location name.toList item := by
  have hquote : '"' ∉ name.toList ++ [' '] := by
    simpa using fun hmem => (hname _ hmem).2.1 rfl
  have hcut : cutAssignment none {} (name ++ " = " ++ value).toList =
      some (name.toList ++ [' '], ' ' :: value.toList) := by
    have htext : (name ++ " = " ++ value).toList =
        (name.toList ++ [' ']) ++ '=' :: ' ' :: value.toList := by
      simp
    rw [htext]
    apply cutAssignment_append (.of_notMem hquote)
    · rw [outside_of_notMem hquote]
      simpa using fun hmem => (hname _ hmem).2.2 rfl
    · simp [joinsAssignment]
    · simp
  have hspace : stripUnquoted (' ' :: value.toList) = some item := by
    rw [stripUnquoted] at hstrip ⊢
    rw [stripUnquotedFrom, if_neg (by decide), if_neg (by decide), hstrip]
  have hblanks : withoutBlanks (name.toList ++ [' ']) = name.toList := by
    rw [withoutBlanks_append, withoutBlanks, List.filter_eq_self.2 fun c hc => by
      simp [(hname c hc).1]]
    simp [withoutBlanks]
  rw [ofText, hcut]
  simp only [hspace, hblanks]

end InputDeck.CardLine
