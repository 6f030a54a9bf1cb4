import InputDeck.Proofs.Expr.Adjacent
import InputDeck.Proofs.Expr.Tokens
import InputDeck.Proofs.Text.Outside

/-!
# Tokens without blanks

Blanks outside quotes only separate tokens. A token is cut off a text as it was cut off another one
when what follows it does not go on with it, and no neighbour in an expression does. So an
expression has the same tokens when the blanks outside its quotes are stripped.
-/

namespace InputDeck

open InputDeck.Text InputDeck.Number InputDeck.Scan

namespace Token

/-- Whether a character can be the second one of a symbol. -/
def joinsSymbol (c : Char) : Bool := c == '=' || c == '*' || c == '&' || c == '|'

/-- No other character makes a longer symbol of the one in front of it. -/
theorem double?_eq_none {c d : Char} (h : joinsSymbol d = false) : double? c d = none := by
  unfold double?
  split <;> first | rfl | cases h

/-- Whether a token is not gone on with in front of a text. -/
def Ends : Token → List Char → Prop
  | number _, rest => EndsNumeral rest
  | name _, rest => ∀ c ∈ rest.head?, isNamePart c = false
  | string _, _ => True
  | symbol .dot, rest => ∀ c ∈ rest.head?, c.isDigit = false
  | symbol s, rest => s.isDelimiter = true ∨ ∀ c ∈ rest.head?, joinsSymbol c = false

/-- A symbol other than a dot is not gone on with when it is a delimiter, and in front of what makes
no longer symbol. -/
theorem ends_iff_of_ne_dot {s : Symbol} {rest : List Char} (hs : s ≠ .dot) :
    (symbol s).Ends rest ↔ s.isDelimiter = true ∨ ∀ c ∈ rest.head?, joinsSymbol c = false := by
  cases s
  case dot => exact absurd rfl hs
  all_goals rfl

/-- Nothing goes on at the end of a text. -/
theorem ends_nil (t : Token) : t.Ends [] := by
  cases t with
  | number x => exact endsNumeral_nil
  | string s => trivial
  | name s => rintro c ⟨⟩
  | symbol s =>
    by_cases hdot : s = .dot
    · subst hdot
      rintro c ⟨⟩
    · exact (ends_iff_of_ne_dot hdot).2 (.inr (by rintro c ⟨⟩))

/-- Nothing goes on in front of a space. -/
theorem ends_space (t : Token) (rest : List Char) : t.Ends (' ' :: rest) := by
  cases t with
  | number x =>
    rintro c ⟨⟩
    decide
  | string s => trivial
  | name s =>
    rintro c ⟨⟩
    decide
  | symbol s =>
    by_cases hdot : s = .dot
    · subst hdot
      rintro c ⟨⟩
      decide
    · refine (ends_iff_of_ne_dot hdot).2 (.inr ?_)
      rintro c ⟨⟩
      decide

/-- A delimiter makes no longer symbol. -/
private theorem double?_of_isDelimiter {c : Char} {s : Symbol} (hs : single? c = some s)
    (h : s.isDelimiter = true) (d : Char) : double? c d = none := by
  unfold single? at hs
  split at hs <;> cases hs <;> first | rfl | cases h

/-- A symbol of one character is cut off in front of what makes no longer one of it. -/
private theorem cutSymbol_of_ends {c : Char} {s : Symbol} {rest : List Char}
    (hs : single? c = some s) (h : (symbol s).Ends rest) :
    cutSymbol c rest = some (s, rest) := by
  refine cutSymbol_of_single? hs fun d hd => ?_
  by_cases hdot : s = .dot
  · subst hdot
    unfold single? at hs
    split at hs <;> cases hs
    rfl
  · obtain hdelimiter | hrest := (ends_iff_of_ne_dot hdot).1 h
    · exact double?_of_isDelimiter hs hdelimiter d
    · exact double?_eq_none (hrest d hd)

/-- A symbol is cut off as it was in front of what makes no longer one of it. -/
private theorem exists_cutSymbol {c : Char} {cs rest : List Char} {s : Symbol}
    (h : cutSymbol c cs = some (s, rest)) :
    ∃ used, cs = used ++ rest ∧
      ∀ rest', (symbol s).Ends rest' → cutSymbol c (used ++ rest') = some (s, rest') := by
  unfold cutSymbol at h
  split at h
  · next d ds =>
    split at h
    · next hdouble =>
      obtain ⟨rfl, rfl⟩ := Prod.mk.inj (Option.some.inj h)
      exact ⟨[d], rfl, fun rest' _ => by simp [cutSymbol, hdouble]⟩
    · obtain ⟨t, hsingle, ht⟩ := Option.map_eq_some_iff.1 h
      obtain ⟨rfl, rfl⟩ := Prod.mk.inj ht
      exact ⟨[], rfl, fun rest' => cutSymbol_of_ends hsingle⟩
  · obtain ⟨t, hsingle, ht⟩ := Option.map_eq_some_iff.1 h
    obtain ⟨rfl, rfl⟩ := Prod.mk.inj ht
    exact ⟨[], rfl, fun rest' => cutSymbol_of_ends hsingle⟩

/-- A dot is a symbol of its own. -/
private theorem eq_of_cutSymbol_dot {cs rest : List Char} {s : Symbol}
    (h : cutSymbol '.' cs = some (s, rest)) : s = .dot ∧ rest = cs := by
  cases cs <;> (obtain ⟨rfl, rfl⟩ := Prod.mk.inj (Option.some.inj h); exact ⟨rfl, rfl⟩)

/-- What begins no number begins none when something else follows the symbol that is cut off. -/
private theorem startsNumber_of_ends {afterName : Bool} {c : Char} {cs used rest rest' : List Char}
    {s : Symbol} (h : startsNumber afterName c cs = false)
    (hcut : cutSymbol c cs = some (s, rest)) (hused : cs = used ++ rest)
    (hends : (symbol s).Ends rest') : startsNumber afterName c (used ++ rest') = false := by
  by_cases hdot : c = '.'
  · subst hdot
    obtain ⟨rfl, rfl⟩ := eq_of_cutSymbol_dot hcut
    obtain rfl : used = [] := by simpa using hused
    cases rest' with
    | nil => simp [startsNumber]
    | cons d rest' => simp [startsNumber, hends d rfl]
  · simpa [startsNumber, hdot] using h

/-- A token is cut off as it was in front of whatever does not go on with it. -/
theorem IsNext.exists_of_ends {afterName : Bool} {c : Char} {cs rest : List Char} {t : Token}
    (h : IsNext afterName c cs t rest) :
    ∃ used, cs = used ++ rest ∧ ∀ rest', t.Ends rest' →
      IsNext afterName c (used ++ rest') t rest' := by
  cases h with
  | @number x hnumber hread =>
    obtain ⟨used, hused, hstarts⟩ := exists_cutNumeral hnumber
    have hsplit := cutNumeral_append (c :: cs)
    rw [hused, List.cons_append] at hsplit
    refine ⟨used, (List.cons.inj hsplit).2.symm, fun rest' hends => ?_⟩
    have hcut := cutNumeral_front_append (c :: cs) hends
    rw [hused, List.cons_append] at hcut
    rw [hused] at hread
    have hnext := IsNext.number (x := x) (hstarts rest') (by rw [hcut]; exact hread)
    rwa [hcut] at hnext
  | name hname =>
    refine ⟨cs.takeWhile isNamePart, List.takeWhile_append_dropWhile.symm, fun rest' hends => ?_⟩
    have hparts : ∀ d ∈ cs.takeWhile isNamePart, isNamePart d = true :=
      List.all_eq_true.1 List.all_takeWhile
    obtain ⟨htake, hdrop⟩ := takeWhile_append_of_head? hparts hends
    have hnext : IsNext afterName c (cs.takeWhile isNamePart ++ rest') _ _ := .name hname
    rwa [htake, hdrop] at hnext
  | @string text _ hquote hcut =>
    obtain ⟨rfl, hnot⟩ := cutFirst_eq_some hcut
    refine ⟨text ++ ['"'], by simp, fun rest' _ => .string hquote ?_⟩
    have hfirst := cutFirst_append_cons hnot rest'
    rwa [← List.singleton_append, ← List.append_assoc] at hfirst
  | symbol hnumber hname hquote hcut =>
    obtain ⟨used, hused, hsymbol⟩ := exists_cutSymbol hcut
    exact ⟨used, hused, fun rest' hends => .symbol (startsNumber_of_ends hnumber hcut hused hends)
      hname hquote (hsymbol rest' hends)⟩

/-- The characters that operands begin with. -/
def opensOperand (c : Char) : Bool :=
  isNumeralChar c || isNamePart c || c == '"' || c == '(' || c == '!'

/-- An operand begins with no other character. -/
theorem ne_of_opensOperand {c d : Char} (h : opensOperand c = true) (hd : opensOperand d = false) :
    c ≠ d := by
  rintro rfl
  rw [h] at hd
  cases hd

/-- The first character of a token that begins an operand. -/
theorem Spells.opensOperand_head? {t : Token} {used : List Char} (h : Spells t used)
    (ht : t.beginsOperand = true) {c : Char} (hc : c ∈ used.head?) : opensOperand c = true := by
  have hmem := List.mem_of_mem_head? hc
  cases h with
  | number _ hchars => simp [opensOperand, hchars c hmem]
  | name h => simp [opensOperand, h.isNamePart c hmem]
  | string =>
    obtain rfl := Option.some.inj hc
    rfl
  | symbol s =>
    cases s <;> cases ht
    all_goals
      obtain rfl := Option.some.inj hc
      rfl
  | stars => cases ht

/-- The first character of a text whose first token begins an operand. -/
theorem Spelled.opensOperand_head? {ts : List Token} {cs : List Char} (h : Spelled ts cs)
    (hts : ∀ t ∈ ts.head?, t.beginsOperand = true) {c : Char} (hc : c ∈ cs.head?) :
    isBlank c = true ∨ opensOperand c = true := by
  cases h with
  | nil => cases hc
  | blank hblank =>
    obtain rfl := Option.some.inj hc
    exact .inl hblank
  | @token t used ts cs ht _ _ =>
    refine .inr (ht.opensOperand_head? (hts t rfl) ?_)
    obtain ⟨d, rest, rfl⟩ := List.exists_cons_of_ne_nil ht.ne_nil
    exact hc

/-- No symbol goes on at the beginning of an operand. -/
private theorem joinsSymbol_of_opensOperand {c : Char} (h : opensOperand c = true) :
    joinsSymbol c = false := by
  have hne : ∀ d, opensOperand d = false → c ≠ d := fun d => ne_of_opensOperand h
  simp [joinsSymbol, hne '=' rfl, hne '*' rfl, hne '&' rfl, hne '|' rfl]

/-- Neither a numeral nor a name goes on at the beginning of a symbol other than a dot. -/
private theorem head?_of_spells_symbol {s : Symbol} {used : List Char}
    (h : Spells (.symbol s) used) {c : Char} (hc : c ∈ used.head?) :
    isNamePart c = false ∧ c.isDigit = false ∧ isExponentMark c = false ∧ (s ≠ .dot → c ≠ '.') := by
  cases h with
  | symbol s =>
    cases s
    all_goals
      obtain rfl := Option.some.inj hc
      decide
  | stars =>
    obtain rfl := Option.some.inj hc
    decide

/-- A token is not gone on with in front of one that stands apart from it. -/
theorem ends_of_apart {t u : Token} {used : List Char} (h : Apart t u) (hused : Spells u used)
    (rest : List Char) : t.Ends (used ++ rest) := by
  have hhead : (used ++ rest).head? = used.head? := by
    obtain ⟨c, cs, rfl⟩ := List.exists_cons_of_ne_nil hused.ne_nil
    rfl
  cases t with
  | number x =>
    cases u with
    | symbol s =>
      intro c hc
      obtain ⟨-, hdigit, hmark, hdot⟩ := head?_of_spells_symbol hused (hhead ▸ hc)
      exact ⟨hdigit, hdot h, hmark⟩
    | _ => cases h
  | string s => trivial
  | name s =>
    cases u with
    | symbol s => exact fun c hc => (head?_of_spells_symbol hused (hhead ▸ hc)).1
    | _ => cases h
  | symbol s =>
    by_cases hdot : s = .dot
    · subst hdot
      cases u with
      | name s =>
        cases hused with
        | name hsegment =>
          obtain ⟨d, cs, hcons, hd⟩ := hsegment.head
          intro c hc
          rw [hhead, hcons] at hc
          obtain rfl := Option.some.inj hc
          simpa [startsNumber] using startsNumber_of_isNameStart hd true []
      | _ => cases h
    · have happart := (apart_iff_of_ne_dot hdot).1 h
      exact (ends_iff_of_ne_dot hdot).2 (happart.imp_right fun hu c hc =>
        joinsSymbol_of_opensOperand (hused.opensOperand_head? hu (hhead ▸ hc)))

/-- No character of a numeral is a blank. -/
theorem isBlank_of_isNumeralChar {c : Char} (h : isNumeralChar c = true) : isBlank c = false := by
  simp only [isNumeralChar, Bool.or_eq_true, beq_iff_eq] at h
  rcases h with ((((h | rfl) | rfl) | rfl) | rfl) | rfl
  · exact isBlank_of_isDigit h
  all_goals decide

/-- No blank stands outside the quotes of a token. -/
theorem Spells.isBlank_outside {t : Token} {used : List Char} (h : Spells t used) :
    ∀ c ∈ outside false used, isBlank c = false := by
  have hcomputed : (outside false used).all (fun c => !isBlank c) = true →
      ∀ c ∈ outside false used, isBlank c = false := fun hall => by simpa using hall
  cases h with
  | number _ hchars =>
    have hquote : '"' ∉ used := fun hmem => absurd (hchars _ hmem) (by decide)
    rw [outside_of_notMem hquote]
    exact fun c hc => isBlank_of_isNumeralChar (hchars c hc)
  | name h =>
    rw [outside_of_notMem (h.notMem (by decide))]
    exact fun c hc => isBlank_of_isNamePart (h.isNamePart c hc)
  | string h =>
    rw [outside_quoted h]
    simp
  | symbol s => exact hcomputed (by cases s <;> decide)
  | stars => exact hcomputed (by decide)

/-- Words without the blanks outside quotes begin with no blank, so a token that stands apart from
the first of them is not gone on with in front of them. -/
private theorem ends_of_isChain {t : Token} {us : List Token} {ds more : List Char}
    (hapart : (t :: us).IsChain Apart) (hspelled : Spelled us ds)
    (hvisible : ∀ c ∈ ds.head?, isBlank c = false)
    (hmore : ∀ u ∈ (t :: us).getLast?, u.Ends more) : t.Ends (ds ++ more) := by
  cases hspelled with
  | nil => exact hmore t rfl
  | blank hc => simp [hvisible _ rfl] at hc
  | token hu _ _ =>
    rw [List.append_assoc]
    exact ends_of_apart ((List.isChain_cons.1 hapart).1 _ rfl) hu _

/-- Tokens in front of a text whose neighbours stand apart are cut off as they were without the
blanks outside quotes, in front of whatever does not go on with the last of them. -/
theorem exists_front_of_tokensFrom {total : Nat} {afterName : Bool} {cs : List Char}
    {us vs : List Token} (h : tokensFrom total afterName cs = .ok (us ++ vs))
    (hapart : us.IsChain Apart) :
    ∃ front rest ds afterLast, cs = front ++ rest ∧ Spelled us front ∧
      stripUnquoted front = some ds ∧ (∀ c ∈ rest.head?, isBlank c = false) ∧
      tokensFrom total afterLast rest = .ok vs ∧
      ∀ total more, (∀ t ∈ us.getLast?, t.Ends more) →
        tokensFrom total afterName (ds ++ more) =
          (tokensFrom total afterLast more).map (us ++ ·) := by
  fun_induction tokensFrom total afterName cs generalizing us with
  | case1 afterName =>
    obtain ⟨rfl, rfl⟩ := List.append_eq_nil_iff.1 (Except.ok.inj h).symm
    refine ⟨[], [], [], afterName, rfl, .nil, rfl, by rintro c ⟨⟩, by rw [tokensFrom], ?_⟩
    intro total more _
    rw [List.nil_append]
    cases tokensFrom total afterName more <;> rfl
  | case2 afterName c cs hblank ih =>
    obtain ⟨front, rest, ds, afterLast, rfl, hspelled, hstrip, hrest⟩ := ih h hapart
    refine ⟨c :: front, rest, ds, afterLast, rfl, .blank hblank hspelled, ?_, hrest⟩
    have hquote : c ≠ '"' := by
      rintro rfl
      exact absurd hblank (by decide)
    rw [stripUnquoted, stripUnquotedFrom, if_neg hquote, if_neg (by simp [hblank])]
    exact hstrip
  | case3 => cases h
  | case4 afterName c cs hblank t rest hnext ih =>
    have hvisible : isBlank c = false := by simpa using hblank
    obtain ⟨tail, htail, hcons⟩ := Except.map_eq_ok_iff.1 h
    cases us with
    | nil =>
      obtain rfl : t :: tail = vs := hcons
      refine ⟨[], c :: cs, [], afterName, rfl, .nil, rfl, by rintro d ⟨⟩; exact hvisible, ?_, ?_⟩
      · rw [tokensFrom_cons hvisible hnext, htail]
        rfl
      · intro total more _
        rw [List.nil_append]
        cases tokensFrom total afterName more <;> rfl
    | cons u us =>
      obtain ⟨rfl, rfl⟩ := List.cons.inj hcons
      obtain ⟨front, others, ds, afterLast, rfl, hspelled, hstrip, hothers, hvs, hread⟩ :=
        ih htail (List.isChain_cons.1 hapart).2
      obtain ⟨used, rfl, hsame⟩ := (next_eq_ok_iff.1 hnext).exists_of_ends
      obtain ⟨word, hword, hspells, hassign⟩ := spells_of_next hnext
      obtain rfl : c :: used = word := List.append_cancel_right hword
      have hds : Spelled us ds := by
        have hwhole := hread 0 [] fun t _ => ends_nil t
        rw [tokensFrom, List.append_nil, Except.map, List.append_nil] at hwhole
        exact spelled_of_tokensFrom hwhole
      refine ⟨c :: used ++ front, others, c :: used ++ ds, afterLast, by simp,
        .token hspells (fun ht hhead => hassign ht ?_) hspelled, ?_, hothers, hvs,
        fun total more hmore => ?_⟩
      · rw [List.head?_append, hhead]
        rfl
      · rw [stripUnquoted_append hspells.count_quote,
          stripUnquoted_eq_self hspells.count_quote hspells.isBlank_outside, hstrip]
        rfl
      · have hends : t.Ends (ds ++ more) :=
          ends_of_isChain hapart hds (isBlank_head?_stripUnquoted hstrip) hmore
        have hothers := hread total more fun u hu =>
          hmore u (by rw [List.getLast?_cons, Option.mem_def.1 hu]; rfl)
        rw [List.append_assoc, List.cons_append,
          tokensFrom_cons hvisible (next_eq_ok_iff.2 (hsame _ hends)), hothers]
        cases tokensFrom total afterLast more <;> rfl

/-- Neighbours that stand apart are the same tokens without the blanks outside quotes. -/
theorem tokensFrom_stripUnquoted {total : Nat} {afterName : Bool} {cs : List Char}
    {ts : List Token} (h : tokensFrom total afterName cs = .ok ts) (hapart : ts.IsChain Apart) :
    ∃ ds, stripUnquoted cs = some ds ∧ ∀ total, tokensFrom total afterName ds = .ok ts := by
  obtain ⟨front, rest, ds, afterLast, rfl, -, hstrip, hvisible, hnone, hread⟩ :=
    exists_front_of_tokensFrom (h.trans (congrArg Except.ok (List.append_nil ts).symm)) hapart
  obtain rfl : rest = [] := by
    have hspelled := spelled_of_tokensFrom hnone
    generalize hts : ([] : List Token) = ts at hspelled
    cases hspelled with
    | nil => rfl
    | blank hc => simp [hvisible _ rfl] at hc
    | token => cases hts
  refine ⟨ds, by rwa [List.append_nil], fun total => ?_⟩
  have hwhole := hread total [] fun t _ => ends_nil t
  rwa [List.append_nil, tokensFrom, Except.map, List.append_nil] at hwhole

end Token

end InputDeck
