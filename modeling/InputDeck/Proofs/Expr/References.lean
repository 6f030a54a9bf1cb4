import InputDeck.Proofs.Expr.Statements
import InputDeck.Proofs.Suit.UnbrokenPaths
import InputDeck.Proofs.Text.ClosedTexts
import Mathlib.Data.List.Basic

/-!
# References

An expression looks up dotted names, and elements of vectors with such names. A statement that
begins with the path of any suit and ends, in front of its assignment sign, with such a name assigns
to that name of the suit: no parentheses of the path can go around the name, and no bracket of the
path can close behind it.
-/

namespace InputDeck

open InputDeck.Text InputDeck.Scan

/-- What an expression looks up: a dotted name, or an element of the vector with such a name. -/
inductive IsReference : String → Prop
  /-- A dotted name is looked up. -/
  | name {path : String} (h : IsDottedName path.toList) : IsReference path
  /-- So is an element. -/
  | element {path : String} (h : IsDottedName path.toList) (index : Nat) :
      IsReference (elementName path index)

/-- No character of a reference is blank. -/
theorem IsReference.isBlank_of_mem {name : String} (h : IsReference name) :
    ∀ c ∈ name.toList, isBlank c = false := by
  have hdotted : ∀ {path : String}, IsDottedName path.toList →
      ∀ c ∈ path.toList, isBlank c = false := by
    intro path h c hc
    rcases h.isNamePart hc with rfl | hc
    · decide
    · exact Token.isBlank_of_isNamePart hc
  cases h with
  | name h => exact hdotted h
  | element h index =>
    intro c hc
    simp only [elementName, String.toList_append, List.mem_append] at hc
    rcases hc with ((hc | hc) | hc) | hc
    · exact hdotted h c hc
    · obtain rfl : c = '[' := by simpa using hc
      decide
    · exact Number.isBlank_of_isDigit (by
        by_contra hdigit
        exact notMem_natText (by simpa using hdigit) hc)
    · obtain rfl : c = ']' := by simpa using hc
      decide

namespace Token

/-- What has no words and no blanks is empty. -/
theorem Spelled.eq_nil_of_isBlank {cs : List Char} (h : Spelled [] cs)
    (hcs : ∀ c ∈ cs, isBlank c = false) : cs = [] := by
  generalize hts : ([] : List Token) = ts at h
  cases h with
  | nil => rfl
  | @blank c _ _ hc =>
    rw [hcs c List.mem_cons_self] at hc
    cases hc
  | token => cases hts

/-- Without blanks, the first word stands at the front. -/
theorem Spelled.exists_cons_of_isBlank {t : Token} {ts : List Token} {cs : List Char}
    (h : Spelled (t :: ts) cs) (hcs : ∀ c ∈ cs, isBlank c = false) :
    ∃ used rest, cs = used ++ rest ∧ Spells t used ∧ Spelled ts rest := by
  obtain ⟨blanks, used, rest, rfl, hblanks, hused, hrest⟩ := h.exists_cons
  obtain rfl := hblanks.eq_nil_of_isBlank fun c hc => hcs c (List.mem_append_left _ hc)
  exact ⟨used, rest, rfl, hused, hrest⟩

/-- Without blanks, the last word stands at the end. -/
theorem Spelled.exists_concat_of_isBlank {t : Token} {ts : List Token} {cs : List Char}
    (h : Spelled (ts ++ [t]) cs) (hcs : ∀ c ∈ cs, isBlank c = false) :
    ∃ front used, cs = front ++ used ∧ Spelled ts front ∧ Spells t used := by
  obtain ⟨front, last, rfl, hfront, hlast⟩ := h.exists_append
  have hlastBlank : ∀ c ∈ last, isBlank c = false := fun c hc => hcs c (List.mem_append_right _ hc)
  obtain ⟨used, rest, rfl, hused, hrest⟩ := hlast.exists_cons_of_isBlank hlastBlank
  obtain rfl := hrest.eq_nil_of_isBlank fun c hc => hlastBlank c (List.mem_append_right _ hc)
  exact ⟨front, used, by rw [List.append_nil], hfront, hused⟩

/-- A symbol of one character is spelled by it. -/
theorem Spells.eq_singleton {s : Symbol} {used : List Char} {c : Char}
    (h : Spells (.symbol s) used) (hs : s.spelling.toList = [c]) (hcaret : s ≠ .caret) :
    used = [c] := by
  cases h with
  | symbol => exact hs
  | stars => exact absurd rfl hcaret

end Token

namespace Expr

open Token

/-- The tokens of a name are spelled as the name, when there are no blanks. -/
theorem IsPath.toList_eq_of_spelled {ts : List Token} {path : String} (h : IsPath ts path)
    {cs : List Char} (hspelled : Spelled ts cs) (hcs : ∀ c ∈ cs, isBlank c = false) :
    path.toList = cs := by
  induction h generalizing cs with
  | segment s =>
    have hlast : Spelled ([] ++ [Token.name s]) cs := hspelled
    obtain ⟨front, used, rfl, hfront, hused⟩ := hlast.exists_concat_of_isBlank hcs
    obtain rfl := hfront.eq_nil_of_isBlank fun c hc => hcs c (List.mem_append_left _ hc)
    cases hused with
    | name => rfl
  | @dot ts path s _ ih =>
    have hsplit : ts ++ [symbol .dot, Token.name s] = (ts ++ [symbol .dot]) ++ [Token.name s] := by
      simp
    rw [hsplit] at hspelled
    obtain ⟨init, last, rfl, hinit, hlast⟩ := hspelled.exists_concat_of_isBlank hcs
    have hblank : ∀ c ∈ init, isBlank c = false := fun c hc => hcs c (List.mem_append_left _ hc)
    obtain ⟨front, used, rfl, hfront, hused⟩ := hinit.exists_concat_of_isBlank hblank
    rw [String.toList_append, String.toList_append,
      ih hfront fun c hc => hblank c (List.mem_append_left _ hc),
      hused.eq_singleton (c := '.') rfl (by decide)]
    cases hlast with
    | name => rfl

/-- A target is a name, an element or something in parentheses. -/
theorem Derives.target_cases {form : Form} {ts : List Token} {e : Expr} {target : Target}
    (h : Derives form ts e) (he : e.target? = some target) :
    IsPath ts target.path ∨
      (∃ us vs index, ts = us ++ .symbol .leftBracket :: vs ++ [.symbol .rightBracket] ∧
        IsPath us target.path ∧ Derives (.levels Level.all) vs index) ∨
      ∃ us, ts = .symbol .leftParen :: us ++ [.symbol .rightParen] := by
  induction h with
  | innermost _ ih => exact ih he
  | tighter _ _ ih => exact ih he
  | bare _ ih => exact ih he
  | base _ ih => exact ih he
  | @parentheses us _ _ _ => exact .inr (.inr ⟨us, rfl⟩)
  | name hpath =>
    obtain rfl := Option.some.inj he
    exact .inl hpath
  | @element us vs _ index hpath _ _ hindex _ =>
    obtain rfl := Option.some.inj he
    exact .inr (.inl ⟨us, vs, index, rfl, hpath, hindex⟩)
  | _ => cases he

/-- A symbol that ends some tokens stands at the end of what they are spelled as. -/
private theorem eq_append_of_symbol {us : List Token} {s : Symbol} {c : Char} {cs : List Char}
    (h : Spelled (us ++ [symbol s]) cs) (hcs : ∀ c ∈ cs, isBlank c = false)
    (hs : s.spelling.toList = [c]) (hcaret : s ≠ .caret) :
    ∃ front, cs = front ++ [c] ∧ Spelled us front := by
  obtain ⟨front, used, rfl, hus, hused⟩ := h.exists_concat_of_isBlank hcs
  exact ⟨front, by rw [hused.eq_singleton hs hcaret], hus⟩

/-- Without blanks, the tokens of an element are spelled as its path and an index in brackets. -/
theorem IsPath.exists_brackets {us vs : List Token} {path : String} (h : IsPath us path)
    {cs : List Char}
    (hspelled : Spelled (us ++ .symbol .leftBracket :: vs ++ [.symbol .rightBracket]) cs)
    (hcs : ∀ c ∈ cs, isBlank c = false) :
    ∃ inner, cs = path.toList ++ '[' :: inner ++ [']'] ∧ Spelled us path.toList ∧
      Spelled vs inner := by
  obtain ⟨init, rfl, hinit⟩ :=
    eq_append_of_symbol (s := .rightBracket) (c := ']') hspelled hcs rfl (by decide)
  have hblank : ∀ c ∈ init, isBlank c = false := fun c hc => hcs c (List.mem_append_left _ hc)
  obtain ⟨base, rest, rfl, hbase, hrest⟩ := hinit.exists_append
  obtain ⟨bracket, inner, rfl, hbracket, hinner⟩ :=
    hrest.exists_cons_of_isBlank fun c hc => hblank c (List.mem_append_right _ hc)
  obtain rfl := hbracket.eq_singleton (c := '[') rfl (by decide)
  obtain rfl := h.toList_eq_of_spelled hbase fun c hc => hblank c (List.mem_append_left _ hc)
  exact ⟨inner, rfl, hbase, hinner⟩

/-- Without blanks, tokens in parentheses are spelled in parentheses. -/
private theorem exists_parentheses {us : List Token} {cs : List Char}
    (hspelled : Spelled (.symbol .leftParen :: us ++ [.symbol .rightParen]) cs)
    (hcs : ∀ c ∈ cs, isBlank c = false) : ∃ inner, cs = '(' :: inner ++ [')'] := by
  obtain ⟨init, rfl, hinit⟩ :=
    eq_append_of_symbol (s := .rightParen) (c := ')') hspelled hcs rfl (by decide)
  obtain ⟨paren, inner, rfl, hparen, -⟩ := hinit.exists_cons_of_isBlank fun c hc =>
    hcs c (List.mem_append_left _ hc)
  obtain rfl := hparen.eq_singleton (c := '(') rfl (by decide)
  exact ⟨inner, rfl⟩

/-- No closed text begins within the index of an element: a bracket is open there that the text does
not close, though it ends with the element. -/
private theorem eq_nil_of_isClosed {us vs : List Token} {path : String} {index : Expr}
    {base inner more name : List Char} (hus : IsPath us path)
    (hvs : Derives (.levels Level.all) vs index) (hbase : Spelled us base)
    (hinner : Spelled vs inner) (hname : IsClosed name)
    (hwhole : State.after {} (base ++ '[' :: more ++ name) = {})
    (hbehind : inner ++ [']'] = more ++ name) : name = [] := by
  rcases List.eq_nil_or_concat name with hnil | ⟨init, last, hlast⟩
  · exact hnil
  · exfalso
    rw [hlast, List.concat_eq_append, ← List.append_assoc] at hbehind
    obtain ⟨rfl, -⟩ := List.append_inj' hbehind rfl
    have hopen := (hvs.pass _ hinner).balanced {} rfl []
    rw [List.append_nil] at hopen
    generalize hinside : State.after {} more = inside
    have hafter : State.after {} (base ++ '[' :: more) = ⟨inside.quoted, inside.depth + 1⟩ := by
      rw [State.after_append, (hus.pass false _ hbase).after {} rfl, ← hinside]
      exact after_of_balancedFrom (s := {}) hopen 1
    have hquoted : inside.quoted = false := by
      have hpaired := congrArg State.quoted hwhole
      rw [State.after_append, State.quoted_after, hafter] at hpaired
      simpa [hname.paired] using hpaired
    rw [State.after_append, hafter, hquoted, hname.after_eq_self rfl] at hwhole
    cases hwhole

/-- A target that is spelled as a closed text behind any text without blanks has a path that begins
with the text in front, unless parentheses stand around all of it. -/
theorem Derives.exists_path_of_isClosed {form : Form} {ts : List Token} {e : Expr}
    {target : Target} (h : Derives form ts e) (he : e.target? = some target)
    {front name : List Char} (hname : IsClosed name)
    (hend : name = [] → front.getLast? ≠ some ']') (hspelled : Spelled ts (front ++ name))
    (hfront : ∀ c ∈ front, isBlank c = false) :
    (∃ more, target.path.toList = front ++ more) ∨
      ∃ inner, front ++ name = '(' :: inner ++ [')'] := by
  have hblank : ∀ c ∈ front ++ name, isBlank c = false := fun c hc =>
    (List.mem_append.1 hc).elim (hfront c) (hname.unbroken c)
  rcases h.target_cases he with htarget | ⟨us, vs, index, rfl, hus, hvs⟩ | ⟨us, rfl⟩
  · exact .inl ⟨name, htarget.toList_eq_of_spelled hspelled hblank⟩
  · obtain ⟨inner, hcs, hbase, hinner⟩ := hus.exists_brackets hspelled hblank
    rw [List.append_assoc] at hcs
    rcases List.append_eq_append_iff.1 hcs with ⟨more, hmore, -⟩ | ⟨more, hmore, hbehind⟩
    · exact .inl ⟨more, hmore⟩
    · cases more with
      | nil => exact .inl ⟨[], by rw [hmore, List.append_nil, List.append_nil]⟩
      | cons c more =>
        obtain rfl := (List.cons.inj hbehind).1
        have hbehind : inner ++ [']'] = more ++ name := (List.cons.inj hbehind).2
        have hwhole := (h.pass _ hspelled).after {} rfl
        rw [hmore] at hwhole
        have hnil := eq_nil_of_isClosed hus hvs hbase hinner hname hwhole hbehind
        rw [hnil, List.append_nil] at hbehind
        refine absurd ?_ (hend hnil)
        rw [hmore, ← hbehind, List.getLast?_append_cons, ← List.cons_append, List.getLast?_concat]
  · exact .inr (exists_parentheses hspelled hblank)

/-- What ends in a bracket with a number is no text of an expression: nothing closes the bracket. -/
private theorem not_spelled_of_open_bracket {form : Form} {ts : List Token} {e : Expr}
    (h : Derives form ts e) (cs : List Char) (index : Nat) :
    ¬Spelled ts (cs ++ '[' :: (Number.natText index).toList) := by
  intro hspelled
  have hwhole := (h.pass _ hspelled).after {} rfl
  generalize hs : State.after {} cs = s at hwhole
  have hnot : ∀ {c : Char}, c.isDigit = false → ∀ quoted,
      c ∉ outside quoted (Number.natText index).toList := fun hc quoted hmem =>
    notMem_natText hc (outside_subset quoted _ hmem)
  have hindex : (s.next '[').after (Number.natText index).toList = s.next '[' :=
    State.after_eq_self (.of_notMem (notMem_natText (by decide))) (hnot (by decide) _)
      (hnot (by decide) _)
  rw [State.after_append, hs, State.after_cons, hindex] at hwhole
  obtain ⟨quoted, depth⟩ := s
  cases quoted <;> cases hwhole

/-- A target that is spelled as an element has the base of the element as its path. -/
theorem Derives.path_eq_of_elementName {form : Form} {ts : List Token} {e : Expr}
    {target : Target} (h : Derives form ts e) (he : e.target? = some target) {base : String}
    {index : Nat} (hspelled : Spelled ts (elementName base index).toList)
    (hblank : ∀ c ∈ (elementName base index).toList, isBlank c = false) :
    target.path = base := by
  have htext : (elementName base index).toList =
      base.toList ++ '[' :: (Number.natText index).toList ++ [']'] := by
    simp [elementName]
  rcases h.target_cases he with hpath | ⟨us, vs, inside, rfl, hus, hvs⟩ | ⟨us, rfl⟩
  · -- A name has no brackets.
    exfalso
    obtain ⟨hdotted, -⟩ := h.isDottedName_path he hspelled (List.Subset.refl _)
    apply hdotted.notMem (c := '[') (by decide) (by decide)
    rw [hpath.toList_eq_of_spelled hspelled hblank, htext]
    simp
  · obtain ⟨inner, hcs, hbase, hinner⟩ := hus.exists_brackets hspelled hblank
    rw [htext] at hcs
    have hsplit := List.append_cancel_right hcs
    rcases List.append_eq_append_iff.1 hsplit with ⟨more, hmore, hrest⟩ | ⟨more, hmore, hrest⟩
    · cases more with
      | nil => exact String.toList_inj.1 (by rw [hmore, List.append_nil])
      | cons c more =>
        have hdigits := (List.cons.inj hrest).2
        refine absurd ?_ (notMem_natText (c := '[') (n := index) (by decide))
        rw [hdigits]
        simp
    · cases more with
      | nil => exact String.toList_inj.1 (by rw [hmore, List.append_nil])
      | cons c more =>
        rw [(List.cons.inj hrest).2] at hinner
        exact absurd hinner (not_spelled_of_open_bracket hvs more index)
  · obtain ⟨inner, hcs⟩ := exists_parentheses hspelled hblank
    have hlast := congrArg List.getLast? (htext.symm.trans hcs)
    rw [List.getLast?_concat, List.getLast?_concat] at hlast
    cases hlast

end Expr

/-- A reference is closed. -/
theorem IsReference.isClosed {name : String} (h : IsReference name) : IsClosed name.toList := by
  have hdotted : ∀ {path : String}, IsDottedName path.toList → IsClosed path.toList := by
    intro path h
    have hnot : ∀ {c : Char}, c ≠ '.' → Token.isNamePart c = false → c ∉ path.toList := h.notMem
    refine ⟨(IsReference.name h).isBlank_of_mem, .of_notMem (hnot (by decide) (by decide)),
      balancedFrom_of_outside ?_ ?_⟩
    · exact fun hmem => hnot (by decide) (by decide) (outside_subset _ _ hmem)
    · exact fun hmem => hnot (by decide) (by decide) (outside_subset _ _ hmem)
  cases h with
  | name h => exact hdotted h
  | element h index =>
    have hname := (hdotted h).append (.index index)
    simpa [elementName] using hname

/-- A reference does not end in a parenthesis. -/
theorem IsReference.getLast?_ne {name : String} (h : IsReference name) :
    name.toList.getLast? ≠ some ')' ∧ name.toList ≠ [] := by
  cases h with
  | name hpath =>
    obtain ⟨init, c, hlast, hc⟩ := hpath.exists_append
    rw [hlast, List.getLast?_concat]
    refine ⟨?_, by simp⟩
    rintro ⟨⟩
    exact absurd hc (by decide)
  | @element path h index =>
    have hlast : (elementName path index).toList.getLast? = some ']' := by
      rw [elementName, String.toList_append]
      exact List.getLast?_concat
    rw [hlast]
    exact ⟨by decide, fun he => by simp [he] at hlast⟩

namespace Interpreter

variable {suit : SuitPath} {name value key : String} {locals : Table Value}
  {vm after : Interpreter}

/-- A statement that assigns reports the path of a target that is spelled in front of the sign, or
an element of the vector with this path. -/
theorem exists_target_of_interpret (hvalue : Scan.QuotesPaired value.toList)
    (hrun : interpret (suit.qualify name ++ " = " ++ value) locals vm = .ok (some key) after) :
    ∃ (target : Target) (ts : List Token),
      Token.Spelled ts (suit.globalPrefix.toList ++ name.toList) ∧
      Expr.Derives (.levels Level.all) ts target.toExpr ∧
      (key = target.path ∨ ∃ index, key = elementName target.path index) := by
  obtain ⟨target, e, v, output, last, hread, -, hkey, -⟩ := interpret_eq_some_iff.1 hrun
  obtain ⟨us, vs, hspelled, htarget, hderives⟩ := read_eq_assign hread
  -- The sign behind the name is the only one, so the target is spelled in front of it.
  have hsplit : (suit.qualify name ++ " = " ++ value).toList =
      (suit.qualify name).toList ++ ' ' :: '=' :: ' ' :: value.toList := by
    simp
  have hpaired :
      QuotesPaired (((suit.qualify name).toList ++ [' ', '=', ' ']) ++ value.toList) := by
    have := hspelled.count_quote
    rw [hsplit] at this
    simpa [QuotesPaired] using this
  obtain ⟨us', vs', heq, hus⟩ := hspelled.exists_assign_of_spaces hsplit
    (QuotesPaired.of_append_right (by decide) (hvalue.of_append_right hpaired))
  obtain ⟨rfl, -, -⟩ :=
    (List.append_cons_inj_of_notMem htarget.assign_notMem hderives.assign_notMem).1 heq
  rw [SuitPath.qualify, String.toList_append] at hus
  refine ⟨target, us, hus, htarget, ?_⟩
  rcases key_eq_ok hkey with h | ⟨x, index, -, h⟩
  · exact .inl h
  · exact .inr ⟨index, h⟩

/-- What a suit stands in front of in a path, it stands in front of in the reported name. -/
private theorem exists_qualify_of_path {path : String} {more : List Char}
    (hpath : path.toList = suit.globalPrefix.toList ++ more)
    (hkey : key = path ∨ ∃ index, key = elementName path index) :
    ∃ card, key = suit.qualify card := by
  obtain rfl : path = suit.qualify (String.ofList more) := by
    apply String.toList_inj.1
    simp [hpath, SuitPath.qualify]
  rcases hkey with rfl | ⟨index, rfl⟩
  · exact ⟨_, rfl⟩
  · exact ⟨elementName (String.ofList more) index, by
      simp [elementName, SuitPath.qualify, String.append_assoc]⟩

/-- A statement that begins with the name of a suit without blanks and with a closed name behind it
reports the global name of a card of the suit, unless it begins with a parenthesis that ends behind
the name. -/
theorem exists_qualify_of_isClosed (hsuit : suit.IsUnbroken) (hname : IsClosed name.toList)
    (hend : name.toList = [] → suit.globalPrefix.toList.getLast? ≠ some ']')
    (hvalue : Scan.QuotesPaired value.toList)
    (hrun : interpret (suit.qualify name ++ " = " ++ value) locals vm = .ok (some key) after) :
    (∃ card, key = suit.qualify card) ∨
      ∃ inner, suit.globalPrefix.toList ++ name.toList = '(' :: inner ++ [')'] := by
  obtain ⟨target, ts, hspelled, htarget, hkey⟩ := exists_target_of_interpret hvalue hrun
  obtain ⟨more, hmore⟩ | hinner := htarget.exists_path_of_isClosed (Expr.target?_eq_some_iff.2 rfl)
    hname hend hspelled hsuit.isBlank_globalPrefix
  · exact .inl (exists_qualify_of_path hmore hkey)
  · exact .inr hinner

/-- A statement that begins with the name of a suit without blanks and with a reference behind it
reports the global name of a card of the suit. -/
theorem exists_qualify_of_reference (hsuit : suit.IsUnbroken) (hname : IsReference name)
    (hvalue : Scan.QuotesPaired value.toList)
    (hrun : interpret (suit.qualify name ++ " = " ++ value) locals vm = .ok (some key) after) :
    ∃ card, key = suit.qualify card := by
  obtain ⟨hlast, hne⟩ := hname.getLast?_ne
  refine (exists_qualify_of_isClosed hsuit hname.isClosed (fun h => absurd h hne) hvalue
    hrun).resolve_right ?_
  rintro ⟨inner, hinner⟩
  have hends := congrArg List.getLast? hinner
  rw [List.getLast?_append_of_ne_nil _ hne, List.getLast?_concat] at hends
  exact hlast hends

end Interpreter

end InputDeck
