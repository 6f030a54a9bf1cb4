import InputDeck.Proofs.Expr.Statements
import InputDeck.Proofs.Expr.Tokens
import InputDeck.Proofs.Suit.HeaderNames

/-!
# Targets of a suit

A statement that begins with the name of a suit and a dot assigns to a card of the suit, or fails:
the parser keeps all segments of a name together, so they stand in front of the path of the target
whatever follows them.
-/

namespace InputDeck

/-- What stands in front of a token stands in front of the tokens before it, unless it has the token
itself. -/
private theorem exists_eq_append_of_notMem {α : Type} {t : α} {front rest before after : List α}
    (h : front ++ rest = before ++ t :: after) (ht : t ∉ front) :
    ∃ middle, before = front ++ middle := by
  rcases List.append_eq_append_iff.1 h with ⟨middle, hmiddle, -⟩ | ⟨middle, hmiddle, hrest⟩
  · exact ⟨middle, hmiddle⟩
  · cases middle with
    | nil => exact ⟨[], by rw [hmiddle, List.append_nil, List.append_nil]⟩
    | cons u middle =>
      obtain ⟨rfl, -⟩ := List.cons.inj hrest
      exact absurd (by simp [hmiddle]) ht

namespace Expr

/-- A name begins with one of its segments. -/
theorem IsPath.exists_cons {ts : List Token} {path : String} (h : IsPath ts path) :
    ∃ segment rest, ts = .name segment :: rest := by
  induction h with
  | segment s => exact ⟨s, [], rfl⟩
  | dot _ _ ih =>
    obtain ⟨segment, rest, rfl⟩ := ih
    exact ⟨segment, _, rfl⟩

/-- Tokens are those of one name. -/
theorem IsPath.unique {ts : List Token} {path other : String} (h : IsPath ts path)
    (hother : IsPath ts other) : path = other := by
  induction h generalizing other with
  | segment s =>
    generalize hts : [Token.name s] = us at hother
    cases hother with
    | segment => exact Token.name.inj (List.cons.inj hts).1
    | dot =>
      have hlength := congrArg List.length hts
      simp at hlength
  | @dot ts path s h ih =>
    generalize hts : ts ++ [Token.symbol .dot, Token.name s] = us at hother
    cases hother with
    | segment =>
      have hlength := congrArg List.length hts
      simp at hlength
    | @dot us other t hother =>
      obtain ⟨rfl, hlast⟩ := List.append_inj' hts rfl
      obtain rfl : s = t := by simpa using hlast
      rw [ih hother]

/-- A name whose tokens go on those of another one with a dot has the other one in front. -/
theorem IsPath.exists_of_append {front rest : List Token} {base path : String}
    (hfront : IsPath front base) (h : IsPath (front ++ .symbol .dot :: rest) path) :
    ∃ more, path = base ++ "." ++ more := by
  generalize hts : front ++ Token.symbol .dot :: rest = ts at h
  induction h generalizing rest with
  | segment s =>
    obtain ⟨others, t, rfl⟩ := hfront.exists_append
    have hlength := congrArg List.length hts
    simp at hlength
    omega
  | @dot ts path s h ih =>
    -- The last token is a segment, so it belongs to the rest; the dot in front of it may not.
    rcases List.eq_nil_or_concat rest with rfl | ⟨rest, t, rfl⟩
    · have hlast := congrArg List.getLast? hts
      simp at hlast
    · have hsplit : (front ++ .symbol .dot :: rest) ++ [t] = (ts ++ [.symbol .dot]) ++ [.name s] := by
        simpa using hts
      obtain ⟨hinit, -⟩ := List.append_inj' hsplit rfl
      rcases List.eq_nil_or_concat rest with rfl | ⟨rest, u, rfl⟩
      · obtain ⟨rfl, -⟩ := List.append_inj' hinit rfl
        exact ⟨s, by rw [hfront.unique h]⟩
      · have hsplit : (front ++ .symbol .dot :: rest) ++ [u] = ts ++ [.symbol .dot] := by
          simpa using hinit
        obtain ⟨more, hmore⟩ := ih (List.append_inj' hsplit rfl).1
        exact ⟨more ++ "." ++ s, by rw [hmore]; simp [String.append_assoc]⟩

/-- The path of a target that begins with a name and a dot has the name in front. -/
theorem Derives.exists_of_append {form : Form} {ts front rest : List Token} {e : Expr}
    {target : Target} {base : String} (h : Derives form ts e) (he : e.target? = some target)
    (hfront : IsPath front base) (hts : ts = front ++ .symbol .dot :: rest) :
    ∃ more, target.path = base ++ "." ++ more := by
  induction h with
  | innermost _ ih => exact ih he hts
  | tighter _ _ ih => exact ih he hts
  | bare _ ih => exact ih he hts
  | base _ ih => exact ih he hts
  | parentheses _ _ =>
    obtain ⟨segment, others, rfl⟩ := hfront.exists_cons
    cases hts
  | name hpath =>
    obtain rfl := Option.some.inj he
    rw [hts] at hpath
    exact hfront.exists_of_append hpath
  | @element us vs path index hpath _ _ _ _ =>
    obtain rfl := Option.some.inj he
    have hsplit : (front ++ [.symbol .dot]) ++ rest =
        us ++ .symbol .leftBracket :: (vs ++ [.symbol .rightBracket]) := by
      simpa using hts.symm
    obtain ⟨middle, rfl⟩ := exists_eq_append_of_notMem hsplit (by
      simpa using hfront.symbol_notMem (s := .leftBracket) (by decide))
    rw [List.append_assoc] at hpath
    exact hfront.exists_of_append hpath
  | _ => cases he

end Expr

/-- A statement that assigns to a name of a named suit reports the global name of a card of it. -/
theorem Interpreter.exists_qualify_of_interpret {suit : SuitPath} (h : suit.IsNamed)
    {name value key : String} {locals : Table Value} {vm after : Interpreter}
    (hrun : interpret (suit.qualify name ++ " = " ++ value) locals vm = .ok (some key) after) :
    ∃ card, key = suit.qualify card := by
  by_cases hroot : suit = .root
  · subst hroot
    exact ⟨key, by rw [SuitPath.qualify_root]⟩
  obtain ⟨target, e, v, output, last, hread, -, hkey, -⟩ := interpret_eq_some_iff.1 hrun
  obtain ⟨tokens, htokens, hparse⟩ := read_eq_ok hread
  -- The text begins with the segments of the suit and a dot, and so do its tokens.
  obtain ⟨front, hfront, hlex⟩ := Token.tokensFrom_path (h.isSegmentPath hroot)
  have htext : (suit.qualify name ++ " = " ++ value).toList = suit.text.toList.map SuitPath.dotted ++
      '.' :: (name ++ " = " ++ value).toList := by
    simp [SuitPath.qualify, SuitPath.toList_globalPrefix hroot]
  rw [Token.ofText, htext, hlex (by rintro c ⟨⟩; decide), Token.tokensFrom_dot] at htokens
  obtain ⟨_, hrest, rfl⟩ := Except.map_eq_ok_iff.1 htokens
  obtain ⟨rest, -, rfl⟩ := Except.map_eq_ok_iff.1 hrest
  obtain ⟨us, vs, hsplit, -, -, hderives, -⟩ := Statement.parse_eq_assign hparse
  have hassign : Token.symbol .assign ∉ front ++ [Token.symbol .dot] := by
    simpa using hfront.symbol_notMem (s := .assign) (by decide)
  obtain ⟨middle, rfl⟩ := exists_eq_append_of_notMem (by simpa using hsplit) hassign
  obtain ⟨more, hmore⟩ := hderives.exists_of_append (Expr.target?_eq_some_iff.2 rfl) hfront
    (by rw [List.append_assoc]; rfl)
  have hpath : target.path = suit.qualify more := by
    apply String.toList_inj.1
    simp [hmore, SuitPath.qualify, SuitPath.toList_globalPrefix hroot]
  rcases key_eq_ok hkey with rfl | ⟨x, index, -, rfl⟩
  · exact ⟨more, hpath⟩
  · exact ⟨elementName more index, by
      rw [hpath]; simp [elementName, SuitPath.qualify, String.append_assoc]⟩

end InputDeck
