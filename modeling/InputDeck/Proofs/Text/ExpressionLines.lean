import InputDeck.Proofs.Expr.Brackets
import InputDeck.Proofs.Expr.Stripping
import InputDeck.Proofs.Text.Joining
import InputDeck.Proofs.Text.WrittenCards

/-!
# Reading lines of expressions

A line with the name of a card, the sign and an expression assigns the expression to the name: no
comment is split off it, it goes on in no other line, and it is neither a list nor a slice. What is
assigned has lost the blanks outside its quotes, but has the tokens of the expression. Behind the
header of a suit, such a line is the second one.
-/

namespace InputDeck

open InputDeck.Text InputDeck.Scan

/-- A character that is in no spelling of a symbol, as the marks of lines are not. -/
private theorem Token.notMem_of_spells_symbol {d : Char} (hd : d = '#' ∨ d = ':') (s : Symbol)
    (used : List Char) (h : Spells (.symbol s) used) : d ∉ used := by
  rcases hd with rfl | rfl
  all_goals
    cases h with
    | symbol => cases s <;> decide
    | stars => decide

namespace Expr.Derives

open Token

variable {form : Form} {ts : List Token} {e : Expr} {cs : List Char}

/-- An expression has no comment mark and no colon outside quotes. -/
theorem notMem_outside (hcs : Spelled ts cs) {d : Char} (hd : d = '#' ∨ d = ':') :
    d ∉ outside false cs := by
  refine hcs.notMem_outside ?_ ?_ ?_ (Token.notMem_of_spells_symbol hd)
  all_goals rcases hd with rfl | rfl <;> decide

/-- An expression is no slice. -/
theorem hasColon (hcs : Spelled ts cs) : CardLine.hasColon cs = false := by
  have hcolon : ':' ∉ outside (State.quoted {}) cs := notMem_outside hcs (.inr rfl)
  simp [CardLine.hasColon, cutUnquoted_eq_none (by decide) hcolon]

/-- An expression is not empty. -/
theorem ne_nil (h : Derives form ts e) (hcs : Spelled ts cs) : cs ≠ [] := by
  rintro rfl
  obtain ⟨t, rest, rfl, -⟩ := h.isOperand.first
  obtain ⟨blanks, used, others, hsplit, -, hused, -⟩ := hcs.exists_cons
  have hempty := List.append_eq_nil_iff.1 (List.append_eq_nil_iff.1 hsplit.symm).2
  exact hused.ne_nil hempty.1

/-- An expression does not end in a continuation mark. -/
theorem getLast?_ne (h : Derives form ts e) (hcs : Spelled ts cs) : cs.getLast? ≠ some '&' :=
  hcs.getLast?_ne (fun _ ht => h.isOperand.endsOperand ht) (by decide) (by decide)

/-- The brackets of an expression have their partners. -/
theorem bracketsBalanced (h : Derives form ts e) (hcs : Spelled ts cs) :
    Scan.bracketsBalanced cs = true := by
  have hbalanced := (h.pass cs hcs).balanced {} rfl []
  rw [List.append_nil] at hbalanced
  rw [Scan.bracketsBalanced, hbalanced]
  rfl

/-- An expression that begins with no blank is no list. -/
theorem listText? (h : Derives form ts e) (hcs : Spelled ts cs)
    (hhead : ∀ c ∈ cs.head?, isBlank c = false) : CardLine.listText? cs = none := by
  have hsplit : splitTopLevel ',' cs = [cs] := by
    have hwhole := (h.pass cs hcs).split {} rfl 0 [] (by simp)
    rw [List.append_nil] at hwhole
    rw [splitTopLevel, hwhole]
    simp [splitFrom]
  have hliteral : bracketLiteral? cs = none := by
    unfold bracketLiteral?
    split
    · next rest =>
      have hopens := hcs.opensOperand_head? (fun _ ht => h.isOperand.beginsOperand ht) rfl
      rw [hhead _ rfl] at hopens
      exact absurd hopens (by decide)
    · rfl
  simp [CardLine.listText?, hliteral, hasTopLevel, hsplit]

end Expr.Derives

/-- A line with a card name and an expression assigns the expression, without the blanks outside
its quotes, to the name. -/
theorem CardLine.ofText_expression {name value : String} {item : List Char} {form : Expr.Form}
    {ts : List Token} {e : Expr} (hname : IsCardName name.toList)
    (hstrip : stripUnquoted value.toList = some item) (hitem : Token.Spelled ts item)
    (he : Expr.Derives form ts e) (location : Location) :
    ofText (name ++ " = " ++ value) location = .ok (.scalar name (String.ofList item)) :=
  ofText_scalar hname hstrip (he.ne_nil hitem) (he.bracketsBalanced hitem)
    (Expr.Derives.hasColon hitem) (he.listText? hitem (isBlank_head?_stripUnquoted hstrip)) location

/-- A plain text is a text without a blank at its end and spaces behind it. -/
private theorem exists_spaces {cs : List Char} (hplain : IsPlain cs) :
    ∃ core n, cs = core ++ List.replicate n ' ' ∧ ∀ c, core.getLast? = some c → isBlank c = false := by
  refine ⟨trimEnd LogicalLine.isSpace cs, (cs.reverse.takeWhile LogicalLine.isSpace).length, ?_,
    fun c hc => ?_⟩
  · have hspaces : (cs.reverse.takeWhile LogicalLine.isSpace).reverse =
        List.replicate (cs.reverse.takeWhile LogicalLine.isSpace).length ' ' := by
      refine List.eq_replicate_iff.2 ⟨List.length_reverse, fun c hc => ?_⟩
      have hspace := List.all_eq_true.1 List.all_takeWhile c (List.mem_reverse.1 hc)
      simpa [LogicalLine.isSpace] using hspace
    rw [← hspaces]
    exact (trimEnd_append _ cs).symm
  · have hspace := getLast?_trimEnd hc
    cases hblank : isBlank c with
    | false => rfl
    | true =>
      obtain rfl := hplain c ((trimEnd_sublist _ cs).subset (List.mem_of_getLast? hc)) hblank
      cases hspace

/-- The spaces behind a plain text stand outside its quotes, so they are stripped with its other
blanks. -/
private theorem exists_stripped {cs item : List Char} (hplain : IsPlain cs)
    (hpaired : QuotesPaired cs) (hstrip : stripUnquoted cs = some item) :
    ∃ core n, cs = core ++ List.replicate n ' ' ∧
      (∀ c, core.getLast? = some c → isBlank c = false) ∧ QuotesPaired core ∧
      stripUnquoted core = some item := by
  obtain ⟨core, n, rfl, hend⟩ := exists_spaces hplain
  have hspaces : '"' ∉ List.replicate n ' ' := fun hmem =>
    absurd (List.mem_replicate.1 hmem).2 (by decide)
  have hcore : QuotesPaired core := by
    rw [QuotesPaired, List.count_append, List.count_eq_zero.2 hspaces] at hpaired
    exact hpaired
  have hnothing : stripUnquoted (List.replicate n ' ') = some [] :=
    stripUnquoted_of_isBlank fun c hc => by rw [(List.mem_replicate.1 hc).2]; decide
  rw [stripUnquoted_append hcore, hnothing] at hstrip
  exact ⟨core, n, rfl, hend, hcore, by simpa using hstrip⟩

/-- A plain expression in a line of its own is read as that line, without the spaces behind it; the
line assigns what has the same tokens. -/
theorem LogicalLine.ofText_expression {name value : String} {total : Nat} {form : Expr.Form}
    {ts : List Token} {e : Expr} (hname : IsCardName name.toList) (hplain : IsPlain value.toList)
    (htokens : Token.tokensFrom total false value.toList = .ok ts) (he : Expr.Derives form ts e) :
    ∃ core item : String,
      LogicalLine.ofText {} (name ++ " = " ++ value) = [⟨name ++ " = " ++ core, 1, none⟩] ∧
      (∀ location, CardLine.ofText (name ++ " = " ++ core) location = .ok (.scalar name item)) ∧
      ∀ total, Token.tokensFrom total false item.toList = .ok ts := by
  have hspelled := Token.spelled_of_tokensFrom htokens
  obtain ⟨item, hstrip, hitem⟩ := Token.tokensFrom_stripUnquoted htokens he.isOperand.apart
  obtain ⟨core, n, hcore, hend, hpaired, hcoreStrip⟩ :=
    exists_stripped hplain hspelled.count_quote hstrip
  have hitemSpelled := Token.spelled_of_tokensFrom (hitem total)
  have hlast : ∃ front c, core = front ++ [c] ∧ isBlank c = false ∧ c ≠ '&' := by
    rcases List.eq_nil_or_concat core with rfl | ⟨front, c, rfl⟩
    · obtain rfl := Option.some.inj hcoreStrip
      exact absurd rfl (he.ne_nil hitemSpelled)
    · have hc := hend c (by simp)
      refine ⟨front, c, by simp, hc, ?_⟩
      rintro rfl
      rw [List.concat_eq_append] at hcoreStrip
      exact he.getLast?_ne hitemSpelled (getLast?_stripUnquoted hc hcoreStrip)
  have hmark : '#' ∉ outside false core := by
    have hall := Expr.Derives.notMem_outside hspelled (.inl rfl)
    rw [hcore, outside_append hpaired, List.mem_append, not_or] at hall
    exact hall.1
  have hbody : IsBody {} (name.toList ++ ' ' :: '=' :: ' ' :: core) :=
    hname.isBody_assignment Settings.isUsable_default (hplain.of_subset (by simp [hcore])) hlast
      hmark hpaired
  refine ⟨String.ofList core, String.ofList item, ?_, fun location => ?_, fun total => ?_⟩
  · have hline := LogicalLine.ofText_body Settings.isUsable_default hbody n
    have hsplit : String.ofList (name.toList ++ ' ' :: '=' :: ' ' :: core ++ List.replicate n ' ') =
        name ++ " = " ++ value := by
      apply String.toList_inj.1
      simp [hcore]
    have hjoin : String.ofList (name.toList ++ ' ' :: '=' :: ' ' :: core) =
        name ++ " = " ++ String.ofList core := by
      apply String.toList_inj.1
      simp
    rwa [hsplit, hjoin] at hline
  · exact CardLine.ofText_expression hname (by rwa [String.toList_ofList]) hitemSpelled he location
  · rw [String.toList_ofList]
    exact hitem total

/-- A header in front of a text is a line of its own. -/
theorem LogicalLine.ofText_header {path : String} (h : SuitPath.IsSegmentPath path.toList)
    (text : String) :
    ofText {} ("<" ++ path ++ ">" ++ "\n" ++ text) =
      ⟨"<" ++ path ++ ">", 1, none⟩ :: (ofText {} text).map (shift 1) := by
  have hheader : ("<" ++ path ++ ">").toList = '<' :: path.toList ++ ['>'] := by simp
  have hbody := h.isBody_header Settings.isUsable_default rfl rfl
  have hfragments := fragments_body Settings.isUsable_default hbody 0
  have hline := ofText_body Settings.isUsable_default hbody 0
  rw [List.replicate_zero, List.append_nil, ← hheader] at hfragments hline
  rw [String.ofList_toList] at hline
  have hclosed : endsOpen {} ("<" ++ path ++ ">") = false := by
    have hlast := hbody.stripLast_eq_none
    rw [← hheader] at hlast
    rw [endsOpen, hfragments]
    exact congrArg Option.isSome hlast
  have hlines : lines (("<" ++ path ++ ">").toList ++ ['\n']) = [("<" ++ path ++ ">").toList] := by
    rw [hheader]
    exact lines_append_newline [] hbody.plain.newline_notMem hbody.plain.return_notMem
  rw [ofText_append text hclosed, hline, hlines]
  rfl

end InputDeck
