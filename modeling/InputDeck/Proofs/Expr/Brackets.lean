import InputDeck.Proofs.Expr.Adjacent
import InputDeck.Proofs.Expr.Names
import InputDeck.Proofs.Text.Pieces

/-!
# Brackets of expressions

The brackets and parentheses of an expression come in pairs, and its commas stand between
parentheses. So every scan of a line that counts brackets passes over an expression as a whole: none
is left open, none is closed that was open in front of it, and the line is split at none of its
commas.
-/

namespace InputDeck

open InputDeck.Text InputDeck.Scan

namespace Scan

/-- A text that scans pass over as a whole; when it stands `inside` of parentheses, it may have
commas of its own. -/
structure Passes (inside : Bool) (cs : List Char) : Prop where
  /-- What is open in front of the text is open behind it. -/
  after : ∀ s : State, s.quoted = false → s.after cs = s
  /-- The text closes no bracket in front of it. -/
  balanced : ∀ s : State, s.quoted = false → ∀ ds,
    balancedFrom s (cs ++ ds) = balancedFrom s ds
  /-- The text is not split. -/
  split : ∀ s : State, s.quoted = false → ∀ parens ds,
    (inside = true → s.isNormal = true → 0 < parens) →
    splitFrom ',' parens s (cs ++ ds) = (splitFrom ',' parens s ds).modifyHead (cs ++ ·)

namespace Passes

variable {inside : Bool} {cs ds : List Char}

/-- Nothing is passed over. -/
theorem nil : Passes inside [] where
  after _ _ := rfl
  balanced _ _ _ := rfl
  split s _ parens ds _ := by cases h : splitFrom ',' parens s ds <;> simp [h]

/-- Texts are passed over one after the other. -/
theorem append (hcs : Passes inside cs) (hds : Passes inside ds) : Passes inside (cs ++ ds) where
  after s hs := by rw [State.after_append, hcs.after s hs, hds.after s hs]
  balanced s hs es := by rw [List.append_assoc, hcs.balanced s hs, hds.balanced s hs]
  split s hs parens es hinside := by
    rw [List.append_assoc, hcs.split s hs parens _ hinside, hds.split s hs parens es hinside]
    cases splitFrom ',' parens s es <;> simp

/-- A text without commas of its own can stand anywhere. -/
theorem of_false (h : Passes false cs) : Passes inside cs where
  after := h.after
  balanced := h.balanced
  split s hs parens ds _ := h.split s hs parens ds (by simp)

/-- A text with paired quotes and without brackets, parentheses and commas outside them. -/
theorem of_notMem (hpaired : QuotesPaired cs)
    (h : ∀ c ∈ ['[', ']', '(', ')', ','], c ∉ outside false cs) : Passes inside cs := by
  have hself : ∀ s : State, s.quoted = false → s.after cs = s := fun s hs =>
    State.after_eq_self hpaired (by rw [hs]; exact h '[' (by simp))
      (by rw [hs]; exact h ']' (by simp))
  refine ⟨hself, fun s hs ds => ?_, fun s hs parens ds _ => ?_⟩
  · rw [balancedFrom_append_of_notMem (by rw [hs]; exact h '[' (by simp))
      (by rw [hs]; exact h ']' (by simp)), hself s hs]
  · have hpiece : splitFrom ',' parens s cs = [cs] :=
      splitFrom_eq_singleton (by decide) (by rw [hs]; exact h ',' (by simp))
    rw [splitFrom_append_of_singleton isSeparator_comma hpiece, hself s hs,
      parensAfter_of_notMem (by rw [hs]; exact h '(' (by simp)) (by rw [hs]; exact h ')' (by simp))]

/-- Between parentheses a comma is passed over. -/
theorem comma : Passes true [','] := by
  have hself : ∀ s : State, s.next ',' = s := fun s => by simp [State.next]
  refine ⟨fun s _ => hself s, fun s _ ds => ?_, fun s _ parens ds hinside => ?_⟩
  · rw [List.singleton_append, balancedFrom, hself]
    rfl
  · rw [List.singleton_append, splitFrom, hself]
    split
    · next hnormal =>
      have hpos := hinside rfl hnormal
      rw [if_neg (by decide), if_neg (by decide), if_neg (by omega)]
      rfl
    · rfl

/-- What stands between parentheses is passed over with them. -/
theorem parentheses (h : Passes true cs) : Passes inside ('(' :: cs ++ [')']) := by
  have hopen : ∀ s : State, s.next '(' = s := fun s => by simp [State.next]
  have hclose : ∀ s : State, s.next ')' = s := fun s => by simp [State.next]
  refine ⟨fun s hs => ?_, fun s hs ds => ?_, fun s hs parens ds _ => ?_⟩
  · rw [List.cons_append, State.after_cons, hopen, State.after_append, h.after s hs,
      State.after_cons, hclose, State.after_nil]
  · rw [List.append_assoc, List.cons_append, balancedFrom, hopen, h.balanced s hs,
      List.singleton_append, balancedFrom, hclose]
    rfl
  · have hparens := h.split s hs (parens + 1) (')' :: ds) fun _ _ => Nat.succ_pos parens
    rw [List.append_assoc, List.cons_append, List.singleton_append, splitFrom, hopen]
    by_cases hnormal : s.isNormal = true
    · rw [if_pos hnormal, if_pos rfl, hparens, splitFrom, if_pos hnormal, if_neg (by decide),
        if_pos rfl, hclose, Nat.add_sub_cancel]
      cases splitFrom ',' parens s ds <;> simp
    · rw [if_neg hnormal, h.split s hs parens _ fun _ he => absurd he hnormal, splitFrom,
        if_neg hnormal, hclose]
      cases splitFrom ',' parens s ds <;> simp

/-- What stands between brackets is passed over with them. -/
theorem brackets (h : Passes true cs) : Passes inside ('[' :: cs ++ [']']) := by
  have hopen : ∀ s : State, s.quoted = false → s.next '[' = ⟨false, s.depth + 1⟩ := by
    rintro ⟨quoted, depth⟩ rfl
    rfl
  have hclose : ∀ s : State, s.quoted = false → State.next ⟨false, s.depth + 1⟩ ']' = s := by
    rintro ⟨quoted, depth⟩ rfl
    rfl
  have hinner : ∀ s : State, State.isNormal ⟨false, s.depth + 1⟩ = false := fun s => rfl
  refine ⟨fun s hs => ?_, fun s hs ds => ?_, fun s hs parens ds _ => ?_⟩
  · rw [List.cons_append, State.after_cons, hopen s hs, State.after_append, h.after _ rfl,
      State.after_cons, hclose s hs, State.after_nil]
  · rw [List.append_assoc, List.cons_append, balancedFrom, hopen s hs, h.balanced _ rfl,
      List.singleton_append, balancedFrom, hclose s hs, hinner]
    rfl
  · have hbrackets := h.split ⟨false, s.depth + 1⟩ rfl parens (']' :: ds) fun _ he =>
      absurd he (by simp [hinner])
    rw [splitFrom, hclose s hs, hinner, if_neg (by decide)] at hbrackets
    have hpiece : splitFrom ',' parens s ('[' :: cs ++ [']'] ++ ds) =
        (splitFrom ',' parens (s.next '[') (cs ++ ']' :: ds)).modifyHead ('[' :: ·) := by
      rw [List.append_assoc, List.cons_append, List.singleton_append, splitFrom]
      split <;> simp
    rw [hpiece, hopen s hs, hbrackets]
    cases splitFrom ',' parens s ds <;> simp

end Passes

end Scan

namespace Token

/-- Tokens that scans pass over, however they are spelled. -/
def Pass (inside : Bool) (ts : List Token) : Prop := ∀ cs, Spelled ts cs → Passes inside cs

variable {inside : Bool} {ts us : List Token}

/-- Blanks are passed over. -/
theorem pass_nil : Pass inside [] := by
  intro cs h
  generalize hts : ([] : List Token) = ts at h
  induction h with
  | nil => exact .nil
  | @blank c ts cs hc _ ih =>
    have hother : ∀ d, isBlank d = false → d ≠ c := by
      rintro d hd rfl
      rw [hd] at hc
      cases hc
    have hfirst : Passes inside [c] := by
      have hquote : '"' ∉ [c] := by simpa using hother '"' (by decide)
      refine .of_notMem (.of_notMem hquote) fun d hd => ?_
      rw [outside_of_notMem hquote, List.mem_singleton]
      simp only [List.mem_cons, List.not_mem_nil, or_false] at hd
      rcases hd with rfl | rfl | rfl | rfl | rfl <;> exact hother _ (by decide)
    exact hfirst.append (ih hts)
  | token => cases hts

/-- Tokens are passed over one after the other. -/
theorem Pass.append (hts : Pass inside ts) (hus : Pass inside us) : Pass inside (ts ++ us) := by
  intro cs h
  obtain ⟨front, rest, rfl, hfront, hrest⟩ := h.exists_append
  exact (hts front hfront).append (hus rest hrest)

/-- Tokens are passed over one by one. -/
theorem Pass.cons {t : Token} (ht : ∀ used, Spells t used → Passes inside used)
    (hts : Pass inside ts) : Pass inside (t :: ts) := by
  intro cs h
  obtain ⟨blanks, used, rest, rfl, hblanks, hused, hrest⟩ := h.exists_cons
  exact (pass_nil blanks hblanks).append ((ht used hused).append (hts rest hrest))

/-- What is no character of names and numerals stands outside the quotes of symbols alone. -/
theorem Spells.notMem_outside {t : Token} {used : List Char} (h : Spells t used) {d : Char}
    (hname : isNamePart d = false) (hnumeral : isNumeralChar d = false)
    (hsymbol : ∀ s, t = .symbol s → d ∉ used) : d ∉ outside false used := by
  have hused : ∀ {s : Symbol}, t = .symbol s → d ∉ outside false used := fun hs hmem =>
    hsymbol _ hs (outside_subset false used hmem)
  cases h with
  | number _ hchars =>
    intro hmem
    rw [hchars d (outside_subset false used hmem)] at hnumeral
    cases hnumeral
  | name h => exact fun hmem => h.notMem hname (outside_subset false _ hmem)
  | string h =>
    rw [outside_quoted h]
    exact List.not_mem_nil
  | symbol => exact hused rfl
  | stars => exact hused rfl

/-- What is in no spelling of a symbol either stands outside the quotes of no text of tokens. -/
theorem Spelled.notMem_outside {cs : List Char} (h : Spelled ts cs) {d : Char}
    (hblank : isBlank d = false) (hname : isNamePart d = false) (hnumeral : isNumeralChar d = false)
    (hsymbol : ∀ s used, Spells (.symbol s) used → d ∉ used) : d ∉ outside false cs := by
  induction h with
  | nil => simp [outside]
  | @blank c ts cs hc _ ih =>
    have hquote : c ≠ '"' := by
      rintro rfl
      exact absurd hc (by decide)
    rw [outside, if_neg hquote, if_neg (by simp), List.mem_cons, not_or]
    refine ⟨?_, ih⟩
    rintro rfl
    rw [hblank] at hc
    cases hc
  | token ht _ _ ih =>
    rw [outside_append ht.count_quote, List.mem_append, not_or]
    exact ⟨ht.notMem_outside hname hnumeral fun s hs => hsymbol s _ (hs ▸ ht), ih⟩

/-- A token that is no delimiter is passed over. -/
theorem Spells.passes {t : Token} {used : List Char} (h : Spells t used)
    (ht : ∀ s, t = .symbol s → s.isDelimiter = false) : Passes inside used := by
  have hsymbol : ∀ s, t = .symbol s → ∀ d ∈ ['[', ']', '(', ')', ','], d ∉ used := by
    rintro s rfl
    have hdelimiter := ht s rfl
    simp only [List.mem_cons, List.not_mem_nil, or_false, forall_eq_or_imp, forall_eq]
    cases h with
    | symbol => cases s <;> first | decide | cases hdelimiter
    | stars => decide
  refine .of_notMem h.count_quote fun d hd => h.notMem_outside ?_ ?_ fun s hs => hsymbol s hs d hd
  all_goals
    simp only [List.mem_cons, List.not_mem_nil, or_false] at hd
    rcases hd with rfl | rfl | rfl | rfl | rfl <;> decide

/-- A token that is no delimiter is passed over with what follows it. -/
theorem Pass.cons_of_ne {t : Token} (ht : ∀ s, t = .symbol s → s.isDelimiter = false)
    (hts : Pass inside ts) : Pass inside (t :: ts) :=
  .cons (fun _ hused => hused.passes ht) hts

/-- Delimited tokens are passed over when the delimiters are, with any text between them. -/
private theorem Pass.delimited {s u : Symbol} {c d : Char}
    (hs : ∀ used, Spells (.symbol s) used → used = [c])
    (hu : ∀ used, Spells (.symbol u) used → used = [d])
    (hgroup : ∀ cs, Passes true cs → Passes inside (c :: cs ++ [d])) (h : Pass true ts) :
    Pass inside (.symbol s :: ts ++ [.symbol u]) := by
  intro cs hcs
  obtain ⟨blanks, used, rest, rfl, hblanks, hused, hrest⟩ := hcs.exists_cons
  obtain rfl := hs used hused
  obtain ⟨front, last, rfl, hfront, hlast⟩ := hrest.exists_append
  obtain ⟨between, used, tail, rfl, hbetween, hused, htail⟩ := hlast.exists_cons
  obtain rfl := hu used hused
  have hinner := (h front hfront).append (pass_nil between hbetween)
  have hall := (pass_nil blanks hblanks).append ((hgroup _ hinner).append (pass_nil tail htail))
  simpa using hall

/-- Tokens in parentheses are passed over, also with commas. -/
theorem Pass.parentheses (h : Pass true ts) :
    Pass inside (.symbol .leftParen :: ts ++ [.symbol .rightParen]) :=
  .delimited (by rintro _ ⟨⟩; rfl) (by rintro _ ⟨⟩; rfl) (fun _ => Passes.parentheses) h

/-- Tokens in brackets are passed over. -/
theorem Pass.brackets (h : Pass true ts) :
    Pass inside (.symbol .leftBracket :: ts ++ [.symbol .rightBracket]) :=
  .delimited (by rintro _ ⟨⟩; rfl) (by rintro _ ⟨⟩; rfl) (fun _ => Passes.brackets) h

/-- Between parentheses, what is passed over may have commas. -/
theorem Pass.of_false (h : Pass false ts) : Pass inside ts := fun cs hcs => (h cs hcs).of_false

end Token

namespace Expr

open Token

/-- A name is passed over. -/
theorem IsPath.pass {ts : List Token} {path : String} (h : IsPath ts path) (inside : Bool) :
    Pass inside ts := by
  induction h with
  | segment s => exact .cons_of_ne (by simp) pass_nil
  | dot s _ ih =>
    refine ih.append (.cons_of_ne ?_ (.cons_of_ne (by simp) pass_nil))
    rintro s ⟨⟩
    rfl

/-- Between parentheses, expressions with commas between them are passed over. -/
theorem pass_commaSeparated {parts : List (List Token)} (h : ∀ ts ∈ parts, Pass false ts) :
    Pass true (commaSeparated parts) := by
  fun_induction commaSeparated parts with
  | case1 => exact pass_nil
  | case2 ts => exact (h ts (by simp)).of_false
  | case3 ts us rest ih =>
    refine (h ts (by simp)).of_false.append (.cons ?_ ?_)
    · rintro _ ⟨⟩
      exact .comma
    · exact ih fun vs hvs => h vs (List.mem_cons_of_mem _ hvs)

/-- An expression is passed over. -/
theorem Derives.pass {form : Form} {ts : List Token} {e : Expr} (h : Derives form ts e) :
    Pass false ts := by
  induction h with
  | innermost _ ih => exact ih
  | tighter _ _ ih => exact ih
  | @operation _ _ _ _ level _ s _ hop _ _ ihleft ihright =>
    refine ihleft.append (.cons_of_ne ?_ ihright)
    rintro u ⟨⟩
    cases level <;> cases s <;> first | rfl | cases hop
  | @before _ _ s _ hop _ ih =>
    refine .cons_of_ne ?_ ih
    rintro u ⟨⟩
    cases s <;> first | rfl | cases hop
  | bare _ ih => exact ih
  | base _ ih => exact ih
  | exponent _ _ ihbase ihexponent =>
    refine ihbase.append (.cons_of_ne ?_ ihexponent)
    rintro u ⟨⟩
    rfl
  | number x => exact .cons_of_ne (by simp) pass_nil
  | string s => exact .cons_of_ne (by simp) pass_nil
  | parentheses _ ih => exact ih.of_false.parentheses
  | @call ts path arguments hpath _ ih =>
    have harguments : Pass true (commaSeparated (arguments.map Prod.fst)) := by
      refine pass_commaSeparated fun us hus => ?_
      obtain ⟨argument, hargument, rfl⟩ := List.mem_map.1 hus
      exact ih argument hargument
    rw [List.append_assoc]
    exact (hpath.pass false).append harguments.parentheses
  | boolean b => exact .cons_of_ne (by simp) pass_nil
  | name hpath => exact hpath.pass false
  | element hpath _ _ _ ih =>
    rw [List.append_assoc]
    exact (hpath.pass false).append ih.of_false.brackets

end Expr

end InputDeck
