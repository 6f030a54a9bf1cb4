import InputDeck.Compilation
import InputDeck.Proofs.Expr.Completeness
import InputDeck.Proofs.Expr.Stripping
import InputDeck.Proofs.Expr.Targets

/-!
# Sent assignments

A line that assigns to a name is not sent as it stands: the blanks of its name go, and those outside
the quotes of its value, and the path of the suit comes in front. What is sent is still the same
assignment. No two neighbours of an expression need a blank between them, so the tokens stay; and
the path of the suit makes a longer path of the name that the target begins with, and changes
nothing else of it.
-/

namespace InputDeck

open InputDeck.Text InputDeck.Scan

namespace Expr

/-- Two names with a dot between them are a name. -/
theorem IsPath.append {front ts : List Token} {base path : String} (hfront : IsPath front base)
    (h : IsPath ts path) : IsPath (front ++ .symbol .dot :: ts) (base ++ "." ++ path) := by
  induction h with
  | segment s => exact .dot s hfront
  | dot s _ ih =>
    have hpath := IsPath.dot s ih
    simpa [String.append_assoc] using hpath

/-- A target that begins with a name is one with a longer path behind another name. -/
theorem Derives.behind {form : Form} {front ts : List Token} {base segment : String} {e : Expr}
    {target : Target} (h : Derives form ts e) (hfront : IsPath front base)
    (hts : ts.head? = some (.name segment)) (he : e = target.toExpr) :
    Derives form (front ++ .symbol .dot :: ts)
      { target with path := base ++ "." ++ target.path }.toExpr := by
  have hlong : ∀ (b : Bool) (path : String), base ++ "." ++ path ≠ toString b := by
    intro b path heq
    have hdot : '.' ∈ (toString b).toList := by
      rw [← heq]
      simp
    cases b <;> simp [toString] at hdot
  obtain ⟨path, index⟩ := target
  induction h with
  | innermost _ ih => exact .innermost (ih hts he)
  | tighter level _ ih => exact .tighter level (ih hts he)
  | bare _ ih => exact .bare (ih hts he)
  | base _ ih => exact .base (ih hts he)
  | parentheses => cases hts
  | name hpath =>
    cases index with
    | none =>
      obtain rfl := Expr.name.inj he
      exact .name (hfront.append hpath) (hlong true _) (hlong false _)
    | some index => cases he
  | @element us vs _ _ hpath _ _ hindex =>
    cases index with
    | none => cases he
    | some index =>
      obtain ⟨rfl, rfl⟩ := Expr.element.inj he
      have helement := Derives.element (hfront.append hpath) (hlong true _) (hlong false _) hindex
      simpa [Target.toExpr] using helement
  | _ => cases index <;> cases he

end Expr

namespace Token

variable {total : Nat} {afterName : Bool} {cs : List Char} {ts : List Token}

/-- A text that begins with a letter begins with a name. -/
theorem head?_of_tokensFrom (h : tokensFrom total afterName cs = .ok ts)
    (hcs : cs.head?.any isNameStart = true) : ∃ segment, ts.head? = some (.name segment) := by
  cases cs with
  | nil => cases hcs
  | cons c cs =>
    have hstart : isNameStart c = true := hcs
    have hnext : next total afterName c cs = .ok _ := next_eq_ok_iff.2 (.name hstart)
    rw [tokensFrom_cons (isBlank_of_isNamePart (isNamePart_of_isNameStart hstart)) hnext] at h
    obtain ⟨rest, -, rfl⟩ := Except.map_eq_ok_iff.1 h
    exact ⟨_, rfl⟩

/-- The sign of an assignment is the character that it begins with, and the value stands behind
it. -/
theorem exists_cons_of_tokensFrom_assign
    (h : tokensFrom total afterName cs = .ok (.symbol .assign :: ts))
    (hcs : ∀ c ∈ cs.head?, isBlank c = false) :
    ∃ rest, cs = '=' :: rest ∧ rest.head? ≠ some '=' ∧ tokensFrom total false rest = .ok ts := by
  cases cs with
  | nil =>
    rw [tokensFrom] at h
    cases h
  | cons c cs =>
    rw [tokensFrom] at h
    simp only [hcs c rfl, Bool.false_eq_true, if_false] at h
    split at h
    · cases h
    · next hnext =>
      obtain ⟨rest, hrest, hcons⟩ := Except.map_eq_ok_iff.1 h
      obtain ⟨rfl, rfl⟩ := List.cons.inj hcons
      obtain ⟨used, hused, hspells, hassign⟩ := spells_of_next hnext
      cases hspells with
      | symbol => exact ⟨_, hused, hassign rfl, hrest⟩

end Token

/-- The sides of a line that assigns one value to one name. -/
theorem CardLine.sides_of_scalar {text name value : String} {location : Location}
    {before after : List Char} (h : ofText text location = .ok (.scalar name value))
    (hcut : cutAssignment none {} text.toList = some (before, after)) :
    name.toList = withoutBlanks before ∧ stripUnquoted after = some value.toList := by
  rw [ofText, hcut] at h
  cases hstrip : stripUnquoted after with
  | none =>
    simp only [hstrip] at h
    cases h
  | some side =>
    simp only [hstrip] at h
    unfold ofSides at h
    repeat' split at h
    all_goals first | cases h | skip
    · simp
    · dsimp only at h
      split at h <;> cases h

namespace Interpreter

variable {text name value : String} {location : Location} {target : Target} {e : Expr}
  {before after : List Char}

/-- What is sent to the root for a line has the tokens of the line. -/
theorem exists_tokens_of_scalar
    (hscalar : CardLine.ofText text location = .ok (.scalar name value))
    (hread : read text = .ok (.assign target e))
    (hcut : cutAssignment none {} text.toList = some (before, after)) (hquote : '"' ∉ before) :
    ∃ us vs, Token.ofText text = .ok (us ++ .symbol .assign :: vs) ∧
      Expr.Derives (.levels Level.all) us target.toExpr ∧ Expr.Derives (.levels Level.all) vs e ∧
      ∀ total, Token.tokensFrom total false (name ++ " = " ++ value).toList =
        .ok (us ++ .symbol .assign :: vs) := by
  obtain ⟨tokens, htokens, hparse⟩ := read_eq_ok hread
  obtain ⟨us, vs, rfl, -, -, htarget, hvalue⟩ := Statement.parse_eq_assign hparse
  refine ⟨us, vs, htokens, htarget, hvalue, fun total => ?_⟩
  obtain ⟨front, rest, side, afterLast, hsplit, hspelled, hside, hvisible, hrest, hlex⟩ :=
    Token.exists_front_of_tokensFrom htokens htarget.isOperand.apart
  obtain ⟨behind, rfl, hbehind, hvs⟩ := Token.exists_cons_of_tokensFrom_assign hrest hvisible
  -- The line is cut at the sign behind the tokens of the target.
  obtain ⟨rfl, rfl⟩ : front = before ∧ behind = after := by
    rw [hsplit, hspelled.cutAssignment_assign htarget.assign_notMem
      (fun _ => htarget.isOperand.endsOperand) hbehind] at hcut
    exact Prod.mk.inj (Option.some.inj hcut)
  obtain ⟨hname, hstrip⟩ := CardLine.sides_of_scalar hscalar hcut
  obtain rfl : name.toList = side :=
    hname.trans (Option.some.inj ((stripUnquoted_of_notMem hquote).symm.trans hside))
  obtain ⟨item, hitem, hitemTokens⟩ :=
    Token.tokensFrom_stripUnquoted hvs hvalue.isOperand.apart
  obtain rfl : value.toList = item := Option.some.inj (hstrip.symm.trans hitem)
  have htext : (name ++ " = " ++ value).toList =
      name.toList ++ ' ' :: '=' :: ' ' :: value.toList := by simp
  rw [htext, hlex total _ fun t _ => Token.ends_space t _, Token.tokensFrom_sign, hitemTokens]
  rfl

/-- Stripping the blanks of a line changes nothing of the assignment that it is read as. -/
theorem read_assignment_of_scalar {suit : SuitPath}
    (hscalar : CardLine.ofText text location = .ok (.scalar name value))
    (hread : read text = .ok (.assign target e))
    (hstart : text.toList.head?.any Token.isNameStart = true)
    (hcut : cutAssignment none {} text.toList = some (before, after)) (hquote : '"' ∉ before)
    (hsuit : suit.IsNamed) :
    read (Progress.assignment suit name value) =
      .ok (.assign { target with path := suit.qualify target.path } e) := by
  obtain ⟨us, vs, htokens, htarget, hvalue, hlex⟩ :=
    exists_tokens_of_scalar hscalar hread hcut hquote
  suffices ∃ ts, Token.ofText (Progress.assignment suit name value) =
        .ok (ts ++ .symbol .assign :: vs) ∧
      Expr.Derives (.levels Level.all) ts
        { target with path := suit.qualify target.path }.toExpr by
    obtain ⟨ts, hts, hderives⟩ := this
    refine Except.bind_eq_ok_iff.2 ⟨_, hts, ?_⟩
    rw [Statement.parse_assign hderives hvalue]
    rfl
  by_cases hroot : suit = .root
  · subst hroot
    exact ⟨us, by simpa [Progress.assignment, Token.ofText] using hlex _,
      by simpa using htarget⟩
  obtain ⟨front, hfront, hpath⟩ := Token.tokensFrom_path (hsuit.isSegmentPath hroot)
  obtain ⟨segment, hsegment⟩ := Token.head?_of_tokensFrom htokens hstart
  have hus : us.head? = some (.name segment) := by
    obtain ⟨t, rest, rfl, -⟩ := htarget.isOperand.first
    exact hsegment
  refine ⟨front ++ .symbol .dot :: us, ?_, ?_⟩
  · have htext : (Progress.assignment suit name value).toList =
        suit.text.toList.map SuitPath.dotted ++ '.' :: (name ++ " = " ++ value).toList := by
      simp [Progress.assignment, SuitPath.qualify, SuitPath.toList_globalPrefix hroot]
    rw [Token.ofText, htext, hpath (by rintro c ⟨⟩; decide), Token.tokensFrom_dot, hlex]
    simp [Except.map]
  · have hqualify : suit.qualify target.path =
        String.ofList (suit.text.toList.map SuitPath.dotted) ++ "." ++ target.path := by
      apply String.toList_inj.1
      simp [SuitPath.qualify, SuitPath.toList_globalPrefix hroot]
    rw [hqualify]
    exact htarget.behind hfront hus rfl

/-- Blanks around an index, operations and arguments are stripped, and those of a text stay. -/
theorem read_assignment_of_scalar_spaces :
    ∃ target e, read "v [ 1 + 1 ] = - 2 ^ 2 * max( a , \"x y\" )" = .ok (.assign target e) ∧
      target.path = "v" ∧
      read (Progress.assignment (.ofString "a/b") "v[1+1]" "-2^2*max(a,\"x y\")") =
        .ok (.assign { target with path := "a.b.v" } e) := by
  obtain ⟨target, e, hread, hpath⟩ : ∃ target e,
      read "v [ 1 + 1 ] = - 2 ^ 2 * max( a , \"x y\" )" = .ok (.assign target e) ∧
        target.path = "v" := by
    have hpasses : (match read "v [ 1 + 1 ] = - 2 ^ 2 * max( a , \"x y\" )" with
        | .ok (.assign target _) => target.path == "v"
        | _ => false) = true := by decide +kernel
    split at hpasses
    · next target e hread => exact ⟨target, e, hread, by simpa using hpasses⟩
    · cases hpasses
  have hsuit : (SuitPath.ofString "a/b").IsNamed :=
    .inr (.dot (.segment (show Token.IsSegment ['a'] by decide))
      (show Token.IsSegment ['b'] by decide))
  have hscalar : CardLine.ofText "v [ 1 + 1 ] = - 2 ^ 2 * max( a , \"x y\" )" ⟨1, .root⟩ =
      .ok (.scalar "v[1+1]" "-2^2*max(a,\"x y\")") :=
    Except.toOption_eq_some_iff.1 (by decide +kernel)
  have hcut : cutAssignment none {} "v [ 1 + 1 ] = - 2 ^ 2 * max( a , \"x y\" )".toList =
      some ("v [ 1 + 1 ] ".toList, " - 2 ^ 2 * max( a , \"x y\" )".toList) := by decide +kernel
  have hsent := read_assignment_of_scalar hscalar hread (by decide +kernel) hcut (by decide +kernel)
    hsuit
  rw [hpath] at hsent
  exact ⟨target, e, hread, hpath, hsent⟩

end Interpreter

end InputDeck
