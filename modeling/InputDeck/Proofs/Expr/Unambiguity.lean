import InputDeck.Proofs.Expr.Trees

/-!
# No tokens have two trees

What tells two trees apart is where their parts end, and a part ends where the parser function of its
form stops reading. Only the operations of one level have to be counted besides: the parser reads
them from the left, and the rules take off the last one. So the grammar of statements is what the
parser reads, with one tree for whatever it reads.
-/

namespace InputDeck

namespace Expr

/-! ## Where parts end -/

/-- Whether a form lists no level twice. -/
def Form.Ordered : Form → Prop
  | levels ls => ls.Nodup
  | _ => True

/-- An expression lists every level once. -/
theorem Form.ordered_all : (levels Level.all).Ordered := by
  show Level.all.Nodup
  decide

/-- Two expressions of one form that begin in the same place, with tokens behind them that do not go
on with either, end in the same place and are the same. -/
theorem Derives.append_inj {form : Form} {ts us rest behind : List Token} {e d : Expr}
    (h : Derives form ts e) (hother : Derives form us d) (hform : form.Ordered)
    (hrest : form.Stops rest) (hbehind : form.Stops behind) (heq : ts ++ rest = us ++ behind) :
    ts = us ∧ rest = behind ∧ e = d := by
  have hread : ∀ {vs : List Token} {c : Expr}, Derives form vs c → IsRead form vs c := by
    intro vs c hvs
    cases form with
    | levels ls => exact hvs.completes.isRead hform
    | _ => exact hvs.completes
  have hfirst := hread h _ rest (le_max_left _ (12 * us.length + form.rank)) hrest
  have hsecond := hread hother _ behind (le_max_right (12 * ts.length + form.rank) _) hbehind
  rw [heq, hsecond] at hfirst
  obtain ⟨rfl, rfl⟩ := Prod.mk.inj (Except.ok.inj hfirst)
  exact ⟨List.append_cancel_right heq, rfl, rfl⟩

namespace Tree

/-- Two trees of one form that begin in the same place, with tokens behind them that do not go on
with either, end in the same place. -/
theorem append_inj {form : Form} {t other : Tree form} {rest behind : List Token}
    (h : t.tokens ++ rest = other.tokens ++ behind) (hform : form.Ordered)
    (hrest : form.Stops rest) (hbehind : form.Stops behind) :
    t.tokens = other.tokens ∧ rest = behind := by
  obtain ⟨htokens, hends, -⟩ := t.derives.append_inj other.derives hform hrest hbehind h
  exact ⟨htokens, hends⟩

/-- Trees of one form with the same tokens mean the same. -/
theorem value_eq_of_tokens_eq {form : Form} {t other : Tree form} (h : t.tokens = other.tokens)
    (hform : form.Ordered) : t.value = other.value :=
  (t.derives.append_inj other.derives hform .nil .nil (congrArg (· ++ []) h)).2.2

/-- How many operations of its loosest level a tree has one behind the other. -/
def length : {form : Form} → Tree form → Nat
  | _, operation _ _ left _ => left.length + 1
  | _, _ => 0

section

variable {level : Level} {levels : List Level}

/-- Operations of one level that begin in the same place, as many of them, end in the same place. -/
theorem append_inj_of_length_eq (hlevels : (level :: levels).Nodup) :
    ∀ {t other : Tree (.levels (level :: levels))} {rest behind : List Token},
      t.length = other.length → (Form.levels levels).Stops rest →
      (Form.levels levels).Stops behind → t.tokens ++ rest = other.tokens ++ behind →
      t.tokens = other.tokens ∧ rest = behind
  | tighter _ t, tighter _ other, rest, behind, _, hrest, hbehind, heq => by
    show t.tokens = other.tokens ∧ rest = behind
    exact append_inj heq (List.nodup_cons.1 hlevels).2 hrest hbehind
  | operation op hop left right, operation op' hop' left' right', rest, behind, hlength, hrest,
      hbehind, heq => by
    obtain ⟨hlevel, hothers⟩ := List.nodup_cons.1 hlevels
    simp only [tokens, List.append_assoc, List.cons_append] at heq ⊢
    obtain ⟨hleft, hright⟩ := append_inj_of_length_eq hlevels (Nat.succ.inj hlength)
      (.operation (Level.operation?_eq_some_iff.2 ⟨hop, rfl⟩) hlevel)
      (.operation (Level.operation?_eq_some_iff.2 ⟨hop', rfl⟩) hlevel) heq
    obtain ⟨hsymbol, hright⟩ := List.cons.inj hright
    obtain ⟨htokens, hrest⟩ := append_inj hright hothers hrest hbehind
    exact ⟨by rw [hleft, hsymbol, htokens], hrest⟩

/-- Any smaller number of operations of one level is read first, and one more goes on. -/
theorem exists_of_lt_length : ∀ {t : Tree (.levels (level :: levels))} {count : Nat},
    count < t.length → ∃ (front : Tree (.levels (level :: levels))) (op : BinaryOp)
      (rest : List Token), front.length = count ∧ op.level? = some level ∧
        t.tokens = front.tokens ++ .symbol op.symbol :: rest
  | operation op hop left right, count, h => by
    rcases Nat.lt_succ_iff_lt_or_eq.1 h with hlt | rfl
    · obtain ⟨front, op', rest, hlength, hop', htokens⟩ := exists_of_lt_length hlt
      exact ⟨front, op', rest ++ .symbol op.symbol :: right.tokens, hlength, hop', by
        simp [tokens, htokens]⟩
    · exact ⟨left, op, right.tokens, rfl, hop, rfl⟩

/-- The same tokens are as many operations of one level. -/
theorem length_eq_of_tokens_eq (hlevels : (level :: levels).Nodup)
    {t other : Tree (.levels (level :: levels))} (h : t.tokens = other.tokens) :
    t.length = other.length := by
  -- A shorter reading of the tokens would end in front of an operation, and not with them.
  have hle : ∀ {t other : Tree (.levels (level :: levels))}, t.tokens = other.tokens →
      other.length ≤ t.length := by
    intro t other h
    by_contra hlt
    obtain ⟨front, op, rest, hlength, hop, htokens⟩ := exists_of_lt_length (not_le.1 hlt)
    have hstops : (Form.levels levels).Stops (.symbol op.symbol :: rest) :=
      .operation (Level.operation?_eq_some_iff.2 ⟨hop, rfl⟩) (List.nodup_cons.1 hlevels).1
    have hends := (append_inj_of_length_eq hlevels hlength.symm .nil hstops
      (by rw [List.append_nil, h, htokens])).2
    cases hends
  exact le_antisymm (hle h.symm) (hle h)

/-- The last operation of a level, with its operands, can be told from the tokens. -/
theorem operation_inj (hlevels : (level :: levels).Nodup) {op op' : BinaryOp}
    {hop : op.level? = some level} {hop' : op'.level? = some level}
    {left left' : Tree (.levels (level :: levels))} {right right' : Tree (.levels levels)}
    (h : (operation op hop left right).tokens = (operation op' hop' left' right').tokens) :
    op = op' ∧ left.tokens = left'.tokens ∧ right.tokens = right'.tokens := by
  have hlevel := (List.nodup_cons.1 hlevels).1
  have hsymbol := Level.operation?_eq_some_iff.2 ⟨hop, rfl⟩
  have hsymbol' := Level.operation?_eq_some_iff.2 ⟨hop', rfl⟩
  obtain ⟨hleft, hright⟩ := append_inj_of_length_eq hlevels
    (Nat.succ.inj (length_eq_of_tokens_eq hlevels h)) (.operation hsymbol hlevel)
    (.operation hsymbol' hlevel) h
  obtain ⟨heq, htokens⟩ := List.cons.inj hright
  rw [Token.symbol.inj heq, hsymbol'] at hsymbol
  exact ⟨(Option.some.inj hsymbol).symm, hleft, htokens⟩

end

/-- No power is an operation in front of an operand. -/
theorem tokens_bare_ne_before (t : Tree .power) (op : UnaryOp) (operand : Tree .unary) :
    (bare t).tokens ≠ (before op operand).tokens := by
  intro h
  have hnone := t.derives.nextUnary?_power []
  rw [List.append_nil, show t.tokens = (before op operand).tokens from h] at hnone
  simp [tokens, nextUnary?] at hnone

/-- No primary expression is a power with an exponent. -/
theorem tokens_base_ne_exponent (t lower : Tree .primary) (upper : Tree .unary) :
    (base t).tokens ≠ (exponent lower upper).tokens := by
  intro h
  have hends := (append_inj ((List.append_nil t.tokens).trans h) trivial .nil (.of_symbol rfl)).2
  cases hends

/-- Expressions can be told from their tokens with commas between them. -/
theorem map_tokens_of_commaSeparated {ts us : List (Tree (.levels Level.all))}
    (h : commaSeparated (ts.map tokens) = commaSeparated (us.map tokens)) :
    ts.map tokens = us.map tokens := by
  have hne : ∀ (t : Tree (.levels Level.all)) (rest : List (Tree (.levels Level.all))),
      commaSeparated ((t :: rest).map tokens) ≠ [] := by
    intro t rest hnil
    have hoperand : Token.IsOperand (commaSeparated ((t :: rest).map tokens)) := by
      refine isOperand_commaSeparated (by simp) fun vs hvs => ?_
      obtain ⟨v, -, rfl⟩ := List.mem_map.1 hvs
      exact v.derives.isOperand
    obtain ⟨first, vs, hcons, -⟩ := hoperand.first
    rw [hnil] at hcons
    cases hcons
  -- An expression ends in front of a comma and at the end, so a comma does not stand for an end.
  have hlast : ∀ {t u : Tree (.levels Level.all)} {vs : List Token},
      t.tokens ≠ u.tokens ++ .symbol .comma :: vs := by
    intro t u vs heq
    have hends := (append_inj ((List.append_nil t.tokens).trans heq) Form.ordered_all .nil
      (.of_symbol rfl)).2
    cases hends
  induction ts generalizing us with
  | nil =>
    cases us with
    | nil => rfl
    | cons u us => exact absurd h.symm (hne u us)
  | cons t ts ih =>
    cases us with
    | nil => exact absurd h (hne t ts)
    | cons u us =>
      cases ts with
      | nil =>
        cases us with
        | nil => exact congrArg (fun vs => [vs]) h
        | cons => exact absurd h hlast
      | cons next ts =>
        cases us with
        | nil => exact absurd h.symm hlast
        | cons next' us =>
          obtain ⟨htokens, hrest⟩ := append_inj h Form.ordered_all (.of_symbol rfl) (.of_symbol rfl)
          have hothers : (next :: ts).map tokens = (next' :: us).map tokens :=
            ih (List.cons.inj hrest).2
          rw [List.map_cons, htokens, hothers, ← List.map_cons]

/-- The name and the arguments of a call can be told from its tokens. -/
theorem call_inj {path path' : Path} {count count' : Nat}
    {argument : Fin count → Tree (.levels Level.all)}
    {argument' : Fin count' → Tree (.levels Level.all)}
    (h : (call path count argument).tokens = (call path' count' argument').tokens) :
    path = path' ∧
      (List.ofFn fun i => (argument i).tokens) = List.ofFn fun i => (argument' i).tokens := by
  simp only [tokens, List.append_assoc, List.cons_append] at h
  obtain ⟨hpath, hrest⟩ := Path.append_inj (by simp) (by simp) h
  have harguments := List.append_cancel_right (List.cons.inj hrest).2
  have hmap : ∀ {n : Nat} (f : Fin n → Tree (.levels Level.all)),
      (List.ofFn fun i => (f i).tokens) = (List.ofFn f).map tokens := by
    intro n f
    rw [List.map_ofFn]
    rfl
  rw [hmap, hmap] at harguments ⊢
  exact ⟨hpath, map_tokens_of_commaSeparated harguments⟩

/-- The name and the index of an element can be told from its tokens. -/
theorem element_inj {path path' : Path} {hpath : ∀ b, path ≠ .ofBool b}
    {hpath' : ∀ b, path' ≠ .ofBool b} {index index' : Tree (.levels Level.all)}
    (h : (element path hpath index).tokens = (element path' hpath' index').tokens) :
    path = path' ∧ index.tokens = index'.tokens := by
  simp only [tokens, List.append_assoc, List.cons_append] at h
  obtain ⟨heq, hrest⟩ := Path.append_inj (by simp) (by simp) h
  exact ⟨heq, List.append_cancel_right (List.cons.inj hrest).2⟩

/-- No tokens have two trees of one form. -/
theorem eq_of_tokens_eq {form : Form} (hform : form.Ordered) {t other : Tree form}
    (h : t.tokens = other.tokens) : t = other := by
  -- What a primary expression means tells its rule, but for parentheses, which stand in front.
  induction t with
  | innermost t ih =>
    cases other with
    | innermost other => rw [ih trivial h]
  | tighter level t ih =>
    cases other with
    | tighter _ other => rw [ih (List.nodup_cons.1 hform).2 h]
    | operation => cases length_eq_of_tokens_eq hform h
  | operation op hop left right ihleft ihright =>
    cases other with
    | tighter => cases length_eq_of_tokens_eq hform h
    | operation op' hop' left' right' =>
      obtain ⟨rfl, hleft, hright⟩ := operation_inj hform h
      rw [ihleft hform hleft, ihright (List.nodup_cons.1 hform).2 hright]
  | before op operand ih =>
    cases other with
    | before op' operand' =>
      obtain ⟨hsymbol, htokens⟩ := List.cons.inj h
      rw [UnaryOp.symbol_injective (Token.symbol.inj hsymbol), ih trivial htokens]
    | bare t => exact absurd h.symm (tokens_bare_ne_before t op operand)
  | bare t ih =>
    cases other with
    | before op operand => exact absurd h (tokens_bare_ne_before t op operand)
    | bare other => rw [ih trivial h]
  | base t ih =>
    cases other with
    | base other => rw [ih trivial h]
    | exponent lower upper => exact absurd h (tokens_base_ne_exponent t lower upper)
  | exponent lower upper ihlower ihupper =>
    cases other with
    | base t => exact absurd h.symm (tokens_base_ne_exponent t lower upper)
    | exponent lower' upper' =>
      obtain ⟨hlower, hupper⟩ := append_inj h trivial (.of_symbol rfl) (.of_symbol rfl)
      rw [ihlower trivial hlower, ihupper trivial (List.cons.inj hupper).2]
  | number x =>
    have he := value_eq_of_tokens_eq h trivial
    cases other with
    | number y => rw [Expr.number.inj he]
    | parentheses => cases h
    | _ => cases he
  | string s =>
    have he := value_eq_of_tokens_eq h trivial
    cases other with
    | string t => rw [Expr.string.inj he]
    | parentheses => cases h
    | _ => cases he
  | parentheses t ih =>
    cases other with
    | parentheses other =>
      rw [ih Form.ordered_all (List.append_cancel_right (List.cons.inj h).2)]
    | _ => cases h
  | call path count argument ih =>
    have he := value_eq_of_tokens_eq h trivial
    cases other with
    | call path' count' argument' =>
      obtain ⟨rfl, hparts⟩ := call_inj h
      obtain rfl : count = count' := by simpa using congrArg List.length hparts
      have htokens := List.ofFn_injective hparts
      rw [funext fun i => ih i Form.ordered_all (congrFun htokens i)]
    | parentheses => cases h
    | _ => cases he
  | boolean b =>
    have he := value_eq_of_tokens_eq h trivial
    cases other with
    | boolean c => rw [Expr.boolean.inj he]
    | parentheses => cases h
    | _ => cases he
  | name path hpath =>
    have he := value_eq_of_tokens_eq h trivial
    cases other with
    | name path' hpath' =>
      obtain ⟨rfl, -⟩ := Path.append_inj (by simp) (by simp) (congrArg (· ++ []) h)
      rfl
    | parentheses => cases h
    | _ => cases he
  | element path hpath index ih =>
    have he := value_eq_of_tokens_eq h trivial
    cases other with
    | element path' hpath' index' =>
      obtain ⟨rfl, hindex⟩ := element_inj h
      rw [ih Form.ordered_all hindex]
    | parentheses => cases h
    | _ => cases he

end Tree

end Expr

namespace Statement

open InputDeck.Expr

/-- No tokens have two trees. -/
theorem Tree.tokens_injective : Function.Injective Tree.tokens := by
  have hne : ∀ (e left value : Expr.Tree (.levels Level.all)),
      e.tokens ≠ left.tokens ++ .symbol .assign :: value.tokens := by
    intro e left value h
    exact e.derives.assign_notMem (by simp [h])
  intro t other h
  cases t with
  | evaluate e =>
    cases other with
    | evaluate d => rw [Expr.Tree.eq_of_tokens_eq Form.ordered_all h]
    | assign left _ _ value => exact absurd h (hne e left value)
  | assign left target htarget value =>
    cases other with
    | evaluate e => exact absurd h.symm (hne e left value)
    | assign left' target' htarget' value' =>
      obtain ⟨hleft, hrest⟩ := Expr.Tree.append_inj h Form.ordered_all (.of_symbol rfl)
        (.of_symbol rfl)
      obtain rfl := Expr.Tree.eq_of_tokens_eq Form.ordered_all hleft
      obtain rfl := Expr.Tree.eq_of_tokens_eq Form.ordered_all (List.cons.inj hrest).2
      obtain rfl := Option.some.inj (htarget.symm.trans htarget')
      rfl

/-- Tokens are read as a statement exactly when they have a tree that means it, and no tokens have
two trees. -/
theorem parse_unambiguous :
    Function.Injective Tree.tokens ∧ ∀ (ts : List Token) (statement : Statement),
      parse ts = .ok statement ↔ ∃ t : Tree, t.tokens = ts ∧ t.statement = statement :=
  ⟨Tree.tokens_injective, fun _ _ => parse_eq_ok_iff⟩

end Statement

end InputDeck
