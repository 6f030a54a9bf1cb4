import InputDeck.Proofs.Expr.Adjacent

/-!
# Whatever derives is read

The parser functions look at one token at a time and never step back. Still they read the whole of
every expression that the rules derive, up to a token that does not go on with it: each level of
operations takes the symbols of its own operations and leaves those of the looser ones, and no two
levels share a symbol. The depth of calls that the parser starts with is enough for that, since a
circle of calls takes at least one token.
-/

namespace InputDeck

/-- No two levels share a symbol. -/
theorem Level.eq_of_operation? {level other : Level} {s : Symbol} {op op' : BinaryOp}
    (h : level.operation? s = some op) (hother : other.operation? s = some op') :
    level = other := by
  unfold operation? at h
  split at h
  case h_14 => cases h
  all_goals cases other <;> first | rfl | cases hother

namespace Expr

/-! ## Names -/

/-- A name is read segment by segment, up to whatever follows it. -/
theorem IsPath.exists_parsePath {ts : List Token} {path : String} (h : IsPath ts path) :
    ∃ segment us, ts = .name segment :: us ∧
      ∀ rest, parsePath segment (us ++ rest) = parsePath path rest := by
  induction h with
  | segment s => exact ⟨s, [], rfl, fun rest => rfl⟩
  | @dot ts path s _ ih =>
    obtain ⟨segment, us, rfl, hread⟩ := ih
    refine ⟨segment, us ++ [.symbol .dot, .name s], rfl, fun rest => ?_⟩
    rw [List.append_assoc, hread]
    simp [parsePath]

/-- A name ends where no dot follows. -/
theorem parsePath_of_head? {path : String} {rest : List Token}
    (h : rest.head? ≠ some (.symbol .dot)) : parsePath path rest = .ok (path, rest) := by
  unfold parsePath
  split
  · exact absurd rfl h
  · exact absurd rfl h
  · rfl

/-! ## Symbols that go on with an expression -/

namespace Form

/-- Whether a symbol behind an expression of a form goes on with it. -/
def isContinuedBy (form : Form) (s : Symbol) : Bool :=
  s == .dot || s == .leftParen || s == .leftBracket ||
    match form with
    | primary => false
    | power | unary => s == .caret
    | levels ls => s == .caret || ls.any fun level => (level.operation? s).isSome

/-- Whether the tokens behind an expression of a form leave it as it is. -/
def Stops (form : Form) (rest : List Token) : Prop :=
  ∀ s, rest.head? = some (.symbol s) → form.isContinuedBy s = false

/-- The calls between an expression of a form and the primary expression that it begins with. -/
def rank : Form → Nat
  | primary => 1
  | power => 2
  | unary => 3
  | levels ls => ls.length + 4

namespace Stops

variable {form : Form} {rest : List Token} {level : Level} {levels : List Level} {s : Symbol}

/-- A symbol stops the forms that it does not go on with. -/
theorem of_symbol (h : form.isContinuedBy s = false) : form.Stops (.symbol s :: rest) := by
  rintro _ ⟨⟩
  exact h

/-- Nothing goes on at the end of the tokens. -/
theorem nil : form.Stops [] := by
  rintro s ⟨⟩

/-- What stops some operations stops each of them. -/
theorem ofTighter (h : (Form.levels (level :: levels)).Stops rest) :
    (Form.levels levels).Stops rest := by
  intro s hs
  have := h s hs
  simp_all [isContinuedBy]

/-- What stops operations stops their operands. -/
theorem unary (h : (Form.levels levels).Stops rest) : Form.unary.Stops rest := by
  intro s hs
  have := h s hs
  simp_all [isContinuedBy]

/-- What stops a power stops its base. -/
theorem primary (h : Form.power.Stops rest) : Form.primary.Stops rest := by
  intro s hs
  have := h s hs
  simp_all [isContinuedBy]

/-- The operation of a level stops the tighter levels. -/
theorem operation {op : BinaryOp} (hop : level.operation? s = some op) (hlevel : level ∉ levels) :
    (Form.levels levels).Stops (.symbol s :: rest) := by
  refine of_symbol ?_
  have hnone : ∀ other ∈ levels, (other.operation? s).isSome = false := by
    intro other hother
    cases hop' : other.operation? s with
    | none => rfl
    | some op' => exact absurd (Level.eq_of_operation? hop hop' ▸ hother) hlevel
  have hany : levels.any (fun other => (other.operation? s).isSome) = false := by
    simpa using hnone
  simp only [isContinuedBy, hany, Bool.or_false]
  cases level <;> cases s <;> first | rfl | cases hop

/-- No operation of a level follows where the level stops. -/
theorem nextOperation? (h : (Form.levels (level :: levels)).Stops rest) :
    nextOperation? level rest = none := by
  unfold Expr.nextOperation?
  split
  · next s rest =>
    have hs := h s rfl
    simp_all [isContinuedBy]
  · rfl

end Stops

end Form

/-! ## What the parser functions read -/

/-- The parser function of a form. -/
def Form.parse (depth : Nat) : Form → List Token → Except GrammarError (Expr × List Token)
  | .levels ls => parseLevels depth ls
  | .unary => parseUnary depth
  | .power => parsePower depth
  | .primary => parsePrimary depth

/-- Whether the parser function of a form reads an expression from tokens wherever they stand. -/
def IsRead (form : Form) (ts : List Token) (e : Expr) : Prop :=
  ∀ depth rest, 12 * ts.length + form.rank ≤ depth → form.Stops rest →
    form.parse depth (ts ++ rest) = .ok (e, rest)

/-- Whether an expression is read from tokens as the beginning of a chain of operations, with at
most one call for each token. -/
def IsChained (level : Level) (levels : List Level) (ts : List Token) (e : Expr) : Prop :=
  ∀ depth rest, 12 * ts.length + (Form.levels (level :: levels)).rank ≤ depth →
    (Form.levels levels).Stops rest →
    ∃ left, depth ≤ left + 1 + ts.length ∧
      parseLevels depth (level :: levels) (ts ++ rest) = parseChain left level levels e rest

/-- A chain that nothing goes on with is read. -/
theorem IsChained.isRead {level : Level} {levels : List Level} {ts : List Token} {e : Expr}
    (h : IsChained level levels ts e) : IsRead (.levels (level :: levels)) ts e := by
  intro depth rest hdepth hstops
  obtain ⟨left, hleft, hread⟩ := h depth rest hdepth hstops.ofTighter
  obtain ⟨left, rfl⟩ : ∃ n, left = n + 1 := by
    simp only [Form.rank, List.length_cons] at hdepth
    exact ⟨left - 1, by omega⟩
  rw [Form.parse, hread, parseChain, hstops.nextOperation?]

/-- What is read of the tokens of an expression: for operations of one level the chain that they
begin, and for every other form the whole of them. -/
def Form.Completes : Form → List Token → Expr → Prop
  | .levels (level :: ls), ts, e => (level :: ls).Nodup → IsChained level ls ts e
  | form, ts, e => IsRead form ts e

/-- What is read of operations of different levels. -/
theorem Form.Completes.isRead {levels : List Level} {ts : List Token} {e : Expr}
    (h : (Form.levels levels).Completes ts e) (hlevels : levels.Nodup) :
    IsRead (.levels levels) ts e := by
  cases levels with
  | nil => exact h
  | cons level levels => exact (h hlevels).isRead

section

variable {ts us : List Token} {e left right : Expr} {level : Level} {levels : List Level}
  {s : Symbol}

/-- An operand begins a chain. -/
private theorem IsRead.isChained (h : IsRead (.levels levels) ts e) :
    IsChained level levels ts e := by
  intro depth rest hdepth hstops
  obtain ⟨depth, rfl⟩ : ∃ n, depth = n + 1 := ⟨depth - 1, by simp [Form.rank] at hdepth; omega⟩
  refine ⟨depth, by omega, ?_⟩
  have hread := h depth rest (by simp only [Form.rank, List.length_cons] at hdepth ⊢; omega) hstops
  rw [Form.parse] at hread
  rw [parseLevels, hread]
  rfl

/-- An operation and its second operand go on with a chain. -/
private theorem IsChained.operation {op : BinaryOp} (h : IsChained level levels ts left)
    (hop : level.operation? s = some op) (hlevel : level ∉ levels)
    (hright : IsRead (.levels levels) us right) :
    IsChained level levels (ts ++ .symbol s :: us) (.binary op left right) := by
  intro depth rest hdepth hstops
  simp only [Form.rank, List.length_append, List.length_cons] at hdepth
  obtain ⟨calls, hcalls, hchain⟩ := h depth (.symbol s :: us ++ rest)
    (by simp only [Form.rank, List.length_cons]; omega) (.operation hop hlevel)
  obtain ⟨calls, rfl⟩ : ∃ n, calls = n + 1 := ⟨calls - 1, by omega⟩
  refine ⟨calls, by simp only [List.length_append, List.length_cons]; omega, ?_⟩
  have hread := hright calls rest (by simp only [Form.rank]; omega) hstops
  rw [Form.parse] at hread
  have hnext : nextOperation? level (.symbol s :: us ++ rest) = some (op, us ++ rest) := by
    simp [nextOperation?, hop]
  rw [List.append_assoc, hchain, parseChain, hnext]
  simp only [hread]
  rfl

/-- A primary expression begins with no operation. -/
private theorem Derives.nextUnary?_primary (h : Derives .primary ts e) (rest : List Token) :
    nextUnary? (ts ++ rest) = none := by
  have hpath : ∀ {us : List Token} {path : String}, IsPath us path →
      ∀ rest, nextUnary? (us ++ rest) = none := by
    intro us path hpath rest
    obtain ⟨segment, vs, rfl, -⟩ := hpath.exists_parsePath
    rfl
  cases h with
  | number | string | parentheses | boolean => rfl
  | call h | name h | element h => simp [hpath h]

/-- A power begins with no operation. -/
theorem Derives.nextUnary?_power (h : Derives .power ts e) (rest : List Token) :
    nextUnary? (ts ++ rest) = none := by
  cases h with
  | base h => exact h.nextUnary?_primary rest
  | exponent h =>
    rw [List.append_assoc]
    exact h.nextUnary?_primary _

/-- An operation in front of an operand is read with it. -/
private theorem IsRead.before {op : UnaryOp} (hop : UnaryOp.ofSymbol? s = some op)
    (h : IsRead .unary ts e) : IsRead .unary (.symbol s :: ts) (.unary op e) := by
  intro depth rest hdepth hstops
  simp only [Form.rank, List.length_cons] at hdepth
  obtain ⟨depth, rfl⟩ : ∃ n, depth = n + 1 := ⟨depth - 1, by omega⟩
  have hread := h depth rest (by simp only [Form.rank]; omega) hstops
  rw [Form.parse] at hread
  have hnext : nextUnary? (.symbol s :: ts ++ rest) = some (op, ts ++ rest) := by
    simp [nextUnary?, hop]
  rw [Form.parse, parseUnary, hnext]
  simp only [hread]
  rfl

/-- A power is read where an operation could stand in front of it. -/
private theorem IsRead.bare (h : IsRead .power ts e)
    (hfirst : ∀ rest, nextUnary? (ts ++ rest) = none) : IsRead .unary ts e := by
  intro depth rest hdepth hstops
  simp only [Form.rank] at hdepth
  obtain ⟨depth, rfl⟩ : ∃ n, depth = n + 1 := ⟨depth - 1, by omega⟩
  rw [Form.parse, parseUnary, hfirst rest]
  exact h depth rest (by simp only [Form.rank]; omega) hstops

/-- A primary expression is read where an exponent could follow. -/
private theorem IsRead.base (h : IsRead .primary ts e) : IsRead .power ts e := by
  intro depth rest hdepth hstops
  simp only [Form.rank] at hdepth
  obtain ⟨depth, rfl⟩ : ∃ n, depth = n + 1 := ⟨depth - 1, by omega⟩
  have hread := h depth rest (by simp only [Form.rank]; omega) hstops.primary
  rw [Form.parse] at hread
  rw [Form.parse, parsePower, hread]
  dsimp only [bind, Except.bind]
  split
  · next heq =>
    obtain ⟨-, rfl⟩ := Prod.mk.inj heq
    cases hstops .caret rfl
  · next heq =>
    obtain ⟨rfl, rfl⟩ := Prod.mk.inj heq
    rfl

/-- A base is read with its exponent. -/
private theorem IsRead.exponent (hbase : IsRead .primary ts left)
    (hexponent : IsRead .unary us right) :
    IsRead .power (ts ++ .symbol .caret :: us) (.binary .power left right) := by
  intro depth rest hdepth hstops
  simp only [Form.rank, List.length_append, List.length_cons] at hdepth
  obtain ⟨depth, rfl⟩ : ∃ n, depth = n + 1 := ⟨depth - 1, by omega⟩
  have hleft := hbase depth (.symbol .caret :: us ++ rest) (by simp only [Form.rank]; omega)
    (.of_symbol rfl)
  have hright := hexponent depth rest (by simp only [Form.rank]; omega) hstops
  simp only [Form.parse] at hleft hright
  rw [List.append_assoc, Form.parse, parsePower, hleft]
  show (parseUnary depth (us ++ rest) >>= _) = _
  rw [hright]
  rfl

/-- An expression in parentheses is read. -/
private theorem IsRead.parentheses (h : IsRead (.levels Level.all) ts e) :
    IsRead .primary (.symbol .leftParen :: ts ++ [.symbol .rightParen]) e := by
  intro depth rest hdepth _
  simp only [Form.rank, List.length_append, List.length_cons, List.length_nil] at hdepth
  obtain ⟨depth, rfl⟩ : ∃ n, depth = n + 1 := ⟨depth - 1, by omega⟩
  have hread := h depth (.symbol .rightParen :: rest)
    (by simp only [Form.rank, Level.all, List.length_cons, List.length_nil]; omega)
    (.of_symbol rfl)
  simp only [Form.parse] at hread
  simp only [Form.parse, List.cons_append, List.append_assoc, List.nil_append, parsePrimary, hread]
  rfl

/-- The first tokens of a primary expression are read as a name. -/
private theorem IsPath.parsePrimary {path : String} (h : IsPath ts path) {depth : Nat}
    {rest : List Token} : rest.head? ≠ some (.symbol .dot) →
    parsePrimary (depth + 1) (ts ++ rest) =
      match rest with
      | .symbol .leftParen :: rest => do
        let (arguments, rest) ← parseArguments depth rest
        return (.call path arguments, rest)
      | rest =>
        if path = "true" then return (.boolean true, rest)
        else if path = "false" then return (.boolean false, rest)
        else
          match rest with
          | .symbol .leftBracket :: rest => do
            let (index, rest) ← parseLevels depth Level.all rest
            let rest ← expect .rightBracket rest
            return (.element path index, rest)
          | rest => return (.name path, rest) := by
  intro hrest
  obtain ⟨segment, us, rfl, hread⟩ := h.exists_parsePath
  rw [List.cons_append, Expr.parsePrimary, hread, parsePath_of_head? hrest]
  rfl

/-- A name that nothing goes on with stands for itself, or for a truth value. -/
private theorem IsPath.isRead {path : String} (h : IsPath ts path) :
    IsRead .primary ts (if path = "true" then .boolean true
      else if path = "false" then .boolean false else .name path) := by
  intro depth rest hdepth hstops
  simp only [Form.rank] at hdepth
  obtain ⟨depth, rfl⟩ : ∃ n, depth = n + 1 := ⟨depth - 1, by omega⟩
  rw [Form.parse, h.parsePrimary fun hdot => by cases hstops _ hdot]
  split
  · cases hstops .leftParen rfl
  · split
    · rfl
    · split
      · rfl
      · split
        · cases hstops .leftBracket rfl
        · rfl

/-- A name with an index is read as an element. -/
private theorem IsRead.element {path : String} (hpath : IsPath ts path) (htrue : path ≠ "true")
    (hfalse : path ≠ "false") (h : IsRead (.levels Level.all) us e) :
    IsRead .primary (ts ++ .symbol .leftBracket :: us ++ [.symbol .rightBracket])
      (.element path e) := by
  intro depth rest hdepth _
  simp only [Form.rank, List.length_append, List.length_cons, List.length_nil] at hdepth
  obtain ⟨depth, rfl⟩ : ∃ n, depth = n + 1 := ⟨depth - 1, by omega⟩
  have hread := h depth (.symbol .rightBracket :: rest)
    (by simp only [Form.rank, Level.all, List.length_cons, List.length_nil]; omega)
    (.of_symbol rfl)
  simp only [Form.parse] at hread
  simp only [Form.parse, List.append_assoc, List.cons_append, List.nil_append]
  rw [hpath.parsePrimary (by simp)]
  simp only [if_neg htrue, if_neg hfalse, hread]
  rfl

/-- One or more arguments are read up to the closing parenthesis. -/
private theorem parseSomeArguments_of_isRead {argument : List Token × Expr}
    {arguments : List (List Token × Expr)}
    (h : ∀ other ∈ argument :: arguments, IsRead (.levels Level.all) other.1 other.2) (depth : Nat)
    (hdepth : 12 * (commaSeparated ((argument :: arguments).map Prod.fst)).length + 10 ≤ depth)
    (rest : List Token) :
    parseSomeArguments depth (commaSeparated ((argument :: arguments).map Prod.fst) ++
        .symbol .rightParen :: rest) =
      .ok ((argument :: arguments).map Prod.snd, rest) := by
  obtain ⟨depth, rfl⟩ : ∃ n, depth = n + 1 := ⟨depth - 1, by omega⟩
  have hfirst := h argument (by simp)
  induction arguments generalizing argument depth with
  | nil =>
    have hread := hfirst depth (.symbol .rightParen :: rest)
      (by simp only [List.map_cons, List.map_nil, commaSeparated] at hdepth
          simp only [Form.rank, Level.all, List.length_cons, List.length_nil]; omega)
      (.of_symbol rfl)
    simp only [Form.parse] at hread
    simp only [List.map_cons, List.map_nil, commaSeparated, parseSomeArguments, hread]
    rfl
  | cons next arguments ih =>
    simp only [List.map_cons, commaSeparated, List.length_append, List.length_cons] at hdepth ih ⊢
    have hread := hfirst depth (.symbol .comma ::
        commaSeparated (next.1 :: arguments.map Prod.fst) ++ .symbol .rightParen :: rest)
      (by simp only [Form.rank, Level.all, List.length_cons, List.length_nil]; omega)
      (.of_symbol rfl)
    simp only [Form.parse] at hread
    obtain ⟨depth, rfl⟩ : ∃ n, depth = n + 1 := ⟨depth - 1, by omega⟩
    have hothers := ih (fun other hother => h other (List.mem_cons_of_mem _ hother)) depth
      (by omega) (h next (by simp))
    rw [List.append_assoc, parseSomeArguments, hread]
    simp only [List.cons_append]
    show (parseSomeArguments (depth + 1) _ >>= fun others =>
      .ok (argument.2 :: others.1, others.2)) = _
    rw [hothers]
    rfl

/-- The arguments of a call are read up to the closing parenthesis. -/
private theorem IsRead.call {path : String} (hpath : IsPath ts path)
    {arguments : List (List Token × Expr)}
    (h : ∀ argument ∈ arguments, IsRead (.levels Level.all) argument.1 argument.2)
    (hoperands : ∀ argument ∈ arguments, Token.IsOperand argument.1) :
    IsRead .primary
      (ts ++ .symbol .leftParen :: commaSeparated (arguments.map Prod.fst) ++
        [.symbol .rightParen])
      (.call path (arguments.map Prod.snd)) := by
  intro depth rest hdepth _
  simp only [Form.rank, List.length_append, List.length_cons, List.length_nil] at hdepth
  obtain ⟨depth, rfl⟩ : ∃ n, depth = n + 2 := ⟨depth - 2, by omega⟩
  have hread : parseArguments (depth + 1) (commaSeparated (arguments.map Prod.fst) ++
      .symbol .rightParen :: rest) = .ok (arguments.map Prod.snd, rest) := by
    cases arguments with
    | nil => rfl
    | cons argument arguments =>
      have hoperand : Token.IsOperand (commaSeparated ((argument :: arguments).map Prod.fst)) := by
        refine isOperand_commaSeparated (by simp) fun us hus => ?_
        obtain ⟨other, hother, rfl⟩ := List.mem_map.1 hus
        exact hoperands other hother
      obtain ⟨t, us, hcons, ht⟩ := hoperand.first
      have hsome := parseSomeArguments_of_isRead h depth (by omega) rest
      rw [hcons] at hsome ⊢
      rw [List.cons_append] at hsome ⊢
      rw [parseArguments]
      · exact hsome
      · rintro vs hvs
        obtain ⟨rfl, -⟩ := List.cons.inj hvs
        cases ht
  simp only [Form.parse, List.append_assoc, List.cons_append, List.nil_append]
  rw [hpath.parsePrimary (by simp)]
  simp only [hread]
  rfl

end

/-- Whatever derives is read. -/
theorem Derives.completes {form : Form} {ts : List Token} {e : Expr} (h : Derives form ts e) :
    form.Completes ts e := by
  have hall : Level.all.Nodup := by decide
  induction h with
  | innermost _ ih =>
    intro depth rest hdepth hstops
    simp only [Form.rank, List.length_nil] at hdepth
    obtain ⟨depth, rfl⟩ : ∃ n, depth = n + 1 := ⟨depth - 1, by omega⟩
    rw [Form.parse, parseLevels]
    exact ih depth rest (by simp only [Form.rank]; omega) hstops.unary
  | tighter level _ ih =>
    intro hlevels
    exact (ih.isRead (List.nodup_cons.1 hlevels).2).isChained
  | operation hop _ _ ihleft ihright =>
    intro hlevels
    obtain ⟨hlevel, hothers⟩ := List.nodup_cons.1 hlevels
    exact (ihleft hlevels).operation hop hlevel (ihright.isRead hothers)
  | before hop _ ih => exact IsRead.before hop ih
  | bare h ih => exact IsRead.bare ih h.nextUnary?_power
  | base _ ih => exact IsRead.base ih
  | exponent _ _ ihbase ihexponent => exact IsRead.exponent ihbase ihexponent
  | number | string =>
    intro depth rest hdepth _
    simp only [Form.rank] at hdepth
    obtain ⟨depth, rfl⟩ : ∃ n, depth = n + 1 := ⟨depth - 1, by omega⟩
    rfl
  | parentheses _ ih => exact (ih.isRead hall).parentheses
  | call hpath h ih =>
    exact IsRead.call hpath (fun argument hargument => (ih argument hargument).isRead hall)
      fun argument hargument => (h argument hargument).isOperand
  | boolean b =>
    have hread := (IsPath.segment (toString b)).isRead
    cases b <;> exact hread
  | name hpath htrue hfalse =>
    have hread := hpath.isRead
    rw [if_neg htrue, if_neg hfalse] at hread
    exact hread
  | element hpath htrue hfalse _ ih => exact IsRead.element hpath htrue hfalse (ih.isRead hall)

/-- An expression is read from its tokens up to whatever does not go on with it. -/
theorem Derives.parse {ts : List Token} {e : Expr} (h : Derives (.levels Level.all) ts e)
    (rest : List Token) (hstops : (Form.levels Level.all).Stops rest) :
    Expr.parse (ts ++ rest) = .ok (e, rest) := by
  refine h.completes.isRead (by decide) _ rest ?_ hstops
  simp only [Form.rank, depthBound, Level.all, List.length_append, List.length_cons,
    List.length_nil]
  omega

/-- A primary expression is one of any operations. -/
theorem Derives.ofPrimary {ts : List Token} {e : Expr} (h : Derives .primary ts e)
    (levels : List Level) : Derives (.levels levels) ts e := by
  induction levels with
  | nil => exact .innermost (.bare (.base h))
  | cons level levels ih => exact .tighter level ih

end Expr

namespace Statement

open InputDeck.Expr

/-- Behind a target and the sign there is exactly a value. -/
theorem parse_assign_eq_ok_iff {us vs : List Token} {target : Target}
    (hleft : Expr.parse (us ++ .symbol .assign :: vs) = .ok (target.toExpr, .symbol .assign :: vs))
    {statement : Statement} :
    parse (us ++ .symbol .assign :: vs) = .ok statement ↔
      ∃ value, Expr.parse vs = .ok (value, []) ∧ statement = .assign target value := by
  have htarget : target.toExpr.target? = some target := Expr.target?_eq_some_iff.2 rfl
  have hne : (us ++ .symbol .assign :: vs).isEmpty = false := by simp
  unfold parse
  simp only [hne, Bool.false_eq_true, if_false, hleft, bind, Except.bind, htarget]
  cases hright : Expr.parse vs with
  | error e => simp
  | ok parsed =>
    obtain ⟨value, rest⟩ := parsed
    cases rest with
    | nil => simp [finish, eq_comm]
    | cons t rest => simp [finish]

/-- The tokens of a target, the assignment symbol and the tokens of an expression are read as an
assignment. -/
theorem parse_assign {us vs : List Token} {target : Target} {e : Expr}
    (htarget : Derives (.levels Level.all) us target.toExpr)
    (hvalue : Derives (.levels Level.all) vs e) :
    parse (us ++ .symbol .assign :: vs) = .ok (.assign target e) := by
  have hright := hvalue.parse [] .nil
  rw [List.append_nil] at hright
  exact (parse_assign_eq_ok_iff (htarget.parse _ (.of_symbol rfl))).2 ⟨e, hright, rfl⟩

end Statement

end InputDeck
