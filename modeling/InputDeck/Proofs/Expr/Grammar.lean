import InputDeck.Expr.Parsing
import InputDeck.Proofs.Expr.Spelling

/-!
# The grammar of expressions

Which tokens an expression is made of, as rules: one for each level of operations, for operations
in front of an operand, for powers and for each kind of primary expression. Whatever a parser
function reads derives from the rules, so facts about the tokens of an expression are inductions
over its derivation.
-/

namespace InputDeck

namespace Expr

/-- The tokens of a name: segments with dots between them. -/
inductive IsPath : List Token → String → Prop
  /-- One segment is a name. -/
  | segment (s : String) : IsPath [.name s] s
  /-- A name goes on with a dot and one more segment. -/
  | dot {ts : List Token} {path : String} (s : String) (h : IsPath ts path) :
      IsPath (ts ++ [.symbol .dot, .name s]) (path ++ "." ++ s)

/-- What kind of expression some tokens are read as. -/
inductive Form where
  /-- Operations of the given levels, the loosest one first. -/
  | levels (levels : List Level)
  /-- Operations in front of an operand, or a power. -/
  | unary
  /-- A power, or a primary expression. -/
  | power
  /-- A primary expression. -/
  | primary

/-- The tokens of the arguments of a call, with commas between them. -/
def commaSeparated : List (List Token) → List Token
  | [] => []
  | [ts] => ts
  | ts :: us :: rest => ts ++ .symbol .comma :: commaSeparated (us :: rest)

/-- The tokens that make an expression of a form. -/
inductive Derives : Form → List Token → Expr → Prop
  /-- Behind the tightest level come the operations on one operand. -/
  | innermost {ts : List Token} {e : Expr} (h : Derives .unary ts e) : Derives (.levels []) ts e
  /-- An operand of a level is an expression of it. -/
  | tighter {ts : List Token} {e : Expr} {levels : List Level} (level : Level)
      (h : Derives (.levels levels) ts e) : Derives (.levels (level :: levels)) ts e
  /-- Operations of one level group to the left. -/
  | operation {ts us : List Token} {left right : Expr} {level : Level} {levels : List Level}
      {s : Symbol} {op : BinaryOp} (hop : level.operation? s = some op)
      (hleft : Derives (.levels (level :: levels)) ts left)
      (hright : Derives (.levels levels) us right) :
      Derives (.levels (level :: levels)) (ts ++ .symbol s :: us) (.binary op left right)
  /-- An operation stands in front of its operand. -/
  | before {ts : List Token} {e : Expr} {s : Symbol} {op : UnaryOp}
      (hop : UnaryOp.ofSymbol? s = some op) (h : Derives .unary ts e) :
      Derives .unary (.symbol s :: ts) (.unary op e)
  /-- A power needs no operation in front. -/
  | bare {ts : List Token} {e : Expr} (h : Derives .power ts e) : Derives .unary ts e
  /-- A primary expression needs no exponent. -/
  | base {ts : List Token} {e : Expr} (h : Derives .primary ts e) : Derives .power ts e
  /-- An exponent stands behind its base, and groups to the right. -/
  | exponent {ts us : List Token} {base exponent : Expr} (hbase : Derives .primary ts base)
      (hexponent : Derives .unary us exponent) :
      Derives .power (ts ++ .symbol .caret :: us) (.binary .power base exponent)
  /-- A number is a primary expression. -/
  | number (x : Float) : Derives .primary [.number x] (.number x)
  /-- A text is a primary expression. -/
  | string (s : String) : Derives .primary [.string s] (.string s)
  /-- So is an expression in parentheses. -/
  | parentheses {ts : List Token} {e : Expr} (h : Derives (.levels Level.all) ts e) :
      Derives .primary (.symbol .leftParen :: ts ++ [.symbol .rightParen]) e
  /-- A name in front of parentheses is called. -/
  | call {ts : List Token} {path : String} {arguments : List (List Token × Expr)}
      (hpath : IsPath ts path)
      (h : ∀ argument ∈ arguments, Derives (.levels Level.all) argument.1 argument.2) :
      Derives .primary
        (ts ++ .symbol .leftParen :: commaSeparated (arguments.map Prod.fst) ++
          [.symbol .rightParen])
        (.call path (arguments.map Prod.snd))
  /-- Two names are truth values. -/
  | boolean (b : Bool) : Derives .primary [.name (toString b)] (.boolean b)
  /-- Every other name stands for itself. -/
  | name {ts : List Token} {path : String} (hpath : IsPath ts path)
      (htrue : path ≠ "true") (hfalse : path ≠ "false") : Derives .primary ts (.name path)
  /-- A name with an index is an element. -/
  | element {ts us : List Token} {path : String} {index : Expr} (hpath : IsPath ts path)
      (htrue : path ≠ "true") (hfalse : path ≠ "false") (h : Derives (.levels Level.all) us index) :
      Derives .primary (ts ++ .symbol .leftBracket :: us ++ [.symbol .rightBracket])
        (.element path index)

/-- A needed symbol is the first token, and the others are left. -/
theorem eq_cons_of_expect {s : Symbol} {ts rest : List Token} (h : expect s ts = .ok rest) :
    ts = .symbol s :: rest := by
  unfold expect at h
  split at h
  · split at h
    · next hs =>
      obtain rfl := Except.ok.inj h
      rw [hs]
    · cases h
  · cases h

/-- The segments that go on a name make a longer one. -/
theorem isPath_of_parsePath {path whole : String} {ts rest : List Token}
    (h : parsePath path ts = .ok (whole, rest)) :
    ∃ used, ts = used ++ rest ∧ ∀ front, IsPath front path → IsPath (front ++ used) whole := by
  fun_induction parsePath path ts with
  | case1 path segment ts ih =>
    obtain ⟨used, rfl, hpath⟩ := ih h
    refine ⟨.symbol .dot :: .name segment :: used, rfl, fun front hfront => ?_⟩
    have := hpath _ (.dot segment hfront)
    rwa [List.append_assoc] at this
  | case2 => cases h
  | case3 path ts =>
    obtain ⟨rfl, rfl⟩ := Prod.mk.inj (Except.ok.inj h)
    exact ⟨[], rfl, fun front hfront => by rwa [List.append_nil]⟩

/-- A name in front of a token list is read as one. -/
private theorem isPath_of_parsePath_name {segment path : String} {ts rest : List Token}
    (h : parsePath segment ts = .ok (path, rest)) :
    ∃ used, Token.name segment :: ts = used ++ rest ∧ IsPath used path := by
  obtain ⟨used, rfl, hpath⟩ := isPath_of_parsePath h
  exact ⟨.name segment :: used, rfl, hpath _ (.segment segment)⟩

/-- A name that is one segment in whole is one segment. -/
theorem eq_singleton_of_isPath {path : String} {ts : List Token} {b : Bool}
    (h : IsPath ts path)
    (hpath : path = toString b) : ts = [.name (toString b)] := by
  cases h with
  | segment s => rw [hpath]
  | @dot ts path s h =>
    have hdot : '.' ∈ (toString b).toList := by
      rw [← hpath]
      simp
    cases b <;> simp [toString] at hdot

/-- What the parser functions read with some depth of calls derives from the rules. -/
structure SoundAt (depth : Nat) : Prop where
  /-- Expressions of given levels. -/
  levels : ∀ {levels ts e rest}, parseLevels depth levels ts = .ok (e, rest) →
    ∃ used, ts = used ++ rest ∧ Derives (.levels levels) used e
  /-- Operations that go on an expression. -/
  chain : ∀ {level levels front left ts e rest}, Derives (.levels (level :: levels)) front left →
    parseChain depth level levels left ts = .ok (e, rest) →
    ∃ used, ts = used ++ rest ∧ Derives (.levels (level :: levels)) (front ++ used) e
  /-- Operations in front of an operand. -/
  unary : ∀ {ts e rest}, parseUnary depth ts = .ok (e, rest) →
    ∃ used, ts = used ++ rest ∧ Derives .unary used e
  /-- Powers. -/
  power : ∀ {ts e rest}, parsePower depth ts = .ok (e, rest) →
    ∃ used, ts = used ++ rest ∧ Derives .power used e
  /-- Primary expressions. -/
  primary : ∀ {ts e rest}, parsePrimary depth ts = .ok (e, rest) →
    ∃ used, ts = used ++ rest ∧ Derives .primary used e
  /-- Arguments, of which there may be none. -/
  arguments : ∀ {ts es rest}, parseArguments depth ts = .ok (es, rest) →
    ∃ pairs : List (List Token × Expr), pairs.map Prod.snd = es ∧
      ts = commaSeparated (pairs.map Prod.fst) ++ .symbol .rightParen :: rest ∧
      ∀ pair ∈ pairs, Derives (.levels Level.all) pair.1 pair.2
  /-- One or more arguments. -/
  someArguments : ∀ {ts es rest}, parseSomeArguments depth ts = .ok (es, rest) →
    ∃ pairs : List (List Token × Expr), pairs ≠ [] ∧ pairs.map Prod.snd = es ∧
      ts = commaSeparated (pairs.map Prod.fst) ++ .symbol .rightParen :: rest ∧
      ∀ pair ∈ pairs, Derives (.levels Level.all) pair.1 pair.2

namespace SoundAt

variable {depth : Nat}

/-- No function reads anything without calls. -/
private theorem zero : SoundAt 0 where
  levels h := by simp [parseLevels] at h
  chain _ h := by simp [parseChain] at h
  unary h := by simp [parseUnary] at h
  power h := by simp [parsePower] at h
  primary h := by simp [parsePrimary] at h
  arguments h := by simp [parseArguments] at h
  someArguments h := by simp [parseSomeArguments] at h

private theorem levels_succ (ih : SoundAt depth) {levels : List Level} {ts rest : List Token}
    {e : Expr} (h : parseLevels (depth + 1) levels ts = .ok (e, rest)) :
    ∃ used, ts = used ++ rest ∧ Derives (.levels levels) used e := by
  cases levels with
  | nil =>
    rw [parseLevels] at h
    obtain ⟨used, hused, hderives⟩ := ih.unary h
    exact ⟨used, hused, .innermost hderives⟩
  | cons level levels =>
    rw [parseLevels] at h
    obtain ⟨⟨left, middle⟩, hleft, hchain⟩ := Except.bind_eq_ok_iff.1 h
    obtain ⟨front, rfl, hfront⟩ := ih.levels hleft
    obtain ⟨used, rfl, hderives⟩ := ih.chain (.tighter level hfront) hchain
    exact ⟨front ++ used, by simp, hderives⟩

private theorem chain_succ (ih : SoundAt depth) {level : Level} {levels : List Level}
    {front ts rest : List Token} {left e : Expr}
    (hfront : Derives (.levels (level :: levels)) front left)
    (h : parseChain (depth + 1) level levels left ts = .ok (e, rest)) :
    ∃ used, ts = used ++ rest ∧ Derives (.levels (level :: levels)) (front ++ used) e := by
  rw [parseChain] at h
  split at h
  · obtain ⟨rfl, rfl⟩ := Prod.mk.inj (Except.ok.inj h)
    exact ⟨[], rfl, by rwa [List.append_nil]⟩
  · next op after hop =>
    obtain ⟨⟨right, middle⟩, hright, hchain⟩ := Except.bind_eq_ok_iff.1 h
    unfold nextOperation? at hop
    split at hop
    · next s ts =>
      obtain ⟨op', hlevel, hafter⟩ := Option.map_eq_some_iff.1 hop
      obtain ⟨rfl, rfl⟩ := Prod.mk.inj hafter
      obtain ⟨operand, rfl, hoperand⟩ := ih.levels hright
      obtain ⟨used, rfl, hderives⟩ := ih.chain (.operation hlevel hfront hoperand) hchain
      exact ⟨.symbol s :: operand ++ used, by simp, by simpa using hderives⟩
    · cases hop

private theorem unary_succ (ih : SoundAt depth) {ts rest : List Token} {e : Expr}
    (h : parseUnary (depth + 1) ts = .ok (e, rest)) :
    ∃ used, ts = used ++ rest ∧ Derives .unary used e := by
  rw [parseUnary] at h
  split at h
  · next op after hop =>
    obtain ⟨⟨operand, middle⟩, hoperand, hresult⟩ := Except.bind_eq_ok_iff.1 h
    obtain ⟨rfl, rfl⟩ := Prod.mk.inj (Except.ok.inj hresult)
    unfold nextUnary? at hop
    split at hop
    · next s ts =>
      obtain ⟨op', hlevel, hafter⟩ := Option.map_eq_some_iff.1 hop
      obtain ⟨rfl, rfl⟩ := Prod.mk.inj hafter
      obtain ⟨used, rfl, hderives⟩ := ih.unary hoperand
      exact ⟨.symbol s :: used, rfl, .before hlevel hderives⟩
    · cases hop
  · obtain ⟨used, hused, hderives⟩ := ih.power h
    exact ⟨used, hused, .bare hderives⟩

private theorem power_succ (ih : SoundAt depth) {ts rest : List Token} {e : Expr}
    (h : parsePower (depth + 1) ts = .ok (e, rest)) :
    ∃ used, ts = used ++ rest ∧ Derives .power used e := by
  rw [parsePower] at h
  obtain ⟨⟨base, middle⟩, hbase, hrest⟩ := Except.bind_eq_ok_iff.1 h
  obtain ⟨front, rfl, hfront⟩ := ih.primary hbase
  split at hrest
  · next base' after heq =>
    obtain ⟨rfl, rfl⟩ := Prod.mk.inj heq
    obtain ⟨⟨exponent, last⟩, hexponent, hresult⟩ := Except.bind_eq_ok_iff.1 hrest
    obtain ⟨rfl, rfl⟩ := Prod.mk.inj (Except.ok.inj hresult)
    obtain ⟨used, rfl, hderives⟩ := ih.unary hexponent
    exact ⟨front ++ .symbol .caret :: used, by simp, .exponent hfront hderives⟩
  · next base' after _ heq =>
    obtain ⟨rfl, rfl⟩ := Prod.mk.inj heq
    obtain ⟨rfl, rfl⟩ := Prod.mk.inj (Except.ok.inj hrest)
    exact ⟨front, rfl, .base hfront⟩

/-- What follows a name decides what the name is part of. -/
private theorem name_succ (ih : SoundAt depth) {segment : String} {ts rest : List Token} {e : Expr}
    (h : parsePrimary (depth + 1) (.name segment :: ts) = .ok (e, rest)) :
    ∃ used, .name segment :: ts = used ++ rest ∧ Derives .primary used e := by
  rw [parsePrimary] at h
  obtain ⟨⟨path, middle⟩, hparse, hrest⟩ := Except.bind_eq_ok_iff.1 h
  obtain ⟨front, hused, hpath⟩ := isPath_of_parsePath_name hparse
  rw [hused]
  simp only at hrest
  split at hrest
  · next after =>
    obtain ⟨⟨arguments, last⟩, harguments, hresult⟩ := Except.bind_eq_ok_iff.1 hrest
    obtain ⟨rfl, rfl⟩ := Prod.mk.inj (Except.ok.inj hresult)
    obtain ⟨pairs, rfl, rfl, hpairs⟩ := ih.arguments harguments
    exact ⟨_, by simp, .call hpath hpairs⟩
  · next hcall =>
    split at hrest
    · next htrue =>
      obtain ⟨rfl, rfl⟩ := Prod.mk.inj (Except.ok.inj hrest)
      exact ⟨front, rfl, eq_singleton_of_isPath hpath (b := true) htrue ▸ .boolean true⟩
    · next htrue =>
      split at hrest
      · next hfalse =>
        obtain ⟨rfl, rfl⟩ := Prod.mk.inj (Except.ok.inj hrest)
        exact ⟨front, rfl, eq_singleton_of_isPath hpath (b := false) hfalse ▸ .boolean false⟩
      · next hfalse =>
        split at hrest
        · next after =>
          obtain ⟨⟨index, last⟩, hindex, hclose⟩ := Except.bind_eq_ok_iff.1 hrest
          obtain ⟨behind, hexpect, hresult⟩ := Except.bind_eq_ok_iff.1 hclose
          obtain ⟨rfl, rfl⟩ := Prod.mk.inj (Except.ok.inj hresult)
          obtain ⟨used, rfl, hderives⟩ := ih.levels hindex
          have hlast : last = .symbol .rightBracket :: behind := eq_cons_of_expect hexpect
          exact ⟨_, by simp [hlast], .element hpath htrue hfalse hderives⟩
        · obtain ⟨rfl, rfl⟩ := Prod.mk.inj (Except.ok.inj hrest)
          exact ⟨front, rfl, .name hpath htrue hfalse⟩

private theorem primary_succ (ih : SoundAt depth) {ts rest : List Token} {e : Expr}
    (h : parsePrimary (depth + 1) ts = .ok (e, rest)) :
    ∃ used, ts = used ++ rest ∧ Derives .primary used e := by
  match ts with
  | [] =>
    rw [parsePrimary] at h
    cases h
  | .number x :: ts =>
    rw [parsePrimary] at h
    obtain ⟨rfl, rfl⟩ := Prod.mk.inj (Except.ok.inj h)
    exact ⟨_, rfl, .number x⟩
  | .string s :: ts =>
    rw [parsePrimary] at h
    obtain ⟨rfl, rfl⟩ := Prod.mk.inj (Except.ok.inj h)
    exact ⟨_, rfl, .string s⟩
  | .symbol s :: ts =>
    by_cases hs : s = .leftParen
    · subst hs
      rw [parsePrimary] at h
      obtain ⟨⟨inner, middle⟩, hinner, hrest⟩ := Except.bind_eq_ok_iff.1 h
      obtain ⟨after, hclose, hresult⟩ := Except.bind_eq_ok_iff.1 hrest
      obtain ⟨rfl, rfl⟩ := Prod.mk.inj (Except.ok.inj hresult)
      obtain ⟨used, rfl, hderives⟩ := ih.levels hinner
      exact ⟨_, by simp [eq_cons_of_expect hclose], .parentheses hderives⟩
    · rw [parsePrimary] at h
      · cases h
      · exact hs
  | .name segment :: ts => exact ih.name_succ h

private theorem arguments_succ (ih : SoundAt depth) {ts rest : List Token} {es : List Expr}
    (h : parseArguments (depth + 1) ts = .ok (es, rest)) :
    ∃ pairs : List (List Token × Expr), pairs.map Prod.snd = es ∧
      ts = commaSeparated (pairs.map Prod.fst) ++ .symbol .rightParen :: rest ∧
      ∀ pair ∈ pairs, Derives (.levels Level.all) pair.1 pair.2 := by
  by_cases hts : ∃ us, ts = .symbol .rightParen :: us
  · obtain ⟨us, rfl⟩ := hts
    rw [parseArguments] at h
    obtain ⟨rfl, rfl⟩ := Prod.mk.inj (Except.ok.inj h)
    exact ⟨[], rfl, rfl, by simp⟩
  · rw [parseArguments] at h
    · obtain ⟨pairs, -, hpairs⟩ := ih.someArguments h
      exact ⟨pairs, hpairs⟩
    · exact fun us hus => hts ⟨us, hus⟩

private theorem someArguments_succ (ih : SoundAt depth) {ts rest : List Token} {es : List Expr}
    (h : parseSomeArguments (depth + 1) ts = .ok (es, rest)) :
    ∃ pairs : List (List Token × Expr), pairs ≠ [] ∧ pairs.map Prod.snd = es ∧
      ts = commaSeparated (pairs.map Prod.fst) ++ .symbol .rightParen :: rest ∧
      ∀ pair ∈ pairs, Derives (.levels Level.all) pair.1 pair.2 := by
  rw [parseSomeArguments] at h
  obtain ⟨⟨argument, middle⟩, hargument, hrest⟩ := Except.bind_eq_ok_iff.1 h
  obtain ⟨used, rfl, hderives⟩ := ih.levels hargument
  split at hrest
  · next first after heq =>
    obtain ⟨rfl, rfl⟩ := Prod.mk.inj heq
    obtain ⟨rfl, rfl⟩ := Prod.mk.inj (Except.ok.inj hrest)
    exact ⟨[(used, argument)], by simp, rfl, rfl, by simpa using hderives⟩
  · next first after _ heq =>
    obtain ⟨rfl, rfl⟩ := Prod.mk.inj heq
    obtain ⟨behind, hexpect, hmore⟩ := Except.bind_eq_ok_iff.1 hrest
    obtain ⟨⟨others, last⟩, hothers, hresult⟩ := Except.bind_eq_ok_iff.1 hmore
    obtain ⟨rfl, rfl⟩ := Prod.mk.inj (Except.ok.inj hresult)
    obtain ⟨pairs, hne, rfl, rfl, hpairs⟩ := ih.someArguments hothers
    refine ⟨(used, argument) :: pairs, by simp, rfl, ?_, ?_⟩
    · obtain ⟨pair, pairs, rfl⟩ := List.exists_cons_of_ne_nil hne
      simp [eq_cons_of_expect hexpect, commaSeparated]
    · intro pair hpair
      rcases List.mem_cons.1 hpair with rfl | hpair
      · exact hderives
      · exact hpairs pair hpair

/-- A deeper circle of calls reads by the rules when a less deep one does. -/
private theorem succ (ih : SoundAt depth) : SoundAt (depth + 1) where
  levels := ih.levels_succ
  chain := ih.chain_succ
  unary := ih.unary_succ
  power := ih.power_succ
  primary := ih.primary_succ
  arguments := ih.arguments_succ
  someArguments := ih.someArguments_succ

/-- With any depth of calls, the parser functions read by the rules. -/
theorem all (depth : Nat) : SoundAt depth := by
  induction depth with
  | zero => exact zero
  | succ depth ih => exact ih.succ

end SoundAt

/-- What is read as an expression derives from the rules. -/
theorem derives_of_parse {ts rest : List Token} {e : Expr} (h : parse ts = .ok (e, rest)) :
    ∃ used, ts = used ++ rest ∧ Derives (.levels Level.all) used e :=
  (SoundAt.all _).levels h

/-- A name has no symbols but dots. -/
theorem IsPath.symbol_notMem {ts : List Token} {path : String} (h : IsPath ts path) {s : Symbol}
    (hs : s ≠ .dot) : .symbol s ∉ ts := by
  induction h with
  | segment => simp
  | dot _ _ ih => simp [ih, hs]

/-- A name ends in one of its segments. -/
theorem IsPath.exists_append {ts : List Token} {path : String} (h : IsPath ts path) :
    ∃ front segment, ts = front ++ [.name segment] := by
  cases h with
  | segment => exact ⟨[], path, rfl⟩
  | @dot ts _ s _ => exact ⟨ts ++ [.symbol .dot], s, by simp⟩

/-- What stands between commas comes from the parts or is a comma. -/
theorem mem_commaSeparated {parts : List (List Token)} {t : Token} (h : t ∈ commaSeparated parts) :
    t = .symbol .comma ∨ ∃ ts ∈ parts, t ∈ ts := by
  fun_induction commaSeparated parts with
  | case1 => cases h
  | case2 ts => exact .inr ⟨ts, by simp, h⟩
  | case3 ts us rest ih =>
    obtain h | h := List.mem_append.1 h
    · exact .inr ⟨ts, by simp, h⟩
    · obtain rfl | h := List.mem_cons.1 h
      · exact .inl rfl
      · exact (ih h).imp_right fun ⟨vs, hvs, ht⟩ => ⟨vs, List.mem_cons_of_mem _ hvs, ht⟩

/-- The parts are there between the commas. -/
theorem mem_commaSeparated_of_mem {parts : List (List Token)} {ts : List Token} {t : Token}
    (hts : ts ∈ parts) (ht : t ∈ ts) : t ∈ commaSeparated parts := by
  fun_induction commaSeparated parts with
  | case1 => cases hts
  | case2 us =>
    obtain rfl := List.mem_singleton.1 hts
    exact ht
  | case3 us vs rest ih =>
    rcases List.mem_cons.1 hts with rfl | hts
    · exact List.mem_append_left _ ht
    · exact List.mem_append_right _ (List.mem_cons_of_mem _ (ih hts))

/-- A symbol of an operation in front of an operand is no assignment sign. -/
private theorem ne_assign_of_ofSymbol? {s : Symbol} {op : UnaryOp}
    (h : UnaryOp.ofSymbol? s = some op) : s ≠ .assign := by
  rintro rfl
  cases h

/-- A symbol of a level of operations is no assignment sign. -/
private theorem ne_assign_of_operation? {level : Level} {s : Symbol} {op : BinaryOp}
    (h : level.operation? s = some op) : s ≠ .assign := by
  rintro rfl
  cases level <;> cases h

namespace Derives

variable {form : Form} {ts : List Token} {e : Expr}

/-- No expression has an assignment sign. -/
theorem assign_notMem (h : Derives form ts e) : .symbol .assign ∉ ts := by
  induction h with
  | innermost _ ih => exact ih
  | tighter _ _ ih => exact ih
  | operation hop _ _ ihleft ihright =>
    simp [ihleft, ihright, (ne_assign_of_operation? hop).symm]
  | before hop _ ih => simp [ih, (ne_assign_of_ofSymbol? hop).symm]
  | bare _ ih => exact ih
  | base _ ih => exact ih
  | exponent _ _ ihbase ihexponent => simp [ihbase, ihexponent]
  | number => simp
  | string => simp
  | parentheses _ ih => simp [ih]
  | call hpath h ih =>
    have hnot : ∀ {arguments : List (List Token × Expr)},
        (∀ argument ∈ arguments, Token.symbol .assign ∉ argument.1) →
        Token.symbol .assign ∉ commaSeparated (arguments.map Prod.fst) := by
      intro arguments harguments hmem
      rcases mem_commaSeparated hmem with hcomma | ⟨us, hus, ht⟩
      · cases hcomma
      · obtain ⟨argument, hargument, rfl⟩ := List.mem_map.1 hus
        exact harguments argument hargument ht
    simp [hpath.symbol_notMem (s := .assign) (by decide), hnot ih]
  | boolean => simp
  | name hpath => exact hpath.symbol_notMem (s := .assign) (by decide)
  | element hpath _ _ _ ih => simp [hpath.symbol_notMem (s := .assign) (by decide), ih]

/-- The path of a target is a name among the tokens, and no truth value. -/
theorem isPath_of_target? (h : Derives form ts e) {target : Target}
    (he : e.target? = some target) :
    target.path ≠ "true" ∧ target.path ≠ "false" ∧
      ∃ us, IsPath us target.path ∧ ∀ t ∈ us, t ∈ ts := by
  induction h with
  | innermost _ ih => exact ih he
  | tighter _ _ ih => exact ih he
  | bare _ ih => exact ih he
  | base _ ih => exact ih he
  | parentheses _ ih =>
    obtain ⟨htrue, hfalse, us, hpath, hus⟩ := ih he
    exact ⟨htrue, hfalse, us, hpath, fun t ht => by simp [hus t ht]⟩
  | name hpath htrue hfalse =>
    obtain rfl := Option.some.inj he
    exact ⟨htrue, hfalse, _, hpath, fun _ => id⟩
  | element hpath htrue hfalse _ _ =>
    obtain rfl := Option.some.inj he
    exact ⟨htrue, hfalse, _, hpath, fun t ht => by simp [ht]⟩
  | _ => cases he

end Derives

end Expr

end InputDeck
