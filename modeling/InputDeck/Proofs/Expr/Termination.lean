import InputDeck.Proofs.Expr.Completeness
import InputDeck.Proofs.Expr.TokenReader

/-!
# The parser comes to an end

Read by position, every function of the grammar ends at a position that is no lower than the one it
starts at and no higher than the number of tokens, whether it succeeds or fails, and every success
of an expression or of the arguments of a call takes a token. A bound on the depth of its calls is
twelve for each token that is left and a rank for the function: between two calls that start at the
same position the rank falls, and the largest rank is below twelve. Where the reader by position
ends, the parser has the same answer.
-/

namespace InputDeck

namespace Expr

variable {α β : Type} {tokens : List Token} {pos next low low' bound bound' : Nat}

/-- A family of readers, one for each depth of calls, ends from a position: from a bound on they
have one result and one position, no lower than the start and within the tokens, and not below
`low` on success. The parser for the tokens that are left gives that result too, with the tokens
behind that position. -/
def Ends (tokens : List Token) (pos low bound : Nat) (reader : Nat → TokenReader α)
    (parser : Nat → List Token → Except GrammarError (α × List Token)) : Prop :=
  ∃ result after, pos ≤ after ∧ after ≤ tokens.length ∧ (∀ a, result = .ok a → low ≤ after) ∧
    ∀ depth, bound ≤ depth →
      (reader depth).readAt pos = some (result, after) ∧
        parser depth (tokens.drop pos) = result.map fun a => (a, tokens.drop after)

open TokenReader

/-! ## What is left at a position -/

/-- A token at a position is the first of those that are left. -/
theorem drop_of_getElem? {t : Token} (h : tokens[pos]? = some t) :
    tokens.drop pos = t :: tokens.drop (pos + 1) := by
  rw [List.drop_eq_getElem?_toList_append, h]
  rfl

/-- A symbol at a position is the token there. -/
theorem symbolAt_eq_some_iff {s : Symbol} :
    symbolAt tokens pos = some s ↔ tokens[pos]? = some (.symbol s) := by
  unfold symbolAt
  cases tokens[pos]? with
  | none => simp
  | some t => cases t <;> simp [Token.symbol?]

/-- A position with a symbol that is looked for is one of a token. -/
theorem lt_length_of_symbolAt {f : Symbol → Option α} {a : α}
    (h : (symbolAt tokens pos).bind f = some a) : pos < tokens.length := by
  obtain ⟨s, hs, -⟩ := Option.bind_eq_some_iff.1 h
  exact (List.getElem?_eq_some_iff.1 (symbolAt_eq_some_iff.1 hs)).1

/-- A symbol that is not at the front of a token list is missing. -/
theorem expect_of_head? {s : Symbol} {ts : List Token} (h : ts.head? ≠ some (.symbol s)) :
    Expr.expect s ts = .error (.missing s ts.head?) := by
  unfold Expr.expect
  split
  · exact if_neg fun heq => h (by rw [heq]; rfl)
  · rfl

/-- The operation of a level at the front of what is left is that of the symbol there. -/
theorem nextOperation?_drop (level : Level) :
    nextOperation? level (tokens.drop pos) =
      ((symbolAt tokens pos).bind level.operation?).map (·, tokens.drop (pos + 1)) := by
  unfold symbolAt
  cases h : tokens[pos]? with
  | none => rw [List.drop_eq_nil_of_le (List.getElem?_eq_none_iff.1 h)]; rfl
  | some t => rw [drop_of_getElem? h]; cases t <;> rfl

/-- The operation on one operand at the front of what is left is that of the symbol there. -/
theorem nextUnary?_drop :
    nextUnary? (tokens.drop pos) =
      ((symbolAt tokens pos).bind UnaryOp.ofSymbol?).map (·, tokens.drop (pos + 1)) := by
  unfold symbolAt
  cases h : tokens[pos]? with
  | none => rw [List.drop_eq_nil_of_le (List.getElem?_eq_none_iff.1 h)]; rfl
  | some t => rw [drop_of_getElem? h]; cases t <;> rfl

namespace Ends

variable {reader reader' : Nat → TokenReader α}
  {parser parser' : Nat → List Token → Except GrammarError (α × List Token)}

/-- Less may be promised of the position on success, and more depth allowed. -/
theorem mono (h : Ends tokens pos low bound reader parser) (hlow : low' ≤ low)
    (hbound : bound ≤ bound') : Ends tokens pos low' bound' reader parser := by
  obtain ⟨result, after, hle, hlength, hok, hends⟩ := h
  exact ⟨result, after, hle, hlength, fun a ha => hlow.trans (hok a ha),
    fun depth hdepth => hends depth (hbound.trans hdepth)⟩

/-- One call takes one from the depth. -/
theorem succ (h : Ends tokens pos low bound (fun depth => reader (depth + 1))
    fun depth => parser (depth + 1)) : Ends tokens pos low (bound + 1) reader parser := by
  obtain ⟨result, after, hle, hlength, hok, hends⟩ := h
  refine ⟨result, after, hle, hlength, hok, fun depth hdepth => ?_⟩
  obtain ⟨depth, rfl⟩ : ∃ n, depth = n + 1 := ⟨depth - 1, by omega⟩
  exact hends depth (by omega)

/-- What reads on as another family does at a later position ends with it. -/
theorem of_eq (h : Ends tokens next low bound reader' parser') (hle : pos ≤ next)
    (hreader : ∀ depth, (reader depth).readAt pos = (reader' depth).readAt next)
    (hparser : ∀ depth, parser depth (tokens.drop pos) = parser' depth (tokens.drop next)) :
    Ends tokens pos low bound reader parser := by
  obtain ⟨result, after, hle', hlength, hok, hends⟩ := h
  refine ⟨result, after, hle.trans hle', hlength, hok, fun depth hdepth => ?_⟩
  rw [hreader, hparser]
  exact hends depth hdepth

/-- What is answered at once ends where it starts. -/
theorem ok {a : α} (hlength : pos ≤ tokens.length) (hlow : low ≤ pos)
    (hreader : ∀ depth, (reader depth).readAt pos = some (.ok a, pos))
    (hparser : ∀ depth, parser depth (tokens.drop pos) = .ok (a, tokens.drop pos)) :
    Ends tokens pos low bound reader parser :=
  ⟨.ok a, pos, le_rfl, hlength, fun _ _ => hlow, fun depth _ => ⟨hreader depth, hparser depth⟩⟩

/-- A failure ends at the position that it is found at. -/
theorem error {e : GrammarError} (hle : pos ≤ next) (hlength : next ≤ tokens.length)
    (hreader : ∀ depth, (reader depth).readAt pos = some (.error e, next))
    (hparser : ∀ depth, parser depth (tokens.drop pos) = .error e) :
    Ends tokens pos low bound reader parser :=
  ⟨.error e, next, hle, hlength, nofun, fun depth _ => ⟨hreader depth, hparser depth⟩⟩

/-- The parser may be given one call more. -/
theorem deeper (h : Ends tokens pos low bound reader parser) :
    Ends tokens pos low bound reader fun depth => parser (depth + 1) := by
  obtain ⟨result, after, hle, hlength, hok, hends⟩ := h
  exact ⟨result, after, hle, hlength, hok, fun depth hdepth =>
    ⟨(hends depth hdepth).1, (hends (depth + 1) (by omega)).2⟩⟩

/-- A sequence ends when its first part does and what follows a success ends from there. -/
theorem bind (h : Ends tokens pos low bound reader parser) {f : Nat → α → TokenReader β}
    {g : Nat → α × List Token → Except GrammarError (β × List Token)}
    (hf : ∀ a after, low ≤ after → pos ≤ after → after ≤ tokens.length →
      Ends tokens after low' bound (fun depth => f depth a) fun depth rest => g depth (a, rest)) :
    Ends tokens pos low' bound (fun depth => reader depth >>= f depth)
      fun depth ts => parser depth ts >>= g depth := by
  obtain ⟨result, after, hle, hlength, hok, hends⟩ := h
  cases result with
  | error e =>
    refine ⟨.error e, after, hle, hlength, nofun, fun depth hdepth => ?_⟩
    obtain ⟨hreader, hparser⟩ := hends depth hdepth
    simp only [bind_readAt, hreader, hparser]
    exact ⟨rfl, rfl⟩
  | ok a =>
    obtain ⟨result, last, hle', hlength', hok', hends'⟩ := hf a after (hok a rfl) hle hlength
    refine ⟨result, last, hle.trans hle', hlength', hok', fun depth hdepth => ?_⟩
    obtain ⟨hreader, hparser⟩ := hends depth hdepth
    simp only [bind_readAt, hreader, hparser]
    exact hends' depth hdepth

/-- What is made of a result ends with it. -/
theorem map (h : Ends tokens pos low bound reader parser) (f : α → β) :
    Ends tokens pos low bound (fun depth => reader depth >>= fun a => pure (f a))
      fun depth ts => parser depth ts >>= fun p => pure (f p.1, p.2) :=
  h.bind fun _ _ hlow _ hlength => .ok hlength hlow (fun _ => rfl) fun _ => rfl

/-! ### Single tokens -/

/-- A reader that takes the next token ends when it does with every token and at the end. -/
theorem advance {f : Nat → Option Token → TokenReader α}
    (hend : Ends tokens pos low bound (fun depth => f depth none) fun depth _ => parser depth [])
    (hnext : ∀ t, pos < tokens.length → Ends tokens (pos + 1) low bound
      (fun depth => f depth (some t)) fun depth rest => parser depth (t :: rest)) :
    Ends tokens pos low bound (fun depth => TokenReader.advance tokens >>= f depth) parser := by
  cases h : tokens[pos]? with
  | none =>
    refine of_eq hend le_rfl (fun depth => by rw [advance_readAt, h]) fun depth => ?_
    rw [List.drop_eq_nil_of_le (List.getElem?_eq_none_iff.1 h)]
  | some t =>
    refine of_eq (hnext t (List.getElem?_eq_some_iff.1 h).1) (Nat.le_succ pos)
      (fun depth => by rw [advance_readAt, h]) fun depth => ?_
    rw [drop_of_getElem? h]

/-- A reader that may take a symbol ends when it does behind the symbol and without it. -/
theorem eat {f : Nat → Bool → TokenReader α} (s : Symbol)
    (htaken : pos < tokens.length → Ends tokens (pos + 1) low bound
      (fun depth => f depth true) fun depth rest => parser depth (.symbol s :: rest))
    (hleft : (∀ rest, tokens.drop pos ≠ .symbol s :: rest) →
      Ends tokens pos low bound (fun depth => f depth false) parser) :
    Ends tokens pos low bound (fun depth => TokenReader.eat tokens s >>= f depth) parser := by
  by_cases h : symbolAt tokens pos = some s
  · have hget := symbolAt_eq_some_iff.1 h
    refine of_eq (htaken (List.getElem?_eq_some_iff.1 hget).1) (Nat.le_succ pos)
      (fun depth => by rw [eat_readAt, if_pos h]) fun depth => ?_
    rw [drop_of_getElem? hget]
  · refine of_eq (hleft fun rest hrest => h ?_) le_rfl
      (fun depth => by rw [eat_readAt, if_neg h]) fun depth => rfl
    rw [symbolAt_eq_some_iff, ← List.head?_drop, hrest, List.head?_cons]

/-- A reader that needs a symbol ends when it does behind the symbol. -/
theorem expect {f : Nat → Unit → TokenReader α} (s : Symbol) (hlength : pos ≤ tokens.length)
    (htaken : pos < tokens.length →
      Ends tokens (pos + 1) low bound (fun depth => f depth ()) parser) :
    Ends tokens pos low bound (fun depth => TokenReader.expect tokens s >>= f depth)
      fun depth ts => Expr.expect s ts >>= parser depth := by
  by_cases h : symbolAt tokens pos = some s
  · have hget := symbolAt_eq_some_iff.1 h
    refine of_eq (htaken (List.getElem?_eq_some_iff.1 hget).1) (Nat.le_succ pos)
      (fun depth => by rw [expect_readAt, if_pos h]) fun depth => ?_
    rw [drop_of_getElem? hget, Expr.expect, if_pos rfl]
    rfl
  · refine error (e := .missing s tokens[pos]?) le_rfl hlength
      (fun depth => by rw [expect_readAt, if_neg h]) fun depth => ?_
    rw [symbolAt_eq_some_iff, ← List.head?_drop] at h
    simp only [expect_of_head? h, List.head?_drop]
    rfl

end Ends

/-! ## The functions of the grammar -/

/-- The reader of a form. -/
def Form.reader (tokens : List Token) (depth : Nat) : Form → TokenReader Expr
  | .levels ls => TokenReader.levels tokens depth ls
  | .unary => TokenReader.unary tokens depth
  | .power => TokenReader.power tokens depth
  | .primary => TokenReader.primary tokens depth

/-- The segments of a name end at the first token that does not go on with it. -/
theorem path_ends (front : String) (hpos : pos ≤ tokens.length) :
    Ends tokens pos pos (12 * (tokens.length - pos) + 1)
      (fun depth => TokenReader.path tokens depth front) fun _ => parsePath front := by
  induction h : tokens.length - pos using Nat.strong_induction_on generalizing pos front with
  | _ n ih =>
    refine .succ ?_
    simp only [TokenReader.path]
    refine .eat .dot (fun hdot => ?_) fun hdot => ?_
    · refine .advance (.error le_rfl hdot (fun _ => rfl) fun _ => rfl) fun t ht => ?_
      cases t with
      | name segment =>
        exact (ih (tokens.length - (pos + 2)) (by omega) (front ++ "." ++ segment) ht rfl).mono
          (by omega) (by omega)
      | number | string | symbol => exact .error le_rfl ht (fun _ => rfl) fun _ => rfl
    · refine .ok hpos le_rfl (fun _ => rfl) fun _ => ?_
      refine parsePath_of_head? fun hhead => ?_
      obtain ⟨rest, hrest⟩ := List.head?_eq_some_iff.1 hhead
      exact hdot rest hrest

/-- How the functions that call each other end from a position. -/
structure EndsAt (tokens : List Token) (pos : Nat) : Prop where
  /-- An expression of any form takes a token when it succeeds. -/
  form (form : Form) : Ends tokens pos (pos + 1) (12 * (tokens.length - pos) + form.rank)
    (fun depth => form.reader tokens depth) fun depth => form.parse depth
  /-- There may be no operation to take. -/
  chain (level : Level) (tighter : List Level) (left : Expr) :
    Ends tokens pos pos (12 * (tokens.length - pos) + tighter.length + 1)
      (fun depth => TokenReader.chain tokens depth level tighter left)
      fun depth => parseChain depth level tighter left
  /-- The first segment of a name is taken already, so there may be nothing left to take. -/
  name (first : String) : Ends tokens pos pos (12 * (tokens.length - pos) + 2)
    (fun depth => TokenReader.name tokens depth first)
    fun depth rest => parsePrimary depth (.name first :: rest)
  /-- Arguments take at least the closing parenthesis. -/
  arguments : Ends tokens pos (pos + 1) (12 * (tokens.length - pos) + 11)
    (TokenReader.arguments tokens) parseArguments
  /-- One or more arguments take at least a token of the first. -/
  someArguments : Ends tokens pos (pos + 1) (12 * (tokens.length - pos) + 10)
    (TokenReader.someArguments tokens) parseSomeArguments

/-- The functions end from every later position. -/
def EndsBehind (tokens : List Token) (pos : Nat) : Prop :=
  ∀ next, pos < next → next ≤ tokens.length → EndsAt tokens next

namespace EndsBehind

/-- The token in front of a whole expression pays for all levels of it. -/
theorem whole (h : EndsBehind tokens pos) (hlt : pos < next) (hnext : next ≤ tokens.length) :
    Ends tokens next (next + 1) (12 * (tokens.length - pos))
      (fun depth => TokenReader.levels tokens depth Level.all)
      fun depth => parseLevels depth Level.all := by
  refine ((h next hlt hnext).form (.levels Level.all)).mono le_rfl ?_
  have hrank : (Form.levels Level.all).rank = 9 := rfl
  omega

section

variable (h : EndsBehind tokens pos) (hpos : pos ≤ tokens.length)

include h hpos

/-- What goes on with a name ends. -/
theorem name (first : String) : Ends tokens pos pos (12 * (tokens.length - pos) + 2)
    (fun depth => TokenReader.name tokens depth first)
    fun depth rest => parsePrimary depth (.name first :: rest) := by
  refine .succ ?_
  simp only [TokenReader.name, parsePrimary]
  refine (path_ends first hpos).bind fun path after _ hle hlength => ?_
  refine .eat .leftParen (fun hparen => ?_) fun hparen => ?_
  · exact ((h (after + 1) (by omega) hparen).arguments.mono (by omega) (by omega)).map _
  by_cases htrue : path = "true"
  · refine .ok (a := .boolean true) hlength hle (fun _ => by rw [if_pos htrue]; rfl) fun _ => ?_
    split
    · next heq => exact absurd heq (hparen _)
    · exact if_pos htrue
  by_cases hfalse : path = "false"
  · refine .ok (a := .boolean false) hlength hle
      (fun _ => by rw [if_neg htrue, if_pos hfalse]; rfl) fun _ => ?_
    split
    · next heq => exact absurd heq (hparen _)
    · exact (if_neg htrue).trans (if_pos hfalse)
  simp only [if_neg htrue, if_neg hfalse]
  refine .eat .leftBracket (fun hbracket => ?_) fun hbracket => ?_
  · refine ((h.whole (by omega) hbracket).mono le_rfl (by omega)).bind
      fun index last _ hle hlength => ?_
    exact .expect .rightBracket hlength fun hlast =>
      .ok (a := .element path index) hlast (by omega) (fun _ => rfl) fun _ => rfl
  · refine .ok (a := .name path) hlength hle (fun _ => rfl) fun _ => ?_
    split
    · next heq => exact absurd heq (hparen _)
    · split
      · next heq => exact absurd heq (hbracket _)
      · rfl

/-- A primary expression ends behind its first token. -/
theorem primary : Ends tokens pos (pos + 1) (12 * (tokens.length - pos) + 1)
    (TokenReader.primary tokens) parsePrimary := by
  refine .succ ?_
  simp only [TokenReader.primary]
  refine .advance (.error le_rfl hpos (fun _ => rfl) fun _ => rfl) fun t ht => ?_
  cases t with
  | number | string => exact .ok ht le_rfl (fun _ => rfl) fun _ => rfl
  | name first =>
    exact ((h (pos + 1) (by omega) ht).name first).deeper.mono le_rfl (by omega)
  | symbol s =>
    cases s with
    | leftParen =>
      refine (h.whole (Nat.lt_succ_self pos) ht).bind fun inner last _ hle hlength => ?_
      exact .expect .rightParen hlength fun hlast =>
        .ok (a := inner) hlast (by omega) (fun _ => rfl) fun _ => rfl
    | _ => exact .error le_rfl ht (fun _ => rfl) fun _ => rfl

/-- A power ends with its base or with the exponent behind it. -/
theorem power : Ends tokens pos (pos + 1) (12 * (tokens.length - pos) + 2)
    (TokenReader.power tokens) parsePower := by
  refine .succ ?_
  simp only [TokenReader.power, parsePower]
  refine (h.primary hpos).bind fun base after hlow hle hlength => ?_
  refine .eat .caret (fun hcaret => ?_) fun hcaret => ?_
  · exact (((h (after + 1) (by omega) hcaret).form .unary).mono (by omega)
      (by simp only [Form.rank]; omega)).map _
  · refine .ok (a := base) hlength hlow (fun _ => rfl) fun _ => ?_
    split
    · next heq => exact absurd (Prod.mk.inj heq).2 (hcaret _)
    · next heq => rw [← heq]; rfl

/-- An operand ends, with the operations in front of it. -/
theorem unary : Ends tokens pos (pos + 1) (12 * (tokens.length - pos) + 3)
    (TokenReader.unary tokens) parseUnary := by
  refine .succ ?_
  simp only [TokenReader.unary, parseUnary]
  cases hop : (symbolAt tokens pos).bind UnaryOp.ofSymbol? with
  | none =>
    refine (h.power hpos).of_eq le_rfl (fun depth => ?_) fun depth => ?_
    · rw [peekSymbol_readAt, hop]
    · rw [nextUnary?_drop, hop]
      rfl
  | some op =>
    have hlt := lt_length_of_symbolAt hop
    have hoperand := ((h (pos + 1) (by omega) hlt).form .unary).map (Expr.unary op)
    refine (hoperand.of_eq (Nat.le_succ pos) (fun depth => ?_) fun depth => ?_).mono (by omega)
      (by simp only [Form.rank]; omega)
    · rw [peekSymbol_readAt, hop]
      rfl
    · rw [nextUnary?_drop, hop]
      rfl

/-- A chain of operations ends: each round takes its symbol. -/
theorem chain (level : Level) (tighter : List Level) (left : Expr) :
    Ends tokens pos pos (12 * (tokens.length - pos) + tighter.length + 1)
      (fun depth => TokenReader.chain tokens depth level tighter left)
      fun depth => parseChain depth level tighter left := by
  refine .succ ?_
  simp only [TokenReader.chain, parseChain]
  cases hop : (symbolAt tokens pos).bind level.operation? with
  | none =>
    refine .ok (a := left) hpos le_rfl (fun _ => ?_) fun _ => ?_
    · rw [peekSymbol_readAt, hop]
      rfl
    · rw [nextOperation?_drop, hop]
      rfl
  | some op =>
    have hlt := lt_length_of_symbolAt hop
    have hbehind : Ends tokens (pos + 1) pos (12 * (tokens.length - pos) + tighter.length)
        (fun depth => do
          let right ← TokenReader.levels tokens depth tighter
          TokenReader.chain tokens depth level tighter (.binary op left right))
        (fun depth ts => do
          let right ← parseLevels depth tighter ts
          parseChain depth level tighter (.binary op left right.1) right.2) := by
      refine .bind (((h (pos + 1) (by omega) hlt).form (.levels tighter)).mono le_rfl
        (by simp only [Form.rank]; omega)) fun right after _ hle hlength => ?_
      exact ((h after (by omega) hlength).chain level tighter _).mono (by omega) (by omega)
    refine hbehind.of_eq (Nat.le_succ pos) (fun depth => ?_) fun depth => ?_
    · rw [peekSymbol_readAt, hop]
      rfl
    · rw [nextOperation?_drop, hop]
      rfl

/-- Expressions of any levels end. Here no token pays for a call, but the levels become fewer. -/
theorem levels (ls : List Level) : Ends tokens pos (pos + 1)
    (12 * (tokens.length - pos) + (Form.levels ls).rank)
    (fun depth => TokenReader.levels tokens depth ls) fun depth => parseLevels depth ls := by
  induction ls with
  | nil =>
    refine .succ ?_
    simp only [TokenReader.levels, parseLevels]
    exact h.unary hpos
  | cons level tighter ih =>
    have hrank : (Form.levels (level :: tighter)).rank = (Form.levels tighter).rank + 1 := rfl
    rw [hrank, ← Nat.add_assoc]
    refine .succ ?_
    simp only [TokenReader.levels, parseLevels]
    refine ih.bind fun left after hlow hle hlength => ?_
    exact ((h after (by omega) hlength).chain level tighter left).mono hlow
      (by simp only [Form.rank]; omega)

/-- One or more arguments end. -/
theorem someArguments : Ends tokens pos (pos + 1) (12 * (tokens.length - pos) + 10)
    (TokenReader.someArguments tokens) parseSomeArguments := by
  refine .succ ?_
  simp only [TokenReader.someArguments, parseSomeArguments]
  refine (h.levels hpos Level.all).bind fun argument after hlow hle hlength => ?_
  refine .eat .rightParen (fun hparen => ?_) fun hparen => ?_
  · exact .ok hparen (by omega) (fun _ => rfl) fun _ => rfl
  · have hcomma : Ends tokens after (pos + 1) (12 * (tokens.length - pos) + 9)
        (fun depth => do
          TokenReader.expect tokens .comma
          let arguments ← TokenReader.someArguments tokens depth
          return argument :: arguments)
        (fun depth ts => do
          let rest ← expect .comma ts
          let arguments ← parseSomeArguments depth rest
          return (argument :: arguments.1, arguments.2)) := by
      refine .expect .comma hlength fun hlast => ?_
      exact ((h (after + 1) (by omega) hlast).someArguments.mono (by omega) (by omega)).map _
    refine hcomma.of_eq le_rfl (fun _ => rfl) fun _ => ?_
    split
    · next heq => exact absurd (Prod.mk.inj heq).2 (hparen _)
    · next heq =>
      obtain ⟨rfl, rfl⟩ := Prod.mk.inj heq
      rfl

/-- The arguments of a call end. -/
theorem arguments : Ends tokens pos (pos + 1) (12 * (tokens.length - pos) + 11)
    (TokenReader.arguments tokens) parseArguments := by
  refine .succ ?_
  simp only [TokenReader.arguments]
  refine .eat .rightParen (fun hparen => ?_) fun hparen => ?_
  · exact .ok hparen le_rfl (fun _ => rfl) fun _ => rfl
  · refine (h.someArguments hpos).of_eq le_rfl (fun _ => rfl) fun depth => ?_
    rw [parseArguments]
    exact hparen

end

end EndsBehind

/-- Every function ends from every position. A call from the position itself falls in rank, and any
other is from a later position, on which the induction is. -/
theorem endsAt (hpos : pos ≤ tokens.length) : EndsAt tokens pos := by
  induction hleft : tokens.length - pos using Nat.strong_induction_on generalizing pos with
  | _ left ih =>
    have h : EndsBehind tokens pos := fun next hlt hnext =>
      ih (tokens.length - next) (by omega) hnext rfl
    refine ⟨fun form => ?_, h.chain hpos, h.name hpos, h.arguments hpos, h.someArguments hpos⟩
    cases form with
    | levels ls => exact h.levels hpos ls
    | unary => exact h.unary hpos
    | power => exact h.power hpos
    | primary => exact h.primary hpos

/-! ## Expressions and statements -/

/-- The depth that the parser of expressions starts with is enough for the tokens that are left. -/
theorem exists_levels_readAt (hpos : pos ≤ tokens.length) :
    ∃ result after, pos ≤ after ∧ after ≤ tokens.length ∧
      parse (tokens.drop pos) = result.map (fun e => (e, tokens.drop after)) ∧
      ∀ depth, 12 * (tokens.length - pos) + 9 ≤ depth →
        (TokenReader.levels tokens depth Level.all).readAt pos = some (result, after) := by
  obtain ⟨result, after, hle, hlength, -, hends⟩ := (endsAt hpos).form (.levels Level.all)
  refine ⟨result, after, hle, hlength, ?_, fun depth hdepth => (hends depth hdepth).1⟩
  refine (hends (depthBound (tokens.drop pos).length) ?_).2
  simp only [depthBound, List.length_drop, Form.rank, Level.all, List.length_cons, List.length_nil]
  omega

/-- A statement ends with the tokens. -/
theorem finish_readAt (statement : Statement) :
    (TokenReader.finish tokens statement).readAt pos =
      some (Statement.finish statement (tokens.drop pos), pos) := by
  unfold TokenReader.finish
  rw [peek_readAt]
  cases h : tokens[pos]? with
  | none => rw [List.drop_eq_nil_of_le (List.getElem?_eq_none_iff.1 h)]; rfl
  | some t => rw [drop_of_getElem? h]; rfl

/-- The value of an assignment ends the statement. -/
theorem exists_value_readAt (target : Target) (hpos : pos ≤ tokens.length) :
    ∃ after, after ≤ tokens.length ∧ ∀ depth, 12 * (tokens.length - pos) + 9 ≤ depth →
      readAt (do
          let value ← TokenReader.levels tokens depth Level.all
          TokenReader.finish tokens (.assign target value)) pos =
        some (do
          let value ← parse (tokens.drop pos)
          Statement.finish (.assign target value.1) value.2, after) := by
  obtain ⟨result, after, -, hlength, hparse, hends⟩ := exists_levels_readAt hpos
  refine ⟨after, hlength, fun depth hdepth => ?_⟩
  rw [hparse]
  cases result with
  | error e => exact bind_readAt_of_error (hends depth hdepth) _
  | ok value =>
    rw [bind_readAt_of_ok (hends depth hdepth), finish_readAt]
    rfl

/-- Statements end within the tokens, with the answer of the parser. -/
theorem exists_statement_readAt (tokens : List Token) :
    ∃ after, after ≤ tokens.length ∧ ∀ depth, 12 * tokens.length + 9 ≤ depth →
      (TokenReader.statement tokens depth).readAt 0 = some (Statement.parse tokens, after) := by
  by_cases hempty : tokens.isEmpty = true
  · refine ⟨0, Nat.zero_le _, fun depth _ => ?_⟩
    simp only [TokenReader.statement, Statement.parse, if_pos hempty]
    rfl
  simp only [TokenReader.statement, Statement.parse, if_neg hempty]
  obtain ⟨result, after, -, hlength, hparse, hends⟩ :=
    exists_levels_readAt (Nat.zero_le tokens.length)
  rw [List.drop_zero] at hparse
  cases result with
  | error e =>
    rw [hparse]
    exact ⟨after, hlength, fun depth hdepth => bind_readAt_of_error (hends depth hdepth) _⟩
  | ok e =>
    replace hparse : parse tokens = pure (e, tokens.drop after) := hparse
    simp only [hparse, pure_bind]
    by_cases hassign : symbolAt tokens after = some .assign
    · have hget := symbolAt_eq_some_iff.1 hassign
      have hlt := (List.getElem?_eq_some_iff.1 hget).1
      rw [drop_of_getElem? hget]
      cases htarget : e.target? with
      | none =>
        refine ⟨after + 1, hlt, fun depth hdepth => ?_⟩
        rw [bind_readAt_of_ok (hends depth hdepth), eat_readAt, if_pos hassign, if_pos rfl]
        simp only [htarget]
        rfl
      | some target =>
        obtain ⟨last, hlast, hvalue⟩ := exists_value_readAt target hlt
        refine ⟨last, hlast, fun depth hdepth => ?_⟩
        rw [bind_readAt_of_ok (hends depth hdepth), eat_readAt, if_pos hassign, if_pos rfl]
        simp only [htarget]
        exact hvalue depth (by omega)
    · refine ⟨after, hlength, fun depth hdepth => ?_⟩
      rw [bind_readAt_of_ok (hends depth hdepth), eat_readAt, if_neg hassign,
        if_neg Bool.false_ne_true, finish_readAt]
      split
      · next heq =>
        refine absurd (symbolAt_eq_some_iff.2 ?_) hassign
        rw [← List.head?_drop, (Prod.mk.inj heq).2, List.head?_cons]
      · next heq =>
        obtain ⟨rfl, rfl⟩ := Prod.mk.inj heq
        rfl

/-- From every position every function of the grammar ends within the tokens and no lower than it
starts, whether it succeeds or fails; a success of an expression or of arguments takes a token; and
the depth of calls is bounded by the tokens that are left and the rank of the function. So a
statement ends on every list of tokens, with the answer of the parser. -/
theorem grammar_ends (tokens : List Token) :
    (∀ pos, pos ≤ tokens.length →
      (∀ form : Form, Ends tokens pos (pos + 1) (12 * (tokens.length - pos) + form.rank)
        (fun depth => form.reader tokens depth) fun depth => form.parse depth) ∧
      (∀ first, Ends tokens pos pos (12 * (tokens.length - pos) + 2)
        (fun depth => TokenReader.name tokens depth first)
        fun depth rest => parsePrimary depth (.name first :: rest)) ∧
      Ends tokens pos (pos + 1) (12 * (tokens.length - pos) + 11)
        (TokenReader.arguments tokens) parseArguments) ∧
    ∃ after, after ≤ tokens.length ∧ ∀ depth, 12 * tokens.length + 9 ≤ depth →
      (TokenReader.statement tokens depth).readAt 0 = some (Statement.parse tokens, after) :=
  ⟨fun _ hpos => ⟨(endsAt hpos).form, (endsAt hpos).name, (endsAt hpos).arguments⟩,
    exists_statement_readAt tokens⟩

/-- The argument of `f(x)` is read at every depth as it is at the least one that is enough. -/
theorem grammar_ends_argument :
    let tokens : List Token := [.name "f", .symbol .leftParen, .name "x", .symbol .rightParen]
    2 ≤ tokens.length ∧ ∀ depth, 35 ≤ depth →
      (TokenReader.arguments tokens depth).readAt 2 = some (.ok [.name "x"], 4) := by
  intro tokens
  refine ⟨by decide, fun depth hdepth => ?_⟩
  obtain ⟨result, after, -, -, -, hends⟩ := ((grammar_ends tokens).1 2 (by decide)).2.2
  have hleast : (TokenReader.arguments tokens 35).readAt 2 = some (.ok [.name "x"], 4) := rfl
  rw [(hends depth hdepth).1, ← (hends 35 le_rfl).1, hleast]

end Expr

end InputDeck
