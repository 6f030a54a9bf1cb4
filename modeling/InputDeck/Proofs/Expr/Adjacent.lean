import InputDeck.Proofs.Expr.Grammar
import Mathlib.Data.List.Chain

/-!
# Neighbouring tokens

An expression begins with a token that can begin an operand and ends with one that can end it. So
only some tokens stand next to each other in it: nothing but a symbol follows a number or a name,
and nothing but an operand follows an operation. Such neighbours stay apart from each other without
a blank between them.
-/

namespace InputDeck

/-- Whether a symbol stands around or between operands without being an operation. -/
def Symbol.isDelimiter : Symbol → Bool
  | leftParen | rightParen | leftBracket | rightBracket | comma => true
  | _ => false

namespace Token

/-- Whether a token can begin an operand. -/
def beginsOperand : Token → Bool
  | symbol s => s == .leftParen || (UnaryOp.ofSymbol? s).isSome
  | _ => true

/-- Whether a token followed by another needs no blank between them. -/
def Apart : Token → Token → Prop
  | string _, _ => True
  | number _, .symbol s => s ≠ .dot
  | number _, _ => False
  | name _, .symbol _ => True
  | name _, _ => False
  | symbol .dot, .name _ => True
  | symbol .dot, _ => False
  | symbol s, t => s.isDelimiter = true ∨ t.beginsOperand = true

/-- Behind an operand, a symbol other than a dot needs no blank. -/
theorem apart_symbol {t : Token} {s : Symbol} (ht : t.endsOperand = true) (hs : s ≠ .dot) :
    Apart t (.symbol s) := by
  cases t with
  | number => exact hs
  | string => trivial
  | name => trivial
  | symbol u => cases u <;> first | exact .inl rfl | cases ht

/-- A symbol other than a dot needs no blank behind it when it is a delimiter, and in front of an
operand. -/
theorem apart_iff_of_ne_dot {t : Token} {s : Symbol} (hs : s ≠ .dot) :
    Apart (.symbol s) t ↔ s.isDelimiter = true ∨ t.beginsOperand = true := by
  cases s
  case dot => exact absurd rfl hs
  all_goals rfl

/-- In front of an operand, a symbol other than a dot needs no blank. -/
theorem apart_operand {t : Token} {s : Symbol} (hs : s ≠ .dot) (ht : t.beginsOperand = true) :
    Apart (.symbol s) t :=
  (apart_iff_of_ne_dot hs).2 (.inr ht)

/-- In front of anything, a delimiter needs no blank. -/
theorem apart_of_isDelimiter {t : Token} {s : Symbol} (hs : s.isDelimiter = true) :
    Apart (.symbol s) t := by
  refine (apart_iff_of_ne_dot ?_).2 (.inl hs)
  rintro rfl
  cases hs

/-- Tokens that stand together as an operand. -/
structure IsOperand (ts : List Token) : Prop where
  /-- No two neighbours need a blank. -/
  apart : ts.IsChain Apart
  /-- The first token can begin an operand. -/
  first : ∃ t rest, ts = t :: rest ∧ t.beginsOperand = true
  /-- The last token can end an operand. -/
  last : ∃ front t, ts = front ++ [t] ∧ t.endsOperand = true

namespace IsOperand

variable {ts us : List Token} {s : Symbol}

/-- The first token of an operand can begin one. -/
theorem beginsOperand (h : IsOperand ts) {t : Token} (ht : t ∈ ts.head?) :
    t.beginsOperand = true := by
  obtain ⟨u, rest, rfl, hu⟩ := h.first
  obtain rfl := Option.some.inj ht
  exact hu

/-- The last token of an operand can end one. -/
theorem endsOperand (h : IsOperand ts) {t : Token} (ht : t ∈ ts.getLast?) :
    t.endsOperand = true := by
  obtain ⟨front, u, rfl, hu⟩ := h.last
  rw [List.getLast?_concat] at ht
  obtain rfl := Option.some.inj ht
  exact hu

/-- Behind an operand, a symbol other than a dot goes on with tokens that it can stand in front
of. -/
theorem isChain_append (h : IsOperand ts) (hs : s ≠ .dot)
    (hus : (Token.symbol s :: us).IsChain Apart) : (ts ++ .symbol s :: us).IsChain Apart := by
  refine List.isChain_append.2 ⟨h.apart, hus, fun t ht u hu => ?_⟩
  obtain rfl := Option.some.inj hu
  exact apart_symbol (h.endsOperand ht) hs

/-- In front of an operand, a symbol other than a dot can stand. -/
theorem isChain_cons (h : IsOperand ts) (hs : s ≠ .dot) :
    (Token.symbol s :: ts).IsChain Apart := by
  refine List.isChain_cons.2 ⟨fun t ht => ?_, h.apart⟩
  exact apart_operand hs (h.beginsOperand ht)

/-- Two operands with a symbol between them are one. -/
theorem join (hts : IsOperand ts) (hus : IsOperand us) (hs : s ≠ .dot) :
    IsOperand (ts ++ .symbol s :: us) where
  apart := hts.isChain_append hs (hus.isChain_cons hs)
  first := by
    obtain ⟨t, rest, rfl, ht⟩ := hts.first
    exact ⟨t, _, rfl, ht⟩
  last := by
    obtain ⟨front, t, rfl, ht⟩ := hus.last
    exact ⟨ts ++ .symbol s :: front, t, by simp, ht⟩

/-- Tokens between delimiters, in front of nothing else. -/
theorem isChain_delimited {s u : Symbol} (hs : s.isDelimiter = true) (hu : u ≠ .dot)
    (h : ts = [] ∨ IsOperand ts) : (Token.symbol s :: (ts ++ [.symbol u])).IsChain Apart := by
  refine List.isChain_cons.2 ⟨fun t _ => apart_of_isDelimiter hs, ?_⟩
  rcases h with rfl | h
  · exact .singleton _
  · exact h.isChain_append hu (.singleton _)

end IsOperand

end Token

namespace Expr

open Token

/-- A name is an operand. -/
theorem IsPath.isOperand {ts : List Token} {path : String} (h : IsPath ts path) : IsOperand ts := by
  induction h with
  | segment s => exact ⟨.singleton _, ⟨_, _, rfl, rfl⟩, ⟨[], _, rfl, rfl⟩⟩
  | @dot ts path s h ih =>
    refine ⟨List.isChain_append.2 ⟨ih.apart, ?_, ?_⟩, ?_,
      ⟨ts ++ [.symbol .dot], .name s, by simp, rfl⟩⟩
    · exact List.isChain_cons.2 ⟨by rintro t ⟨⟩; trivial, .singleton _⟩
    · rintro t ht u ⟨⟩
      obtain ⟨front, segment, rfl⟩ := h.exists_append
      rw [List.getLast?_concat] at ht
      obtain rfl := Option.some.inj ht
      trivial
    · obtain ⟨t, rest, rfl, ht⟩ := ih.first
      exact ⟨t, _, rfl, ht⟩

/-- Operands with commas between them are one. -/
theorem isOperand_commaSeparated {parts : List (List Token)} (hne : parts ≠ [])
    (h : ∀ ts ∈ parts, IsOperand ts) : IsOperand (commaSeparated parts) := by
  fun_induction commaSeparated parts with
  | case1 => exact absurd rfl hne
  | case2 ts => exact h ts (by simp)
  | case3 ts us rest ih =>
    have hrest := ih (by simp) fun vs hvs => h vs (List.mem_cons_of_mem _ hvs)
    exact (h ts (by simp)).join hrest (by decide)

/-- A name in front of delimited tokens is an operand. -/
private theorem IsPath.isOperand_delimited {ts us : List Token} {path : String} {s u : Symbol}
    (h : IsPath ts path) (hs : s ≠ .dot) (hdelimiter : s.isDelimiter = true) (hu : u ≠ .dot)
    (hends : (Token.symbol u).endsOperand = true) (hus : us = [] ∨ IsOperand us) :
    IsOperand (ts ++ .symbol s :: us ++ [.symbol u]) where
  apart := by
    rw [List.append_assoc, List.cons_append]
    exact h.isOperand.isChain_append hs (IsOperand.isChain_delimited hdelimiter hu hus)
  first := by
    obtain ⟨t, rest, rfl, ht⟩ := h.isOperand.first
    exact ⟨t, _, rfl, ht⟩
  last := ⟨_, _, rfl, hends⟩

/-- The tokens of an expression are an operand. -/
theorem Derives.isOperand {form : Form} {ts : List Token} {e : Expr} (h : Derives form ts e) :
    IsOperand ts := by
  induction h with
  | innermost _ ih => exact ih
  | tighter _ _ ih => exact ih
  | @operation ts us _ _ level _ s _ hop _ _ ihleft ihright =>
    refine ihleft.join ihright ?_
    rintro rfl
    cases level <;> cases hop
  | @before ts e s _ hop _ ih =>
    refine ⟨ih.isChain_cons ?_, ⟨_, _, rfl, by simp [beginsOperand, hop]⟩, ?_⟩
    · rintro rfl
      cases hop
    · obtain ⟨front, t, rfl, ht⟩ := ih.last
      exact ⟨.symbol s :: front, t, rfl, ht⟩
  | bare _ ih => exact ih
  | base _ ih => exact ih
  | exponent _ _ ihbase ihexponent => exact ihbase.join ihexponent (by decide)
  | number x => exact ⟨.singleton _, ⟨_, _, rfl, rfl⟩, ⟨[], _, rfl, rfl⟩⟩
  | string s => exact ⟨.singleton _, ⟨_, _, rfl, rfl⟩, ⟨[], _, rfl, rfl⟩⟩
  | parentheses _ ih =>
    exact ⟨IsOperand.isChain_delimited rfl (by decide) (.inr ih), ⟨_, _, rfl, rfl⟩,
      ⟨_, _, rfl, rfl⟩⟩
  | @call ts path arguments hpath _ ih =>
    refine hpath.isOperand_delimited (by decide) rfl (by decide) rfl ?_
    cases arguments with
    | nil => exact .inl rfl
    | cons argument arguments =>
      refine .inr (isOperand_commaSeparated (by simp) fun us hus => ?_)
      obtain ⟨other, hother, rfl⟩ := List.mem_map.1 hus
      exact ih other hother
  | boolean b => exact ⟨.singleton _, ⟨_, _, rfl, rfl⟩, ⟨[], _, rfl, rfl⟩⟩
  | name hpath => exact hpath.isOperand
  | element hpath _ _ _ ih =>
    exact hpath.isOperand_delimited (by decide) rfl (by decide) rfl (.inr ih)

end Expr

end InputDeck
