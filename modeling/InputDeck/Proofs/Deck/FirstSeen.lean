import InputDeck.Proofs.Deck.Build
import InputDeck.Proofs.Store.FirstSeen

/-!
# The suits that a build adds

A build has the suits of its headers where they are first seen, and behind them those that dotted
names bring. What is known of a card is where it was last assigned, so the latter stand in the order
of the last assignments: each by the first line of those that assign a card of it for the last time.
This is the order of the first assignments when no card that brings a suit is assigned again.
-/

namespace InputDeck

/-- The suit of the card that is assigned. -/
def Assignment.suit (a : Assignment) : SuitPath := (SuitPath.splitGlobal a.global).1

namespace Deck

variable {deck built : Deck Interpreter} {text : String}

/-- The last assignment of each global that a build assigns. -/
def lastOrigins (deck : Deck Interpreter) (text : String) : Provenance :=
  (deck.assignments text).foldl Assignment.record ∅

/-- A global that was assigned ranks by the line of its last assignment. -/
theorem rank_lastOrigins (deck : Deck Interpreter) (text name : String) :
    (deck.lastOrigins text).rank name =
      match Assignment.last? (deck.assignments text) name with
      | some a => a.line.number
      | none => Number.wordLimit - 1 := by
  unfold Provenance.rank lastOrigins
  rw [Assignment.getElem?_foldl_record]
  cases Assignment.last? (deck.assignments text) name with
  | some a => rfl
  | none => simp

/-- Whether each suit of a list is brought by cards that the text does not assign again: no later
line assigns a card that the first line of its suit assigns. -/
def KeepsFirstCards (deck : Deck Interpreter) (text : String) (suits : List SuitPath) : Prop :=
  ∀ a ∈ deck.assignments text, a.suit ∈ suits →
    (∀ b ∈ deck.assignments text, b.suit = a.suit → a.line.number ≤ b.line.number) →
    ∀ b ∈ deck.assignments text, b.global = a.global → b.line.number = a.line.number

/-- The suits that a build adds behind those of its headers. -/
structure AddsSuits (deck : Deck Interpreter) (text : String) (built : Deck Interpreter)
    (fresh : List SuitPath) : Prop where
  /-- They come behind the suits that were there and those that headers declare. -/
  order : built.store.order = addSuits deck.store.order (deck.declared text) ++ fresh
  /-- They are the suits of globals that are neither. -/
  mem : ∀ suit, suit ∈ fresh ↔ suit ∉ deck.store.order ∧ suit ∉ deck.declared text ∧
    ∃ name ∈ built.engine.globals, (SuitPath.splitGlobal name).1 = suit
  /-- None of them is there twice. -/
  nodup : fresh.Nodup
  /-- Of two of them, some global of the first one precedes all globals of the other, by the lines
  of the last assignments. -/
  sorted : fresh.Pairwise fun s t =>
    ∃ name ∈ built.engine.globals, (SuitPath.splitGlobal name).1 = s ∧
      ∀ other ∈ built.engine.globals, (SuitPath.splitGlobal other).1 = t →
        (deck.lastOrigins text).Precedes name other
  /-- When the cards that bring them are not assigned again, the first one was assigned no later
  than the other. Lines count as long as they rank before what was not assigned. -/
  first : deck.KeepsFirstCards text fresh → fresh.Pairwise fun s t =>
    ∀ b ∈ deck.assignments text, b.suit = t → b.line.number < Number.wordLimit - 1 →
      ∃ a ∈ deck.assignments text, a.suit = s ∧ a.line.number ≤ b.line.number

/-- When the cards that bring suits are not assigned again, a suit whose first global precedes those
of another was assigned no later. -/
private theorem exists_assignment_of_precedes {globals : Table Value} {fresh : List SuitPath}
    {s t : SuitPath} (hbound : ∀ a ∈ deck.assignments text, a.global ∈ globals)
    (hkeeps : deck.KeepsFirstCards text fresh) (ht : t ∈ fresh)
    {name : String} (hname : (SuitPath.splitGlobal name).1 = s)
    (hprecedes : ∀ other ∈ globals, (SuitPath.splitGlobal other).1 = t →
      (deck.lastOrigins text).Precedes name other)
    {b : Assignment} (hb : b ∈ deck.assignments text) (hsuit : b.suit = t)
    (hline : b.line.number < Number.wordLimit - 1) :
    ∃ a ∈ deck.assignments text, a.suit = s ∧ a.line.number ≤ b.line.number := by
  induction hnumber : b.line.number using Nat.strong_induction_on generalizing b with
  | _ number ih =>
    by_cases hfirst : ∀ c ∈ deck.assignments text, c.suit = b.suit →
        b.line.number ≤ c.line.number
    · -- The first line of the suit is also the last one of its card.
      have hrank := hprecedes b.global (hbound b hb) hsuit
      have hlast : (deck.lastOrigins text).rank b.global = b.line.number := by
        rw [rank_lastOrigins]
        cases hlast : Assignment.last? (deck.assignments text) b.global with
        | none => exact absurd rfl (Assignment.last?_eq_none_iff.1 hlast b hb)
        | some c =>
          obtain ⟨hc, hglobal⟩ := Assignment.global_of_last? hlast
          exact hkeeps b hb (hsuit ▸ ht) hfirst c hc hglobal
      have hle : (deck.lastOrigins text).rank name ≤ b.line.number := by
        rw [← hlast]
        exact hrank.elim le_of_lt fun h => le_of_eq h.1
      rw [rank_lastOrigins] at hle
      cases hlast : Assignment.last? (deck.assignments text) name with
      | none =>
        rw [hlast] at hle
        dsimp only at hle
        omega
      | some a =>
        rw [hlast] at hle
        obtain ⟨ha, hglobal⟩ := Assignment.global_of_last? hlast
        refine ⟨a, ha, ?_, hnumber ▸ hle⟩
        rw [Assignment.suit, hglobal, hname]
    · simp only [not_forall, not_le] at hfirst
      obtain ⟨c, hc, hsame, hless⟩ := hfirst
      obtain ⟨a, ha, has, hle⟩ := ih c.line.number (hnumber ▸ hless) hc (hsame.trans hsuit)
        (hless.trans hline) rfl
      exact ⟨a, ha, has, by omega⟩

/-- A build adds suits behind the others by the last assignments of their cards. -/
theorem order_of_build (h : build text deck = .ok () built) :
    ∃ fresh, AddsSuits deck text built fresh := by
  obtain ⟨compiled, heffect, hsuits, hbuilt⟩ := exists_effect_of_build h
  have hprovenance : compiled.provenance = deck.lastOrigins text := heffect.provenance
  have hstore : built.store = (compiled.suits.foldl Store.ensureSuit deck.store).withGlobals
      (deck.lastOrigins text) built.engine.globals := by
    conv => lhs; rw [hbuilt]
    rw [← hprovenance]
    rfl
  have hdeclared : (compiled.suits.foldl Store.ensureSuit deck.store).order =
      addSuits deck.store.order (deck.declared text) := by
    rw [Store.order_foldl_ensureSuit_eq, hsuits, addSuits_addSuits]
    rfl
  obtain ⟨fresh, horder, hbrings⟩ := Store.exists_brings
    (compiled.suits.foldl Store.ensureSuit deck.store) (deck.lastOrigins text) built.engine.globals
  rw [← hstore, hdeclared] at horder
  refine ⟨fresh, horder, fun suit => ?_, hbrings.nodup, hbrings.sorted, fun hkeeps => ?_⟩
  · rw [hbrings.mem, hdeclared, mem_addSuits, not_or, and_assoc]
  · refine hbrings.sorted.imp_of_mem ?_
    rintro s t - ht ⟨name, -, hname, hprecedes⟩ b hb hsuit hline
    exact exists_assignment_of_precedes (fun a ha => (heffect.bound a ha).2) hkeeps ht hname
      hprecedes hb hsuit hline

/-- Two suits come in the order of the last assignments of their cards. -/
theorem order_of_build_assigned_again : ∃ built : Deck Interpreter,
    build "b.x = \"1\"\na.x = \"2\"\nb.x = \"3\"" (empty {}) = .ok () built ∧
      ∃ fresh, AddsSuits (empty {}) "b.x = \"1\"\na.x = \"2\"\nb.x = \"3\"" built fresh := by
  obtain ⟨⟨⟩, built, h⟩ := EStateM.Result.eq_ok_of_succeeds
    (r := build "b.x = \"1\"\na.x = \"2\"\nb.x = \"3\"" (empty {})) (by decide +kernel)
  exact ⟨built, h, order_of_build h⟩

/-- The suit that the text first assigns a card of comes behind the other one, because a later line
assigns its only card again. -/
theorem first_assigned_suit_comes_last : ∃ built : Deck Interpreter,
    build "b.x = \"1\"\na.x = \"2\"\nb.x = \"3\"" (empty {}) = .ok () built ∧
      (empty {}).declared "b.x = \"1\"\na.x = \"2\"\nb.x = \"3\"" = [] ∧
      ((empty {}).assignments "b.x = \"1\"\na.x = \"2\"\nb.x = \"3\"").map
        (fun a => (a.suit, a.line.number)) =
          [(.ofString "b", 1), (.ofString "a", 2), (.ofString "b", 3)] ∧
      built.store.order = [.root, .ofString "a", .ofString "b"] := by
  have hrun : (match build "b.x = \"1\"\na.x = \"2\"\nb.x = \"3\"" (empty {}) with
      | .ok _ built => decide (built.store.order = [.root, .ofString "a", .ofString "b"])
      | .error _ _ => false) = true := by
    decide +kernel
  split at hrun
  · next built h => exact ⟨built, h, by decide +kernel, by decide +kernel, of_decide_eq_true hrun⟩
  · cases hrun

end Deck

end InputDeck
