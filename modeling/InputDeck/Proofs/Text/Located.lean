import InputDeck.Proofs.Outcome
import InputDeck.Proofs.Text.Balanced
import InputDeck.Slice
import InputDeck.Suit.Header
import Mathlib.Tactic.SplitIfs

/-!
# Failures of reading

A line that is malformed is refused before the evaluator gets anything of it. Every stage that
reads a line is told where the line is, and every failure of it is located there: headers, card
lines and slices alike. A side of a slice line is refused for its bounds, or for brackets that do
not come in pairs.
-/

namespace InputDeck

namespace DeckError

/-- The statement that the evaluator refused, when a failure is the evaluator's. -/
def refused? : DeckError → Option String
  | expression _ statement _ _ => some statement
  | _ => none

/-- A failure of reading at a location. -/
structure IsSyntaxAt (location : Location) (e : DeckError) : Prop where
  /-- The failure is located there. -/
  location : e.location? = some location
  /-- The evaluator refused nothing. -/
  refused : e.refused? = none

end DeckError

/-- Whether a computation has only failures of reading, all at a location. -/
abbrev FailsAt {α : Type} (location : Location) (x : Except DeckError α) : Prop :=
  x.FailsBy (DeckError.IsSyntaxAt location)

/-- A header is refused where it stands. -/
theorem SuitCursor.failsAt_enter (settings : Settings) (cursor : SuitCursor) (text : String)
    (line : Nat) : FailsAt (cursor.locate line) (cursor.enter settings text line) := by
  unfold enter
  split
  · exact .error ⟨rfl, rfl⟩
  · dsimp only
    split
    · exact .error ⟨rfl, rfl⟩
    · split
      · split
        · exact .error ⟨rfl, rfl⟩
        · exact .ok
      · exact .ok

variable {location : Location}

/-- The two sides of an assignment are refused where their line stands. -/
theorem CardLine.failsAt_ofSides (text : String) (name value : List Char) :
    FailsAt location (ofSides text location name value) := by
  unfold ofSides
  split_ifs
  · exact .error ⟨rfl, rfl⟩
  · exact .error ⟨rfl, rfl⟩
  · exact .error ⟨rfl, rfl⟩
  · exact .error ⟨rfl, rfl⟩
  · exact .ok
  · split
    · exact .ok
    · exact .error ⟨rfl, rfl⟩
  · split
    · exact .ok
    · dsimp only
      split
      · exact .error ⟨rfl, rfl⟩
      · exact .ok

/-- A card line is refused where it stands. -/
theorem CardLine.failsAt_ofText (text : String) : FailsAt location (ofText text location) := by
  unfold ofText
  split
  · exact .ok
  · split
    · exact .error ⟨rfl, rfl⟩
    · exact failsAt_ofSides text _ _

namespace Slice

section

variable {P : DeckError → Prop} (hbound : ∀ fragment, P (.invalidBound location fragment))

include hbound

/-- A bound is refused for itself. -/
theorem failsBy_bound (text : List Char) : (bound location text).FailsBy P := by
  unfold bound
  split
  · exact .ok
  · dsimp only
    split
    · exact .ok
    · exact .error (hbound _)

/-- Two bounds are refused for themselves. -/
theorem failsBy_bounds (inner lowerText upperText : List Char) :
    (bounds location inner lowerText upperText).FailsBy P := by
  refine (failsBy_bound hbound lowerText).bind fun lower =>
    (failsBy_bound hbound upperText).bind fun upper => ?_
  dsimp only
  split
  · exact Except.FailsBy.error (hbound (String.ofList inner))
  · exact .ok

/-- What is left of a side is refused for its bounds, or else for its brackets, which then do not
come in pairs. -/
theorem Pattern.failsBy_parseFrom {side literal rest : List Char}
    (hbrackets : ¬Scan.bracketsBalanced rest = true →
      P (.malformedVector location (String.ofList side))) :
    (parseFrom location side literal rest).FailsBy P := by
  fun_induction parseFrom location side literal rest with
  | case1 => exact .ok
  | case2 literal rest before afterOpen hopen hclose =>
    refine .error (hbrackets fun hbalanced => ?_)
    obtain ⟨inner, after, hcut, -⟩ := Scan.exists_cutBracket hopen hbalanced
    cases hclose.symm.trans hcut
  | case3 literal rest before afterOpen hopen inner after hclose hcolon ih =>
    exact ih fun hafter => hbrackets (mt (Scan.bracketsBalanced_behind hopen hclose) hafter)
  | case4 literal rest before afterOpen hopen inner after hclose lowerText upperText hcolon e
      hbounds => exact .error (failsBy_bounds hbound inner lowerText upperText e hbounds)
  | case5 literal rest before afterOpen hopen inner after hclose lowerText upperText hcolon lower
      upper hbounds ih =>
    refine (ih fun hafter => ?_).map
    exact hbrackets (mt (Scan.bracketsBalanced_behind hopen hclose) hafter)

end

namespace Pattern

/-- A side is refused where its line stands. -/
theorem failsAt_parseFrom (side literal rest : List Char) :
    FailsAt location (parseFrom location side literal rest) :=
  failsBy_parseFrom (fun _ => ⟨rfl, rfl⟩) fun _ => ⟨rfl, rfl⟩

/-- An open slice is refused where its line stands. -/
theorem failsAt_closeSegment (side : String) (count : Option Nat) (segment : Segment) :
    FailsAt location (closeSegment location side count segment) := by
  unfold closeSegment
  split
  · exact .ok
  · exact .error ⟨rfl, rfl⟩
  · split
    · exact .ok
    · exact .error ⟨rfl, rfl⟩

/-- The open slices of a side are refused where their line stands. -/
theorem failsAt_closeBounds (side : String) (count : Option Nat) (pattern : Pattern) :
    FailsAt location (pattern.closeBounds location side count) :=
  (Except.FailsBy.mapM (failsAt_closeSegment side count) pattern.segments).bind fun _ => .ok

end Pattern

namespace Source

/-- What is assigned to a slice is refused where its line stands. -/
theorem failsAt_parse (side : List Char) : FailsAt location (parse location side) := by
  unfold parse
  split
  · exact .ok
  · exact (Pattern.failsAt_parseFrom side [] side).map

/-- The open slices of what is assigned are refused where their line stands. -/
theorem failsAt_closeBounds (side : String) (count : Option Nat) (source : Source) :
    FailsAt location (source.closeBounds location side count) := by
  cases source with
  | pattern p => exact (Pattern.failsAt_closeBounds side count p).map
  | items xs => exact .ok

end Source

/-- Sides that do not go together are refused where their line stands. -/
theorem failsAt_pairs (target : Pattern) (source : Source) (count : Nat) :
    FailsAt location (pairs location target source count) := by
  unfold pairs
  dsimp only
  split
  · exact .error ⟨rfl, rfl⟩
  · exact .ok

/-- A slice line is refused where it stands. -/
theorem failsAt_expand (existing : String → Option Nat) (name value : String) :
    FailsAt location (expand location existing name value) := by
  refine (Pattern.failsAt_parseFrom _ [] _).bind fun target =>
    (Source.failsAt_parse _).bind fun source => ?_
  dsimp only
  split
  all_goals
    exact (Pattern.failsAt_closeBounds _ _ _).bind fun target =>
      (Source.failsAt_closeBounds _ _ _).bind fun source => failsAt_pairs _ _ _

end Slice

end InputDeck
