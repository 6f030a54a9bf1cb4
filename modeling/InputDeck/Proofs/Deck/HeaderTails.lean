import InputDeck.Proofs.Compile.Simulation
import InputDeck.Proofs.Deck.Steps
import InputDeck.Proofs.Suit.Entering

/-!
# What stands behind a header

The name of a suit ends at the first closing delimiter of its header. A header without the delimiter
or without a name ends the build. But what stands behind the delimiter, or is joined to the header
from the next raw lines, is neither compiled nor reported: a text that differs from another one in
nothing else does the same.
-/

namespace InputDeck

open InputDeck.Text

namespace SuitCursor

variable {settings : Settings}

/-- A header that is entered has a name between its delimiters. -/
theorem exists_headerName_of_enter {cursor next : SuitCursor} {text : String} {number : Nat}
    (h : cursor.enter settings text number = .ok next) :
    ∃ name, headerName? settings text.toList = some name ∧ withoutBlanks name ≠ [] := by
  obtain ⟨name, hname, hleads⟩ := enter_eq_ok_iff.1 h
  refine ⟨name, hname, fun hempty => ?_⟩
  rw [hempty] at hleads
  cases hleads with
  | absolute hne => exact hne rfl

/-- Headers of one name lead to the same suit, or are the same mistake. -/
theorem enter_congr {text other : String} {name : List Char}
    (htext : headerName? settings text.toList = some name)
    (hother : headerName? settings other.toList = some name) (cursor : SuitCursor) (number : Nat) :
    cursor.enter settings text number = cursor.enter settings other number := by
  simp only [enter, htext, hother]

end SuitCursor

namespace LogicalLine

variable {settings : Settings}

/-- A header up to its first closing delimiter; all other lines stay. -/
def withoutTail (settings : Settings) (line : LogicalLine) : LogicalLine :=
  match SuitCursor.headerName? settings line.text.toList with
  | some name =>
    { line with
      text := String.ofList (settings.suitOpen :: (name ++ [settings.suitClose])) }
  | none => line

/-- Without its tail, a header is its name between the delimiters. -/
theorem withoutTail_of_headerName {line : LogicalLine} {name : List Char}
    (h : SuitCursor.headerName? settings line.text.toList = some name) :
    line.withoutTail settings =
      ⟨String.ofList (settings.suitOpen :: (name ++ [settings.suitClose])), line.number,
        line.comment⟩ := by
  rw [withoutTail, h]

end LogicalLine

namespace Progress

variable {σ : Type} [Evaluator σ] {settings : Settings}

/-- The tail of a header makes no difference. -/
theorem compileLine_withoutTail (line : LogicalLine) :
    compileLine (σ := σ) settings (line.withoutTail settings) = compileLine settings line := by
  cases hname : SuitCursor.headerName? settings line.text.toList with
  | none => rw [LogicalLine.withoutTail, hname]
  | some name =>
    obtain ⟨tail, htext, hnone⟩ := SuitCursor.headerName?_eq_some_iff.1 hname
    have hheader : SuitCursor.isHeader settings line.text = true := by
      rw [SuitCursor.isHeader, htext]
      simp
    have hcut : SuitCursor.isHeader settings
        (String.ofList (settings.suitOpen :: (name ++ [settings.suitClose]))) = true := by
      rw [SuitCursor.isHeader, String.toList_ofList]
      simp
    have hsame : SuitCursor.headerName? settings
        (String.ofList (settings.suitOpen :: (name ++ [settings.suitClose]))).toList = some name := by
      rw [String.toList_ofList]
      exact SuitCursor.headerName?_eq_some_iff.2 ⟨[], rfl, hnone⟩
    funext progress
    rw [LogicalLine.withoutTail_of_headerName hname, compileLine, compileLine, if_pos hheader,
      if_pos hcut, enter_apply, enter_apply, SuitCursor.enter_congr hsame hname]

/-- The tails of headers make no difference. -/
theorem compileLines_map_withoutTail (lines : List LogicalLine) :
    compileLines (σ := σ) settings (lines.map (LogicalLine.withoutTail settings)) =
      compileLines settings lines := by
  induction lines with
  | nil => rfl
  | cons line lines ih => rw [List.map_cons, compileLines, compileLines, compileLine_withoutTail, ih]

/-- All headers of compiled lines have names. -/
theorem exists_headerName_of_compileLines {lines : List LogicalLine} {p q : Progress σ}
    (h : compileLines settings lines p = .ok () q) :
    ∀ line ∈ lines, SuitCursor.isHeader settings line.text = true →
      ∃ name, SuitCursor.headerName? settings line.text.toList = some name ∧
        withoutBlanks name ≠ [] := by
  induction lines generalizing p with
  | nil => simp
  | cons first lines ih =>
    obtain ⟨_, middle, hfirst, hrest⟩ := EStateM.bind_eq_ok_iff.1 h
    intro line hline hheader
    rcases List.mem_cons.1 hline with rfl | hline
    · rw [compileLine, if_pos hheader] at hfirst
      obtain ⟨cursor, hcursor, -⟩ := enter_eq_ok_iff.1 hfirst
      exact SuitCursor.exists_headerName_of_enter hcursor
    · exact ih hrest line hline hheader

end Progress

section

variable {σ : Type} [Evaluator σ] {settings : Settings} {text other : String}

/-- Two texts whose lines differ in the tails of headers only are compiled alike. -/
theorem compile_congr_withoutTail
    (h : (LogicalLine.ofText settings other).map (LogicalLine.withoutTail settings) =
      (LogicalLine.ofText settings text).map (LogicalLine.withoutTail settings)) :
    compile (σ := σ) settings other = compile settings text := by
  funext engine
  rw [compile, compile, ← Progress.compileLines_map_withoutTail (LogicalLine.ofText settings other),
    h, Progress.compileLines_map_withoutTail]

end

namespace Deck

variable {σ : Type} [Evaluator σ] {deck built : Deck σ} {text : String}

/-- In a text that is built, every header is a name between the delimiters with any tail behind it,
and every text that differs from it in the tails of headers only builds the same deck. -/
theorem build_drops_header_tails (h : build text deck = .ok () built) :
    (∀ line ∈ LogicalLine.ofText deck.settings text,
      SuitCursor.isHeader deck.settings line.text = true →
      ∃ name tail, line.text.toList =
          deck.settings.suitOpen :: (name ++ deck.settings.suitClose :: tail) ∧
        deck.settings.suitClose ∉ name ∧ withoutBlanks name ≠ [] ∧
        line.withoutTail deck.settings =
          ⟨String.ofList (deck.settings.suitOpen :: (name ++ [deck.settings.suitClose])),
            line.number, line.comment⟩) ∧
    ∀ other, (LogicalLine.ofText deck.settings other).map
          (LogicalLine.withoutTail deck.settings) =
        (LogicalLine.ofText deck.settings text).map (LogicalLine.withoutTail deck.settings) →
      build other deck = .ok () built := by
  obtain ⟨compiled, engine, hcompile, rfl⟩ := build_eq_ok_iff.1 h
  refine ⟨fun line hline hheader => ?_, fun other hother => ?_⟩
  · obtain ⟨progress, hlines, -, -⟩ := compile_eq_ok_iff.1 hcompile
    obtain ⟨name, hname, hne⟩ :=
      Progress.exists_headerName_of_compileLines hlines line hline hheader
    obtain ⟨tail, htext, hnone⟩ := SuitCursor.headerName?_eq_some_iff.1 hname
    exact ⟨name, tail, htext, hnone, hne, LogicalLine.withoutTail_of_headerName hname⟩
  · refine build_eq_ok_iff.2 ⟨compiled, engine, ?_, rfl⟩
    rwa [compile_congr_withoutTail hother]

/-- Two assignments behind a header, one of them in the next raw line, make no card, and the card
below them is the only one of the deck, as it is without them. -/
theorem build_drops_header_tails_joined :
    ∃ built, build "<s> x = 1 &\ny = 2\nz = \"a\"" (empty {}) = .ok () built ∧
      build "<s>\n\nz = \"a\"" (empty {}) = .ok () built ∧
      built.store.order = [.root, .ofString "s"] ∧
      built.store.cards.map (fun card => (card.suit, card.name, card.line)) =
        [(.ofString "s", "z", some 3)] := by
  obtain ⟨⟨⟩, built, hbuilt, hcards⟩ := EStateM.Result.exists_of_passes
    (build "<s> x = 1 &\ny = 2\nz = \"a\"" (empty {}))
    (fun _ built => decide (built.store.order = [.root, .ofString "s"] ∧
      built.store.cards.map (fun card => (card.suit, card.name, card.line)) =
        [(.ofString "s", "z", some 3)]))
    (by decide +kernel)
  have htails : (LogicalLine.ofText {} "<s>\n\nz = \"a\"").map (LogicalLine.withoutTail {}) =
      (LogicalLine.ofText {} "<s> x = 1 &\ny = 2\nz = \"a\"").map (LogicalLine.withoutTail {}) := by
    decide +kernel
  obtain ⟨-, hother⟩ := build_drops_header_tails hbuilt
  exact ⟨built, hbuilt, hother _ htails, of_decide_eq_true hcards⟩

/-- An assignment behind a header is lost: the text is built, and there is no card. -/
theorem header_tail_is_lost :
    ∃ built, build "<s> x = 1" (empty {}) = .ok () built ∧
      LogicalLine.ofText {} "<s> x = 1" = [⟨"<s> x = 1", 1, none⟩] ∧
      SuitCursor.isHeader {} "<s> x = 1" = true ∧
      built.store.order = [.root, .ofString "s"] ∧ built.store.cards.length = 0 := by
  obtain ⟨⟨⟩, built, hbuilt, hcards⟩ := EStateM.Result.exists_of_passes
    (build "<s> x = 1" (empty {}))
    (fun _ built => decide (built.store.order = [.root, .ofString "s"] ∧
      built.store.cards.length = 0))
    (by decide +kernel)
  exact ⟨built, hbuilt, by decide +kernel, by decide, of_decide_eq_true hcards⟩

end Deck

end InputDeck
