import InputDeck.Proofs.Deck.Bindings
import InputDeck.Proofs.Deck.EmptyText
import InputDeck.Proofs.Text.Joining
import InputDeck.Proofs.Text.PlainLines
import InputDeck.Proofs.Value.Literals

/-!
# Quoted texts in builds

Between quotes, commas, brackets, colons and the marks of lines have no meaning, and spaces are
kept. But each raw line loses its blanks other than spaces before anything looks for quotes, so
these are lost between quotes as well. A card that is assigned a quoted text holds the text without
them, and the text itself exactly when its only blanks are spaces.
-/

namespace InputDeck

open InputDeck.Text

/-- The characters of a line that assigns a quoted text to a card. -/
def quotedLine (name cs : List Char) : List Char := name ++ ' ' :: '=' :: ' ' :: '"' :: cs ++ ['"']

/-- The line as it is written. -/
theorem toList_quotedLine (name s : String) :
    (name ++ " = " ++ ("\"" ++ s ++ "\"")).toList = quotedLine name.toList s.toList := by
  simp [quotedLine]

namespace IsCardName

variable {name cs : List Char}

/-- Without a line feed in the text, the line is one raw line. -/
theorem lines_quotedLine (h : IsCardName name) (hbreak : '\n' ∉ cs) :
    lines (quotedLine name cs) = [quotedLine name cs] := by
  have hname := h.notMem (c := '\n') (by decide) (by decide) (by decide)
  have hline : '\n' ∉ quotedLine name cs := by simp [quotedLine, hname, hbreak]
  obtain ⟨c, rest, rfl, -⟩ := h.exists_cons
  exact lines_eq_singleton hline

/-- Only the text between the quotes has blanks other than spaces. -/
theorem toPlain_quotedLine (h : IsCardName name) (cs : List Char) :
    toPlain (quotedLine name cs) = quotedLine name (toPlain cs) := by
  have hname : toPlain name = name := toPlain_eq_self_iff.2 (.of_isBlank h.isBlank)
  have hsign : toPlain [' ', '=', ' ', '"'] = [' ', '=', ' ', '"'] := by decide
  have hquote : toPlain ['"'] = ['"'] := by decide
  have hsplit : ∀ ds, quotedLine name ds = name ++ [' ', '=', ' ', '"'] ++ ds ++ ['"'] := by
    simp [quotedLine]
  rw [hsplit, hsplit, toPlain_append, toPlain_append, toPlain_append, hname, hsign, hquote]

/-- The line is a body of a line when the only blanks of the text are spaces. -/
theorem isBody_quotedLine (h : IsCardName name) (hplain : IsPlain cs) (hquote : '"' ∉ cs) :
    IsBody {} (quotedLine name cs) := by
  have hbody := h.isBody Settings.isUsable_default (Value.IsWritten.of_quoted hplain hquote)
  simpa [quotedLine] using hbody

end IsCardName

/-- A line that assigns a quoted text to a card is read without the blanks of the text other than
spaces. -/
theorem LogicalLine.ofText_quoted {name s : String} (hname : IsCardName name.toList)
    (hquote : '"' ∉ s.toList) (hbreak : '\n' ∉ s.toList) :
    ofText {} (name ++ " = " ++ ("\"" ++ s ++ "\"")) =
      [⟨name ++ " = " ++ ("\"" ++ String.ofList (toPlain s.toList) ++ "\""), 1, none⟩] := by
  have hplain := isPlain_toPlain s.toList
  have hbody := hname.isBody_quotedLine hplain fun hmem => hquote (List.mem_filter.1 hmem).1
  have hread := ofText_body Settings.isUsable_default hbody 0
  have hwritten : String.ofList (quotedLine name.toList (toPlain s.toList)) =
      name ++ " = " ++ ("\"" ++ String.ofList (toPlain s.toList) ++ "\"") := by
    apply String.toList_inj.1
    rw [toList_quotedLine, String.toList_ofList, String.toList_ofList]
  rw [List.replicate_zero, List.append_nil, hwritten] at hread
  rw [← hread]
  refine ofText_congr {} ?_
  rw [toList_quotedLine, toList_quotedLine, String.toList_ofList, hname.lines_quotedLine hbreak,
    hname.lines_quotedLine hplain.newline_notMem]
  -- What is kept of the line is kept of it again.
  have htwice : toPlain (quotedLine name.toList s.toList) =
      toPlain (quotedLine name.toList (toPlain s.toList)) := by
    rw [hname.toPlain_quotedLine, hname.toPlain_quotedLine, toPlain_eq_self_iff.2 hplain]
  exact congrArg (fun cs => [cs]) htwice

/-- A quoted text is bound to the global of its card without its blanks other than spaces. -/
theorem Progress.exists_quoted {p : Progress Interpreter} (hroot : p.cursor.current = .root)
    {name s : String} (hname : Token.IsSegment name.toList) (htrue : name ≠ "true")
    (hfalse : name ≠ "false") (hquote : '"' ∉ s.toList) (hbreak : '\n' ∉ s.toList) :
    ∃ q, compileLines {} (LogicalLine.ofText {} (name ++ " = " ++ ("\"" ++ s ++ "\""))) p =
        .ok () q ∧
      BindsAll p q [⟨name, .string (String.ofList (toPlain s.toList)), ⟨1, none⟩⟩] := by
  generalize hkept : String.ofList (toPlain s.toList) = kept
  have hplain : IsPlain kept.toList := by
    rw [← hkept, String.toList_ofList]
    exact isPlain_toPlain _
  have hclosed : '"' ∉ kept.toList := by
    rw [← hkept, String.toList_ofList]
    exact fun hmem => hquote (List.mem_filter.1 hmem).1
  have hliteral : IsLiteral ("\"" ++ kept ++ "\"") (.string kept) := .string hplain hclosed
  have hcard := IsCardName.segment hname
  have hheader : SuitCursor.isHeader {} (name ++ " = " ++ ("\"" ++ kept ++ "\"")) = false :=
    hcard.isHeader_eq_false Settings.isUsable_default _
  have hrun := Interpreter.interpret_of_reads (.name (.segment hname) htrue hfalse) hliteral.reads
    p.locals p.engine
  have hsent : Interpreter.interpret
      (assignment p.cursor.current name ("\"" ++ kept ++ "\"")) p.locals p.engine =
        .ok (some name)
          { p.engine with globals := p.engine.globals.insert name (.string kept) } := by
    rwa [assignment, hroot, SuitPath.qualify_root]
  have hline : compileLine {} ⟨name ++ " = " ++ ("\"" ++ kept ++ "\""), 1, none⟩ p = .ok () _ :=
    compileLine_of_scalar hheader (CardLine.ofText_written hcard hliteral.isWritten _) hsent
  refine ⟨_, ?_, bindsAll_bind p name name (.string kept) ⟨1, none⟩⟩
  rw [LogicalLine.ofText_quoted hcard hquote hbreak, hkept]
  exact EStateM.bind_eq_ok_iff.2 ⟨(), _, hline, rfl⟩

namespace Deck

variable {deck : Deck Interpreter}

/-- A text between quotes that is assigned to a card of the root is always built, in a deck with the
default settings. The card holds the text without its blanks other than spaces, so it holds the text
itself exactly when it has no such blanks. All other cards stay as they are. -/
theorem build_quoted (hdeck : deck.Reachable) (hsettings : deck.settings = {}) {name s : String}
    (hname : Token.IsSegment name.toList) (htrue : name ≠ "true") (hfalse : name ≠ "false")
    (hquote : '"' ∉ s.toList) (hbreak : '\n' ∉ s.toList) :
    ∃ built, build (name ++ " = " ++ ("\"" ++ s ++ "\"")) deck = .ok () built ∧
      built.store.card? .root name =
        some ⟨{ value := .string (String.ofList (toPlain s.toList)), line := some 1 }, .root,
          name⟩ ∧
      (String.ofList (toPlain s.toList) = s ↔ IsPlain s.toList) ∧
      ∀ path other, (path, other) ≠ (.root, name) →
        built.store.card? path other = deck.store.card? path other := by
  obtain ⟨q, hlines, hbinds⟩ := Progress.exists_quoted (p := deck.start) rfl hname htrue hfalse
    hquote hbreak
  rw [← hsettings] at hlines
  obtain ⟨built, hbuild, hbound⟩ := exists_build_of_bindsAll hdeck.sound hlines hbinds
  have hdot := hname.notMem (c := '.') (by decide)
  refine ⟨built, hbuild, ?_, ?_, fun path other hother => ?_⟩
  · refine hbound.bound .root name ⟨name, .string (String.ofList (toPlain s.toList)), ⟨1, none⟩⟩
      hdot ?_
    simp [Binding.last?, Table.lastNamed?]
  · rw [← toPlain_eq_self_iff, ← String.toList_inj, String.toList_ofList]
  · have hplace := SuitPath.splitGlobal_qualify .root hdot
    rw [SuitPath.qualify_root] at hplace
    refine hbound.others path other (List.forall_mem_singleton.2 ?_)
    rw [hplace]
    exact Ne.symm hother

/-- The marks of lines and all brackets are kept between quotes, and so are spaces at their ends; a
no-break space is lost. -/
theorem build_quoted_no_break_space : ∃ built,
    build ("x" ++ " = " ++ ("\"" ++ " a, [b] # c:\u00a0&" ++ "\"")) (empty {}) = .ok () built ∧
      (built.store.card? .root "x").map (·.value) = some (.string " a, [b] # c:&") := by
  have hname : Token.IsSegment "x".toList := Token.isSegment_iff.2 (by decide)
  obtain ⟨built, hbuild, hcard, -⟩ := build_quoted (s := " a, [b] # c:\u00a0&") ⟨{}, .refl⟩
    rfl hname (by decide) (by decide) (by decide) (by decide)
  have hkept : String.ofList (toPlain " a, [b] # c:\u00a0&".toList) = " a, [b] # c:&" := by
    decide +kernel
  exact ⟨built, hbuild, by rw [hcard, Option.map_some, hkept]⟩

/-- A tab between quotes is lost, so that a text is not always held as it is written. -/
theorem tab_between_quotes_is_lost :
    ('"' ∉ "a\tb".toList ∧ '\n' ∉ "a\tb".toList ∧ '\r' ∉ "a\tb".toList) ∧
      ∃ built, build "x = \"a\tb\"" (empty {}) = .ok () built ∧
        textOf built.store "/" "x" = some "ab" ∧ textOf built.store "/" "x" ≠ some "a\tb" := by
  obtain ⟨⟨⟩, built, hbuild, htext⟩ := EStateM.Result.exists_of_passes
    (build "x = \"a\tb\"" (empty {}))
    (fun _ built => textOf built.store "/" "x" == some "ab") (by decide +kernel)
  refine ⟨by decide, built, hbuild, beq_iff_eq.1 htext, ?_⟩
  rw [beq_iff_eq.1 htext]
  decide

end Deck

end InputDeck
