import InputDeck.Proofs.Compile.Rereading
import InputDeck.Proofs.Deck.Build
import InputDeck.Proofs.Text.ExpressionLines

/-!
# Changing one card

A card of a deck can be changed by a statement with its full name, after which the globals become
cards, or by a text with a header and an assignment. The two agree: when the statement succeeds, the
text is built, and all cards have the same values.
-/

namespace InputDeck

open InputDeck.SuitPath

/-- The tokens of the global name of a card of a suit of segments are a target. -/
private theorem exists_target_qualify {path name : String} (hpath : IsSegmentPath path.toList)
    (hname : Token.IsSegment name.toList) :
    ∃ us target, Interpreter.IsTargetOf us target ((ofString path).qualify name) :=
  Interpreter.exists_target (.name (hpath.isDottedName_qualify hname)
    (hpath.qualify_ne name (by decide)) (hpath.qualify_ne name (by decide)))

namespace Progress

variable {p : Progress Interpreter}

/-- A header and an assignment of a plain expression do what the statement with the full name does
with no local names. -/
theorem compileLines_section {path name value : String} {report : Option String}
    {vm : Interpreter} (hpath : IsSegmentPath path.toList) (hname : Token.IsSegment name.toList)
    (hplain : Text.IsPlain value.toList)
    (hrun : Interpreter.interpret (assignment (ofString path) name value) ∅ p.engine =
      .ok report vm) :
    ∃ q, compileLines {} (LogicalLine.ofText {}
        ("<" ++ path ++ ">" ++ "\n" ++ (name ++ " = " ++ value))) p = .ok () q ∧
      q.engine = vm := by
  obtain ⟨us, target, htarget⟩ := exists_target_qualify hpath hname
  obtain ⟨statement, hread⟩ := Interpreter.exists_read_of_interpret hrun
  obtain ⟨total, ts, e, htokens, hparse, rfl⟩ := htarget.of_read hread
  obtain ⟨us', hus, hderives⟩ := Expr.derives_of_parse hparse
  rw [List.append_nil] at hus
  subst hus
  obtain ⟨core, item, hlines, hcard, hitem⟩ :=
    LogicalLine.ofText_expression (.segment hname) hplain htokens hderives
  -- The stripped expression has the same tokens, so the line sends a statement that is read alike.
  have hsame : Interpreter.interpret (assignment (ofString path) name item) ∅ p.engine =
      .ok report vm := by
    rw [← hrun]
    exact Interpreter.interpret_congr ((htarget.read_eq hitem hparse).trans hread.symm)
  obtain ⟨key, rfl⟩ : ∃ key, report = some key := by
    cases report with
    | some key => exact ⟨key, rfl⟩
    | none =>
      obtain ⟨other, -, -, hother, -⟩ := Interpreter.interpret_eq_none_iff.1 hrun
      rw [hread] at hother
      cases hother
  let entered := p.entered ⟨ofString path, some (ofString path)⟩
  have hheader : compileLine {} ⟨"<" ++ path ++ ">", 1, none⟩ p = .ok () entered :=
    compileLine_header rfl rfl rfl hpath
  have hassign : compileLine {} ⟨name ++ " = " ++ core, 2, none⟩ entered =
      .ok () ((entered.sent vm).bind name key ⟨2, none⟩) :=
    compileLine_of_scalar
      (IsCardName.isHeader_eq_false Settings.isUsable_default (.segment hname) core) (hcard _) hsame
  refine ⟨(entered.sent vm).bind name key ⟨2, none⟩, ?_, rfl⟩
  rw [LogicalLine.ofText_header hpath, hlines]
  exact EStateM.bind_eq_ok_iff.2 ⟨(), entered, hheader,
    EStateM.bind_eq_ok_iff.2 ⟨(), _, hassign, rfl⟩⟩

end Progress

namespace Deck

variable {before deck recompiled : Deck Interpreter}

/-- When the globals are the cards already, seeding changes nothing. -/
theorem seed_eq_self (h : deck.store.globals = deck.engine.globals) : deck.seed = deck := by
  simp only [seed, h]
  rfl

/-- After a build, a statement that assigns an expression to a card and a text that does so below
the header of the suit lead to the same values of all cards. -/
theorem update_recompile_eq_build {text path name value : String} (hreach : before.Reachable)
    (hsettings : before.settings = {}) (hdeck : build text before = .ok () deck)
    (hpath : IsSegmentPath path.toList) (hname : Token.IsSegment name.toList)
    (hplain : Text.IsPlain value.toList)
    (hrun : recompile ((ofString path).qualify name ++ " = " ++ value) deck = .ok () recompiled) :
    ∃ built, build ("<" ++ path ++ ">" ++ "\n" ++ (name ++ " = " ++ value)) deck = .ok () built ∧
      ∀ suit card, (recompiled.update.store.card? suit card).map (·.value) =
        (built.store.card? suit card).map (·.value) := by
  have hsound := hreach.sound.build hdeck
  obtain ⟨report, vm, hinterpret, rfl⟩ := recompile_eq_ok_iff.1 hrun
  have hnames := (hsound.recompile hrun).globals
  have hstart : deck.start.engine = deck.engine :=
    congrArg Deck.engine (seed_eq_self (globals_of_build hreach.sound hdeck))
  obtain ⟨progress, hlines, hengine⟩ := Progress.compileLines_section (p := deck.start) hpath hname
    hplain (by rw [hstart]; exact hinterpret)
  have hdefault : deck.settings = {} := (settings_of_build hdeck).trans hsettings
  refine ⟨_, build_eq_ok_iff_compileLines.2 ⟨progress, by rwa [hdefault], rfl⟩, ?_⟩
  intro suit card
  rw [hengine]
  exact Store.map_value_card?_withGlobals_congr hnames
    (fun _ _ => (kept?_foldl_ensureSuit _ _ _ _).symm) suit card

/-- A new card of a suit below another one, with blanks in its expression and behind it. -/
theorem update_recompile_eq_build_steel :
    ∃ deck recompiled built : Deck Interpreter, build "y = 2 # two" (empty {}) = .ok () deck ∧
      recompile ((ofString "materials/steel").qualify "x" ++ " = " ++ "( y + 1 ) * 2 ") deck =
        .ok () recompiled ∧
      build ("<" ++ "materials/steel" ++ ">" ++ "\n" ++ ("x" ++ " = " ++ "( y + 1 ) * 2 ")) deck =
        .ok () built ∧
      ∀ suit card, (recompiled.update.store.card? suit card).map (·.value) =
        (built.store.card? suit card).map (·.value) := by
  obtain ⟨⟨⟩, recompiled, hboth⟩ := EStateM.Result.eq_ok_of_succeeds
    (r := (do build "y = 2 # two"
              recompile ((ofString "materials/steel").qualify "x" ++ " = " ++ "( y + 1 ) * 2 ") :
      EStateM DeckError (Deck Interpreter) Unit) (empty {}))
    (by decide +kernel)
  obtain ⟨_, deck, hdeck, hrun⟩ := EStateM.bind_eq_ok_iff.1 hboth
  have hmaterials : IsSegmentPath "materials".toList := .segment (Token.isSegment_iff.2 (by decide))
  have hpath : IsSegmentPath "materials/steel".toList :=
    hmaterials.dot (Token.isSegment_iff.2 (by decide))
  have hplain : Text.IsPlain "( y + 1 ) * 2 ".toList := by
    have hall : "( y + 1 ) * 2 ".toList.all (fun c => !Text.isBlank c || c == ' ') = true := by
      decide
    intro c hc hblank
    have hspace := List.all_eq_true.1 hall c hc
    simpa [hblank] using hspace
  obtain ⟨built, hbuilt, hvalues⟩ := update_recompile_eq_build ⟨{}, .refl⟩ rfl hdeck hpath
    (Token.isSegment_iff.2 (by decide)) hplain hrun
  exact ⟨deck, recompiled, built, hdeck, hrun, hbuilt, hvalues⟩

end Deck

end InputDeck
