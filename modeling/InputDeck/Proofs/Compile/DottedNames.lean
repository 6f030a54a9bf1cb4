import InputDeck.Proofs.Compile.Visibility

/-!
# What a dotted name reads

A dotted name reads the card that it spells, wherever that was assigned above. But a line may also
assign to a dotted name, and what it assigns is then a card of a suit below the current one, with
the same dotted name as a local one. From there to the end of the section, the name reads that card
instead of the one that it spells.
-/

namespace InputDeck

/-- A target is read by finding its name and what the name stands for. -/
theorem Target.eval_toExpr (target : Target) (scope : Scope) :
    target.toExpr.eval scope = (target.key scope >>= scope.find) := by
  obtain ⟨path, _ | index⟩ := target
  · simp [toExpr, key, Expr.eval]
  · simp [toExpr, key, Expr.eval]

/-- The name of a target with a dotted path is a reference. -/
theorem IsReference.of_key {target : Target} (h : IsDottedName target.path.toList) {scope : Scope}
    {key : String} {output last : List String} (hkey : target.key scope output = .ok key last) :
    IsReference key := by
  rcases Interpreter.key_eq_ok hkey with rfl | ⟨x, index, -, rfl⟩
  · exact .name h
  · exact .element h index

namespace Progress

variable {settings : Settings} {vm : Interpreter} {front body : List LogicalLine}
  {p q : Progress Interpreter} {done : List (String × String)} {location : Location}
  {comment : Option String} {r : Progress (Recording Interpreter)}

/-- Behind every line of a section, and behind the first assignments of the next line, a dotted name
or an element reads the card that it spells and that was assigned above, unless the section has
assigned to a card of the current suit whose name within the suit is spelled alike; then it reads
that card. -/
theorem eval_reference_of_compileLines
    (hfront : ∀ line ∈ front.getLast?, SuitCursor.isHeader settings line.text = true)
    (hbody : ∀ line ∈ body, SuitCursor.isHeader settings line.text = false)
    (hstart : compileLines settings front { engine := vm } = .ok () p)
    (h : compileLines settings body p = .ok () q)
    (hdone : ∀ pair ∈ done, Scan.QuotesPaired pair.2.toList)
    (hline : assignAll location comment done q.recording = .ok () r)
    {suit : SuitPath} {card : String}
    (habove : ∃ a ∈ ({ engine := vm } : Progress Interpreter).assignments settings (front ++ body),
      a.global = suit.qualify card)
    {target : Target} (hpath : IsDottedName target.path.toList) {output last : List String}
    (hkey : target.key r.played.scope output = .ok (suit.qualify card) last) :
    (q.cursor.current.qualify (suit.qualify card) ∉
        (p.assignments settings body).map Assignment.global ++ r.engine.reports →
      ∃ value, r.played.engine.globals[suit.qualify card]? = some value ∧
        target.toExpr.eval r.played.scope output = .ok value last) ∧
    (q.cursor.current.qualify (suit.qualify card) ∈
        (p.assignments settings body).map Assignment.global ++ r.engine.reports →
      ∃ value,
        r.played.engine.globals[q.cursor.current.qualify (suit.qualify card)]? = some value ∧
        target.toExpr.eval r.played.scope output = .ok value last) := by
  have hunbroken : p.cursor.IsUnbroken := isUnbroken_of_compileLines .default hstart
  have hkeeps := hunbroken.current.keeps
  obtain ⟨-, hassigned, -⟩ := within_section hkeeps hfront hbody hstart h hdone hline
  obtain ⟨hown, hother⟩ := find_within_section hkeeps hfront hbody hstart h hdone hline
    (.of_key hpath hkey) last
  have heval : target.toExpr.eval r.played.scope output =
      r.played.scope.find (suit.qualify card) last := by
    rw [Target.eval_toExpr, EStateM.bind_apply, hkey]
  rw [heval]
  refine ⟨fun hnot => ?_, hown⟩
  obtain ⟨a, ha, hglobal⟩ := habove
  obtain ⟨value, hvalue⟩ := Option.isSome_iff_exists.1
    (Std.ExtTreeMap.mem_iff_isSome_getElem?.1 (hassigned a ha))
  rw [hglobal] at hvalue
  refine ⟨value, hvalue, ?_⟩
  rw [hother hnot, hvalue]

/-- Behind a line of a section and an assignment to `s.x` in the next one, the name reads the card
of the suit below, while `s.y` reads the card of the other suit. -/
theorem eval_reference_of_compileLines_two_suits :
    ∃ (q : Progress Interpreter) (r : Progress (Recording Interpreter)),
      compileLines {}
        (LogicalLine.ofText {} "<s>\nx = \"own\"\ny = \"kept\"\n<t>\nw = \"first\"")
        { engine := ({} : Interpreter) } = .ok () q ∧
      assignAll ⟨6, q.cursor.current⟩ none [("s.x", "\"other\"")] q.recording = .ok () r ∧
      r.played.engine.globals["s.x"]? = some (.string "own") ∧
      (Expr.name "s.x").eval r.played.scope [] = .ok (.string "other") [] ∧
      (Expr.name "s.y").eval r.played.scope [] = .ok (.string "kept") [] := by
  let front : List LogicalLine := [⟨"<s>", 1, none⟩, ⟨"x = \"own\"", 2, none⟩,
    ⟨"y = \"kept\"", 3, none⟩, ⟨"<t>", 4, none⟩]
  let body : List LogicalLine := [⟨"w = \"first\"", 5, none⟩]
  have htext : LogicalLine.ofText {} "<s>\nx = \"own\"\ny = \"kept\"\n<t>\nw = \"first\"" =
      front ++ body := by
    decide +kernel
  obtain ⟨⟨⟩, p, hstart, hpasses⟩ := EStateM.Result.exists_of_passes
    (compileLines {} front { engine := ({} : Interpreter) })
    (fun _ p => (compileLines {} body p).passes fun _ q =>
      (assignAll ⟨6, q.cursor.current⟩ none [("s.x", "\"other\"")] q.recording).passes fun _ r =>
        decide (q.cursor.current.qualify ((SuitPath.ofString "s").qualify "x") = "t.s.x" ∧
          q.cursor.current.qualify ((SuitPath.ofString "s").qualify "y") = "t.s.y" ∧
          (({ engine := {} } : Progress Interpreter).assignments {} (front ++ body)).map
            Assignment.global = ["s.x", "s.y", "t.w"] ∧
          (p.assignments {} body).map Assignment.global ++ r.engine.reports = ["t.w", "t.s.x"] ∧
          (r.played.engine.globals["s.x"]?.bind Value.string?) = some "own" ∧
          (r.played.engine.globals["s.y"]?.bind Value.string?) = some "kept" ∧
          (r.played.engine.globals["t.s.x"]?.bind Value.string?) = some "other"))
    (by decide +kernel)
  obtain ⟨⟨⟩, q, h, hpasses⟩ := EStateM.Result.exists_of_passes _ _ hpasses
  obtain ⟨⟨⟩, r, hline, hpasses⟩ := EStateM.Result.exists_of_passes _ _ hpasses
  obtain ⟨hx, hy, habove, hassigned, hown, hkept, hother⟩ := of_decide_eq_true hpasses
  have hsx : (SuitPath.ofString "s").qualify "x" = "s.x" := by decide
  have hsy : (SuitPath.ofString "s").qualify "y" = "s.y" := by decide
  have hmem : ∀ name ∈ ["s.x", "s.y", "t.w"],
      ∃ a ∈ ({ engine := {} } : Progress Interpreter).assignments {} (front ++ body),
        a.global = name := fun name hname => List.mem_map.1 (habove ▸ hname)
  have hquotes : ∀ pair ∈ [("s.x", "\"other\"")], Scan.QuotesPaired pair.2.toList := by decide
  have hsegment : Token.IsSegment ['s'] := by decide
  have hdotted : ∀ target ∈ [(⟨"s.x", none⟩ : Target), ⟨"s.y", none⟩],
      IsDottedName target.path.toList := by
    intro target htarget
    simp only [List.mem_cons, List.not_mem_nil, or_false] at htarget
    rcases htarget with rfl | rfl
    · exact .dot (.segment hsegment) (by decide)
    · exact .dot (.segment hsegment) (by decide)
  have hkeyX : (⟨"s.x", none⟩ : Target).key r.played.scope [] =
      .ok ((SuitPath.ofString "s").qualify "x") [] := hsx ▸ rfl
  have hkeyY : (⟨"s.y", none⟩ : Target).key r.played.scope [] =
      .ok ((SuitPath.ofString "s").qualify "y") [] := hsy ▸ rfl
  have hreadsX := eval_reference_of_compileLines (by decide) (by decide) hstart h hquotes hline
    (hmem _ (by rw [hsx]; decide)) (hdotted _ (by simp)) hkeyX
  have hreadsY := eval_reference_of_compileLines (by decide) (by decide) hstart h hquotes hline
    (hmem _ (by rw [hsy]; decide)) (hdotted _ (by simp)) hkeyY
  refine ⟨q, r, ?_, hline, eq_string_of_bind hown, ?_, ?_⟩
  · rw [htext, compileLines_append]
    exact EStateM.bind_eq_ok_iff.2 ⟨(), p, hstart, h⟩
  · obtain ⟨value, hvalue, heval⟩ := hreadsX.2 (by rw [hx, hassigned]; decide)
    rw [hx, eq_string_of_bind hother] at hvalue
    rw [← Option.some.inj hvalue] at heval
    exact heval
  · obtain ⟨value, hvalue, heval⟩ := hreadsY.1 (by rw [hy, hassigned]; decide)
    rw [hsy, eq_string_of_bind hkept] at hvalue
    rw [← Option.some.inj hvalue] at heval
    exact heval

/-- A card of a suit that was assigned above is not read below a card of a suit further down whose
name within the current suit is spelled alike. -/
theorem dotted_card_hides_suit :
    ∃ compiled vm, compile {} "<s>\nx = \"own\"\n<t>\ns.x = \"other\"\nz = s.x"
      ({} : Interpreter) = .ok compiled vm ∧
      vm.globals["s.x"]? = some (.string "own") ∧
      SuitPath.splitGlobal "t.s.x" = (.ofString "t/s", "x") ∧
      vm.globals["t.z"]? = some (.string "other") := by
  obtain ⟨compiled, vm, hcompile, hvalues⟩ := EStateM.Result.exists_of_passes
    (compile {} "<s>\nx = \"own\"\n<t>\ns.x = \"other\"\nz = s.x" ({} : Interpreter))
    (fun _ vm => decide ((vm.globals["s.x"]?.bind Value.string?) = some "own" ∧
      (vm.globals["t.z"]?.bind Value.string?) = some "other"))
    (by decide +kernel)
  obtain ⟨hown, hother⟩ := of_decide_eq_true hvalues
  exact ⟨compiled, vm, hcompile, eq_string_of_bind hown, by decide, eq_string_of_bind hother⟩

end Progress

end InputDeck
