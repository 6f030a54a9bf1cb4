import InputDeck.Proofs.Compile.KnownVectors
import InputDeck.Proofs.Slice.OneSlice

/-!
# Targets without a bound

A text without slices is assigned to every element of a vector when the slice of the target has no
bounds. The vector is as long as its elements are known without a gap, and an element is known by
its global name in the current suit or by the global with the name itself. So the line assigns to
the elements that the suit has, and goes on as long as the root has a longer vector of the same
name.
-/

namespace InputDeck

/-- A statement that assigns to a name that can be assigned reports this name. -/
theorem Interpreter.report_of_isAssignable {key value : String} {locals : Table Value}
    {vm after : Interpreter} {report : Option String} (hkey : IsAssignable key)
    (hrun : interpret (key ++ " = " ++ value) locals vm = .ok report after) :
    report = some key := by
  obtain ⟨us, target, htarget⟩ := exists_target hkey
  exact (htarget.report_eq htarget.key hrun).1

namespace Progress

/-- Assignments to names that can be assigned are reported under their names in full. -/
theorem reports_assignAll_of_isAssignable {before after : Progress (Recording Interpreter)}
    {location : Location} {comment : Option String} {pairs : List (String × String)}
    (hnames : ∀ pair ∈ pairs, IsAssignable (before.cursor.current.qualify pair.1))
    (h : assignAll location comment pairs before = .ok () after) :
    after.engine.reports =
      before.engine.reports ++ pairs.map fun pair => before.cursor.current.qualify pair.1 := by
  induction pairs generalizing before comment with
  | nil =>
    cases h
    simp
  | cons pair pairs ih =>
    obtain ⟨_, middle, hfirst, h⟩ := EStateM.bind_eq_ok_iff.1 h
    obtain ⟨report, vm, hrun, hmiddle⟩ := exists_of_assign hfirst
    obtain rfl := Interpreter.report_of_isAssignable (hnames pair List.mem_cons_self) hrun
    obtain ⟨hcursor, hreported⟩ : middle.cursor = before.cursor ∧ middle.engine.reports =
        before.engine.reports ++ [before.cursor.current.qualify pair.1] := by
      subst hmiddle
      exact ⟨rfl, rfl⟩
    have hothers : ∀ other ∈ pairs, IsAssignable (middle.cursor.current.qualify other.1) := by
      rw [hcursor]
      exact fun other hother => hnames other (List.mem_cons_of_mem _ hother)
    rw [ih hothers h, hcursor, hreported, List.append_assoc, List.map_cons, List.singleton_append]

variable {settings : Settings} {vm : Interpreter} {front body : List LogicalLine}
  {p q : Progress Interpreter}

/-- Behind every line of a section, an element is known by its name in the current suit or by its
name in the root, since the local names are those of cards of the suit. -/
theorem isDefined_iff_within_section
    (hfront : ∀ line ∈ front.getLast?, SuitCursor.isHeader settings line.text = true)
    (hbody : ∀ line ∈ body, SuitCursor.isHeader settings line.text = false)
    (hstart : compileLines settings front { engine := vm } = .ok () p)
    (h : compileLines settings body p = .ok () q)
    {base : String} (hbase : IsDottedName base.toList) {i : Nat} :
    q.isDefined base i = true ↔
      q.cursor.current.qualify (elementName base i) ∈ q.engine.globals ∨
        elementName base i ∈ q.engine.globals := by
  have hempty : p.locals = ∅ := locals_of_compileLines_getLast? rfl hfront hstart
  have hunbroken : p.cursor.IsUnbroken := isUnbroken_of_compileLines .default hstart
  have hlocals := (binds_compileLines hunbroken.current.keeps hbody h).getElem?_locals_of_known
    hempty (.element hbase i)
  rw [isDefined_iff]
  refine ⟨fun hknown => ?_, .inr⟩
  rcases hknown with hlocal | hglobal
  · rw [Std.ExtTreeMap.mem_iff_isSome_getElem?, hlocals] at hlocal
    split at hlocal
    · exact .inl (Std.ExtTreeMap.mem_iff_isSome_getElem?.2 hlocal)
    · cases hlocal
  · exact hglobal

/-- A text that is assigned to the slice of a whole vector goes to the elements that the current
suit has, and from there on up to the first index at which neither the suit nor the root has one. So
it goes to the vector of the suit alone exactly when the root has no element behind its end. -/
theorem compileLine_open_target
    (hfront : ∀ line ∈ front.getLast?, SuitCursor.isHeader settings line.text = true)
    (hbody : ∀ line ∈ body, SuitCursor.isHeader settings line.text = false)
    (hstart : compileLines settings front { engine := vm } = .ok () p)
    (h : compileLines settings body p = .ok () q)
    {line : LogicalLine} {name value : String} {n : Nat}
    (hheader : SuitCursor.isHeader settings line.text = false)
    (hcard : CardLine.ofText line.text (q.cursor.locate line.number) =
      .ok (.slice (name ++ "[:]") value))
    (hname : Token.IsSegment name.toList)
    (hvalue : Slice.IsSource value.toList (.pattern ⟨[], value.toList⟩)) (hn : 0 < n)
    (hvector : ∀ i < n, q.cursor.current.qualify (elementName name i) ∈ q.engine.globals)
    (hend : q.cursor.current.qualify (elementName name n) ∉ q.engine.globals) :
    ∃ m, n ≤ m ∧ (m = n ↔ elementName name n ∉ q.engine.globals) ∧
      IsLeast {k | q.cursor.current.qualify (elementName name k) ∉ q.engine.globals ∧
        elementName name k ∉ q.engine.globals} m ∧
      compileLine settings line q =
        assignAll (q.cursor.locate line.number) line.comment
          ((List.range m).map fun i => (elementName name i, value)) q ∧
      ((∀ i < m, IsAssignable (q.cursor.current.qualify (elementName name i))) →
        ∀ after, compileLine settings line q = .ok () after →
          (q.assignments settings [line]).map Assignment.global =
            (List.range m).map fun i => q.cursor.current.qualify (elementName name i)) := by
  have hdefined : ∀ i, q.isDefined name i = true ↔
      q.cursor.current.qualify (elementName name i) ∈ q.engine.globals ∨
        elementName name i ∈ q.engine.globals :=
    fun _ => isDefined_iff_within_section hfront hbody hstart h (.segment hname)
  cases hlength : q.existingLength? name with
  | none =>
    have hfirst := (hdefined 0).2 (.inl (hvector 0 hn))
    rw [existingLength?_eq_none_iff.1 hlength] at hfirst
    cases hfirst
  | some m =>
    obtain ⟨-, hknown, hunknown⟩ := existingLength?_eq_some_iff.1 hlength
    rw [Bool.eq_false_iff, ne_eq, hdefined, not_or] at hunknown
    have hle : n ≤ m := Nat.le_of_not_lt fun hlt => hunknown.1 (hvector m hlt)
    have hpairs : ∀ location, CardLine.pairs location q.existingLength?
        (.slice (name ++ "[:]") value) =
          .ok ((List.range m).map fun i => (elementName name i, value)) :=
      fun _ => Slice.expand_whole_text hname hvalue hlength
    refine ⟨m, hle, ⟨?_, fun hroot => ?_⟩, ⟨hunknown, fun k hk => ?_⟩,
      compileLine_of_pairs hheader hcard (by simp) (hpairs _), fun hnames after hafter => ?_⟩
    · rintro rfl
      exact hunknown.2
    · refine Nat.le_antisymm (Nat.le_of_not_lt fun hlt => ?_) hle
      exact ((hdefined n).1 (hknown n hlt)).elim hend hroot
    · exact Nat.le_of_not_lt fun hlt => ((hdefined k).1 (hknown k hlt)).elim hk.1 hk.2
    · obtain ⟨recorded, hrecorded, rfl⟩ := compileLine_recording hafter
      have hsent : compileLine settings line q.recording = assignAll _ line.comment _ q.recording :=
        compileLine_of_pairs hheader hcard (by simp) (hpairs _)
      rw [assignments, hrecorded]
      rw [hsent] at hrecorded
      have hreports := reports_assignAll_of_isAssignable (fun pair hpair => by
        obtain ⟨i, hi, rfl⟩ := List.mem_map.1 hpair
        exact hnames i (List.mem_range.1 hi)) hrecorded
      simpa [assignments, recording, Function.comp_def] using hreports

/-- A root with only the third element makes a vector of two elements three elements long. -/
theorem compileLine_open_target_third_in_root :
    ∃ q after : Progress Interpreter,
      compileLines {} (LogicalLine.ofText {} "v[2] = \"root\"\n<s>\nv = \"a\", \"b\"")
        { engine := ({} : Interpreter) } = .ok () q ∧
      compileLine {} ⟨"v[:] = \"0\"", 4, none⟩ q = assignAll (q.cursor.locate 4) none
        [("v[0]", "\"0\""), ("v[1]", "\"0\""), ("v[2]", "\"0\"")] q ∧
      compileLine {} ⟨"v[:] = \"0\"", 4, none⟩ q = .ok () after ∧
      (q.assignments {} [⟨"v[:] = \"0\"", 4, none⟩]).map Assignment.global =
        ["s.v[0]", "s.v[1]", "s.v[2]"] := by
  let front : List LogicalLine := [⟨"v[2] = \"root\"", 1, none⟩, ⟨"<s>", 2, none⟩]
  let body : List LogicalLine := [⟨"v = \"a\", \"b\"", 3, none⟩]
  let line : LogicalLine := ⟨"v[:] = \"0\"", 4, none⟩
  have htext : LogicalLine.ofText {} "v[2] = \"root\"\n<s>\nv = \"a\", \"b\"" =
      front ++ body := by
    decide +kernel
  obtain ⟨⟨⟩, p, hstart, hrest⟩ := EStateM.Result.exists_of_passes
    (compileLines {} front { engine := ({} : Interpreter) })
    (fun _ p => (compileLines {} body p).passes fun _ (q : Progress Interpreter) =>
      (compileLine {} line q).passes fun _ _ => decide (q.cursor.current = .ofString "s" ∧
        q.engine.globals.keys = ["s.v[0]", "s.v[1]", "v[2]"]))
    (by decide +kernel)
  obtain ⟨⟨⟩, q, h, hline⟩ := EStateM.Result.exists_of_passes _ _ hrest
  obtain ⟨⟨⟩, after, hafter, hstate⟩ := EStateM.Result.exists_of_passes _ _ hline
  obtain ⟨hsuit, hkeys⟩ := of_decide_eq_true hstate
  have hmem : ∀ name, name ∈ q.engine.globals ↔ name ∈ ["s.v[0]", "s.v[1]", "v[2]"] :=
    fun name => by rw [← hkeys, Std.ExtTreeMap.mem_keys]
  have hcard : CardLine.ofText line.text (q.cursor.locate line.number) =
      .ok (.slice ("v" ++ "[:]") "\"0\"") := by
    rw [SuitCursor.locate, hsuit]
    exact Except.toOption_eq_some_iff.1 (by decide +kernel)
  have hvalue : Slice.IsSource "\"0\"".toList (.pattern ⟨[], "\"0\"".toList⟩) :=
    (@Slice.isSource_iff ⟨1, .root⟩ _ _).2 (Except.toOption_eq_some_iff.1 (by decide +kernel))
  obtain ⟨m, -, -, hleast, hsent, hassigned⟩ := compileLine_open_target (n := 2)
    (by decide) (by decide) hstart h (by decide) hcard (by decide) hvalue (by decide)
    (by simp only [hmem, hsuit]; decide) (by simp only [hmem, hsuit]; decide)
  -- The third element is known by the root, and the fourth one by nothing.
  obtain rfl : m = 3 := by
    simp only [hmem, hsuit] at hleast
    have hknown : ∀ k < 3,
        (SuitPath.ofString "s").qualify (elementName "v" k) ∈ ["s.v[0]", "s.v[1]", "v[2]"] ∨
          elementName "v" k ∈ ["s.v[0]", "s.v[1]", "v[2]"] := by decide
    refine hleast.unique ⟨by decide, fun k hk => Nat.le_of_not_lt fun hlt => ?_⟩
    exact (hknown k hlt).elim hk.1 hk.2
  have hnames : ∀ i < 3, IsAssignable (q.cursor.current.qualify (elementName "v" i)) := by
    intro i hi
    have hpath : IsDottedName (q.cursor.current.qualify "v").toList := by
      rw [hsuit]
      exact .dot (.segment (show Token.IsSegment ['s'] by decide))
        (show Token.IsSegment ['v'] by decide)
    have hindex : ∀ i < 3, Number.index? (Float.ofScientific i false 0) = some i := by
      decide +kernel
    rw [← SuitPath.elementName_qualify]
    exact .element hpath (by rw [hsuit]; decide) (by rw [hsuit]; decide) (hindex i hi)
  refine ⟨q, after, ?_, hsent, hafter, ?_⟩
  · rw [htext, compileLines_append]
    exact EStateM.bind_eq_ok_iff.2 ⟨(), p, hstart, h⟩
  · rw [hassigned hnames after hafter, hsuit]
    decide

/-- A suit with the first element of a vector only, in a text whose root has the second one, gets a
second element. -/
theorem root_element_adds_element :
    ∃ q after : Progress Interpreter,
      compileLines {} (LogicalLine.ofText {} "v[1] = \"root\"\n<s>\nv[0] = \"own\"")
        { engine := ({} : Interpreter) } = .ok () q ∧
      q.cursor.current = .ofString "s" ∧
      "s.v[0]" ∈ q.engine.globals ∧ "s.v[1]" ∉ q.engine.globals ∧
      compileLine {} ⟨"v[:] = \"0\"", 4, none⟩ q = .ok () after ∧
      after.engine.globals["s.v[1]"]? = some (.string "0") := by
  obtain ⟨⟨⟩, q, h, hstate⟩ := EStateM.Result.exists_of_passes
    (compileLines {} (LogicalLine.ofText {} "v[1] = \"root\"\n<s>\nv[0] = \"own\"")
      { engine := ({} : Interpreter) })
    (fun _ q => decide (q.cursor.current = .ofString "s" ∧
        "s.v[0]" ∈ q.engine.globals ∧ "s.v[1]" ∉ q.engine.globals) &&
      (compileLine {} ⟨"v[:] = \"0\"", 4, none⟩ q).passes fun _ (after : Progress Interpreter) =>
        decide ((after.engine.globals["s.v[1]"]?.bind Value.string?) = some "0"))
    (by decide +kernel)
  rw [Bool.and_eq_true] at hstate
  obtain ⟨hsuit, hfirst, hsecond⟩ := of_decide_eq_true hstate.1
  obtain ⟨⟨⟩, after, hafter, hadded⟩ := EStateM.Result.exists_of_passes _ _ hstate.2
  exact ⟨q, after, h, hsuit, hfirst, hsecond, hafter,
    eq_string_of_bind (of_decide_eq_true hadded)⟩

end Progress

end InputDeck
