import InputDeck.Proofs.Compile.DottedNames
import InputDeck.Proofs.Expr.Reading
import InputDeck.Proofs.Store.ElementNames

/-!
# Vectors that are known

A slice may leave its bound to a vector that stands above it. The vector is then as long as its
elements are known without a gap, by a local name, by their global name in the current suit, or by
a global name without a suit. But a name of a line is looked up among the local names and the
globals without a suit only. So the elements that an earlier section of the suit assigned are
counted, and not read: the root is read in their place, or nothing.
-/

namespace InputDeck

/-- All indices of a run are defined. -/
theorem defined_of_lt_runLength {defined : Nat → Bool} {count start i : Nat}
    (hi : i < runLength defined count start) : defined (start + i) = true := by
  induction count generalizing start i with
  | zero => cases hi
  | succ count ih =>
    unfold runLength at hi
    split at hi
    · next hstart =>
      cases i with
      | zero => exact hstart
      | succ i =>
        have hrest := ih (Nat.lt_of_succ_lt_succ hi)
        rwa [Nat.add_right_comm, Nat.add_assoc] at hrest
    · cases hi

/-- A run is as long as is asked for, or ends at an index that is not defined. -/
theorem runLength_eq_or (defined : Nat → Bool) (count start : Nat) :
    runLength defined count start = count ∨
      defined (start + runLength defined count start) = false := by
  induction count generalizing start with
  | zero => exact .inl rfl
  | succ count ih =>
    unfold runLength
    split
    · rcases ih (start + 1) with h | h
      · exact .inl (by rw [h])
      · rw [Nat.add_right_comm, Nat.add_assoc] at h
        exact .inr h
    · next hstart => exact .inr (Bool.eq_false_iff.2 hstart)

/-- When no run is longer than is asked for, it ends at the first index that is not defined. -/
theorem runLength_eq_iff {defined : Nat → Bool} {count n : Nat}
    (hcount : ∀ m, (∀ i < m, defined i = true) → m ≤ count) :
    runLength defined count 0 = n ↔ (∀ i < n, defined i = true) ∧ defined n = false := by
  have hrun : ∀ i < runLength defined count 0, defined i = true := by
    intro i hi
    have hdefined := defined_of_lt_runLength hi
    rwa [Nat.zero_add] at hdefined
  have hend : defined (runLength defined count 0) = false := by
    rcases runLength_eq_or defined count 0 with hfull | hend
    · -- One more index would make a run longer than any is.
      rw [Bool.eq_false_iff]
      intro hdefined
      have hle : count + 1 ≤ count := hcount _ fun i hi => by
        rcases Nat.lt_succ_iff_lt_or_eq.1 hi with hi | rfl
        · exact hrun i (hfull.symm ▸ hi)
        · rwa [hfull] at hdefined
      exact absurd hle (Nat.not_succ_le_self count)
    · rwa [Nat.zero_add] at hend
  constructor
  · rintro rfl
    exact ⟨hrun, hend⟩
  · rintro ⟨hall, hnot⟩
    rcases Nat.lt_trichotomy (runLength defined count 0) n with hlt | heq | hlt
    · rw [hall _ hlt] at hend
      cases hend
    · exact heq
    · rw [hrun n hlt] at hnot
      cases hnot

/-- The suit of a vector is the suit of its elements. -/
theorem SuitPath.elementName_qualify (suit : SuitPath) (base : String) (i : Nat) :
    elementName (suit.qualify base) i = suit.qualify (elementName base i) := by
  simp [elementName, qualify, String.append_assoc]

namespace Progress

section

variable {σ : Type} [Evaluator σ] {progress : Progress σ} {base : String}

/-- An element is known by one of three names. -/
theorem isDefined_iff {i : Nat} : progress.isDefined base i = true ↔
    elementName base i ∈ progress.locals ∨
      progress.cursor.current.qualify (elementName base i) ∈ Evaluator.globals progress.engine ∨
      elementName base i ∈ Evaluator.globals progress.engine := by
  simp only [isDefined, Bool.or_eq_true, ← Std.ExtTreeMap.mem_iff_contains,
    SuitPath.elementName_qualify, or_assoc]

/-- No run of known elements is longer than there are names to know them by. -/
theorem le_of_isDefined {n : Nat} (h : ∀ i < n, progress.isDefined base i = true) :
    n ≤ progress.locals.size + 2 * (Evaluator.globals progress.engine).size := by
  have hcounted : n ≤
      (List.range n).countP (fun i => progress.locals.contains (elementName base i)) +
      (List.range n).countP (fun i => (Evaluator.globals progress.engine).contains
        (elementName (progress.cursor.current.qualify base) i)) +
      (List.range n).countP
        (fun i => (Evaluator.globals progress.engine).contains (elementName base i)) := by
    induction n with
    | zero => exact Nat.zero_le _
    | succ n ih =>
      have hrest := ih fun i hi => h i (Nat.lt_succ_of_lt hi)
      have hlast := h n (Nat.lt_succ_self n)
      simp only [isDefined, Bool.or_eq_true] at hlast
      simp only [List.range_succ, List.countP_append, List.countP_singleton]
      rcases hlast with (hlast | hlast) | hlast <;> rw [if_pos hlast] <;> omega
  have hindices : (List.range n).Nodup := List.nodup_range
  have hlocals := countP_elementName_le progress.locals base hindices
  have hsuit := countP_elementName_le (Evaluator.globals progress.engine)
    (progress.cursor.current.qualify base) hindices
  have hglobals := countP_elementName_le (Evaluator.globals progress.engine) base hindices
  omega

/-- A known vector has all elements in front of the first one that is not known. -/
theorem existingLength?_eq_some_iff {n : Nat} : progress.existingLength? base = some n ↔
    0 < n ∧ (∀ i < n, progress.isDefined base i = true) ∧ progress.isDefined base n = false := by
  have hrun := runLength_eq_iff (n := n) fun m (h : ∀ i < m, progress.isDefined base i = true) =>
    le_of_isDefined h
  unfold existingLength?
  dsimp only
  split
  · next hzero =>
    rw [hzero] at hrun
    constructor
    · rintro ⟨⟩
    · rintro ⟨hpos, hlength⟩
      exact absurd (hrun.2 hlength) (Nat.ne_of_lt hpos)
  · next hne =>
    rw [Option.some_inj, hrun]
    refine ⟨fun hlength => ⟨Nat.pos_of_ne_zero fun hzero => ?_, hlength⟩, And.right⟩
    exact hne ((hrun.2 hlength).trans hzero)

/-- A vector is not known exactly when its first element is not. -/
theorem existingLength?_eq_none_iff :
    progress.existingLength? base = none ↔ progress.isDefined base 0 = false := by
  have hrun := runLength_eq_iff (n := 0) fun m (h : ∀ i < m, progress.isDefined base i = true) =>
    le_of_isDefined h
  have hnone : (∀ i < 0, progress.isDefined base i = true) ∧ progress.isDefined base 0 = false ↔
      progress.isDefined base 0 = false := and_iff_right (by simp)
  rw [← hnone, ← hrun]
  unfold existingLength?
  dsimp only
  split <;> simp_all

end

variable {settings : Settings} {vm : Interpreter} {front body : List LogicalLine}
  {p q : Progress Interpreter} {done : List (String × String)} {location : Location}
  {comment : Option String} {r : Progress (Recording Interpreter)}

/-- Behind every line of a section, and behind the first assignments of the next line, an element
of a known vector reads the card of the current suit when the section has assigned it, and otherwise
the global with the name itself. When there is neither, nothing is found: the element is known by a
card that the suit, which is not the root, had when the section began. -/
theorem eval_element_of_known_vector
    (hfront : ∀ line ∈ front.getLast?, SuitCursor.isHeader settings line.text = true)
    (hbody : ∀ line ∈ body, SuitCursor.isHeader settings line.text = false)
    (hstart : compileLines settings front { engine := vm } = .ok () p)
    (h : compileLines settings body p = .ok () q)
    (hdone : ∀ pair ∈ done, Scan.QuotesPaired pair.2.toList)
    (hline : assignAll location comment done q.recording = .ok () r)
    {base : String} (hbase : IsDottedName base.toList) {n i : Nat}
    (hlength : r.played.existingLength? base = some n) (hi : i < n)
    {index : Expr} {output last : List String}
    (hkey : (⟨base, some index⟩ : Target).key r.played.scope output =
      .ok (elementName base i) last) :
    (q.cursor.current.qualify (elementName base i) ∈
        (p.assignments settings body).map Assignment.global ++ r.engine.reports →
      ∃ value,
        r.played.engine.globals[q.cursor.current.qualify (elementName base i)]? = some value ∧
        (Expr.element base index).eval r.played.scope output = .ok value last) ∧
    (q.cursor.current.qualify (elementName base i) ∉
        (p.assignments settings body).map Assignment.global ++ r.engine.reports →
      (∀ value, r.played.engine.globals[elementName base i]? = some value →
        (Expr.element base index).eval r.played.scope output = .ok value last) ∧
      (r.played.engine.globals[elementName base i]? = none →
        (Expr.element base index).eval r.played.scope output =
          .error (.undefinedName (elementName base i)) last ∧
        q.cursor.current.qualify (elementName base i) ∈ p.engine.globals ∧
        q.cursor.current ≠ .root)) := by
  have hunbroken : p.cursor.IsUnbroken := isUnbroken_of_compileLines .default hstart
  have hkeeps := hunbroken.current.keeps
  have hname : IsReference (elementName base i) := .element hbase i
  obtain ⟨hown, hother⟩ :=
    find_within_section hkeeps hfront hbody hstart h hdone hline hname last
  have heval : (Expr.element base index).eval r.played.scope output =
      r.played.scope.find (elementName base i) last := by
    have hread := congrFun (Target.eval_toExpr ⟨base, some index⟩ r.played.scope) output
    rwa [EStateM.bind_apply, hkey] at hread
  rw [heval]
  refine ⟨hown, fun hassigned => ⟨fun value hvalue => ?_, fun hnone => ?_⟩⟩
  · rw [hother hassigned, hvalue]
  · obtain ⟨hlocals, -, -⟩ := within_section hkeeps hfront hbody hstart h hdone hline
    have hlocal := hlocals _ hname
    rw [if_neg hassigned] at hlocal
    have hcursor : r.played.cursor = q.cursor := (cursor_of_assignAll hline).1
    have hknown := isDefined_iff.1 ((existingLength?_eq_some_iff.1 hlength).2.1 i hi)
    rw [hcursor] at hknown
    have hqualified : q.cursor.current.qualify (elementName base i) ∈ r.played.engine.globals := by
      rcases hknown with hmem | hmem | hmem
      · rw [Std.ExtTreeMap.mem_iff_isSome_getElem?, hlocal] at hmem
        cases hmem
      · exact hmem
      · rw [Std.ExtTreeMap.mem_iff_isSome_getElem?] at hmem
        change (r.played.engine.globals[elementName base i]?).isSome = true at hmem
        rw [hnone] at hmem
        cases hmem
    have hunchanged :=
      (binds_within_section hkeeps hbody h hdone hline).unchanged _ hassigned
    refine ⟨?_, ?_, fun hroot => ?_⟩
    · rw [hother hassigned, hnone]
    · rw [Std.ExtTreeMap.mem_iff_isSome_getElem?] at hqualified ⊢
      rwa [hunchanged] at hqualified
    · rw [hroot, SuitPath.qualify_root, Std.ExtTreeMap.mem_iff_isSome_getElem?, hnone] at hqualified
      cases hqualified

/-- Below the second header of a suit, three elements of a vector are known: the first one reads the
root, the second one the card that this section assigned, and the last one nothing. -/
theorem eval_element_of_known_vector_second_header :
    ∃ (q : Progress Interpreter) (r : Progress (Recording Interpreter)),
      compileLines {} (LogicalLine.ofText {}
        "v[0] = \"root\"\n<s>\nv = \"a\", \"b\", \"c\"\n<t>\n<s>\nv[1] = \"own\"")
        { engine := ({} : Interpreter) } = .ok () q ∧
      assignAll ⟨7, q.cursor.current⟩ none [("w[0]", "v[0]")] q.recording = .ok () r ∧
      r.played.existingLength? "v" = some 3 ∧
      (Expr.element "v" (.number (Float.ofScientific 0 false 0))).eval r.played.scope [] =
        .ok (.string "root") [] ∧
      (Expr.element "v" (.number (Float.ofScientific 1 false 0))).eval r.played.scope [] =
        .ok (.string "own") [] ∧
      (Expr.element "v" (.number (Float.ofScientific 2 false 0))).eval r.played.scope [] =
        .error (.undefinedName "v[2]") [] := by
  let front : List LogicalLine := [⟨"v[0] = \"root\"", 1, none⟩, ⟨"<s>", 2, none⟩,
    ⟨"v = \"a\", \"b\", \"c\"", 3, none⟩, ⟨"<t>", 4, none⟩, ⟨"<s>", 5, none⟩]
  let body : List LogicalLine := [⟨"v[1] = \"own\"", 6, none⟩]
  have htext : LogicalLine.ofText {}
      "v[0] = \"root\"\n<s>\nv = \"a\", \"b\", \"c\"\n<t>\n<s>\nv[1] = \"own\"" =
        front ++ body := by
    decide +kernel
  have hrun := EStateM.Result.exists_of_passes
    (compileLines {} front { engine := ({} : Interpreter) })
    (fun _ p => (compileLines {} body p).passes fun _ q =>
      (assignAll ⟨7, q.cursor.current⟩ none [("w[0]", "v[0]")] q.recording).passes fun _ r =>
        decide (q.cursor.current.qualify "v[0]" = "s.v[0]" ∧
          q.cursor.current.qualify "v[1]" = "s.v[1]" ∧
          q.cursor.current.qualify "v[2]" = "s.v[2]" ∧
          r.played.existingLength? "v" = some 3 ∧
          (p.assignments {} body).map Assignment.global ++ r.engine.reports =
            ["s.v[1]", "s.w[0]"] ∧
          (r.played.engine.globals["v[0]"]?.bind Value.string?) = some "root" ∧
          (r.played.engine.globals["s.v[1]"]?.bind Value.string?) = some "own" ∧
          r.played.engine.globals["v[2]"]?.isNone = true))
    (by decide +kernel)
  obtain ⟨⟨⟩, p, hstart, hpasses⟩ := hrun
  obtain ⟨⟨⟩, q, h, hpasses⟩ := EStateM.Result.exists_of_passes _ _ hpasses
  obtain ⟨⟨⟩, r, hline, hpasses⟩ := EStateM.Result.exists_of_passes _ _ hpasses
  obtain ⟨hzero, hone, htwo, hlength, hassigned, hroot, hown, hnone⟩ := of_decide_eq_true hpasses
  have hquotes : ∀ pair ∈ [("w[0]", "v[0]")], Scan.QuotesPaired pair.2.toList := by decide
  have hbase : IsDottedName "v".toList := .segment (by decide)
  have hreads := fun i hi hindex =>
    eval_element_of_known_vector (i := i) (by decide) (by decide) hstart h hquotes hline hbase
      hlength hi (Target.key_number (x := Float.ofScientific i false 0) hindex _ [])
  refine ⟨q, r, ?_, hline, hlength, ?_, ?_, ?_⟩
  · rw [htext, compileLines_append]
    exact EStateM.bind_eq_ok_iff.2 ⟨(), p, hstart, h⟩
  · have hname : q.cursor.current.qualify (elementName "v" 0) = "s.v[0]" := hzero
    exact ((hreads 0 (by decide) (by decide +kernel)).2
      (by rw [hname, hassigned]; decide)).1 _ (eq_string_of_bind hroot)
  · have hname : q.cursor.current.qualify (elementName "v" 1) = "s.v[1]" := hone
    obtain ⟨value, hvalue, hread⟩ := (hreads 1 (by decide) (by decide +kernel)).1
      (by rw [hname, hassigned]; decide)
    rw [hname, eq_string_of_bind hown] at hvalue
    rw [← Option.some.inj hvalue] at hread
    exact hread
  · have hname : q.cursor.current.qualify (elementName "v" 2) = "s.v[2]" := htwo
    exact (((hreads 2 (by decide) (by decide +kernel)).2
      (by rw [hname, hassigned]; decide)).2 (Option.isNone_iff_eq_none.1 hnone)).1

/-- A vector that an earlier section of the suit assigned is known below the second header of the
suit, with its length, but none of its elements is found, so that no slice can be filled with them.
-/
theorem second_header_hides_known_vector :
    (∃ q : Progress Interpreter,
      compileLines {} (LogicalLine.ofText {} "<s>\nv = \"a\", \"b\"\n<t>\n<s>")
        { engine := ({} : Interpreter) } = .ok () q ∧
      q.existingLength? "v" = some 2 ∧
      (Expr.element "v" (.number (Float.ofScientific 0 false 0))).eval q.scope [] =
        .error (.undefinedName "v[0]") []) ∧
      ∃ location vm, compile {} "<s>\nv = \"a\", \"b\"\n<t>\n<s>\nw[:] = v[:]" ({} : Interpreter) =
        .error (.expression location "s.w[0] = v[0]" none (.undefinedName "v[0]")) vm := by
  constructor
  · obtain ⟨⟨⟩, q, h, hstate⟩ := EStateM.Result.exists_of_passes
      (compileLines {} (LogicalLine.ofText {} "<s>\nv = \"a\", \"b\"\n<t>\n<s>")
        { engine := ({} : Interpreter) })
      (fun _ q => q.existingLength? "v" == some 2 &&
        ((Expr.element "v" (.number (Float.ofScientific 0 false 0))).eval q.scope []).fails
          fun (e : EvalError) output => decide (e.undefined? = some "v[0]" ∧ output = []))
      (by decide +kernel)
    rw [Bool.and_eq_true, beq_iff_eq] at hstate
    obtain ⟨e, output, heval, hundefined⟩ := EStateM.Result.exists_of_fails _ _ hstate.2
    obtain ⟨hname, rfl⟩ := of_decide_eq_true hundefined
    obtain rfl := EvalError.undefined?_eq_some_iff.1 hname
    exact ⟨q, h, hstate.1, heval⟩
  · obtain ⟨e, vm, h, hundefined⟩ := EStateM.Result.exists_of_fails
      (compile {} "<s>\nv = \"a\", \"b\"\n<t>\n<s>\nw[:] = v[:]" ({} : Interpreter))
      (fun e _ => decide (e.undefined? = some ("s.w[0] = v[0]", "v[0]")))
      (by decide +kernel)
    obtain ⟨location, rfl⟩ := DeckError.exists_of_undefined? (of_decide_eq_true hundefined)
    exact ⟨location, vm, h⟩

end Progress

end InputDeck
