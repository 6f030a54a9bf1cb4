import InputDeck.Expr.Interpreter
import InputDeck.Proofs.Compile.Simulation
import InputDeck.Proofs.Slice.OneSlice
import InputDeck.Proofs.Text.Bytes
import InputDeck.Proofs.Text.Stripped

/-!
# Lines that assign lists

A list can be assigned to a name, which makes it a vector, or to slices. A name and the slice of its
whole vector get the same assignments, though one line is split into items when it is classified and
the other when its slices are expanded. A slice with two bounds gets as many items as both of them
have.
-/

namespace InputDeck

open InputDeck.Text InputDeck.Number InputDeck.Scan

namespace Token.IsSegment

variable {cs : List Char}

/-- A segment of a name has no blanks, quotes and signs. -/
theorem ne_of_mem (h : Token.IsSegment cs) {c : Char} (hc : c ∈ cs) :
    isBlank c = false ∧ c ≠ '"' ∧ c ≠ '=' := by
  refine ⟨Token.isBlank_of_isNamePart (h.isNamePart c hc), ?_, ?_⟩
  all_goals
    rintro rfl
    exact h.notMem (by decide) hc

/-- A segment of a name leaves nothing open. -/
theorem after_eq (h : Token.IsSegment cs) : State.after {} cs = {} :=
  State.after_eq_self (.of_notMem (h.notMem (by decide))) (h.notMem_outside (by decide))
    (h.notMem_outside (by decide))

/-- Behind a segment of a name, a text is looked through for a colon as if it stood alone. -/
theorem cutUnquoted_colon (h : Token.IsSegment cs) (ds : List Char) :
    cutUnquoted ':' {} (cs ++ ds) =
      (cutUnquoted ':' {} ds).map fun parts => (cs ++ parts.1, parts.2) := by
  have hnone : cutUnquoted ':' {} cs = none :=
    cutUnquoted_eq_none (by decide) (h.notMem_outside (by decide))
  rw [cutUnquoted_append hnone, h.after_eq]

/-- Behind a segment of a name, the brackets of a text come in pairs as if it stood alone. -/
theorem bracketsBalanced_append (h : Token.IsSegment cs) (ds : List Char) :
    bracketsBalanced (cs ++ ds) = bracketsBalanced ds := by
  have happend : bracketsBalanced (cs ++ ds) = balancedFrom (State.after {} cs) ds :=
    balancedFrom_append_of_notMem (h.notMem_outside (by decide)) (h.notMem_outside (by decide)) ds
  rwa [h.after_eq] at happend

/-- A line that begins with a segment of a name is no header. -/
theorem isHeader_append {settings : Settings} {name : String} (h : Token.IsSegment name.toList)
    (hopen : Token.isNameStart settings.suitOpen = false) (behind : String) :
    SuitCursor.isHeader settings (name ++ behind) = false := by
  obtain ⟨c, rest, hcons, hstart⟩ := h.head
  have hne : c ≠ settings.suitOpen := by
    rintro rfl
    rw [hopen] at hstart
    cases hstart
  simp [SuitCursor.isHeader, hcons, hne]

end Token.IsSegment

namespace CardLine

variable {name value : String} {item items : List Char}

/-- The items of a list are no longer than the list. -/
theorem length_le_of_listText? {cs : List Char} (h : listText? cs = some items) :
    items.length ≤ cs.length := by
  rw [listText?] at h
  split at h
  · next inner hliteral =>
    obtain ⟨rfl, -⟩ := bracketLiteral?_eq_some_iff.1 hliteral
    obtain rfl := Option.some.inj h
    simp
    omega
  · split at h
    · obtain rfl := Option.some.inj h
      exact Nat.le_refl _
    · cases h

/-- A list is not empty, since it has brackets or a comma. -/
private theorem ne_nil_of_listText? (h : listText? item = some items) : item ≠ [] := by
  rintro rfl
  cases h

/-- The assignment of a list to a name makes a vector. -/
theorem ofText_vector (hname : Token.IsSegment name.toList)
    (hstrip : stripUnquoted value.toList = some item) (hbalanced : bracketsBalanced item = true)
    (hcolon : hasColon item = false) (hlist : listText? item = some items)
    (hitems : [] ∉ splitTopLevel ',' items) (location : Location) :
    ofText (name ++ " = " ++ value) location =
      .ok (.vector name ((splitTopLevel ',' items).map String.ofList)) := by
  obtain ⟨c, rest, hcons, -⟩ := hname.head
  have hbrackets := hname.bracketsBalanced_append []
  have hnoColon := hname.cutUnquoted_colon []
  rw [List.append_nil] at hbrackets hnoColon
  rw [ofText_sides (fun c => hname.ne_of_mem) hstrip, ofSides,
    if_neg (not_or.2 ⟨by simp [hcons], ne_nil_of_listText? hlist⟩),
    if_neg (hname.notMem (by decide)), hbrackets, hbalanced, hasColon, hnoColon, hcolon, hlist]
  simp [hname.notMem (c := '[') (by decide), hitems, bracketsBalanced, balancedFrom, cutUnquoted]

/-- The assignment of a list to the slice of a whole vector has to be expanded. -/
theorem ofText_slice_whole (hname : Token.IsSegment name.toList)
    (hstrip : stripUnquoted value.toList = some item) (hbalanced : bracketsBalanced item = true)
    (hlist : listText? item = some items) (location : Location) :
    ofText (name ++ "[:]" ++ " = " ++ value) location =
      .ok (.slice (name ++ "[:]") (String.ofList item)) := by
  have hchars : ∀ c ∈ (name ++ "[:]").toList, isBlank c = false ∧ c ≠ '"' ∧ c ≠ '=' := by
    intro c hc
    rcases List.mem_append.1 (String.toList_append ▸ hc) with hc | hc
    · exact hname.ne_of_mem hc
    · obtain rfl | rfl | rfl : c = '[' ∨ c = ':' ∨ c = ']' := by simpa using hc
      all_goals decide
  have htext : (name ++ "[:]").toList = name.toList ++ ['[', ':', ']'] := by simp
  have hcomma : ',' ∉ name.toList ++ ['[', ':', ']'] := by
    simpa using hname.notMem (c := ',') (by decide)
  rw [ofText_sides hchars hstrip, ofSides,
    if_neg (not_or.2 ⟨by simp, ne_nil_of_listText? hlist⟩), htext, if_neg hcomma,
    hname.bracketsBalanced_append, hbalanced, hasColon, hname.cutUnquoted_colon, ← htext,
    String.ofList_toList]
  rfl

end CardLine

namespace Progress

variable {σ : Type} [Evaluator σ] {settings : Settings} {p : Progress σ} {name list : String}
  {number : Nat} {comment : Option String}

section

variable {item items : List Char} (hopen : Token.isNameStart settings.suitOpen = false)
  (hname : Token.IsSegment name.toList) (hstrip : stripUnquoted list.toList = some item)
  (hbalanced : bracketsBalanced item = true) (hlist : CardLine.listText? item = some items)

include hopen hname hstrip hbalanced hlist

/-- A list that is assigned to a name is assigned item by item to a vector. -/
theorem compileLine_vector (hcolon : CardLine.hasColon item = false)
    (hitems : [] ∉ splitTopLevel ',' items) :
    compileLine settings ⟨name ++ " = " ++ list, number, comment⟩ p =
      assignAll (p.cursor.locate number) comment
        (elementAssignments name ((splitTopLevel ',' items).map String.ofList)) p := by
  refine compileLine_of_pairs ?_
    (CardLine.ofText_vector hname hstrip hbalanced hcolon hlist hitems _) (by simp) rfl
  rw [String.append_assoc]
  exact hname.isHeader_append hopen _

/-- A list that is assigned to the slice of a whole vector is assigned item by item as well. -/
theorem compileLine_slice_whole (hlength : (splitTopLevel ',' items).length < wordLimit) :
    compileLine settings ⟨name ++ "[:] = " ++ list, number, comment⟩ p =
      assignAll (p.cursor.locate number) comment
        (elementAssignments name ((splitTopLevel ',' items).map String.ofList)) p := by
  have htext : name ++ "[:] = " ++ list = name ++ "[:]" ++ " = " ++ list :=
    String.toList_inj.1 (by simp)
  rw [htext]
  refine compileLine_of_pairs ?_ (CardLine.ofText_slice_whole hname hstrip hbalanced hlist _)
    (by simp) (Slice.expand_whole_items hname hlist hlength)
  rw [String.append_assoc, String.append_assoc]
  exact hname.isHeader_append hopen _

end

/--
A list is assigned to the slice of a whole vector as it is assigned to its name: one statement per
item, without the blanks outside the quotes of the item. So a line of either kind does the same to
every evaluator, and leaves the same behind, whatever vectors exist. The bound on the length of the
list is that of any text that a machine holds.
-/
theorem compileLine_list_whole {items : List Char}
    (hopen : Token.isNameStart settings.suitOpen = false) (hname : Token.IsSegment name.toList)
    (hbalanced : bracketsBalanced list.toList = true) (hpaired : QuotesPaired list.toList)
    (hcolon : ':' ∉ outside false list.toList)
    (hlist : CardLine.listText? list.toList = some items)
    (hitems : ∀ item ∈ splitTopLevel ',' items, ∃ c ∈ item, isBlank c = false)
    (hlength : byteLength list.toList < wordLimit) :
    compileLine settings ⟨name ++ " = " ++ list, number, comment⟩ p =
        compileLine settings ⟨name ++ "[:] = " ++ list, number, comment⟩ p ∧
      compileLine settings ⟨name ++ " = " ++ list, number, comment⟩ p =
        assignAll (p.cursor.locate number) comment
          (elementAssignments name
            ((splitTopLevel ',' items).map fun item => String.ofList (stripped false item))) p := by
  have hstrip := stripUnquoted_eq_some hpaired
  have hclosed := (balancedFrom_stripped {} list.toList).trans hbalanced
  have hstripped := listText?_stripped hlist
  have hpieces : splitTopLevel ',' (stripped false items) =
      (splitTopLevel ',' items).map (stripped false) :=
    splitTopLevel_stripped (by decide) (by decide) items
  have hnonempty : [] ∉ splitTopLevel ',' (stripped false items) := by
    rw [hpieces]
    intro hmem
    obtain ⟨piece, hpiece, hnil⟩ := List.mem_map.1 hmem
    obtain ⟨c, hc, hblank⟩ := hitems piece hpiece
    exact stripped_ne_nil hc hblank false hnil
  -- No item is empty, so that there are no more of them than the list has bytes.
  have hcount : (splitTopLevel ',' (stripped false items)).length < wordLimit := by
    have hle : (splitTopLevel ',' items).length ≤ items.length := by
      refine length_splitTopLevel_le fun piece hpiece => ?_
      obtain ⟨c, hc, -⟩ := hitems piece hpiece
      exact List.ne_nil_of_mem hc
    have hinner := CardLine.length_le_of_listText? hlist
    have hbytes := length_le_byteLength list.toList
    rw [hpieces, List.length_map]
    omega
  have hnames : (splitTopLevel ',' items).map (fun item => String.ofList (stripped false item)) =
      (splitTopLevel ',' (stripped false items)).map String.ofList := by
    rw [hpieces, List.map_map]
    rfl
  rw [compileLine_vector hopen hname hstrip hclosed hstripped (hasColon_stripped hcolon) hnonempty,
    compileLine_slice_whole hopen hname hstrip hclosed hstripped hcount, hnames]
  exact ⟨rfl, rfl⟩

/-- Quoted commas and those in brackets and calls divide no items, either way. -/
theorem compileLine_list_whole_three :
    let start : Progress Interpreter := { engine := {} }
    let vector : LogicalLine := ⟨"v = \"a, b\" , [1, 2], max(3, 4)", 1, none⟩
    let slice : LogicalLine := ⟨"v[:] = \"a, b\" , [1, 2], max(3, 4)", 1, none⟩
    compileLine {} vector start = compileLine {} slice start ∧
      compileLine {} vector start = assignAll (start.cursor.locate 1) none
        [("v[0]", "\"a, b\""), ("v[1]", "[1,2]"), ("v[2]", "max(3,4)")] start := by
  intro start vector slice
  have hlist : CardLine.listText? "\"a, b\" , [1, 2], max(3, 4)".toList =
      some "\"a, b\" , [1, 2], max(3, 4)".toList := by decide +kernel
  have hitems : ∀ item ∈ splitTopLevel ',' "\"a, b\" , [1, 2], max(3, 4)".toList,
      ∃ c ∈ item, isBlank c = false := by
    have hvisible : (splitTopLevel ',' "\"a, b\" , [1, 2], max(3, 4)".toList).all
        (·.any (!isBlank ·)) = true := by decide +kernel
    simpa using hvisible
  obtain ⟨hsame, hsent⟩ := @compileLine_list_whole _ _ {} start "v"
    "\"a, b\" , [1, 2], max(3, 4)" 1 none _ (by decide) (by decide) (by decide +kernel)
    (by decide +kernel) (by decide +kernel) hlist hitems (by decide +kernel)
  exact ⟨hsame, hsent⟩

/-- The items of a list go to a slice with two bounds one by one, until the slice or the list ends.
So a list is never refused for being too short, and the end of the slice gets nothing then. -/
theorem compileLine_list_between {line : LogicalLine} {value : String} {leading tail : List Char}
    {lower upper : Nat} {items : List (List Char)}
    (hheader : SuitCursor.isHeader settings line.text = false)
    (hcard : CardLine.ofText line.text (p.cursor.locate line.number) = .ok (.slice name value))
    (htarget : Slice.IsTarget name.toList ⟨[⟨leading, lower, some upper⟩], tail⟩)
    (hsource : Slice.IsSource value.toList (.items items)) :
    (∀ location existing, Slice.expand location existing name value =
        .ok (Slice.itemAssignments leading tail lower (items.take (upper - lower)))) ∧
      compileLine settings line p =
        assignAll (p.cursor.locate line.number) line.comment
          (Slice.itemAssignments leading tail lower (items.take (upper - lower))) p := by
  have hexpand : ∀ location existing, Slice.expand location existing name value =
      .ok (Slice.itemAssignments leading tail lower (items.take (upper - lower))) :=
    fun _ _ => Slice.expand_items ⟨leading, lower, some upper⟩ htarget hsource (by rintro ⟨⟩)
  exact ⟨hexpand, compileLine_of_pairs hheader hcard (by simp) (hexpand _ _)⟩

/-- Two items are assigned to the first two of three elements. -/
theorem compileLine_list_between_short :
    let start : Progress Interpreter := { engine := {} }
    let line : LogicalLine := ⟨"v[0:3] = 1, 2", 1, none⟩
    compileLine {} line start =
      assignAll (start.cursor.locate 1) none [("v[0]", "1"), ("v[1]", "2")] start := by
  intro start line
  have hcard : CardLine.ofText line.text (start.cursor.locate line.number) =
      .ok (.slice "v[0:3]" "1,2") := Except.toOption_eq_some_iff.1 (by decide +kernel)
  have htarget : Slice.IsTarget "v[0:3]".toList ⟨[⟨['v'], 0, some 3⟩], []⟩ :=
    (Slice.isTarget_iff ⟨1, .root⟩).2
      ⟨⟨[⟨['v'], 0, some 3⟩], []⟩, Except.toOption_eq_some_iff.1 (by decide +kernel), rfl⟩
  have hsource : Slice.IsSource "1,2".toList (.items [['1'], ['2']]) :=
    (@Slice.isSource_iff ⟨1, .root⟩ _ _).2 (Except.toOption_eq_some_iff.1 (by decide +kernel))
  exact (compileLine_list_between (by decide) hcard htarget hsource).2

/-- A list with fewer items than the slice has elements is not refused: some are assigned. -/
theorem short_list_is_no_mismatch :
    Slice.expand ⟨1, .root⟩ (fun _ => none) "v[0:3]" "1,2" = .ok [("v[0]", "1"), ("v[1]", "2")] ∧
      ∃ compiled vm, compile {} "v[0:3] = 1, 2" ({} : Interpreter) = .ok compiled vm ∧
        vm.globals.keys = ["v[0]", "v[1]"] := by
  refine ⟨Except.toOption_eq_some_iff.1 (by decide +kernel), ?_⟩
  obtain ⟨compiled, vm, h, hkeys⟩ := EStateM.Result.exists_of_passes
    (compile {} "v[0:3] = 1, 2" ({} : Interpreter))
    (fun _ vm => vm.globals.keys == ["v[0]", "v[1]"]) (by decide +kernel)
  exact ⟨compiled, vm, h, beq_iff_eq.1 hkeys⟩

end Progress

end InputDeck
