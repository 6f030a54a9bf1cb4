import InputDeck.Proofs.Compile.ElementKeys
import InputDeck.Proofs.Compile.Lists
import InputDeck.Proofs.Compile.Rereading
import InputDeck.Proofs.Deck.Bindings
import InputDeck.Proofs.Text.ExpressionLines
import InputDeck.Proofs.Text.WrittenLists
import InputDeck.Proofs.Value.Literals

/-!
# Lists of literals in builds

A list of literals that is assigned to a name below the header of a suit becomes the first elements
of the vector of that name. Every literal is sent in a statement of its own and is read as the value
that it spells, whatever stands between its quotes, and all other cards stay as they are, the
elements behind the list among them. The evaluator reads an index as a double, so a list with more
items than indices that doubles hold puts several of them in one place; no text in the memory of a
machine is that long.
-/

namespace InputDeck

open InputDeck.Text InputDeck.Number InputDeck.Scan

/-- A list of texts in brackets. -/
def bracketList (texts : List String) : String := "[" ++ ", ".intercalate texts ++ "]"

/-- The characters of a list in brackets. -/
theorem toList_bracketList (texts : List String) :
    (bracketList texts).toList =
      '[' :: [',', ' '].intercalate (texts.map String.toList) ++ [']'] := by
  simp [bracketList]

section

variable {texts : List String} (h : ∀ text ∈ texts, Value.IsWritten text.toList) {base : String}
  (hbase : Token.IsSegment base.toList)

include h hbase

/-- A name and a list in brackets make one logical line. -/
theorem LogicalLine.ofText_bracketList :
    ofText {} (base ++ " = " ++ bracketList texts) =
      [⟨base ++ " = " ++ bracketList texts, 1, none⟩] := by
  have hlisted := Value.IsListed.intercalate (List.forall_mem_map.2 h)
  have hbrackets : IsPlain ['['] ∧ IsPlain [']'] := by decide
  have hplain : IsPlain (bracketList texts).toList := by
    rw [toList_bracketList]
    exact (hbrackets.1.append hlisted.plain).append hbrackets.2
  have hpaired := hlisted.quotesPaired_bracket
  have hmark := hlisted.notMem_outside_bracket (c := '#') (by decide) (by decide) (by decide)
    (by decide) (by decide)
  rw [← toList_bracketList] at hpaired hmark
  have hbody := IsCardName.isBody_assignment Settings.isUsable_default (.segment hbase) hplain
    ⟨_, ']', toList_bracketList texts, by decide, by decide⟩ hmark hpaired
  have hline := ofText_body Settings.isUsable_default hbody 0
  have htext : String.ofList (base.toList ++ ' ' :: '=' :: ' ' :: (bracketList texts).toList) =
      base ++ " = " ++ bracketList texts := by
    apply String.toList_inj.1
    simp
  rwa [List.replicate_zero, List.append_nil, htext] at hline

/-- A name and a list in brackets assign the texts of the list to the elements of the name. -/
theorem Progress.compileLine_bracketList (hne : texts ≠ []) (number : Nat)
    (comment : Option String) (p : Progress Interpreter) :
    compileLine {} ⟨base ++ " = " ++ bracketList texts, number, comment⟩ p =
      assignAll (p.cursor.locate number) comment (elementAssignments base texts) p := by
  have hitems := List.forall_mem_map.2 h
  have hlisted := Value.IsListed.intercalate hitems
  have hlist : CardLine.listText? (bracketList texts).toList =
      some ([',', ' '].intercalate (texts.map String.toList)) := by
    rw [CardLine.listText?,
      bracketLiteral?_eq_some_iff.2 ⟨toList_bracketList texts, hlisted.isEnclosed⟩]
  have hpaired := hlisted.quotesPaired_bracket
  have hbalanced := hlisted.bracketsBalanced_bracket
  have hcolon := hlisted.notMem_outside_bracket (c := ':') (by decide) (by decide) (by decide)
    (by decide) (by decide)
  rw [← toList_bracketList] at hpaired hbalanced hcolon
  have hsplit : splitTopLevel ',' (stripped false ([',', ' '].intercalate
      (texts.map String.toList))) = texts.map String.toList := by
    rw [Value.IsWritten.stripped_intercalate hitems,
      Value.IsWritten.splitTopLevel_intercalate (by simpa using hne) hitems]
  have hnonempty : [] ∉ texts.map String.toList := by
    intro hnil
    obtain ⟨c, rest, hcons, -⟩ := (hitems [] hnil).head
    cases hcons
  have hsame : (texts.map String.toList).map String.ofList = texts := by
    simp [Function.comp_def]
  rw [compileLine_vector (by decide) hbase (stripUnquoted_eq_some hpaired)
    ((balancedFrom_stripped {} _).trans hbalanced) (listText?_stripped hlist)
    (hasColon_stripped hcolon) (by rwa [hsplit]), hsplit, hsame]

end

/-- What a list of values, which is assigned in a line without a comment, binds the elements of a
vector to. -/
def elementBindings (vector : String) (values : List Value) (line : Nat) : List Binding :=
  values.zipIdx.map fun (v, index) => ⟨elementName vector (heldIndex index), v, ⟨line, none⟩⟩

section

variable {vector : String} {values : List Value} {line : Nat}

/-- The bindings of a list are those of its items. -/
theorem mem_elementBindings {b : Binding} : b ∈ elementBindings vector values line ↔
    ∃ i, ∃ h : i < values.length,
      b = ⟨elementName vector (heldIndex i), values[i], ⟨line, none⟩⟩ := by
  rw [elementBindings, List.mem_map]
  constructor
  · rintro ⟨⟨v, index⟩, hmem, rfl⟩
    obtain ⟨hindex, hv⟩ := List.mem_zipIdx' hmem
    exact ⟨index, hindex, by rw [← hv]⟩
  · rintro ⟨i, h, rfl⟩
    exact ⟨(values[i], i), by simp [List.mem_zipIdx_iff_getElem?], rfl⟩

/-- An item of a list gives its element its last value, unless a later one has the same held
index. -/
theorem last?_elementBindings {i : Nat} (hi : i < values.length)
    (hlast : ∀ j, i < j → j < values.length → heldIndex j ≠ heldIndex i) :
    Binding.last? (elementBindings vector values line) (elementName vector (heldIndex i)) =
      some ⟨elementName vector (heldIndex i), values[i], ⟨line, none⟩⟩ := by
  have hlength : i < (elementBindings vector values line).length := by
    simpa [elementBindings] using hi
  have hsplit : elementBindings vector values line =
      (elementBindings vector values line).take i ++
        ⟨elementName vector (heldIndex i), values[i], ⟨line, none⟩⟩ ::
          (elementBindings vector values line).drop (i + 1) := by
    have hitem : (elementBindings vector values line)[i] =
        ⟨elementName vector (heldIndex i), values[i], ⟨line, none⟩⟩ := by simp [elementBindings]
    rw [← hitem, ← List.drop_eq_getElem_cons, List.take_append_drop]
  rw [hsplit]
  unfold Binding.last?
  refine Table.lastNamed?_append_cons fun c hc => ?_
  obtain ⟨k, hk, rfl⟩ := List.mem_drop_iff_getElem.1 hc
  have hbound : i + 1 + k < values.length := by simpa [elementBindings, Nat.add_comm] using hk
  have hne := hlast (i + 1 + k) (by omega) hbound
  simpa [elementBindings, elementName_right_inj] using hne

end

/-- The text that assigns a list to a name below the header of a suit. -/
def listSection (path base : String) (texts : List String) : String :=
  "<" ++ path ++ ">" ++ "\n" ++ (base ++ " = " ++ bracketList texts)

section

variable {path base : String} (hpath : SuitPath.IsSegmentPath path.toList)
  (hbase : Token.IsSegment base.toList) {texts : List String} {values : List Value}
  (hliterals : List.Forall₂ IsLiteral texts values) (hlength : values.length < wordLimit)

include hpath hbase hliterals hlength

/-- The statements of the elements of a list of literals bind them to the values of the literals. -/
theorem Progress.sendsBinding_elementAssignments (line : Nat) :
    List.Forall₂ (fun pair b =>
      SendsBinding (assignment (SuitPath.ofString path) pair.1 pair.2) b ∧ b.origin = ⟨line, none⟩)
      (elementAssignments base texts)
      (elementBindings ((SuitPath.ofString path).qualify base) values line) := by
  obtain ⟨hsame, hliteral⟩ := List.forall₂_iff_get.1 hliterals
  refine List.forall₂_iff_get.2 ⟨by simp [elementAssignments, elementBindings, hsame], ?_⟩
  intro i htexts hvalues
  have htext : i < texts.length := by simpa [elementAssignments] using htexts
  have hreads := (hliteral i htext (hsame ▸ htext)).reads
  have hrun := Interpreter.interpret_elementName (hpath.isDottedName_qualify hbase)
    (hpath.qualify_ne base (by decide)) (hpath.qualify_ne base (by decide))
    (n := i) (by omega) hreads
  rw [SuitPath.elementName_qualify] at hrun
  simpa [elementAssignments, elementBindings, SendsBinding, assignment] using hrun

/-- A header and a list of literals bind the elements of the list, with one statement each. -/
theorem Progress.exists_listSection (hne : texts ≠ []) (p : Progress Interpreter) :
    ∃ q, compileLines {} (LogicalLine.ofText {} (listSection path base texts)) p = .ok () q ∧
      BindsAll p q (elementBindings ((SuitPath.ofString path).qualify base) values 2) := by
  have hwritten : ∀ text ∈ texts, Value.IsWritten text.toList := by
    intro text htext
    obtain ⟨hsame, hliteral⟩ := List.forall₂_iff_get.1 hliterals
    obtain ⟨i, hi, rfl⟩ := List.mem_iff_getElem.1 htext
    exact (hliteral i hi (hsame ▸ hi)).isWritten
  let entered := p.entered ⟨SuitPath.ofString path, some (SuitPath.ofString path)⟩
  have hheader : compileLine {} ⟨"<" ++ path ++ ">", 1, none⟩ p = .ok () entered :=
    compileLine_header rfl rfl rfl hpath
  have hsends := sendsBinding_elementAssignments hpath hbase hliterals hlength
    (entered.cursor.locate 2).line
  obtain ⟨q, hassign, hbinds⟩ := exists_assignAll (p := entered) hsends
  have hlist := compileLine_bracketList hwritten hbase hne 2 none entered
  rw [hassign] at hlist
  refine ⟨q, ?_, (BindsAll.of_eq rfl rfl rfl : BindsAll p entered []).trans hbinds⟩
  rw [listSection, LogicalLine.ofText_header hpath, LogicalLine.ofText_bracketList hwritten hbase]
  exact EStateM.bind_eq_ok_iff.2 ⟨(), entered, hheader,
    EStateM.bind_eq_ok_iff.2 ⟨(), q, hlist, rfl⟩⟩

end

namespace Deck

variable {deck built : Deck Interpreter} {suit : SuitPath} {base : String} {values : List Value}

/-- What a list that is assigned to a vector in the second line of a text makes of a deck. -/
structure TakesList (deck built : Deck Interpreter) (suit : SuitPath) (base : String)
    (values : List Value) : Prop where
  /-- The first elements hold the items of the list in order. -/
  element : ∀ i, ∀ h : i < values.length, built.store.card? suit (elementName base i) =
    some ⟨{ value := values[i], line := some 2 }, suit, elementName base i⟩
  /-- The elements behind the list keep their values, lines and comments. -/
  tail : ∀ i, values.length ≤ i → built.store.card? suit (elementName base i) =
    deck.store.card? suit (elementName base i)
  /-- So do all other cards. -/
  others : ∀ path name, (∀ i < values.length, (path, name) ≠ (suit, elementName base i)) →
    built.store.card? path name = deck.store.card? path name

/-- What it makes of a deck, whatever doubles hold: the items go to the elements with their held
indices, and of several in one place the last one stays. -/
structure TakesHeldList (deck built : Deck Interpreter) (suit : SuitPath) (base : String)
    (values : List Value) : Prop where
  /-- An element holds the last item with its held index. -/
  element : ∀ i, ∀ h : i < values.length,
    (∀ j, i < j → j < values.length → heldIndex j ≠ heldIndex i) →
      built.store.card? suit (elementName base (heldIndex i)) =
        some ⟨{ value := values[i], line := some 2 }, suit, elementName base (heldIndex i)⟩
  /-- All other cards keep their values, lines and comments. -/
  others : ∀ path name,
    (∀ i < values.length, (path, name) ≠ (suit, elementName base (heldIndex i))) →
      built.store.card? path name = deck.store.card? path name

/-- As long as doubles hold all indices of the list, its items stay in order. -/
theorem TakesHeldList.takesList (h : TakesHeldList deck built suit base values)
    (hheld : values.length ≤ 2 ^ 53 + 1) : TakesList deck built suit base values := by
  have hindex : ∀ i < values.length, heldIndex i = i := fun i hi => heldIndex_of_le (by omega)
  have hothers : ∀ path name, (∀ i < values.length, (path, name) ≠ (suit, elementName base i)) →
      built.store.card? path name = deck.store.card? path name := by
    intro path name hne
    refine h.others path name fun i hi => ?_
    rw [hindex i hi]
    exact hne i hi
  refine ⟨fun i hi => ?_, fun i hi => ?_, hothers⟩
  · have helement := h.element i hi fun j hij hj => by
      rw [hindex i hi, hindex j hj]
      omega
    rwa [hindex i hi] at helement
  · refine hothers suit _ fun j hj he => ?_
    have hsame := elementName_right_inj.1 (Prod.mk.inj he).2
    omega

/-- What the bindings of the items of a list make of a deck. -/
theorem Bound.takesHeldList (hbase : Token.IsSegment base.toList)
    (h : Bound deck built (elementBindings (suit.qualify base) values 2)) :
    TakesHeldList deck built suit base values := by
  have hdot : ∀ i, '.' ∉ (elementName base i).toList := by
    intro i
    have hname := (IsCardName.element hbase i).notMem (c := '.') (by decide) (by decide) (by decide)
    simpa [elementName, natText] using hname
  refine ⟨fun i hi hlast => ?_, fun path name hothers => ?_⟩
  · refine h.bound suit (elementName base (heldIndex i))
      ⟨elementName (suit.qualify base) (heldIndex i), values[i], ⟨2, none⟩⟩ (hdot _) ?_
    rw [← SuitPath.elementName_qualify]
    exact last?_elementBindings hi hlast
  · refine h.others path name fun b hb he => ?_
    obtain ⟨i, hi, rfl⟩ := mem_elementBindings.1 hb
    rw [SuitPath.elementName_qualify, SuitPath.splitGlobal_qualify suit (hdot _)] at he
    exact hothers i hi he.symm

/-- A list of literals that is assigned to a vector below the header of its suit is always built, in
a deck with the default settings, with as many statements as there are literals. The first elements
of the vector hold the values of the literals in order, the elements behind them and all other cards
stay as they are. The length of the list is a machine word. Beyond the first index that no double
holds, items with one held index would share an element; a list of that length takes more memory
than a process can address. -/
theorem build_listSection (hdeck : deck.Reachable) (hsettings : deck.settings = {}) {path : String}
    (hpath : SuitPath.IsSegmentPath path.toList) (hbase : Token.IsSegment base.toList)
    {texts : List String} (hne : texts ≠ []) (hliterals : List.Forall₂ IsLiteral texts values)
    (hlength : values.length < wordLimit) :
    ∃ built compiled vm,
      build (listSection path base texts) deck = .ok () built ∧
      compile deck.settings (listSection path base texts) deck.seed.engine = .ok compiled vm ∧
      compiled.statements = values.length ∧
      TakesHeldList deck built (.ofString path) base values ∧
      (values.length ≤ 2 ^ 53 + 1 → TakesList deck built (.ofString path) base values) := by
  obtain ⟨q, hlines, hbinds⟩ := Progress.exists_listSection hpath hbase hliterals hlength hne
    deck.start
  rw [← hsettings] at hlines
  obtain ⟨built, hbuild, hbound⟩ := exists_build_of_bindsAll hdeck.sound hlines hbinds
  have hheld := hbound.takesHeldList hbase
  refine ⟨built, q.compiled, q.engine, hbuild, compile_eq_ok_iff.2 ⟨q, hlines, rfl, rfl⟩, ?_, hheld,
    hheld.takesList⟩
  rw [hbinds.statements]
  simp [start, elementBindings]

/-- A negative number, a truth value and a text with marks and brackets take the place of the first
elements of a longer vector. -/
theorem build_listSection_three : ∃ deck built : Deck Interpreter, ∃ compiled vm,
    build "<s>\nv = 1, 2, 3, 4 # old" (empty {}) = .ok () deck ∧
      build (listSection "s" "v" ["-0.5", "true", "\"a, [b: #&\""]) deck = .ok () built ∧
      compile deck.settings (listSection "s" "v" ["-0.5", "true", "\"a, [b: #&\""])
        deck.seed.engine = .ok compiled vm ∧
      compiled.statements = 3 ∧
      TakesList deck built (.ofString "s") "v"
        [.number (-0.5), .boolean true, .string "a, [b: #&"] := by
  obtain ⟨⟨⟩, deck, hdeck⟩ := EStateM.Result.eq_ok_of_succeeds
    (r := build "<s>\nv = 1, 2, 3, 4 # old" (empty {})) (by decide +kernel)
  have hliterals : List.Forall₂ IsLiteral ["-0.5", "true", "\"a, [b: #&\""]
      [.number (-0.5), .boolean true, .string "a, [b: #&"] := by
    have hhalf : IsLiteral ("-" ++ "0.5") (.number (-0.5)) := .negative rfl
    have htext : IsLiteral ("\"" ++ "a, [b: #&" ++ "\"") (.string "a, [b: #&") :=
      .string (by decide) (by decide)
    exact .cons hhalf (.cons .trueName (.cons htext .nil))
  have hpath : SuitPath.IsSegmentPath "s".toList :=
    .segment (show Token.IsSegment ['s'] by decide)
  have hbase : Token.IsSegment "v".toList := Token.isSegment_iff.2 (by decide)
  obtain ⟨built, compiled, vm, hbuild, hcompile, hstatements, -, htakes⟩ :=
    build_listSection ⟨{}, .single (.build hdeck)⟩ (settings_of_build hdeck) hpath hbase
      (by decide) hliterals (by decide)
  exact ⟨deck, built, compiled, vm, hdeck, hbuild, hcompile, hstatements, htakes (by decide)⟩

end Deck

end InputDeck
