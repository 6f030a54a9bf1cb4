import InputDeck.Text.Cut

/-!
# Suit paths

A suit is a node of a tree of names. Its path is written with slashes, `materials/steel`, and its
cards are known to the evaluator under dotted names, `materials.steel.density`. The root suit has
the path `/`, and its cards have no dots in front.

A path is kept in canonical form: no dots, and no slash at either end, but for the root. So two
paths are the same suit exactly when they have the same text.
-/

namespace InputDeck

namespace SuitPath

/-- A dot separates segments as a slash does. -/
def slashed (c : Char) : Char := if c = '.' then '/' else c

/-- A slash of a path is a dot of the evaluator's names. -/
def dotted (c : Char) : Char := if c = '/' then '.' else c

/-- Whether a character is the separator of a path. -/
def isSlash (c : Char) : Bool := c == '/'

/-- The canonical spelling: slashes for dots, none at the ends, and a slash for the root. -/
def canonical (cs : List Char) : List Char :=
  match Text.trim isSlash (cs.map slashed) with
  | [] => ['/']
  | trimmed => trimmed

/-- The canonical spellings of the paths of suits. -/
structure IsCanonical (cs : List Char) : Prop where
  /-- No dot separates segments. -/
  dot_notMem : '.' ∉ cs
  /-- No slash stands at either end, but for the root. -/
  ends : cs = ['/'] ∨ cs ≠ [] ∧ cs.head? ≠ some '/' ∧ cs.getLast? ≠ some '/'

/-- No slashed text has a dot. -/
theorem dot_notMem_map_slashed (cs : List Char) : '.' ∉ cs.map slashed := by
  simp only [List.mem_map, slashed, not_exists, not_and]
  intro c _
  split
  · decide
  · assumption

/-- Slashes change nothing in a text without dots. -/
theorem map_slashed_of_dot_notMem {cs : List Char} (h : '.' ∉ cs) : cs.map slashed = cs := by
  conv => rhs; rw [← List.map_id cs]
  apply List.map_congr_left
  intro c hc
  have hdot : c ≠ '.' := fun hdot => h (hdot ▸ hc)
  simp [slashed, hdot]

/-- The canonical spelling is canonical. -/
theorem isCanonical_canonical (cs : List Char) : IsCanonical (canonical cs) := by
  unfold canonical
  split
  · exact ⟨by decide, .inl rfl⟩
  · next hne =>
    refine ⟨fun hdot => dot_notMem_map_slashed cs ((Text.trim_sublist _ _).subset hdot),
      .inr ⟨hne, fun hhead => ?_, fun hlast => ?_⟩⟩
    · simpa [isSlash] using Text.head?_trim hhead
    · simpa [isSlash] using Text.getLast?_trim hlast

/-- A canonical spelling is its own. -/
theorem IsCanonical.canonical_eq {cs : List Char} (h : IsCanonical cs) : canonical cs = cs := by
  rw [canonical, map_slashed_of_dot_notMem h.dot_notMem]
  rcases h.ends with rfl | ⟨hne, hhead, hlast⟩
  · rfl
  · have htrim : Text.trim isSlash cs = cs := by
      apply Text.trim_eq_self
      · intro c hc
        have hslash : c ≠ '/' := fun hslash => hhead (hslash ▸ hc)
        simp [isSlash, hslash]
      · intro c hc
        have hslash : c ≠ '/' := fun hslash => hlast (hslash ▸ hc)
        simp [isSlash, hslash]
    rw [htrim]
    cases cs with
    | nil => exact absurd rfl hne
    | cons c cs => rfl

end SuitPath

/-- The place of a suit in the tree of names. -/
structure SuitPath where
  /-- The path, with slashes between its segments. -/
  text : String
  /-- The path is spelled in its canonical form. -/
  isCanonical : SuitPath.IsCanonical text.toList
  deriving DecidableEq, Repr

namespace SuitPath

/-- The suit that a text names, with dots or slashes between its segments. -/
def ofString (path : String) : SuitPath where
  text := String.ofList (canonical path.toList)
  isCanonical := by
    rw [String.toList_ofList]
    exact isCanonical_canonical path.toList

/-- The top of the tree. -/
def root : SuitPath where
  text := "/"
  isCanonical := ⟨by decide, .inl rfl⟩

instance : Inhabited SuitPath := ⟨root⟩

/-- Whether a suit is the top of the tree. -/
def isRoot (p : SuitPath) : Bool := p.text == "/"

/-- The dotted spelling of a path; the root has none. -/
def dotted? (p : SuitPath) : Option String :=
  if p.isRoot then none else some (String.ofList (p.text.toList.map dotted))

/-- What stands in front of the names of a suit's cards to make them global. -/
def globalPrefix (p : SuitPath) : String :=
  match p.dotted? with
  | some path => path ++ "."
  | none => ""

/-- The global name of a card. -/
def qualify (p : SuitPath) (name : String) : String := p.globalPrefix ++ name

/-- The rest of a list behind a part it begins with. -/
def stripFront : List Char → List Char → Option (List Char)
  | [], cs => some cs
  | _ :: _, [] => none
  | d :: ds, c :: cs => if d = c then stripFront ds cs else none

/-- The name within a suit of what has a global name, when it belongs to the suit. -/
def localize (p : SuitPath) (name : String) : Option String :=
  (stripFront p.globalPrefix.toList name.toList).map String.ofList

/-- The path above the last segment; the top segments have the empty one. -/
def parentText (p : SuitPath) : List Char :=
  match Text.cutLast '/' p.text.toList with
  | some (parent, _) => parent
  | none => []

/-- The path with its last segment replaced, or dropped when nothing replaces it. -/
def sibling (p : SuitPath) (rest : String) : SuitPath :=
  let rest := Text.trim isSlash rest.toList
  let parent := p.parentText
  if parent = [] then ofString (String.ofList rest)
  else if rest = [] then ofString (String.ofList parent)
  else ofString (String.ofList (parent ++ '/' :: rest))

/-- The order of paths by their characters. -/
def le (p q : SuitPath) : Bool := decide (p.text ≤ q.text)

/-- The suit and the name of the card that a global name stands for: the last dot separates them. -/
def splitGlobal (name : String) : SuitPath × String :=
  match Text.cutLast '.' name.toList with
  | some (suit, card) => (ofString (String.ofList suit), String.ofList card)
  | none => (root, name)

/-- The text of a path names it. -/
@[simp] theorem ofString_text (p : SuitPath) : ofString p.text = p := by
  obtain ⟨text, h⟩ := p
  simp [ofString, h.canonical_eq]

@[simp] theorem root_isRoot : root.isRoot = true := rfl

@[simp] theorem globalPrefix_root : root.globalPrefix = "" := rfl

@[simp] theorem qualify_root (name : String) : root.qualify name = name := by
  simp [qualify]

/-- A part is stripped from the front of exactly the lists that begin with it. -/
theorem stripFront_eq_some_iff {front cs rest : List Char} :
    stripFront front cs = some rest ↔ cs = front ++ rest := by
  induction front generalizing cs with
  | nil => simp [stripFront]
  | cons d ds ih =>
    cases cs with
    | nil => simp [stripFront]
    | cons c cs =>
      by_cases h : d = c
      · simp [stripFront, h, ih]
      · simpa [stripFront, h] using fun hc => absurd hc.symm h

/-- Nothing is stripped from the front of all other lists. -/
theorem stripFront_eq_none_iff {front cs : List Char} :
    stripFront front cs = none ↔ ∀ rest, cs ≠ front ++ rest := by
  simp only [Option.eq_none_iff_forall_ne_some, ne_eq, stripFront_eq_some_iff]

/-- The name within a suit and the global name of a card determine each other. -/
theorem localize_eq_some_iff {p : SuitPath} {name card : String} :
    p.localize name = some card ↔ name = p.qualify card := by
  simp only [localize, Option.map_eq_some_iff, stripFront_eq_some_iff, qualify]
  constructor
  · rintro ⟨cs, h, rfl⟩
    apply String.toList_inj.1
    simpa using h
  · rintro rfl
    exact ⟨card.toList, by simp, by simp⟩

@[simp] theorem localize_qualify (p : SuitPath) (card : String) :
    p.localize (p.qualify card) = some card :=
  localize_eq_some_iff.2 rfl

end SuitPath

end InputDeck
