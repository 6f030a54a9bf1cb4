import InputDeck.Proofs.Expr.Names
import InputDeck.Proofs.Text.Visible
import InputDeck.Suit.Header

/-!
# Headers of segments

A header whose name is a path of segments leads to a suit that is one: an absolute path as it is,
and a relative one behind the parent of the last absolute suit.
-/

namespace InputDeck

open InputDeck.Text

/-- Two names with a dot between them are a name. -/
theorem IsDottedName.append {cs ds : List Char} (hcs : IsDottedName cs) (hds : IsDottedName ds) :
    IsDottedName (cs ++ '.' :: ds) := by
  induction hds with
  | segment h => exact .dot hcs h
  | dot _ h ih =>
    rw [← List.cons_append, ← List.append_assoc]
    exact .dot ih h

namespace SuitPath

/-- A path of segments, with slashes or dots between them. -/
def IsSegmentPath (cs : List Char) : Prop := IsDottedName (cs.map dotted)

/-- The names of headers: absolute paths, perhaps with a slash in front, and relative ones. -/
inductive IsHeaderName : List Char → Prop
  /-- A path is absolute. -/
  | absolute {cs : List Char} (h : IsSegmentPath cs) : IsHeaderName cs
  /-- So is one behind a slash. -/
  | slash {cs : List Char} (h : IsSegmentPath cs) : IsHeaderName ('/' :: cs)
  /-- One behind two dots and a slash is relative. -/
  | relative {cs : List Char} (h : IsSegmentPath cs) : IsHeaderName ('.' :: '.' :: '/' :: cs)

variable {cs : List Char}

/-- Neither a slash nor a dot stands for a letter. -/
private theorem eq_of_isNamePart_dotted {c : Char} (h : Token.isNamePart (dotted c) = true) :
    c ≠ '/' ∧ c ≠ '.' := by
  constructor <;> (rintro rfl; revert h; decide)

/-- A path of segments begins and ends in a character of a segment. -/
theorem IsSegmentPath.ends (h : IsSegmentPath cs) :
    (∀ c, cs.head? = some c → c ≠ '/' ∧ c ≠ '.') ∧ (∀ c, cs.getLast? = some c → c ≠ '/' ∧ c ≠ '.') ∧
      cs ≠ [] := by
  obtain ⟨d, rest, hhead, hd⟩ := h.exists_cons
  obtain ⟨front, e, hlast, he⟩ := h.exists_append
  refine ⟨fun c hc => ?_, fun c hc => ?_, ?_⟩
  · have hmap : (cs.map dotted).head? = some (dotted c) := by rw [List.head?_map, hc]; rfl
    rw [hhead] at hmap
    obtain rfl := Option.some.inj hmap
    exact eq_of_isNamePart_dotted (Token.isNamePart_of_isNameStart hd)
  · have hmap : (cs.map dotted).getLast? = some (dotted c) := by rw [List.getLast?_map, hc]; rfl
    rw [hlast, List.getLast?_concat] at hmap
    obtain rfl := Option.some.inj hmap
    exact eq_of_isNamePart_dotted he
  · rintro rfl
    cases hhead

/-- A path of segments has letters, digits, underscores and separators. -/
theorem IsSegmentPath.isNamePart (h : IsSegmentPath cs) {c : Char} (hc : c ∈ cs) :
    Token.isNamePart c = true ∨ c = '/' ∨ c = '.' := by
  by_cases hslash : c = '/'
  · exact .inr (.inl hslash)
  · have hdotted : dotted c = c := by rw [dotted, if_neg hslash]
    have hmem : c ∈ cs.map dotted := List.mem_map.2 ⟨c, hc, hdotted⟩
    exact (IsDottedName.isNamePart h hmem).symm.imp_right .inr

/-- A path of segments has no other character. -/
theorem IsSegmentPath.notMem (h : IsSegmentPath cs) {c : Char} (hc : Token.isNamePart c = false)
    (hslash : c ≠ '/') (hdot : c ≠ '.') : c ∉ cs := by
  intro hmem
  rcases h.isNamePart hmem with he | he | he
  · rw [hc] at he
    cases he
  · exact hslash he
  · exact hdot he

/-- No character of a path of segments is blank. -/
theorem IsSegmentPath.isBlank (h : IsSegmentPath cs) : ∀ c ∈ cs, isBlank c = false := by
  intro c hc
  rcases h.isNamePart hc with hc | rfl | rfl
  · exact Token.isBlank_of_isNamePart hc
  · decide
  · decide

/-- The text of a named suit is a path of segments, but for the root. -/
theorem IsNamed.isSegmentPath {path : SuitPath} (h : path.IsNamed) (hroot : path ≠ root) :
    IsSegmentPath path.text.toList :=
  h.resolve_left hroot

/-- No slash is trimmed off a path of segments. -/
theorem IsSegmentPath.trim_eq (h : IsSegmentPath cs) : trim isSlash cs = cs := by
  obtain ⟨hhead, hlast, -⟩ := h.ends
  refine trim_eq_self (fun c hc => ?_) fun c hc => ?_
  · simp [isSlash, (hhead c hc).1]
  · simp [isSlash, (hlast c hc).1]

/-- A dot is a slash, but both are dots of the evaluator's names. -/
private theorem dotted_slashed (c : Char) : dotted (slashed c) = dotted c := by
  unfold slashed
  split
  · next h => rw [h]; rfl
  · rfl

/-- With slashes for dots, a text has the same dotted spelling. -/
private theorem map_dotted_map_slashed (cs : List Char) :
    (cs.map slashed).map dotted = cs.map dotted := by
  rw [List.map_map]
  exact List.map_congr_left fun c _ => dotted_slashed c

/-- With slashes for dots, a path of segments stays one. -/
theorem IsSegmentPath.map_slashed (h : IsSegmentPath cs) : IsSegmentPath (cs.map slashed) := by
  rwa [IsSegmentPath, map_dotted_map_slashed]

/-- A path of segments is canonical with slashes for dots. -/
theorem IsSegmentPath.canonical_eq (h : IsSegmentPath cs) : canonical cs = cs.map slashed := by
  rw [canonical, h.map_slashed.trim_eq]
  obtain ⟨c, rest, rfl⟩ := List.exists_cons_of_ne_nil h.ends.2.2
  rfl

/-- The global names of the cards of a path of segments have its dotted spelling in front. -/
theorem IsSegmentPath.toList_qualify {path : String} (h : IsSegmentPath path.toList)
    (name : String) : ((ofString path).qualify name).toList =
      path.toList.map dotted ++ '.' :: name.toList := by
  have htext : (ofString path).text.toList = path.toList.map slashed := by
    rw [ofString, String.toList_ofList, h.canonical_eq]
  have hroot : ofString path ≠ root := by
    intro he
    rw [he] at htext
    have hhead := h.map_slashed.ends.1
    rw [← htext] at hhead
    exact (hhead '/' rfl).1 rfl
  rw [qualify, String.toList_append, toList_globalPrefix hroot, htext, map_dotted_map_slashed,
    List.append_assoc]
  rfl

/-- The global name of a card of a path of segments is a dotted name. -/
theorem IsSegmentPath.isDottedName_qualify {path name : String} (h : IsSegmentPath path.toList)
    (hname : Token.IsSegment name.toList) :
    IsDottedName ((ofString path).qualify name).toList := by
  rw [h.toList_qualify]
  exact .dot h hname

/-- The global name of a card of a path of segments is no name without a dot. -/
theorem IsSegmentPath.qualify_ne {path : String} (h : IsSegmentPath path.toList) (name : String)
    {other : String} (hother : '.' ∉ other.toList) : (ofString path).qualify name ≠ other := by
  rintro rfl
  rw [h.toList_qualify] at hother
  simp at hother

/-- The suit of a path of segments is named. -/
theorem IsSegmentPath.isNamed (h : IsSegmentPath cs) :
    (ofString (String.ofList cs)).IsNamed ∧ (ofString (String.ofList ('/' :: cs))).IsNamed := by
  have hcanonical := h.canonical_eq
  have hslash : canonical ('/' :: cs) = canonical cs := by
    have htrim : trim isSlash (('/' :: cs).map slashed) = trim isSlash (cs.map slashed) := by
      have hfirst : isSlash (slashed '/') = true := by decide
      rw [trim, List.map_cons, List.dropWhile_cons_of_pos hfirst]
      rfl
    rw [canonical, canonical, htrim]
  have hnamed : ∀ {ds : List Char}, canonical ds = cs.map slashed →
      (ofString (String.ofList ds)).IsNamed := by
    intro ds hds
    right
    simp only [ofString, String.toList_ofList, hds]
    exact h.map_slashed
  exact ⟨hnamed hcanonical, hnamed (hslash.trans hcanonical)⟩

/-- The parent of a named suit is a path of segments, unless there is none. -/
theorem IsNamed.isSegmentPath_parentText {path : SuitPath} (h : path.IsNamed)
    (hparent : path.parentText ≠ []) : IsSegmentPath path.parentText := by
  unfold parentText at hparent ⊢
  split
  · next parent last hcut =>
    rw [hcut] at hparent
    obtain ⟨htext, hlast⟩ := cutLast_eq_some hcut
    rcases h with rfl | h
    · obtain ⟨rfl, rfl⟩ : parent = [] ∧ last = [] := by
        have hroot : cutLast '/' root.text.toList = some ([], []) := by decide
        rw [hroot] at hcut
        obtain ⟨hparent, hlast⟩ := Prod.mk.inj (Option.some.inj hcut)
        exact ⟨hparent.symm, hlast.symm⟩
      exact absurd rfl hparent
    · have hdots : '.' ∉ last.map dotted := by
        intro hdot
        obtain ⟨c, hc, he⟩ := List.mem_map.1 hdot
        unfold dotted at he
        split at he
        · next hslash => exact hlast (hslash ▸ hc)
        · subst he
          apply path.isCanonical.dot_notMem
          rw [htext]
          simp [hc]
      have hsplit : path.text.toList.map dotted ++ [] =
          parent.map dotted ++ '.' :: last.map dotted := by
        rw [htext]
        simp [dotted]
      exact (h.of_append_eq (by simp) hdots hsplit).1
  · next hcut =>
    rw [hcut] at hparent
    exact absurd rfl hparent

/-- Next to a named suit, a path of segments leads to a named suit. -/
theorem IsNamed.sibling {path : SuitPath} (h : path.IsNamed) (hcs : IsSegmentPath cs) :
    (path.sibling (String.ofList ('/' :: cs))).IsNamed := by
  have hrest : trim isSlash ('/' :: cs) = cs := by
    have hfirst : isSlash '/' = true := by decide
    rw [trim, List.dropWhile_cons_of_pos hfirst]
    exact hcs.trim_eq
  unfold SuitPath.sibling
  simp only [String.toList_ofList, hrest]
  split
  · exact hcs.isNamed.1
  · next hparent =>
    rw [if_neg hcs.ends.2.2]
    have hpath : IsSegmentPath (path.parentText ++ '/' :: cs) := by
      have hboth := (h.isSegmentPath_parentText hparent).append hcs
      rw [IsSegmentPath, List.map_append, List.map_cons]
      exact hboth
    exact hpath.isNamed.1

end SuitPath

namespace SuitCursor

/-- A cursor whose suits are named. -/
structure IsNamed (cursor : SuitCursor) : Prop where
  /-- The suit of the cards that come next. -/
  current : cursor.current.IsNamed
  /-- The suit of the last absolute header. -/
  previous : ∀ path, cursor.previous = some path → path.IsNamed

/-- The suit that a text begins in is named. -/
theorem IsNamed.default : IsNamed {} where
  current := .inl rfl
  previous path h := by cases h

/-- Whether the name of a header is a path of segments. -/
def HasSegments (settings : Settings) (text : String) : Prop :=
  ∀ inner, headerName? settings text.toList = some inner →
    SuitPath.IsHeaderName (withoutBlanks inner)

/-- A header has the name that stands between its delimiters. -/
theorem HasSegments.of_headerName {settings : Settings} {text : String} (inner : List Char)
    (hinner : headerName? settings text.toList = some inner)
    (h : SuitPath.IsHeaderName (withoutBlanks inner)) : HasSegments settings text := by
  intro other hother
  rw [hinner] at hother
  rwa [← Option.some.inj hother]

/-- Headers with paths of segments lead from named suits to named suits. -/
theorem IsNamed.enter {cursor next : SuitCursor} (h : cursor.IsNamed) {settings : Settings}
    {text : String} {line : Nat} (htext : HasSegments settings text)
    (henter : cursor.enter settings text line = .ok next) : next.IsNamed := by
  obtain ⟨inner, hinner, hleads⟩ := enter_eq_ok_iff.1 henter
  have hname := htext inner hinner
  generalize withoutBlanks inner = name at hname hleads
  cases hleads with
  | @relative rest previous hprevious =>
    obtain ⟨cs, hcs, rfl⟩ : ∃ cs, SuitPath.IsSegmentPath cs ∧ rest = '/' :: cs := by
      cases hname with
      | absolute hcs => exact absurd rfl (hcs.ends.1 '.' rfl).2
      | relative hcs => exact ⟨_, hcs, rfl⟩
    exact ⟨(h.previous previous hprevious).sibling hcs, h.previous⟩
  | absolute hne hdots =>
    have hnamed : (SuitPath.ofString (String.ofList name)).IsNamed := by
      cases hname with
      | absolute hcs => exact hcs.isNamed.1
      | slash hcs => exact hcs.isNamed.2
      | relative hcs => exact absurd rfl (hdots _)
    refine ⟨hnamed, fun path hpath => ?_⟩
    rwa [← Option.some.inj hpath]

/-- A header of a path of segments leads to the suit of the path. -/
theorem enter_of_isSegmentPath {settings : Settings} (hopen : settings.suitOpen = '<')
    (hclose : settings.suitClose = '>') {path : String} (h : SuitPath.IsSegmentPath path.toList)
    (cursor : SuitCursor) (line : Nat) :
    cursor.enter settings ("<" ++ path ++ ">") line =
      .ok ⟨SuitPath.ofString path, some (SuitPath.ofString path)⟩ := by
  have hname : headerName? settings ("<" ++ path ++ ">").toList = some path.toList := by
    have hsplit : ("<" ++ path ++ ">").toList = '<' :: (path.toList ++ ['>']) := by simp
    rw [hsplit, headerName?, if_pos hopen.symm, hclose,
      cutFirst_append_cons (h.notMem (by decide) (by decide) (by decide))]
    rfl
  have hblanks : withoutBlanks path.toList = path.toList := by
    rw [withoutBlanks, List.filter_eq_self.2 fun d hd => by simp [h.isBlank d hd]]
  have hdots : ∀ rest, path.toList ≠ '.' :: '.' :: rest := fun rest hrest =>
    (h.ends.1 '.' (by simp [hrest])).2 rfl
  have hleads : cursor.LeadsTo path.toList _ := .absolute h.ends.2.2 hdots
  rw [String.ofList_toList] at hleads
  exact enter_eq_ok_iff.2 ⟨path.toList, hname, by rwa [hblanks]⟩

end SuitCursor

end InputDeck
