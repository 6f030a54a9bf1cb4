import InputDeck.ElementName
import InputDeck.Number.Binary64
import InputDeck.Proofs.Expr.Grammar
import InputDeck.Proofs.Store.GlobalNames

/-!
# Names that statements assign

A statement can only assign a dotted name, or an element of the vector with such a name. All of
these are global names of cards.
-/

namespace InputDeck

open InputDeck.Text InputDeck.Number InputDeck.SuitPath

/-- Segments of names with dots between them. -/
inductive IsDottedName : List Char → Prop
  /-- A segment is a name. -/
  | segment {cs : List Char} (h : Token.IsSegment cs) : IsDottedName cs
  /-- A name goes on with a dot and one more segment. -/
  | dot {cs ds : List Char} (h : IsDottedName cs) (hd : Token.IsSegment ds) :
      IsDottedName (cs ++ '.' :: ds)

/-- A name that a statement may report as assigned. -/
inductive IsAssignable : String → Prop
  /-- A dotted name can be assigned, unless it is a truth value. -/
  | name {path : String} (h : IsDottedName path.toList) (htrue : path ≠ "true")
      (hfalse : path ≠ "false") : IsAssignable path
  /-- So can the elements of its vector whose indices are numbers. -/
  | element {path : String} (h : IsDottedName path.toList) (htrue : path ≠ "true")
      (hfalse : path ≠ "false") {x : Float} {index : Nat} (hindex : index? x = some index) :
      IsAssignable (elementName path index)

/-- The name of a card within its suit: a segment, or an element of the vector with that name. -/
inductive IsCardName : List Char → Prop
  /-- A segment is the name of a card. -/
  | segment {cs : List Char} (h : Token.IsSegment cs) : IsCardName cs
  /-- So is one with an index. -/
  | element {cs : List Char} (h : Token.IsSegment cs) (index : Nat) :
      IsCardName (cs ++ '[' :: Nat.toDigits 10 index ++ [']'])

/-- The suits of cards that statements assign: the root, and paths of segments. -/
def SuitPath.IsNamed (path : SuitPath) : Prop :=
  path = root ∨ IsDottedName (path.text.toList.map dotted)

/-- A segment has no character that names do not go on with. -/
theorem Token.IsSegment.notMem {cs : List Char} (h : Token.IsSegment cs) {c : Char}
    (hc : Token.isNamePart c = false) : c ∉ cs := by
  intro hmem
  rw [h.isNamePart c hmem] at hc
  cases hc

namespace IsDottedName

variable {cs : List Char}

/-- A name begins with a letter or an underscore. -/
theorem exists_cons (h : IsDottedName cs) :
    ∃ c rest, cs = c :: rest ∧ Token.isNameStart c = true := by
  induction h with
  | segment h => exact h.head
  | dot _ _ ih =>
    obtain ⟨c, rest, rfl, hc⟩ := ih
    exact ⟨c, rest ++ '.' :: _, rfl, hc⟩

/-- A name ends in a character of its last segment. -/
theorem exists_append (h : IsDottedName cs) :
    ∃ front c, cs = front ++ [c] ∧ Token.isNamePart c = true := by
  have hsegment : ∀ {ds : List Char}, Token.IsSegment ds →
      ∃ front c, ds = front ++ [c] ∧ Token.isNamePart c = true := by
    intro ds h
    obtain ⟨d, rest, hd, -⟩ := h.head
    have hne : ds ≠ [] := by simp [hd]
    exact ⟨ds.dropLast, ds.getLast hne, (List.dropLast_concat_getLast hne).symm,
      h.isNamePart _ (List.getLast_mem hne)⟩
  cases h with
  | segment h => exact hsegment h
  | @dot cs ds _ hd =>
    obtain ⟨front, c, rfl, hc⟩ := hsegment hd
    exact ⟨cs ++ '.' :: front, c, by simp, hc⟩

/-- Names have letters, digits, underscores and dots. -/
theorem isNamePart (h : IsDottedName cs) {c : Char} (hc : c ∈ cs) :
    c = '.' ∨ Token.isNamePart c = true := by
  induction h with
  | segment h => exact .inr (h.isNamePart c hc)
  | dot _ hd ih =>
    rcases List.mem_append.1 hc with hc | hc
    · exact ih hc
    · rcases List.mem_cons.1 hc with rfl | hc
      · exact .inl rfl
      · exact .inr (hd.isNamePart c hc)

/-- Names have no other character. -/
theorem notMem (h : IsDottedName cs) {c : Char} (hdot : c ≠ '.')
    (hc : Token.isNamePart c = false) : c ∉ cs := by
  intro hmem
  rcases h.isNamePart hmem with he | he
  · exact hdot he
  · rw [he] at hc
    cases hc

/-- The tokens of a name spell a dotted one. -/
theorem of_isPath {ts : List Token} {path : String} (h : Expr.IsPath ts path)
    (hts : ∀ s, .name s ∈ ts → Token.IsSegment s.toList) : IsDottedName path.toList := by
  induction h with
  | segment s => exact .segment (hts s (by simp))
  | @dot ts path s h ih =>
    have hfront := ih fun t ht => hts t (List.mem_append_left _ ht)
    have hsplit : (path ++ "." ++ s).toList = path.toList ++ '.' :: s.toList := by simp
    rw [hsplit]
    exact .dot hfront (hts s (by simp))

/-- With anything but dots behind it, a dotted name is the global name of a card. -/
theorem isGlobalName (h : IsDottedName cs) {ds : List Char} (hds : '.' ∉ ds) :
    IsGlobalName (String.ofList (cs ++ ds)) := by
  cases h with
  | segment h =>
    apply isGlobalName_of_dot_notMem
    rw [String.toList_ofList, List.mem_append]
    exact not_or.2 ⟨h.notMem (by decide), hds⟩
  | @dot front segment hfront hsegment =>
    obtain ⟨c, rest, hhead, hc⟩ := hfront.exists_cons
    obtain ⟨rest', d, hlast, hd⟩ := hfront.exists_append
    rw [List.append_assoc, List.cons_append]
    refine isGlobalName_of_dotted ?_ (hfront.notMem (by decide) (by decide)) (by simp [hhead]) ?_ ?_
    · rw [List.mem_append]
      exact not_or.2 ⟨hsegment.notMem (by decide), hds⟩
    · rw [hhead]
      rintro ⟨⟩
      exact absurd hc (by decide)
    · rw [hlast, List.getLast?_concat]
      rintro ⟨⟩
      exact absurd hd (by decide)

/-- Whatever is cut off a name at its last dot, with something without dots behind it, is a segment
behind a name. -/
theorem of_append_eq (h : IsDottedName cs) {tail front name : List Char} (htail : '.' ∉ tail)
    (hname : '.' ∉ name) (heq : cs ++ tail = front ++ '.' :: name) :
    IsDottedName front ∧ ∃ ds, Token.IsSegment ds ∧ name = ds ++ tail := by
  cases h with
  | segment h =>
    have hdot : '.' ∈ cs ++ tail := by
      rw [heq]
      simp
    rcases List.mem_append.1 hdot with hdot | hdot
    · exact absurd hdot (h.notMem (by decide))
    · exact absurd hdot htail
  | @dot start ds hstart hds =>
    have hdots : '.' ∉ ds ++ tail := by
      rw [List.mem_append]
      exact not_or.2 ⟨hds.notMem (by decide), htail⟩
    have hleft := Text.cutLast_append_cons start hdots
    rw [← List.cons_append, ← List.append_assoc, heq, Text.cutLast_append_cons front hname] at hleft
    obtain ⟨rfl, rfl⟩ := Prod.mk.inj (Option.some.inj hleft)
    exact ⟨hstart, ds, hds, rfl⟩

/-- A name without dots is a segment. -/
theorem isSegment (h : IsDottedName cs) (hdot : '.' ∉ cs) : Token.IsSegment cs := by
  cases h with
  | segment h => exact h
  | dot => simp at hdot

end IsDottedName

/-- The path of a target among the tokens of a statement is a dotted name, and no truth value. -/
theorem Expr.Derives.isDottedName_path {form : Form} {us ts : List Token} {e : Expr}
    {target : Target} {cs : List Char} (h : Derives form us e) (he : e.target? = some target)
    (hspelled : Token.Spelled ts cs) (hus : us ⊆ ts) :
    IsDottedName target.path.toList ∧ target.path ≠ "true" ∧ target.path ≠ "false" := by
  obtain ⟨htrue, hfalse, front, hpath, hfront⟩ := h.isPath_of_target? he
  exact ⟨.of_isPath hpath fun s hs => hspelled.isSegment_of_name (hus (hfront _ hs)), htrue, hfalse⟩

/-- The decimal text of a number has no dot. -/
theorem notMem_natText {n : Nat} {c : Char} (hc : c.isDigit = false) : c ∉ (natText n).toList := by
  intro hmem
  rw [natText, String.toList_ofList] at hmem
  rw [Nat.isDigit_of_mem_toDigits (by decide) (by decide) hmem] at hc
  cases hc

/-- What a statement may assign is the global name of a card. -/
theorem IsAssignable.isGlobalName {key : String} (h : IsAssignable key) : IsGlobalName key := by
  cases h with
  | name h =>
    have hname : IsGlobalName (String.ofList (key.toList ++ [])) := h.isGlobalName (by simp)
    rwa [List.append_nil, String.ofList_toList] at hname
  | @element path h _ _ _ index _ =>
    have hdots : '.' ∉ '[' :: (natText index).toList ++ [']'] := by
      have := notMem_natText (n := index) (c := '.') (by decide)
      simp [this]
    have hsplit : elementName path index =
        String.ofList (path.toList ++ ('[' :: (natText index).toList ++ [']'])) := by
      apply String.toList_inj.1
      simp [elementName]
    rw [hsplit]
    exact h.isGlobalName hdots

/-- A card whose global name can be assigned has a suit of segments and the name of a card. -/
theorem IsAssignable.of_qualify {path : SuitPath} {name : String}
    (h : IsAssignable (path.qualify name)) (hname : '.' ∉ name.toList) :
    path.IsNamed ∧ IsCardName name.toList := by
  -- What stands behind the dotted name has no dots, so the last dot is one of the name.
  have hplace : ∀ {cs tail : List Char}, IsDottedName cs → '.' ∉ tail →
      (path.qualify name).toList = cs ++ tail →
      path.IsNamed ∧ ∃ ds, Token.IsSegment ds ∧ name.toList = ds ++ tail := by
    intro cs tail hcs htail heq
    by_cases hroot : path = root
    · subst hroot
      rw [qualify_root] at heq
      rw [heq, List.mem_append, not_or] at hname
      exact ⟨.inl rfl, cs, hcs.isSegment hname.1, heq⟩
    · rw [qualify, String.toList_append, toList_globalPrefix hroot, List.append_assoc,
        List.singleton_append] at heq
      obtain ⟨hfront, hds⟩ := hcs.of_append_eq htail hname heq.symm
      exact ⟨.inr hfront, hds⟩
  generalize hkey : path.qualify name = key at h hplace
  cases h with
  | name h =>
    obtain ⟨hpath, ds, hds, hsplit⟩ := hplace h (by simp) (List.append_nil _).symm
    rw [hsplit, List.append_nil]
    exact ⟨hpath, .segment hds⟩
  | @element base h _ _ _ index _ =>
    have hdots : '.' ∉ '[' :: (natText index).toList ++ [']'] := by
      have := notMem_natText (n := index) (c := '.') (by decide)
      simp [this]
    obtain ⟨hpath, ds, hds, hsplit⟩ := hplace h hdots (by simp [elementName])
    rw [hsplit, natText, String.toList_ofList, ← List.append_assoc]
    exact ⟨hpath, .element hds index⟩

end InputDeck
