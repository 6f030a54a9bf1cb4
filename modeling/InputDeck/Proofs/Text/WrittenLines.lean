import InputDeck.Proofs.Text.LogicalLines
import InputDeck.Proofs.Text.Marks
import InputDeck.Proofs.Text.Outside
import InputDeck.Proofs.Text.Visible

/-!
# Reading written lines

Lines that are written one under the other are read as they stand: each body with its comment is a
logical line of its own, and empty lines are dropped. A body is fit for this when only spaces are
blank in it, when its ends are neither blank nor marks, and when its comment mark is quoted. A
comment is fit for this when the mark in front of it, which is always the usual one, is that of the
settings.
-/

namespace InputDeck

open InputDeck.Text InputDeck.Scan

variable {settings : Settings}

/-- A text that a line can have as its body. -/
structure IsBody (settings : Settings) (cs : List Char) : Prop where
  /-- Only spaces are blank. -/
  plain : IsPlain cs
  /-- The first character is neither blank nor a comment mark. -/
  head : ∃ c rest, cs = c :: rest ∧ isBlank c = false ∧ c ≠ settings.commentMark
  /-- The last character is neither blank nor a continuation mark. -/
  last : ∃ front c, cs = front ++ [c] ∧ isBlank c = false ∧
    c ≠ settings.continuationMark
  /-- No comment mark stands outside quotes. -/
  mark_notMem : settings.commentMark ∉ outside false cs
  /-- All quotes are closed. -/
  paired : QuotesPaired cs

namespace IsBody

variable {cs : List Char}

/-- A body goes on in no other line. -/
theorem stripLast_eq_none (h : IsBody settings cs) :
    stripLast settings.continuationMark cs = none := by
  obtain ⟨front, c, rfl, -, hc⟩ := h.last
  rw [stripLast, List.getLast?_concat, if_neg]
  exact fun he => hc (Option.some.inj he)

/-- No blank stands at the ends of a body. -/
theorem trim_eq (h : IsBody settings cs) : trim isBlank cs = cs := by
  apply trim_eq_self
  · obtain ⟨c, rest, rfl, hc, -⟩ := h.head
    rintro _ ⟨⟩
    exact hc
  · obtain ⟨front, c, rfl, hc, -⟩ := h.last
    intro d hd
    rw [List.getLast?_concat] at hd
    rwa [← Option.some.inj hd]

end IsBody

/-- A text that a line can have as its comment. -/
structure IsComment (settings : Settings) (cs : List Char) : Prop where
  /-- Only spaces are blank. -/
  plain : IsPlain cs
  /-- There is something to say. -/
  ne_nil : cs ≠ []
  /-- No continuation mark stands in it. -/
  mark_notMem : settings.continuationMark ∉ cs
  /-- No blank stands at the ends. -/
  trimmed : trim isBlank cs = cs

/-- A line of a deck that is not empty. -/
structure DeckLine where
  /-- The statement or the header. -/
  body : String
  /-- The comment behind it. -/
  comment : Option String := none
  deriving DecidableEq, Repr

namespace DeckLine

/-- The characters of a line, or of an empty one. -/
def raw : Option DeckLine → List Char
  | some ⟨body, some comment⟩ => body.toList ++ ' ' :: ' ' :: '#' :: ' ' :: comment.toList
  | some ⟨body, none⟩ => body.toList
  | none => []

/-- A line whose body and comment are read as they stand. -/
structure IsReadable (settings : Settings) (line : DeckLine) : Prop where
  /-- The body can be one. -/
  body : IsBody settings line.body.toList
  /-- So can the comment, if there is one. -/
  comment : ∀ text, line.comment = some text → IsComment settings text.toList
  /-- The mark in front of the comment is that of the settings. -/
  mark : line.comment ≠ none → settings.commentMark = '#'

/-- Only spaces are blank in a line that is read as it stands. -/
theorem isPlain_raw {item : Option DeckLine}
    (h : ∀ line, item = some line → line.IsReadable settings) : IsPlain (raw item) := by
  match item with
  | none => exact .of_isBlank (by simp [raw])
  | some ⟨body, none⟩ => exact (h _ rfl).body.plain
  | some ⟨body, some comment⟩ =>
    have hmark : IsPlain [' ', ' ', '#', ' '] := by
      intro c hc hblank
      simp only [List.mem_cons, List.not_mem_nil, or_false] at hc
      rcases hc with rfl | rfl | rfl | rfl
      · rfl
      · rfl
      · exact absurd hblank (by decide)
      · rfl
    exact (h _ rfl).body.plain.append (hmark.append ((h _ rfl).comment comment rfl).plain)

end DeckLine

namespace LogicalLine

/-- A logical line without its number. -/
def content (line : LogicalLine) : DeckLine := ⟨line.text, line.comment⟩

variable {body : List Char}

/-- A body keeps its end in front of spaces. -/
theorem trimEnd_append_spaces (h : IsBody settings body) (n : Nat) :
    trimEnd isSpace (body ++ List.replicate n ' ') = body := by
  obtain ⟨front, c, rfl, hc, -⟩ := h.last
  have hspace : isSpace c = false := by
    rw [isSpace, beq_eq_false_iff_ne]
    rintro rfl
    revert hc
    decide
  have hspaces : ∀ d ∈ List.replicate n ' ', isSpace d = true := by
    intro d hd
    rw [(List.mem_replicate.1 hd).2]
    rfl
  rw [trimEnd, List.reverse_append, List.reverse_replicate,
    List.dropWhile_append_of_pos hspaces]
  simp [hspace]

/-- Nothing of a line that is read as it stands is cleaned away. -/
theorem clean_append (h : IsBody settings body) {rest : List Char} (hrest : IsPlain rest) :
    clean (body ++ rest) = body ++ rest := by
  have hkept : ∀ c ∈ body ++ rest, (c == ' ' || !isBlank c) = true := by
    intro c hc
    cases hblank : isBlank c with
    | false => simp
    | true => simp [h.plain.append hrest c hc hblank]
  obtain ⟨c, tail, rfl, hc, -⟩ := h.head
  have hspace : ¬isSpace c = true := by
    rw [isSpace, beq_iff_eq]
    rintro rfl
    revert hc
    decide
  rw [clean, List.filter_eq_self.2 hkept, List.cons_append, List.dropWhile_cons_of_neg hspace]

/-- No line that is read as it stands is dropped. -/
theorem isDropped_append (h : IsBody settings body) (rest : List Char) :
    isDropped settings (body ++ rest) = false := by
  obtain ⟨c, tail, rfl, -, hc⟩ := h.head
  simp [isDropped, hc]

/-- A body without a comment is all of its line, but for spaces behind it. -/
theorem fragment_body (hs : settings.IsUsable) (h : IsBody settings body) (n : Nat) :
    fragment settings (body ++ List.replicate n ' ') = ⟨body, none⟩ := by
  have hmark : settings.commentMark ∉ outside (State.quoted {}) (body ++ List.replicate n ' ') := by
    change settings.commentMark ∉ outside false _
    rw [outside_append h.paired, List.mem_append, not_or]
    refine ⟨h.mark_notMem, fun hmem => ?_⟩
    exact hs.comment.ne_space (List.mem_replicate.1 (outside_subset false _ hmem)).2
  rw [fragment, cutUnquoted_eq_none (hs.comment.ne (by decide)) hmark]
  simp only [trimEnd_append_spaces h]

/-- A body and a comment are cut at the mark between them. -/
theorem fragment_comment (hs : settings.IsUsable) (hmark : settings.commentMark = '#')
    (h : IsBody settings body) {comment : List Char} (hcomment : IsComment settings comment) :
    fragment settings (body ++ ' ' :: ' ' :: '#' :: ' ' :: comment) = ⟨body, some comment⟩ := by
  have hafter : (State.after {} body).quoted = false := by
    rw [State.quoted_after]
    simpa using h.paired
  have hcut : cutUnquoted '#' {} (body ++ ' ' :: ' ' :: '#' :: ' ' :: comment) =
      some (body ++ [' ', ' '], ' ' :: comment) := by
    have hquote : ∀ s : State, s.quoted = false → (s.next ' ').quoted = false := by
      intro s hs
      rw [State.quoted_next, hs]
      rfl
    have hbody := h.mark_notMem
    rw [hmark] at hbody
    rw [cutUnquoted_append (cutUnquoted_eq_none (by decide) hbody), cutUnquoted,
      if_neg (by simp), cutUnquoted, if_neg (by simp), cutUnquoted,
      if_pos ⟨rfl, hquote _ (hquote _ hafter)⟩]
    rfl
  have htrim : trim isBlank (' ' :: comment) = comment := by
    have hdrop : (' ' :: comment).dropWhile isBlank = comment.dropWhile isBlank :=
      List.dropWhile_cons_of_pos (by decide)
    rw [trim, hdrop]
    exact hcomment.trimmed
  have hfilter : (' ' :: comment).filter (fun c => c != settings.continuationMark) =
      ' ' :: comment := by
    refine List.filter_eq_self.2 fun c hc => ?_
    rw [bne_iff_ne]
    rintro rfl
    rcases List.mem_cons.1 hc with hc | hc
    · exact hs.continuation.ne_space hc
    · exact hcomment.mark_notMem hc
  have hspaces := trimEnd_append_spaces h 2
  rw [fragment, hmark, hcut]
  simp only [commentOf, hfilter, htrim]
  rw [if_neg (by simpa using hcomment.ne_nil)]
  congr 1

/-- The lines of a text are what it was written from. -/
theorem lines_flatMap {raws : List (List Char)} (h : ∀ raw ∈ raws, IsPlain raw) :
    lines (raws.flatMap fun raw => raw ++ ['\n']) = raws := by
  induction raws with
  | nil => rfl
  | cons raw raws ih =>
    have hraw := h raw List.mem_cons_self
    rw [List.flatMap_cons, List.append_assoc, List.singleton_append,
      lines_append_newline _ hraw.newline_notMem hraw.return_notMem,
      ih fun other hother => h other (List.mem_cons_of_mem _ hother)]

/-- The fragment of a line that is read as it stands. -/
def fragmentOf (line : DeckLine) : Fragment := ⟨line.body.toList, line.comment.map String.toList⟩

/-- What a raw line that is read as it stands contributes. -/
theorem fragment_raw (hs : settings.IsUsable) {item : Option DeckLine}
    (h : ∀ line, item = some line → line.IsReadable settings) (number : Nat) :
    (if isDropped settings (clean (DeckLine.raw item)) then none
      else some (number, fragment settings (clean (DeckLine.raw item)))) =
        item.map fun line => (number, fragmentOf line) := by
  match item with
  | none => rfl
  | some ⟨body, none⟩ =>
    have hbody := (h _ rfl).body
    have hplain : IsPlain [] := .of_isBlank (by simp)
    have hclean := clean_append hbody hplain
    have hdropped := isDropped_append hbody []
    rw [List.append_nil] at hclean hdropped
    have hfragment := fragment_body hs hbody 0
    rw [List.replicate_zero, List.append_nil] at hfragment
    rw [DeckLine.raw, hclean, hdropped, if_neg (by simp), hfragment]
    rfl
  | some ⟨body, some comment⟩ =>
    have hbody := (h _ rfl).body
    have hcomment := (h _ rfl).comment comment rfl
    have hclean : clean (DeckLine.raw (some ⟨body, some comment⟩)) =
        DeckLine.raw (some ⟨body, some comment⟩) := by
      have hplain := DeckLine.isPlain_raw h
      exact clean_append hbody (hplain.of_subset (List.subset_append_right _ _))
    rw [hclean, DeckLine.raw, isDropped_append hbody, if_neg (by simp),
      fragment_comment hs ((h _ rfl).mark (by simp)) hbody hcomment]
    rfl

/-- The fragment of a line that is read as it stands is a logical line of its own. -/
theorem gather_cons {line : DeckLine} (h : line.IsReadable settings) (number : Nat)
    (rest : List (Nat × Fragment)) :
    (gather settings none [] ((number, fragmentOf line) :: rest)).map content =
      line :: (gather settings none [] rest).map content := by
  have hstrip := h.body.stripLast_eq_none
  have htrim := h.body.trim_eq
  obtain ⟨body, comment⟩ := line
  simp only [gather, fragmentOf, hstrip, List.map_cons, extend, close, content, htrim,
    String.ofList_toList, List.nil_append]
  cases comment with
  | none => rfl
  | some text => simp [joinSpaced]

/-- A body alone, perhaps with spaces behind it, is one fragment. -/
theorem fragments_body (hs : settings.IsUsable) (h : IsBody settings body) (n : Nat) :
    fragments settings (body ++ List.replicate n ' ') = [(1, ⟨body, none⟩)] := by
  have hspaces : IsPlain (List.replicate n ' ') := fun c hc _ => (List.mem_replicate.1 hc).2
  have hlines : lines (body ++ List.replicate n ' ') = [body ++ List.replicate n ' '] := by
    have hnewline := (h.plain.append hspaces).newline_notMem
    obtain ⟨c, rest, rfl, -⟩ := h.head
    exact lines_eq_singleton hnewline
  rw [fragments, hlines]
  simp [clean_append h hspaces, isDropped_append h, fragment_body hs h]

/-- A body alone, perhaps with spaces behind it, is one logical line. -/
theorem ofText_body (hs : settings.IsUsable) (h : IsBody settings body) (n : Nat) :
    ofText settings (String.ofList (body ++ List.replicate n ' ')) =
      [⟨String.ofList body, 1, none⟩] := by
  rw [ofText, String.toList_ofList, fragments_body hs h]
  simp [gather, h.stripLast_eq_none, extend, close, h.trim_eq]

/-- The logical lines of a text are the lines that it was written from, without empty ones. -/
theorem map_content_ofText (hs : settings.IsUsable) {items : List (Option DeckLine)}
    {text : String} (h : ∀ line, some line ∈ items → line.IsReadable settings)
    (htext : text.toList = (items.map DeckLine.raw).flatMap (· ++ ['\n'])) :
    (ofText settings text).map content = items.filterMap id := by
  have hlines : lines text.toList = items.map DeckLine.raw := by
    rw [htext]
    refine lines_flatMap fun raw hraw => ?_
    obtain ⟨item, hitem, rfl⟩ := List.mem_map.1 hraw
    exact DeckLine.isPlain_raw fun line hline => h line (hline ▸ hitem)
  rw [ofText, fragments, hlines]
  generalize 1 = first
  clear hlines htext
  induction items generalizing first with
  | nil => rfl
  | cons item items ih =>
    have hitem := fragment_raw hs (fun line hline => h line (hline ▸ List.mem_cons_self)) first
    have hrest := ih (fun line hline => h line (List.mem_cons_of_mem _ hline)) (first + 1)
    rw [List.map_cons, List.zipIdx_cons, List.filterMap_cons]
    simp only [hitem]
    cases item with
    | none => exact hrest
    | some line =>
      have hid : (some line :: items).filterMap id = line :: items.filterMap id := rfl
      rw [hid, ← hrest]
      exact gather_cons (h line List.mem_cons_self) first _

end LogicalLine

end InputDeck
