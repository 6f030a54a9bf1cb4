import Mathlib.Data.List.Forall2
import Mathlib.Data.List.SplitBy
import InputDeck.LogicalLine
import InputDeck.Proofs.Text.Outside

/-!
# Logical lines as groups of raw lines

The raw lines that are not dropped stand in groups: every line of a group but the last one goes on
in the next line, and the last one does not, unless the text ends there. Each group is one logical
line. Here this is said without the reader that keeps what is open of a line, and the reader is
shown to do the same: behind a part of a group, it holds open what that part contributes.
-/

namespace InputDeck

open InputDeck.Text

namespace Scan

/-! ## The first of the characters outside quotes -/

/-- Every place of a text where a character stands is between quotes. -/
def AllQuoted (target : Char) (cs : List Char) : Prop :=
  ∀ front rest, cs = front ++ target :: rest → ¬QuotesPaired front

variable {target : Char} {s : State} {cs before after : List Char}

/-- There is no cut exactly when a quote is open at every place where the character stands. -/
theorem cutUnquoted_eq_none_iff_forall : cutUnquoted target s cs = none ↔
    ∀ front rest, cs = front ++ target :: rest → (s.after front).quoted = true := by
  induction cs generalizing s with
  | nil => simp [cutUnquoted]
  | cons c cs ih =>
    rw [cutUnquoted]
    by_cases hc : c = target ∧ s.quoted = false
    · obtain ⟨rfl, hs⟩ := hc
      refine iff_of_false (by simp [hs]) fun h => ?_
      simpa [hs] using h [] cs rfl
    · rw [if_neg hc, Option.map_eq_none_iff, ih]
      constructor
      · rintro h (_ | ⟨d, front⟩) rest hcs
        · obtain ⟨rfl, rfl⟩ := List.cons.inj hcs
          simpa using hc
        · obtain ⟨rfl, hrest⟩ := List.cons.inj hcs
          exact h front rest hrest
      · exact fun h front rest hcs => h (c :: front) rest (by rw [hcs, List.cons_append])

/-- In front of a cut there is none. -/
theorem cutUnquoted_before (h : cutUnquoted target s cs = some (before, after)) :
    cutUnquoted target s before = none := by
  induction cs generalizing s before with
  | nil => cases h
  | cons c cs ih =>
    rw [cutUnquoted] at h
    split at h
    · obtain ⟨rfl, -⟩ := Prod.mk.inj (Option.some.inj h)
      rfl
    · next hc =>
      obtain ⟨⟨b, a⟩, hcut, hparts⟩ := Option.map_eq_some_iff.1 h
      obtain ⟨rfl, rfl⟩ := Prod.mk.inj hparts
      rw [cutUnquoted, if_neg hc, ih hcut, Option.map_none]

/-- A text has no cut exactly when the character stands between quotes wherever it stands. -/
theorem cutUnquoted_eq_none_iff_allQuoted :
    cutUnquoted target {} cs = none ↔ AllQuoted target cs := by
  simp [cutUnquoted_eq_none_iff_forall, State.quoted_after, AllQuoted]

/-- A cut is made at the first place of the character that is not between quotes. -/
theorem cutUnquoted_eq_some_iff_allQuoted :
    cutUnquoted target {} cs = some (before, after) ↔
      cs = before ++ target :: after ∧ QuotesPaired before ∧ AllQuoted target before := by
  constructor
  · intro h
    exact ⟨eq_append_of_cutUnquoted h, quotesPaired_of_after rfl (quoted_after_of_cutUnquoted h),
      cutUnquoted_eq_none_iff_allQuoted.1 (cutUnquoted_before h)⟩
  · rintro ⟨rfl, hpaired, hquoted⟩
    have hclosed : (State.after {} before).quoted = false := by simp [State.quoted_after, hpaired]
    rw [cutUnquoted_append (cutUnquoted_eq_none_iff_allQuoted.2 hquoted), cutUnquoted,
      if_pos ⟨rfl, hclosed⟩]
    simp

end Scan

namespace LogicalLine

open InputDeck.Scan

/-! ## What a raw line contributes -/

/-- The numbered raw lines of a text that are not dropped, cleaned. -/
def keptLines (settings : Settings) (text : List Char) : List (Nat × List Char) :=
  (((lines text).zipIdx 1).map fun (raw, number) => (number, clean raw)).filter
    fun line => !isDropped settings line.2

/-- What a cleaned line contributes: it is cut at its first comment mark outside quotes. -/
inductive IsFragment (settings : Settings) (line : List Char) : Fragment → Prop
  /-- Without such a mark, the whole line is the body. -/
  | bare (h : AllQuoted settings.commentMark line) :
      IsFragment settings line ⟨trimEnd isSpace line, none⟩
  /-- The body stands in front of the mark and the comment behind it. -/
  | commented {front rest : List Char} (hline : line = front ++ settings.commentMark :: rest)
      (hpaired : QuotesPaired front) (hfirst : AllQuoted settings.commentMark front) :
      IsFragment settings line ⟨trimEnd isSpace front, commentOf settings rest⟩

/-- A cleaned line contributes its fragment and nothing else. -/
theorem isFragment_iff {settings : Settings} {line : List Char} {f : Fragment} :
    IsFragment settings line f ↔ fragment settings line = f := by
  constructor
  · rintro (h | ⟨hline, hpaired, hfirst⟩)
    · rw [fragment, cutUnquoted_eq_none_iff_allQuoted.2 h]
    · rw [fragment, cutUnquoted_eq_some_iff_allQuoted.2 ⟨hline, hpaired, hfirst⟩]
  · rintro rfl
    unfold fragment
    split
    · next hcut =>
      obtain ⟨hline, hpaired, hfirst⟩ := cutUnquoted_eq_some_iff_allQuoted.1 hcut
      exact .commented hline hpaired hfirst
    · next hcut => exact .bare (cutUnquoted_eq_none_iff_allQuoted.1 hcut)

/-- The fragments of a text are those of the lines that are kept. -/
theorem fragments_eq_map (settings : Settings) (text : List Char) :
    fragments settings text =
      (keptLines settings text).map fun line => (line.1, fragment settings line.2) := by
  rw [fragments, keptLines, ← List.filterMap_eq_map, ← List.filterMap_eq_filter,
    ← List.filterMap_eq_map, List.filterMap_filterMap, List.filterMap_filterMap]
  refine List.filterMap_congr fun item _ => ?_
  cases h : isDropped settings (clean item.1) <;> simp [h, Option.guard]

/-- The lines that are kept have increasing numbers. -/
theorem pairwise_fragments (settings : Settings) (text : List Char) :
    (fragments settings text).Pairwise fun a b => a.1 < b.1 := by
  have hnumbers : ((lines text).zipIdx 1).Pairwise fun a b => a.2 < b.2 := by
    apply List.pairwise_map.1
    rw [List.zipIdx_map_snd]
    exact List.pairwise_lt_range'
  have hkept : (keptLines settings text).Pairwise fun a b => a.1 < b.1 := by
    apply List.Pairwise.filter
    rwa [List.pairwise_map]
  rwa [fragments_eq_map, List.pairwise_map]

namespace Fragment

/-- Whether a raw line goes on in the next one. -/
def isContinued (settings : Settings) (f : Fragment) : Bool :=
  f.body.getLast? == some settings.continuationMark

/-- What a raw line contributes to the text of its logical line: the body, without the continuation
mark at its end and the spaces in front of it. -/
def part (settings : Settings) (f : Fragment) : List Char :=
  if f.isContinued settings then trimEnd isSpace f.body.dropLast else f.body

end Fragment

/-! ## Groups -/

/-- The texts that lines contribute. -/
def partsOf (settings : Settings) (group : List (Nat × Fragment)) : List (List Char) :=
  group.map fun item => item.2.part settings

/-- The comments of lines, where they have some. -/
def commentsOf (group : List (Nat × Fragment)) : List (List Char) :=
  group.filterMap fun item => item.2.comment

/-- The logical line of a group of raw lines. -/
def ofGroup (settings : Settings) (group : List (Nat × Fragment)) : LogicalLine where
  text := String.ofList (trim isBlank (joinSpaced (partsOf settings group)))
  number := group.head?.elim 0 Prod.fst
  comment :=
    let comments := commentsOf group
    if comments = [] then none else some (String.ofList (joinSpaced comments))

/-- The cut of lines into the longest groups in which each line goes on in the next one. -/
structure IsGrouping (settings : Settings) (items : List (Nat × Fragment))
    (groups : List (List (Nat × Fragment))) : Prop where
  /-- Every line stands in one group, and the order is kept. -/
  flatten_eq : groups.flatten = items
  /-- No group is empty. -/
  ne_nil : [] ∉ groups
  /-- A line with another one behind it in its group goes on. -/
  isContinued : ∀ group ∈ groups, group.IsChain fun item _ => item.2.isContinued settings = true
  /-- The last line of a group with another one behind it does not. -/
  isClosed : groups.IsChain fun group _ =>
    ∀ item ∈ group.getLast?, item.2.isContinued settings = false

variable {settings : Settings} {item : Nat × Fragment} {front group rest : List (Nat × Fragment)}

/-- Lines can be cut into such groups. -/
theorem exists_isGrouping (settings : Settings) (items : List (Nat × Fragment)) :
    ∃ groups, IsGrouping settings items groups := by
  let goesOn (item _next : Nat × Fragment) : Bool := item.2.isContinued settings
  refine ⟨items.splitBy goesOn, items.flatten_splitBy goesOn, items.nil_notMem_splitBy goesOn,
    fun group hgroup => List.isChain_of_mem_splitBy hgroup, ?_⟩
  refine (items.isChain_getLast_head_splitBy goesOn).imp ?_
  intro group next hends item hitem
  obtain ⟨hgroup, _, hlast⟩ := hends
  rw [List.getLast?_eq_some_getLast hgroup] at hitem
  obtain rfl := Option.some.inj hitem
  exact hlast

/-- A text is joined to those behind it by a space. -/
theorem joinSpaced_cons (cs : List Char) {texts : List (List Char)} (h : texts ≠ []) :
    joinSpaced (cs :: texts) = cs ++ ' ' :: joinSpaced texts := by
  rw [joinSpaced]
  exact h

/-- One more text is joined by a space. -/
theorem joinSpaced_append_singleton {texts : List (List Char)} (h : texts ≠ []) (cs : List Char) :
    joinSpaced (texts ++ [cs]) = joinSpaced texts ++ ' ' :: cs := by
  induction texts with
  | nil => exact absurd rfl h
  | cons ds texts ih =>
    by_cases hne : texts = []
    · rw [hne]
      rfl
    · rw [List.cons_append, joinSpaced_cons ds (by simp), joinSpaced_cons ds hne, ih hne,
        List.append_assoc, List.cons_append]

/-- What is open behind a part of a group. -/
def openOf (settings : Settings) : List (Nat × Fragment) → Option Open
  | [] => none
  | first :: rest => some ⟨first.1, joinSpaced (partsOf settings (first :: rest))⟩

/-- One more line is put behind what is open. -/
theorem openOf_append_singleton (settings : Settings) (front : List (Nat × Fragment))
    (item : Nat × Fragment) :
    openOf settings (front ++ [item]) =
      some (extend (openOf settings front) item.1 (item.2.part settings)) := by
  cases front with
  | nil => rfl
  | cons first front =>
    have hne : partsOf settings (first :: front) ≠ [] := by simp [partsOf]
    have hparts : partsOf settings (first :: (front ++ [item])) =
        partsOf settings (first :: front) ++ [item.2.part settings] := by simp [partsOf]
    simp only [List.cons_append, openOf, extend, hparts, joinSpaced_append_singleton hne]

theorem commentsOf_append_singleton (front : List (Nat × Fragment)) (item : Nat × Fragment) :
    commentsOf (front ++ [item]) = commentsOf front ++ item.2.comment.toList := by
  cases h : item.2.comment <;> simp [commentsOf, h]

/-- What is open behind a whole group is closed to its logical line. -/
theorem close_of_openOf {line : Open} (h : openOf settings group = some line) :
    close line (commentsOf group) = ofGroup settings group := by
  cases group with
  | nil => cases h
  | cons first rest =>
    obtain rfl := Option.some.inj h
    simp only [close, ofGroup, List.isEmpty_iff, List.head?_cons, Option.elim_some]

/-- The mark at the end of a line that goes on is taken off. -/
theorem stripLast_of_isContinued {f : Fragment} (h : f.isContinued settings = true) :
    stripLast settings.continuationMark f.body = some f.body.dropLast := by
  rw [stripLast, if_pos (beq_iff_eq.1 h)]

theorem stripLast_of_not_isContinued {f : Fragment} (h : f.isContinued settings = false) :
    stripLast settings.continuationMark f.body = none := by
  rw [stripLast, if_neg (ne_of_beq_false h)]

/-- Behind a line that goes on, the reader holds open what the group contributes so far. -/
theorem gather_of_isContinued (h : item.2.isContinued settings = true) :
    gather settings (openOf settings front) (commentsOf front) (item :: rest) =
      gather settings (openOf settings (front ++ [item])) (commentsOf (front ++ [item])) rest := by
  rw [openOf_append_singleton, commentsOf_append_singleton, Fragment.part, if_pos h, gather]
  simp only [stripLast_of_isContinued h]

/-- Behind a line that does not go on, the reader has the logical line of the group. -/
theorem gather_of_not_isContinued (h : item.2.isContinued settings = false) :
    gather settings (openOf settings front) (commentsOf front) (item :: rest) =
      ofGroup settings (front ++ [item]) :: gather settings none [] rest := by
  have hopen := openOf_append_singleton settings front item
  rw [Fragment.part, if_neg (by simp [h])] at hopen
  rw [gather]
  simp only [stripLast_of_not_isContinued h]
  rw [← close_of_openOf hopen, commentsOf_append_singleton]

/-- At the end of the text, what is open is a logical line. -/
theorem gather_nil (h : front ≠ []) :
    gather settings (openOf settings front) (commentsOf front) [] = [ofGroup settings front] := by
  obtain ⟨first, others, rfl⟩ := List.exists_cons_of_ne_nil h
  rw [← close_of_openOf rfl]
  rfl

/-- Behind a part of a group, the reader goes through the rest of it and has the logical line of
the group, when the group ends in a line that does not go on or at the end of the text. -/
theorem gather_group (hne : group ≠ [])
    (hchain : group.IsChain fun item _ => item.2.isContinued settings = true)
    (hlast : rest ≠ [] → ∀ item ∈ group.getLast?, item.2.isContinued settings = false) :
    gather settings (openOf settings front) (commentsOf front) (group ++ rest) =
      ofGroup settings (front ++ group) :: gather settings none [] rest := by
  induction group generalizing front with
  | nil => exact absurd rfl hne
  | cons item group ih =>
    cases group with
    | nil =>
      rw [List.singleton_append]
      by_cases hitem : item.2.isContinued settings = true
      · -- Only the end of the text ends a group in a line that goes on.
        obtain rfl : rest = [] := by
          by_contra hrest
          exact absurd hitem (by simp [hlast hrest item rfl])
        rw [gather_of_isContinued hitem, gather_nil (by simp), gather]
      · exact gather_of_not_isContinued (by simpa using hitem)
    | cons next group =>
      rw [List.isChain_cons_cons] at hchain
      rw [List.cons_append, gather_of_isContinued hchain.1,
        ih (by simp) hchain.2 (by simpa using hlast), List.append_assoc, List.singleton_append]

/-- The reader gives the logical lines of the groups. -/
theorem gather_eq_map {items : List (Nat × Fragment)} {groups : List (List (Nat × Fragment))}
    (h : IsGrouping settings items groups) :
    gather settings none [] items = groups.map (ofGroup settings) := by
  obtain ⟨rfl, hne, hcontinued, hclosed⟩ := h
  -- The reader begins each group with nothing open, as behind the empty part of it.
  induction groups with
  | nil => rfl
  | cons group groups ih =>
    obtain ⟨hgroup, hrest⟩ := not_or.1 (mt List.mem_cons.2 hne)
    have hlast : groups.flatten ≠ [] →
        ∀ item ∈ group.getLast?, item.2.isContinued settings = false := by
      intro hflat
      cases groups with
      | nil => exact absurd rfl hflat
      | cons next groups => exact (List.isChain_cons_cons.1 hclosed).1
    rw [List.flatten_cons, List.map_cons, ← ih hrest (fun g hg => hcontinued g (by simp [hg]))
      hclosed.tail]
    exact @gather_group settings [] group groups.flatten (Ne.symm hgroup)
      (hcontinued group List.mem_cons_self) hlast

/-- The logical lines of a text are those of its groups, however these are found. -/
theorem ofText_eq_map {text : String} {groups : List (List (Nat × Fragment))}
    (h : IsGrouping settings (fragments settings text.toList) groups) :
    ofText settings text = groups.map (ofGroup settings) := gather_eq_map h

/-- Lines with increasing numbers make logical lines with increasing numbers. -/
theorem IsGrouping.pairwise_number {items : List (Nat × Fragment)}
    {groups : List (List (Nat × Fragment))} (h : IsGrouping settings items groups)
    (hitems : items.Pairwise fun a b => a.1 < b.1) :
    (groups.map (ofGroup settings)).Pairwise fun a b => a.number < b.number := by
  rw [← h.flatten_eq, List.pairwise_flatten] at hitems
  refine List.pairwise_map.2 (hitems.2.imp_of_mem ?_)
  intro group next hgroup hnext hlt
  cases group with
  | nil => exact absurd hgroup h.ne_nil
  | cons first group =>
    cases next with
    | nil => exact absurd hnext h.ne_nil
    | cons second next => exact hlt first List.mem_cons_self second List.mem_cons_self

/-- What the logical lines of a text are: the lines that are kept are taken apart, put into groups,
and each group is read as one line. -/
structure IsReading (settings : Settings) (text : String) (read : List LogicalLine)
    (items : List (Nat × Fragment)) (groups : List (List (Nat × Fragment))) : Prop where
  /-- Each line that is kept is taken apart, with its number. -/
  items_eq : List.Forall₂ (fun line item => item.1 = line.1 ∧ IsFragment settings line.2 item.2)
    (keptLines settings text.toList) items
  /-- The lines are put into groups. -/
  isGrouping : IsGrouping settings items groups
  /-- Each group is one logical line. -/
  read_eq : read = groups.map (ofGroup settings)

/-- Each kept line is taken apart in one way. -/
theorem forall₂_isFragment_iff {kept : List (Nat × List Char)} {items : List (Nat × Fragment)} :
    List.Forall₂ (fun line item => item.1 = line.1 ∧ IsFragment settings line.2 item.2)
        kept items ↔
      kept.map (fun line => (line.1, fragment settings line.2)) = items := by
  have hfragment : ∀ (line : Nat × List Char) (item : Nat × Fragment),
      item.1 = line.1 ∧ IsFragment settings line.2 item.2 ↔
        (line.1, fragment settings line.2) = item := by
    intro line item
    rw [isFragment_iff, Prod.ext_iff, eq_comm]
  simp only [hfragment]
  rw [← List.forall₂_map_left_iff, List.forall₂_eq_eq_eq]

/-- The logical lines of a text are its lines without the dropped ones, taken apart and put into
groups, and nothing else; their numbers increase. -/
theorem ofText_iff_isReading (settings : Settings) (text : String) :
    (∀ read, read = ofText settings text ↔
      ∃ items groups, IsReading settings text read items groups) ∧
    (ofText settings text).Pairwise fun a b => a.number < b.number := by
  obtain ⟨groups, hgroups⟩ := exists_isGrouping settings (fragments settings text.toList)
  refine ⟨fun read => ⟨?_, ?_⟩, ?_⟩
  · rintro rfl
    exact ⟨_, groups, forall₂_isFragment_iff.2 (fragments_eq_map settings _).symm, hgroups,
      ofText_eq_map hgroups⟩
  · rintro ⟨items, others, hitems, hothers, rfl⟩
    obtain rfl := forall₂_isFragment_iff.1 hitems
    rw [← fragments_eq_map] at hothers
    exact (ofText_eq_map hothers).symm
  · rw [ofText_eq_map hgroups]
    exact hgroups.pairwise_number (pairwise_fragments settings _)

example : ofText {} "# header\na = 1 + &  # first\n    2  # second\n" =
    [⟨"a = 1 + 2", 2, some "first second"⟩] := by
  decide +kernel

end LogicalLine

end InputDeck
