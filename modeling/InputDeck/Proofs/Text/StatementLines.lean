import Mathlib.Data.List.TakeWhile
import InputDeck.Proofs.Text.Enclosed
import InputDeck.Proofs.Text.Groups

/-!
# What is left in logical lines

Whether a line is empty and where its comment begins is asked of each raw line alone. So a logical
line can be empty, when its raw lines are continuation marks and nothing else. And it can have the
comment mark outside quotes, where a string that a raw line leaves open ends in a later one and the
mark stands behind it. There is no other such line.
-/

namespace InputDeck

open InputDeck.Text

namespace Text

/-- A text is what is trimmed and characters of the class on both sides of it. -/
theorem exists_eq_append_trim (p : Char → Bool) (cs : List Char) :
    ∃ front back, cs = front ++ (trim p cs ++ back) ∧
      (∀ c ∈ front, p c = true) ∧ ∀ c ∈ back, p c = true := by
  refine ⟨cs.takeWhile p, ((cs.dropWhile p).reverse.takeWhile p).reverse, ?_,
    fun c hc => List.mem_takeWhile_imp hc,
    fun c hc => List.mem_takeWhile_imp (List.mem_reverse.1 hc)⟩
  rw [trim, trimEnd_append, List.takeWhile_append_dropWhile]

/-- Nothing is left exactly of a text of such characters. -/
theorem trim_eq_nil_iff {p : Char → Bool} {cs : List Char} :
    trim p cs = [] ↔ ∀ c ∈ cs, p c = true := by
  obtain ⟨front, back, hcs, hfront, hback⟩ := exists_eq_append_trim p cs
  constructor
  · intro h c hc
    rw [hcs, h, List.nil_append] at hc
    exact (List.mem_append.1 hc).elim (hfront c) (hback c)
  · intro h
    by_contra hne
    obtain ⟨c, hc⟩ := Option.ne_none_iff_exists'.1 (mt List.head?_eq_none_iff.1 hne)
    have hmem : c ∈ trim p cs := List.mem_of_head? hc
    simpa [head?_trim hc] using h c ((trim_sublist p cs).subset hmem)

end Text

namespace Scan

variable {target : Char} {cs ds : List Char}

/-- What stands outside quotes in the front of a text stands outside quotes in the text. -/
theorem outside_subset_of_isPrefix (h : cs <+: ds) (quoted : Bool) :
    outside quoted cs ⊆ outside quoted ds := by
  obtain ⟨rest, rfl⟩ := h
  rw [outside_append_eq]
  exact List.subset_append_left _ _

/-- Whether a quote is open behind two texts, by what each of them leaves open. -/
theorem not_quotesPaired_append (cs ds : List Char) :
    (!decide (QuotesPaired (cs ++ ds))) =
      (!decide (QuotesPaired cs) ^^ !decide (QuotesPaired ds)) := by
  have happend := State.quoted_after {} (cs ++ ds)
  rw [State.after_append, State.quoted_after, State.quoted_after] at happend
  simpa using happend.symm

/-- Trimming takes nothing but characters of the class off what stands outside quotes. -/
theorem mem_outside_trim {p : Char → Bool} (hquote : p '"' = false) (htarget : p target = false) :
    target ∈ outside false (trim p cs) ↔ target ∈ outside false cs := by
  obtain ⟨front, back, hcs, hfront, hback⟩ := exists_eq_append_trim p cs
  have hnotMem : ∀ {ds : List Char}, (∀ d ∈ ds, p d = true) →
      ∀ quoted, target ∉ outside quoted ds := by
    intro ds hds quoted hmem
    simpa [htarget] using hds _ (outside_subset quoted ds hmem)
  have hpaired : QuotesPaired front := .of_notMem fun hmem => by
    simpa [hquote] using hfront _ hmem
  conv_rhs => rw [hcs, outside_append hpaired, outside_append_eq]
  simp [hnotMem hfront, hnotMem hback]

end Scan

namespace LogicalLine

open InputDeck.Scan

variable {settings : Settings}

/-! ## Joined texts -/

/-- What is joined are the characters of the texts and spaces. -/
theorem forall_mem_joinSpaced {P : Char → Prop} (hspace : P ' ') {texts : List (List Char)} :
    (∀ c ∈ joinSpaced texts, P c) ↔ ∀ cs ∈ texts, ∀ c ∈ cs, P c := by
  induction texts with
  | nil => simp [joinSpaced]
  | cons cs texts ih =>
    by_cases hne : texts = []
    · simp [hne, joinSpaced]
    · rw [joinSpaced_cons cs hne, List.forall_mem_append, List.forall_mem_cons, ih,
        List.forall_mem_cons]
      simp [hspace]

/-- A character stands outside the quotes of joined texts where it does in one of them, read behind
the texts in front of it. -/
theorem mem_outside_joinSpaced {target : Char} (hspace : target ≠ ' ') {quoted : Bool}
    {texts : List (List Char)} : target ∈ outside quoted (joinSpaced texts) ↔
      ∃ front cs rest, texts = front ++ cs :: rest ∧
        target ∈ outside (quoted ^^ !decide (QuotesPaired front.flatten)) cs := by
  induction texts generalizing quoted with
  | nil => simp [joinSpaced, outside]
  | cons cs texts ih =>
    have hsplit : target ∈ outside quoted (joinSpaced (cs :: texts)) ↔
        target ∈ outside quoted cs ∨
          target ∈ outside (quoted ^^ !decide (QuotesPaired cs)) (joinSpaced texts) := by
      by_cases hne : texts = []
      · simp [hne, joinSpaced, outside]
      · rw [joinSpaced_cons cs hne, outside_append_eq, List.mem_append, outside]
        cases (quoted ^^ !decide (QuotesPaired cs)) <;> simp [hspace]
    rw [hsplit, ih]
    constructor
    · rintro (hmem | ⟨front, ds, rest, rfl, hmem⟩)
      · exact ⟨[], cs, texts, rfl, by simpa [QuotesPaired] using hmem⟩
      · refine ⟨cs :: front, ds, rest, rfl, ?_⟩
        rwa [List.flatten_cons, not_quotesPaired_append, ← Bool.xor_assoc]
    · rintro ⟨_ | ⟨first, front⟩, ds, rest, hsplit, hmem⟩
      · obtain ⟨rfl, rfl⟩ := List.cons.inj hsplit
        exact .inl (by simpa [QuotesPaired] using hmem)
      · obtain ⟨rfl, rfl⟩ := List.cons.inj hsplit
        refine .inr ⟨front, ds, rest, rfl, ?_⟩
        rwa [List.flatten_cons, not_quotesPaired_append, ← Bool.xor_assoc] at hmem

/-! ## Bodies -/

/-- A space is a blank. -/
theorem isSpace_of_not_isBlank {c : Char} (h : isBlank c = false) : isSpace c = false := by
  apply Bool.eq_false_iff.2
  intro hc
  obtain rfl : c = ' ' := by simpa [isSpace] using hc
  simp at h

/-- The first character of a line that is kept is no blank and not the comment mark. -/
theorem exists_cons_of_keptLines {text line : List Char} {number : Nat}
    (h : (number, line) ∈ keptLines settings text) :
    ∃ c rest, line = c :: rest ∧ isBlank c = false ∧ c ≠ settings.commentMark := by
  obtain ⟨hline, hkept⟩ := List.mem_filter.1 h
  obtain ⟨⟨raw, number'⟩, -, heq⟩ := List.mem_map.1 hline
  obtain ⟨-, rfl⟩ := Prod.mk.inj heq
  cases hclean : clean raw with
  | nil => simp [hclean, isDropped] at hkept
  | cons c rest =>
    refine ⟨c, rest, rfl, ?_, by simpa [hclean, isDropped] using hkept⟩
    rw [clean] at hclean
    have hspace := List.head?_dropWhile_not isSpace (raw.filter fun c => c == ' ' || !isBlank c)
    rw [hclean] at hspace
    have hmem : c ∈ raw.filter fun c => c == ' ' || !isBlank c := by
      apply (List.dropWhile_sublist isSpace).subset
      rw [hclean]
      exact List.mem_cons_self
    have hplain := (List.mem_filter.1 hmem).2
    simp only [List.head?_cons, isSpace] at hspace
    simpa [hspace] using hplain

/-- The body of a kept line begins with a character that is no blank and holds no comment mark
outside quotes. -/
theorem body_of_mem_fragments (hmark : settings.commentMark ≠ '"') {text : List Char}
    {item : Nat × Fragment} (h : item ∈ fragments settings text) :
    (∃ c rest, item.2.body = c :: rest ∧ isBlank c = false) ∧
      settings.commentMark ∉ outside false item.2.body := by
  rw [fragments_eq_map] at h
  obtain ⟨⟨number, line⟩, hkept, rfl⟩ := List.mem_map.1 h
  obtain ⟨c, rest, rfl, hblank, hne⟩ := exists_cons_of_keptLines hkept
  have hspace := isSpace_of_not_isBlank hblank
  have hbody : ∀ {front : List Char}, AllQuoted settings.commentMark (c :: front) →
      (∃ d rest, trimEnd isSpace (c :: front) = d :: rest ∧ isBlank d = false) ∧
        settings.commentMark ∉ outside false (trimEnd isSpace (c :: front)) := by
    intro front hquoted
    refine ⟨⟨c, trimEnd isSpace front, trimEnd_cons hspace front, hblank⟩, fun hmem => ?_⟩
    have hbegins : trimEnd isSpace (c :: front) <+: c :: front :=
      ⟨_, trimEnd_append isSpace (c :: front)⟩
    exact (cutUnquoted_eq_none_iff (s := {}) hmark).1
      (cutUnquoted_eq_none_iff_allQuoted.2 hquoted) (outside_subset_of_isPrefix hbegins false hmem)
  generalize hf : fragment settings (c :: rest) = f
  obtain h | @⟨front, after, hline, -, hquoted⟩ := isFragment_iff.2 hf
  · exact hbody h
  · cases front with
    | nil => exact absurd (List.cons.inj hline).1 hne
    | cons d front =>
      obtain ⟨rfl, -⟩ := List.cons.inj hline
      exact hbody hquoted

/-- What a line contributes to the text is the front of its body. -/
theorem Fragment.part_isPrefix (settings : Settings) (f : Fragment) :
    f.part settings <+: f.body := by
  rw [Fragment.part]
  split
  · have hdropLast : trimEnd isSpace f.body.dropLast <+: f.body.dropLast :=
      ⟨_, trimEnd_append isSpace f.body.dropLast⟩
    exact hdropLast.trans (List.dropLast_prefix f.body)
  · exact List.prefix_refl _

/-- A line contributes nothing but blanks exactly when its body is a continuation mark alone. -/
theorem Fragment.part_isBlank_iff {f : Fragment} {c : Char} {rest : List Char}
    (hbody : f.body = c :: rest) (hblank : isBlank c = false) :
    (∀ d ∈ f.part settings, isBlank d = true) ↔ f.body = [settings.continuationMark] := by
  have hspace := isSpace_of_not_isBlank hblank
  rw [Fragment.part, Fragment.isContinued, hbody]
  constructor
  · intro h
    split at h
    · next hlast =>
      cases rest with
      | nil => simpa using hlast
      | cons d rest =>
        rw [List.dropLast_cons_cons, trimEnd_cons hspace] at h
        simpa [hblank] using h c List.mem_cons_self
    · simpa [hblank] using h c List.mem_cons_self
  · rintro h
    rw [h]
    simp

/-! ## Logical lines -/

/-- With the usual marks, the logical lines of a text are those of its groups. One is empty exactly
when each raw line of its group is a continuation mark with or without a comment, and it has a
comment mark outside quotes exactly when a raw line has one behind the end of a string that was
opened in an earlier raw line of the group. -/
theorem ofText_empty_or_mark (text : String) :
    ∃ groups, IsGrouping {} (fragments {} text.toList) groups ∧
      ofText {} text = groups.map (ofGroup {}) ∧
      ∀ group ∈ groups,
        ((ofGroup {} group).text = "" ↔ ∀ item ∈ group, item.2.body = ['&']) ∧
        ('#' ∈ outside false (ofGroup {} group).text.toList ↔
          ∃ front item rest, group = front ++ item :: rest ∧
            ¬QuotesPaired (partsOf {} front).flatten ∧
            '#' ∈ outside true (item.2.part {})) := by
  obtain ⟨groups, hgroups⟩ := exists_isGrouping {} (fragments {} text.toList)
  refine ⟨groups, hgroups, ofText_eq_map hgroups, fun group hgroup => ?_⟩
  have hitems : ∀ item ∈ group, (∃ c rest, item.2.body = c :: rest ∧ isBlank c = false) ∧
      '#' ∉ outside false item.2.body := by
    intro item hitem
    have hmem : item ∈ fragments {} text.toList := by
      rw [← hgroups.flatten_eq]
      exact List.mem_flatten.2 ⟨group, hgroup, hitem⟩
    exact body_of_mem_fragments (by decide) hmem
  constructor
  · have hempty : (ofGroup {} group).text = "" ↔
        ∀ item ∈ group, ∀ c ∈ item.2.part {}, isBlank c = true := by
      rw [← String.toList_inj]
      simp only [ofGroup, String.toList_ofList]
      rw [String.toList_empty, trim_eq_nil_iff, forall_mem_joinSpaced (by simp), partsOf,
        List.forall_mem_map]
    rw [hempty]
    refine forall₂_congr fun item hitem => ?_
    obtain ⟨⟨c, rest, hbody, hblank⟩, -⟩ := hitems item hitem
    exact Fragment.part_isBlank_iff hbody hblank
  · have hmark : '#' ∈ outside false (ofGroup {} group).text.toList ↔
        '#' ∈ outside false (joinSpaced (partsOf {} group)) := by
      simp only [ofGroup, String.toList_ofList]
      exact mem_outside_trim (by decide) (by decide)
    rw [hmark, mem_outside_joinSpaced (by decide)]
    constructor
    · rintro ⟨front, part, rest, hparts, hmem⟩
      obtain ⟨before, others, rfl, hbefore, hothers⟩ := List.map_eq_append_iff.1 hparts
      obtain ⟨item, after, rfl, rfl, rfl⟩ := List.map_eq_cons_iff.1 hothers
      change partsOf {} before = front at hbefore
      subst hbefore
      refine ⟨before, item, after, rfl, ?_⟩
      -- The raw line alone has no such mark, so what stands in front of it leaves a quote open.
      by_cases hpaired : QuotesPaired (partsOf {} before).flatten
      · have hbody : '#' ∈ outside false item.2.body :=
          outside_subset_of_isPrefix (item.2.part_isPrefix {}) false (by simpa [hpaired] using hmem)
        exact absurd hbody (hitems item (by simp)).2
      · exact ⟨hpaired, by simpa [hpaired] using hmem⟩
    · rintro ⟨before, item, after, rfl, hpaired, hmem⟩
      refine ⟨partsOf {} before, item.2.part {}, partsOf {} after, by simp [partsOf], ?_⟩
      simpa [hpaired] using hmem

/-- The mark of a continuation is a line of its own, and the quotes of two joined lines are those
of one string in front of a comment mark. -/
theorem empty_line_and_mark_behind_string :
    ofText {} "&" = [⟨"", 1, none⟩] ∧
    ofText {} "x = \"a &\nb\" # c" = [⟨"x = \"a b\" # c", 1, none⟩] ∧
    '#' ∈ outside false "x = \"a b\" # c".toList := by
  decide +kernel

end LogicalLine

end InputDeck
