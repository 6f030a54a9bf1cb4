import InputDeck.Suit.Path

/-!
# Segments of paths

A path is the list of its segments: a text between slashes each, with neither dots nor slashes in
it. The root has none. The path beside another one takes the place of its last segment.
-/

namespace InputDeck

open InputDeck.Text

namespace SuitPath

/-- The segments of paths; identifiers are some of them. -/
structure IsSegment (s : String) : Prop where
  /-- No segment is empty. -/
  ne_empty : s ≠ ""
  /-- No dot separates segments within one. -/
  dot_notMem : '.' ∉ s.toList
  /-- No slash does. -/
  slash_notMem : '/' ∉ s.toList

/-- A segment is known by its characters. -/
theorem isSegment_iff {s : String} :
    IsSegment s ↔ s ≠ "" ∧ '.' ∉ s.toList ∧ '/' ∉ s.toList :=
  ⟨fun h => ⟨h.ne_empty, h.dot_notMem, h.slash_notMem⟩, fun h => ⟨h.1, h.2.1, h.2.2⟩⟩

instance : DecidablePred IsSegment := fun _ => decidable_of_iff' _ isSegment_iff

/-- The path of a list of segments; the root has no segments. -/
def ofSegments (segments : List String) : SuitPath := ofString ("/".intercalate segments)

@[simp] theorem ofSegments_nil : ofSegments [] = root := rfl

variable {segments others : List String}

/-- Behind other segments stands a slash and the last one. -/
private theorem toList_intercalate_concat (hne : segments ≠ []) (s : String) :
    ("/".intercalate (segments ++ [s])).toList =
      ("/".intercalate segments).toList ++ '/' :: s.toList := by
  rw [String.intercalate_append_of_ne_nil hne (List.cons_ne_nil s []), String.intercalate_singleton,
    String.toList_append, String.toList_append, List.append_assoc]
  rfl

/-- The first of several segments stands in front of a slash and the others. -/
private theorem toList_intercalate_cons (s : String) (hne : segments ≠ []) :
    ("/".intercalate (s :: segments)).toList =
      s.toList ++ '/' :: ("/".intercalate segments).toList := by
  rw [String.intercalate_cons_of_ne_nil hne, String.toList_append, String.toList_append,
    List.append_assoc]
  rfl

/-- Segments with slashes between them are spelled as paths are, and the root is not. -/
private theorem isCanonical_intercalate (hne : segments ≠ []) (h : ∀ s ∈ segments, IsSegment s) :
    '.' ∉ ("/".intercalate segments).toList ∧ ("/".intercalate segments).toList ≠ [] ∧
      ("/".intercalate segments).toList.head? ≠ some '/' ∧
      ("/".intercalate segments).toList.getLast? ≠ some '/' := by
  induction segments with
  | nil => exact absurd rfl hne
  | cons s segments ih =>
    obtain ⟨hs, hsegments⟩ := List.forall_mem_cons.1 h
    have hempty : s.toList ≠ [] := by simpa using hs.ne_empty
    have hhead : s.toList.head? ≠ some '/' := fun he => hs.slash_notMem (List.mem_of_head? he)
    by_cases hsingle : segments = []
    · subst hsingle
      rw [String.intercalate_singleton]
      exact ⟨hs.dot_notMem, hempty, hhead, fun he => hs.slash_notMem (List.mem_of_getLast? he)⟩
    · obtain ⟨hdot, hrest, -, hlast⟩ := ih hsingle hsegments
      rw [toList_intercalate_cons s hsingle]
      obtain ⟨c, cs, hcs⟩ := List.exists_cons_of_ne_nil hempty
      obtain ⟨d, ds, hds⟩ := List.exists_cons_of_ne_nil hrest
      refine ⟨?_, by simp, ?_, ?_⟩
      · rw [List.mem_append, List.mem_cons, not_or, not_or]
        exact ⟨hs.dot_notMem, by decide, hdot⟩
      · simpa [hcs] using hhead
      · simpa [hds, List.getLast?_append] using hlast

/-- The text of a path of segments has slashes between them. -/
theorem text_ofSegments (hne : segments ≠ []) (h : ∀ s ∈ segments, IsSegment s) :
    (ofSegments segments).text = "/".intercalate segments := by
  obtain ⟨hdot, hempty, hhead, hlast⟩ := isCanonical_intercalate hne h
  have hcanonical : canonical ("/".intercalate segments).toList = ("/".intercalate segments).toList :=
    IsCanonical.canonical_eq ⟨hdot, .inr ⟨hempty, hhead, hlast⟩⟩
  change String.ofList (canonical ("/".intercalate segments).toList) = _
  rw [hcanonical, String.ofList_toList]

/-- Above a path are its segments without the last one. -/
theorem parentText_ofSegments (h : ∀ s ∈ segments, IsSegment s) :
    (ofSegments segments).parentText = ("/".intercalate segments.dropLast).toList := by
  rcases List.eq_nil_or_concat segments with rfl | ⟨front, s, hconcat⟩
  · rfl
  · rw [List.concat_eq_append] at hconcat
    subst hconcat
    have hs : IsSegment s := h s (by simp)
    rw [List.dropLast_concat, parentText, text_ofSegments (by simp) h]
    by_cases hfront : front = []
    · subst hfront
      rw [List.nil_append, String.intercalate_singleton, cutLast_eq_none_iff.2 hs.slash_notMem]
      rfl
    · rw [toList_intercalate_concat hfront, cutLast_append_cons _ hs.slash_notMem]

/-- No slash is trimmed off segments, but the one in front of them is. -/
private theorem trim_slash_intercalate (h : ∀ s ∈ segments, IsSegment s) :
    trim isSlash ('/' :: ("/".intercalate segments).toList) =
      ("/".intercalate segments).toList := by
  have hslash : isSlash '/' = true := rfl
  rw [trim, List.dropWhile_cons_of_pos hslash]
  by_cases hne : segments = []
  · subst hne
    rfl
  · obtain ⟨-, -, hhead, hlast⟩ := isCanonical_intercalate hne h
    apply trim_eq_self
    · intro c hc
      have hne : c ≠ '/' := fun he => hhead (he ▸ hc)
      simp [isSlash, hne]
    · intro c hc
      have hne : c ≠ '/' := fun he => hlast (he ▸ hc)
      simp [isSlash, hne]

/-- Segments have no text only when there are none. -/
private theorem toList_intercalate_eq_nil_iff (h : ∀ s ∈ segments, IsSegment s) :
    ("/".intercalate segments).toList = [] ↔ segments = [] := by
  constructor
  · intro hempty
    by_cases hne : segments = []
    · exact hne
    · exact absurd hempty (isCanonical_intercalate hne h).2.1
  · rintro rfl
    rfl

/-- The path beside another one has other segments in place of the last. -/
theorem sibling_ofSegments (h : ∀ s ∈ segments, IsSegment s) (hothers : ∀ s ∈ others, IsSegment s) :
    (ofSegments segments).sibling (String.ofList ('/' :: ("/".intercalate others).toList)) =
      ofSegments (segments.dropLast ++ others) := by
  have hfront : ∀ s ∈ segments.dropLast, IsSegment s := fun s hs => h s (List.dropLast_subset _ hs)
  simp only [sibling, String.toList_ofList, trim_slash_intercalate hothers, parentText_ofSegments h,
    toList_intercalate_eq_nil_iff hfront, toList_intercalate_eq_nil_iff hothers]
  by_cases hparent : segments.dropLast = []
  · rw [if_pos hparent, hparent, List.nil_append, String.ofList_toList]
    rfl
  · rw [if_neg hparent]
    by_cases hrest : others = []
    · rw [if_pos hrest, hrest, List.append_nil, String.ofList_toList]
      rfl
    · rw [if_neg hrest, ofSegments, String.intercalate_append_of_ne_nil hparent hrest]
      congr 1
      apply String.toList_inj.1
      simp

end SuitPath

end InputDeck
