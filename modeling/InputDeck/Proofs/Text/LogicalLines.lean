import InputDeck.LogicalLine

/-!
# What logical lines are made of

The comment of a logical line is made of the comments of its fragments by joining, so what joining
keeps holds of it when it holds of them. In particular no comment is empty.
-/

namespace InputDeck.LogicalLine

open InputDeck.Text

/-- Texts that all have a property which joining keeps have it when they are joined. -/
theorem joinSpaced_induction {P : List Char → Prop}
    (hjoin : ∀ cs ds, P cs → P ds → P (cs ++ ' ' :: ds)) {texts : List (List Char)}
    (hne : texts ≠ []) (h : ∀ cs ∈ texts, P cs) : P (joinSpaced texts) := by
  fun_induction joinSpaced texts with
  | case1 => exact absurd rfl hne
  | case2 cs => exact h cs (by simp)
  | case3 cs rest hrest ih =>
    exact hjoin _ _ (h cs (by simp)) (ih (by simpa using hrest) fun ds hds => h ds (by simp [hds]))

/-- What holds of the comments of all fragments, and is kept by joining, holds of the comments of
the logical lines. -/
theorem comment_induction {settings : Settings} {P : List Char → Prop}
    (hjoin : ∀ cs ds, P cs → P ds → P (cs ++ ' ' :: ds)) {pending : Option Open}
    {comments : List (List Char)} {fragments : List (Nat × Fragment)}
    (hcomments : ∀ cs ∈ comments, P cs)
    (hfragments : ∀ item ∈ fragments, ∀ cs ∈ item.2.comment, P cs) {line : LogicalLine}
    (hline : line ∈ gather settings pending comments fragments) {text : String}
    (htext : line.comment = some text) : P text.toList := by
  have hclose : ∀ {pending : Open} {comments : List (List Char)}, (∀ cs ∈ comments, P cs) →
      (close pending comments).comment = some text → P text.toList := by
    intro pending comments hcomments h
    simp only [close] at h
    split at h
    · cases h
    · next hne =>
      obtain rfl := Option.some.inj h
      rw [String.toList_ofList]
      exact joinSpaced_induction hjoin (by simpa using hne) hcomments
  fun_induction gather settings pending comments fragments with
  | case1 comments pending =>
    obtain rfl := List.mem_singleton.1 hline
    exact hclose hcomments htext
  | case2 => cases hline
  | case3 pending comments number fragment rest comments' head hhead ih =>
    refine ih ?_ (fun item hitem => hfragments item (by simp [hitem])) hline
    intro cs hcs
    rcases List.mem_append.1 hcs with hcs | hcs
    · exact hcomments cs hcs
    · exact hfragments _ List.mem_cons_self cs (by simpa using hcs)
  | case4 pending comments number fragment rest comments' hhead ih =>
    have hall : ∀ cs ∈ comments', P cs := by
      intro cs hcs
      rcases List.mem_append.1 hcs with hcs | hcs
      · exact hcomments cs hcs
      · exact hfragments _ List.mem_cons_self cs (by simpa using hcs)
    rcases List.mem_cons.1 hline with rfl | hline
    · exact hclose hall htext
    · exact ih (by simp) (fun item hitem => hfragments item (by simp [hitem])) hline

/-- No comment of a fragment is empty. -/
theorem ne_nil_of_mem_fragments {settings : Settings} {text : List Char} {item : Nat × Fragment}
    (h : item ∈ fragments settings text) {cs : List Char} (hcs : item.2.comment = some cs) :
    cs ≠ [] := by
  obtain ⟨⟨raw, number⟩, -, hitem⟩ := List.mem_filterMap.1 h
  dsimp only at hitem
  split at hitem
  · cases hitem
  · obtain rfl := Option.some.inj hitem
    unfold fragment at hcs
    split at hcs
    · unfold commentOf at hcs
      dsimp only at hcs
      split at hcs
      · cases hcs
      · next hne =>
        obtain rfl := Option.some.inj hcs
        simpa using hne
    · cases hcs

/-- No comment of a logical line is empty. -/
theorem comment_ne_empty {settings : Settings} {text : String} {line : LogicalLine}
    (h : line ∈ ofText settings text) : line.comment ≠ some "" := by
  intro hcomment
  refine comment_induction (P := fun cs => cs ≠ []) (by simp) (by simp) ?_ h hcomment rfl
  intro item hitem cs hcs
  exact ne_nil_of_mem_fragments hitem hcs

end InputDeck.LogicalLine
