import InputDeck.Proofs.Text.CardLines
import InputDeck.Proofs.Text.WrittenLines

/-!
# Blanks of logical lines

Raw lines lose their blanks other than spaces, so the only blanks of logical lines are spaces. What
is left of their comments are texts that a line can have as its comment.
-/

namespace InputDeck

open InputDeck.Text InputDeck.Scan InputDeck.Number

variable {settings : Settings}

/-- Two comments with a space between them are one. -/
theorem IsComment.append (hs : settings.IsUsable) {cs ds : List Char}
    (hcs : IsComment settings cs) (hds : IsComment settings ds) :
    IsComment settings (cs ++ ' ' :: ds) where
  plain := hcs.plain.append fun c hc hblank => by
    rcases List.mem_cons.1 hc with rfl | hc
    · rfl
    · exact hds.plain c hc hblank
  ne_nil := by simp
  mark_notMem := by simp [hcs.mark_notMem, hds.mark_notMem, hs.continuation.ne_space]
  trimmed := by
    refine trim_eq_self (fun c hc => ?_) fun c hc => ?_
    · have hhead : (trim isBlank cs).head? = some c := by
        obtain ⟨d, rest, rfl⟩ := List.exists_cons_of_ne_nil hcs.ne_nil
        rw [hcs.trimmed]
        exact hc
      exact head?_trim hhead
    · have hlast : (trim isBlank ds).getLast? = some c := by
        obtain ⟨d, rest, hrest⟩ := List.exists_cons_of_ne_nil hds.ne_nil
        rw [hds.trimmed]
        rw [List.getLast?_append, hrest, List.getLast?_cons_cons, ← hrest] at hc
        simpa [hds.ne_nil] using hc
      exact getLast?_trim hlast

namespace LogicalLine

variable {line : LogicalLine}

/-- The only blanks of a cleaned line are spaces. -/
theorem isPlain_clean (raw : List Char) : IsPlain (clean raw) :=
  (isPlain_toPlain raw).of_subset (List.dropWhile_sublist _).subset

/-- The body and the comment of a cleaned line are parts of it. -/
theorem fragment_subset (settings : Settings) (cs : List Char) :
    (fragment settings cs).body ⊆ cs ∧ ∀ text, (fragment settings cs).comment = some text →
      text ⊆ cs := by
  unfold fragment
  split
  · next body comment hcut =>
    rw [eq_append_of_cutUnquoted hcut]
    refine ⟨fun c hc => List.mem_append_left _ ((trimEnd_sublist _ _).subset hc),
      fun text htext c hc => List.mem_append_right _ (List.mem_cons_of_mem _ ?_)⟩
    unfold commentOf at htext
    dsimp only at htext
    split at htext
    · cases htext
    · obtain rfl := Option.some.inj htext
      exact (List.mem_filter.1 ((trim_sublist _ _).subset hc)).1
  · exact ⟨(trimEnd_sublist _ _).subset, by simp⟩

/-- The comment of a cleaned line is one that a line can have. -/
theorem isComment_of_fragment {cs text : List Char} (hcs : IsPlain cs)
    (h : (fragment settings cs).comment = some text) : IsComment settings text := by
  have hplain := hcs.of_subset ((fragment_subset settings cs).2 text h)
  unfold fragment at h
  split at h
  · unfold commentOf at h
    dsimp only at h
    split at h
    · cases h
    · next hne =>
      obtain rfl := Option.some.inj h
      refine ⟨hplain, by simpa using hne, fun hmark => ?_, ?_⟩
      · have hmark := (List.mem_filter.1 ((trim_sublist _ _).subset hmark)).2
        simp at hmark
      · exact trim_eq_self (fun c hc => head?_trim hc) fun c hc => getLast?_trim hc
  · cases h

/-- The fragments of a text come from its cleaned lines. -/
theorem exists_of_mem_fragments {settings : Settings} {text : List Char} {item : Nat × Fragment}
    (h : item ∈ fragments settings text) : ∃ raw, item.2 = fragment settings (clean raw) := by
  obtain ⟨⟨raw, number⟩, -, hitem⟩ := List.mem_filterMap.1 h
  dsimp only at hitem
  split at hitem
  · cases hitem
  · obtain rfl := Option.some.inj hitem
    exact ⟨raw, rfl⟩

/-- The only blanks of a logical line are spaces when the same is true of its fragments. -/
private theorem isPlain_of_mem_gather {settings : Settings} {pending : Option Open}
    {comments : List (List Char)} {fragments : List (Nat × Fragment)}
    (hpending : ∀ begun, pending = some begun → IsPlain begun.text)
    (hfragments : ∀ item ∈ fragments, IsPlain item.2.body)
    (h : line ∈ gather settings pending comments fragments) : IsPlain line.text.toList := by
  have hclose : ∀ {pending : Open} {comments : List (List Char)}, IsPlain pending.text →
      IsPlain (close pending comments).text.toList := by
    intro pending comments hplain
    simp only [close, String.toList_ofList]
    exact hplain.of_subset (trim_sublist _ _).subset
  have hextend : ∀ {pending : Option Open} (number : Nat) {body : List Char},
      (∀ begun, pending = some begun → IsPlain begun.text) → IsPlain body →
      IsPlain (extend pending number body).text := by
    intro pending number body hpending hbody
    cases pending with
    | none => exact hbody
    | some begun =>
      refine (hpending begun rfl).append fun c hc hblank => ?_
      rcases List.mem_cons.1 hc with rfl | hc
      · rfl
      · exact hbody c hc hblank
  fun_induction gather settings pending comments fragments with
  | case1 comments pending =>
    obtain rfl := List.mem_singleton.1 h
    exact hclose (hpending pending rfl)
  | case2 => cases h
  | case3 pending comments number fragment rest comments' head hhead ih =>
    have hbody : IsPlain fragment.body := hfragments _ List.mem_cons_self
    rw [eq_append_of_stripLast hhead] at hbody
    refine ih ?_ (fun item hitem => hfragments item (List.mem_cons_of_mem _ hitem)) h
    rintro _ ⟨⟩
    refine hextend number hpending (hbody.of_subset fun c hc => ?_)
    exact List.mem_append_left _ ((trimEnd_sublist _ _).subset hc)
  | case4 pending comments number fragment rest comments' hhead ih =>
    obtain rfl | h := List.mem_cons.1 h
    · exact hclose (hextend number hpending (hfragments _ List.mem_cons_self))
    · exact ih (by simp) (fun item hitem => hfragments item (List.mem_cons_of_mem _ hitem)) h

/-- The only blanks of a logical line are spaces. -/
theorem isPlain_text {settings : Settings} {text : String} (h : line ∈ ofText settings text) :
    IsPlain line.text.toList := by
  refine isPlain_of_mem_gather (by simp) (fun item hitem => ?_) h
  obtain ⟨raw, hraw⟩ := exists_of_mem_fragments hitem
  rw [hraw]
  exact (isPlain_clean raw).of_subset (fragment_subset settings _).1

/-- The comment of a logical line is one that a line can have. -/
theorem isComment_of_mem (hs : settings.IsUsable) {text : String}
    (h : line ∈ ofText settings text) {comment : String}
    (hcomment : line.comment = some comment) : IsComment settings comment.toList := by
  refine comment_induction (fun _ _ => IsComment.append hs) (by simp) (fun item hitem cs hcs => ?_)
    h hcomment
  obtain ⟨raw, hraw⟩ := exists_of_mem_fragments hitem
  rw [hraw] at hcs
  exact isComment_of_fragment (isPlain_clean raw) hcs

end LogicalLine

/-- The only blanks of what a line assigns are spaces when the same is true of the line. -/
theorem Scan.IsPart.isPlain {line cs : List Char} (h : IsPart line cs) (hline : IsPlain line) :
    IsPlain cs := by
  intro c hc hblank
  rcases h.mem c hc with hc | hc | rfl | rfl
  · exact hline c hc hblank
  · rw [isBlank_of_isDigit hc] at hblank
    cases hblank
  · revert hblank
    decide
  · revert hblank
    decide

end InputDeck
