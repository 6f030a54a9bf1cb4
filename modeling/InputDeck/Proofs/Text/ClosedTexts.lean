import InputDeck.Proofs.Compile.Simulation
import InputDeck.Proofs.Expr.Brackets
import InputDeck.Proofs.Text.Enclosed

/-!
# Closed texts

A line is only taken for an assignment when the brackets of the name come in pairs. Such a name has
no blanks, and its quotes come in pairs too; the names that slices stand for are made of it and of
indices, and are closed as well. Whatever stands in front of a closed text, as many brackets are
open behind it as in front of it.
-/

namespace InputDeck.Scan

open InputDeck.Text InputDeck.Number

variable {s : State} {cs ds : List Char}

/-- A text without blanks whose quotes and brackets come in pairs. -/
structure IsClosed (cs : List Char) : Prop where
  /-- No character of it is blank. -/
  unbroken : ∀ c ∈ cs, isBlank c = false
  /-- Its quotes come in pairs. -/
  paired : QuotesPaired cs
  /-- Its brackets come in pairs. -/
  balanced : balancedFrom {} cs = true

namespace IsClosed

/-- What is open in front of a closed text is open behind it. -/
theorem after_eq_self (h : IsClosed cs) (hs : s.quoted = false) : s.after cs = s := by
  have hpart : balancedFrom {} (cs ++ []) = true := by simpa using h.balanced
  have hafter := after_of_balancedFrom hpart s.depth
  have hquoted : (State.after {} cs).quoted = false := by
    rw [State.quoted_after]
    simp [h.paired]
  rw [hquoted, depth_of_balancedFrom h.balanced, Nat.zero_add] at hafter
  rwa [State.eq_of_quoted hs]

/-- An empty text is closed. -/
theorem nil : IsClosed [] := ⟨by simp, by decide, rfl⟩

/-- Two closed texts make one. -/
theorem append (hcs : IsClosed cs) (hds : IsClosed ds) : IsClosed (cs ++ ds) where
  unbroken c hc := (List.mem_append.1 hc).elim (hcs.unbroken c) (hds.unbroken c)
  paired := hcs.paired.append hds.paired
  balanced := by
    rw [balancedFrom_append hcs.balanced, hcs.after_eq_self rfl]
    exact hds.balanced

/-- An index is closed. -/
theorem index (n : Nat) : IsClosed ('[' :: (natText n).toList ++ [']']) := by
  have hdigits : ∀ {c : Char}, c.isDigit = false → c ∉ (natText n).toList := notMem_natText
  refine ⟨fun c hc => ?_, (IsPart.index [] n).paired, ?_⟩
  · rw [List.cons_append, List.mem_cons, List.mem_append, List.mem_singleton] at hc
    rcases hc with rfl | hc | rfl
    · decide
    · refine Number.isBlank_of_isDigit ?_
      by_contra hdigit
      exact hdigits (by simpa using hdigit) hc
    · decide
  · have hpasses : Passes true (natText n).toList := by
      refine .of_notMem (.of_notMem (hdigits (by decide))) fun c hc hmem => ?_
      refine hdigits ?_ (outside_subset _ _ hmem)
      simp only [List.mem_cons, List.not_mem_nil, or_false] at hc
      rcases hc with rfl | rfl | rfl | rfl | rfl <;> decide
    have hbrackets : Passes true ('[' :: (natText n).toList ++ [']']) := hpasses.brackets
    have hbalanced := hbrackets.balanced {} rfl []
    rwa [List.append_nil] at hbalanced

/-- A closed text with a bracket is cut into closed texts. -/
theorem of_bracket {before afterOpen inner after : List Char}
    (hopen : cutUnquoted '[' {} cs = some (before, afterOpen))
    (hclose : cutBracket afterOpen = some (inner, after)) (h : IsClosed cs) :
    IsClosed before ∧ IsClosed ('[' :: inner ++ [']']) ∧ IsClosed after := by
  have hsplit : cs = before ++ (('[' :: inner ++ [']']) ++ after) := by
    rw [eq_append_of_cutUnquoted hopen, eq_append_of_cutClosing hclose]
    simp
  obtain ⟨hbeforePart, hbracketPart, hafterPart⟩ :=
    IsPart.of_bracket hopen hclose (.of_subset h.paired (List.Subset.refl cs))
  have hbefore := after_cutUnquoted_eq hopen
  have hbracket := after_cutBracket_eq hclose
  have hbalanced := h.balanced
  rw [hsplit] at hbalanced
  have hrest := balancedFrom_of_append hbalanced
  rw [hbefore] at hrest
  have hafter := balancedFrom_of_append hrest
  rw [hbracket] at hafter
  have hmem : ∀ c ∈ before ++ (('[' :: inner ++ [']']) ++ after), isBlank c = false := by
    rw [← hsplit]
    exact h.unbroken
  simp only [List.mem_append] at hmem
  refine ⟨⟨fun c hc => hmem c (.inl hc), hbeforePart.paired, ?_⟩,
    ⟨fun c hc => hmem c (.inr (.inl (List.mem_append.1 hc))), hbracketPart.paired, ?_⟩,
    ⟨fun c hc => hmem c (.inr (.inr hc)), hafterPart.paired, hafter⟩⟩
  · exact balancedFrom_of_append_of_depth hbalanced (by rw [hbefore])
  · exact balancedFrom_of_append_of_depth hrest (by rw [hbracket])

end IsClosed

/-- Closed texts are passed on. -/
theorem PassesOn.isClosed : PassesOn IsClosed :=
  ⟨.nil, .append, .index, IsClosed.of_bracket⟩

end InputDeck.Scan

namespace InputDeck.CardLine

open InputDeck.Text

/-- Whether the name that a line assigns to is closed. -/
def HasClosedName : CardLine → Prop
  | expression _ => True
  | scalar name _ => Scan.IsClosed name.toList
  | vector name _ => Scan.IsClosed name.toList
  | slice name _ => Scan.IsClosed name.toList

/-- No line assigns to a name that is not closed. -/
theorem hasClosedName_of_ofText {text : String} {location : Location} {card : CardLine}
    (h : ofText text location = .ok card) : card.HasClosedName := by
  unfold ofText at h
  split at h
  · obtain rfl := Except.ok.inj h
    trivial
  · next before after hcut =>
    split at h
    · cases h
    · next side hside =>
      have hpaired := (isPart_sides hcut hside).1.paired
      unfold ofSides at h
      split at h
      · cases h
      · split at h
        · cases h
        · split at h
          · cases h
          · next hbalanced =>
            have hbrackets : Scan.bracketsBalanced (withoutBlanks before) = true := by
              simpa using hbalanced
            have hclosed : Scan.IsClosed (String.ofList (withoutBlanks before)).toList := by
              rw [String.toList_ofList]
              exact ⟨fun _ => isBlank_of_mem_withoutBlanks, hpaired, hbrackets⟩
            repeat' split at h
            all_goals first | cases h | skip
            · exact hclosed
            · exact hclosed
            · dsimp only at h
              split at h
              · cases h
              · cases h
                exact hclosed

/-- Every name that a line sends is closed. -/
theorem HasClosedName.pairs {card : CardLine} (h : card.HasClosedName) {location : Location}
    {existing : String → Option Nat} {pairs : List (String × String)}
    (hpairs : card.pairs location existing = .ok pairs) :
    ∀ pair ∈ pairs, Scan.IsClosed pair.1.toList := by
  cases card with
  | expression statement =>
    obtain rfl := Except.ok.inj hpairs
    simp
  | scalar name value =>
    obtain rfl := Except.ok.inj hpairs
    intro pair hpair
    obtain rfl := List.mem_singleton.1 hpair
    exact h
  | vector name values =>
    obtain rfl := Except.ok.inj hpairs
    intro pair hpair
    obtain ⟨⟨value, index⟩, -, rfl⟩ := List.mem_map.1 hpair
    have hname := Scan.IsClosed.append h (.index index)
    simpa [elementName] using hname
  | slice name value => exact Slice.holds_of_expand .isClosed h hpairs

end InputDeck.CardLine
