import InputDeck.Proofs.Text.CardLines
import InputDeck.Proofs.Text.Enclosed

/-!
# Sides of slice lines

A side of a slice line is texts with slices between them. Which slices it has, and what text stands
around them, is said here of the text alone, and is exactly what is read from it.
-/

namespace InputDeck.Slice

open InputDeck.Text InputDeck.Number InputDeck.Scan

/-! ## Bounds -/

/-- A bound as it is written: nothing, or digits that a machine word holds, perhaps behind a plus
sign. -/
inductive IsBound : List Char → Option Nat → Prop
  /-- An empty text leaves a bound open. -/
  | empty : IsBound [] none
  /-- Digits have the value that they spell. -/
  | digits {text : List Char} {n : Nat} (h : word? text = some n) : IsBound text (some n)
  /-- A plus sign changes nothing. -/
  | plus {text : List Char} {n : Nat} (h : word? text = some n) : IsBound ('+' :: text) (some n)

/-- Digits that a machine word holds are at least one digit and nothing else. -/
theorem isDigit_of_word? {text : List Char} {n : Nat} (h : word? text = some n) :
    text ≠ [] ∧ (∀ c ∈ text, c.isDigit = true) ∧ n < wordLimit := by
  obtain ⟨hne, hdigits, -, hword⟩ := word?_eq_some_iff.1 h
  exact ⟨hne, hdigits, hword⟩

namespace IsBound

variable {text : List Char} {n : Option Nat}

/-- A bound is written with digits and a plus sign. -/
theorem isDigit_or_eq (h : IsBound text n) {c : Char} (hc : c ∈ text) :
    c.isDigit = true ∨ c = '+' := by
  cases h with
  | empty => cases hc
  | digits h => exact .inl ((isDigit_of_word? h).2.1 c hc)
  | plus h =>
    rcases List.mem_cons.1 hc with rfl | hc
    · exact .inr rfl
    · exact .inl ((isDigit_of_word? h).2.1 c hc)

/-- A bound holds no other character. -/
theorem notMem (h : IsBound text n) {c : Char} (hc : c.isDigit = false) (hplus : c ≠ '+') :
    c ∉ text := by
  intro hmem
  rcases h.isDigit_or_eq hmem with hdigit | rfl
  · rw [hc] at hdigit
    cases hdigit
  · exact hplus rfl

/-- A machine word holds every bound. -/
theorem lt_wordLimit (h : IsBound text n) {m : Nat} (hm : n = some m) : m < wordLimit := by
  cases h with
  | empty => cases hm
  | digits h | plus h =>
    obtain rfl := Option.some.inj hm
    exact (isDigit_of_word? h).2.2

end IsBound

variable {location : Location}

/-- What is read as a bound is written as one. -/
theorem bound_eq_ok_iff {text : List Char} {n : Option Nat} :
    bound location text = .ok n ↔ IsBound text n := by
  constructor
  · intro h
    unfold bound at h
    split at h
    · obtain rfl := Except.ok.inj h
      exact .empty
    · dsimp only at h
      split at h
      · next m hword =>
        obtain rfl := Except.ok.inj h
        split at hword
        · exact .plus hword
        · exact .digits hword
      · cases h
  · intro h
    cases h with
    | empty => rfl
    | digits hword =>
      obtain ⟨hne, hdigits, -⟩ := isDigit_of_word? hword
      cases text with
      | nil => exact absurd rfl hne
      | cons c cs =>
        have hplus : c ≠ '+' := by
          rintro rfl
          exact absurd (hdigits '+' (by simp)) (by decide)
        simp [bound, hplus, hword]
    | plus hword => simp [bound, hword]

/-! ## Slices -/

/-- What stands inside the bracket of a slice: its first index and the one behind its last, with a
colon between them. Either of them can be left open, and they are not out of order. -/
def IsSlice (inner : List Char) (lower : Nat) (upper : Option Nat) : Prop :=
  ∃ lowerText upperText first, inner = lowerText ++ ':' :: upperText ∧
    IsBound lowerText first ∧ IsBound upperText upper ∧ lower = first.getD 0 ∧
    ∀ last ∈ upper, lower ≤ last

/-- What is read between two bounds is a slice. -/
theorem bounds_eq_ok_iff {inner lowerText upperText : List Char} {lower : Nat}
    {upper : Option Nat} : bounds location inner lowerText upperText = .ok (lower, upper) ↔
      ∃ first, IsBound lowerText first ∧ IsBound upperText upper ∧ lower = first.getD 0 ∧
        ∀ last ∈ upper, lower ≤ last := by
  have horder : ∀ {m : Nat}, upper.any (· < m) = false ↔ ∀ last ∈ upper, m ≤ last := by
    cases upper <;> simp
  constructor
  · intro h
    obtain ⟨first, hfirst, h⟩ := Except.bind_eq_ok_iff.1 h
    obtain ⟨last, hlast, h⟩ := Except.bind_eq_ok_iff.1 h
    split at h
    · cases h
    · next hany =>
      obtain ⟨rfl, rfl⟩ := Prod.mk.inj (Except.ok.inj h)
      exact ⟨first, bound_eq_ok_iff.1 hfirst, bound_eq_ok_iff.1 hlast, rfl,
        horder.1 (by simpa using hany)⟩
  · rintro ⟨first, hfirst, hlast, rfl, hle⟩
    refine Except.bind_eq_ok_iff.2 ⟨first, bound_eq_ok_iff.2 hfirst,
      Except.bind_eq_ok_iff.2 ⟨upper, bound_eq_ok_iff.2 hlast, ?_⟩⟩
    rw [horder.2 hle]
    rfl

namespace IsSlice

variable {inner : List Char} {lower : Nat} {upper : Option Nat}

/-- A slice is written with digits, plus signs and one colon. -/
theorem notMem (h : IsSlice inner lower upper) {c : Char} (hc : c.isDigit = false)
    (hplus : c ≠ '+') (hcolon : c ≠ ':') : c ∉ inner := by
  obtain ⟨lowerText, upperText, first, rfl, hlower, hupper, -⟩ := h
  simp [hlower.notMem hc hplus, hupper.notMem hc hplus, hcolon]

/-- A bracket can enclose a slice. -/
theorem isEnclosed (h : IsSlice inner lower upper) : IsEnclosed inner := by
  have hnotMem : ∀ {c : Char}, c.isDigit = false → c ≠ '+' → c ≠ ':' → c ∉ outside false inner :=
    fun hc hplus hcolon hmem => h.notMem hc hplus hcolon (outside_subset _ _ hmem)
  refine ⟨.of_notMem (h.notMem (by decide) (by decide) (by decide)), ?_⟩
  rw [bracketsBalanced, balancedFrom_of_outside (hnotMem (by decide) (by decide) (by decide))
    (hnotMem (by decide) (by decide) (by decide))]
  rfl

/-- A machine word holds the first index. -/
theorem lower_lt (h : IsSlice inner lower upper) : lower < wordLimit := by
  obtain ⟨_, _, first, -, hlower, -, rfl, -⟩ := h
  cases first with
  | none => decide
  | some n => exact hlower.lt_wordLimit rfl

/-- The index behind the last one is a machine word and not less than the first one. -/
theorem upper_lt (h : IsSlice inner lower upper) :
    ∀ last ∈ upper, lower ≤ last ∧ last < wordLimit := by
  obtain ⟨_, _, first, -, -, hupper, -, horder⟩ := h
  exact fun last hlast => ⟨horder last hlast, hupper.lt_wordLimit hlast⟩

/-- What is read behind the bracket of a slice. -/
theorem iff_cutUnquoted (location : Location) : IsSlice inner lower upper ↔
    ∃ lowerText upperText, cutUnquoted ':' {} inner = some (lowerText, upperText) ∧
      bounds location inner lowerText upperText = .ok (lower, upper) := by
  constructor
  · rintro ⟨lowerText, upperText, first, rfl, hlower, hrest⟩
    refine ⟨lowerText, upperText, (cutUnquoted_eq_some_iff (by decide)).2 ⟨rfl, ?_, ?_⟩,
      bounds_eq_ok_iff.2 ⟨first, hlower, hrest⟩⟩
    · rw [State.quoted_after]
      simpa using QuotesPaired.of_notMem (hlower.notMem (by decide) (by decide))
    · exact fun hmem => hlower.notMem (by decide) (by decide) (outside_subset _ _ hmem)
  · rintro ⟨lowerText, upperText, hcut, hbounds⟩
    obtain ⟨first, hlower, hrest⟩ := bounds_eq_ok_iff.1 hbounds
    exact ⟨lowerText, upperText, first, eq_append_of_cutUnquoted hcut, hlower, hrest⟩

end IsSlice

/-! ## Sides -/

namespace Pattern

/-- A side with some text in front of it. -/
def behind (literal : List Char) (pattern : Pattern) : Pattern :=
  match pattern.segments with
  | [] => ⟨[], literal ++ pattern.tail⟩
  | segment :: segments =>
    ⟨{ segment with leading := literal ++ segment.leading } :: segments, pattern.tail⟩

@[simp] theorem behind_nil (pattern : Pattern) : pattern.behind [] = pattern := by
  obtain ⟨_ | _, tail⟩ := pattern <;> rfl

@[simp] theorem behind_behind (front literal : List Char) (pattern : Pattern) :
    (pattern.behind literal).behind front = pattern.behind (front ++ literal) := by
  obtain ⟨_ | _, tail⟩ := pattern <;> simp [behind]

/-- The text in front of a side stands in front of its elements. -/
@[simp] theorem render_behind (literal : List Char) (pattern : Pattern) (k : Nat) :
    (pattern.behind literal).render k = literal ++ pattern.render k := by
  obtain ⟨_ | _, tail⟩ := pattern <;> simp [behind, render]

/-- Text has no slices. -/
@[simp] theorem behind_segments_eq_nil (literal : List Char) (pattern : Pattern) :
    (pattern.behind literal).segments = [] ↔ pattern.segments = [] := by
  obtain ⟨_ | _, tail⟩ := pattern <;> simp [behind]

/-- The slices of a side, and the texts around them. -/
inductive Reads : List Char → Pattern → Prop
  /-- A text without a bracket outside quotes has no slices. -/
  | text {cs : List Char} (h : '[' ∉ outside false cs) : Reads cs ⟨[], cs⟩
  /-- A bracket without a colon is a part of the text around it. -/
  | bracket {before inner after : List Char} {pattern : Pattern}
      (hbefore : '[' ∉ outside false before) (hpaired : QuotesPaired before)
      (hinner : IsEnclosed inner) (hcolon : ':' ∉ outside false inner) (h : Reads after pattern) :
      Reads (before ++ '[' :: inner ++ ']' :: after)
        (pattern.behind (before ++ '[' :: inner ++ [']']))
  /-- A bracket with two bounds is a slice. -/
  | slice {before inner after : List Char} {lower : Nat} {upper : Option Nat} {pattern : Pattern}
      (hbefore : '[' ∉ outside false before) (hpaired : QuotesPaired before)
      (hinner : IsSlice inner lower upper) (h : Reads after pattern) :
      Reads (before ++ '[' :: inner ++ ']' :: after)
        ⟨⟨before, lower, upper⟩ :: pattern.segments, pattern.tail⟩

/-- The first bracket of a side. -/
theorem exists_bracket_iff {cs before inner after : List Char} :
    (∃ afterOpen, cutUnquoted '[' {} cs = some (before, afterOpen) ∧
      cutBracket afterOpen = some (inner, after)) ↔
    cs = before ++ '[' :: inner ++ ']' :: after ∧ '[' ∉ outside false before ∧
      QuotesPaired before ∧ IsEnclosed inner := by
  simp only [cutUnquoted_eq_some_iff (show '[' ≠ '"' by decide), cutBracket_eq_some_iff,
    State.quoted_after]
  constructor
  · rintro ⟨_, ⟨rfl, hpaired, hbefore⟩, rfl, hinner⟩
    exact ⟨by simp, hbefore, by simpa using hpaired, hinner⟩
  · rintro ⟨rfl, hbefore, hpaired, hinner⟩
    exact ⟨_, ⟨by simp, by simpa using hpaired, hbefore⟩, rfl, hinner⟩

/-- What is read of the rest of a side are its slices and the texts around them. -/
theorem parseFrom_eq_ok_iff {side literal rest : List Char} {pattern : Pattern} :
    parseFrom location side literal rest = .ok pattern ↔
      ∃ read, Reads rest read ∧ pattern = read.behind literal := by
  constructor
  · intro h
    fun_induction parseFrom location side literal rest generalizing pattern with
    | case1 literal rest hopen =>
      obtain rfl := Except.ok.inj h
      exact ⟨_, .text ((cutUnquoted_eq_none_iff (by decide)).1 hopen), rfl⟩
    | case2 => cases h
    | case3 literal rest before afterOpen hopen inner after hclose hcolon ih =>
      obtain ⟨rfl, hbefore, hpaired, hinner⟩ := exists_bracket_iff.1 ⟨afterOpen, hopen, hclose⟩
      obtain ⟨read, hread, rfl⟩ := ih h
      refine ⟨_, .bracket hbefore hpaired hinner ?_ hread, by simp⟩
      exact (cutUnquoted_eq_none_iff (by decide)).1 hcolon
    | case4 => cases h
    | case5 literal rest before afterOpen hopen inner after hclose lowerText upperText hcolon
        lower upper hbounds ih =>
      obtain ⟨rfl, hbefore, hpaired, -⟩ := exists_bracket_iff.1 ⟨afterOpen, hopen, hclose⟩
      obtain ⟨others, hothers, rfl⟩ := Except.map_eq_ok_iff.1 h
      obtain ⟨read, hread, rfl⟩ := ih hothers
      have hslice : IsSlice inner lower upper :=
        (IsSlice.iff_cutUnquoted location).2 ⟨lowerText, upperText, hcolon, hbounds⟩
      refine ⟨_, .slice hbefore hpaired hslice hread, ?_⟩
      rw [behind_nil]
      rfl
  · rintro ⟨read, hread, rfl⟩
    induction hread generalizing literal with
    | text h =>
      rw [parseFrom_eq, (cutUnquoted_eq_none_iff (by decide)).2 h]
      rfl
    | @bracket before inner after pattern hbefore hpaired hinner hcolon hread ih =>
      have hnone : cutUnquoted ':' {} inner = none := (cutUnquoted_eq_none_iff (by decide)).2 hcolon
      obtain ⟨afterOpen, hopen, hclose⟩ :=
        exists_bracket_iff.2 ⟨rfl, hbefore, hpaired, hinner⟩
      rw [parseFrom_eq, hopen]
      simp only [hclose, hnone]
      rw [ih, behind_behind]
      simp
    | slice hbefore hpaired hslice hread ih =>
      obtain ⟨afterOpen, hopen, hclose⟩ :=
        exists_bracket_iff.2 ⟨rfl, hbefore, hpaired, hslice.isEnclosed⟩
      obtain ⟨lowerText, upperText, hcolon, hbounds⟩ :=
        (IsSlice.iff_cutUnquoted location).1 hslice
      rw [parseFrom_eq, hopen]
      simp only [hclose, hcolon, hbounds]
      rw [ih, behind_nil]
      rfl

/-- What is read of a side are its slices and the texts around them. -/
theorem parse_eq_ok_iff {side : List Char} {pattern : Pattern} :
    parse location side = .ok pattern ↔ Reads side pattern := by
  simp [parse, parseFrom_eq_ok_iff]

namespace Reads

variable {side : List Char} {pattern other : Pattern}

/-- A side is read in one way. -/
theorem unique (h : Reads side pattern) (hother : Reads side other) : pattern = other :=
  have hparse : parse ⟨0, .root⟩ side = .ok pattern := parse_eq_ok_iff.2 h
  Except.ok.inj (hparse.symm.trans (parse_eq_ok_iff.2 hother))

/-- A side without slices is a text. -/
theorem tail_eq (h : Reads side pattern) (hscalar : pattern.segments = []) :
    pattern = ⟨[], side⟩ := by
  induction h with
  | text => rfl
  | bracket _ _ _ _ _ ih =>
    rw [behind_segments_eq_nil] at hscalar
    rw [ih hscalar]
    simp [behind]
  | slice => cases hscalar

/-- The indices of a slice are machine words, and not out of order. -/
theorem bounds_lt (h : Reads side pattern) {segment : Segment}
    (hsegment : segment ∈ pattern.segments) : segment.lower < wordLimit ∧
      ∀ last ∈ segment.upper, segment.lower ≤ last ∧ last < wordLimit := by
  induction h generalizing segment with
  | text => cases hsegment
  | @bracket before inner after pattern _ _ _ _ _ ih =>
    obtain ⟨_ | ⟨first, others⟩, tail⟩ := pattern
    · cases hsegment
    · rcases List.mem_cons.1 hsegment with rfl | hother
      · exact @ih first List.mem_cons_self
      · exact ih (List.mem_cons_of_mem _ hother)
  | slice _ _ hslice _ ih =>
    rcases List.mem_cons.1 hsegment with rfl | hother
    · exact ⟨hslice.lower_lt, hslice.upper_lt⟩
    · exact ih hother

end Reads

end Pattern

/-! ## Elements -/

/-- A side with each of its slices replaced by the element with the given place in it. All other
text is left as it is. -/
inductive IsElement (k : Nat) : List Char → List Char → Prop
  /-- A text without a bracket outside quotes is left. -/
  | text {cs : List Char} (h : '[' ∉ outside false cs) : IsElement k cs cs
  /-- A bracket without a colon is left. -/
  | bracket {before inner after text : List Char} (hbefore : '[' ∉ outside false before)
      (hpaired : QuotesPaired before) (hinner : IsEnclosed inner)
      (hcolon : ':' ∉ outside false inner) (h : IsElement k after text) :
      IsElement k (before ++ '[' :: inner ++ ']' :: after) (before ++ '[' :: inner ++ ']' :: text)
  /-- A slice becomes the element at its first index and the given place. -/
  | slice {before inner after text : List Char} {lower : Nat} {upper : Option Nat}
      (hbefore : '[' ∉ outside false before) (hpaired : QuotesPaired before)
      (hinner : IsSlice inner lower upper) (h : IsElement k after text) :
      IsElement k (before ++ '[' :: inner ++ ']' :: after)
        (before ++ '[' :: (natText (lower + k)).toList ++ ']' :: text)

/-- The elements of a side are what it is rendered to. -/
theorem Pattern.Reads.isElement_iff {side text : List Char} {pattern : Pattern} {k : Nat}
    (h : Reads side pattern) : IsElement k side text ↔ text = pattern.render k := by
  constructor
  · intro helement
    obtain ⟨other, hother, rfl⟩ : ∃ other, Reads side other ∧ text = other.render k := by
      clear h
      induction helement with
      | text h => exact ⟨_, .text h, rfl⟩
      | bracket hbefore hpaired hinner hcolon _ ih =>
        obtain ⟨read, hread, rfl⟩ := ih
        exact ⟨_, .bracket hbefore hpaired hinner hcolon hread, by simp⟩
      | slice hbefore hpaired hslice _ ih =>
        obtain ⟨read, hread, rfl⟩ := ih
        exact ⟨_, .slice hbefore hpaired hslice hread, by simp [Pattern.render]⟩
    rw [h.unique hother]
  · rintro rfl
    induction h with
    | text h => exact .text h
    | bracket hbefore hpaired hinner hcolon _ ih =>
      simpa using IsElement.bracket hbefore hpaired hinner hcolon ih
    | slice hbefore hpaired hslice _ ih =>
      simpa [Pattern.render] using IsElement.slice hbefore hpaired hslice ih

/-! ## Targets and sources -/

/-- How the target of a slice line is read. -/
inductive IsTarget : List Char → Pattern → Prop
  /-- A target without brackets stands for its whole vector. -/
  | whole {name : List Char} (h : '[' ∉ name) : IsTarget name ⟨[⟨name, 0, none⟩], []⟩
  /-- Any other target is a side. -/
  | side {name : List Char} {pattern : Pattern} (h : '[' ∈ name) (hread : pattern.Reads name) :
      IsTarget name pattern

/-- The names that a target stands for in the given place. -/
inductive IsName (k : Nat) : List Char → List Char → Prop
  /-- A target without brackets stands for the elements of its vector. -/
  | whole {name : List Char} (h : '[' ∉ name) :
      IsName k name (name ++ '[' :: (natText k).toList ++ [']'])
  /-- Any other target stands for its elements. -/
  | side {name text : List Char} (h : '[' ∈ name) (helement : IsElement k name text) :
      IsName k name text

/-- How what is assigned to a slice is read. -/
inductive IsSource : List Char → Source → Prop
  /-- A value that is one bracket is a list. -/
  | literal {inner : List Char} (h : IsEnclosed inner) :
      IsSource ('[' :: inner ++ [']']) (.items (splitTopLevel ',' inner))
  /-- Any other value with a comma at its top level is a list. -/
  | list {value : List Char} (hbare : ∀ inner, IsEnclosed inner → value ≠ '[' :: inner ++ [']'])
      (hcomma : hasTopLevel ',' value = true) : IsSource value (.items (splitTopLevel ',' value))
  /-- Any other value is a side. -/
  | side {value : List Char} {pattern : Pattern}
      (hbare : ∀ inner, IsEnclosed inner → value ≠ '[' :: inner ++ [']'])
      (hcomma : hasTopLevel ',' value = false) (hread : pattern.Reads value) :
      IsSource value (.pattern pattern)

/-- The value that is assigned in the given place. -/
inductive IsValue (k : Nat) (value : List Char) : Source → List Char → Prop
  /-- The items of a list are assigned one by one. -/
  | item {items : List (List Char)} {item : List Char} (h : items[k]? = some item) :
      IsValue k value (.items items) item
  /-- A value without slices is assigned as it is. -/
  | same {pattern : Pattern} (hscalar : pattern.segments = []) :
      IsValue k value (.pattern pattern) value
  /-- Slices are assigned element by element. -/
  | element {pattern : Pattern} {text : List Char} (hslices : pattern.segments ≠ [])
      (helement : IsElement k value text) : IsValue k value (.pattern pattern) text

/-- What is read of a target. -/
theorem isTarget_iff (location : Location) {name : List Char} {target : Pattern} :
    IsTarget name target ↔
      ∃ pattern, Pattern.parse location name = .ok pattern ∧ target = pattern.wholeVector := by
  simp only [Pattern.parse_eq_ok_iff]
  constructor
  · intro h
    cases h with
    | whole h =>
      refine ⟨_, .text fun hmem => h (outside_subset _ _ hmem), ?_⟩
      simp [Pattern.wholeVector, Pattern.isScalar, h]
    | side h hread =>
      refine ⟨target, hread, ?_⟩
      unfold Pattern.wholeVector
      split
      · next hwhole =>
        obtain ⟨hscalar, htail⟩ : target.segments = [] ∧ '[' ∉ target.tail := by
          simpa [Pattern.isScalar] using hwhole
        rw [hread.tail_eq hscalar] at htail
        exact absurd h htail
      · rfl
  · rintro ⟨pattern, hread, rfl⟩
    unfold Pattern.wholeVector
    split
    · next hwhole =>
      obtain ⟨hscalar, htail⟩ : pattern.segments = [] ∧ '[' ∉ pattern.tail := by
        simpa [Pattern.isScalar] using hwhole
      obtain rfl := hread.tail_eq hscalar
      exact .whole htail
    · next hwhole =>
      refine .side ?_ hread
      refine Decidable.byContradiction fun hnone => ?_
      have htext : Pattern.Reads name ⟨[], name⟩ :=
        .text fun hmem => hnone (outside_subset _ _ hmem)
      rw [hread.unique htext] at hwhole
      exact hwhole (by simp [Pattern.isScalar, hnone])

/-- What is read of a source. -/
theorem isSource_iff {value : List Char} {source : Source} :
    IsSource value source ↔ Source.parse location value = .ok source := by
  have hbare : (∀ inner, IsEnclosed inner → value ≠ '[' :: inner ++ [']']) ↔
      bracketLiteral? value = none := by
    rw [Option.eq_none_iff_forall_ne_some]
    simp only [ne_eq, bracketLiteral?_eq_some_iff]
    exact forall_congr' fun inner => ⟨fun h hand => h hand.2 hand.1, fun h hi hv => h ⟨hv, hi⟩⟩
  unfold Source.parse CardLine.listText?
  constructor
  · intro h
    cases h with
    | literal h => rw [bracketLiteral?_eq_some_iff.2 ⟨rfl, h⟩]
    | list hnone hcomma => simp [hbare.1 hnone, hcomma]
    | side hnone hcomma hread =>
      simp [hbare.1 hnone, hcomma, Pattern.parse_eq_ok_iff.2 hread, Except.map]
  · intro h
    cases hliteral : bracketLiteral? value with
    | some inner =>
      obtain ⟨rfl, hinner⟩ := bracketLiteral?_eq_some_iff.1 hliteral
      rw [hliteral] at h
      obtain rfl := Except.ok.inj h
      exact .literal hinner
    | none =>
      rw [hliteral] at h
      cases hcomma : hasTopLevel ',' value with
      | true =>
        simp only [hcomma, if_true] at h
        obtain rfl := Except.ok.inj h
        exact .list (hbare.2 hliteral) hcomma
      | false =>
        simp only [hcomma] at h
        obtain ⟨pattern, hparse, rfl⟩ := Except.map_eq_ok_iff.1 h
        exact .side (hbare.2 hliteral) hcomma (Pattern.parse_eq_ok_iff.1 hparse)

/-- The names of a target are what it is rendered to. -/
theorem IsTarget.isName_iff {name text : List Char} {target : Pattern} {k : Nat}
    (h : IsTarget name target) : IsName k name text ↔ text = target.render k := by
  cases h with
  | whole h =>
    constructor
    · intro hname
      cases hname with
      | whole => simp [Pattern.render]
      | side hmem => exact absurd hmem h
    · rintro rfl
      simpa [Pattern.render] using IsName.whole h
  | side h hread =>
    rw [← hread.isElement_iff]
    constructor
    · intro hname
      cases hname with
      | whole hnone => exact absurd h hnone
      | side _ helement => exact helement
    · exact .side h

end InputDeck.Slice
