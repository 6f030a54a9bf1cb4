import InputDeck.Proofs.Outcome
import InputDeck.Proofs.Text.Quotes

/-!
# What card lines ask for

A line is taken apart where no quote is open, and what slices stand for is put together from its
parts and from indices. So every name and every value that a line assigns has its quotes in pairs,
and no characters but those of the line, digits and brackets. Where a line stands decides nothing
but how its failures are located.
-/

namespace InputDeck.Scan

open InputDeck.Text InputDeck.Number

/-- A text that a line is taken apart into, perhaps with indices in it. -/
structure IsPart (line cs : List Char) : Prop where
  /-- Its quotes come in pairs. -/
  paired : QuotesPaired cs
  /-- Its characters are those of the line, digits and brackets. -/
  mem : ∀ c ∈ cs, c ∈ line ∨ c.isDigit = true ∨ c = '[' ∨ c = ']'

namespace IsPart

variable {line cs ds : List Char}

/-- An empty text is a part of every line. -/
theorem nil : IsPart line [] := ⟨by decide, by simp⟩

/-- Characters of a line with paired quotes are a part of it. -/
theorem of_subset (hpaired : QuotesPaired cs) (h : cs ⊆ line) : IsPart line cs :=
  ⟨hpaired, fun _ hc => .inl (h hc)⟩

/-- Characters of a part with paired quotes are a part. -/
theorem of_subset_of_isPart (h : IsPart line cs) (hpaired : QuotesPaired ds) (hds : ds ⊆ cs) :
    IsPart line ds :=
  ⟨hpaired, fun c hc => h.mem c (hds hc)⟩

/-- Two parts make one. -/
theorem append (hcs : IsPart line cs) (hds : IsPart line ds) : IsPart line (cs ++ ds) :=
  ⟨hcs.paired.append hds.paired, fun c hc => (List.mem_append.1 hc).elim (hcs.mem c) (hds.mem c)⟩

/-- A part that is cut where no quote is open is cut into parts. -/
theorem of_append (h : IsPart line (cs ++ ds)) (hcs : QuotesPaired cs) :
    IsPart line cs ∧ IsPart line ds :=
  ⟨h.of_subset_of_isPart hcs (List.subset_append_left cs ds),
    h.of_subset_of_isPart (hcs.of_append_left h.paired) (List.subset_append_right cs ds)⟩

/-- An index is a part of every line. -/
theorem index (line : List Char) (n : Nat) : IsPart line ('[' :: (natText n).toList ++ [']']) := by
  have hmem : ∀ c ∈ '[' :: (natText n).toList ++ [']'],
      c.isDigit = true ∨ c = '[' ∨ c = ']' := by
    intro c hc
    rw [List.cons_append, List.mem_cons, List.mem_append, List.mem_singleton, natText,
      String.toList_ofList] at hc
    rcases hc with rfl | hc | rfl
    · exact .inr (.inl rfl)
    · exact .inl (Nat.isDigit_of_mem_toDigits (by decide) (by decide) hc)
    · exact .inr (.inr rfl)
  refine ⟨.of_notMem fun hquote => ?_, fun c hc => .inr (hmem c hc)⟩
  have := hmem _ hquote
  revert this
  decide

/-- A part with a bracket is cut into what stands before, in and behind the bracket. -/
theorem of_bracket {before afterOpen inner after : List Char}
    (hopen : cutUnquoted '[' {} cs = some (before, afterOpen))
    (hclose : cutBracket afterOpen = some (inner, after)) (h : IsPart line cs) :
    IsPart line before ∧ IsPart line ('[' :: inner ++ [']']) ∧ IsPart line after := by
  have hbefore : QuotesPaired before :=
    quotesPaired_of_after rfl (quoted_after_of_cutUnquoted hopen)
  have hinner : QuotesPaired inner :=
    quotesPaired_of_after rfl (quoted_after_of_cutClosing hclose)
  have hbracket : QuotesPaired ('[' :: inner ++ [']']) :=
    ((QuotesPaired.cons_iff (by decide)).2 hinner).append (by decide)
  have hsplit : cs = before ++ (('[' :: inner ++ [']']) ++ after) := by
    rw [eq_append_of_cutUnquoted hopen, eq_append_of_cutClosing hclose]
    simp
  rw [hsplit] at h
  obtain ⟨hbefore, hrest⟩ := h.of_append hbefore
  exact ⟨hbefore, hrest.of_append hbracket⟩

end IsPart

/-- A property of texts that a side of a slice line passes on: to what stands before, in and behind
its brackets, and to what is put together of such texts and of indices. -/
structure PassesOn (P : List Char → Prop) : Prop where
  /-- An empty text has the property. -/
  nil : P []
  /-- Two texts one behind the other have it when both do. -/
  append : ∀ {cs ds}, P cs → P ds → P (cs ++ ds)
  /-- An index has it. -/
  index : ∀ n, P ('[' :: (natText n).toList ++ [']'])
  /-- What a text with a bracket is cut into has it when the text does. -/
  bracket : ∀ {cs before afterOpen inner after : List Char},
    cutUnquoted '[' {} cs = some (before, afterOpen) → cutBracket afterOpen = some (inner, after) →
    P cs → P before ∧ P ('[' :: inner ++ [']']) ∧ P after

/-- Parts of a line are passed on. -/
theorem PassesOn.isPart (line : List Char) : PassesOn (IsPart line) :=
  ⟨.nil, .append, .index line, IsPart.of_bracket⟩

end InputDeck.Scan

namespace InputDeck.Slice

open InputDeck.Text InputDeck.Number InputDeck.Scan

variable {line : List Char} {P : List Char → Prop}

namespace Pattern

/-- The texts around the slices of a side have a property. -/
structure Holds (P : List Char → Prop) (pattern : Pattern) : Prop where
  /-- The text behind the last slice has it. -/
  tail : P pattern.tail
  /-- The texts in front of the slices have it. -/
  leading : ∀ segment ∈ pattern.segments, P segment.leading

/-- A side passes a property on to the texts that it is taken apart into. -/
theorem holds_of_parseFrom (hP : PassesOn P) {location : Location}
    {side literal rest : List Char} {pattern : Pattern}
    (h : parseFrom location side literal rest = .ok pattern) (hliteral : P literal)
    (hrest : P rest) : pattern.Holds P := by
  fun_induction parseFrom location side literal rest generalizing pattern with
  | case1 literal rest =>
    obtain rfl := Except.ok.inj h
    exact ⟨hP.append hliteral hrest, by simp⟩
  | case2 => cases h
  | case3 literal rest before afterOpen hopen inner after hclose hcolon ih =>
    obtain ⟨hbefore, hbracket, hafter⟩ := hP.bracket hopen hclose hrest
    refine ih h ?_ hafter
    have hliteral := hP.append (hP.append hliteral hbefore) hbracket
    simpa using hliteral
  | case4 => cases h
  | case5 literal rest before afterOpen hopen inner after hclose lowerText upperText hcolon lower
      upper hbounds ih =>
    obtain ⟨others, hothers, rfl⟩ := Except.map_eq_ok_iff.1 h
    obtain ⟨hbefore, -, hafter⟩ := hP.bracket hopen hclose hrest
    obtain ⟨htail, hleading⟩ := ih hothers hP.nil hafter
    refine ⟨htail, fun segment hsegment => ?_⟩
    rcases List.mem_cons.1 hsegment with rfl | hsegment
    · exact hP.append hliteral hbefore
    · exact hleading segment hsegment

namespace Holds

variable {pattern : Pattern}

/-- The texts around the slices of a side pass a property on to the side in any place. -/
theorem render (hP : PassesOn P) (h : pattern.Holds P) (k : Nat) : P (pattern.render k) := by
  refine hP.append ?_ h.tail
  have hleading := h.leading
  generalize pattern.segments = segments at hleading ⊢
  induction segments with
  | nil => exact hP.nil
  | cons segment segments ih =>
    rw [List.flatMap_cons]
    refine hP.append ?_ (ih fun other hother => hleading other (by simp [hother]))
    rw [List.append_assoc]
    exact hP.append (hleading segment (by simp)) (hP.index (segment.lower + k))

/-- A target that stands for its whole vector has the same texts. -/
theorem wholeVector (hP : PassesOn P) (h : pattern.Holds P) : pattern.wholeVector.Holds P := by
  unfold Pattern.wholeVector
  split
  · refine ⟨hP.nil, fun segment hsegment => ?_⟩
    obtain rfl := List.mem_singleton.1 hsegment
    exact h.tail
  · exact h

/-- Ends of slices change no text around them. -/
theorem closeFromExisting (h : pattern.Holds P) (existing : String → Option Nat) :
    (pattern.closeFromExisting existing).Holds P := by
  refine ⟨h.tail, fun segment hsegment => ?_⟩
  obtain ⟨old, hold, rfl⟩ := List.mem_map.1 hsegment
  have hleading := h.leading old hold
  split
  · exact hleading
  · exact hleading

/-- Ends of slices change no text around them. -/
theorem of_closeBounds {location : Location} {side : String} {count : Option Nat}
    {closed : Pattern} (h : pattern.Holds P)
    (hclosed : pattern.closeBounds location side count = .ok closed) : closed.Holds P := by
  have hsegments : ∀ {segments closed : List Segment},
      segments.mapM (closeSegment location side count) = .ok closed →
      (∀ segment ∈ segments, P segment.leading) → ∀ segment ∈ closed, P segment.leading := by
    intro segments
    induction segments with
    | nil =>
      intro closed h _
      rw [List.mapM_nil] at h
      obtain rfl := Except.ok.inj h
      simp
    | cons segment segments ih =>
      intro closed h hparts
      rw [List.mapM_cons] at h
      obtain ⟨first, hfirst, h⟩ := Except.bind_eq_ok_iff.1 h
      obtain ⟨others, hothers, h⟩ := Except.bind_eq_ok_iff.1 h
      obtain rfl := Except.ok.inj h
      have hleading : first.leading = segment.leading := by
        unfold closeSegment at hfirst
        split at hfirst
        · obtain rfl := Except.ok.inj hfirst
          rfl
        · cases hfirst
        · split at hfirst
          · obtain rfl := Except.ok.inj hfirst
            rfl
          · cases hfirst
      intro other hother
      rcases List.mem_cons.1 hother with rfl | hother
      · rw [hleading]
        exact hparts segment (by simp)
      · exact ih hothers (fun x hx => hparts x (by simp [hx])) other hother
  obtain ⟨segments, hmap, hresult⟩ := Except.bind_eq_ok_iff.1 hclosed
  obtain rfl := Except.ok.inj hresult
  exact ⟨h.tail, hsegments hmap h.leading⟩

/-- The texts around the slices of a target pass a property on to its names. -/
theorem names (hP : PassesOn P) (h : pattern.Holds P) {count : Nat} {name : List Char}
    (hname : name ∈ Slice.names pattern count) : P name := by
  unfold Slice.names at hname
  split at hname
  · obtain rfl := List.mem_singleton.1 hname
    exact h.render hP 0
  · obtain ⟨k, -, rfl⟩ := List.mem_map.1 hname
    exact h.render hP k

end Holds

end Pattern

namespace Source

/-- What is assigned to a slice is made of parts of a line. -/
def IsPart (line : List Char) : Source → Prop
  | pattern p => p.Holds (Scan.IsPart line)
  | items xs => ∀ x ∈ xs, Scan.IsPart line x

variable {source : Source}

/-- A part of a line is read as a source made of parts of it. -/
theorem isPart_of_parse {location : Location} {side : List Char}
    (h : parse location side = .ok source) (hside : Scan.IsPart line side) :
    source.IsPart line := by
  unfold parse at h
  split at h
  · next items hitems =>
    obtain rfl := Except.ok.inj h
    have hpaired := quotesPaired_of_listText? hside.paired hitems
    exact fun piece hpiece => hside.of_subset_of_isPart
      (quotesPaired_of_mem_splitTopLevel (by decide) hpaired hpiece)
      (List.Subset.trans (subset_of_mem_splitTopLevel hpiece) (subset_of_listText? hitems))
  · obtain ⟨pattern, hpattern, rfl⟩ := Except.map_eq_ok_iff.1 h
    exact Pattern.holds_of_parseFrom (.isPart line) hpattern .nil hside

namespace IsPart

/-- Ends of slices change no text around them. -/
theorem closeFromExisting (h : source.IsPart line) (existing : String → Option Nat) :
    (source.closeFromExisting existing).IsPart line := by
  cases source with
  | items xs => exact h
  | pattern p => exact Pattern.Holds.closeFromExisting h existing

/-- Ends of slices change no text around them. -/
theorem of_closeBounds {location : Location} {side : String} {count : Option Nat}
    {closed : Source} (h : source.IsPart line)
    (hclosed : source.closeBounds location side count = .ok closed) : closed.IsPart line := by
  cases source with
  | items xs =>
    obtain rfl := Except.ok.inj hclosed
    exact h
  | pattern p =>
    obtain ⟨q, hq, rfl⟩ := Except.map_eq_ok_iff.1 hclosed
    exact Pattern.Holds.of_closeBounds h hq

/-- The values of a source are parts of the line. -/
theorem values (h : source.IsPart line) {names count : Nat} {value : List Char}
    (hvalue : value ∈ source.values names count) : Scan.IsPart line value := by
  cases source with
  | items xs => exact h value hvalue
  | pattern p =>
    rw [Source.values] at hvalue
    split at hvalue
    · obtain rfl := (List.mem_replicate.1 hvalue).2
      exact Pattern.Holds.render (.isPart line) h 0
    · obtain ⟨k, -, rfl⟩ := List.mem_map.1 hvalue
      exact Pattern.Holds.render (.isPart line) h k

end IsPart

end Source

/-- What a slice line that can be expanded is taken apart into, and what its sides are once their
slices are closed. -/
theorem exists_of_expand {location : Location} {existing : String → Option Nat}
    {name value : String} {pairs : List (String × String)}
    (h : expand location existing name value = .ok pairs) :
    ∃ target source count, Pattern.parse location name.toList = .ok target ∧
      Source.parse location value.toList = .ok source ∧
      ∃ openTarget openSource closedTarget closedSource,
        (openTarget = target.wholeVector ∧ openSource = source ∨
          openTarget = target.wholeVector.closeFromExisting existing ∧
            openSource = source.closeFromExisting existing) ∧
        openTarget.closeBounds location name count = .ok closedTarget ∧
        openSource.closeBounds location value count = .ok closedSource ∧
        Slice.pairs location closedTarget closedSource (count.getD 0) = .ok pairs := by
  obtain ⟨target, htarget, h⟩ := Except.bind_eq_ok_iff.1 h
  obtain ⟨source, hsource, h⟩ := Except.bind_eq_ok_iff.1 h
  split at h
  next openTarget openSource heq =>
    obtain ⟨closedTarget, hclosedTarget, h⟩ := Except.bind_eq_ok_iff.1 h
    obtain ⟨closedSource, hclosedSource, h⟩ := Except.bind_eq_ok_iff.1 h
    refine ⟨target, source, sharedLength openTarget openSource, htarget, hsource, openTarget,
      openSource, closedTarget, closedSource, ?_, hclosedTarget, hclosedSource, h⟩
    split at heq
    all_goals obtain ⟨rfl, rfl⟩ := Prod.mk.inj heq
    · exact .inr ⟨rfl, rfl⟩
    · exact .inl ⟨rfl, rfl⟩

/-- The pairs of two closed sides are names of the one with values of the other. -/
theorem mem_of_pairs {location : Location} {target : Pattern} {source : Source} {count : Nat}
    {pairs : List (String × String)} (h : Slice.pairs location target source count = .ok pairs) :
    ∀ pair ∈ pairs, pair.1.toList ∈ Slice.names target count ∧
      pair.2.toList ∈ source.values (Slice.names target count).length count := by
  unfold Slice.pairs at h
  simp only at h
  split at h
  · cases h
  · obtain rfl := Except.ok.inj h
    intro pair hpair
    obtain ⟨⟨n, v⟩, hzip, rfl⟩ := List.mem_map.1 hpair
    rw [String.toList_ofList, String.toList_ofList]
    exact List.of_mem_zip hzip

/-- A target passes a property on to every name that a slice line assigns. -/
theorem holds_of_expand (hP : PassesOn P) {location : Location} {existing : String → Option Nat}
    {name value : String} {pairs : List (String × String)} (hname : P name.toList)
    (h : expand location existing name value = .ok pairs) : ∀ pair ∈ pairs, P pair.1.toList := by
  obtain ⟨target, source, count, htarget, -, openTarget, openSource, closedTarget, closedSource,
    hopen, hclosed, -, hpairs⟩ := exists_of_expand h
  have htarget := (Pattern.holds_of_parseFrom hP htarget hP.nil hname).wholeVector hP
  have hopenTarget : openTarget.Holds P := by
    rcases hopen with ⟨rfl, -⟩ | ⟨rfl, -⟩
    · exact htarget
    · exact htarget.closeFromExisting existing
  exact fun pair hpair =>
    (hopenTarget.of_closeBounds hclosed).names hP (mem_of_pairs hpairs pair hpair).1

/-- Every name and every value that a slice line assigns is a part of the line when the sides of
the line are. -/
theorem isPart_of_expand {location : Location} {existing : String → Option Nat}
    {name value : String} {pairs : List (String × String)}
    (hname : Scan.IsPart line name.toList) (hvalue : Scan.IsPart line value.toList)
    (h : expand location existing name value = .ok pairs) :
    ∀ pair ∈ pairs, Scan.IsPart line pair.1.toList ∧ Scan.IsPart line pair.2.toList := by
  have hnames := holds_of_expand (.isPart line) hname h
  obtain ⟨target, source, count, -, hsource, openTarget, openSource, closedTarget, closedSource,
    hopen, -, hclosed, hpairs⟩ := exists_of_expand h
  have hsource := Source.isPart_of_parse hsource hvalue
  have hopenSource : openSource.IsPart line := by
    rcases hopen with ⟨-, rfl⟩ | ⟨-, rfl⟩
    · exact hsource
    · exact hsource.closeFromExisting existing
  exact fun pair hpair => ⟨hnames pair hpair,
    (hopenSource.of_closeBounds hclosed).values (mem_of_pairs hpairs pair hpair).2⟩

/-! ## Locations -/

variable {location other : Location}

/-- A bound is read alike everywhere. -/
private theorem toOption_bound (text : List Char) :
    (bound location text).toOption = (bound other text).toOption := by
  unfold bound
  split
  · rfl
  · dsimp only
    split <;> rfl

/-- Two bounds are read alike everywhere. -/
private theorem toOption_bounds (location other : Location)
    (inner lowerText upperText : List Char) :
    (bounds location inner lowerText upperText).toOption =
      (bounds other inner lowerText upperText).toOption := by
  unfold bounds
  simp only [Except.toOption_bind]
  rw [toOption_bound lowerText, toOption_bound upperText]
  refine congrArg _ (funext fun lower => congrArg _ (funext fun upper => ?_))
  split <;> rfl

namespace Pattern

/-- A side is taken apart at its first bracket. -/
theorem parseFrom_eq (location : Location) (side literal rest : List Char) :
    parseFrom location side literal rest =
      match cutUnquoted '[' {} rest with
      | none => .ok ⟨[], literal ++ rest⟩
      | some (before, afterOpen) =>
        match cutBracket afterOpen with
        | none => .error (.malformedVector location (String.ofList side))
        | some (inner, after) =>
          match cutUnquoted ':' {} inner with
          | none => parseFrom location side (literal ++ before ++ '[' :: inner ++ [']']) after
          | some (lowerText, upperText) =>
            match bounds location inner lowerText upperText with
            | .error e => .error e
            | .ok (lower, upper) =>
              (parseFrom location side [] after).map fun pattern => { pattern with
                segments := ⟨literal ++ before, lower, upper⟩ :: pattern.segments } := by
  rw [parseFrom]
  split
  · next hopen => simp only [hopen]
  · next before afterOpen hopen =>
    simp only [hopen]
    cases cutBracket afterOpen <;> rfl

/-- A side is read alike everywhere. -/
private theorem toOption_parseFrom (side literal rest : List Char) :
    (parseFrom location side literal rest).toOption =
      (parseFrom other side literal rest).toOption := by
  fun_induction parseFrom location side literal rest with
  | case1 literal rest hopen =>
    rw [parseFrom_eq]
    simp only [hopen]
  | case2 literal rest before afterOpen hopen hclose =>
    rw [parseFrom_eq]
    simp only [hopen, hclose]
    rfl
  | case3 literal rest before afterOpen hopen inner after hclose hcolon ih =>
    rw [ih]
    conv => rhs; rw [parseFrom_eq]
    simp only [hopen, hclose, hcolon]
  | case4 literal rest before afterOpen hopen inner after hclose lowerText upperText hcolon e
      hbounds =>
    have hother := toOption_bounds location other inner lowerText upperText
    rw [hbounds] at hother
    conv => rhs; rw [parseFrom_eq]
    simp only [hopen, hclose, hcolon]
    cases hb : bounds other inner lowerText upperText with
    | ok found =>
      rw [hb] at hother
      cases hother
    | error d => rfl
  | case5 literal rest before afterOpen hopen inner after hclose lowerText upperText hcolon lower
      upper hbounds ih =>
    have hother := toOption_bounds location other inner lowerText upperText
    rw [hbounds] at hother
    conv => rhs; rw [parseFrom_eq]
    simp only [hopen, hclose, hcolon]
    cases hb : bounds other inner lowerText upperText with
    | ok found =>
      rw [hb] at hother
      obtain rfl := Option.some.inj hother
      simp only [Except.toOption_map, ih]
    | error d =>
      rw [hb] at hother
      cases hother

/-- Slices are closed alike everywhere. -/
private theorem toOption_closeBounds (side : String) (count : Option Nat) (pattern : Pattern) :
    (pattern.closeBounds location side count).toOption =
      (pattern.closeBounds other side count).toOption := by
  have hsegment : ∀ segment : Segment, (closeSegment location side count segment).toOption =
      (closeSegment other side count segment).toOption := by
    intro segment
    unfold closeSegment
    split
    · rfl
    · rfl
    · split <;> rfl
  have hsegments : ∀ segments : List Segment,
      (segments.mapM (closeSegment location side count)).toOption =
        (segments.mapM (closeSegment other side count)).toOption := by
    intro segments
    induction segments with
    | nil => rfl
    | cons segment segments ih =>
      simp only [List.mapM_cons, Except.toOption_bind, ih, hsegment]
  unfold closeBounds
  simp only [Except.toOption_bind, hsegments]

end Pattern

/-- A slice line stands for the same assignments everywhere. -/
theorem toOption_expand (location other : Location) (existing : String → Option Nat)
    (name value : String) :
    (expand location existing name value).toOption =
      (expand other existing name value).toOption := by
  have hparse : ∀ side, (Pattern.parse location side).toOption =
      (Pattern.parse other side).toOption :=
    fun side => Pattern.toOption_parseFrom side [] side
  have hsource : (Source.parse location value.toList).toOption =
      (Source.parse other value.toList).toOption := by
    unfold Source.parse
    split
    · rfl
    · simp only [Except.toOption_map, hparse]
  have hclose : ∀ (side : String) (count : Option Nat) (source : Source),
      (source.closeBounds location side count).toOption =
        (source.closeBounds other side count).toOption := by
    intro side count source
    cases source with
    | pattern p =>
      simp only [Source.closeBounds, Except.toOption_map]
      rw [Pattern.toOption_closeBounds]
    | items xs => rfl
  have hpairs : ∀ target source count, (pairs location target source count).toOption =
      (pairs other target source count).toOption := by
    intro target source count
    unfold pairs
    dsimp only
    split <;> rfl
  unfold expand
  simp only [Except.toOption_bind, hparse, hsource]
  refine congrArg _ (funext fun target => congrArg _ (funext fun source => ?_))
  split
  all_goals
    simp only [hclose, hpairs]
    rw [Pattern.toOption_closeBounds]

end InputDeck.Slice

namespace InputDeck.CardLine

open InputDeck.Text InputDeck.Number

/-- All that a line assigns is a part of it; a line without an assignment sign goes to the
evaluator as it is. -/
def IsPart (text : String) : CardLine → Prop
  | expression statement => statement = text ∧ Scan.cutAssignment none {} text.toList = none
  | scalar name value =>
    Scan.IsPart text.toList name.toList ∧ Scan.IsPart text.toList value.toList
  | vector name values =>
    Scan.IsPart text.toList name.toList ∧
      ∀ value ∈ values, Scan.IsPart text.toList value.toList
  | slice name value =>
    Scan.IsPart text.toList name.toList ∧ Scan.IsPart text.toList value.toList

/-- The two sides of a line are parts of it. -/
theorem isPart_sides {text before after side : List Char}
    (hcut : Scan.cutAssignment none {} text = some (before, after))
    (hside : Scan.stripUnquoted after = some side) :
    Scan.IsPart text (withoutBlanks before) ∧ Scan.IsPart text side := by
  have hsplit := Scan.eq_append_of_cutAssignment hcut
  constructor
  · refine .of_subset ?_ fun c hc => ?_
    · have hpaired : Scan.QuotesPaired before :=
        Scan.quotesPaired_of_after rfl (Scan.quoted_after_of_cutAssignment hcut)
      rwa [Scan.QuotesPaired, withoutBlanks, List.count_filter (by decide)]
    · rw [hsplit]
      exact List.mem_append_left _ (List.mem_filter.1 hc).1
  · refine .of_subset (Scan.quotesPaired_of_stripUnquoted hside) fun c hc => ?_
    rw [hsplit]
    exact List.mem_append_right _ (List.mem_cons_of_mem _ (Scan.subset_of_stripUnquoted hside hc))

/-- Whatever kind of line it is, it assigns parts of itself. -/
theorem isPart_of_ofText {text : String} {location : Location} {card : CardLine}
    (h : ofText text location = .ok card) : card.IsPart text := by
  unfold ofText at h
  split at h
  · next hcut =>
    obtain rfl := Except.ok.inj h
    exact ⟨rfl, hcut⟩
  · next before after hcut =>
    split at h
    · cases h
    · next side hside =>
      obtain ⟨hname, hvalue⟩ := isPart_sides hcut hside
      unfold ofSides at h
      repeat' split at h
      all_goals first | cases h | skip
      · simpa [IsPart] using ⟨hname, hvalue⟩
      · simpa [IsPart] using ⟨hname, hvalue⟩
      · next items hitems _ =>
        dsimp only at h
        split at h
        · cases h
        · cases h
          refine ⟨by simpa using hname, fun value hmem => ?_⟩
          obtain ⟨piece, hpiece, rfl⟩ := List.mem_map.1 hmem
          rw [String.toList_ofList]
          have hpaired := Scan.quotesPaired_of_listText? hvalue.paired hitems
          exact hvalue.of_subset_of_isPart
            (Scan.quotesPaired_of_mem_splitTopLevel (by decide) hpaired hpiece)
            (List.Subset.trans (Scan.subset_of_mem_splitTopLevel hpiece)
              (Scan.subset_of_listText? hitems))

/-- A line asks for the same everywhere. -/
theorem toOption_ofText (text : String) (location other : Location) :
    (ofText text location).toOption = (ofText text other).toOption := by
  unfold ofText
  split
  · rfl
  · split
    · rfl
    · unfold ofSides
      dsimp only
      repeat' split
      all_goals rfl

end InputDeck.CardLine
