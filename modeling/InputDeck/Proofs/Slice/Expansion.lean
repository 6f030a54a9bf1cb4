import InputDeck.Proofs.Expr.Names
import InputDeck.Proofs.Slice.Sides
import Mathlib.Data.List.Nodup
import Mathlib.Order.Bounds.Basic

/-!
# What slice lines stand for

The two sides of a slice line agree on one number of indices: the shortest length that one of them
gives itself, or else the shortest length that their open slices take from vectors that exist. A
target with slices is assigned that many elements, one by one; every other target is assigned once.
-/

namespace InputDeck.Slice

open InputDeck.Text InputDeck.Number InputDeck.Scan

variable {location : Location} {existing : String → Option Nat} {target : Pattern} {source : Source}

/-! ## Lengths -/

/-- The slices of what is assigned. -/
def Source.segments : Source → List Segment
  | pattern p => p.segments
  | items _ => []

/-- A length that a slice line gives itself. -/
inductive GivenLength (target : Pattern) (source : Source) : Nat → Prop
  /-- The length of a slice with two bounds. -/
  | slice {segment : Segment} {last : Nat} (h : segment ∈ target.segments ++ source.segments)
      (hlast : segment.upper = some last) : GivenLength target source (last - segment.lower)
  /-- The number of the items of a list. -/
  | list {items : List (List Char)} (h : source = .items items) :
      GivenLength target source items.length

/-- A length that an open slice takes from its vector, which exists and reaches up to its first
index. -/
inductive VectorLength (existing : String → Option Nat) (target : Pattern) (source : Source) :
    Nat → Prop
  /-- What is left of the vector behind the first index. -/
  | slice {segment : Segment} {vector : String} {length : Nat}
      (h : segment ∈ target.segments ++ source.segments) (hopen : segment.upper = none)
      (hvector : segment.vectorName? = some vector) (hlength : existing vector = some length)
      (hle : segment.lower ≤ length) : VectorLength existing target source (length - segment.lower)

/-- The number of indices that the two sides of a slice line agree on. -/
inductive IsCount (existing : String → Option Nat) (target : Pattern) (source : Source) (n : Nat) :
    Prop
  /-- The shortest length that the line gives itself. -/
  | given (h : IsLeast {m | GivenLength target source m} n)
  /-- When it gives itself none, the shortest length of a vector. -/
  | vector (hnone : ∀ m, ¬GivenLength target source m)
      (h : IsLeast {m | VectorLength existing target source m} n)

/-- A line gives itself the lengths of its closed slices, and that of its list. -/
theorem givenLength_iff {m : Nat} : GivenLength target source m ↔
    (∃ segment ∈ target.segments ++ source.segments, ∃ last,
      segment.upper = some last ∧ m = last - segment.lower) ∨
    ∃ items, source = .items items ∧ m = items.length := by
  constructor
  · intro h
    cases h with
    | slice h hlast => exact .inl ⟨_, h, _, hlast, rfl⟩
    | list h => exact .inr ⟨_, h, rfl⟩
  · rintro (⟨segment, h, last, hlast, rfl⟩ | ⟨items, h, rfl⟩)
    · exact .slice h hlast
    · exact .list h

/-- The lengths that are known are those that a line gives itself. -/
theorem mem_lengths_iff {m : Nat} :
    m ∈ target.lengths ++ source.lengths ↔ GivenLength target source m := by
  have hpattern : ∀ {pattern : Pattern}, m ∈ pattern.lengths ↔
      ∃ segment ∈ pattern.segments, ∃ last, segment.upper = some last ∧
        m = last - segment.lower := by
    simp [Pattern.lengths, Segment.length?, eq_comm]
  rw [List.mem_append, hpattern, givenLength_iff]
  cases source with
  | pattern p =>
    rw [Source.lengths, hpattern]
    simp [Source.segments, or_and_right, exists_or]
  | items xs => simp [Source.lengths, Source.segments]

/-- The length that both sides share is the shortest one that the line gives itself. -/
theorem sharedLength_eq_some_iff {n : Nat} :
    sharedLength target source = some n ↔ IsLeast {m | GivenLength target source m} n := by
  rw [sharedLength, List.min?_eq_some_iff]
  simp only [mem_lengths_iff]
  rfl

/-- No length is shared exactly when the line gives itself none. -/
theorem sharedLength_eq_none_iff :
    sharedLength target source = none ↔ ∀ m, ¬GivenLength target source m := by
  rw [sharedLength, List.min?_eq_none_iff, List.eq_nil_iff_forall_not_mem]
  simp only [mem_lengths_iff]

/-- A line gives itself one number of indices at most. -/
theorem IsCount.unique {m n : Nat} (hm : IsCount existing target source m)
    (hn : IsCount existing target source n) : m = n := by
  cases hm with
  | given hm =>
    cases hn with
    | given hn => exact hm.unique hn
    | vector hnone => exact absurd hm.1 (hnone m)
  | vector hnone hm =>
    cases hn with
    | given hn => exact absurd hn.1 (hnone n)
    | vector _ hn => exact hm.unique hn

/-! ## Closed slices -/

namespace Segment

/-- A function of slices that changes nothing but where they end. -/
def MovesEnd (f : Segment → Segment) : Prop :=
  ∀ segment, ∃ upper, f segment = { segment with upper := upper }

/-- A slice that ends where it did, or else after the given number of indices. -/
def closedAt (count : Nat) (segment : Segment) : Segment :=
  { segment with upper := some (segment.upper.getD (segment.lower + count)) }

/-- A slice that ends where it did, or else where its vector ends. -/
def closedBy (existing : String → Option Nat) (segment : Segment) : Segment :=
  { segment with upper := segment.upper.or (segment.existingUpper? existing) }

theorem movesEnd_closedAt (count : Nat) : MovesEnd (closedAt count) := fun _ => ⟨_, rfl⟩

theorem movesEnd_closedBy (existing : String → Option Nat) : MovesEnd (closedBy existing) :=
  fun _ => ⟨_, rfl⟩

/-- Where the vector of an open slice ends. -/
theorem existingUpper?_eq_some_iff {segment : Segment} {length : Nat} :
    segment.existingUpper? existing = some length ↔
      ∃ vector, segment.vectorName? = some vector ∧ existing vector = some length ∧
        segment.lower ≤ length := by
  simp only [existingUpper?, Option.filter_eq_some_iff, Option.bind_eq_some_iff, decide_eq_true_eq]
  exact ⟨fun ⟨⟨vector, h, hlength⟩, hle⟩ => ⟨vector, h, hlength, hle⟩,
    fun ⟨vector, h, hlength, hle⟩ => ⟨⟨vector, h, hlength⟩, hle⟩⟩

end Segment

namespace Pattern

/-- A side whose slices are closed by a function of them. -/
def mapSegments (f : Segment → Segment) (pattern : Pattern) : Pattern :=
  { pattern with segments := pattern.segments.map f }

section

variable {f : Segment → Segment} (pattern : Pattern)

@[simp] theorem segments_mapSegments :
    (pattern.mapSegments f).segments = pattern.segments.map f := rfl

@[simp] theorem isScalar_mapSegments : (pattern.mapSegments f).isScalar = pattern.isScalar := by
  simp [isScalar]

/-- Where slices end does not show in their elements. -/
theorem render_mapSegments (hf : Segment.MovesEnd f) (k : Nat) :
    (pattern.mapSegments f).render k = pattern.render k := by
  have hplace : ∀ segment, (f segment).leading = segment.leading ∧
      (f segment).lower = segment.lower := by
    intro segment
    obtain ⟨upper, hupper⟩ := hf segment
    rw [hupper]
    exact ⟨rfl, rfl⟩
  simp [render, mapSegments, List.flatMap_map, hplace]

end

/-- Open slices are closed by their vectors. -/
theorem closeFromExisting_eq (pattern : Pattern) :
    pattern.closeFromExisting existing = pattern.mapSegments (Segment.closedBy existing) := by
  refine congrArg (Pattern.mk · pattern.tail) (List.map_congr_left fun segment _ => ?_)
  obtain ⟨leading, lower, _ | last⟩ := segment <;> simp [Segment.closedBy]

/-- An open slice is closed by the given number of indices when a machine word holds its end. -/
theorem closeSegment_eq_ok_iff {side : String} {count : Option Nat} {segment closed : Segment} :
    closeSegment location side count segment = .ok closed ↔
      (segment.upper = none → ∃ n, count = some n ∧ segment.lower + n < wordLimit) ∧
        closed = segment.closedAt (count.getD 0) := by
  obtain ⟨leading, lower, upper⟩ := segment
  cases upper with
  | some last => simp [closeSegment, Segment.closedAt, eq_comm]
  | none =>
    cases count with
    | none => simp [closeSegment]
    | some n =>
      by_cases h : lower + n < wordLimit
      · simp [closeSegment, Segment.closedAt, h, eq_comm]
      · simp [closeSegment, h]

/-- The open slices of a side are closed one by one. -/
theorem closeBounds_eq_ok_iff {side : String} {count : Option Nat} {pattern closed : Pattern} :
    pattern.closeBounds location side count = .ok closed ↔
      (∀ segment ∈ pattern.segments, segment.upper = none →
        ∃ n, count = some n ∧ segment.lower + n < wordLimit) ∧
      closed = pattern.mapSegments (Segment.closedAt (count.getD 0)) := by
  have hsegments : ∀ {segments closed : List Segment},
      segments.mapM (closeSegment location side count) = .ok closed ↔
        (∀ segment ∈ segments, segment.upper = none →
          ∃ n, count = some n ∧ segment.lower + n < wordLimit) ∧
        closed = segments.map (Segment.closedAt (count.getD 0)) := by
    intro segments
    induction segments with
    | nil =>
      intro closed
      simp [pure, Except.pure, eq_comm]
    | cons segment segments ih =>
      intro closed
      simp only [List.mapM_cons, List.forall_mem_cons, Except.bind_eq_ok_iff,
        closeSegment_eq_ok_iff, ih]
      constructor
      · rintro ⟨first, ⟨hfirst, rfl⟩, others, ⟨hrest, rfl⟩, hclosed⟩
        obtain rfl := Except.ok.inj hclosed
        exact ⟨⟨hfirst, hrest⟩, rfl⟩
      · rintro ⟨⟨hfirst, hrest⟩, rfl⟩
        exact ⟨_, ⟨hfirst, rfl⟩, _, ⟨hrest, rfl⟩, rfl⟩
  constructor
  · intro h
    obtain ⟨segments, hmap, hclosed⟩ := Except.bind_eq_ok_iff.1 h
    obtain ⟨hopen, rfl⟩ := hsegments.1 hmap
    obtain rfl := Except.ok.inj hclosed
    exact ⟨hopen, rfl⟩
  · rintro ⟨hopen, rfl⟩
    exact Except.bind_eq_ok_iff.2 ⟨_, hsegments.2 ⟨hopen, rfl⟩, rfl⟩

end Pattern

namespace Source

/-- A source whose slices are closed by a function of them. -/
def mapSegments (f : Segment → Segment) : Source → Source
  | pattern p => pattern (p.mapSegments f)
  | items xs => items xs

@[simp] theorem segments_mapSegments (f : Segment → Segment) (source : Source) :
    (source.mapSegments f).segments = source.segments.map f := by
  cases source <;> rfl

/-- Where slices end does not show in the values. -/
theorem values_mapSegments {f : Segment → Segment} (hf : Segment.MovesEnd f) (source : Source)
    (names count : Nat) :
    (source.mapSegments f).values names count = source.values names count := by
  cases source with
  | items xs => rfl
  | pattern p =>
    simp [mapSegments, values, p.render_mapSegments hf, funext (p.render_mapSegments hf)]

/-- Open slices are closed by their vectors. -/
theorem closeFromExisting_eq (source : Source) :
    source.closeFromExisting existing = source.mapSegments (Segment.closedBy existing) := by
  cases source with
  | items xs => rfl
  | pattern p => rw [closeFromExisting, p.closeFromExisting_eq]; rfl

/-- The open slices of a source are closed one by one. -/
theorem closeBounds_eq_ok_iff {side : String} {count : Option Nat} {closed : Source} :
    source.closeBounds location side count = .ok closed ↔
      (∀ segment ∈ source.segments, segment.upper = none →
        ∃ n, count = some n ∧ segment.lower + n < wordLimit) ∧
      closed = source.mapSegments (Segment.closedAt (count.getD 0)) := by
  cases source with
  | items xs => simp [closeBounds, segments, mapSegments, eq_comm]
  | pattern p =>
    simp only [closeBounds, Except.map_eq_ok_iff, Pattern.closeBounds_eq_ok_iff]
    constructor
    · rintro ⟨_, ⟨hopen, rfl⟩, rfl⟩
      exact ⟨hopen, rfl⟩
    · rintro ⟨hopen, rfl⟩
      exact ⟨_, ⟨hopen, rfl⟩, rfl⟩

end Source

/-- Where slices end does not show in what is assigned. -/
theorem pairs_mapSegments {f g : Segment → Segment}
    (hf : Segment.MovesEnd f) (hg : Segment.MovesEnd g) (count : Nat) :
    pairs location (target.mapSegments f) (source.mapSegments g) count =
      pairs location target source count := by
  have hnames : names (target.mapSegments f) count = names target count := by
    simp [names, target.render_mapSegments hf, funext (target.render_mapSegments hf)]
  rw [pairs, pairs, hnames, source.values_mapSegments hg]

/-! ## The number of indices -/

/-- The two sides of a slice line after its open slices were closed by their vectors, which is done
when the line gives itself no length. -/
def settled (existing : String → Option Nat) (target : Pattern) (source : Source) :
    Pattern × Source :=
  if (sharedLength target source).isNone then
    (target.closeFromExisting existing, source.closeFromExisting existing)
  else (target, source)

/-- The open slices of a line that gives itself no length are closed by their vectors. -/
theorem settled_of_none (h : sharedLength target source = none) :
    settled existing target source = (target.mapSegments (Segment.closedBy existing),
      source.mapSegments (Segment.closedBy existing)) := by
  rw [settled, h, if_pos Option.isNone_none, Pattern.closeFromExisting_eq,
    Source.closeFromExisting_eq]

/-- The slices of a line that gives itself a length stay as they are. -/
theorem settled_of_some {n : Nat} (h : sharedLength target source = some n) :
    settled existing target source = (target, source) := by
  rw [settled, h]
  rfl

/-- The length that both sides of a slice line share in the end. -/
def settledLength (existing : String → Option Nat) (target : Pattern) (source : Source) :
    Option Nat :=
  sharedLength (settled existing target source).1 (settled existing target source).2

/-- The lengths that a line gives itself when its slices were changed. -/
theorem givenLength_mapSegments_iff {f : Segment → Segment} {m : Nat} :
    GivenLength (target.mapSegments f) (source.mapSegments f) m ↔
      (∃ segment ∈ target.segments ++ source.segments, ∃ last,
        (f segment).upper = some last ∧ m = last - (f segment).lower) ∨
      ∃ items, source = .items items ∧ m = items.length := by
  have hsegments : (target.mapSegments f).segments ++ (source.mapSegments f).segments =
      (target.segments ++ source.segments).map f := by
    rw [Pattern.segments_mapSegments, Source.segments_mapSegments, List.map_append]
  have hitems : ∀ items, source.mapSegments f = .items items ↔ source = .items items := by
    cases source <;> simp [Source.mapSegments]
  simp only [givenLength_iff, hsegments, hitems, List.mem_map, exists_exists_and_eq_and]

/-- The slices that are left when a line gives itself no length. -/
theorem givenLength_closedBy_iff (hnone : ∀ m, ¬GivenLength target source m) {m : Nat} :
    GivenLength (target.mapSegments (Segment.closedBy existing))
      (source.mapSegments (Segment.closedBy existing)) m ↔
        VectorLength existing target source m := by
  rw [givenLength_mapSegments_iff]
  constructor
  · rintro (⟨segment, hsegment, last, hlast, rfl⟩ | ⟨items, rfl, rfl⟩)
    · cases hupper : segment.upper with
      | some last => exact absurd (.slice hsegment hupper) (hnone _)
      | none =>
        simp only [Segment.closedBy, hupper, Option.none_or] at hlast
        obtain ⟨vector, hvector, hlength, hle⟩ := Segment.existingUpper?_eq_some_iff.1 hlast
        have hlength := VectorLength.slice hsegment hupper hvector hlength hle
        exact hlength
    · exact absurd (.list rfl) (hnone items.length)
  · rintro @⟨segment, vector, length, hsegment, hopen, hvector, hlength, hle⟩
    have hclosed : (segment.closedBy existing).upper = some length := by
      rw [Segment.closedBy, hopen, Option.none_or]
      exact Segment.existingUpper?_eq_some_iff.2 ⟨vector, hvector, hlength, hle⟩
    exact .inl ⟨segment, hsegment, length, hclosed, rfl⟩

/-- The length that both sides share in the end is the number of indices. -/
theorem settledLength_eq_some_iff {n : Nat} :
    settledLength existing target source = some n ↔ IsCount existing target source n := by
  rw [settledLength]
  cases hshared : sharedLength target source with
  | none =>
    have hnone := sharedLength_eq_none_iff.1 hshared
    rw [settled_of_none hshared, sharedLength_eq_some_iff]
    simp only [givenLength_closedBy_iff hnone]
    constructor
    · exact .vector hnone
    · intro h
      cases h with
      | given h => exact absurd h.1 (hnone n)
      | vector _ h => exact h
  | some m =>
    rw [settled_of_some hshared, sharedLength_eq_some_iff]
    constructor
    · exact .given
    · intro h
      cases h with
      | given h => exact h
      | vector hnone =>
        rw [sharedLength_eq_none_iff.2 hnone] at hshared
        cases hshared

/-- What a slice line stands for, once its sides are read. -/
theorem expand_eq {name value : String} (htarget : IsTarget name.toList target)
    (hsource : IsSource value.toList source) :
    expand location existing name value = (do
      let sides := settled existing target source
      let count := settledLength existing target source
      let target ← sides.1.closeBounds location name count
      let source ← sides.2.closeBounds location value count
      pairs location target source (count.getD 0)) := by
  obtain ⟨pattern, hparse, rfl⟩ := (isTarget_iff location).1 htarget
  unfold expand
  rw [hparse, isSource_iff.1 hsource]
  rfl

/-- Only sides that can be read stand for anything. -/
theorem exists_isTarget_isSource {name value : String} {pairs : List (String × String)}
    (h : expand location existing name value = .ok pairs) :
    ∃ target source, IsTarget name.toList target ∧ IsSource value.toList source := by
  obtain ⟨pattern, hpattern, h⟩ := Except.bind_eq_ok_iff.1 h
  obtain ⟨source, hsource, -⟩ := Except.bind_eq_ok_iff.1 h
  exact ⟨_, source, (isTarget_iff location).2 ⟨pattern, hpattern, rfl⟩, isSource_iff.2 hsource⟩

/-- The open slices of both sides are closed alike before their lengths are shared. -/
theorem exists_settled (existing : String → Option Nat) (target : Pattern) (source : Source) :
    ∃ f, Segment.MovesEnd f ∧
      settled existing target source = (target.mapSegments f, source.mapSegments f) := by
  cases hshared : sharedLength target source with
  | none => exact ⟨_, Segment.movesEnd_closedBy existing, settled_of_none hshared⟩
  | some n =>
    refine ⟨id, fun segment => ⟨segment.upper, rfl⟩, ?_⟩
    rw [settled_of_some hshared]
    cases source <;> simp [Pattern.mapSegments, Source.mapSegments]

/-- A slice line that stands for anything has its open slices closed, and assigns names of its
target with values of its source. -/
theorem exists_of_expand_eq_ok {name value : String} {pairs : List (String × String)}
    (h : expand location existing name value = .ok pairs) :
    ∃ target source count, IsTarget name.toList target ∧ IsSource value.toList source ∧
      settledLength existing target source = count ∧ (target.segments ≠ [] → count.isSome) ∧
      Slice.pairs location target source (count.getD 0) = .ok pairs := by
  obtain ⟨target, source, htarget, hsource⟩ := exists_isTarget_isSource h
  rw [expand_eq htarget hsource] at h
  obtain ⟨closedTarget, hclosedTarget, h⟩ := Except.bind_eq_ok_iff.1 h
  obtain ⟨closedSource, hclosedSource, h⟩ := Except.bind_eq_ok_iff.1 h
  obtain ⟨f, hf, hsettled⟩ := exists_settled existing target source
  obtain ⟨hopen, rfl⟩ := Pattern.closeBounds_eq_ok_iff.1 hclosedTarget
  obtain ⟨-, rfl⟩ := Source.closeBounds_eq_ok_iff.1 hclosedSource
  refine ⟨target, source, _, htarget, hsource, rfl, fun hslices => ?_, ?_⟩
  · obtain ⟨segment, others, hsegments⟩ := List.exists_cons_of_ne_nil hslices
    have hmem : f segment ∈ (settled existing target source).1.segments := by
      simp [hsettled, hsegments]
    cases hupper : (f segment).upper with
    | none =>
      obtain ⟨n, hn, -⟩ := hopen _ hmem hupper
      rw [hn]
      rfl
    | some last =>
      refine Option.isSome_iff_ne_none.2 fun hnone => ?_
      exact sharedLength_eq_none_iff.1 hnone _ (.slice (List.mem_append_left _ hmem) hupper)
  · rw [hsettled] at h
    rw [pairs_mapSegments (Segment.movesEnd_closedAt _) (Segment.movesEnd_closedAt _)] at h
    rwa [pairs_mapSegments hf hf] at h

/-! ## What is assigned -/

/-- The pairs are the names of the target, each with the value that stands in its place. -/
theorem getElem?_of_pairs {count : Nat} {pairs : List (String × String)}
    (h : Slice.pairs location target source count = .ok pairs) :
    pairs.map (fun pair => pair.1.toList) = names target count ∧
      ∀ (k : Nat) (pair : String × String), pairs[k]? = some pair →
        (source.values (names target count).length count)[k]? = some pair.2.toList := by
  unfold Slice.pairs at h
  dsimp only at h
  generalize names target count = names at h ⊢
  generalize source.values names.length count = values at h ⊢
  split at h
  · cases h
  · next hle =>
    obtain rfl := Except.ok.inj h
    refine ⟨?_, fun k pair hk => ?_⟩
    · have hfst := List.map_fst_zip (Nat.le_of_not_lt hle)
      simpa [Function.comp_def] using hfst
    · rw [List.getElem?_map, Option.map_eq_some_iff] at hk
      obtain ⟨parts, hparts, rfl⟩ := hk
      simpa using (List.getElem?_zip_eq_some.1 hparts).2

/-- In two places a side with slices has two texts. -/
theorem Pattern.render_injective {pattern : Pattern} (h : pattern.segments ≠ []) :
    Function.Injective pattern.render := by
  obtain ⟨_ | ⟨segment, segments⟩, tail⟩ := pattern
  · exact absurd rfl h
  · intro i j hij
    have hbracket : ∀ n : Nat, ']' ∉ (natText n).toList := fun n => notMem_natText (by decide)
    simp only [render, List.flatMap_cons, List.append_assoc, List.cons_append,
      List.append_cancel_left_eq, List.cons.injEq, true_and, List.nil_append] at hij
    have hdigits := congrArg (cutFirst ']') hij
    rw [cutFirst_append_cons (hbracket _), cutFirst_append_cons (hbracket _)] at hdigits
    have hvalue := congrArg digitsValue (Prod.mk.inj (Option.some.inj hdigits)).1
    simp only [natText, String.toList_ofList, digitsValue_toDigits] at hvalue
    omega

/-- The value in some place of a source. -/
theorem IsSource.isValue {value text : List Char} {names count k : Nat}
    (h : IsSource value source) (htext : (source.values names count)[k]? = some text) :
    IsValue k value source text := by
  cases h with
  | literal h => exact .item htext
  | list => exact .item htext
  | side _ _ hread =>
    rw [Source.values] at htext
    split at htext
    · next hscalar =>
      have hscalar := List.isEmpty_iff.1 hscalar
      obtain rfl := (List.mem_replicate.1 (List.mem_of_getElem? htext)).2
      rw [hread.tail_eq hscalar]
      exact .same rfl
    · next hslices =>
      have hslices := mt List.isEmpty_iff.2 hslices
      rw [List.getElem?_map, Option.map_eq_some_iff] at htext
      obtain ⟨place, hplace, rfl⟩ := htext
      obtain ⟨-, rfl⟩ : k < count ∧ k = place := by
        simpa [List.getElem?_eq_some_iff] using hplace
      exact .element hslices (hread.isElement_iff.2 rfl)

/--
What a slice line stands for. A target with slices is assigned as many elements as the two sides
agree on, and never the same one twice; every other target is assigned once. The names and the
values are those of the places `0`, `1`, … one after the other.
-/
theorem expand_assigns_elements {location : Location} {existing : String → Option Nat}
    {name value : String} {pairs : List (String × String)}
    (h : expand location existing name value = .ok pairs) :
    ∃ target source, IsTarget name.toList target ∧ IsSource value.toList source ∧
      (∀ (k : Nat) (pair : String × String), pairs[k]? = some pair →
        IsName k name.toList pair.1.toList ∧ IsValue k value.toList source pair.2.toList) ∧
      (target.segments = [] → pairs.length = 1) ∧
      (target.segments ≠ [] →
        IsCount existing target source pairs.length ∧ (pairs.map Prod.fst).Nodup) := by
  obtain ⟨target, source, count, htarget, hsource, hcount, hsome, hpairs⟩ :=
    exists_of_expand_eq_ok h
  obtain ⟨hnames, hvalues⟩ := getElem?_of_pairs hpairs
  have hlength : pairs.length = (names target (count.getD 0)).length := by
    rw [← hnames, List.length_map]
  refine ⟨target, source, htarget, hsource, fun k pair hpair => ⟨?_, ?_⟩, fun hscalar => ?_,
    fun hslices => ?_⟩
  · have hname : (names target (count.getD 0))[k]? = some pair.1.toList := by
      rw [← hnames, List.getElem?_map, hpair]
      rfl
    rw [htarget.isName_iff]
    unfold names at hname
    split at hname
    · obtain ⟨rfl, hrender⟩ : k = 0 ∧ target.render 0 = pair.1.toList := by
        simpa [List.getElem?_singleton] using hname
      exact hrender.symm
    · rw [List.getElem?_map, Option.map_eq_some_iff] at hname
      obtain ⟨place, hplace, hrender⟩ := hname
      obtain ⟨-, rfl⟩ : k < count.getD 0 ∧ k = place := by
        simpa [List.getElem?_eq_some_iff] using hplace
      exact hrender.symm
  · exact hsource.isValue (hvalues k pair hpair)
  · rw [hlength]
    simp [names, Pattern.isScalar, hscalar]
  · have hnotScalar : target.isScalar = false := by simpa [Pattern.isScalar] using hslices
    obtain ⟨n, rfl⟩ := Option.isSome_iff_exists.1 (hsome hslices)
    have hn : pairs.length = n := by
      rw [hlength]
      simp [names, hnotScalar]
    refine ⟨hn ▸ settledLength_eq_some_iff.1 hcount, ?_⟩
    have hnodup : (pairs.map fun pair => pair.1.toList).Nodup := by
      rw [hnames, names, hnotScalar, if_neg (by simp)]
      exact List.Nodup.map (target.render_injective hslices) List.nodup_range
    rw [show (fun pair : String × String => pair.1.toList) = String.toList ∘ Prod.fst from rfl,
      ← List.map_map] at hnodup
    exact hnodup.of_map

/-- The shorter of two slices decides. -/
theorem expand_assigns_elements_shortest :
    ∃ target source, IsTarget "c[:]".toList target ∧ IsSource "a[1:4]+b[:2]".toList source ∧
      target.segments ≠ [] ∧ IsCount (fun _ => none) target source 2 := by
  have hexpand : expand ⟨1, .root⟩ (fun _ => none) "c[:]" "a[1:4]+b[:2]" =
      .ok [("c[0]", "a[1]+b[0]"), ("c[1]", "a[2]+b[1]")] :=
    Except.toOption_eq_some_iff.1 (by decide +kernel)
  obtain ⟨target, source, htarget, hsource, -, hscalar, hslices⟩ :=
    expand_assigns_elements hexpand
  have hne : target.segments ≠ [] := fun h => absurd (hscalar h) (by decide)
  exact ⟨target, source, htarget, hsource, hne, (hslices hne).1⟩

end InputDeck.Slice
