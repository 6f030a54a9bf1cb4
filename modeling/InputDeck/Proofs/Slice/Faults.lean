import InputDeck.Proofs.Slice.Cuts
import InputDeck.Proofs.Slice.Expansion

/-!
# No faults

A machine of 64-bit words expands every slice line without a fault, to what the line stands for. Its
differences are not below zero and its sums are not too large because no slice ever ends in front of
its start or beyond the limit of words: not as it is written, not where its vector ends, and not
behind the number of indices. That last end is the only sum that can be too large, and it is
reported then.
-/

namespace InputDeck.Slice.Machine

open InputDeck.Text InputDeck.Number InputDeck.Scan

variable {α β : Type} {location : Location}

/-! ## Lengths -/

/-- The machine finds the name of a vector without a fault. -/
theorem vectorName_eq (segment : Segment) : vectorName segment = some segment.vectorName? := by
  have hsplit : segment.leading =
      (segment.leading.reverse.dropWhile Segment.isPathChar).reverse ++
        (segment.leading.reverse.takeWhile Segment.isPathChar).reverse := by
    rw [← List.reverse_append, List.takeWhile_append_dropWhile, List.reverse_reverse]
  unfold vectorName Segment.vectorName?
  rw [lastRunStart_eq]
  generalize (segment.leading.reverse.takeWhile Segment.isPathChar).reverse = name at hsplit ⊢
  generalize (segment.leading.reverse.dropWhile Segment.isPathChar).reverse = front at hsplit ⊢
  cases name with
  | nil => rfl
  | cons c name => simp [hsplit, dropBytes_byteLength]

/-- The machine finds the end of a vector without a fault. -/
theorem existingUpper_eq (existing : String → Option Nat) (segment : Segment) :
    existingUpper existing segment = some (segment.existingUpper? existing) := by
  rw [existingUpper, vectorName_eq]
  rfl

/-- Slices that end neither in front of their start nor beyond the limit of words. -/
def AreSound (segments : List Segment) : Prop :=
  ∀ segment ∈ segments, ∀ last ∈ segment.upper, segment.lower ≤ last ∧ last < wordLimit

/-- The lengths of sound slices are had without a fault. -/
theorem lengths_eq {segments : List Segment} (h : AreSound segments) :
    lengths segments = some (segments.filterMap Segment.length?) := by
  induction segments with
  | nil => rfl
  | cons segment segments ih =>
    obtain ⟨hfirst, hothers⟩ := List.forall_mem_cons.1 h
    rw [lengths]
    cases hupper : segment.upper with
    | none => simpa [Segment.length?, hupper] using ih hothers
    | some last =>
      simp [Segment.length?, hupper, sub_eq_some (hfirst last hupper).1, ih hothers]

/-- The shortest length of sound slices is had without a fault. -/
theorem sharedLength_eq {target : Pattern} {source : Source}
    (h : AreSound (target.segments ++ source.segments)) :
    sharedLength target source = some (Slice.sharedLength target source) := by
  obtain ⟨htarget, hsource⟩ := List.forall_mem_append.1 h
  rw [sharedLength, lengths_eq htarget]
  cases source with
  | items xs => rfl
  | pattern p =>
    have hlengths : lengths p.segments = _ := lengths_eq hsource
    simp only [hlengths]
    rfl

/-! ## Closed slices -/

/-- The machine closes a slice by its vector without a fault. -/
theorem closeByVector_eq (existing : String → Option Nat) (segment : Segment) :
    closeByVector existing segment = some (segment.closedBy existing) := by
  obtain ⟨leading, lower, _ | last⟩ := segment
  · rw [closeByVector, existingUpper_eq]
    simp [Segment.closedBy]
  · simp [closeByVector, Segment.closedBy]

/-- The machine closes the slices of a side by their vectors without a fault. -/
theorem closePatternByVectors_eq (existing : String → Option Nat) (pattern : Pattern) :
    closePatternByVectors existing pattern = some (pattern.closeFromExisting existing) := by
  rw [closePatternByVectors, mapM_eq_some fun segment _ => closeByVector_eq existing segment,
    Pattern.closeFromExisting_eq]
  rfl

/-- The machine closes the slices of a source by their vectors without a fault. -/
theorem closeSourceByVectors_eq (existing : String → Option Nat) (source : Source) :
    closeSourceByVectors existing source = some (source.closeFromExisting existing) := by
  cases source with
  | items xs => rfl
  | pattern p =>
    rw [closeSourceByVectors, closePatternByVectors_eq]
    rfl

/-- Slices that end where their vectors end are sound. -/
theorem AreSound.closedBy {segments : List Segment} (h : AreSound segments)
    {existing : String → Option Nat}
    (hexisting : ∀ vector length, existing vector = some length → length < wordLimit) :
    AreSound (segments.map (Segment.closedBy existing)) := by
  intro closed hclosed last hlast
  obtain ⟨segment, hsegment, rfl⟩ := List.mem_map.1 hclosed
  cases hupper : segment.upper with
  | some stop =>
    obtain rfl : stop = last := by simpa [Segment.closedBy, hupper] using hlast
    exact h segment hsegment stop hupper
  | none =>
    have hexistingUpper : segment.existingUpper? existing = some last := by
      simpa [Segment.closedBy, hupper] using hlast
    obtain ⟨vector, -, hlength, hle⟩ := Segment.existingUpper?_eq_some_iff.1 hexistingUpper
    exact ⟨hle, hexisting vector last hlength⟩

/-- The machine settles the ends of slices without a fault. -/
theorem settle_eq {existing : String → Option Nat} {target : Pattern} {source : Source}
    (hexisting : ∀ vector length, existing vector = some length → length < wordLimit)
    (h : AreSound (target.segments ++ source.segments)) :
    settle existing target source = some ((settled existing target source).1,
      (settled existing target source).2, settledLength existing target source) := by
  rw [settle, sharedLength_eq h, settledLength]
  cases hshared : Slice.sharedLength target source with
  | some n => simp [settled_of_some hshared, hshared]
  | none =>
    have hclosed := h.closedBy hexisting
    rw [List.map_append, ← Pattern.segments_mapSegments, ← Source.segments_mapSegments] at hclosed
    simp [settled_of_none hshared, closePatternByVectors_eq, closeSourceByVectors_eq,
      Pattern.closeFromExisting_eq, Source.closeFromExisting_eq, sharedLength_eq hclosed]

/-- The slices of both sides of a line that gives itself no length, closed by their vectors. -/
private theorem segments_settled_of_none {existing : String → Option Nat} {target : Pattern}
    {source : Source} (h : Slice.sharedLength target source = none) :
    (settled existing target source).1.segments ++ (settled existing target source).2.segments =
      (target.segments ++ source.segments).map (Segment.closedBy existing) := by
  rw [settled_of_none h, Pattern.segments_mapSegments, Source.segments_mapSegments,
    List.map_append]

/-- What is settled about sound slices leaves them sound. -/
theorem areSound_settled {existing : String → Option Nat} {target : Pattern} {source : Source}
    (hexisting : ∀ vector length, existing vector = some length → length < wordLimit)
    (h : AreSound (target.segments ++ source.segments)) :
    AreSound ((settled existing target source).1.segments ++
      (settled existing target source).2.segments) := by
  cases hshared : Slice.sharedLength target source with
  | none =>
    rw [segments_settled_of_none hshared]
    exact h.closedBy hexisting
  | some n =>
    rw [settled_of_some hshared]
    exact h

/-- When no length is settled, no open slice has a vector to take one from. -/
theorem existingUpper?_settled {existing : String → Option Nat} {target : Pattern}
    {source : Source} (hnone : settledLength existing target source = none) :
    ∀ segment ∈ (settled existing target source).1.segments ++
      (settled existing target source).2.segments,
      segment.upper = none → segment.existingUpper? existing = none := by
  cases hshared : Slice.sharedLength target source with
  | none =>
    rw [segments_settled_of_none hshared]
    intro closed hclosed hopen
    obtain ⟨segment, -, rfl⟩ := List.mem_map.1 hclosed
    exact (Option.or_eq_none_iff.1 hopen).2
  | some n =>
    rw [settledLength, settled_of_some hshared, hshared] at hnone
    cases hnone

/-- The machine closes a slice without a fault, when asking for its vector again finds none. -/
theorem closeSegment_eq {existing : String → Option Nat} {side : String} {count : Option Nat}
    {segment : Segment}
    (h : count = none → segment.upper = none → segment.existingUpper? existing = none) :
    (closeSegment location existing side count segment).run =
      some (Pattern.closeSegment location side count segment) := by
  unfold closeSegment Pattern.closeSegment
  cases hupper : segment.upper with
  | some last => rfl
  | none =>
    cases count with
    | none =>
      simp only [existingUpper_eq, h rfl hupper, liftM_some_bind]
      rfl
    | some n =>
      dsimp only
      by_cases hlt : segment.lower + n < wordLimit
      · rw [add_eq_some hlt, if_pos hlt]
        rfl
      · rw [add, if_neg hlt, if_neg hlt]
        rfl

/-- The machine closes the slices of a side without a fault. -/
theorem closePattern_eq {existing : String → Option Nat} {side : String} {count : Option Nat}
    {pattern : Pattern} (h : count = none → ∀ segment ∈ pattern.segments, segment.upper = none →
      segment.existingUpper? existing = none) :
    (closePattern location existing side count pattern).run =
      some (pattern.closeBounds location side count) := by
  have hsegments := run_mapM (f := closeSegment location existing side count)
    fun segment hsegment => closeSegment_eq fun hcount => h hcount segment hsegment
  exact run_bind hsegments fun _ _ => rfl

/-- The machine closes the slices of a source without a fault. -/
theorem closeSource_eq {existing : String → Option Nat} {side : String} {count : Option Nat}
    {source : Source} (h : count = none → ∀ segment ∈ source.segments, segment.upper = none →
      segment.existingUpper? existing = none) :
    (closeSource location existing side count source).run =
      some (source.closeBounds location side count) := by
  cases source with
  | items xs => rfl
  | pattern p => exact run_bind_pure (closePattern_eq h) Source.pattern

/-- The lengths of slices that were closed after a number of indices. -/
theorem givenLength_closedAt_iff {target : Pattern} {source : Source} {n m : Nat} :
    GivenLength (target.mapSegments (Segment.closedAt n))
        (source.mapSegments (Segment.closedAt n)) m ↔
      GivenLength target source m ∨
        m = n ∧ ∃ segment ∈ target.segments ++ source.segments, segment.upper = none := by
  rw [givenLength_mapSegments_iff, givenLength_iff]
  constructor
  · rintro (⟨segment, hsegment, last, hlast, rfl⟩ | hlist)
    · have hlast : segment.upper.getD (segment.lower + n) = last := Option.some.inj hlast
      cases hupper : segment.upper with
      | some stop =>
        obtain rfl : stop = last := by rwa [hupper] at hlast
        exact .inl (.inl ⟨segment, hsegment, stop, hupper, rfl⟩)
      | none =>
        obtain rfl : segment.lower + n = last := by rwa [hupper] at hlast
        exact .inr ⟨Nat.add_sub_cancel_left _ _, segment, hsegment, hupper⟩
    · exact .inl (.inr hlist)
  · rintro ((⟨segment, hsegment, last, hlast, rfl⟩ | hlist) | ⟨rfl, segment, hsegment, hopen⟩)
    · have hclosed : (segment.closedAt n).upper = some last := by
        rw [Segment.closedAt, hlast]
        rfl
      exact .inl ⟨segment, hsegment, last, hclosed, rfl⟩
    · exact .inr hlist
    · have hclosed : (segment.closedAt m).upper = some (segment.lower + m) := by
        rw [Segment.closedAt, hopen]
        rfl
      exact .inl ⟨segment, hsegment, _, hclosed, (Nat.add_sub_cancel_left _ _).symm⟩

/-- After slices were closed, the shortest length is the one that they were closed by. -/
theorem sharedLength_closedAt {target : Pattern} {source : Source} {count : Option Nat}
    (hcount : Slice.sharedLength target source = count)
    (hopen : ∀ segment ∈ target.segments ++ source.segments, segment.upper = none →
      count.isSome = true) :
    Slice.sharedLength (target.mapSegments (Segment.closedAt (count.getD 0)))
      (source.mapSegments (Segment.closedAt (count.getD 0))) = count := by
  cases count with
  | none =>
    rw [sharedLength_eq_none_iff] at hcount ⊢
    intro m hm
    rcases givenLength_closedAt_iff.1 hm with hm | ⟨-, segment, hsegment, hupper⟩
    · exact hcount m hm
    · cases hopen segment hsegment hupper
  | some n =>
    rw [sharedLength_eq_some_iff] at hcount ⊢
    refine ⟨givenLength_closedAt_iff.2 (.inl hcount.1), fun m hm => ?_⟩
    rcases givenLength_closedAt_iff.1 hm with hm | ⟨rfl, -⟩
    · exact hcount.2 hm
    · exact Nat.le_refl m

/-- Slices that are closed after a number of indices are sound when the ends are words. -/
theorem AreSound.closedAt {segments : List Segment} (h : AreSound segments) {n : Nat}
    (hopen : ∀ segment ∈ segments, segment.upper = none → segment.lower + n < wordLimit) :
    AreSound (segments.map (Segment.closedAt n)) := by
  intro closed hclosed last hlast
  obtain ⟨segment, hsegment, rfl⟩ := List.mem_map.1 hclosed
  have hstop : segment.upper.getD (segment.lower + n) = last := Option.some.inj hlast
  cases hupper : segment.upper with
  | some stop =>
    obtain rfl : stop = last := by rwa [hupper] at hstop
    exact h segment hsegment stop hupper
  | none =>
    obtain rfl : segment.lower + n = last := by rwa [hupper] at hstop
    exact ⟨Nat.le_add_right _ _, hopen segment hsegment hupper⟩

/-! ## Assignments -/

/-- The machine renders a side without a fault when the indices of its elements are words. -/
theorem render_eq {pattern : Pattern} {k : Nat}
    (h : ∀ segment ∈ pattern.segments, segment.lower + k < wordLimit) :
    render pattern k = some (pattern.render k) := by
  have helement : ∀ segment ∈ pattern.segments, element k segment =
      some (segment.leading ++ '[' :: (natText (segment.lower + k)).toList ++ [']']) := by
    intro segment hsegment
    rw [element, add_eq_some (h segment hsegment)]
    rfl
  rw [render, mapM_eq_some helement, Pattern.render, List.flatMap_def]
  rfl

/-- The machine renders a side without slices without a fault. -/
private theorem render_eq_of_isScalar {pattern : Pattern} (h : pattern.isScalar = true) (k : Nat) :
    render pattern k = some (pattern.render k) :=
  render_eq fun segment hsegment => by simp [List.isEmpty_iff.1 h] at hsegment

/-- The machine renders a side at one index after the other without a fault. -/
private theorem mapM_render_eq {pattern : Pattern} {count : Nat}
    (h : ∀ segment ∈ pattern.segments, ∀ k < count, segment.lower + k < wordLimit) :
    (List.range count).mapM (render pattern) = some ((List.range count).map pattern.render) :=
  mapM_eq_some fun k hk =>
    render_eq fun segment hsegment => h segment hsegment k (List.mem_range.1 hk)

/-- The machine renders the names of a target without a fault. -/
theorem names_eq {target : Pattern} {count : Nat}
    (h : ∀ segment ∈ target.segments, ∀ k < count, segment.lower + k < wordLimit) :
    names target count = some (Slice.names target count) := by
  unfold names Slice.names
  split
  · next hscalar =>
    rw [render_eq_of_isScalar hscalar]
    rfl
  · exact mapM_render_eq h

/-- The machine renders the values of a source without a fault. -/
theorem values_eq {source : Source} {names count : Nat}
    (h : ∀ segment ∈ source.segments, ∀ k < count, segment.lower + k < wordLimit) :
    values names count source = some (source.values names count) := by
  cases source with
  | items xs => rfl
  | pattern p =>
    simp only [values, Source.values]
    split
    · next hscalar =>
      rw [render_eq_of_isScalar hscalar]
      rfl
    · exact mapM_render_eq h

/-- The machine assigns the elements of closed sides without a fault. -/
theorem pairs_eq {target : Pattern} {source : Source} {count : Nat}
    (h : ∀ segment ∈ target.segments ++ source.segments, ∀ k < count,
      segment.lower + k < wordLimit) :
    (pairs location target source count).run = some (Slice.pairs location target source count) := by
  obtain ⟨htarget, hsource⟩ := List.forall_mem_append.1 h
  unfold pairs Slice.pairs
  rw [names_eq htarget, liftM_some_bind, values_eq hsource, liftM_some_bind]
  dsimp only
  split <;> rfl

/-- The slices of a line that can be read are sound. -/
theorem areSound_of_isTarget {name value : List Char} {target : Pattern} {source : Source}
    (htarget : IsTarget name target) (hsource : IsSource value source) :
    AreSound (target.segments ++ source.segments) := by
  refine List.forall_mem_append.2 ⟨fun segment hsegment => ?_, fun segment hsegment => ?_⟩
  · cases htarget with
    | whole =>
      obtain rfl := List.mem_singleton.1 hsegment
      simp
    | side _ hread => exact (hread.bounds_lt hsegment).2
  · cases hsource with
    | literal | list => cases hsegment
    | side _ _ hread => exact (hread.bounds_lt hsegment).2

/-- The machine closes both sides and assigns their elements without a fault. -/
theorem finish_eq {existing : String → Option Nat} {name value : String} {target : Pattern}
    {source : Source} (hsound : AreSound (target.segments ++ source.segments))
    (hopen : Slice.sharedLength target source = none →
      ∀ segment ∈ target.segments ++ source.segments, segment.upper = none →
        segment.existingUpper? existing = none) :
    ExceptT.run (do
      let count := Slice.sharedLength target source
      let target ← closePattern location existing name count target
      let source ← closeSource location existing value count source
      let count ← sharedLength target source
      pairs location target source (count.getD 0) : Checked (List (String × String))) =
    some (do
      let count := Slice.sharedLength target source
      let target ← target.closeBounds location name count
      let source ← source.closeBounds location value count
      Slice.pairs location target source (count.getD 0)) := by
  dsimp only
  generalize hcount : Slice.sharedLength target source = count at hopen ⊢
  refine run_bind (closePattern_eq fun hnone segment hsegment =>
    hopen hnone segment (List.mem_append_left _ hsegment)) fun closedTarget hclosedTarget => ?_
  refine run_bind (closeSource_eq fun hnone segment hsegment =>
    hopen hnone segment (List.mem_append_right _ hsegment)) fun closedSource hclosedSource => ?_
  obtain ⟨htarget, rfl⟩ := Pattern.closeBounds_eq_ok_iff.1 hclosedTarget
  obtain ⟨hsource, rfl⟩ := Source.closeBounds_eq_ok_iff.1 hclosedSource
  have hends := List.forall_mem_append.2 ⟨htarget, hsource⟩
  have hshared := sharedLength_closedAt hcount fun segment hsegment hupper => by
    obtain ⟨n, rfl, -⟩ := hends segment hsegment hupper
    rfl
  have hclosed := hsound.closedAt (n := count.getD 0) fun segment hsegment hupper => by
    obtain ⟨n, rfl, hlt⟩ := hends segment hsegment hupper
    exact hlt
  rw [List.map_append, ← Pattern.segments_mapSegments, ← Source.segments_mapSegments] at hclosed
  rw [sharedLength_eq hclosed, hshared, liftM_some_bind]
  -- Every index that is rendered lies in front of the end of its slice.
  refine pairs_eq fun segment hsegment k hk => ?_
  obtain ⟨n, rfl⟩ : ∃ n, count = some n := by
    cases count with
    | some n => exact ⟨n, rfl⟩
    | none => exact absurd hk (Nat.not_lt_zero k)
  obtain ⟨last, hlast⟩ : ∃ last, segment.upper = some last := by
    rw [Pattern.segments_mapSegments, Source.segments_mapSegments, ← List.map_append] at hsegment
    obtain ⟨old, -, rfl⟩ := List.mem_map.1 hsegment
    exact ⟨_, rfl⟩
  have hle : n ≤ last - segment.lower :=
    (sharedLength_eq_some_iff.1 hshared).2 (.slice hsegment hlast)
  obtain ⟨-, hlt⟩ := hclosed segment hsegment last hlast
  have hk : k < n := hk
  omega

/-- The machine expands a slice line without a fault. -/
theorem expand_eq {existing : String → Option Nat} {name value : String}
    (hname : byteLength name.toList < wordLimit) (hvalue : byteLength value.toList < wordLimit)
    (hexisting : ∀ vector length, existing vector = some length → length < wordLimit) :
    (expand location existing name value).run =
      some (Slice.expand location existing name value) := by
  unfold expand
  refine run_bind (parseFrom_eq hname) fun target htarget => ?_
  refine run_bind (parseSource_eq hvalue) fun source hsource => ?_
  have hsound := areSound_of_isTarget ((isTarget_iff location).2 ⟨target, htarget, rfl⟩)
    (isSource_iff.2 hsource)
  rw [settle_eq hexisting hsound, liftM_some_bind]
  exact finish_eq (areSound_settled hexisting hsound) existingUpper?_settled

/-! ## Sums that are too large -/

/-- The end of an open slice behind so many indices is no word. -/
def Overflows (n : Nat) (segments : List Segment) : Prop :=
  ∃ segment ∈ segments, segment.upper = none ∧ wordLimit ≤ segment.lower + n

/-- A sum that is too large is reported when the slices of a side are closed. -/
theorem closeBounds_eq_error {side : String} {n : Nat} {pattern : Pattern}
    (h : Overflows n pattern.segments) :
    pattern.closeBounds location side (some n) = .error (.invalidBound location side) := by
  have hsegments : ∀ {segments : List Segment}, Overflows n segments →
      segments.mapM (Pattern.closeSegment location side (some n)) =
        .error (.invalidBound location side) := by
    intro segments
    induction segments with
    | nil => rintro ⟨_, hsegment, -⟩; cases hsegment
    | cons first others ih =>
      intro h
      rw [List.mapM_cons]
      by_cases hfirst : first.upper = none ∧ wordLimit ≤ first.lower + n
      · have herror : Pattern.closeSegment location side (some n) first =
            .error (.invalidBound location side) := by
          simp [Pattern.closeSegment, hfirst.1, Nat.not_lt.2 hfirst.2]
        rw [herror]
        rfl
      · obtain ⟨segment, hsegment, hsum⟩ := h
        have hothers : Overflows n others := by
          rcases List.mem_cons.1 hsegment with rfl | hsegment
          · exact absurd hsum hfirst
          · exact ⟨segment, hsegment, hsum⟩
        have hok : Pattern.closeSegment location side (some n) first = .ok (first.closedAt n) := by
          refine Pattern.closeSegment_eq_ok_iff.2 ⟨fun hupper => ⟨n, rfl, ?_⟩, rfl⟩
          exact Nat.lt_of_not_le fun hle => hfirst ⟨hupper, hle⟩
        rw [hok, ih hothers]
        rfl
  rw [Pattern.closeBounds, hsegments h]
  rfl

/-- The slices of a side are closed when no sum is too large. -/
theorem closeBounds_eq_ok {side : String} {n : Nat} {pattern : Pattern}
    (h : ¬Overflows n pattern.segments) : pattern.closeBounds location side (some n) =
      .ok (pattern.mapSegments (Segment.closedAt n)) := by
  refine Pattern.closeBounds_eq_ok_iff.2 ⟨fun segment hsegment hopen => ⟨n, rfl, ?_⟩, rfl⟩
  exact Nat.lt_of_not_le fun hle => h ⟨segment, hsegment, hopen, hle⟩

/-- A sum that is too large is reported when the slices of a source are closed. -/
theorem sourceCloseBounds_eq_error {side : String} {n : Nat} {source : Source}
    (h : Overflows n source.segments) :
    source.closeBounds location side (some n) = .error (.invalidBound location side) := by
  cases source with
  | items xs =>
    obtain ⟨_, hsegment, -⟩ := h
    cases hsegment
  | pattern p =>
    rw [Source.closeBounds, closeBounds_eq_error h]
    rfl

/-- A slice whose sum is too large is not closed by its vector, which ends behind no more indices
than the two sides agree on. -/
theorem overflows_settled {existing : String → Option Nat} {target : Pattern} {source : Source}
    {n : Nat} (hcount : IsCount existing target source n)
    (hexisting : ∀ vector length, existing vector = some length → length < wordLimit) :
    (Overflows n (settled existing target source).1.segments ↔ Overflows n target.segments) ∧
      (Overflows n (settled existing target source).2.segments ↔ Overflows n source.segments) := by
  cases hshared : Slice.sharedLength target source with
  | none =>
    have hnone := sharedLength_eq_none_iff.1 hshared
    have hleast : IsLeast {m | VectorLength existing target source m} n := by
      cases hcount with
      | given h => exact absurd h.1 (hnone n)
      | vector _ h => exact h
    have hclosed : ∀ segments ⊆ target.segments ++ source.segments,
        (Overflows n (segments.map (Segment.closedBy existing)) ↔ Overflows n segments) := by
      intro segments hsegments
      constructor
      · rintro ⟨closed, hmem, hopen, hsum⟩
        obtain ⟨segment, hsegment, rfl⟩ := List.mem_map.1 hmem
        exact ⟨segment, hsegment, (Option.or_eq_none_iff.1 hopen).1, hsum⟩
      · rintro ⟨segment, hsegment, hopen, hsum⟩
        refine ⟨segment.closedBy existing, List.mem_map_of_mem hsegment, ?_, hsum⟩
        rw [Segment.closedBy, hopen, Option.none_or, Option.eq_none_iff_forall_ne_some]
        intro length hupper
        obtain ⟨vector, hvector, hlength, hle⟩ := Segment.existingUpper?_eq_some_iff.1 hupper
        have hn := hleast.2 (.slice (hsegments hsegment) hopen hvector hlength hle)
        have hlt := hexisting vector length hlength
        omega
    rw [settled_of_none hshared, Pattern.segments_mapSegments, Source.segments_mapSegments]
    exact ⟨hclosed _ (List.subset_append_left _ _), hclosed _ (List.subset_append_right _ _)⟩
  | some m =>
    rw [settled_of_some hshared]
    exact ⟨Iff.rfl, Iff.rfl⟩

/--
A slice line is expanded without a fault, and a sum of a bound that is too large is reported. No
text is longer than a word holds, and no vector either.
-/
theorem expand_never_faults {location : Location} {existing : String → Option Nat}
    {name value : String} (hname : byteLength name.toList < wordLimit)
    (hvalue : byteLength value.toList < wordLimit)
    (hexisting : ∀ vector length, existing vector = some length → length < wordLimit) :
    (expand location existing name value).run = some (Slice.expand location existing name value) ∧
      ∀ target source n, IsTarget name.toList target → IsSource value.toList source →
        IsCount existing target source n →
          (Overflows n target.segments →
            Slice.expand location existing name value = .error (.invalidBound location name)) ∧
          (¬Overflows n target.segments → Overflows n source.segments →
            Slice.expand location existing name value = .error (.invalidBound location value)) := by
  refine ⟨expand_eq hname hvalue hexisting, fun target source n htarget hsource hcount => ?_⟩
  obtain ⟨htargetSettled, hsourceSettled⟩ := overflows_settled hcount hexisting
  rw [Slice.expand_eq htarget hsource, settledLength_eq_some_iff.2 hcount]
  dsimp only
  constructor
  · intro h
    rw [closeBounds_eq_error (htargetSettled.2 h)]
    rfl
  · intro hfits h
    rw [closeBounds_eq_ok (mt htargetSettled.1 hfits),
      sourceCloseBounds_eq_error (hsourceSettled.2 h)]
    rfl

/-- The greatest word leaves no room for two indices. -/
theorem expand_never_faults_greatest_word :
    Slice.expand ⟨1, .root⟩ (fun _ => some 3) "a[18446744073709551615:]" "b[0:2]" =
      .error (.invalidBound ⟨1, .root⟩ "a[18446744073709551615:]") := by
  have hlt : byteLength "a[18446744073709551615:]".toList < wordLimit ∧
      byteLength "b[0:2]".toList < wordLimit := by decide
  have hexisting : ∀ (vector : String) (length : Nat), some 3 = some length →
      length < wordLimit := by
    rintro - _ ⟨⟩
    decide
  have htarget : Pattern.parse ⟨1, .root⟩ "a[18446744073709551615:]".toList =
      .ok ⟨[⟨['a'], 18446744073709551615, none⟩], []⟩ :=
    Except.toOption_eq_some_iff.1 (by decide +kernel)
  have hsource : Source.parse ⟨1, .root⟩ "b[0:2]".toList =
      .ok (.pattern ⟨[⟨['b'], 0, some 2⟩], []⟩) :=
    Except.toOption_eq_some_iff.1 (by decide +kernel)
  have hcount : settledLength (fun _ => some 3) ⟨[⟨['a'], 18446744073709551615, none⟩], []⟩
      (.pattern ⟨[⟨['b'], 0, some 2⟩], []⟩) = some 2 := by decide
  have hsum : Overflows 2 [⟨['a'], 18446744073709551615, none⟩] :=
    ⟨_, List.mem_singleton.2 rfl, rfl, by decide⟩
  exact ((expand_never_faults hlt.1 hlt.2 hexisting).2 _ _ 2
    ((isTarget_iff _).2 ⟨_, htarget, rfl⟩) (isSource_iff.2 hsource)
    (settledLength_eq_some_iff.1 hcount)).1 hsum

end InputDeck.Slice.Machine
