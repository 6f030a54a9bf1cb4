import InputDeck.Proofs.Outcome
import InputDeck.Proofs.Suit.Segments
import InputDeck.Suit.Header

/-!
# Entering headers

One cursor goes through all headers of a text, and is changed in place, so what a header had changed
before it was rejected would stay changed. No header changes anything before it is accepted. A
relative header moves the current suit only, so the suit that relative headers start from is the one
of the last absolute header that was accepted, whatever was entered since.
-/

namespace InputDeck

open InputDeck.Text

namespace SuitCursor

variable {settings : Settings}

/-! ## Names of headers -/

/-- The name of a header is what stands in front of its first closing delimiter. -/
theorem headerName?_eq_some_iff {text name : List Char} :
    headerName? settings text = some name ↔
      ∃ tail, text = settings.suitOpen :: (name ++ settings.suitClose :: tail) ∧
        settings.suitClose ∉ name := by
  cases text with
  | nil => simp [headerName?]
  | cons c rest =>
    rw [headerName?]
    constructor
    · intro h
      split at h
      · next hopen =>
        obtain ⟨⟨before, tail⟩, hcut, hname⟩ := Option.map_eq_some_iff.1 h
        obtain rfl : before = name := hname
        obtain ⟨rfl, hnone⟩ := cutFirst_eq_some hcut
        exact ⟨tail, by rw [hopen], hnone⟩
      · cases h
    · rintro ⟨tail, htext, hnone⟩
      obtain ⟨rfl, rfl⟩ := List.cons.inj htext
      rw [if_pos rfl, cutFirst_append_cons hnone]
      rfl

/-- The name of a header: what stands between the delimiters, without blanks. -/
def HasName (settings : Settings) (text : String) (name : List Char) : Prop :=
  ∃ inner tail, text.toList = settings.suitOpen :: (inner ++ settings.suitClose :: tail) ∧
    settings.suitClose ∉ inner ∧ name = withoutBlanks inner

/-- Whether the name of a header begins with two dots. -/
def isRelative (settings : Settings) (text : String) : Bool :=
  (headerName? settings text.toList).any fun inner =>
    (SuitPath.stripFront ['.', '.'] (withoutBlanks inner)).isSome

/-- A header is relative exactly when it has a name with two dots in front. -/
theorem isRelative_iff {text : String} :
    isRelative settings text = true ↔ ∃ rest, HasName settings text ('.' :: '.' :: rest) := by
  rw [isRelative, Option.any_eq_true]
  constructor
  · rintro ⟨inner, hinner, hfront⟩
    obtain ⟨tail, htext, hnone⟩ := headerName?_eq_some_iff.1 hinner
    obtain ⟨rest, hrest⟩ := Option.isSome_iff_exists.1 hfront
    exact ⟨rest, inner, tail, htext, hnone, (SuitPath.stripFront_eq_some_iff.1 hrest).symm⟩
  · rintro ⟨rest, inner, tail, htext, hnone, hname⟩
    refine ⟨inner, headerName?_eq_some_iff.2 ⟨tail, htext, hnone⟩, ?_⟩
    rw [SuitPath.stripFront_eq_some_iff.2 hname.symm]
    rfl

/-! ## One header -/

/-- Enter the suit that a header declares, by changing the cursor. -/
def enterInPlace (settings : Settings) (text : String) (line : Nat) :
    EStateM DeckError SuitCursor SuitPath := do
  match headerName? settings text.toList with
  | none => throw (.malformedHeader ((← get).locate line) text)
  | some inner =>
    let name := withoutBlanks inner
    if name = [] then throw (.emptySuitName ((← get).locate line))
    match SuitPath.stripFront ['.', '.'] name with
    | some rest =>
      match (← get).previous with
      | none => throw (.danglingHeader ((← get).locate line) (String.ofList name))
      | some previous =>
        modify fun cursor => { cursor with current := previous.sibling (String.ofList rest) }
    | none =>
      modify fun cursor => { cursor with current := SuitPath.ofString (String.ofList name) }
      modify fun cursor => { cursor with previous := some cursor.current }
    return (← get).current

variable {cursor next : SuitCursor} {text : String} {line : Nat} {path : SuitPath}

/-- Changed in place, the cursor is the one that a header leads to, and the same one as before when
the header leads nowhere. -/
theorem enterInPlace_eq (settings : Settings) (cursor : SuitCursor) (text : String) (line : Nat) :
    enterInPlace settings text line cursor =
      match cursor.enter settings text line with
      | .ok next => .ok next.current next
      | .error e => .error e cursor := by
  unfold enterInPlace enter
  cases headerName? settings text.toList with
  | none => rfl
  | some inner =>
    dsimp only
    by_cases hempty : withoutBlanks inner = []
    · rw [if_pos hempty, if_pos hempty]
      rfl
    · rw [if_neg hempty, if_neg hempty]
      cases SuitPath.stripFront ['.', '.'] (withoutBlanks inner) with
      | none => rfl
      | some rest =>
        obtain ⟨current, _ | previous⟩ := cursor
        · rfl
        · rfl

/-- A header that is rejected leaves the cursor as it was. -/
theorem eq_of_enterInPlace_error {e : DeckError}
    (h : enterInPlace settings text line cursor = .error e next) : next = cursor := by
  rw [enterInPlace_eq] at h
  split at h
  · cases h
  · cases h
    rfl

/-- A header that is accepted moves the cursor to its suit, and relative headers start from there
when it is not relative itself. -/
theorem enterInPlace_ok (h : enterInPlace settings text line cursor = .ok path next) :
    next = ⟨path, if isRelative settings text then cursor.previous else some path⟩ := by
  rw [enterInPlace_eq] at h
  split at h
  · next hnext =>
    cases h
    obtain ⟨inner, hinner, hleads⟩ := enter_eq_ok_iff.1 hnext
    rw [isRelative, hinner, Option.any_some]
    generalize withoutBlanks inner = name at hleads
    cases hleads with
    | relative => rfl
    | absolute hne hdots =>
      rw [SuitPath.stripFront_eq_none_iff.2 hdots]
      rfl
  · cases h

/-- A relative header leads to the suit beside the one of the last absolute header. -/
theorem enterInPlace_relative {rest : List Char} {previous : SuitPath}
    (hname : HasName settings text ('.' :: '.' :: rest)) (hprevious : cursor.previous = some previous) :
    enterInPlace settings text line cursor =
      .ok (previous.sibling (String.ofList rest))
        ⟨previous.sibling (String.ofList rest), some previous⟩ := by
  obtain ⟨inner, tail, htext, hnone, hinner⟩ := hname
  have henter : cursor.enter settings text line =
      .ok { cursor with current := previous.sibling (String.ofList rest) } :=
    enter_eq_ok_iff.2 ⟨inner, headerName?_eq_some_iff.2 ⟨tail, htext, hnone⟩,
      hinner ▸ .relative hprevious⟩
  rw [enterInPlace_eq, henter, hprevious]

/-! ## All headers -/

/-- What headers lead to when they are entered one after the other: each text with its suit, if it
is accepted. -/
def visits (settings : Settings) (cursor : SuitCursor) :
    List (String × Nat) → List (String × Option SuitPath)
  | [] => []
  | (text, line) :: rest =>
    match enterInPlace settings text line cursor with
    | .ok path next => (text, some path) :: visits settings next rest
    | .error _ next => (text, none) :: visits settings next rest

/-- The cursor behind headers that are entered one after the other. -/
def enterAll (settings : Settings) (cursor : SuitCursor) (headers : List (String × Nat)) :
    SuitCursor :=
  headers.foldl (fun cursor header =>
    (enterInPlace settings header.1 header.2 cursor).finalState) cursor

/-- The suit of an absolute header that was accepted. -/
def absoluteVisit? (settings : Settings) (visit : String × Option SuitPath) : Option SuitPath :=
  if isRelative settings visit.1 then none else visit.2

/-- Relative headers start from the suit of the last absolute header that was accepted. -/
theorem previous_enterAll (cursor : SuitCursor) (headers : List (String × Nat)) :
    (enterAll settings cursor headers).previous =
      (((visits settings cursor headers).filterMap (absoluteVisit? settings)).getLast?).or
        cursor.previous := by
  induction headers generalizing cursor with
  | nil => rfl
  | cons header headers ih =>
    obtain ⟨text, line⟩ := header
    change (enterAll settings (enterInPlace settings text line cursor).finalState headers).previous = _
    rw [ih, visits]
    cases hentry : enterInPlace settings text line cursor with
    | error e next =>
      rw [eq_of_enterInPlace_error hentry]
      simp [EStateM.Result.finalState, absoluteVisit?]
    | ok path next =>
      rw [enterInPlace_ok hentry]
      cases hrelative : isRelative settings text with
      | true => simp [EStateM.Result.finalState, absoluteVisit?, hrelative]
      | false =>
        simp [EStateM.Result.finalState, absoluteVisit?, hrelative, List.getLast?_cons]

/--
Relative headers start from the last absolute header, whatever headers are entered one after the
other. The suit they start from is the one that the last absolute header led to, and there is none
before the first of them was accepted; a header that is rejected changes nothing; and one whose name
goes up from a path of segments and then along others leads to the path with those in place of the
last segment, and is not started from itself.
-/
theorem relative_headers_start_from_last_absolute (settings : Settings)
    (headers : List (String × Nat)) :
    (enterAll settings {} headers).previous =
        ((visits settings {} headers).filterMap (absoluteVisit? settings)).getLast? ∧
      (∀ text line e next,
        enterInPlace settings text line (enterAll settings {} headers) = .error e next →
          next = enterAll settings {} headers) ∧
      ∀ text line segments others, (∀ s ∈ segments, SuitPath.IsSegment s) →
        (∀ s ∈ others, SuitPath.IsSegment s) →
        (enterAll settings {} headers).previous = some (SuitPath.ofSegments segments) →
        HasName settings text ("../" ++ "/".intercalate others).toList →
          enterInPlace settings text line (enterAll settings {} headers) =
            .ok (SuitPath.ofSegments (segments.dropLast ++ others))
              ⟨SuitPath.ofSegments (segments.dropLast ++ others),
                some (SuitPath.ofSegments segments)⟩ := by
  refine ⟨?_, ?_, ?_⟩
  · rw [previous_enterAll]
    exact Option.or_none
  · intro text line e next h
    exact eq_of_enterInPlace_error h
  · intro text line segments others hsegments hothers hprevious hname
    have hsplit : ("../" ++ "/".intercalate others).toList =
        '.' :: '.' :: '/' :: ("/".intercalate others).toList := by
      rw [String.toList_append]
      rfl
    rw [hsplit] at hname
    rw [enterInPlace_relative hname hprevious, SuitPath.sibling_ofSegments hsegments hothers]

/-- Behind `<a/b>`, a relative header and one that is not closed, `<../d/e>` leads from `a/b` to
`a/d/e`. -/
theorem relative_headers_start_from_last_absolute_mixed :
    (enterAll {} {} [("<a/b>", 1), ("<../c>", 2)]).previous =
        some (SuitPath.ofSegments ["a", "b"]) ∧
      (∃ e, enterInPlace {} "<d" 3 (enterAll {} {} [("<a/b>", 1), ("<../c>", 2)]) =
        .error e (enterAll {} {} [("<a/b>", 1), ("<../c>", 2)])) ∧
      enterInPlace {} "<../d/e>" 4 (enterAll {} {} [("<a/b>", 1), ("<../c>", 2), ("<d", 3)]) =
        .ok (SuitPath.ofSegments ["a", "d", "e"])
          ⟨SuitPath.ofSegments ["a", "d", "e"], some (SuitPath.ofSegments ["a", "b"])⟩ := by
  have hsegments : ∀ s ∈ ["a", "b"], SuitPath.IsSegment s := by decide
  have hothers : ∀ s ∈ ["d", "e"], SuitPath.IsSegment s := by decide
  have hname : HasName {} "<../d/e>" ("../" ++ "/".intercalate ["d", "e"]).toList :=
    ⟨"../d/e".toList, [], by decide, by decide, by decide⟩
  obtain ⟨e, next, hrejected⟩ : ∃ e next,
      enterInPlace {} "<d" 3 (enterAll {} {} [("<a/b>", 1), ("<../c>", 2)]) = .error e next :=
    EStateM.Result.eq_error_of_not_succeeds (by decide)
  have hentered := relative_headers_start_from_last_absolute {} [("<a/b>", 1), ("<../c>", 2)]
  have hall := relative_headers_start_from_last_absolute {}
    [("<a/b>", 1), ("<../c>", 2), ("<d", 3)]
  obtain rfl := hentered.2.1 _ _ _ _ hrejected
  exact ⟨by decide, ⟨e, hrejected⟩,
    hall.2.2 "<../d/e>" 4 ["a", "b"] ["d", "e"] hsegments hothers (by decide) hname⟩

end SuitCursor

end InputDeck
