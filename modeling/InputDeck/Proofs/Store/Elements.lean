import InputDeck.Proofs.Store.Commands
import InputDeck.Proofs.Store.ElementNames

/-!
# Writing the elements of a vector

A vector is updated as a whole or not at all: that its elements exist is asked of all of them before
the first one changes, and the names that are asked for are those that are written. Values that are
added stand in front of what the suit has behind them. So a run of elements that a gap had cut off
belongs to the vector once the values reach it.
-/

namespace InputDeck

/-- The entries from an index on, up to the first index without one. -/
inductive IsRun (element : Nat → Option Card) : Nat → List Card → Prop
  /-- An index without an entry ends the run. -/
  | done {index : Nat} (h : element index = none) : IsRun element index []
  /-- An entry stands in front of the run behind its index. -/
  | next {index : Nat} {card : Card} {cards : List Card} (h : element index = some card)
      (hrest : IsRun element (index + 1) cards) : IsRun element index (card :: cards)

namespace IsRun

variable {element other : Nat → Option Card} {index : Nat} {cards : List Card}

/-- A run is told by the entries from its index on. -/
theorem congr (h : IsRun element index cards) (hother : ∀ i, index ≤ i → other i = element i) :
    IsRun other index cards := by
  induction h with
  | done h => exact .done ((hother _ (Nat.le_refl _)).trans h)
  | next h _ ih =>
    exact .next ((hother _ (Nat.le_refl _)).trans h) (ih fun i hi => hother i (Nat.le_of_lt hi))

/-- Entries in front of a run make it longer. -/
theorem append {front : List Card} (hfront : ∀ i card, front[i]? = some card →
    element (index + i) = some card) (h : IsRun element (index + front.length) cards) :
    IsRun element index (front ++ cards) := by
  induction front generalizing index with
  | nil => exact h
  | cons card front ih =>
    refine .next (hfront 0 card rfl) (ih (fun i other hi => ?_) ?_)
    · rw [Nat.add_assoc, Nat.add_comm 1]
      exact hfront (i + 1) other hi
    · rwa [Nat.add_assoc, Nat.add_comm 1]

/-- A run has an entry at each of its indices. -/
theorem isSome_of_lt (h : IsRun element index cards) {i : Nat} (hi : i < cards.length) :
    (element (index + i)).isSome = true := by
  induction h generalizing i with
  | done => cases hi
  | next h _ ih =>
    cases i with
    | zero => exact Option.isSome_of_eq_some h
    | succ i =>
      have hrest := ih (Nat.lt_of_succ_lt_succ hi)
      rwa [Nat.add_assoc, Nat.add_comm 1] at hrest

/-- There is a run from every index on, when some index behind it has no entry. -/
theorem exists_of_eq_none {n : Nat} (h : element (index + n) = none) :
    ∃ cards, IsRun element index cards := by
  induction n generalizing index with
  | zero => exact ⟨[], .done h⟩
  | succ n ih =>
    cases hcard : element index with
    | none => exact ⟨[], .done hcard⟩
    | some card =>
      rw [Nat.add_comm n, ← Nat.add_assoc] at h
      obtain ⟨cards, hcards⟩ := ih h
      exact ⟨card :: cards, .next hcard hcards⟩

end IsRun

namespace Store

variable {store : Store} {path : SuitPath} {base : String} {cards : Suit}

/-- An element of a suit is the entry under its name. -/
theorem card?_of_suit? (hcards : store.suit? path = some cards) (name : String) :
    store.card? path name = cards[name]?.map fun entry => ⟨entry, path, name⟩ := by
  rw [card?_eq_map_kept?, kept?, hcards, Option.bind_some]

/-- No run of elements is longer than its suit. -/
theorem length_le_of_isSome (hcards : store.suit? path = some cards) {index n : Nat}
    (h : ∀ i < n, (store.card? path (elementName base (index + i))).isSome = true) :
    n ≤ cards.size := by
  have hall : ∀ i ∈ List.range' index n, cards.contains (elementName base i) = true := by
    intro i hi
    obtain ⟨k, hk, rfl⟩ := List.mem_range'.1 hi
    have helement := h k hk
    rw [Nat.one_mul, Std.ExtTreeMap.contains_eq_isSome_getElem?]
    rwa [card?_of_suit? hcards, Option.isSome_map] at helement
  have hcount := countP_elementName_le cards base (List.nodup_range' (s := index) (n := n))
  rwa [List.countP_eq_length.2 hall, List.length_range'] at hcount

/-- There is a run of elements from every index on. -/
theorem exists_isRun (store : Store) (path : SuitPath) (base : String) (index : Nat) :
    ∃ run, IsRun (fun i => store.card? path (elementName base i)) index run := by
  cases hcards : store.suit? path with
  | none => exact ⟨[], .done (by rw [card?, hcards]; rfl)⟩
  | some cards =>
    -- Not all indices, one more than the suit has entries, are taken.
    have hfree : ∃ n, store.card? path (elementName base (index + n)) = none := by
      by_contra htaken
      have hsome : ∀ i < cards.size + 1,
          (store.card? path (elementName base (index + i))).isSome = true :=
        fun i _ => Option.isSome_iff_ne_none.2 (not_exists.1 htaken i)
      exact absurd (length_le_of_isSome hcards hsome) (Nat.not_succ_le_self _)
    obtain ⟨n, hn⟩ := hfree
    exact IsRun.exists_of_eq_none hn

/-- What is read of a run is the run, as far as is asked for. -/
theorem elementsFrom_of_isRun (hcards : store.suit? path = some cards) {count index : Nat}
    {run : List Card} (h : IsRun (fun i => store.card? path (elementName base i)) index run)
    (hcount : run.length ≤ count) : cards.elementsFrom path base count index = run := by
  induction h generalizing count with
  | @done index h =>
    rw [card?_of_suit? hcards, Option.map_eq_none_iff] at h
    cases count with
    | zero => rfl
    | succ count => rw [Suit.elementsFrom, h]
  | @next index card run h _ ih =>
    rw [card?_of_suit? hcards] at h
    obtain ⟨entry, hentry, rfl⟩ := Option.map_eq_some_iff.1 h
    cases count with
    | zero => cases hcount
    | succ count => rw [Suit.elementsFrom, hentry, ih (Nat.le_of_succ_le_succ hcount)]

/-- The elements of a vector are the run from the first one on. -/
theorem elements_of_isRun (hcards : store.suit? path = some cards) {run : List Card}
    (h : IsRun (fun i => store.card? path (elementName base i)) 0 run) :
    cards.elements path base = run := by
  exact elementsFrom_of_isRun hcards h (length_le_of_isSome hcards fun i hi => h.isSome_of_lt hi)

/-- Values that are all of the kind of a type are read, each as an element of it. -/
theorem exists_mapM_read {α : Type} [Readable α] {cards : List Card}
    (h : ∀ card ∈ cards, card.value.kind = Readable.kind α) :
    ∃ xs : List α, cards.mapM Card.read = (.ok xs : Except DeckError (List α)) ∧
      xs.map some = cards.map fun card => Readable.read? card.value := by
  induction cards with
  | nil => exact ⟨[], rfl, rfl⟩
  | cons card cards ih =>
    obtain ⟨x, hx⟩ := Option.isSome_iff_exists.1
      ((Readable.isSome_read?_iff card.value).2 (h card List.mem_cons_self))
    obtain ⟨xs, hxs, hmap⟩ := ih fun other hother => h other (List.mem_cons_of_mem card hother)
    refine ⟨x :: xs, ?_, by rw [List.map_cons, List.map_cons, hx, hmap]⟩
    have hread : card.read = (.ok x : Except DeckError α) := by rw [Card.read, hx]
    rw [List.mapM_cons, hread, hxs]
    rfl

/-- A vector is read as the values of its run, when they are all of the kind that is asked for. -/
theorem exists_readVector {suit : String} {run : List Card}
    (h : IsRun (fun i => store.card? (.ofString suit) (elementName base i)) 0 run) (hne : run ≠ [])
    {α : Type} [Readable α] (hkind : ∀ card ∈ run, card.value.kind = Readable.kind α) :
    ∃ xs : List α, store.readVector suit base = .ok xs ∧
      xs.map some = run.map fun card => Readable.read? card.value := by
  obtain ⟨xs, hxs, hmap⟩ := exists_mapM_read hkind
  refine ⟨xs, ?_, hmap⟩
  cases hcards : store.suit? (.ofString suit) with
  | none =>
    cases h with
    | done => exact absurd rfl hne
    | next h _ => simp [card?, hcards] at h
  | some cards =>
    rw [readVector, find, hcards]
    dsimp only [bind, Except.bind]
    rw [elements_of_isRun hcards h]
    cases run with
    | nil => exact absurd rfl hne
    | cons card run => exact hxs

end Store

namespace Ledger

variable {ledger before middle after next : Ledger} {suit base : String} {index : Nat}
  {values : List Value} {put : String → Value → Option Card → Option Card}

/-! ## One card -/

/-- A card that is put in its place is there, and every other place keeps its card. -/
theorem card?_insert (ledger : Ledger) (card : Card) (path : SuitPath) (name : String) :
    (ledger.insert card).card? path name =
      if path = card.suit ∧ name = card.name then some card else ledger.card? path name := by
  rw [insert, card?_modifySuit]
  by_cases hpath : path = card.suit
  · subst hpath
    rw [if_pos rfl, getElem?_ensureSuit, if_pos rfl, Option.bind_some, Table.getElem?_insert_eq]
    by_cases hname : card.name = name
    · rw [if_pos hname, if_pos ⟨rfl, hname.symm⟩]
    · rw [if_neg hname, if_neg fun h => hname h.2.symm, card?]
      cases ledger.suits[card.suit]? <;> simp
  · rw [if_neg hpath, if_neg fun h => hpath h.1, card?, card?, getElem?_ensureSuit, if_neg hpath]

/-- A card that is updated has the other value and comment, and every other place keeps its card. -/
theorem card?_update {name : String} {value : Value} {comment : Option String}
    (h : update suit name value comment ledger = .ok () next) (path : SuitPath) (other : String) :
    next.card? path other =
      if path = .ofString suit ∧ other = name then
        (ledger.card? path other).map (rewrite value comment)
      else ledger.card? path other := by
  unfold update at h
  split at h
  · obtain rfl := (EStateM.Result.ok.inj h).2
    rw [card?_modifySuit]
    by_cases hpath : path = .ofString suit
    · rw [if_pos hpath, card?]
      cases ledger.suits[path]? with
      | none => simp
      | some cards =>
        simp only [Option.bind_some, Std.ExtTreeMap.getElem?_modify,
          Std.LawfulEqCmp.compare_eq_iff_eq]
        by_cases hname : name = other
        · rw [if_pos hname, if_pos ⟨hpath, hname.symm⟩, hname]
          rfl
        · rw [if_neg hname, if_neg fun h => hname h.2.symm]
          rfl
    · rw [if_neg hpath, if_neg fun h => hpath h.1]
  · cases h

/-! ## All elements -/

/-- Values are put in the places of the elements from an index on, each by what was there, and every
other place keeps its card. -/
structure Puts (put : String → Value → Option Card → Option Card) (path : SuitPath) (base : String)
    (index : Nat) (values : List Value) (before after : Ledger) : Prop where
  /-- Each element has what its value makes of the card that was there. -/
  elements : ∀ i value, values[i]? = some value →
    after.card? path (elementName base (index + i)) =
      put (elementName base (index + i)) value (before.card? path (elementName base (index + i)))
  /-- Every other place keeps its card. -/
  others : ∀ place name,
    (place = path → ∀ i < values.length, name ≠ elementName base (index + i)) →
      after.card? place name = before.card? place name

/-- No values change nothing. -/
theorem Puts.nil {path : SuitPath} (ledger : Ledger) : Puts put path base index [] ledger ledger :=
  ⟨nofun, fun _ _ _ => rfl⟩

/-- Values are put one by one: the elements have different names, so that none is put twice. -/
theorem Puts.cons {path : SuitPath} {value : Value}
    (hfirst : ∀ place name, middle.card? place name =
      if place = path ∧ name = elementName base index then put name value (before.card? place name)
      else before.card? place name)
    (hrest : Puts put path base (index + 1) values middle after) :
    Puts put path base index (value :: values) before after where
  elements i other hother := by
    cases i with
    | zero =>
      obtain rfl := Option.some.inj hother
      rw [hrest.others path _ fun _ i _ he => ?_, hfirst, if_pos ⟨rfl, rfl⟩]
      exact absurd (elementName_right_inj.1 he) (by omega)
    | succ i =>
      have hput := hrest.elements i other hother
      rw [hfirst, if_neg fun h => absurd (elementName_right_inj.1 h.2) (by omega)] at hput
      rwa [Nat.add_assoc, Nat.add_comm 1] at hput
  others place name hname := by
    rw [hrest.others place name fun hplace i hi => ?_, hfirst, if_neg]
    · rintro ⟨hplace, he⟩
      exact hname hplace 0 (Nat.succ_pos _) he
    · have hne := hname hplace (i + 1) (Nat.succ_lt_succ hi)
      rwa [Nat.add_assoc, Nat.add_comm 1]

/-- Elements that are added have their values, and neither a line nor a comment. -/
theorem puts_addElements (ledger : Ledger) (suit base : String) (index : Nat)
    (values : List Value) :
    Puts (fun name value _ => some ⟨{ value := value }, .ofString suit, name⟩) (.ofString suit) base
      index values ledger (ledger.addElements suit base index values) := by
  induction values generalizing ledger index with
  | nil => exact .nil ledger
  | cons value values ih =>
    refine .cons (fun place name => ?_) (ih (ledger.add suit (elementName base index) value none) _)
    rw [add, card?_insert]
    split
    · next h => rw [h.2]; rfl
    · rfl

/-- Elements that are updated have other values, and keep their lines and comments. -/
theorem puts_updateElements (h : updateElements suit base index values ledger = .ok () next) :
    Puts (fun _ value card => card.map fun card => { card with value := value }) (.ofString suit)
      base index values ledger next := by
  induction values generalizing ledger index with
  | nil =>
    obtain rfl := (EStateM.Result.ok.inj h).2
    exact .nil ledger
  | cons value values ih =>
    obtain ⟨_, middle, hfirst, hrest⟩ := EStateM.bind_eq_ok_iff.1 h
    refine .cons (fun place name => ?_) (ih hrest)
    exact card?_update hfirst place name

/-- Elements that are updated leave the order of the suits as it is. -/
theorem order_updateElements (h : updateElements suit base index values ledger = .ok () next) :
    next.order = ledger.order := by
  induction values generalizing ledger index with
  | nil =>
    obtain rfl := (EStateM.Result.ok.inj h).2
    rfl
  | cons value values ih =>
    obtain ⟨_, middle, hfirst, hrest⟩ := EStateM.bind_eq_ok_iff.1 h
    have hmiddle : middle.order = ledger.order := by
      unfold update at hfirst
      split at hfirst
      · obtain rfl := (EStateM.Result.ok.inj hfirst).2
        rfl
      · cases hfirst
    exact (ih hrest).trans hmiddle

/-- The elements from an index on are checked by the places of all of them. -/
theorem checkElements_eq_ok_iff : ledger.checkElements suit base index values = .ok () ↔
    ∀ i < values.length,
      (ledger.card? (.ofString suit) (elementName base (index + i))).isSome = true := by
  induction values generalizing index with
  | nil => exact ⟨fun _ i hi => absurd hi (Nat.not_lt_zero i), fun _ => rfl⟩
  | cons value values ih =>
    rw [checkElements, Except.bind_eq_ok_iff]
    simp only [get_eq_ok_iff, ih]
    constructor
    · rintro ⟨card, hcard, hrest⟩ i hi
      cases i with
      | zero => exact Option.isSome_of_eq_some hcard
      | succ i =>
        have helement := hrest i (Nat.lt_of_succ_lt_succ hi)
        rwa [Nat.add_assoc, Nat.add_comm 1] at helement
    · intro hall
      obtain ⟨card, hcard⟩ := Option.isSome_iff_exists.1 (hall 0 (Nat.succ_pos _))
      refine ⟨card, hcard, fun i hi => ?_⟩
      rw [Nat.add_assoc, Nat.add_comm 1]
      exact hall (i + 1) (Nat.succ_lt_succ hi)

/-- Elements are updated when all of them exist, and otherwise the first that is missing is told. -/
theorem updateVector_cases (h : ledger.InStep) (suit base : String) (values : List Value) :
    (ledger.checkElements suit base 0 values = .ok () ∧
      ∃ next, updateVector suit base values ledger = .ok () next ∧
        updateElements suit base 0 values ledger = .ok () next) ∨
    ∃ e, ledger.checkElements suit base 0 values = .error e ∧
      updateVector suit base values ledger = .error e ledger := by
  unfold updateVector
  cases hcheck : ledger.checkElements suit base 0 values with
  | error e => exact .inr ⟨e, rfl, rfl⟩
  | ok _ =>
    obtain ⟨next, hnext, -⟩ := h.updateElements_toStore hcheck
    exact .inl ⟨rfl, next, hnext, hnext⟩

/-- Values in front of a run of elements that are there make one vector with it. -/
theorem isRun_of_puts {run : List Card} {path : SuitPath}
    (h : Puts (fun name value _ => some ⟨{ value := value }, path, name⟩) path base 0 values before
      after)
    (hrun : IsRun (fun i => before.card? path (elementName base i)) values.length run) :
    IsRun (fun i => after.card? path (elementName base i)) 0
      (values.mapIdx (fun i value => ⟨{ value := value }, path, elementName base i⟩) ++ run) := by
  refine IsRun.append (fun i card hcard => ?_) ?_
  · obtain ⟨value, hvalue, rfl⟩ := Option.map_eq_some_iff.1 (List.getElem?_mapIdx ▸ hcard)
    have helement := h.elements i value hvalue
    rwa [Nat.zero_add] at helement ⊢
  · rw [List.length_mapIdx, Nat.zero_add]
    refine hrun.congr fun i hi => h.others _ _ fun _ k hk he => ?_
    exact absurd (elementName_right_inj.1 he) (by omega)

/-- What updating and adding a vector does to a ledger and to the store that it shows. -/
structure WritesVector (ledger : Ledger) (suit base : String) (values : List Value) : Prop where
  /-- An update succeeds exactly when there are no values or all their elements exist. -/
  updates_iff : (∃ next, updateVector suit base values ledger = .ok () next) ↔
    values = [] ∨ ∀ i < values.length,
      (ledger.card? (.ofString suit) (elementName base i)).isSome = true
  /-- An update that fails changes nothing. -/
  eq_of_error : ∀ e next, updateVector suit base values ledger = .error e next → next = ledger
  /-- An update puts the values in the cards of the elements, which keep lines and comments. -/
  updated : ∀ next, updateVector suit base values ledger = .ok () next →
    next.InStep ∧ next.order = ledger.order ∧
      Puts (fun _ value card => card.map fun card => { card with value := value })
        (.ofString suit) base 0 values ledger next
  /-- Values that are added are new cards of the elements. -/
  added : Puts (fun name value _ => some ⟨{ value := value }, .ofString suit, name⟩)
    (.ofString suit) base 0 values ledger (ledger.addElements suit base 0 values)
  /-- A vector that begins with added values goes on with the run of elements behind them. -/
  reads : values ≠ [] → ∃ tail,
    IsRun (fun i => ledger.card? (.ofString suit) (elementName base i)) values.length tail ∧
    ∀ (α : Type) [Readable α],
      (∀ value ∈ values ++ tail.map (fun card => card.value), value.kind = Readable.kind α) →
      ∃ xs : List α, (ledger.toStore.addVector suit base values).readVector suit base = .ok xs ∧
        xs.map some = (values ++ tail.map fun card => card.value).map Readable.read?
  /-- The store that the ledger shows is updated alike. -/
  shown_update : Store.attempt
    (fun store => (store.updateVector suit base values).map (Prod.mk ())) ledger.toStore =
      (updateVector suit base values ledger).mapState toStore
  /-- Values are added to the store that the ledger shows alike. -/
  shown_add : ledger.toStore.addVector suit base values =
    (ledger.addElements suit base 0 values).toStore

/-- A vector of a ledger in step is updated as a whole or not at all, and values that are added to
it stand in front of the elements behind them. -/
theorem InStep.writesVector (h : ledger.InStep) (suit base : String) (values : List Value) :
    ledger.WritesVector suit base values := by
  have hadd := ledger.puts_addElements suit base 0 values
  have hshown : ledger.toStore.addVector suit base values =
      (ledger.addElements suit base 0 values).toStore := (h.toStore_addElements ..).symm
  refine ⟨?_, fun e next herror => ?_, fun next hnext => ?_, hadd, fun hne => ?_,
    h.updateVector_toStore suit base values, hshown⟩
  · have hall : (values = [] ∨ ∀ i < values.length,
        (ledger.card? (.ofString suit) (elementName base i)).isSome = true) ↔
          ledger.checkElements suit base 0 values = .ok () := by
      simp only [checkElements_eq_ok_iff, Nat.zero_add]
      refine ⟨fun h => h.elim (fun hnil i hi => ?_) id, .inr⟩
      simp [hnil] at hi
    rw [hall]
    rcases updateVector_cases h suit base values with ⟨hcheck, next, hnext, -⟩ | ⟨e, hcheck, he⟩
    · exact ⟨fun _ => hcheck, fun _ => ⟨next, hnext⟩⟩
    · simp [hcheck, he]
  · rcases updateVector_cases h suit base values with ⟨-, other, hother, -⟩ | ⟨e', -, he⟩
    · rw [hother] at herror
      cases herror
    · exact (EStateM.Result.error.inj (herror.symm.trans he)).2
  · rcases updateVector_cases h suit base values with ⟨-, other, hother, hupdate⟩ | ⟨e, -, he⟩
    · obtain rfl := (EStateM.Result.ok.inj (hnext.symm.trans hother)).2
      have hstep := (ledger.keeps_updateElements suit base 0 values).inStep h
      rw [hupdate] at hstep
      exact ⟨hstep, order_updateElements hupdate, puts_updateElements hupdate⟩
    · rw [he] at hnext
      cases hnext
  · have hrun := Store.exists_isRun ledger.toStore (.ofString suit) base values.length
    simp only [h.card?_toStore] at hrun
    obtain ⟨tail, htail⟩ := hrun
    refine ⟨tail, htail, fun α _ hkind => ?_⟩
    have hstep := (ledger.keeps_addElements suit base 0 values).inStep h
    have hwhole := isRun_of_puts hadd htail
    simp only [← hstep.card?_toStore] at hwhole
    have hvalues : (values.mapIdx (fun i value =>
        (⟨{ value := value }, .ofString suit, elementName base i⟩ : Card)) ++ tail).map
          (fun card => card.value) = values ++ tail.map fun card => card.value := by
      rw [List.map_append, List.append_cancel_right_eq]
      exact List.ext_getElem? fun i => by simp [Option.map_map, Function.comp_def]
    obtain ⟨xs, hread, hmap⟩ := Store.exists_readVector hwhole (by simp [hne]) (α := α)
      fun card hcard => hkind _ (hvalues ▸ List.mem_map_of_mem hcard)
    refine ⟨xs, hshown ▸ hread, ?_⟩
    rw [hmap, ← hvalues, List.map_map]
    rfl

/-- A vector of two elements with a third one behind a gap: three values are too many to update it,
and adding them closes the gap. -/
theorem InStep.writesVector_gap :
    let ledger := (new.addElements "s" "v" 0 [.boolean true, .boolean true]).add "s" "v[3]"
      (.boolean true) none
    let values := [Value.boolean false, .boolean false, .boolean false]
    ledger.InStep ∧ (¬∃ next, updateVector "s" "v" values ledger = .ok () next) ∧
      (ledger.toStore.addVector "s" "v" values).readVector "s" "v" =
        .ok [false, false, false, true] := by
  intro ledger values
  have hstep : ledger.InStep :=
    ((keeps_addElements new "s" "v" 0 _).trans (keeps_add _ "s" "v[3]" _ none)).inStep inStep_new
  have hwrites := InStep.writesVector hstep "s" "v" values
  refine ⟨hstep, ?_, ?_⟩
  · rw [hwrites.updates_iff]
    rintro (hnil | hall)
    · exact absurd hnil (by simp [values])
    · exact absurd (hall 2 (by decide)) (by decide +kernel)
  · obtain ⟨tail, htail, hread⟩ := hwrites.reads (by simp [values])
    have hthird : (ledger.card? (.ofString "s") (elementName "v" 3)).bind
        (fun card => card.value.boolean?) = some true := by decide +kernel
    cases htail with
    | done h => exact absurd (Option.isNone_iff_eq_none.2 h) (by decide +kernel)
    | @next _ card tail h hrest =>
      have htrue : card.value.boolean? = some true := by
        rw [show ledger.card? (.ofString "s") (elementName "v" 3) = some card from h] at hthird
        exact hthird
      cases hrest with
      | next h => exact absurd (Option.isSome_of_eq_some h) (by decide +kernel)
      | done =>
        have hkind : card.value.kind = Readable.kind Bool :=
          (Readable.isSome_read?_iff card.value).1 (Option.isSome_of_eq_some htrue)
        obtain ⟨xs, hxs, hmap⟩ := hread Bool fun value hvalue => by
          rcases List.mem_append.1 hvalue with hfront | hlast
          · obtain rfl : value = .boolean false := by simpa [values] using hfront
            rfl
          · obtain rfl : value = card.value := by simpa using hlast
            exact hkind
        have hfour : xs.map some = [false, false, false, true].map some := by
          rw [hmap]
          exact congrArg ([some false, some false, some false, ·]) htrue
        rw [hxs, List.map_injective_iff.2 (fun _ _ => Option.some.inj) hfour]

end Ledger

end InputDeck
