import InputDeck.Proofs.Outcome
import InputDeck.Proofs.Store.GlobalNames
import InputDeck.Store.Vector

/-!
# Operations on card stores

Whatever the operations of a store do, it stays well-formed as long as they are given card names
without dots: insertions put such names in, and everything else keeps the names that are there.
-/

namespace InputDeck

namespace Store

/-- One operation that changes a store, with card names without dots. -/
inductive Step : Store → Store → Prop
  /-- A card is put in its place. -/
  | insert {store : Store} {card : Card} (h : '.' ∉ card.name.toList) :
      Step store (store.insert card)
  /-- A value is put in a place. -/
  | add {store : Store} {name : String} (suit : String) (value : Value) (comment : Option String)
      (h : '.' ∉ name.toList) : Step store (store.add suit name value comment)
  /-- A card gets another value. -/
  | update {store next : Store} {suit name : String} {value : Value} {comment : Option String}
      (h : store.update suit name value comment = .ok next) : Step store next
  /-- A card is taken away. -/
  | remove {store next : Store} {suit name : String} {card : Card}
      (h : store.remove suit name = .ok (card, next)) : Step store next
  /-- A value is read, and added when it is missing. -/
  | readOrAdd {α : Type} [Storable α] {store next : Store} {suit name : String} {default value : α}
      (hname : '.' ∉ name.toList) (h : store.readOrAdd suit name default = .ok (value, next)) :
      Step store next
  /-- Values are put in the places of elements. -/
  | addVector {store : Store} {base : String} (suit : String) (values : List Value)
      (h : '.' ∉ base.toList) : Step store (store.addVector suit base values)
  /-- Elements get other values. -/
  | updateVector {store next : Store} {suit base : String} {values : List Value}
      (h : store.updateVector suit base values = .ok next) : Step store next

/-- A card that is found is kept in its place. -/
theorem kept?_of_get {store : Store} {suit name : String} {card : Card}
    (hget : store.get suit name = .ok card) :
    store.kept? card.suit card.name = some card.toEntry := by
  obtain ⟨cards, hcards, hentry⟩ := Except.bind_eq_ok_iff.1 hget
  have hsuit : store.suit? (.ofString suit) = some cards := by
    unfold find at hcards
    split at hcards
    · next found hfound =>
      obtain rfl := Except.ok.inj hcards
      exact hfound
    · cases hcards
  split at hentry
  · next entry hname =>
    obtain rfl := Except.ok.inj hentry
    simp [kept?, hsuit, hname]
  · cases hentry

namespace WellFormed

variable {store next : Store}

/-- A value that is put in a place keeps a store well-formed. -/
theorem add (h : store.WellFormed) {name : String} (suit : String) (value : Value)
    (comment : Option String) (hname : '.' ∉ name.toList) :
    (store.add suit name value comment).WellFormed :=
  h.insert hname

/-- Another value in a place keeps a store well-formed. -/
theorem update (h : store.WellFormed) {suit name : String} {value : Value}
    {comment : Option String} (hupdate : store.update suit name value comment = .ok next) :
    next.WellFormed := by
  obtain ⟨card, hget, hnext⟩ := Except.bind_eq_ok_iff.1 hupdate
  obtain rfl := Except.ok.inj hnext
  have hname : '.' ∉ card.name.toList := h.dot_notMem _ _ _ (kept?_of_get hget)
  exact h.insert hname

/-- A card that is taken away keeps a store well-formed. -/
theorem remove (h : store.WellFormed) {suit name : String} {card : Card}
    (hremove : store.remove suit name = .ok (card, next)) : next.WellFormed := by
  obtain ⟨found, -, hnext⟩ := Except.bind_eq_ok_iff.1 hremove
  obtain ⟨rfl, rfl⟩ := Prod.mk.inj (Except.ok.inj hnext)
  refine ⟨by rw [order_modifySuit]; exact h.nodup, fun path other entry hentry => ?_⟩
  apply h.dot_notMem path other entry
  simp only [kept?, suit?_modifySuit] at hentry ⊢
  split at hentry
  · cases hsuit : store.suit? path with
    | none => simp [hsuit] at hentry
    | some cards =>
      rw [hsuit, Option.map_some, Option.bind_some, Std.ExtTreeMap.getElem?_erase] at hentry
      split at hentry
      · cases hentry
      · exact hentry
  · exact hentry

/-- Values that are put in the places of elements keep a store well-formed. -/
theorem addElements (h : store.WellFormed) {base : String} (suit : String) (values : List Value)
    (index : Nat) (hbase : '.' ∉ base.toList) :
    (store.addElements suit base index values).WellFormed := by
  induction values generalizing store index with
  | nil => exact h
  | cons value values ih =>
    refine ih (h.add suit value none ?_) (index + 1)
    have hdigits : '.' ∉ (Number.natText index).toList := by
      intro hmem
      rw [Number.natText, String.toList_ofList] at hmem
      exact absurd (Nat.isDigit_of_mem_toDigits (by decide) (by decide) hmem) (by decide)
    simp [elementName, hbase, hdigits]

/-- Other values of elements keep a store well-formed. -/
theorem updateElements (h : store.WellFormed) {suit base : String} {values : List Value}
    {index : Nat} (hupdate : store.updateElements suit base index values = .ok next) :
    next.WellFormed := by
  induction values generalizing store index with
  | nil =>
    obtain rfl := Except.ok.inj hupdate
    exact h
  | cons value values ih =>
    obtain ⟨middle, hmiddle, hnext⟩ := Except.bind_eq_ok_iff.1 hupdate
    exact ih (h.update hmiddle) hnext

/-- Every operation keeps a store well-formed. -/
theorem step (h : store.WellFormed) (hstep : Step store next) : next.WellFormed := by
  cases hstep with
  | insert hname => exact h.insert hname
  | add suit value comment hname => exact h.add suit value comment hname
  | update hupdate => exact h.update hupdate
  | remove hremove => exact h.remove hremove
  | readOrAdd hname hread =>
    unfold readOrAdd at hread
    split at hread
    · obtain ⟨value, -, hnext⟩ := Except.bind_eq_ok_iff.1 hread
      obtain ⟨rfl, rfl⟩ := Prod.mk.inj (Except.ok.inj hnext)
      exact h
    · obtain ⟨value, -, hnext⟩ := Except.bind_eq_ok_iff.1 hread
      obtain ⟨rfl, rfl⟩ := Prod.mk.inj (Except.ok.inj hnext)
      exact h.insert hname
  | addVector suit values hbase => exact h.addElements suit values 0 hbase
  | updateVector hupdate =>
    obtain ⟨_, -, hupdate⟩ := Except.bind_eq_ok_iff.1 hupdate
    exact h.updateElements hupdate

end WellFormed

end Store

end InputDeck
