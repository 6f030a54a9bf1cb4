import InputDeck.Proofs.Store.ShownStores

/-!
# Commands on stores

A command does the same to a ledger and to the store that it shows: it returns the same, fails with
the same error, and leaves the same behind. So whatever commands a new store is given, whether they
succeed or fail, its order begins with the root, repeats no suit and has exactly the suits that
there are, its cards are in their places and are each listed once, and the order only grows at its
end.
-/

namespace InputDeck

/-- An operation that may change a store, with the type of what it returns. -/
inductive Command : Type → Type 1
  /-- A suit is made. -/
  | ensureSuit (path : SuitPath) : Command Unit
  /-- A card is put in its place. -/
  | insert (card : Card) : Command Unit
  /-- A value is put in a place. -/
  | add (suit name : String) (value : Value) (comment : Option String) : Command Unit
  /-- A card gets another value. -/
  | update (suit name : String) (value : Value) (comment : Option String) : Command Unit
  /-- A card is taken away. -/
  | remove (suit name : String) : Command Card
  /-- A value is read, and added when it is missing. -/
  | readOrAdd {α : Type} [Storable α] (suit name : String) (default : α) : Command α
  /-- Values are put in the places of elements. -/
  | addVector (suit base : String) (values : List Value) : Command Unit
  /-- Elements get other values. -/
  | updateVector (suit base : String) (values : List Value) : Command Unit
  /-- Globals become cards. -/
  | withGlobals (provenance : Provenance) (globals : Table Value) : Command Unit

/-- A change of a store that may fail, and then leaves the store as it is. -/
def Store.attempt {α : Type} (change : Store → Except DeckError (α × Store)) :
    EStateM DeckError Store α := fun store =>
  match change store with
  | .ok (a, next) => .ok a next
  | .error e => .error e store

/-- A change that may fail succeeds as it does. -/
theorem Store.attempt_eq_ok_iff {α : Type} {change : Store → Except DeckError (α × Store)}
    {store next : Store} {a : α} :
    attempt change store = .ok a next ↔ change store = .ok (a, next) := by
  unfold attempt
  split
  · next h => simp [h]
  · next h => simp [h]

namespace Command

variable {α : Type}

/-- What a command does to a store. -/
def onStore : Command α → EStateM DeckError Store α
  | ensureSuit path => modify fun store => store.ensureSuit path
  | insert card => modify fun store => store.insert card
  | add suit name value comment => modify fun store => store.add suit name value comment
  | update suit name value comment =>
    Store.attempt fun store => (store.update suit name value comment).map (Prod.mk ())
  | remove suit name => Store.attempt fun store => store.remove suit name
  | readOrAdd suit name default => Store.attempt fun store => store.readOrAdd suit name default
  | addVector suit base values => modify fun store => store.addVector suit base values
  | updateVector suit base values =>
    Store.attempt fun store => (store.updateVector suit base values).map (Prod.mk ())
  | withGlobals provenance globals => modify fun store => store.withGlobals provenance globals

/-- What a command does to the two parts of a store. -/
def onLedger : Command α → EStateM DeckError Ledger α
  | ensureSuit path => modify fun ledger => ledger.ensureSuit path
  | insert card => modify fun ledger => ledger.insert card
  | add suit name value comment => modify fun ledger => ledger.add suit name value comment
  | update suit name value comment => Ledger.update suit name value comment
  | remove suit name => Ledger.remove suit name
  | readOrAdd suit name default => Ledger.readOrAdd suit name default
  | addVector suit base values => modify fun ledger => ledger.addElements suit base 0 values
  | updateVector suit base values => Ledger.updateVector suit base values
  | withGlobals provenance globals => modify fun ledger => ledger.withGlobals provenance globals

/-- A command keeps the parts of a ledger in step, whether it succeeds or fails. -/
theorem keeps_onLedger (command : Command α) (ledger : Ledger) :
    Ledger.Keeps ledger (command.onLedger ledger).finalState := by
  cases command with
  | ensureSuit path => exact ledger.keeps_ensureSuit path
  | insert card => exact ledger.keeps_insert card
  | add suit name value comment => exact ledger.keeps_add suit name value comment
  | update suit name value comment => exact ledger.keeps_update suit name value comment
  | remove suit name => exact ledger.keeps_remove suit name
  | readOrAdd suit name default => exact ledger.keeps_readOrAdd suit name default
  | addVector suit base values => exact ledger.keeps_addElements suit base 0 values
  | updateVector suit base values => exact ledger.keeps_updateVector suit base values
  | withGlobals provenance globals => exact ledger.keeps_withGlobals provenance globals

end Command

namespace Ledger.InStep

variable {ledger : Ledger}

/-- A card gets the same other value in the store, or the same is missing. -/
theorem update_toStore (h : ledger.InStep) (suit name : String) (value : Value)
    (comment : Option String) :
    Store.attempt (fun store => (store.update suit name value comment).map (Prod.mk ()))
      ledger.toStore = (update suit name value comment ledger).mapState toStore := by
  rw [Store.attempt, Store.update, h.get_toStore, Ledger.update]
  cases hget : ledger.get suit name with
  | error e => rfl
  | ok card =>
    exact congrArg (EStateM.Result.ok ()) (h.toStore_rewrite hget value comment).symm

/-- A card is taken away from the store as well, or the same is missing. -/
theorem remove_toStore (h : ledger.InStep) (suit name : String) :
    Store.attempt (fun store => store.remove suit name) ledger.toStore =
      (remove suit name ledger).mapState toStore := by
  rw [Store.attempt, Store.remove, h.get_toStore, get_eq, Ledger.remove, find]
  cases hcards : ledger.suits[SuitPath.ofString suit]? with
  | none => rfl
  | some cards =>
    dsimp only
    cases hcard : cards[name]? with
    | none =>
      rw [modifySuit_eq_self fun other hother => ?_]
      · rfl
      · obtain rfl := Option.some.inj (hcards.symm.trans hother)
        exact erase_eq_self hcard
    | some card =>
      obtain ⟨hsuit, -⟩ := h.placedAt _ cards hcards name card hcard
      have hleft : (ledger.modifySuit (.ofString suit) fun cards => cards.erase name).toStore =
          ledger.toStore.modifySuit card.suit fun suit => suit.erase name := by
        rw [hsuit]
        exact h.toStore_modifySuit fun other _ => entries_erase other name
      exact congrArg (EStateM.Result.ok card) hleft.symm

/-- A value is read from the store as well, or added to it. -/
theorem readOrAdd_toStore {α : Type} [Storable α] (h : ledger.InStep) (suit name : String)
    (default : α) :
    Store.attempt (fun store => store.readOrAdd suit name default) ledger.toStore =
      (readOrAdd suit name default ledger).mapState toStore := by
  rw [Store.attempt, Store.readOrAdd, h.card?_toStore, Ledger.readOrAdd]
  cases hcard : ledger.card? (.ofString suit) name with
  | none =>
    rw [Option.isSome_none, if_neg Bool.false_ne_true]
    dsimp only
    generalize (⟨{ value := Storable.toValue default }, .ofString suit, name⟩ : Card) = card
    cases (card.read : Except DeckError α) with
    | error e => rfl
    | ok value => exact congrArg (EStateM.Result.ok value) (h.toStore_insert card).symm
  | some card =>
    have hread : (ledger.read suit name : Except DeckError α) = card.read := by
      rw [read, get_eq_ok_iff.2 hcard]
      rfl
    rw [Option.isSome_some, if_pos rfl, hread]
    dsimp only
    cases (card.read : Except DeckError α) with
    | error e => rfl
    | ok value => rfl

/-- Elements that all exist get the same other values in the store, and none of them fails. -/
theorem updateElements_toStore (h : ledger.InStep) {suit base : String} {index : Nat}
    {values : List Value} (hcheck : ledger.checkElements suit base index values = .ok ()) :
    ∃ next, updateElements suit base index values ledger = .ok () next ∧
      ledger.toStore.updateElements suit base index values = .ok next.toStore := by
  induction values generalizing ledger index with
  | nil => exact ⟨ledger, rfl, rfl⟩
  | cons value values ih =>
    obtain ⟨card, hcard, hrest⟩ := Except.bind_eq_ok_iff.1 hcheck
    obtain ⟨middle, hmiddle⟩ : ∃ middle,
        update suit (elementName base index) value none ledger = .ok () middle := by
      rw [update, hcard]
      exact ⟨_, rfl⟩
    have hstep : middle.InStep := by
      have := (ledger.keeps_update suit (elementName base index) value none).inStep h
      rwa [hmiddle] at this
    obtain ⟨next, hnext, hstore⟩ := ih hstep
      (checkElements_of_forall (fun _ _ => exists_get_of_update hmiddle) hrest)
    refine ⟨next, EStateM.bind_eq_ok_iff.2 ⟨(), middle, hmiddle, hnext⟩, ?_⟩
    have hupdate := h.update_toStore suit (elementName base index) value none
    rw [hmiddle] at hupdate
    obtain ⟨_, hshown, hpair⟩ := Except.map_eq_ok_iff.1 (Store.attempt_eq_ok_iff.1 hupdate)
    obtain rfl := (Prod.mk.inj hpair).2
    exact Except.bind_eq_ok_iff.2 ⟨middle.toStore, hshown, hstore⟩

/-- Elements get the same other values in the store, or the same of them is missing; in that case
neither is changed. -/
theorem updateVector_toStore (h : ledger.InStep) (suit base : String) (values : List Value) :
    Store.attempt (fun store => (store.updateVector suit base values).map (Prod.mk ()))
      ledger.toStore = (updateVector suit base values ledger).mapState toStore := by
  rw [Ledger.updateVector]
  cases hcheck : ledger.checkElements suit base 0 values with
  | error e =>
    rw [Store.attempt, Store.updateVector, h.checkElements_toStore, hcheck]
    rfl
  | ok _ =>
    obtain ⟨next, hnext, hstore⟩ := h.updateElements_toStore hcheck
    dsimp only
    rw [hnext]
    have hvector : ledger.toStore.updateVector suit base values = .ok next.toStore := by
      rw [Store.updateVector, h.checkElements_toStore, hcheck]
      exact hstore
    exact Store.attempt_eq_ok_iff.2 (Except.map_eq_ok_iff.2 ⟨next.toStore, hvector, rfl⟩)

end Ledger.InStep

/-- A command does the same to a ledger in step and to the store that it shows. -/
theorem Command.onStore_toStore {α : Type} {ledger : Ledger} (h : ledger.InStep)
    (command : Command α) :
    command.onStore ledger.toStore = (command.onLedger ledger).mapState Ledger.toStore := by
  cases command with
  | ensureSuit path => exact congrArg (EStateM.Result.ok ()) (h.toStore_ensureSuit path).symm
  | insert card => exact congrArg (EStateM.Result.ok ()) (h.toStore_insert card).symm
  | add suit name value comment =>
    exact congrArg (EStateM.Result.ok ()) (h.toStore_add suit name value comment).symm
  | update suit name value comment => exact h.update_toStore suit name value comment
  | remove suit name => exact h.remove_toStore suit name
  | readOrAdd suit name default => exact h.readOrAdd_toStore suit name default
  | addVector suit base values =>
    exact congrArg (EStateM.Result.ok ()) (h.toStore_addElements suit base 0 values).symm
  | updateVector suit base values => exact h.updateVector_toStore suit base values
  | withGlobals provenance globals =>
    exact congrArg (EStateM.Result.ok ()) (h.toStore_withGlobals provenance globals).symm

/-! ### Runs -/

/-- The store behind a list of commands, each of which may succeed or fail. -/
def Store.after (store : Store) (commands : List (Σ α, Command α)) : Store :=
  commands.foldl (fun store command => (command.2.onStore store).finalState) store

namespace Ledger

/-- The ledger behind a list of commands, each of which may succeed or fail. -/
def after (ledger : Ledger) (commands : List (Σ α, Command α)) : Ledger :=
  commands.foldl (fun ledger command => (command.2.onLedger ledger).finalState) ledger

/-- Commands are carried out in turn. -/
theorem after_append (ledger : Ledger) (front rest : List (Σ α, Command α)) :
    ledger.after (front ++ rest) = (ledger.after front).after rest :=
  List.foldl_append ..

/-- Commands keep the parts of a ledger in step. -/
theorem keeps_after (ledger : Ledger) (commands : List (Σ α, Command α)) :
    Keeps ledger (ledger.after commands) := by
  induction commands generalizing ledger with
  | nil => exact .refl ledger
  | cons command commands ih => exact (command.2.keeps_onLedger ledger).trans (ih _)

/-- A store behind commands is what the ledger behind them shows. -/
theorem InStep.after_toStore {ledger : Ledger} (h : ledger.InStep)
    (commands : List (Σ α, Command α)) :
    ledger.toStore.after commands = (ledger.after commands).toStore := by
  induction commands generalizing ledger with
  | nil => rfl
  | cons command commands ih =>
    have hstep : (command.2.onStore ledger.toStore).finalState =
        (command.2.onLedger ledger).finalState.toStore := by
      rw [command.2.onStore_toStore h]
      cases command.2.onLedger ledger <;> rfl
    have hnext := ih ((command.2.keeps_onLedger ledger).inStep h)
    rw [← hstep] at hnext
    exact hnext

/-- A new ledger shows a new store. -/
theorem toStore_new : new.toStore = {} := by
  have horder : new.order = [.root] := by simp [new, ensureSuit]
  have hroot : new.suits[SuitPath.root]? = some ∅ := by
    rw [new, getElem?_ensureSuit, if_pos rfl]
    simp
  rw [toStore, horder, List.map_singleton, hroot]
  rfl

/-- What commands leave of a new store, whether they succeed or fail, is in step: the order of its
suits begins with the root, repeats none and has exactly those that there are; every card is in its
place and is listed once, suit by suit; and further commands only add to the end of the order. The
store itself is seen like its two parts, and answers every command as they do. -/
theorem isTidy_after (front rest : List (Σ α, Command α)) :
    (new.after (front ++ rest)).catalogue.IsTidy ∧
      (new.after front).order <+: (new.after (front ++ rest)).order ∧
      (({} : Store).after (front ++ rest)).catalogue = (new.after (front ++ rest)).catalogue ∧
      ∀ (α : Type) (command : Command α), command.onStore (({} : Store).after (front ++ rest)) =
        (command.onLedger (new.after (front ++ rest))).mapState toStore := by
  have hstep := (new.keeps_after (front ++ rest)).inStep inStep_new
  have hstore : ({} : Store).after (front ++ rest) = (new.after (front ++ rest)).toStore := by
    rw [← toStore_new, inStep_new.after_toStore]
  refine ⟨hstep.isTidy_catalogue, ?_, ?_, fun α command => ?_⟩
  · rw [after_append]
    exact ((new.after front).keeps_after rest).grows
  · rw [hstore, hstep.catalogue_toStore]
  · rw [hstore, command.onStore_toStore hstep]

end Ledger

end InputDeck
