import InputDeck.Proofs.Compile.Headers
import InputDeck.Proofs.Store.TakingOver
import Mathlib.Data.String.Basic
import Mathlib.Order.Compare

/-!
# Suits in the order in which they are first seen

A store has its suits in the order in which they were first seen. When globals go back into it,
they are seen in the order of the lines of their last assignments, those of one line by their
names. So a suit that they bring comes before another exactly when the first one of its globals in
that order does.
-/

namespace InputDeck

/-- What a list of suits brings beside those that are known: each suit once, where it is first seen.
-/
structure FirstSeen (known seen fresh : List SuitPath) : Prop where
  /-- The suits that are seen and not known are the fresh ones. -/
  mem : ∀ suit, suit ∈ fresh ↔ suit ∉ known ∧ suit ∈ seen
  /-- None of them is there twice. -/
  nodup : fresh.Nodup
  /-- Of two of them, the first one is seen before the other is. -/
  sorted : fresh.Pairwise fun s t => ∃ front rest, seen = front ++ s :: rest ∧ t ∉ front

/-- Suits are added where they are first seen. -/
theorem exists_firstSeen (known seen : List SuitPath) :
    ∃ fresh, addSuits known seen = known ++ fresh ∧ FirstSeen known seen fresh := by
  induction seen generalizing known with
  | nil => exact ⟨[], by simp [addSuits], by simp, .nil, .nil⟩
  | cons suit seen ih =>
    by_cases hknown : suit ∈ known
    · obtain ⟨fresh, hadd, hfresh⟩ := ih known
      have hne : ∀ t ∈ fresh, t ≠ suit := by
        rintro t ht rfl
        exact ((hfresh.mem t).1 ht).1 hknown
      refine ⟨fresh, by rw [← hadd, addSuits, List.foldl_cons, if_pos hknown]; rfl,
        fun t => ?_, hfresh.nodup, hfresh.sorted.imp_of_mem ?_⟩
      · rw [hfresh.mem, List.mem_cons]
        constructor
        · exact And.imp_right .inr
        · rintro ⟨hnot, rfl | hseen⟩
          · exact absurd hknown hnot
          · exact ⟨hnot, hseen⟩
      · rintro s t - ht ⟨front, rest, rfl, hfront⟩
        exact ⟨suit :: front, rest, rfl, by simp [hne t ht, hfront]⟩
    · obtain ⟨fresh, hadd, hfresh⟩ := ih (known ++ [suit])
      have hne : ∀ t ∈ fresh, t ≠ suit := by
        rintro t ht rfl
        exact ((hfresh.mem t).1 ht).1 (by simp)
      refine ⟨suit :: fresh, ?_, fun t => ?_, ?_, ?_⟩
      · rw [List.append_cons, ← hadd, addSuits, List.foldl_cons, if_neg hknown]
        rfl
      · rw [List.mem_cons, hfresh.mem, List.mem_append, List.mem_singleton, List.mem_cons]
        by_cases he : t = suit
        · simp [he, hknown]
        · simp [he]
      · exact List.nodup_cons.2 ⟨fun hmem => hne suit hmem rfl, hfresh.nodup⟩
      · refine List.pairwise_cons.2 ⟨fun t _ => ⟨[], seen, rfl, by simp⟩, ?_⟩
        refine hfresh.sorted.imp_of_mem ?_
        rintro s t - ht ⟨front, rest, rfl, hfront⟩
        exact ⟨suit :: front, rest, rfl, by simp [hne t ht, hfront]⟩

/-- Suits are added in turn. -/
theorem addSuits_append (known front seen : List SuitPath) :
    addSuits known (front ++ seen) = addSuits (addSuits known front) seen :=
  List.foldl_append ..

/-- Suits that are known are not added again. -/
theorem addSuits_cons_of_mem {known : List SuitPath} {suit : SuitPath} (h : suit ∈ known)
    (seen : List SuitPath) : addSuits known (suit :: seen) = addSuits known seen := by
  rw [addSuits, List.foldl_cons, if_pos h]
  rfl

/-- It is the same to add suits to others, and to add first the ones and then the others. -/
theorem addSuits_addSuits (known front seen : List SuitPath) :
    addSuits known (addSuits front seen) = addSuits (addSuits known front) seen := by
  induction seen generalizing front with
  | nil => rfl
  | cons suit seen ih =>
    by_cases hfront : suit ∈ front
    · rw [addSuits_cons_of_mem hfront, addSuits_cons_of_mem (mem_addSuits.2 (.inr hfront)), ih]
    · have hsuit : addSuits front (suit :: seen) = addSuits (front ++ [suit]) seen := by
        rw [addSuits, List.foldl_cons, if_neg hfront]
        rfl
      rw [hsuit, ih, addSuits_append, ← addSuits_append _ [suit], List.singleton_append]

namespace Provenance

/-- Whether a global goes back into the store before another: by lines, and on one line by names. -/
def Precedes (provenance : Provenance) (name other : String) : Prop :=
  provenance.rank name < provenance.rank other ∨
    provenance.rank name = provenance.rank other ∧ name < other

/-- Globals are sorted by lines, and those of one line by names. -/
theorem before_iff {provenance : Provenance} {a b : String × Value} :
    provenance.before a b = true ↔ provenance.rank a.1 < provenance.rank b.1 ∨
      provenance.rank a.1 = provenance.rank b.1 ∧ a.1 ≤ b.1 := by
  rw [before, Ordering.isLE_then_iff_or, Nat.compare_eq_lt, Nat.compare_eq_eq,
    Std.LawfulBCmp.isLE_iff_le]

/-- Of two globals, the one that is sorted first precedes the other. -/
theorem precedes_of_before {provenance : Provenance} {a b : String × Value}
    (h : provenance.before a b = true) (hne : a.1 ≠ b.1) : provenance.Precedes a.1 b.1 :=
  (before_iff.1 h).imp_right fun ⟨hrank, hname⟩ => ⟨hrank, lt_of_le_of_ne hname hne⟩

/-- The globals of a table stand in order when they are sorted. -/
theorem pairwise_before (provenance : Provenance) (entries : List (String × Value)) :
    (sortBy provenance.before entries).Pairwise fun a b => provenance.before a b := by
  refine pairwise_sortBy (fun a b c hab hbc => ?_) (fun a b => ?_) entries
  · rw [before_iff] at hab hbc ⊢
    rcases hab with hab | ⟨hab, hle⟩ <;> rcases hbc with hbc | ⟨hbc, hle'⟩
    · exact .inl (hab.trans hbc)
    · exact .inl (hbc ▸ hab)
    · exact .inl (hab ▸ hbc)
    · exact .inr ⟨hab.trans hbc, hle.trans hle'⟩
  · rw [Bool.or_eq_true, before_iff, before_iff]
    rcases lt_trichotomy (provenance.rank a.1) (provenance.rank b.1) with h | h | h
    · exact .inl (.inl h)
    · exact (le_total a.1 b.1).imp (fun hle => .inr ⟨h, hle⟩) fun hle => .inr ⟨h.symm, hle⟩
    · exact .inr (.inl h)

end Provenance

namespace Store

variable {store : Store} {provenance : Provenance} {globals : Table Value}

/-- Suits that are made are added to the order. -/
theorem order_foldl_ensureSuit_eq (store : Store) (suits : List SuitPath) :
    (suits.foldl ensureSuit store).order = addSuits store.order suits := by
  induction suits generalizing store with
  | nil => rfl
  | cons suit suits ih =>
    rw [List.foldl_cons, ih, order_ensureSuit, addSuits, addSuits, List.foldl_cons]

/-- The suits of globals are added to the order as the globals are put in. -/
theorem order_putAll_eq (store : Store) (provenance : Provenance)
    (items : List (String × Value)) :
    (putAll provenance store items).order =
      addSuits store.order (items.map fun item => (SuitPath.splitGlobal item.1).1) := by
  induction items generalizing store with
  | nil => rfl
  | cons item items ih =>
    rw [putAll_cons, ih, order_insert, suit_cardOfGlobal, order_ensureSuit, addSuits, addSuits,
      List.map_cons, List.foldl_cons]

/-- The suits of globals are added to the order as the globals go back. -/
theorem order_withGlobals_eq (store : Store) (provenance : Provenance) (globals : Table Value) :
    (store.withGlobals provenance globals).order =
      addSuits store.order ((sortBy provenance.before globals.toList).map fun item =>
        (SuitPath.splitGlobal item.1).1) :=
  order_putAll_eq store provenance _

/-- The suits that globals bring into a store. -/
structure Brings (provenance : Provenance) (globals : Table Value) (known fresh : List SuitPath) :
    Prop where
  /-- They are the suits of globals that are not known. -/
  mem : ∀ suit, suit ∈ fresh ↔
    suit ∉ known ∧ ∃ name ∈ globals, (SuitPath.splitGlobal name).1 = suit
  /-- None of them is there twice. -/
  nodup : fresh.Nodup
  /-- Of two of them, some global of the first one precedes all globals of the other. -/
  sorted : fresh.Pairwise fun s t => ∃ name ∈ globals, (SuitPath.splitGlobal name).1 = s ∧
    ∀ other ∈ globals, (SuitPath.splitGlobal other).1 = t → provenance.Precedes name other

/-- The names of the entries that are sorted are those of the table. -/
private theorem mem_map_fst_sorted {name : String} :
    name ∈ (sortBy provenance.before globals.toList).map Prod.fst ↔ name ∈ globals := by
  rw [Std.ExtTreeMap.mem_iff_isSome_getElem?, Option.isSome_iff_exists, List.mem_map]
  constructor
  · rintro ⟨item, hitem, rfl⟩
    exact ⟨item.2, mem_sorted_iff.1 hitem⟩
  · rintro ⟨value, hvalue⟩
    exact ⟨(name, value), mem_sorted_iff.2 hvalue, rfl⟩

/-- A suit that is seen before another one among sorted globals has a global that precedes all
globals of the other. -/
private theorem exists_precedes {s t : SuitPath} {front rest : List SuitPath}
    (hsplit : ((sortBy provenance.before globals.toList).map fun item =>
      (SuitPath.splitGlobal item.1).1) = front ++ s :: rest) (hfront : t ∉ front) (hne : s ≠ t) :
    ∃ name ∈ globals, (SuitPath.splitGlobal name).1 = s ∧
      ∀ other ∈ globals, (SuitPath.splitGlobal other).1 = t → provenance.Precedes name other := by
  obtain ⟨items, others, hitems, rfl, hothers⟩ := List.map_eq_append_iff.1 hsplit
  obtain ⟨first, others, rfl, rfl, rfl⟩ := List.map_eq_cons_iff.1 hothers
  have hsorted := provenance.pairwise_before globals.toList
  have hfirst : first.1 ∈ globals := mem_map_fst_sorted.1 (by rw [hitems]; simp)
  refine ⟨first.1, hfirst, rfl, ?_⟩
  rintro other hother rfl
  obtain ⟨item, hitem, rfl⟩ := List.mem_map.1 (mem_map_fst_sorted.2 hother)
  have hbehind : item ∈ others := by
    rw [hitems, List.mem_append, List.mem_cons] at hitem
    rcases hitem with hitem | rfl | hitem
    · exact absurd (List.mem_map_of_mem hitem) hfront
    · exact absurd rfl hne
    · exact hitem
  rw [hitems, List.pairwise_append, List.pairwise_cons] at hsorted
  refine Provenance.precedes_of_before (hsorted.2.1.1 item hbehind) fun he => hne ?_
  rw [he]

/-- Globals bring their suits in the order of their first globals. -/
theorem exists_brings (store : Store) (provenance : Provenance) (globals : Table Value) :
    ∃ fresh, (store.withGlobals provenance globals).order = store.order ++ fresh ∧
      Brings provenance globals store.order fresh := by
  rw [order_withGlobals_eq]
  obtain ⟨fresh, hadd, hfresh⟩ := exists_firstSeen store.order
    ((sortBy provenance.before globals.toList).map fun item => (SuitPath.splitGlobal item.1).1)
  refine ⟨fresh, hadd, fun suit => ?_, hfresh.nodup, (hfresh.sorted.and hfresh.nodup).imp ?_⟩
  · rw [hfresh.mem]
    refine and_congr_right fun _ => ⟨fun hsuit => ?_, ?_⟩
    · obtain ⟨item, hitem, rfl⟩ := List.mem_map.1 hsuit
      exact ⟨item.1, mem_map_fst_sorted.1 (List.mem_map_of_mem hitem), rfl⟩
    · rintro ⟨name, hname, rfl⟩
      obtain ⟨item, hitem, rfl⟩ := List.mem_map.1 (mem_map_fst_sorted.2 hname)
      exact List.mem_map.2 ⟨item, hitem, rfl⟩
  · rintro s t ⟨⟨front, rest, hsplit, hfront⟩, hne⟩
    exact exists_precedes hsplit hfront hne

end Store

end InputDeck
