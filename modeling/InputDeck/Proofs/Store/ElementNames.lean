import InputDeck.ElementName
import InputDeck.Table
import Mathlib.Data.List.Nodup

/-!
# The names of elements and their order

A name is the name of an element in at most one way, whatever its base is made of. So every name has
one key: an element its base and its index, any other name itself and no index. The natural order of
names is the order of their keys, and no two names are equal in it but elements of one vector whose
indices are spelled with different zeros in front.
-/

namespace InputDeck

open InputDeck.Text InputDeck.Number

/-- A table has no more elements of a vector than entries. -/
theorem countP_elementName_le {α : Type} (table : Table α) (base : String) {indices : List Nat}
    (h : indices.Nodup) :
    indices.countP (fun i => table.contains (elementName base i)) ≤ table.size := by
  rw [List.countP_eq_length_filter, ← List.length_map (elementName base), ← table.length_keys]
  refine List.Nodup.length_le_of_subset ?_ fun name hname => ?_
  · exact List.Pairwise.map _ (fun i j hne he => hne (elementName_right_inj.1 he)) (h.filter _)
  · obtain ⟨i, hi, rfl⟩ := List.mem_map.1 hname
    rw [Std.ExtTreeMap.mem_keys, Std.ExtTreeMap.mem_iff_contains]
    exact (List.mem_filter.1 hi).2

/-! ## Keys -/

/-- The name of an element: a base that is not empty, and digits in brackets that spell an index a
machine word holds, perhaps with zeros in front. -/
inductive IsElementName : String → String → Nat → Prop
  /-- The digits stand in brackets behind the base. -/
  | spelled {base : String} {digits : List Char} (hbase : base ≠ "") (hne : digits ≠ [])
      (hdigits : ∀ c ∈ digits, c.isDigit = true) (hword : digitsValue digits < wordLimit) :
      IsElementName (base ++ "[" ++ String.ofList digits ++ "]") base (digitsValue digits)

/-- What orders a name. -/
inductive IsKey : String → String → Option Nat → Prop
  /-- An element is ordered by its base and its index. -/
  | element {name base : String} {index : Nat} (h : IsElementName name base index) :
      IsKey name base (some index)
  /-- Any other name is ordered by itself, without an index. -/
  | plain {name : String} (h : ∀ base index, ¬IsElementName name base index) : IsKey name name none

/-- A name gives a base and an index exactly when it is the name of that element. -/
theorem elementName?_eq_some_iff {name base : String} {index : Nat} :
    elementName? name = some (base, index) ↔ IsElementName name base index := by
  constructor
  · intro h
    obtain ⟨inner, hlast, hrest⟩ := Option.bind_eq_some_iff.1 h
    obtain ⟨⟨before, digits⟩, hcut, hfound⟩ := Option.bind_eq_some_iff.1 hrest
    dsimp only at hfound
    split at hfound
    · cases hfound
    · next hbefore =>
      obtain ⟨found, hword, hpair⟩ := Option.bind_eq_some_iff.1 hfound
      obtain ⟨rfl, rfl⟩ := Prod.mk.inj (Option.some.inj hpair)
      obtain ⟨hne, hdigits, rfl, hlimit⟩ := word?_eq_some_iff.1 hword
      have hname : name = String.ofList before ++ "[" ++ String.ofList digits ++ "]" := by
        rw [← String.toList_inj, eq_append_of_stripLast hlast, (cutLast_eq_some hcut).1]
        simp
      rw [hname]
      refine .spelled (fun hempty => hbefore ?_) hne hdigits hlimit
      simpa using congrArg String.toList hempty
  · rintro ⟨hbase, hne, hdigits, hword⟩
    rename_i digits
    have hlast : stripLast ']' (base ++ "[" ++ String.ofList digits ++ "]").toList =
        some (base.toList ++ '[' :: digits) := by
      rw [← stripLast_append_singleton ']' (base.toList ++ '[' :: digits)]
      simp
    have hopen : '[' ∉ digits := fun hmem => absurd (hdigits _ hmem) (by decide)
    have hnonempty : base.toList ≠ [] := fun hnil =>
      hbase (String.toList_inj.1 (by simpa using hnil))
    rw [elementName?, hlast]
    simp [cutLast_append_cons _ hopen, hnonempty, word?_eq_some_iff.2 ⟨hne, hdigits, rfl, hword⟩]

/-- The key of a name is what orders it, and nothing else does. -/
theorem isKey_iff {name base : String} {index : Option Nat} :
    IsKey name base index ↔ naturalKey name = (base, index) := by
  unfold naturalKey
  constructor
  · rintro (h | h)
    · rw [elementName?_eq_some_iff.2 h]
    · have hnone : elementName? name = none := by
        rw [Option.eq_none_iff_forall_ne_some]
        exact fun key hkey => h key.1 key.2 (elementName?_eq_some_iff.1 hkey)
      rw [hnone]
  · intro h
    split at h
    · next base index hsome =>
      obtain ⟨rfl, rfl⟩ := Prod.mk.inj h
      exact .element (elementName?_eq_some_iff.1 hsome)
    · next hnone =>
      obtain ⟨rfl, rfl⟩ := Prod.mk.inj h
      refine .plain fun base index hname => ?_
      rw [elementName?_eq_some_iff.2 hname] at hnone
      cases hnone

/-! ## The order -/

/-- Names are ordered by base, then by index, and a name without an index comes before those with
one. -/
structure IsNaturalOrder (cmp : String → String → Ordering) : Prop where
  /-- A name is equal to itself. -/
  refl : ∀ a, cmp a a = .eq
  /-- Two names compare the other way round when they are swapped. -/
  swap : ∀ a b, cmp b a = (cmp a b).swap
  /-- What comes before a name comes before what the name comes before. -/
  trans : ∀ a b c, (cmp a b).isLE = true → (cmp b c).isLE = true → (cmp a c).isLE = true
  /-- Of two names one comes before the other, or they are equal. -/
  total : ∀ a b, (cmp a b).isLE = true ∨ (cmp b a).isLE = true
  /-- Every name has one base, and one index or none. -/
  existsUnique_key : ∀ name, ∃! key : String × Option Nat, IsKey name key.1 key.2
  /-- One name comes before another by its base, and under the same base by its index. -/
  lt_iff : ∀ a b base base' index index', IsKey a base index → IsKey b base' index' →
    (cmp a b = .lt ↔ base < base' ∨ base = base' ∧ index < index')
  /-- Two names are equal when they are the same, or spell the same element. -/
  eq_iff : ∀ a b, cmp a b = .eq ↔
    a = b ∨ ∃ base index, IsElementName a base index ∧ IsElementName b base index

/-- No index comes before every index, and indices are compared as numbers. -/
theorem compareIndex_eq_compare (i j : Option Nat) : compareIndex i j = compare i j := by
  cases i <;> cases j <;> rfl

/-- Names are compared by their keys, first by base and then by index. -/
theorem compareNatural_eq_compareLex : compareNatural =
    compareLex (compareOn fun name => (naturalKey name).1)
      (compareOn fun name => (naturalKey name).2) := by
  funext a b
  rw [compareNatural, compareIndex_eq_compare]
  rfl

/-- Names are ordered. -/
instance : Std.TransCmp compareNatural := by
  rw [compareNatural_eq_compareLex]
  infer_instance

/-- An index comes before a greater one, and no index before any. -/
theorem compareIndex_eq_lt_iff {i j : Option Nat} : compareIndex i j = .lt ↔ i < j := by
  cases i <;> cases j <;> simp [compareIndex, Nat.compare_eq_lt]

/-- Names are equal exactly when they have the same key. -/
theorem compareNatural_eq_eq_iff {a b : String} :
    compareNatural a b = .eq ↔ naturalKey a = naturalKey b := by
  rw [compareNatural, compareIndex_eq_compare, Ordering.then_eq_eq,
    Std.LawfulEqCmp.compare_eq_iff_eq, Std.LawfulEqCmp.compare_eq_iff_eq, Prod.ext_iff]

/-- Names have the same key exactly when they are the same, or spell the same element. -/
theorem naturalKey_inj {a b : String} : naturalKey a = naturalKey b ↔
    a = b ∨ ∃ base index, IsElementName a base index ∧ IsElementName b base index := by
  constructor
  · intro hkey
    have ha : IsKey a (naturalKey b).1 (naturalKey b).2 := isKey_iff.2 hkey
    have hb : IsKey b (naturalKey b).1 (naturalKey b).2 := isKey_iff.2 rfl
    generalize (naturalKey b).1 = base at ha hb
    generalize (naturalKey b).2 = index at ha hb
    cases ha with
    | element ha =>
      cases hb with
      | element hb => exact .inr ⟨_, _, ha, hb⟩
    | plain ha =>
      cases hb with
      | plain hb => exact .inl rfl
  · rintro (rfl | ⟨base, index, ha, hb⟩)
    · rfl
    · rw [isKey_iff.1 (.element ha), isKey_iff.1 (.element hb)]

/-- Names are compared naturally. -/
theorem isNaturalOrder_compareNatural : IsNaturalOrder compareNatural where
  refl a := Std.ReflCmp.compare_self
  swap a b := Std.OrientedCmp.eq_swap
  trans a b c := Std.TransCmp.isLE_trans
  total a b := by
    rw [show compareNatural b a = (compareNatural a b).swap from Std.OrientedCmp.eq_swap]
    cases compareNatural a b <;> simp
  existsUnique_key name :=
    ⟨naturalKey name, isKey_iff.2 rfl, fun key hkey => (isKey_iff.1 hkey).symm⟩
  lt_iff a b base base' index index' ha hb := by
    rw [compareNatural, isKey_iff.1 ha, isKey_iff.1 hb, Ordering.then_eq_lt,
      Std.LawfulEqCmp.compare_eq_iff_eq, compareIndex_eq_lt_iff]
    exact or_congr_left compareOfLessAndEq_eq_lt
  eq_iff a b := compareNatural_eq_eq_iff.trans naturalKey_inj

end InputDeck
