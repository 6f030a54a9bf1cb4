import InputDeck.Number.Numeral
import InputDeck.Text.Cut

/-!
# Names of vector elements

A vector is the run of cards `v[0]`, `v[1]`, … of one suit. Names are ordered naturally: by base,
a name without an index before the elements of the vector of that name, and elements by index.
-/

namespace InputDeck

open InputDeck.Text InputDeck.Number

/-- The name of an element of a vector. -/
def elementName (base : String) (index : Nat) : String := base ++ "[" ++ natText index ++ "]"

/--
The base and the index of an element name: the index is decimal digits that a machine word holds,
between the last opening bracket and a closing bracket at the end, and the base is not empty.
-/
def elementName? (name : String) : Option (String × Nat) := do
  let inner ← stripLast ']' name.toList
  let (base, digits) ← cutLast '[' inner
  if base = [] then none
  else
    let index ← word? digits
    return (String.ofList base, index)

/-- What a name is ordered by: its base, and the index of an element. -/
def naturalKey (name : String) : String × Option Nat :=
  match elementName? name with
  | some (base, index) => (base, some index)
  | none => (name, none)

/-- The order of an optional index: none comes first. -/
def compareIndex : Option Nat → Option Nat → Ordering
  | none, none => .eq
  | none, some _ => .lt
  | some _, none => .gt
  | some i, some j => compare i j

/-- The natural order of names: elements of one vector follow by index. -/
def compareNatural (a b : String) : Ordering :=
  (compare (naturalKey a).1 (naturalKey b).1).then
    (compareIndex (naturalKey a).2 (naturalKey b).2)

/-- Whether a name may stand before another in natural order. -/
def naturalLe (a b : String) : Bool := (compareNatural a b).isLE

/-- The elements of a vector have different names. -/
theorem elementName_right_inj {base : String} {i j : Nat} :
    elementName base i = elementName base j ↔ i = j := by
  refine ⟨fun h => ?_, fun h => h ▸ rfl⟩
  have hdigits : Nat.toDigits 10 i = Nat.toDigits 10 j := by
    simpa [elementName, natText] using congrArg String.toList h
  rw [← digitsValue_toDigits i, hdigits, digitsValue_toDigits]

/-- An element name gives its base and its index back. -/
theorem elementName?_elementName {base : String} {index : Nat} (hb : base ≠ "")
    (hi : index < wordLimit) : elementName? (elementName base index) = some (base, index) := by
  have hlast : stripLast ']' (elementName base index).toList =
      some (base.toList ++ '[' :: (natText index).toList) := by
    have hsplit : (elementName base index).toList =
        (base.toList ++ '[' :: (natText index).toList) ++ [']'] := by
      simp [elementName]
    rw [hsplit, stripLast_append_singleton]
  have hdigits : '[' ∉ (natText index).toList := by
    intro h
    have := Nat.isDigit_of_mem_toDigits (by decide) (by decide)
      (by simpa [natText] using h : '[' ∈ Nat.toDigits 10 index)
    exact absurd this (by decide)
  have hbase : base.toList ≠ [] := fun h => hb (String.toList_inj.1 (by simpa using h))
  simp [elementName?, hlast, cutLast_append_cons _ hdigits, hbase, word?_natText hi]

end InputDeck
