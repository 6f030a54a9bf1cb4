import Std.Data.ExtTreeMap

/-!
# Tables of names

A table maps names to values. Two tables with the same value under every name are equal, and the
entries of a table are listed by rising name, character by character.
-/

namespace InputDeck

/-- A finite map from names, with its entries in the order of the names. -/
abbrev Table (α : Type) := Std.ExtTreeMap String α compare

namespace Table

variable {α : Type}

/-- Looking up a name after one was bound gives the binding or what was there before. -/
theorem getElem?_insert_eq (t : Table α) (name : String) (value : α) (key : String) :
    (t.insert name value)[key]? = if name = key then some value else t[key]? := by
  simp [Std.ExtTreeMap.getElem?_insert, Std.LawfulEqCmp.compare_eq_iff_eq]

/-- Binding the names of a list one after the other gives the last binding or what was there. -/
theorem getElem?_foldl_insert {ι : Type} (items : List ι) (name : ι → String) (value : ι → α)
    (t : Table α) (key : String) :
    (items.foldl (fun t item => t.insert (name item) (value item)) t)[key]? =
      ((items.reverse.find? fun item => name item == key).map value).or t[key]? := by
  induction items generalizing t with
  | nil => rfl
  | cons item items ih =>
    rw [List.foldl_cons, ih, getElem?_insert_eq, List.reverse_cons, List.find?_append]
    cases items.reverse.find? fun item => name item == key with
    | some last => rfl
    | none => by_cases h : name item = key <;> simp [h]

/-- The last item of a list that has a name. -/
def lastNamed? {ι : Type} (name : ι → String) (items : List ι) (key : String) : Option ι :=
  items.reverse.find? fun item => name item == key

section

variable {ι : Type} {name : ι → String} {items front rest : List ι} {key : String} {item : ι}

/-- The last item in two lists is that of the second one, if there is one. -/
theorem lastNamed?_append : lastNamed? name (front ++ rest) key =
    (lastNamed? name rest key).or (lastNamed? name front key) := by
  simp [lastNamed?, List.find?_append]

/-- A list has a last item of exactly the names that its items have. -/
theorem lastNamed?_eq_none_iff :
    lastNamed? name items key = none ↔ ∀ item ∈ items, name item ≠ key := by
  simp [lastNamed?]

/-- The last item of a name is one of the items, and has the name. -/
theorem of_lastNamed? (h : lastNamed? name items key = some item) :
    item ∈ items ∧ name item = key :=
  ⟨List.mem_reverse.1 (List.mem_of_find?_eq_some h), by simpa using List.find?_some h⟩

/-- An item behind which no other has its name is the last one. -/
theorem lastNamed?_append_cons (h : ∀ other ∈ rest, name other ≠ name item) :
    lastNamed? name (front ++ item :: rest) (name item) = some item := by
  have hrest : rest.reverse.find? (fun other => name other == name item) = none := by
    simpa using h
  simp [lastNamed?, List.find?_append, hrest]

end

/-- Two tables with the same lookups are the same table. -/
theorem ext_getElem? {s t : Table α} (h : ∀ name : String, s[name]? = t[name]?) : s = t :=
  Std.ExtTreeMap.ext_getElem? h

end Table

end InputDeck
