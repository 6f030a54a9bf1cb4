/-!
# Stable sorting

A list is sorted by inserting its elements one by one, the last one first, each in front of the
first element that it may stand before. Elements of the same rank keep their order.
-/

namespace InputDeck

variable {α : Type}

/-- Put an element in front of the first one that it may stand before. -/
def insertBy (le : α → α → Bool) (a : α) : List α → List α
  | [] => [a]
  | b :: bs => if le a b then a :: b :: bs else b :: insertBy le a bs

/-- A list in the order of `le`. -/
def sortBy (le : α → α → Bool) (xs : List α) : List α := xs.foldr (insertBy le) []

@[simp] theorem sortBy_nil (le : α → α → Bool) : sortBy le [] = [] := rfl

@[simp] theorem sortBy_cons (le : α → α → Bool) (a : α) (xs : List α) :
    sortBy le (a :: xs) = insertBy le a (sortBy le xs) := rfl

/-- Inserting adds the element and nothing else. -/
theorem insertBy_perm (le : α → α → Bool) (a : α) (xs : List α) :
    (insertBy le a xs).Perm (a :: xs) := by
  induction xs with
  | nil => exact .refl _
  | cons b bs ih =>
    rw [insertBy]
    split
    · exact .refl _
    · exact (ih.cons b).trans (.swap a b bs)

/-- Sorting loses and adds nothing. -/
theorem sortBy_perm (le : α → α → Bool) (xs : List α) : (sortBy le xs).Perm xs := by
  induction xs with
  | nil => exact .refl _
  | cons a xs ih => exact (insertBy_perm le a _).trans (ih.cons a)

@[simp] theorem mem_sortBy {le : α → α → Bool} {a : α} {xs : List α} :
    a ∈ sortBy le xs ↔ a ∈ xs :=
  (sortBy_perm le xs).mem_iff

/-- Inserting into an ordered list gives an ordered list. -/
theorem pairwise_insertBy {le : α → α → Bool} (htrans : ∀ a b c, le a b → le b c → le a c)
    (htotal : ∀ a b, le a b || le b a) (a : α) {xs : List α}
    (h : xs.Pairwise fun x y => le x y) : (insertBy le a xs).Pairwise fun x y => le x y := by
  induction xs with
  | nil => simp [insertBy]
  | cons b bs ih =>
    obtain ⟨hb, hbs⟩ := List.pairwise_cons.1 h
    rw [insertBy]
    split
    · next hab =>
      refine List.pairwise_cons.2 ⟨fun c hc => ?_, h⟩
      rcases List.mem_cons.1 hc with rfl | hc
      · exact hab
      · exact htrans a b c hab (hb c hc)
    · next hab =>
      refine List.pairwise_cons.2 ⟨fun c hc => ?_, ih hbs⟩
      rcases List.mem_cons.1 ((insertBy_perm le a bs).mem_iff.1 hc) with rfl | hc
      · simpa [hab] using htotal c b
      · exact hb c hc

/-- A sorted list is in order. -/
theorem pairwise_sortBy {le : α → α → Bool} (htrans : ∀ a b c, le a b → le b c → le a c)
    (htotal : ∀ a b, le a b || le b a) (xs : List α) :
    (sortBy le xs).Pairwise fun x y => le x y := by
  induction xs with
  | nil => exact .nil
  | cons a xs ih => exact pairwise_insertBy htrans htotal a ih

end InputDeck
