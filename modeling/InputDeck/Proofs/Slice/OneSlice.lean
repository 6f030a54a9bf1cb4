import InputDeck.Compilation
import InputDeck.Proofs.Slice.Expansion
import Mathlib.Data.List.TakeWhile

/-!
# Targets with one slice

The items of a list go to the elements of a slice one by one, from its first index on. A slice with
two bounds and the list give the line a length each, and the shorter one decides: items behind the
end of the slice are left over, and so are indices behind the last item. An open slice takes all
items. A text without slices goes to every element instead, and an open slice takes its end from the
vector that exists.
-/

namespace InputDeck

/-- Outside quotes, a segment of a name has no character that names do not go on with. -/
theorem Token.IsSegment.notMem_outside {cs : List Char} (h : Token.IsSegment cs) {c : Char}
    (hc : Token.isNamePart c = false) : c ∉ Scan.outside false cs :=
  fun hmem => h.notMem hc (Scan.outside_subset _ _ hmem)

namespace Slice

open InputDeck.Text InputDeck.Number InputDeck.Scan

variable {location : Location} {existing : String → Option Nat} {tail : List Char}
  {items : List (List Char)}

/-! ## Lists -/

/-- The assignments of items to the elements of a slice, which stands between two texts. -/
def itemAssignments (leading tail : List Char) (lower : Nat) (items : List (List Char)) :
    List (String × String) :=
  (items.zipIdx lower).map fun (item, index) =>
    (String.ofList (leading ++ '[' :: (natText index).toList ++ ']' :: tail), String.ofList item)

/-- The items that a slice takes. -/
def Segment.taken (segment : Segment) (items : List (List Char)) : List (List Char) :=
  items.take (segment.length?.getD items.length)

/-- One slice and a list share the number of the items that the slice takes. -/
theorem sharedLength_items (segment : Segment) :
    sharedLength ⟨[segment], tail⟩ (.items items) = some (segment.taken items).length := by
  have hlengths : Pattern.lengths ⟨[segment], tail⟩ = segment.length?.toList := by
    cases h : segment.length? <;> simp [Pattern.lengths, h]
  rw [sharedLength, hlengths, Source.lengths, Segment.taken]
  cases segment.length? <;> simp

/-- One slice and a list stand for an assignment of each item that the slice takes. -/
theorem pairs_items (segment : Segment) :
    pairs location ⟨[segment], tail⟩ (.items items) (segment.taken items).length =
      .ok (itemAssignments segment.leading tail segment.lower (segment.taken items)) := by
  have hnames : names ⟨[segment], tail⟩ (segment.taken items).length =
      (List.range (segment.taken items).length).map (Pattern.render ⟨[segment], tail⟩) := rfl
  have hle : (segment.taken items).length ≤ items.length := List.length_take_le' _ _
  rw [pairs, hnames, Source.values, if_neg (by simpa using hle)]
  refine congrArg Except.ok (List.ext_getElem (by simpa [itemAssignments] using hle) ?_)
  intro k hk _
  simp [itemAssignments, Segment.taken, Pattern.render]

/-- A target with one slice and a list stand for an assignment of each item that the slice takes,
whatever vectors exist. -/
theorem expand_items {name value : String} (segment : Segment)
    (htarget : IsTarget name.toList ⟨[segment], tail⟩)
    (hsource : IsSource value.toList (.items items))
    (hopen : segment.upper = none → segment.lower + items.length < wordLimit) :
    expand location existing name value =
      .ok (itemAssignments segment.leading tail segment.lower (segment.taken items)) := by
  have hshared : sharedLength ⟨[segment], tail⟩ (.items items) =
      some (segment.taken items).length := sharedLength_items segment
  have hsettled : settled existing ⟨[segment], tail⟩ (.items items) =
      (⟨[segment], tail⟩, .items items) := settled_of_some hshared
  have htaken : segment.upper = none → segment.taken items = items := by
    intro hupper
    simp [Segment.taken, Segment.length?, hupper]
  have hclosed : Pattern.closeBounds location name (some (segment.taken items).length)
      ⟨[segment], tail⟩ =
      .ok (Pattern.mapSegments (Segment.closedAt (segment.taken items).length)
        ⟨[segment], tail⟩) := by
    refine Pattern.closeBounds_eq_ok_iff.2 ⟨fun other hother hupper => ?_, rfl⟩
    obtain rfl := List.mem_singleton.1 hother
    exact ⟨_, rfl, by rw [htaken hupper]; exact hopen hupper⟩
  rw [expand_eq htarget hsource, settledLength, hsettled, hshared]
  refine Except.bind_eq_ok_iff.2 ⟨_, hclosed, Except.bind_eq_ok_iff.2 ⟨.items items, rfl, ?_⟩⟩
  exact (pairs_mapSegments (Segment.movesEnd_closedAt _) (Segment.movesEnd_closedAt 0) _).trans
    (pairs_items segment)

/-- A list that is read as one is what is assigned. -/
theorem isSource_of_listText? {value list : List Char} (h : CardLine.listText? value = some list) :
    IsSource value (.items (splitTopLevel ',' list)) :=
  (@isSource_iff ⟨0, .root⟩ _ _).2 (by rw [Source.parse, h])

/-! ## Whole vectors -/

/-- The elements of a whole vector are those of the vector with its name. -/
theorem itemAssignments_whole (name : String) (items : List (List Char)) :
    itemAssignments name.toList [] 0 items =
      Progress.elementAssignments name (items.map String.ofList) := by
  rw [Progress.elementAssignments, List.zipIdx_map, List.map_map]
  refine List.map_congr_left fun pair _ => Prod.ext (String.toList_inj.1 ?_) rfl
  simp [elementName]

section

variable {name : String} (hname : Token.IsSegment name.toList)

include hname

/-- The slice of a whole vector. -/
theorem isTarget_whole : IsTarget (name ++ "[:]").toList ⟨[⟨name.toList, 0, none⟩], []⟩ := by
  have hinner : IsSlice [':'] 0 none := ⟨[], [], none, rfl, .empty, .empty, rfl, by rintro _ ⟨⟩⟩
  have hreads : Pattern.Reads (name.toList ++ '[' :: [':'] ++ ']' :: []) _ :=
    .slice (hname.notMem_outside (by decide)) (.of_notMem (hname.notMem (by decide))) hinner
      (.text List.not_mem_nil)
  exact .side (by simp) (by simpa using hreads)

/-- The slice of a whole vector and a list stand for one assignment per item. -/
theorem expand_whole_items {value list : List Char} (hlist : CardLine.listText? value = some list)
    (hlength : (splitTopLevel ',' list).length < wordLimit) :
    expand location existing (name ++ "[:]") (String.ofList value) =
      .ok (Progress.elementAssignments name ((splitTopLevel ',' list).map String.ofList)) := by
  have hsource : IsSource (String.ofList value).toList (.items (splitTopLevel ',' list)) := by
    simpa using isSource_of_listText? hlist
  have hexpand : expand location existing (name ++ "[:]") (String.ofList value) = _ :=
    expand_items ⟨name.toList, 0, none⟩ (isTarget_whole hname) hsource
      fun _ => by simpa using hlength
  simpa [Segment.taken, Segment.length?, itemAssignments_whole] using hexpand

/-- The slice of a whole vector ends where the vector with its name ends. -/
theorem existingUpper?_whole :
    Segment.existingUpper? existing ⟨name.toList, 0, none⟩ = existing name := by
  have hall : ∀ c ∈ name.toList.reverse, Segment.isPathChar c = true := by
    intro c hc
    have hpart := hname.isNamePart c (List.mem_reverse.1 hc)
    rw [Token.isNamePart] at hpart
    rw [Segment.isPathChar, hpart, Bool.true_or]
  have hvector : Segment.vectorName? ⟨name.toList, 0, none⟩ = some name := by
    obtain ⟨c, rest, hcons, -⟩ := hname.head
    have hsome : Segment.vectorName? ⟨name.toList, 0, none⟩ =
        some (String.ofList name.toList) := by
      rw [Segment.vectorName?, List.takeWhile_eq_self_iff.2 hall, List.reverse_reverse, hcons]
    rwa [String.ofList_toList] at hsome
  rw [Segment.existingUpper?, hvector]
  cases h : existing name <;> simp [h]

/-- The slice of a whole vector and a text without slices stand for an assignment of the text to
each element that exists. -/
theorem expand_whole_text {value : String}
    (hvalue : IsSource value.toList (.pattern ⟨[], value.toList⟩)) {length : Nat}
    (hlength : existing name = some length) :
    expand location existing (name ++ "[:]") value =
      .ok ((List.range length).map fun i => (elementName name i, value)) := by
  have hsettled : settled existing ⟨[⟨name.toList, 0, none⟩], []⟩
      (.pattern ⟨[], value.toList⟩) =
      (⟨[⟨name.toList, 0, some length⟩], []⟩, .pattern ⟨[], value.toList⟩) := by
    simp [settled, sharedLength, Pattern.lengths, Source.lengths, Segment.length?,
      Pattern.closeFromExisting, Source.closeFromExisting, existingUpper?_whole hname, hlength]
  have hcount : settledLength existing ⟨[⟨name.toList, 0, none⟩], []⟩
      (.pattern ⟨[], value.toList⟩) = some length := by
    rw [settledLength, hsettled]
    rfl
  have hpairs : pairs location ⟨[⟨name.toList, 0, some length⟩], []⟩
      (.pattern ⟨[], value.toList⟩) length =
      .ok ((List.range length).map fun i => (elementName name i, value)) := by
    have hnames : names ⟨[⟨name.toList, 0, some length⟩], []⟩ length =
        (List.range length).map fun i => (elementName name i).toList :=
      List.map_congr_left fun i _ => by simp [Pattern.render, elementName]
    rw [pairs, hnames, List.length_map, List.length_range, Source.values,
      if_pos (show Pattern.isScalar ⟨[], value.toList⟩ = true from rfl), if_neg (by simp)]
    refine congrArg Except.ok (List.ext_getElem (by simp) fun i _ _ => ?_)
    simp [Pattern.render]
  rw [expand_eq (isTarget_whole hname) hvalue, hsettled, hcount]
  exact hpairs

end

end Slice

end InputDeck
