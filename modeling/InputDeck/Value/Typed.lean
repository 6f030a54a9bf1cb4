import InputDeck.Value.Basic

/-!
# Typed access to values

A type of numbers, of truth values or of texts reads the values of its kind. Integers take the
whole part of a number, held within their range, and zero for what is not a number.
-/

namespace InputDeck

/-- A type that values of one kind are read as. -/
class Readable (α : Type) where
  /-- The kind of the values that are read. -/
  kind : Kind
  /-- The value as an element of the type, when it is of that kind. -/
  read? : Value → Option α
  /-- Exactly the values of that kind are read. -/
  isSome_read?_iff (v : Value) : (read? v).isSome = true ↔ v.kind = kind

/-- A type whose elements are also written as values, which are read again. -/
class Storable (α : Type) extends Readable α where
  /-- The value of an element. -/
  toValue : α → Value
  /-- The value of an element is of the kind that is read. -/
  kind_toValue (a : α) : (toValue a).kind = kind

/-- The reading of numbers through a conversion. -/
@[reducible] def Readable.ofNumber {α : Type} (convert : Float → α) : Readable α where
  kind := .number
  read? v := v.number?.map convert
  isSome_read?_iff v := by rw [Option.isSome_map, Value.isSome_number?_iff]

/-- The reading of numbers through a conversion, with a conversion back. -/
@[reducible] def Storable.ofNumber {α : Type} (convert : Float → α) (back : α → Float) :
    Storable α where
  toReadable := .ofNumber convert
  toValue a := .number (back a)
  kind_toValue _ := rfl

instance : Storable Float := .ofNumber id id

instance : Storable Float32 := .ofNumber Float.toFloat32 Float32.toFloat

instance : Readable Int8 := .ofNumber Float.toInt8

instance : Readable Int16 := .ofNumber Float.toInt16

instance : Storable Int32 := .ofNumber Float.toInt32 fun n => Float.ofInt n.toInt

instance : Storable Int64 := .ofNumber Float.toInt64 fun n => Float.ofInt n.toInt

instance : Readable UInt8 := .ofNumber Float.toUInt8

instance : Readable UInt16 := .ofNumber Float.toUInt16

instance : Storable UInt32 := .ofNumber Float.toUInt32 fun n => Float.ofNat n.toNat

instance : Storable UInt64 := .ofNumber Float.toUInt64 fun n => Float.ofNat n.toNat

instance : Storable Bool where
  kind := .boolean
  read? := Value.boolean?
  isSome_read?_iff _ := Value.isSome_boolean?_iff
  toValue := .boolean
  kind_toValue _ := rfl

instance : Storable String where
  kind := .string
  read? := Value.string?
  isSome_read?_iff _ := Value.isSome_string?_iff
  toValue := .string
  kind_toValue _ := rfl

end InputDeck
