/-
This file defines JSON values, `Json`, as the metadata format sees them. Whole
numbers of 64 bits and doubles are told apart, an object keeps its members in
writing order with repetitions, and whatever the grammar admits but no field
can hold is one value of its own, so that it may still stand where nobody
looks.
-/

import BytecodeFlow.Number.Decimal

namespace BytecodeFlow

inductive Json where
  | null
  | bool (value : Bool)
  /-- A whole number from `-2 ^ 63` up to `2 ^ 64 - 1`. -/
  | int (value : Int)
  | float (value : Binary64)
  | string (text : String)
  | array (items : List Json)
  | object (members : List (String × Json))
  /-- A number beyond the doubles, a string with an unpaired surrogate, or an object with such a
  string for a key: grammatical, but without a meaning. -/
  | unreadable
deriving Repr, Inhabited

namespace Json

/-! ### Values that can be set aside -/

mutual

/-- Whether a value can be kept for later: it nests at most `depth` containers, and all of it can
be read. -/
def storable : (depth : Nat) → Json → Bool
  | _, .unreadable => false
  | 0, .array _ => false
  | 0, .object _ => false
  | depth + 1, .array items => storableItems depth items
  | depth + 1, .object members => storableMembers depth members
  | _, _ => true

def storableItems : (depth : Nat) → List Json → Bool
  | _, [] => true
  | depth, item :: rest => storable depth item && storableItems depth rest

def storableMembers : (depth : Nat) → List (String × Json) → Bool
  | _, [] => true
  | depth, (_, value) :: rest => storable depth value && storableMembers depth rest

end

/-! ### Single values -/

def bool? : Json → Option Bool
  | .bool value => some value
  | _ => none

def text? : Json → Option String
  | .string text => some text
  | _ => none

/-- The name of a case without content: a text, or an object that has the name for its only key
and `null` for its value. -/
def caseName? : Json → Option String
  | .string name => some name
  | .object [(name, .null)] => some name
  | _ => none

/-- An unsigned whole number of 32 bits. -/
def word32? : Json → Option UInt32
  | .int value =>
    if 0 ≤ value ∧ value.toNat < UInt32.size then some (UInt32.ofNat value.toNat) else none
  | _ => none

/-- An unsigned whole number of 64 bits. -/
def word64? : Json → Option Nat
  | .int value => if 0 ≤ value then some value.toNat else none
  | _ => none

/-- A signed whole number of 64 bits. -/
def signed64? : Json → Option Int64
  | .int value => if value ≤ Int64.maxValue.toInt then some (Int64.ofInt value) else none
  | _ => none

/-- Any number as a double. -/
def float? : Json → Option Binary64
  | .int value => Binary64.ofInt? value
  | .float value => some value
  | _ => none

/-- A value or `null`. -/
def nullable {α : Type} (decode : Json → Option α) : Json → Option (Option α)
  | .null => some none
  | json => (decode json).map some

def listOf {α : Type} (decode : Json → Option α) : Json → Option (List α)
  | .array items => items.mapM decode
  | _ => none

/-! ### Records -/

/-- The fields of a record that were written, each at most once. -/
abbrev Record := List (String × Json)

/-- Read a record with the given field names. It is written as an object, whose other members are
skipped and in which no field is repeated, or as an array of the first fields in their order. -/
def record? (names : List String) : Json → Option Record
  | .object members =>
    let known := members.filter fun (name, _) => names.contains name
    if (known.map Prod.fst).Nodup then some known else none
  | .array items => if items.length ≤ names.length then some (names.zip items) else none
  | _ => none

namespace Record

/-- A field that has to be written. -/
def required {α : Type} (record : Record) (name : String) (decode : Json → Option α) : Option α :=
  (record.lookup name).bind decode

/-- A field that may be left out. -/
def withDefault {α : Type} (record : Record) (name : String) (absent : α)
    (decode : Json → Option α) : Option α :=
  match record.lookup name with
  | none => some absent
  | some json => decode json

end Record

end Json

end BytecodeFlow
