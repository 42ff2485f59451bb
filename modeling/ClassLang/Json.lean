/-
JSON values.

A number written with a fraction or an exponent is a decimal and never an integer, whatever its
value.
-/
import ClassLang.Json.Decimal

namespace ClassLang

inductive Json where
  | null
  | bool (value : Bool)
  | int (value : Int)
  | decimal (value : Decimal)
  | str (value : String)
  | arr (items : List Json)
  | obj (fields : List (String × Json))
deriving Repr, BEq

namespace Json

/-- A value inside another one. -/
abbrev Part (j : Json) := { part : Json // sizeOf part < sizeOf j }

/-- The value of the first field of that name, if the value is an object that has one. -/
def field? (j : Json) (name : String) : Option j.Part :=
  match j with
  | .obj fields =>
    fields.attach.findSome? fun ⟨(key, value), mem⟩ =>
      if key = name then
        some ⟨value, by
          have := List.sizeOf_lt_of_mem mem
          simp only [Prod.mk.sizeOf_spec, obj.sizeOf_spec] at this ⊢
          omega⟩
      else none
  | _ => none

/-- A field that may be missing, or be `null` instead. -/
def optional? (j : Json) (name : String) : Option j.Part :=
  match j.field? name with
  | some ⟨.null, _⟩ => none
  | part => part

/-- The items of a field that must be there and be a list. -/
def items? (j : Json) (name : String) : Option (List j.Part) :=
  match j.field? name with
  | some ⟨.arr items, lt⟩ =>
    some <| items.attach.map fun ⟨item, mem⟩ => ⟨item, by
      have := List.sizeOf_lt_of_mem mem
      simp only [arr.sizeOf_spec] at lt
      omega⟩
  | _ => none

/-- The items of a field that is an empty list when it is missing. -/
def itemsOrNone? (j : Json) (name : String) : Option (List j.Part) :=
  match j with
  | .obj fields =>
    if ((Json.obj fields).field? name).isNone then some [] else (Json.obj fields).items? name
  | _ => none

def str? : Json → Option String
  | .str value => some value
  | _ => none

def bool? : Json → Option Bool
  | .bool value => some value
  | _ => none

/-- An integer of at most 32 bits, sign included. -/
def int32? : Json → Option Int32
  | .int value => if Int32.minValue.toInt ≤ value ∧ value ≤ Int32.maxValue.toInt then
      some (.ofInt value) else none
  | _ => none

/-- Where a value stands: within a node that has a tag, or not.  The parts of a tagged node are held
back until its tag is known, and are read more loosely. -/
inductive Place where
  | top
  | inNode
deriving Repr, DecidableEq

/-- Nothing at all.  Within a node an object without fields is nothing too. -/
def isNothing (place : Place) : Json → Bool
  | .null => true
  | .obj [] => place = .inNode
  | _ => false

/-- A plain name.  It may also be written as an object with that one key and nothing under it. -/
def name? (place : Place) : Json → Option String
  | .str name => some name
  | .obj [(name, part)] => if part.isNothing place then some name else none
  | _ => none

/-- Which form of a kind of node the value has. -/
def tag? (j : Json) : Option String := do
  let ⟨tag, _⟩ ← j.field? "tag"
  tag.str?

/-- A field that holds a string. -/
def strField? (j : Json) (name : String) : Option String := do
  let ⟨value, _⟩ ← j.field? name
  value.str?

end Json

end ClassLang
