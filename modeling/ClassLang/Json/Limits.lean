/-
Limits that a value may be held to beyond the grammar, and what it takes to hold only a part of it
to them.
-/
import ClassLang.Json
import ClassLang.Json.Double

namespace ClassLang
namespace Json

mutual

/-- Whether every number is in range of a double. -/
def numbersFit : Json → Bool
  | .decimal d => (Double.ofDecimal? d).isSome
  | .arr items => itemNumbersFit items
  | .obj fields => fieldNumbersFit fields
  | _ => true
termination_by structural j => j

def itemNumbersFit : List Json → Bool
  | [] => true
  | j :: rest => j.numbersFit && itemNumbersFit rest
termination_by structural js => js

def fieldNumbersFit : List (String × Json) → Bool
  | [] => true
  | (_, j) :: rest => j.numbersFit && fieldNumbersFit rest
termination_by structural fields => fields

end

mutual

/-- Whether lists and objects nest no deeper than so many levels. -/
def nestsWithin (levels : Nat) : Json → Bool
  | .arr items => 0 < levels && itemsNestWithin (levels - 1) items
  | .obj fields => 0 < levels && fieldsNestWithin (levels - 1) fields
  | _ => true
termination_by structural j => j

def itemsNestWithin (levels : Nat) : List Json → Bool
  | [] => true
  | j :: rest => nestsWithin levels j && itemsNestWithin levels rest
termination_by structural js => js

def fieldsNestWithin (levels : Nat) : List (String × Json) → Bool
  | [] => true
  | (_, j) :: rest => nestsWithin levels j && fieldsNestWithin levels rest
termination_by structural fields => fields

end

/-- Which parts of a value are looked at. -/
inductive Shape where
  | whole
  | list (items : Shape)
  /-- Fields that are not named are passed over. -/
  | record (fields : List (String × Shape))

mutual

/-- Leaves out what is passed over.  A value of another form than the shape stays as it is. -/
def trim (shape : Shape) : Json → Json
  | .arr items =>
    match shape with
    | .list shape => .arr (trimItems shape items)
    | _ => .arr items
  | .obj fields =>
    match shape with
    | .record known => .obj (trimFields known fields)
    | _ => .obj fields
  | j => j
termination_by structural j => j

def trimItems (shape : Shape) : List Json → List Json
  | [] => []
  | j :: rest => trim shape j :: trimItems shape rest
termination_by structural js => js

def trimFields (known : List (String × Shape)) : List (String × Json) → List (String × Json)
  | [] => []
  | (name, j) :: rest =>
    match known.lookup name with
    | some shape => (name, trim shape j) :: trimFields known rest
    | none => trimFields known rest
termination_by structural fields => fields

end

end Json
end ClassLang
