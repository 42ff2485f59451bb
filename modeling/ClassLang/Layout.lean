/-
Where the fields of an object lie.

An object is a run of slots of one machine word each, one for every field in the order of
declaration.  Offsets and sizes are 32-bit addresses.
-/

namespace ClassLang

structure Layout where
  fields : List String
deriving Repr, DecidableEq

namespace Layout

/-- Bytes in a slot. -/
def slotSize : UInt32 := 4

def offset? (layout : Layout) (field : String) : Option UInt32 :=
  (layout.fields.idxOf? field).map fun index => slotSize * .ofNat index

def size (layout : Layout) : UInt32 := slotSize * .ofNat layout.fields.length

end Layout

end ClassLang
