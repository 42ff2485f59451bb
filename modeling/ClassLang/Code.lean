/-
Stack code: the instructions of a small part of WebAssembly.

Names are kept without the dollar sign that their text starts with.
-/

namespace ClassLang

inductive Instr where
  | const (value : Int32)
  | localGet (name : String)
  | localSet (name : String)
  | globalGet (name : String)
  | globalSet (name : String)
  | add
  | sub
  | mul
  | divS
  | remS
  | xor
  | eq
  | ne
  | gtS
  | ltS
  | geS
  | leS
  | load
  | store
  /-- A call carries the shape of its callee: how many words it takes and whether it leaves one. -/
  | call (func : String) (params : Nat) (returns : Bool)
  /-- Takes a condition.  Both arms leave the stack as they find it. -/
  | branch (yes : List Instr) (no : Option (List Instr))
  | ret
  | nop
deriving Repr, BEq

abbrev Code := List Instr

/-- The local that every function has for values on their way. -/
def scratch : String := "$scratch"

/-- The global that holds the first free address. -/
def heap : String := "$heap"

namespace Instr

/-- By how much an instruction changes the height of the stack.  A return counts as taking the value
that it hands back. -/
def stackEffect : Instr → Int32
  | .const _ | .localGet _ | .globalGet _ => 1
  | .localSet _ | .globalSet _ => -1
  | .add | .sub | .mul | .divS | .remS | .xor => -1
  | .eq | .ne | .gtS | .ltS | .geS | .leS => -1
  | .load | .nop => 0
  | .store => -2
  | .call _ params returns => (if returns then 1 else 0) - .ofNat params
  | .branch _ _ | .ret => -1

end Instr

def Code.netEffect (code : Code) : Int32 :=
  code.foldl (fun height i => height + i.stackEffect) 0

end ClassLang
