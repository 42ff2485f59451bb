/-
The text of stack code, folded on one line or spread over lines.
-/
import ClassLang.Code

namespace ClassLang

/-- One line of a text, two blanks deeper for each level. -/
def line (level : Nat) (text : String) : String :=
  String.ofList (List.replicate (2 * level) ' ') ++ text ++ "\n"

namespace Instr

def mnemonic : Instr → String
  | .const _ => "i32.const"
  | .localGet _ => "local.get"
  | .localSet _ => "local.set"
  | .globalGet _ => "global.get"
  | .globalSet _ => "global.set"
  | .add => "i32.add"
  | .sub => "i32.sub"
  | .mul => "i32.mul"
  | .divS => "i32.div_s"
  | .remS => "i32.rem_s"
  | .xor => "i32.xor"
  | .eq => "i32.eq"
  | .ne => "i32.ne"
  | .gtS => "i32.gt_s"
  | .ltS => "i32.lt_s"
  | .geS => "i32.ge_s"
  | .leS => "i32.le_s"
  | .load => "i32.load"
  | .store => "i32.store"
  | .call _ _ _ => "call"
  | .branch _ _ => "if"
  | .ret => "return"
  | .nop => "nop"

mutual

def text : Instr → String
  | .branch yes no => "(if (then" ++ textAll yes ++ ")" ++ textElse no ++ ")"
  | .const value => "(i32.const " ++ toString value ++ ")"
  | .localGet name => "(local.get $" ++ name ++ ")"
  | .localSet name => "(local.set $" ++ name ++ ")"
  | .globalGet name => "(global.get $" ++ name ++ ")"
  | .globalSet name => "(global.set $" ++ name ++ ")"
  | .call func _ _ => "(call $" ++ func ++ ")"
  | i => "(" ++ i.mnemonic ++ ")"
termination_by structural i => i

def textElse : Option (List Instr) → String
  | none => ""
  | some no => " (else" ++ textAll no ++ ")"
termination_by structural no => no

def textAll : List Instr → String
  | [] => ""
  | i :: rest => " " ++ i.text ++ textAll rest
termination_by structural is => is

end

mutual

def lines (level : Nat) : Instr → String
  | .branch yes no =>
    line level "(if" ++ line (level + 1) "(then" ++ linesAll (level + 2) yes ++
      line (level + 1) ")" ++ linesElse (level + 1) no ++ line level ")"
  | i => line level i.text
termination_by structural i => i

def linesElse (level : Nat) : Option (List Instr) → String
  | none => ""
  | some no => line level "(else" ++ linesAll (level + 1) no ++ line level ")"
termination_by structural no => no

def linesAll (level : Nat) : List Instr → String
  | [] => ""
  | i :: rest => lines level i ++ linesAll level rest
termination_by structural is => is

end

end Instr

/-- One instruction to a line, with the arms of a branch set deeper. -/
def Code.lines (level : Nat) (code : Code) : String := Instr.linesAll level code

end ClassLang
