/-
Stack heights, as a validator finds them: by one scan of the code, without running it.

A block sees only the words that it has put on the stack itself.  Both arms of a branch are blocks,
start with none and must end with none.  A return hands back the one word that its block has, so
code behind a return is scanned as strictly as any other.
-/
import ClassLang.Module
import Mathlib.Tactic.Common

namespace ClassLang

structure Height where
  /-- How many words the block has on the stack. -/
  words : Nat
  /-- Whether the block has come past a return. -/
  ended : Bool
deriving Repr, DecidableEq

namespace Instr

def pops : Instr → Nat
  | .const _ | .localGet _ | .globalGet _ | .nop => 0
  | .localSet _ | .globalSet _ | .load | .branch _ _ | .ret => 1
  | .add | .sub | .mul | .divS | .remS | .xor | .store => 2
  | .eq | .ne | .gtS | .ltS | .geS | .leS => 2
  | .call _ params _ => params

def pushes : Instr → Nat
  | .const _ | .localGet _ | .globalGet _ | .load => 1
  | .add | .sub | .mul | .divS | .remS | .xor => 1
  | .eq | .ne | .gtS | .ltS | .geS | .leS => 1
  | .localSet _ | .globalSet _ | .store | .branch _ _ | .ret | .nop => 0
  | .call _ _ returns => if returns then 1 else 0

def isRet : Instr → Bool
  | .ret => true
  | _ => false

/-- Whether control always goes on with the next instruction, and through no other code. -/
def isPlain : Instr → Bool
  | .branch _ _ | .ret => false
  | _ => true

theorem stackEffect_eq (i : Instr) : i.stackEffect = .ofNat i.pushes - .ofNat i.pops := by
  cases i with
  | const _ | localGet _ | globalGet _ => exact (Int32.sub_zero 1).symm
  | call _ params returns => cases returns <;> rfl
  | _ => rfl

end Instr

def Height.after (h : Height) (i : Instr) : Height :=
  { words := h.words - i.pops + i.pushes, ended := h.ended || i.isRet }

/-- The height at the start of a block. -/
def Height.start : Height := ⟨0, false⟩

mutual

/-- The height behind some code of a function that has a result or not.  There is none if an
instruction does not find what it needs. -/
def Code.scan (result : Bool) (h : Height) : List Instr → Option Height
  | [] => some h
  | i :: rest =>
    if i.pops ≤ h.words && i.fits result h.words then Code.scan result (h.after i) rest else none
termination_by structural code => code

/-- What an instruction needs besides its operands, on a stack of so many words. -/
def Instr.fits (result : Bool) (words : Nat) : Instr → Bool
  | .branch yes no =>
    (Code.scan result .start yes).any (·.words = 0) && Code.alternativeFits result no
  | .ret => result && words = 1
  | _ => true
termination_by structural i => i

def Code.alternativeFits (result : Bool) : Option (List Instr) → Bool
  | none => true
  | some code => (Code.scan result .start code).any (·.words = 0)
termination_by structural no => no

end

/-- A function without a result ends with an empty stack; one with a result has returned by then. -/
def Func.StackValid (f : Func) : Prop :=
  ∃ h, Code.scan f.result .start f.body = some h ∧ h.words = 0 ∧ (f.result = true → h.ended = true)

namespace Code

theorem scan_append {result : Bool} {h : Height} {first second : Code} :
    scan result h (first ++ second) = (scan result h first).bind (scan result · second) := by
  induction first generalizing h with
  | nil => rfl
  | cons i rest ih =>
    rw [List.cons_append, scan, scan, ih]
    split <;> rfl

/-- Where a scan gets to is where the effects of the instructions lead. -/
theorem netEffect_of_scan {result : Bool} {h h' : Height} {code : Code}
    (scanned : scan result h code = some h') :
    code.netEffect = .ofNat h'.words - .ofNat h.words := by
  suffices ∀ start : Int32, code.foldl (fun height i => height + i.stackEffect) start =
      start + (.ofNat h'.words - .ofNat h.words) by
    rw [netEffect, this, Int32.zero_add]
  induction code generalizing h with
  | nil =>
    intro start
    cases scanned
    rw [Int32.sub_self, Int32.add_zero]
    rfl
  | cons i rest ih =>
    intro start
    rw [scan] at scanned
    split at scanned
    · next enough =>
      rw [Bool.and_eq_true, decide_eq_true_eq] at enough
      have after : Int32.ofNat (h.after i).words =
          .ofNat h.words - .ofNat i.pops + .ofNat i.pushes := by
        rw [Height.after, Int32.ofNat_add, Int32.ofNat_sub _ _ enough.1]
      rw [List.foldl_cons, ih scanned, after, Instr.stackEffect_eq]
      grind
    · cases scanned

/-! ## Code that leaves alone what lies below -/

/-- Wherever the code stands, it takes the topmost `n` words and leaves `m` in their place, without
ever looking further down. -/
def Lifts (code : Code) (n m : Nat) : Prop :=
  ∀ result words ended, scan result ⟨words + n, ended⟩ code = some ⟨words + m, ended⟩

namespace Lifts

theorem nil (n : Nat) : Lifts [] n n := fun _ _ _ => rfl

theorem append {first second : Code} {n m k : Nat} (h : Lifts first n m) (h' : Lifts second m k) :
    Lifts (first ++ second) n k := by
  intro result words ended
  rw [scan_append, h result words ended]
  exact h' result words ended

/-- Words below those that the code takes stay where they are. -/
theorem below {code : Code} {n m : Nat} (h : Lifts code n m) (extra : Nat) :
    Lifts code (extra + n) (extra + m) := by
  intro result words ended
  rw [← Nat.add_assoc, ← Nat.add_assoc]
  exact h result (words + extra) ended

/-- Instructions other than branches and returns need nothing but their operands. -/
theorem instr {i : Instr} (plain : i.isPlain = true) : Lifts [i] i.pops i.pushes := by
  have fits : ∀ result words, i.fits result words = true := by
    intro result words
    cases i with
    | branch | ret => cases plain
    | _ => rfl
  have notRet : i.isRet = false := by
    cases i with
    | ret => cases plain
    | _ => rfl
  intro result words ended
  have enough : i.pops ≤ words + i.pops := Nat.le_add_left _ _
  simp only [scan, enough, fits, decide_true, Bool.and_self, if_true, Height.after,
    Nat.add_sub_cancel, notRet, Bool.or_false]

theorem netEffect {code : Code} {n m : Nat} (h : Lifts code n m) :
    code.netEffect = .ofNat m - .ofNat n := by
  have scanned := h false 0 false
  rw [Nat.zero_add, Nat.zero_add] at scanned
  exact netEffect_of_scan scanned

end Lifts

/-- What a block of code as a whole must do, be it that it returns somewhere: start and end with no
words on the stack. -/
def Settles (code : Code) (result : Bool) : Prop :=
  ∀ ended, ∃ ended', scan result ⟨0, ended⟩ code = some ⟨0, ended'⟩

namespace Settles

variable {result : Bool}

theorem of_lifts {code : Code} (h : Lifts code 0 0) : Settles code result :=
  fun ended => ⟨ended, h result 0 ended⟩

theorem append {first second : Code} (h : Settles first result) (h' : Settles second result) :
    Settles (first ++ second) result := by
  intro ended
  obtain ⟨middle, first⟩ := h ended
  obtain ⟨ended', second⟩ := h' middle
  exact ⟨ended', by rw [scan_append, first]; exact second⟩

theorem netEffect {code : Code} (h : Settles code result) : code.netEffect = 0 := by
  obtain ⟨ended', scanned⟩ := h false
  rw [netEffect_of_scan scanned, Int32.sub_self]

theorem any_words {code : Code} (h : Settles code result) :
    (scan result .start code).any (·.words = 0) = true := by
  obtain ⟨ended', scanned⟩ := h false
  rw [Height.start, scanned]
  rfl

/-- A branch on a condition whose arms settle. -/
theorem branch {test yes : Code} {no : Option Code} (htest : Lifts test 0 1)
    (hyes : Settles yes result) (hno : ∀ code ∈ no, Settles code result) :
    Settles (test ++ [Instr.branch yes no]) result := by
  have fits : (Instr.branch yes no).fits result 1 = true := by
    cases no with
    | none => simp only [Instr.fits, alternativeFits, hyes.any_words, Bool.and_self]
    | some code =>
      simp only [Instr.fits, alternativeFits, hyes.any_words, (hno code rfl).any_words,
        Bool.and_self]
  intro ended
  refine ⟨ended, ?_⟩
  rw [scan_append, htest result 0 ended, Option.bind_some, scan, fits]
  simp [scan, Instr.pops, Instr.pushes, Instr.isRet, Height.after]

/-- A return at the end of code that leaves one word. -/
theorem scan_ret {code : Code} (h : Lifts code 0 1) (ended : Bool) :
    scan true ⟨0, ended⟩ (code ++ [Instr.ret]) = some ⟨0, true⟩ := by
  rw [scan_append, h true 0 ended, Option.bind_some]
  simp [scan, Instr.fits, Instr.pops, Instr.pushes, Instr.isRet, Height.after]

end Settles

end Code
end ClassLang
