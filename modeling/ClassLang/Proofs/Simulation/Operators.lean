/-
Operators: the instructions of each compute what the evaluator does.

Truth values are words too, so `not` is an exclusive or, and references are compared as addresses.
-/
import ClassLang.Proofs.Simulation.Storage

namespace ClassLang

open Machine (Frame Outcome Reaches State bit divS remS)

/-! ## Division -/

theorem tdiv_minValue : Int32.minValue.toInt.tdiv (-1 : Int32).toInt = 2 ^ 31 := by decide

/-- The evaluator divides exactly where the machine does. -/
theorem quotient_eq (a b : Int32) (w : World) :
    quotient a b w = match divS a b with
      | some q => .ok (.int q) w
      | none => .error .fault w := by
  by_cases trapped : b = 0 ∨ a = Int32.minValue ∧ b = -1
  · have faults : b = 0 ∨ a.toInt.tdiv b.toInt < -2 ^ 31 ∨ 2 ^ 31 ≤ a.toInt.tdiv b.toInt := by
      rcases trapped with zero | ⟨rfl, rfl⟩
      · exact Or.inl zero
      · rw [tdiv_minValue]
        exact Or.inr (Or.inr (Int.le_refl _))
    rw [divS, if_pos trapped, quotient]
    dsimp only
    rw [if_pos faults]
    rfl
  · have exact_div : (a / b).toInt = a.toInt.tdiv b.toInt := by
      by_cases least : a = Int32.minValue
      · have other : b ≠ -1 := fun eq => trapped (Or.inr ⟨least, eq⟩)
        exact Int32.toInt_div_of_ne_right a b other
      · exact Int32.toInt_div_of_ne_left a b least
    have below := (a / b).toInt_lt
    have above := (a / b).le_toInt
    have divides : ¬(b = 0 ∨ (a / b).toInt < -2 ^ 31 ∨ 2 ^ 31 ≤ (a / b).toInt) := by
      intro faults
      rcases faults with zero | faults
      · exact trapped (Or.inl zero)
      · omega
    rw [divS, if_neg trapped, quotient]
    dsimp only
    rw [← exact_div, if_neg divides, Int32.ofInt_toInt]
    rfl

theorem remainder_eq (a b : Int32) (w : World) :
    remainder a b w = match remS a b with
      | some r => .ok (.int r) w
      | none => .error .fault w := by
  by_cases zero : b = 0
  · rw [remS, if_pos zero, remainder, if_pos zero]
    rfl
  · rw [remS, if_neg zero, remainder, if_neg zero, ← Int32.toInt_mod, Int32.ofInt_toInt]
    rfl

/-! ## Unary operators -/

theorem xor_one (b : Bool) : bit b ^^^ 1 = bit !b := by
  cases b <;> decide

theorem mul_neg_one (n : Int32) : n * -1 = -n := by
  rw [Int32.mul_neg, Int32.mul_one]

namespace Setting

variable {S : Setting} {act : Activation} {code : Code} {stack : List Int32} {w : World}
  {s : State}

theorem follows_unOp {op : UnOp} {v : Value} (fits : v.Fits w.classes op.operandTy)
    (start : S.At act (op.code ++ code) (w.word S.program v :: stack) w s) :
    S.Follows (op.eval v w) (S.Pushed act code stack op.operandTy) s := by
  obtain ⟨locals, store, rfl, holds, held⟩ := start
  cases op with
  | not =>
    obtain ⟨b, rfl⟩ := fits.eq_bool
    refine fun _ => .const (.binary rfl rfl (.here ⟨.bool !b, locals, store, ?_, holds, held⟩))
    rw [World.word, World.word, xor_one]
    rfl
  | neg =>
    obtain ⟨n, rfl⟩ := fits.eq_int
    refine fun _ => .const (.binary rfl rfl (.here ⟨.int (-n), locals, store, ?_, holds, held⟩))
    rw [World.word, World.word, mul_neg_one]
    rfl
  | plus =>
    obtain ⟨n, rfl⟩ := fits.eq_int
    exact fun _ => .here ⟨.int n, locals, store, rfl, holds, held⟩

/-! ## Binary operators -/

/-- An instruction that makes a word of two. -/
theorem follows_binary {i : Instr} {op : Int32 → Int32 → Option Int32}
    (known : Machine.binary? i = some op) {a b : Int32} {v : Value} {ty : Ty}
    (fits : v.Fits w.classes ty) (value : op a b = some (w.word S.program v))
    (start : S.At act (i :: code) (b :: a :: stack) w s) :
    S.Follows (.ok v w) (S.Pushed act code stack ty) s := by
  obtain ⟨locals, store, rfl, holds, held⟩ := start
  exact fun _ => .binary known value (.here ⟨fits, locals, store, rfl, holds, held⟩)

theorem follows_fault {i : Instr} {op : Int32 → Int32 → Option Int32}
    (known : Machine.binary? i = some op) {a b : Int32} (value : op a b = none)
    {Q : Value → World → State → Prop} (start : S.At act (i :: code) (b :: a :: stack) w s) :
    S.Follows (.error .fault w) Q s := by
  obtain ⟨locals, store, rfl, holds, held⟩ := start
  exact fun _ => .binary_trap known value held

theorem bit_eq_bit (a b : Bool) : bit (decide (bit a = bit b)) = bit (decide (a = b)) := by
  cases a <;> cases b <;> rfl

theorem bit_ne_bit (a b : Bool) : bit (decide (bit a ≠ bit b)) = bit (decide (a ≠ b)) := by
  cases a <;> cases b <;> rfl

/-- References are the same if their words are. -/
theorem word_eq_word {store : Machine.Store} (held : w.HeldBy S.program S.limit store)
    {a b : Value} {lhs rhs : Ty} (fitsA : a.Fits w.classes lhs) (fitsB : b.Fits w.classes rhs)
    (left : lhs.isReference = true) (right : rhs.isReference = true) :
    w.word S.program a = w.word S.program b ↔ a = b := by
  constructor
  · intro same
    exact World.word_inj_of_isReference (held.fielded S.checked S.fielded)
      (Nat.le_trans held.fits S.limit_le) (fitsA.isReference left) (fitsB.isReference right)
      fitsA.made fitsB.made same
  · exact congrArg _

theorem follows_binOp {op : BinOp} {a b : Value} {lhs rhs ty : Ty} (types : op.Types lhs rhs ty)
    (fitsA : a.Fits w.classes lhs) (fitsB : b.Fits w.classes rhs)
    (start : S.At act (op.instr :: code) (w.word S.program b :: w.word S.program a :: stack) w s) :
    S.Follows (op.eval a b w) (S.Pushed act code stack ty) s := by
  cases types with
  | arithmetic h =>
    obtain ⟨n, rfl⟩ := fitsA.eq_int
    obtain ⟨k, rfl⟩ := fitsB.eq_int
    cases op with
    | add => exact follows_binary rfl (.int (n + k)) rfl start
    | sub => exact follows_binary rfl (.int (n - k)) rfl start
    | mul => exact follows_binary rfl (.int (n * k)) rfl start
    | floorDiv =>
      show S.Follows (quotient n k w) _ s
      rw [quotient_eq]
      cases value : divS n k with
      | some q => exact follows_binary rfl (.int q) value start
      | none => exact follows_fault rfl value start
    | mod =>
      show S.Follows (remainder n k w) _ s
      rw [remainder_eq]
      cases value : remS n k with
      | some q => exact follows_binary rfl (.int q) value start
      | none => exact follows_fault rfl value start
    | _ => cases h
  | compare h notIs =>
    obtain ⟨n, rfl⟩ := fitsA.eq_int
    obtain ⟨k, rfl⟩ := fitsB.eq_int
    cases op with
    | eq | ne | lt | le | gt | ge => exact follows_binary rfl (.bool _) rfl start
    | is => exact absurd rfl notIs
    | _ => cases h
  | eq =>
    obtain ⟨x, rfl⟩ := fitsA.eq_bool
    obtain ⟨y, rfl⟩ := fitsB.eq_bool
    exact follows_binary rfl (.bool (x = y)) (congrArg some (bit_eq_bit x y)) start
  | ne =>
    obtain ⟨x, rfl⟩ := fitsA.eq_bool
    obtain ⟨y, rfl⟩ := fitsB.eq_bool
    exact follows_binary rfl (.bool (x ≠ y)) (congrArg some (bit_ne_bit x y)) start
  | identity left right =>
    obtain ⟨locals, store, rfl, holds, held⟩ := start
    have references : (a.isReference && b.isReference) = true := by
      rw [fitsA.isReference left, fitsB.isReference right]
      rfl
    have run : BinOp.eval .is a b w = .ok (.bool (a = b)) w := by
      rw [BinOp.eval, if_pos references]
      rfl
    have same : decide (w.word S.program a = w.word S.program b) = decide (a = b) :=
      decide_eq_decide.2 (word_eq_word held fitsA fitsB left right)
    rw [run]
    exact follows_binary rfl (.bool (a = b)) (congrArg (some ∘ bit) same)
      ⟨locals, store, rfl, holds, held⟩

end Setting
end ClassLang
