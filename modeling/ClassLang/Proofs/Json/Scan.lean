/-
What the scanner makes of the words, numbers and strings that are written.

A word is complete only when a character follows that cannot go on with it, so what is said of a word
is said of it in front of text that starts otherwise.
-/
import ClassLang.Json.Token
import ClassLang.Json.Write
import Mathlib.Data.List.TakeDrop
import Mathlib.Data.List.TakeWhile

namespace ClassLang
namespace Json

variable {n : Nat} {c : Char} {cs read : List Char} {tokens : List Token} {token : Token}

/-! ## Numbers -/

theorem le_ofDigitChars (cs : List Char) (n : Nat) : n ≤ Nat.ofDigitChars 10 cs n := by
  rw [Nat.ofDigitChars_eq_ofDigitChars_zero]
  have := Nat.le_mul_of_pos_left n (Nat.pow_pos (n := cs.length) (show 0 < 10 by decide))
  omega

/-- All digits are taken of a number that stays below the limit. -/
theorem appendDigits_eq (below : Nat.ofDigitChars 10 cs n < significandLimit) :
    appendDigits n cs = (Nat.ofDigitChars 10 cs n, cs.length) := by
  induction cs generalizing n with
  | nil => simp [appendDigits]
  | cons c cs ih =>
    rw [Nat.ofDigitChars_cons] at below ⊢
    have longer := Nat.lt_of_le_of_lt (le_ofDigitChars cs _) below
    rw [appendDigits]
    simp only [if_pos longer, ih below, List.length_cons]

theorem isDigit_of_mem_toDigits (mem : c ∈ Nat.toDigits 10 n) : c.isDigit :=
  Nat.isDigit_of_mem_toDigits (by decide) (by decide) mem

theorem digits?_toDigits (n : Nat) :
    digits? (Nat.toDigits 10 n) = some (Nat.toDigits 10 n, []) := by
  have digits : ∀ c ∈ Nat.toDigits 10 n, c.isDigit := fun c mem => isDigit_of_mem_toDigits mem
  rw [digits?, List.span_eq_takeWhile_dropWhile, List.takeWhile_eq_self_iff.2 digits,
    List.dropWhile_eq_nil_iff.2 digits]
  split
  · next none => exact absurd (congrArg Prod.fst none) Nat.toDigits_ne_nil
  · rfl

/-- Only zero is written with a zero in front. -/
theorem eq_zero_of_head?_toDigits (zero : (Nat.toDigits 10 n).head? = some '0') : n = 0 := by
  induction n using Nat.strongRecOn with
  | ind n ih =>
    by_cases small : n < 10
    · rw [Nat.toDigits_of_lt_base small] at zero
      have : ∀ d < 10, [Nat.digitChar d].head? = some '0' → d = 0 := by decide
      exact this n small zero
    · rw [Nat.toDigits_of_base_le (by decide) (Nat.le_of_not_lt small), List.head?_append,
        Option.or_of_isSome (List.isSome_head?.2 Nat.toDigits_ne_nil)] at zero
      have := ih (n / 10) (by omega) zero
      omega

/-- An integer in decimal digits. -/
def integerText (negative : Bool) (n : Nat) : List Char :=
  (if negative then ['-'] else []) ++ Nat.toDigits 10 n

theorem isInteger_below {negative : Bool} (fits : isInteger negative n) : n < significandLimit := by
  cases negative with
  | true =>
    have : 0 < n ∧ n ≤ 2 ^ 63 := by simpa [isInteger] using fits
    have : significandLimit = 2 ^ 64 := rfl
    omega
  | false => simpa [isInteger] using fits

theorem toDigits_ne_minus (n : Nat) (cs : List Char) : Nat.toDigits 10 n ≠ '-' :: cs := by
  intro same
  have digit : '-' ∈ Nat.toDigits 10 n := same ▸ List.mem_cons_self
  exact absurd (isDigit_of_mem_toDigits digit) (by decide)

theorem ofNumber?_integerText {negative : Bool} (fits : isInteger negative n) :
    ofNumber? (integerText negative n) = some (.int (if negative then -(n : Int) else n)) := by
  have taken : appendDigits 0 (Nat.toDigits 10 n) = (n, (Nat.toDigits 10 n).length) := by
    have below := isInteger_below fits
    rw [← Nat.ofDigitChars_ten_toDigits (n := n)] at below
    rw [appendDigits_eq below, Nat.ofDigitChars_ten_toDigits]
  have plain : ¬ (1 < (Nat.toDigits 10 n).length ∧ (Nat.toDigits 10 n).head? = some '0') := by
    intro ⟨long, zero⟩
    rw [eq_zero_of_head?_toDigits zero] at long
    simp at long
  cases negative with
  | true =>
    show ofNumber? ('-' :: Nat.toDigits 10 n) = _
    rw [ofNumber?]
    simp [digits?_toDigits, fraction?, exponent?, taken, fits, plain]
  | false =>
    show ofNumber? (Nat.toDigits 10 n) = _
    rw [ofNumber?]
    · simp [digits?_toDigits, fraction?, exponent?, taken, fits, plain]
    · exact toDigits_ne_minus n

theorem toList_toString (value : Int) :
    (toString value).toList = integerText (value < 0) value.natAbs := by
  rw [Int.toString_eq_repr, Int.repr_eq_if, integerText]
  by_cases negative : value < 0
  · have magnitude : (-value).toNat = value.natAbs := by omega
    simp [negative, Int.not_le.2 negative, magnitude]
  · have magnitude : value.toNat = value.natAbs := by omega
    simp [negative, Int.not_lt.1 negative, magnitude]

/-- Whether an integer has 64 bits, with a sign or without one. -/
def isWord64 (value : Int) : Bool := isInteger (value < 0) value.natAbs

theorem isWordChar_of_isDigit (digit : c.isDigit) : isWordChar c := by
  simp [isWordChar, Char.isAlphanum, digit]

theorem all_isWordChar_toString (value : Int) : (toString value).toList.all isWordChar := by
  rw [List.all_eq_true]
  intro c mem
  rw [toList_toString, integerText, List.mem_append] at mem
  rcases mem with sign | digit
  · have : c = '-' := by
      split at sign
      · exact List.mem_singleton.1 sign
      · cases sign
    rw [this]
    rfl
  · exact isWordChar_of_isDigit (isDigit_of_mem_toDigits digit)

theorem ofWord?_toString {value : Int} (fits : isWord64 value) :
    Token.ofWord? (toString value).toList = some (.scalar (.int value)) := by
  have number : ofNumber? (toString value).toList = some (.int value) := by
    have signed : (if decide (value < 0) then -(value.natAbs : Int) else value.natAbs) = value := by
      by_cases negative : value < 0
      · rw [if_pos (decide_eq_true negative)]
        omega
      · rw [if_neg (mt of_decide_eq_true negative)]
        omega
    rw [toList_toString, ofNumber?_integerText fits, signed]
  have other : ∀ word ∈ ["null".toList, "true".toList, "false".toList],
      (toString value).toList ≠ word := by
    have unread : ∀ word ∈ ["null".toList, "true".toList, "false".toList],
        (ofNumber? word).isNone := by decide
    intro word mem same
    have none := unread word mem
    rw [← same, number] at none
    cases none
  rw [Token.ofWord?, if_neg (other _ (by simp)), if_neg (other _ (by simp)),
    if_neg (other _ (by simp)), number]
  rfl

/-! ## From one token to the next -/

/-- The tokens of a text, if the scanner is already somewhere in it and has some of them, which it
keeps last first. -/
def scanFrom? (scan : Scan) (tokens : List Token) (cs : List Char) : Option (List Token) := do
  match ← cs.foldlM scanStep (scan, tokens) with
  | (.between, tokens) => return tokens.reverse
  | (.word read, tokens) => do
    let word ← Token.ofWord? read.reverse
    return (word :: tokens).reverse
  | _ => none

theorem tokens?_eq (cs : List Char) : tokens? cs = scanFrom? .between [] cs := rfl

theorem scanFrom?_cons (scan : Scan) (tokens : List Token) (c : Char) (cs : List Char) :
    scanFrom? scan tokens (c :: cs) =
      (scanStep (scan, tokens) c).bind fun state => scanFrom? state.1 state.2 cs := by
  rw [scanFrom?, List.foldlM_cons]
  cases scanStep (scan, tokens) c <;> rfl

theorem scanFrom?_of_step {scan next : Scan} {made : List Token}
    (step : scanStep (scan, tokens) c = some (next, made)) (cs : List Char) :
    scanFrom? scan tokens (c :: cs) = scanFrom? next made cs := by
  rw [scanFrom?_cons, step]
  rfl

/-- One character between tokens that is a token itself, or none. -/
theorem scanFrom?_mark {token : Option Token} (mark : scanBetween c = some (.between, token))
    (cs : List Char) :
    scanFrom? .between tokens (c :: cs) = scanFrom? .between (token.toList ++ tokens) cs := by
  refine scanFrom?_of_step ?_ cs
  rw [scanStep, mark]
  rfl

theorem scanFrom?_newLine (level : Nat) (cs : List Char) :
    scanFrom? .between tokens ((newLine level).toList ++ cs) = scanFrom? .between tokens cs := by
  have blanks : ∀ n, scanFrom? .between tokens (List.replicate n ' ' ++ cs) =
      scanFrom? .between tokens cs := by
    intro n
    induction n with
    | zero => rfl
    | succ n ih =>
      rw [List.replicate_succ, List.cons_append, scanFrom?_mark rfl]
      exact ih
  simp only [newLine, String.toList_append, String.toList_ofList]
  show scanFrom? .between tokens ('\n' :: (List.replicate (2 * level) ' ' ++ cs)) = _
  rw [scanFrom?_mark rfl]
  exact blanks (2 * level)

/-! ## Words -/

/-- A text that does not go on with a word before it. -/
def EndsWord (cs : List Char) : Prop := ∀ c ∈ cs.head?, isWordChar c = false

theorem endsWord_nil : EndsWord [] := nofun

theorem endsWord_cons : EndsWord (c :: cs) ↔ isWordChar c = false := by
  simp [EndsWord]

theorem ne_of_isWordChar {d : Char} (outside : isWordChar d = false) (inWord : isWordChar c) :
    c ≠ d := by
  intro same
  rw [same, outside] at inWord
  cases inWord

theorem scanBetween_of_isWordChar (inWord : isWordChar c) :
    scanBetween c = some (.word [c], none) := by
  have blank : isBlank c = false := by
    simp [isBlank, ne_of_isWordChar (d := ' ') rfl inWord, ne_of_isWordChar (d := '\t') rfl inWord,
      ne_of_isWordChar (d := '\n') rfl inWord, ne_of_isWordChar (d := '\r') rfl inWord]
  rw [scanBetween]
  · simp [blank, inWord]
  all_goals exact ne_of_isWordChar rfl inWord

theorem scanFrom?_within_word (chars : ∀ c ∈ cs, isWordChar c) (rest : List Char) :
    scanFrom? (.word read) tokens (cs ++ rest) =
      scanFrom? (.word (cs.reverse ++ read)) tokens rest := by
  induction cs generalizing read with
  | nil => rfl
  | cons c cs ih =>
    have first : scanStep (.word read, tokens) c = some (.word (c :: read), tokens) := by
      rw [scanStep, if_pos (chars c List.mem_cons_self)]
    rw [List.cons_append, scanFrom?_of_step first,
      ih fun c mem => chars c (List.mem_cons_of_mem _ mem)]
    simp

theorem scanFrom?_after_word (word : Token.ofWord? read.reverse = some token)
    (ends : EndsWord cs) :
    scanFrom? (.word read) tokens cs = scanFrom? .between (token :: tokens) cs := by
  cases cs with
  | nil => simp [scanFrom?, word]
  | cons c cs =>
    rw [endsWord_cons] at ends
    rw [scanFrom?_cons, scanFrom?_cons]
    simp [scanStep, ends, word]

theorem scanFrom?_word (cs : List Char) (chars : cs.all isWordChar)
    (word : Token.ofWord? cs = some token) {rest : List Char} (ends : EndsWord rest) :
    scanFrom? .between tokens (cs ++ rest) = scanFrom? .between (token :: tokens) rest := by
  cases cs with
  | nil => exact absurd word (by simp [Token.ofWord?, ofNumber?, digits?])
  | cons c cs =>
    obtain ⟨start, chars⟩ := List.forall_mem_cons.1 (List.all_eq_true.1 chars)
    have first : scanStep (.between, tokens) c = some (.word [c], tokens) := by
      rw [scanStep, scanBetween_of_isWordChar start]
      rfl
    rw [List.cons_append, scanFrom?_of_step first, scanFrom?_within_word chars]
    exact scanFrom?_after_word (by simpa using word) ends

/-! ## Strings -/

theorem hexValue?_digitChar : ∀ d < 16, hexValue? (Nat.digitChar d) = some d := by
  decide

theorem toList_hex_one (small : n < 0x10) : (Text.hex n).toList = [Nat.digitChar n] := by
  rw [Text.hex, String.toList_ofList, Nat.toDigits_of_lt_base small]

theorem toList_hex_two (least : 0x10 ≤ n) (most : n < 0x100) :
    (Text.hex n).toList = [Nat.digitChar (n / 16), Nat.digitChar (n % 16)] := by
  rw [Text.hex, String.toList_ofList, Nat.toDigits_of_base_le (by decide) least,
    Nat.toDigits_of_lt_base (by omega)]
  rfl

theorem scanStep_digit {high : Option Nat} {d missing value : Nat} (digit : hexValue? c = some d)
    (more : 1 < missing) :
    scanStep (.code read high missing value, tokens) c =
      some (.code read high (missing - 1) (16 * value + d), tokens) := by
  simp [scanStep, digit, more]

/-- The last of the four digits ends an escape, if the code is not half of a pair. -/
theorem scanStep_last_digit {d value : Nat} (digit : hexValue? c = some d)
    (whole : 16 * value + d < 0xd800) :
    scanStep (.code read none 1 value, tokens) c =
      some (.string (Char.ofNat (16 * value + d) :: read), tokens) := by
  have high : isHighHalf (16 * value + d) = false := by simp [isHighHalf]; omega
  have low : isLowHalf (16 * value + d) = false := by simp [isLowHalf]; omega
  simp [scanStep, digit, endCode, high, low]

theorem scanFrom?_code (small : c.toNat < 0x100) (rest : List Char) :
    scanFrom? (.string read) tokens ("\\u00".toList ++
      [Nat.digitChar (c.toNat / 16), Nat.digitChar (c.toNat % 16)] ++ rest) =
      scanFrom? (.string (c :: read)) tokens rest := by
  have high := hexValue?_digitChar (c.toNat / 16) (by omega)
  have low := hexValue?_digitChar (c.toNat % 16) (by omega)
  have value : 16 * (c.toNat / 16) + c.toNat % 16 = c.toNat := by omega
  show scanFrom? (.code read none 2 0) tokens
    (Nat.digitChar (c.toNat / 16) :: Nat.digitChar (c.toNat % 16) :: rest) = _
  rw [scanFrom?_of_step (scanStep_digit high (by decide)), Nat.mul_zero, Nat.zero_add,
    scanFrom?_of_step (scanStep_last_digit low (by omega)), value, Char.ofNat_toNat]

/-- A character within a string, however it is written. -/
theorem scanFrom?_escapedChar (c : Char) (rest : List Char) :
    scanFrom? (.string read) tokens ((escapedChar c).toList ++ rest) =
      scanFrom? (.string (c :: read)) tokens rest := by
  unfold escapedChar
  split
  -- the characters with an escape of their own are left for the end, where scanning just runs
  case h_8 quote backslash _ _ _ _ _ =>
    by_cases one : c.toNat < 0x10
    · -- the third zero stands for a digit that is not written
      have zero : c.toNat / 16 = 0 := by omega
      have same : c.toNat % 16 = c.toNat := by omega
      rw [if_pos one, String.toList_append, toList_hex_one one]
      have code := @scanFrom?_code c read tokens (by omega) rest
      rw [zero, same] at code
      exact code
    · by_cases two : c.toNat < 0x20
      · rw [if_neg one, if_pos two, String.toList_append,
          toList_hex_two (Nat.le_of_not_lt one) (by omega)]
        exact scanFrom?_code (by omega) rest
      · have step : scanStep (.string read, tokens) c = some (.string (c :: read), tokens) := by
          rw [scanStep, if_neg quote, if_neg backslash, if_neg two]
        rw [if_neg one, if_neg two, Char.toString, String.toList_singleton]
        exact scanFrom?_of_step step rest
  all_goals rfl

theorem scanFrom?_strText (s : String) (rest : List Char) :
    scanFrom? .between tokens ((strText s).toList ++ rest) =
      scanFrom? .between (.str s :: tokens) rest := by
  have chars : ∀ cs read, scanFrom? (.string read) tokens
      (cs.flatMap (fun c => (escapedChar c).toList) ++ '"' :: rest) =
        scanFrom? .between (.str (String.ofList (read.reverse ++ cs)) :: tokens) rest := by
    intro cs
    induction cs with
    | nil =>
      intro read
      rw [List.append_nil]
      exact scanFrom?_of_step rfl rest
    | cons c cs ih =>
      intro read
      rw [List.flatMap_cons, List.append_assoc, scanFrom?_escapedChar, ih]
      simp
  have body := chars s.toList []
  rw [List.reverse_nil, List.nil_append, String.ofList_toList] at body
  rw [← body, strText]
  simp only [String.toList_append, String.toList_join, List.flatMap_map, List.append_assoc]
  exact scanFrom?_of_step rfl _

end Json
end ClassLang
