/-
Reading the text of a value gives the value back.

The text is gone over twice.  The scanner makes tokens of it, and these are the same at every depth of
indentation; the reader makes the value of the tokens.
-/
import ClassLang.Json.Read
import ClassLang.Proofs.Json.Scan

namespace ClassLang
namespace Json

mutual

/-- The tokens that a value is written with. -/
def tokens : Json → List Token
  | .str s => [.str s]
  | .arr items => .openArr :: (itemTokens items ++ [.closeArr])
  | .obj fields => .openObj :: (fieldTokens fields ++ [.closeObj])
  | j => [.scalar j]
termination_by structural j => j

def itemTokens : List Json → List Token
  | [] => []
  | [j] => j.tokens
  | j :: rest => j.tokens ++ .comma :: itemTokens rest
termination_by structural js => js

def fieldTokens : List (String × Json) → List Token
  | [] => []
  | [(name, j)] => .str name :: .colon :: j.tokens
  | (name, j) :: rest => .str name :: .colon :: (j.tokens ++ .comma :: fieldTokens rest)
termination_by structural fields => fields

end

mutual

/-- Whether every number is an integer of 64 bits.  What is read of other numbers may be written
otherwise. -/
@[simp]
def isExact : Json → Bool
  | .int value => isWord64 value
  | .decimal _ => false
  | .arr items => itemsExact items
  | .obj fields => fieldsExact fields
  | _ => true
termination_by structural j => j

@[simp]
def itemsExact : List Json → Bool
  | [] => true
  | j :: rest => j.isExact && itemsExact rest
termination_by structural js => js

@[simp]
def fieldsExact : List (String × Json) → Bool
  | [] => true
  | (_, j) :: rest => j.isExact && fieldsExact rest
termination_by structural fields => fields

end

/-! ## From text to tokens -/

theorem endsWord_newLine (level : Nat) (rest : List Char) :
    EndsWord ((newLine level).toList ++ rest) := by
  simp only [newLine, String.toList_append]
  exact endsWord_cons.2 rfl

/-- The brackets around a list or an object that is not empty, and what is between them. -/
theorem scanFrom?_bracketed {opening closing : Char} {first last : Token} {inner : List Char}
    {held made : List Token} (opens : scanBetween opening = some (.between, some first))
    (closes : scanBetween closing = some (.between, some last))
    (between : ∀ {rest}, EndsWord rest → scanFrom? .between (first :: held) (inner ++ rest) =
      scanFrom? .between (made.reverse ++ first :: held) rest) (level : Nat) (rest : List Char) :
    scanFrom? .between held (opening :: (inner ++ ((newLine level).toList ++ closing :: rest))) =
      scanFrom? .between ((first :: (made ++ [last])).reverse ++ held) rest := by
  rw [scanFrom?_mark opens, Option.toList_some, List.singleton_append,
    between (endsWord_newLine level _), scanFrom?_newLine, scanFrom?_mark closes]
  simp

theorem scanFrom?_name (name : String) (held : List Token) (rest : List Char) :
    scanFrom? .between held ((strText name).toList ++ ':' :: ' ' :: rest) =
      scanFrom? .between (.colon :: .str name :: held) rest := by
  rw [scanFrom?_strText, scanFrom?_mark rfl, scanFrom?_mark rfl]
  rfl

mutual

/-- What follows must end a word, since the value may be one. -/
theorem scanFrom?_pretty (j : Json) (exact : j.isExact) (level : Nat) (held : List Token)
    {rest : List Char} (ends : EndsWord rest) :
    scanFrom? .between held ((j.pretty level).toList ++ rest) =
      scanFrom? .between (j.tokens.reverse ++ held) rest := by
  match j with
  | .null => exact scanFrom?_word "null".toList rfl rfl ends
  | .bool true => exact scanFrom?_word "true".toList rfl rfl ends
  | .bool false => exact scanFrom?_word "false".toList rfl rfl ends
  | .int value =>
    exact scanFrom?_word (toString value).toList (all_isWordChar_toString value)
      (ofWord?_toString exact) ends
  | .decimal _ => cases exact
  | .str s => exact scanFrom?_strText s rest
  | .arr [] =>
    rw [pretty]
    show scanFrom? .between held ('[' :: ']' :: rest) = _
    rw [scanFrom?_mark rfl, scanFrom?_mark rfl]
    rfl
  | .arr (item :: items) =>
    simp only [pretty, String.toList_append, String.reduceToList, List.append_assoc,
      List.cons_append, List.nil_append]
    exact scanFrom?_bracketed rfl rfl
      (scanFrom?_prettyItems (item :: items) exact (level + 1) (.openArr :: held)) level rest
  | .obj [] =>
    rw [pretty]
    show scanFrom? .between held ('\x7b' :: '\x7d' :: rest) = _
    rw [scanFrom?_mark rfl, scanFrom?_mark rfl]
    rfl
  | .obj (field :: fields) =>
    simp only [pretty, String.toList_append, String.reduceToList, List.append_assoc,
      List.cons_append, List.nil_append]
    exact scanFrom?_bracketed rfl rfl
      (scanFrom?_prettyFields (field :: fields) exact (level + 1) (.openObj :: held)) level rest

theorem scanFrom?_prettyItems (items : List Json) (exact : itemsExact items) (level : Nat)
    (held : List Token) {rest : List Char} (ends : EndsWord rest) :
    scanFrom? .between held ((prettyItems level items).toList ++ rest) =
      scanFrom? .between ((itemTokens items).reverse ++ held) rest := by
  match items with
  | [] => rfl
  | [j] =>
    have exact : j.isExact := by simpa [itemsExact] using exact
    simp only [prettyItems, String.toList_append, List.append_assoc]
    rw [scanFrom?_newLine, scanFrom?_pretty j exact level held ends, itemTokens]
  | j :: next :: items =>
    have ⟨first, others⟩ : j.isExact ∧ itemsExact (next :: items) := by
      simpa only [itemsExact, Bool.and_eq_true] using exact
    simp only [prettyItems, String.toList_append, String.reduceToList, List.append_assoc,
      List.cons_append, List.nil_append]
    rw [scanFrom?_newLine, scanFrom?_pretty j first level held (endsWord_cons.2 rfl),
      scanFrom?_mark rfl, scanFrom?_prettyItems (next :: items) others level _ ends]
    simp [itemTokens]

theorem scanFrom?_prettyFields (fields : List (String × Json)) (exact : fieldsExact fields)
    (level : Nat) (held : List Token) {rest : List Char} (ends : EndsWord rest) :
    scanFrom? .between held ((prettyFields level fields).toList ++ rest) =
      scanFrom? .between ((fieldTokens fields).reverse ++ held) rest := by
  match fields with
  | [] => rfl
  | [(name, j)] =>
    have exact : j.isExact := by simpa [fieldsExact] using exact
    simp only [prettyFields, String.toList_append, String.reduceToList, List.append_assoc,
      List.cons_append, List.nil_append]
    rw [scanFrom?_newLine, scanFrom?_name, scanFrom?_pretty j exact level _ ends]
    simp [fieldTokens]
  | (name, j) :: next :: fields =>
    have ⟨first, others⟩ : j.isExact ∧ fieldsExact (next :: fields) := by
      simpa only [fieldsExact, Bool.and_eq_true] using exact
    simp only [prettyFields, String.toList_append, String.reduceToList, List.append_assoc,
      List.cons_append, List.nil_append]
    rw [scanFrom?_newLine, scanFrom?_name,
      scanFrom?_pretty j first level _ (endsWord_cons.2 rfl), scanFrom?_mark rfl,
      scanFrom?_prettyFields (next :: fields) others level _ ends]
    simp [fieldTokens]

end

/-! ## From tokens to the value -/

mutual

/-- The containers around a value are not touched, so they can be any. -/
theorem foldlM_tokens (j : Json) (frames : List Frame) {next : Next}
    (start : next = .value ∨ next = .itemOrClose) :
    j.tokens.foldlM Reader.step ⟨frames, next⟩ = some ⟨frames, .after j⟩ := by
  match j with
  | .null | .bool _ | .int _ | .decimal _ | .str _ => rcases start with rfl | rfl <;> rfl
  | .arr items =>
    have opened : Reader.step ⟨frames, next⟩ .openArr =
        some ⟨.items [] :: frames, .itemOrClose⟩ := by
      rcases start with rfl | rfl <;> rfl
    rw [tokens, List.foldlM_cons, opened]
    match items with
    | [] => rfl
    | item :: items => exact foldlM_itemTokens (item :: items) nofun frames [] (Or.inr rfl)
  | .obj fields =>
    have opened : Reader.step ⟨frames, next⟩ .openObj = some ⟨frames, .nameOrClose⟩ := by
      rcases start with rfl | rfl <;> rfl
    rw [tokens, List.foldlM_cons, opened]
    match fields with
    | [] => rfl
    | field :: fields =>
      exact foldlM_fieldTokens (field :: fields) nofun frames [] (Or.inl ⟨rfl, rfl⟩)

/-- The items of a list and what closes it, after the items that are held. -/
theorem foldlM_itemTokens (items : List Json) (filled : items ≠ []) (frames : List Frame)
    (held : List Json) {next : Next} (start : next = .value ∨ next = .itemOrClose) :
    (itemTokens items ++ [Token.closeArr]).foldlM Reader.step ⟨.items held :: frames, next⟩ =
      some ⟨frames, .after (.arr (held.reverse ++ items))⟩ := by
  match items with
  | [] => exact absurd rfl filled
  | [j] =>
    rw [itemTokens, List.foldlM_append, foldlM_tokens j (.items held :: frames) start,
      ← List.reverse_cons]
    rfl
  | j :: other :: items =>
    have others := foldlM_itemTokens (other :: items) nofun frames (j :: held) (Or.inl rfl)
    rw [List.reverse_cons, List.append_assoc] at others
    simp only [itemTokens, List.append_assoc]
    rw [List.foldlM_append, foldlM_tokens j (.items held :: frames) start]
    exact others

/-- The fields of an object and what closes it, after the fields that are held. -/
theorem foldlM_fieldTokens (fields : List (String × Json)) (filled : fields ≠ [])
    (frames : List Frame) (held : List (String × Json)) {next : Next}
    (start : next = .nameOrClose ∧ held = [] ∨ next = .name held) :
    (fieldTokens fields ++ [Token.closeObj]).foldlM Reader.step ⟨frames, next⟩ =
      some ⟨frames, .after (.obj (held.reverse ++ fields))⟩ := by
  have named : ∀ name, Reader.step ⟨frames, next⟩ (.str name) =
      some ⟨frames, .colon held name⟩ := by
    rcases start with ⟨rfl, rfl⟩ | rfl <;> exact fun _ => rfl
  match fields with
  | [] => exact absurd rfl filled
  | [(name, j)] =>
    rw [fieldTokens, List.cons_append, List.foldlM_cons, named, ← List.reverse_cons]
    show (j.tokens ++ [Token.closeObj]).foldlM Reader.step ⟨.field held name :: frames, .value⟩ = _
    rw [List.foldlM_append, foldlM_tokens j (.field held name :: frames) (Or.inl rfl)]
    rfl
  | (name, j) :: other :: fields =>
    have others := foldlM_fieldTokens (other :: fields) nofun frames ((name, j) :: held)
      (Or.inr rfl)
    rw [List.reverse_cons, List.append_assoc] at others
    simp only [fieldTokens, List.cons_append, List.foldlM_cons, named, List.append_assoc]
    show (j.tokens ++ .comma :: (fieldTokens (other :: fields) ++ [Token.closeObj])).foldlM
      Reader.step ⟨.field held name :: frames, .value⟩ = _
    rw [List.foldlM_append, foldlM_tokens j (.field held name :: frames) (Or.inl rfl)]
    exact others

end

/-- A value whose numbers are integers of 64 bits is read back from its text. -/
theorem read?_pretty {j : Json} (exact : j.isExact) (level : Nat) :
    read? (j.pretty level) = some j := by
  have text : tokens? (j.pretty level).toList = some j.tokens := by
    rw [tokens?_eq, ← List.append_nil (j.pretty level).toList,
      scanFrom?_pretty j exact level [] endsWord_nil, List.append_nil]
    show some j.tokens.reverse.reverse = _
    rw [List.reverse_reverse]
  have value : j.tokens.foldlM Reader.step ⟨[], .value⟩ = some ⟨[], .after j⟩ :=
    foldlM_tokens j [] (Or.inl rfl)
  rw [read?, text]
  simp only [Option.bind_eq_bind, Option.bind_some, value]
  rfl

end Json
end ClassLang
