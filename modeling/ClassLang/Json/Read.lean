/-
JSON values from their tokens.

The containers that are open form a stack, so nesting costs no recursion.
-/
import ClassLang.Json.Token

namespace ClassLang
namespace Json

/-- An open container that waits for a value.  What it holds already is kept last first. -/
inductive Frame where
  | items (held : List Json)
  | field (held : List (String × Json)) (name : String)

/-- What may come next. -/
inductive Next where
  | value
  | itemOrClose
  | nameOrClose
  | name (held : List (String × Json))
  | colon (held : List (String × Json)) (name : String)
  /-- A value is complete; what follows it is up to the container that it is in. -/
  | after (j : Json)

structure Reader where
  frames : List Frame
  next : Next

namespace Reader

/-- The first token of a value. -/
def begin? (frames : List Frame) : Token → Option Reader
  | .scalar j => some ⟨frames, .after j⟩
  | .str s => some ⟨frames, .after (.str s)⟩
  | .openArr => some ⟨.items [] :: frames, .itemOrClose⟩
  | .openObj => some ⟨frames, .nameOrClose⟩
  | _ => none

/-- The token after a value. -/
def after? (j : Json) : List Frame → Token → Option Reader
  | .items held :: frames, .comma => some ⟨.items (j :: held) :: frames, .value⟩
  | .items held :: frames, .closeArr => some ⟨frames, .after (.arr (j :: held).reverse)⟩
  | .field held name :: frames, .comma => some ⟨frames, .name ((name, j) :: held)⟩
  | .field held name :: frames, .closeObj =>
    some ⟨frames, .after (.obj ((name, j) :: held).reverse)⟩
  | _, _ => none

def step (r : Reader) (token : Token) : Option Reader :=
  match r.next, token with
  | .value, token => begin? r.frames token
  | .itemOrClose, .closeArr => some ⟨r.frames.tail, .after (.arr [])⟩
  | .itemOrClose, token => begin? r.frames token
  | .nameOrClose, .closeObj => some ⟨r.frames, .after (.obj [])⟩
  | .nameOrClose, .str name => some ⟨r.frames, .colon [] name⟩
  | .name held, .str name => some ⟨r.frames, .colon held name⟩
  | .colon held name, .colon => some ⟨.field held name :: r.frames, .value⟩
  | .after j, token => after? j r.frames token
  | _, _ => none

end Reader

/-- The value that a text holds. -/
def read? (text : String) : Option Json := do
  let tokens ← tokens? text.toList
  match ← tokens.foldlM (Reader.step) ⟨[], .value⟩ with
  | ⟨[], .after j⟩ => return j
  | _ => none

end Json
end ClassLang
