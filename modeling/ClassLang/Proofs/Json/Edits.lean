/-
What may change in the JSON of a program tree without changing what it says.

An object is looked at key by key, so the order of its fields is of no account.  The keys that are
looked at depend on the kind of the object and, where there are several forms of it, on its tag.  Of
fields with one name the first one counts.
-/
import ClassLang.Source.Json
import Mathlib.Data.List.Forall2

namespace ClassLang
namespace Json

/-- What a value in the JSON of a program tree stands for. -/
inductive Kind where
  | program
  | cls
  | method
  | body
  | varDef
  | param
  | stmt
  /-- An arm of an `if` chain that is not the first one.  It has no tag. -/
  | arm
  | lvalue
  | expr
  | literal
  /-- A type, an operator, a name or the value of a literal. -/
  | plain
  | list (item : Kind)

/-- A key that an object may have. -/
structure Key where
  name : String
  kind : Kind
  /-- What the object says if it does not have the key. -/
  default : Option Json

namespace Key

def required (name : String) (kind : Kind) : Key := ⟨name, kind, none⟩

def plain (name : String) : Key := required name .plain

def items (name : String) (kind : Kind) : Key := ⟨name, .list kind, some (.arr [])⟩

def orNull (name : String) (kind : Kind) : Key := ⟨name, kind, some .null⟩

end Key

def armKeys : List Key := [.orNull "condition" .expr, .items "body" .stmt, .orNull "else" .arm]

/-- The keys that an object of some kind may have.  The object of a type is not of such a kind: it
has its one key and no other. -/
def Kind.keys? (kind : Kind) (tag : Option String) : Option (List Key) :=
  match kind, tag with
  | .program, _ => some [.items "variables" .varDef, .items "classes" .cls, .items "body" .stmt]
  | .cls, _ => some [.plain "name", .items "fields" .varDef, .items "methods" .method]
  | .method, _ => some [.plain "name", .items "params" .param,
      ⟨"ret", .plain, some Ty.none.toJson⟩, .required "body" .body]
  | .body, _ => some [.items "definitions" .varDef, .items "statements" .stmt]
  | .varDef, _ => some [.plain "name", .plain "type", .required "value" .literal]
  | .param, _ => some [.plain "name", .plain "type"]
  | .stmt, some "assign" => some [.plain "tag", .required "lhs" .lvalue, .required "value" .expr]
  | .stmt, some "expr" => some [.plain "tag", .required "expr" .expr]
  | .stmt, some "return" => some [.plain "tag", .orNull "value" .expr]
  | .stmt, some "if" => some (.plain "tag" :: armKeys)
  | .stmt, some "pass" => some [.plain "tag"]
  | .arm, _ => some armKeys
  | .lvalue, some "var" => some [.plain "tag", .plain "name"]
  | .lvalue, some "field" => some [.plain "tag", .required "obj" .lvalue, .plain "name"]
  | .expr, some "literal" => some [.plain "tag", .required "value" .literal]
  | .expr, some "id" => some [.plain "tag", .plain "name"]
  | .expr, some "unary" => some [.plain "tag", .plain "op", .required "arg" .expr]
  | .expr, some "binary" =>
    some [.plain "tag", .plain "op", .required "lhs" .expr, .required "rhs" .expr]
  | .expr, some "paren" => some [.plain "tag", .required "arg" .expr]
  | .expr, some "call" => some [.plain "tag", .plain "name", .items "args" .expr]
  | .expr, some "method_call" =>
    some [.plain "tag", .required "obj" .expr, .plain "name", .items "args" .expr]
  | .expr, some "field_access" => some [.plain "tag", .required "obj" .expr, .plain "name"]
  | .literal, _ => some [.plain "tag", .plain "value"]
  | _, _ => none

mutual

/-- At any depth, keys may be left out that hold their default, and keys may be put in that objects
of the kind at hand do not know, with anything under them. -/
inductive Edits : Kind → Json → Json → Prop where
  | same (kind : Kind) (j : Json) : Edits kind j j
  | items {kind : Kind} {old new : List Json} (length : old.length = new.length)
      (each : ∀ {a b}, (a, b) ∈ old.zip new → Edits kind a b) :
      Edits (.list kind) (.arr old) (.arr new)
  | fields {kind : Kind} {old new : List (String × Json)} {keys : List Key}
      (shape : kind.keys? ((old.lookup "tag").bind str?) = some keys)
      (known : ∀ key ∈ keys, KeyEdits key (old.lookup key.name) (new.lookup key.name)) :
      Edits kind (.obj old) (.obj new)

/-- What there is under a known key, before and after. -/
inductive KeyEdits : Key → Option Json → Option Json → Prop where
  | kept {key : Key} {old new : Json} (edits : Edits key.kind old new) :
      KeyEdits key (some old) (some new)
  | omitted {key : Key} {old : Json} (empty : key.default = some old) : KeyEdits key (some old) none
  | absent {key : Key} : KeyEdits key none none

end

variable {kind : Kind} {key : Key} {name : String} {j value : Json} {keys : List Key}
  {old new fields : List (String × Json)} {found : Option Json}

theorem KeyEdits.same (key : Key) (found : Option Json) : KeyEdits key found found := by
  cases found with
  | none => exact .absent
  | some value => exact .kept (.same ..)

/-! ## Single edits -/

theorem lookup_filter_ne (fields : List (String × Json)) (name other : String) :
    (fields.filter fun field => field.1 ≠ name).lookup other =
      if other = name then none else fields.lookup other := by
  induction fields with
  | nil => simp
  | cons field fields ih => grind

/-- A key may be left out that holds its default. -/
theorem Edits.leave_out (shape : kind.keys? ((old.lookup "tag").bind str?) = some keys)
    (there : old.lookup name = some value)
    (empty : keys.Forall fun key => key.name = name → key.default = some value) :
    Edits kind (.obj old) (.obj (old.filter fun field => field.1 ≠ name)) := by
  refine .fields shape fun key mem => ?_
  rw [lookup_filter_ne]
  split
  · next same =>
    rw [same, there]
    exact .omitted (List.forall_iff_forall_mem.1 empty key mem same)
  · exact .same ..

/-- A key may be put in that is not known, with anything under it. -/
theorem Edits.put_in {before after : List (String × Json)}
    (shape : kind.keys? (((before ++ after).lookup "tag").bind str?) = some keys)
    (unknown : keys.Forall fun key => key.name ≠ name) (value : Json) :
    Edits kind (.obj (before ++ after)) (.obj (before ++ (name, value) :: after)) := by
  refine .fields shape fun key mem => ?_
  rw [List.lookup_append, List.lookup_append, List.lookup_cons,
    beq_false_of_ne (List.forall_iff_forall_mem.1 unknown key mem)]
  exact .same ..

theorem Edits.of_known (shape : kind.keys? ((old.lookup "tag").bind str?) = some keys)
    (known : keys.Forall fun key => KeyEdits key (old.lookup key.name) (new.lookup key.name)) :
    Edits kind (.obj old) (.obj new) :=
  .fields shape (List.forall_iff_forall_mem.1 known)

theorem Edits.of_items {old new : List Json} (each : List.Forall₂ (Edits kind) old new) :
    Edits (.list kind) (.arr old) (.arr new) :=
  .items (List.forall₂_iff_zip.1 each).1 (List.forall₂_iff_zip.1 each).2

/-! ## What an edit leaves -/

theorem Edits.known (edits : Edits kind (.obj old) j)
    (shape : kind.keys? ((old.lookup "tag").bind str?) = some keys) :
    ∃ new, j = .obj new ∧
      keys.Forall fun key => KeyEdits key (old.lookup key.name) (new.lookup key.name) := by
  cases edits with
  | same => exact ⟨old, rfl, List.forall_iff_forall_mem.2 fun key _ => .same key _⟩
  | @fields _ _ new keys' shape' known =>
    cases shape.symm.trans shape'
    exact ⟨new, rfl, List.forall_iff_forall_mem.2 known⟩

theorem Edits.eq_of_plain (edits : Edits .plain value j) : j = value := by
  cases edits with
  | same => rfl
  | fields shape => cases shape

theorem Edits.null_iff (edits : Edits kind value j) : j = .null ↔ value = .null := by
  cases edits with
  | same => rfl
  | items | fields => exact iff_of_false nofun nofun

theorem KeyEdits.eq_none (edits : KeyEdits key none found) : found = none := by
  cases edits
  rfl

theorem KeyEdits.plain (edits : KeyEdits (.plain name) (some value) found) :
    found = some value := by
  cases edits with
  | kept edits => rw [edits.eq_of_plain]
  | omitted empty => cases empty

theorem KeyEdits.required (edits : KeyEdits (.required name kind) (some value) found) :
    ∃ new, found = some new ∧ Edits kind value new := by
  cases edits with
  | kept edits => exact ⟨_, rfl, edits⟩
  | omitted empty => cases empty

theorem KeyEdits.items {old : List Json}
    (edits : KeyEdits (.items name kind) (some (.arr old)) found) :
    (found = none ∧ old = []) ∨
      ∃ new, found = some (.arr new) ∧ List.Forall₂ (Edits kind) old new := by
  cases edits with
  | kept edits =>
    cases edits with
    | same => exact Or.inr ⟨old, rfl, List.forall₂_same.2 fun _ _ => .same ..⟩
    | items length each => exact Or.inr ⟨_, rfl, List.forall₂_iff_zip.2 ⟨length, each⟩⟩
  | omitted empty =>
    cases empty
    exact Or.inl ⟨rfl, rfl⟩

theorem KeyEdits.orNull (edits : KeyEdits (.orNull name kind) (some value) found) :
    (found = none ∧ value = .null) ∨ ∃ new, found = some new ∧ Edits kind value new := by
  cases edits with
  | kept edits => exact Or.inr ⟨_, rfl, edits⟩
  | omitted empty =>
    cases empty
    exact Or.inl ⟨rfl, rfl⟩

/-! ## Looking at the fields of an object -/

theorem field?_val (fields : List (String × Json)) (name : String) :
    ((Json.obj fields).field? name).map (·.1) = fields.lookup name := by
  rw [field?, List.map_findSome?, List.lookup_eq_findSome?, List.findSome?_subtype,
    List.unattach_attach]
  rintro ⟨key, value⟩ mem
  by_cases same : key = name
  · simp [same]
  · simp [same, Ne.symm same]

theorem field?_of_lookup (there : fields.lookup name = some value) :
    ∃ lt, (Json.obj fields).field? name = some ⟨value, lt⟩ := by
  rw [← field?_val, Option.map_eq_some_iff] at there
  obtain ⟨⟨_, lt⟩, found, rfl⟩ := there
  exact ⟨lt, found⟩

theorem field?_eq_none (missing : fields.lookup name = none) :
    (Json.obj fields).field? name = none := by
  rwa [← field?_val, Option.map_eq_none_iff] at missing

theorem strField?_of_lookup {s : String} (there : fields.lookup name = some (.str s)) :
    (Json.obj fields).strField? name = some s := by
  obtain ⟨lt, found⟩ := field?_of_lookup there
  rw [strField?, found]
  rfl

theorem tag?_of_lookup {tag : String} (there : fields.lookup "tag" = some (.str tag)) :
    (Json.obj fields).tag? = some tag := by
  obtain ⟨lt, found⟩ := field?_of_lookup there
  rw [tag?, found]
  rfl

theorem optional?_eq_none (missing : fields.lookup name = none) :
    (Json.obj fields).optional? name = none := by
  rw [optional?, field?_eq_none missing]

theorem optional?_of_null {lt : sizeOf null < sizeOf (obj fields)}
    (found : (obj fields).field? name = some ⟨.null, lt⟩) : (obj fields).optional? name = none := by
  rw [optional?, found]

theorem optional?_of_ne {lt : sizeOf value < sizeOf (obj fields)}
    (found : (obj fields).field? name = some ⟨value, lt⟩) (there : value ≠ .null) :
    (obj fields).optional? name = some ⟨value, lt⟩ := by
  rw [optional?, found]
  split
  · next same => cases same; exact absurd rfl there
  · rfl

theorem items?_of_lookup {items : List Json} (there : fields.lookup name = some (.arr items)) :
    ∃ parts, (Json.obj fields).items? name = some parts ∧ parts.unattach = items := by
  obtain ⟨lt, found⟩ := field?_of_lookup there
  rw [items?, found]
  refine ⟨_, rfl, ?_⟩
  rw [List.unattach, List.map_map]
  exact List.attach_map_subtype_val items

/-! ## Reading an edited object -/

theorem KeyEdits.field?_plain
    (edits : KeyEdits (.plain name) (some value) (fields.lookup name)) :
    ∃ lt, (Json.obj fields).field? name = some ⟨value, lt⟩ := field?_of_lookup edits.plain

theorem KeyEdits.strField? {s : String}
    (edits : KeyEdits (.plain name) (some (.str s)) (fields.lookup name)) :
    (Json.obj fields).strField? name = some s := strField?_of_lookup edits.plain

theorem KeyEdits.tag? {tag : String}
    (edits : KeyEdits (.plain "tag") (some (.str tag)) (fields.lookup "tag")) :
    (Json.obj fields).tag? = some tag := tag?_of_lookup edits.plain

theorem KeyEdits.field?_required
    (edits : KeyEdits (.required name kind) (some value) (fields.lookup name)) :
    ∃ new lt, (Json.obj fields).field? name = some ⟨new, lt⟩ ∧ Edits kind value new := by
  obtain ⟨new, there, edits⟩ := edits.required
  obtain ⟨lt, found⟩ := field?_of_lookup there
  exact ⟨new, lt, found, edits⟩

theorem KeyEdits.optional?_absent (edits : KeyEdits (.plain name) none (fields.lookup name)) :
    (Json.obj fields).optional? name = none := optional?_eq_none edits.eq_none

theorem KeyEdits.optional?_null
    (edits : KeyEdits (.orNull name kind) (some .null) (fields.lookup name)) :
    (Json.obj fields).optional? name = none := by
  rcases edits.orNull with ⟨missing, -⟩ | ⟨new, there, edits⟩
  · exact optional?_eq_none missing
  · obtain ⟨lt, found⟩ := field?_of_lookup there
    cases edits.null_iff.2 rfl
    exact Json.optional?_of_null found

theorem KeyEdits.optional?_of_ne
    (edits : KeyEdits (.orNull name kind) (some value) (fields.lookup name))
    (there : value ≠ .null) :
    ∃ new lt, (Json.obj fields).optional? name = some ⟨new, lt⟩ ∧ Edits kind value new := by
  rcases edits.orNull with ⟨-, empty⟩ | ⟨new, there', edits⟩
  · exact absurd empty there
  · obtain ⟨lt, found⟩ := field?_of_lookup there'
    exact ⟨new, lt, Json.optional?_of_ne found fun same => there (edits.null_iff.1 same), edits⟩

theorem mapM_eq_some {α : Type} {decode : Json → Option α} {ts : List α} {items : List Json}
    (each : List.Forall₂ (fun t item => decode item = some t) ts items) :
    items.mapM decode = some ts := by
  induction each with
  | nil => rfl
  | cons first _ ih =>
    rw [List.mapM_cons, first, ih]
    rfl

/-- A list is read back if each of its items is. -/
theorem KeyEdits.decode_items {α : Type} {encode : α → Json} {decode : Json → Option α}
    {ts : List α}
    (edits : KeyEdits (.items name kind) (some (.arr (ts.map encode))) (fields.lookup name))
    (each : ∀ t ∈ ts, ∀ j, Edits kind (encode t) j → decode j = some t) :
    ∃ parts, (Json.obj fields).itemsOrNone? name = some parts ∧
      parts.unattach.mapM decode = some ts := by
  rcases edits.items with ⟨missing, empty⟩ | ⟨new, there, edited⟩
  · cases List.map_eq_nil_iff.1 empty
    exact ⟨[], by rw [itemsOrNone?, field?_eq_none missing]; rfl, rfl⟩
  · obtain ⟨lt, found⟩ := field?_of_lookup there
    obtain ⟨parts, read, rfl⟩ := items?_of_lookup there
    refine ⟨parts, by rw [itemsOrNone?, found]; exact read, mapM_eq_some ?_⟩
    have both := (List.forall₂_and_left ts _).2 ⟨each, List.forall₂_map_left_iff.1 edited⟩
    exact both.imp fun t j h => h.1 j h.2

end Json
end ClassLang
