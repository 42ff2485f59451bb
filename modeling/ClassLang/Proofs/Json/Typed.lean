/-
Reading the JSON of a checked program gives the checked program back.

Objects are opened to fields that are found by their names, and nothing else of them is used.  So the
arm of an `if`, which shares its object with a tag, is read as it is without one.
-/
import ClassLang.Proofs.Json.RoundTrip
import ClassLang.Proofs.Json.Text
import ClassLang.Typed.Json

namespace ClassLang

open Json

variable {name : String} {fields : List (String × Json)} {ty : Ty}

theorem Json.tyField?_of_lookup (place : Place) (there : fields.lookup name = some ty.toJson) :
    (Json.obj fields).tyField? place name = some ty := by
  obtain ⟨lt, found⟩ := field?_of_lookup there
  rw [tyField?, found]
  exact Ty.ofJson?_toJson place ty

/-- A list is read back if each of its items is. -/
theorem Json.items?_decode {α : Type} {encode : α → Json} {decode : Json → Option α} {ts : List α}
    (there : fields.lookup name = some (.arr (ts.map encode)))
    (each : ∀ t ∈ ts, decode (encode t) = some t) :
    ∃ parts, (Json.obj fields).items? name = some parts ∧
      parts.unattach.mapM decode = some ts := by
  obtain ⟨parts, found, items⟩ := items?_of_lookup there
  refine ⟨parts, found, items ▸ mapM_eq_some ?_⟩
  exact List.forall₂_map_right_iff.2 (List.forall₂_same.2 each)

/-- Every field is there, found by its name. -/
abbrev Json.Found (known fields : List (String × Json)) : Prop :=
  known.Forall fun field => fields.lookup field.1 = some field.2

/-- An object is only looked at field by field. -/
theorem Json.obj_found (known : List (String × Json)) (distinct : Found known known) :
    ∃ fields, Json.obj known = .obj fields ∧ Found known fields := ⟨known, rfl, distinct⟩

theorem Literal.ofJson?_toJson (place : Place) (l : Literal) :
    Literal.ofJson? place l.toJson = some l := Literal.ofJson?_edited (.same ..)

namespace Typed

/-- So is the kind of a node. -/
theorem nodeToJson_found (ty : Ty) (kind : List (String × Json)) (distinct : Found kind kind) :
    ∃ fields lt, (∀ place, (nodeToJson ty kind).tyField? place "ty" = some ty) ∧
      (nodeToJson ty kind).field? "kind" = some ⟨.obj fields, lt⟩ ∧ Found kind fields := by
  obtain ⟨fields, object, found⟩ := obj_found kind distinct
  obtain ⟨node, same, type, inner⟩ := obj_found [("ty", ty.toJson), ("kind", .obj kind)] ⟨rfl, rfl⟩
  rw [nodeToJson, same]
  rw [object] at inner
  obtain ⟨lt, inner⟩ := field?_of_lookup inner
  exact ⟨fields, lt, fun place => tyField?_of_lookup place type, inner, found⟩

/-! ## Expressions -/

theorem Expr.toJsons_eq (es : List Expr) : Expr.toJsons es = es.map Expr.toJson := by
  induction es with
  | nil => rfl
  | cons e es ih => rw [Expr.toJsons, ih, List.map_cons]

mutual

theorem Expr.ofJson?_toJson (place : Place) (e : Expr) :
    Expr.ofJson? place e.toJson = some e := by
  cases e with
  | literal ty value =>
    obtain ⟨fields, _, type, kind, tag, value⟩ := nodeToJson_found ty
      [("tag", .str "literal"), ("value", value.toJson)] ⟨rfl, rfl⟩
    obtain ⟨_, value⟩ := field?_of_lookup value
    rw [Expr.toJson, Expr.ofJson?]
    simp [type, kind, tag?_of_lookup tag, value, Literal.ofJson?_toJson]
  | id ty name =>
    obtain ⟨fields, _, type, kind, tag, name⟩ := nodeToJson_found ty
      [("tag", .str "id"), ("name", .str name)] ⟨rfl, rfl⟩
    rw [Expr.toJson, Expr.ofJson?]
    simp [type, kind, tag?_of_lookup tag, strField?_of_lookup name]
  | unary ty op arg =>
    obtain ⟨fields, _, type, kind, tag, op, arg⟩ := nodeToJson_found ty
      [("tag", .str "unary"), ("op", .str op.text), ("arg", arg.toJson)] ⟨rfl, rfl, rfl⟩
    obtain ⟨_, op⟩ := field?_of_lookup op
    obtain ⟨_, arg⟩ := field?_of_lookup arg
    rw [Expr.toJson, Expr.ofJson?]
    simp [type, kind, tag?_of_lookup tag, op, arg, UnOp.ofJson?_text,
      Expr.ofJson?_toJson .inNode]
  | binary ty op lhs rhs =>
    obtain ⟨fields, _, type, kind, tag, op, lhs, rhs⟩ := nodeToJson_found ty
      [("tag", .str "binary"), ("op", .str op.text), ("lhs", lhs.toJson), ("rhs", rhs.toJson)]
      ⟨rfl, rfl, rfl, rfl⟩
    obtain ⟨_, op⟩ := field?_of_lookup op
    obtain ⟨_, lhs⟩ := field?_of_lookup lhs
    obtain ⟨_, rhs⟩ := field?_of_lookup rhs
    rw [Expr.toJson, Expr.ofJson?]
    simp [type, kind, tag?_of_lookup tag, op, lhs, rhs, BinOp.ofJson?_text,
      Expr.ofJson?_toJson .inNode]
  | paren ty arg =>
    obtain ⟨fields, _, type, kind, tag, arg⟩ := nodeToJson_found ty
      [("tag", .str "paren"), ("arg", arg.toJson)] ⟨rfl, rfl⟩
    obtain ⟨_, arg⟩ := field?_of_lookup arg
    rw [Expr.toJson, Expr.ofJson?]
    simp [type, kind, tag?_of_lookup tag, arg, Expr.ofJson?_toJson .inNode]
  | call ty name args =>
    obtain ⟨fields, _, type, kind, tag, name, args⟩ := nodeToJson_found ty
      [("tag", .str "call"), ("name", .str name), ("args", .arr (args.map Expr.toJson))]
      ⟨rfl, rfl, rfl⟩
    obtain ⟨parts, found, args⟩ := items?_decode args (Expr.ofJson?_toJson_of_mem _)
    rw [Expr.toJson, Expr.toJsons_eq, Expr.ofJson?]
    simp [type, kind, tag?_of_lookup tag, strField?_of_lookup name,
      found, args]
  | construct ty cls =>
    obtain ⟨fields, _, type, kind, tag, cls⟩ := nodeToJson_found ty
      [("tag", .str "construct"), ("class", .str cls)] ⟨rfl, rfl⟩
    rw [Expr.toJson, Expr.ofJson?]
    simp [type, kind, tag?_of_lookup tag, strField?_of_lookup cls]
  | methodCall ty obj name args =>
    obtain ⟨fields, _, type, kind, tag, obj, name, args⟩ := nodeToJson_found ty
      [("tag", .str "method_call"), ("obj", obj.toJson), ("name", .str name),
        ("args", .arr (args.map Expr.toJson))] ⟨rfl, rfl, rfl, rfl⟩
    obtain ⟨_, obj⟩ := field?_of_lookup obj
    obtain ⟨parts, found, args⟩ := items?_decode args (Expr.ofJson?_toJson_of_mem _)
    rw [Expr.toJson, Expr.toJsons_eq, Expr.ofJson?]
    simp [type, kind, tag?_of_lookup tag, strField?_of_lookup name,
      obj, found, args, Expr.ofJson?_toJson .inNode]
  | field ty obj name =>
    obtain ⟨fields, _, type, kind, tag, obj, name⟩ := nodeToJson_found ty
      [("tag", .str "field_access"), ("obj", obj.toJson), ("name", .str name)] ⟨rfl, rfl, rfl⟩
    obtain ⟨_, obj⟩ := field?_of_lookup obj
    rw [Expr.toJson, Expr.ofJson?]
    simp [type, kind, tag?_of_lookup tag, strField?_of_lookup name, obj,
      Expr.ofJson?_toJson .inNode]

theorem Expr.ofJson?_toJson_of_mem (es : List Expr) :
    ∀ e ∈ es, Expr.ofJson? .inNode e.toJson = some e := by
  cases es with
  | nil => exact List.forall_mem_nil _
  | cons e es =>
    exact List.forall_mem_cons.2 ⟨Expr.ofJson?_toJson .inNode e, Expr.ofJson?_toJson_of_mem es⟩

end

theorem LValue.ofJson?_toJson (place : Place) (l : LValue) :
    LValue.ofJson? place l.toJson = some l := by
  induction l generalizing place with
  | var ty name =>
    obtain ⟨fields, _, type, kind, tag, name⟩ := nodeToJson_found ty
      [("tag", .str "var"), ("name", .str name)] ⟨rfl, rfl⟩
    rw [LValue.toJson, LValue.ofJson?]
    simp [type, kind, tag?_of_lookup tag, strField?_of_lookup name]
  | field ty obj name ih =>
    obtain ⟨fields, _, type, kind, tag, obj, name⟩ := nodeToJson_found ty
      [("tag", .str "field"), ("obj", obj.toJson), ("name", .str name)] ⟨rfl, rfl, rfl⟩
    obtain ⟨_, obj⟩ := field?_of_lookup obj
    rw [LValue.toJson, LValue.ofJson?]
    simp [type, kind, tag?_of_lookup tag, strField?_of_lookup name, obj, ih]

/-! ## Statements -/

theorem Expr.toJson_ne_null (e : Expr) : e.toJson ≠ .null := by
  cases e <;> nofun

theorem Expr.optional?_decode {value : Option Expr}
    (there : fields.lookup name = some (optionToJson value)) :
    Expr.optional? (.obj fields) name = some value := by
  obtain ⟨_, found⟩ := field?_of_lookup there
  rw [Expr.optional?]
  cases value with
  | none => rw [optional?_of_null found]
  | some e =>
    rw [optional?_of_ne found e.toJson_ne_null]
    simp [optionToJson, Expr.ofJson?_toJson .inNode]

theorem Stmt.toJsons_eq (ss : List Stmt) : Stmt.toJsons ss = ss.map Stmt.toJson := by
  induction ss with
  | nil => rfl
  | cons s ss ih => rw [Stmt.toJsons, ih, List.map_cons]

theorem Arm.found_toFields (arm : Arm) : Found arm.toFields arm.toFields := by
  cases arm
  exact ⟨rfl, rfl, rfl, rfl⟩

/-- An `if` has its tag among the fields of its first arm. -/
theorem Arm.found_tagged (arm : Arm) :
    Found (("tag", .str "if") :: arm.toFields) (("tag", .str "if") :: arm.toFields) := by
  cases arm
  exact ⟨rfl, rfl, rfl, rfl, rfl⟩

mutual

theorem Stmt.ofJson?_toJson (place : Place) (s : Stmt) :
    Stmt.ofJson? place s.toJson = some s := by
  cases s with
  | assign ty lhs value =>
    obtain ⟨fields, _, type, kind, tag, lhs, value⟩ := nodeToJson_found ty
      [("tag", .str "assign"), ("lhs", lhs.toJson), ("value", value.toJson)] ⟨rfl, rfl, rfl⟩
    obtain ⟨_, lhs⟩ := field?_of_lookup lhs
    obtain ⟨_, value⟩ := field?_of_lookup value
    rw [Stmt.toJson, Stmt.ofJson?]
    simp [type, kind, tag?_of_lookup tag, lhs, value, LValue.ofJson?_toJson .inNode,
      Expr.ofJson?_toJson .inNode]
  | expr ty e =>
    obtain ⟨fields, _, type, kind, tag, e⟩ := nodeToJson_found ty
      [("tag", .str "expr"), ("expr", e.toJson)] ⟨rfl, rfl⟩
    obtain ⟨_, e⟩ := field?_of_lookup e
    rw [Stmt.toJson, Stmt.ofJson?]
    simp [type, kind, tag?_of_lookup tag, e, Expr.ofJson?_toJson .inNode]
  | ret ty value =>
    obtain ⟨fields, _, type, kind, tag, value⟩ := nodeToJson_found ty
      [("tag", .str "return"), ("value", optionToJson value)] ⟨rfl, rfl⟩
    rw [Stmt.toJson, Stmt.ofJson?]
    simp [type, kind, tag?_of_lookup tag, Expr.optional?_decode value]
  | branch ty arm =>
    obtain ⟨fields, _, type, kind, found⟩ := nodeToJson_found ty
      (("tag", .str "if") :: arm.toFields) arm.found_tagged
    obtain ⟨tag, arms⟩ := (List.forall_cons ..).1 found
    rw [Stmt.toJson, Stmt.ofJson?]
    simp [type, kind, tag?_of_lookup tag, Arm.ofJson?_found arm arms]
  | pass ty =>
    obtain ⟨fields, _, type, kind, tag⟩ := nodeToJson_found ty [("tag", .str "pass")] rfl
    rw [Stmt.toJson, Stmt.ofJson?]
    simp [type, kind, tag?_of_lookup tag]

theorem Arm.ofJson?_found (arm : Arm) {fields : List (String × Json)}
    (found : Found arm.toFields fields) : Arm.ofJson? (.obj fields) = some arm := by
  cases arm with
  | mk ty condition body alternative =>
    rw [Arm.toFields, Stmt.toJsons_eq] at found
    obtain ⟨type, first, block, other⟩ := found
    obtain ⟨parts, found, read⟩ := items?_decode block (Stmt.ofJson?_toJson_of_mem _)
    obtain ⟨_, other⟩ := field?_of_lookup other
    rw [Arm.ofJson?]
    cases alternative with
    | none =>
      have missing := optional?_of_null other
      simp [tyField?_of_lookup .inNode type, found, Expr.optional?_decode first, read, missing]
    | some arm =>
      have there := optional?_of_ne other nofun
      simp [tyField?_of_lookup .inNode type, found, Expr.optional?_decode first, read, there,
        Arm.alternativeToJson, Arm.ofJson?_found arm arm.found_toFields]

theorem Stmt.ofJson?_toJson_of_mem (ss : List Stmt) :
    ∀ s ∈ ss, Stmt.ofJson? .inNode s.toJson = some s := by
  cases ss with
  | nil => exact List.forall_mem_nil _
  | cons s ss =>
    exact List.forall_mem_cons.2 ⟨Stmt.ofJson?_toJson .inNode s, Stmt.ofJson?_toJson_of_mem ss⟩

end

/-! ## Declarations -/

theorem varDefOfJson?_toJson (v : VarDef) : varDefOfJson? (varDefToJson v) = some v := by
  obtain ⟨fields, object, name, ty, value⟩ := obj_found
    [("name", .str v.name), ("ty", v.ty.toJson), ("value", v.value.toJson)] ⟨rfl, rfl, rfl⟩
  obtain ⟨_, value⟩ := field?_of_lookup value
  rw [varDefToJson, object, varDefOfJson?]
  simp [strField?_of_lookup name, tyField?_of_lookup .top ty, value, Literal.ofJson?_toJson]

theorem paramOfJson?_toJson (p : Param) : paramOfJson? (paramToJson p) = some p := by
  obtain ⟨fields, object, name, ty⟩ := obj_found
    [("name", .str p.name), ("ty", p.ty.toJson)] ⟨rfl, rfl⟩
  rw [paramToJson, object, paramOfJson?]
  simp [strField?_of_lookup name, tyField?_of_lookup .top ty]

theorem Method.ofJson?_toJson (m : Method) : Method.ofJson? m.toJson = some m := by
  obtain ⟨fields, object, name, ret, params, definitions, statements, bodyTy⟩ := obj_found
    [("name", .str m.name), ("ret", m.ret.toJson), ("params", .arr (m.params.map paramToJson)),
      ("definitions", .arr (m.definitions.map varDefToJson)),
      ("statements", .arr (m.statements.map Stmt.toJson)), ("body_ty", m.bodyTy.toJson)]
    ⟨rfl, rfl, rfl, rfl, rfl, rfl⟩
  obtain ⟨_, foundParams, params⟩ := items?_decode params fun p _ => paramOfJson?_toJson p
  obtain ⟨_, foundDefinitions, definitions⟩ :=
    items?_decode definitions fun v _ => varDefOfJson?_toJson v
  obtain ⟨_, foundStatements, statements⟩ :=
    items?_decode statements fun s _ => Stmt.ofJson?_toJson .top s
  rw [Method.toJson, Stmt.toJsons_eq, object, Method.ofJson?]
  simp [strField?_of_lookup name, tyField?_of_lookup .top ret, tyField?_of_lookup .top bodyTy,
    foundParams, params, foundDefinitions, definitions, foundStatements, statements]

theorem Class.ofJson?_toJson (c : Class) : Class.ofJson? c.toJson = some c := by
  obtain ⟨fields, object, name, ty, defs, methods⟩ := obj_found
    [("name", .str c.name), ("ty", c.ty.toJson), ("fields", .arr (c.fields.map varDefToJson)),
      ("methods", .arr (c.methods.map Method.toJson))] ⟨rfl, rfl, rfl, rfl⟩
  obtain ⟨_, foundDefs, defs⟩ := items?_decode defs fun v _ => varDefOfJson?_toJson v
  obtain ⟨_, foundMethods, methods⟩ := items?_decode methods fun m _ => Method.ofJson?_toJson m
  rw [Class.toJson, object, Class.ofJson?]
  simp [strField?_of_lookup name, tyField?_of_lookup .top ty, foundDefs, defs, foundMethods,
    methods]

theorem Program.ofJson?_toJson (p : Program) : Program.ofJson? p.toJson = some p := by
  obtain ⟨fields, object, ty, globals, classes, body⟩ := obj_found
    [("ty", p.ty.toJson), ("variables", .arr (p.globals.map varDefToJson)),
      ("classes", .arr (p.classes.map Class.toJson)), ("body", .arr (p.body.map Stmt.toJson))]
    ⟨rfl, rfl, rfl, rfl⟩
  obtain ⟨_, foundGlobals, globals⟩ := items?_decode globals fun v _ => varDefOfJson?_toJson v
  obtain ⟨_, foundClasses, classes⟩ := items?_decode classes fun c _ => Class.ofJson?_toJson c
  obtain ⟨_, foundBody, body⟩ := items?_decode body fun s _ => Stmt.ofJson?_toJson .top s
  rw [Program.toJson, Stmt.toJsons_eq, object, Program.ofJson?]
  simp [tyField?_of_lookup .top ty, foundGlobals, globals, foundClasses, classes, foundBody, body]

end Typed
end ClassLang
