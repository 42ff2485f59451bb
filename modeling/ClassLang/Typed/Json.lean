/-
Checked program trees as JSON.

Every node is written as its type and its kind.  Reading asks for every key but those of values that
may be absent.
-/
import ClassLang.Source.Json
import ClassLang.Typed

namespace ClassLang

/-- A field that holds a type. -/
def Json.tyField? (place : Json.Place) (j : Json) (name : String) : Option Ty := do
  let ⟨ty, _⟩ ← j.field? name
  Ty.ofJson? place ty

namespace Typed

def nodeToJson (ty : Ty) (kind : List (String × Json)) : Json :=
  .obj [("ty", ty.toJson), ("kind", .obj kind)]

mutual

def Expr.toJson : Expr → Json
  | .literal ty value => nodeToJson ty [("tag", .str "literal"), ("value", value.toJson)]
  | .id ty name => nodeToJson ty [("tag", .str "id"), ("name", .str name)]
  | .unary ty op arg =>
    nodeToJson ty [("tag", .str "unary"), ("op", .str op.text), ("arg", arg.toJson)]
  | .binary ty op lhs rhs =>
    nodeToJson ty [("tag", .str "binary"), ("op", .str op.text), ("lhs", lhs.toJson),
      ("rhs", rhs.toJson)]
  | .paren ty arg => nodeToJson ty [("tag", .str "paren"), ("arg", arg.toJson)]
  | .call ty name args =>
    nodeToJson ty [("tag", .str "call"), ("name", .str name), ("args", .arr (Expr.toJsons args))]
  | .construct ty cls => nodeToJson ty [("tag", .str "construct"), ("class", .str cls)]
  | .methodCall ty obj name args =>
    nodeToJson ty [("tag", .str "method_call"), ("obj", obj.toJson), ("name", .str name),
      ("args", .arr (Expr.toJsons args))]
  | .field ty obj name =>
    nodeToJson ty [("tag", .str "field_access"), ("obj", obj.toJson), ("name", .str name)]
termination_by structural e => e

def Expr.toJsons : List Expr → List Json
  | [] => []
  | e :: rest => e.toJson :: Expr.toJsons rest
termination_by structural es => es

end

/-- The name of an expression's form. -/
def Expr.tag : Expr → String
  | .literal _ _ => "literal"
  | .id _ _ => "id"
  | .unary _ _ _ => "unary"
  | .binary _ _ _ _ => "binary"
  | .paren _ _ => "paren"
  | .call _ _ _ => "call"
  | .construct _ _ => "construct"
  | .methodCall _ _ _ _ => "method_call"
  | .field _ _ _ => "field_access"

def Expr.ofJson? (place : Json.Place) (j : Json) : Option Expr := do
  let ty ← j.tyField? place "ty"
  let ⟨kind, _⟩ ← j.field? "kind"
  match ← kind.tag? with
  | "literal" => do
    let ⟨value, _⟩ ← kind.field? "value"
    return .literal ty (← Literal.ofJson? .inNode value)
  | "id" => return .id ty (← kind.strField? "name")
  | "unary" => do
    let ⟨op, _⟩ ← kind.field? "op"
    let ⟨arg, _⟩ ← kind.field? "arg"
    return .unary ty (← UnOp.ofJson? .inNode op) (← Expr.ofJson? .inNode arg)
  | "binary" => do
    let ⟨op, _⟩ ← kind.field? "op"
    let ⟨lhs, _⟩ ← kind.field? "lhs"
    let ⟨rhs, _⟩ ← kind.field? "rhs"
    return .binary ty (← BinOp.ofJson? .inNode op) (← Expr.ofJson? .inNode lhs) (← Expr.ofJson? .inNode rhs)
  | "paren" => do
    let ⟨arg, _⟩ ← kind.field? "arg"
    return .paren ty (← Expr.ofJson? .inNode arg)
  | "call" => do
    let args ← kind.items? "args"
    return .call ty (← kind.strField? "name") (← args.mapM fun ⟨arg, _⟩ => Expr.ofJson? .inNode arg)
  | "construct" => return .construct ty (← kind.strField? "class")
  | "method_call" => do
    let ⟨obj, _⟩ ← kind.field? "obj"
    let args ← kind.items? "args"
    return .methodCall ty (← Expr.ofJson? .inNode obj) (← kind.strField? "name")
      (← args.mapM fun ⟨arg, _⟩ => Expr.ofJson? .inNode arg)
  | "field_access" => do
    let ⟨obj, _⟩ ← kind.field? "obj"
    return .field ty (← Expr.ofJson? .inNode obj) (← kind.strField? "name")
  | _ => none
termination_by sizeOf j

def LValue.toJson : LValue → Json
  | .var ty name => nodeToJson ty [("tag", .str "var"), ("name", .str name)]
  | .field ty obj name =>
    nodeToJson ty [("tag", .str "field"), ("obj", obj.toJson), ("name", .str name)]

def LValue.ofJson? (place : Json.Place) (j : Json) : Option LValue := do
  let ty ← j.tyField? place "ty"
  let ⟨kind, _⟩ ← j.field? "kind"
  match ← kind.tag? with
  | "var" => return .var ty (← kind.strField? "name")
  | "field" => do
    let ⟨obj, _⟩ ← kind.field? "obj"
    return .field ty (← LValue.ofJson? .inNode obj) (← kind.strField? "name")
  | _ => none
termination_by sizeOf j

def optionToJson : Option Expr → Json
  | none => .null
  | some e => e.toJson

/-- An expression that may be missing, or be `null` instead. -/
def Expr.optional? (j : Json) (name : String) : Option (Option Expr) :=
  match j.optional? name with
  | none => some none
  | some ⟨e, _⟩ => do return some (← Expr.ofJson? .inNode e)

mutual

def Stmt.toJson : Stmt → Json
  | .assign ty lhs value =>
    nodeToJson ty [("tag", .str "assign"), ("lhs", lhs.toJson), ("value", value.toJson)]
  | .expr ty e => nodeToJson ty [("tag", .str "expr"), ("expr", e.toJson)]
  | .ret ty value => nodeToJson ty [("tag", .str "return"), ("value", optionToJson value)]
  | .branch ty arm => nodeToJson ty (("tag", .str "if") :: arm.toFields)
  | .pass ty => nodeToJson ty [("tag", .str "pass")]
termination_by structural s => s

def Arm.toFields : Arm → List (String × Json)
  | .mk ty condition body alternative =>
    [("ty", ty.toJson), ("condition", optionToJson condition),
     ("body", .arr (Stmt.toJsons body)), ("else_branch", Arm.alternativeToJson alternative)]
termination_by structural a => a

def Arm.alternativeToJson : Option Arm → Json
  | none => .null
  | some arm => .obj arm.toFields
termination_by structural a => a

def Stmt.toJsons : List Stmt → List Json
  | [] => []
  | s :: rest => s.toJson :: Stmt.toJsons rest
termination_by structural ss => ss

end

mutual

def Stmt.ofJson? (place : Json.Place) (j : Json) : Option Stmt := do
  let ty ← j.tyField? place "ty"
  let ⟨kind, _⟩ ← j.field? "kind"
  match ← kind.tag? with
  | "assign" => do
    let ⟨lhs, _⟩ ← kind.field? "lhs"
    let ⟨value, _⟩ ← kind.field? "value"
    return .assign ty (← LValue.ofJson? .inNode lhs) (← Expr.ofJson? .inNode value)
  | "expr" => do
    let ⟨e, _⟩ ← kind.field? "expr"
    return .expr ty (← Expr.ofJson? .inNode e)
  | "return" => return .ret ty (← Expr.optional? kind "value")
  | "if" => return .branch ty (← Arm.ofJson? kind)
  | "pass" => return .pass ty
  | _ => none
termination_by sizeOf j

def Arm.ofJson? (j : Json) : Option Arm := do
  let ty ← j.tyField? .inNode "ty"
  let body ← j.items? "body"
  let condition ← Expr.optional? j "condition"
  let body ← body.mapM fun ⟨s, _⟩ => Stmt.ofJson? .inNode s
  match j.optional? "else_branch" with
  | none => return .mk ty condition body none
  | some ⟨arm, _⟩ => return .mk ty condition body (some (← Arm.ofJson? arm))
termination_by sizeOf j

end

def varDefToJson (v : VarDef) : Json :=
  .obj [("name", .str v.name), ("ty", v.ty.toJson), ("value", v.value.toJson)]

def varDefOfJson? (j : Json) : Option VarDef := do
  let ⟨value, _⟩ ← j.field? "value"
  return {
    name := ← j.strField? "name"
    ty := ← j.tyField? .top "ty"
    value := ← Literal.ofJson? .top value }

def paramToJson (p : Param) : Json :=
  .obj [("name", .str p.name), ("ty", p.ty.toJson)]

def paramOfJson? (j : Json) : Option Param := do
  return { name := ← j.strField? "name", ty := ← j.tyField? .top "ty" }

def Method.toJson (m : Method) : Json :=
  .obj [("name", .str m.name), ("ret", m.ret.toJson), ("params", .arr (m.params.map paramToJson)),
    ("definitions", .arr (m.definitions.map varDefToJson)),
    ("statements", .arr (Stmt.toJsons m.statements)), ("body_ty", m.bodyTy.toJson)]

def Method.ofJson? (j : Json) : Option Method := do
  let params ← j.items? "params"
  let definitions ← j.items? "definitions"
  let statements ← j.items? "statements"
  return {
    name := ← j.strField? "name"
    ret := ← j.tyField? .top "ret"
    params := ← params.mapM (paramOfJson? ·.1)
    definitions := ← definitions.mapM (varDefOfJson? ·.1)
    statements := ← statements.mapM (Stmt.ofJson? .top ·.1)
    bodyTy := ← j.tyField? .top "body_ty" }

def Class.toJson (c : Class) : Json :=
  .obj [("name", .str c.name), ("ty", c.ty.toJson), ("fields", .arr (c.fields.map varDefToJson)),
    ("methods", .arr (c.methods.map (·.toJson)))]

def Class.ofJson? (j : Json) : Option Class := do
  let fields ← j.items? "fields"
  let methods ← j.items? "methods"
  return {
    name := ← j.strField? "name"
    ty := ← j.tyField? .top "ty"
    fields := ← fields.mapM (varDefOfJson? ·.1)
    methods := ← methods.mapM (Method.ofJson? ·.1) }

def Program.toJson (p : Program) : Json :=
  .obj [("ty", p.ty.toJson), ("variables", .arr (p.globals.map varDefToJson)),
    ("classes", .arr (p.classes.map (·.toJson))), ("body", .arr (Stmt.toJsons p.body))]

def Program.ofJson? (j : Json) : Option Program := do
  let globals ← j.items? "variables"
  let classes ← j.items? "classes"
  let body ← j.items? "body"
  return {
    ty := ← j.tyField? .top "ty"
    globals := ← globals.mapM (varDefOfJson? ·.1)
    classes := ← classes.mapM (Class.ofJson? ·.1)
    body := ← body.mapM (Stmt.ofJson? .top ·.1) }

end Typed

end ClassLang
