/-
Reading the JSON of a program tree gives the tree back, also after edits that keep what it says.
-/
import ClassLang.Proofs.Json.Edits

namespace ClassLang

open Json

variable {place : Place} {j : Json}

/-! ## Plain values -/

theorem Ty.ofJson?_toJson (place : Place) (ty : Ty) : Ty.ofJson? place ty.toJson = some ty := by
  cases ty <;> rfl

theorem UnOp.ofJson?_text (place : Place) (op : UnOp) :
    UnOp.ofJson? place (.str op.text) = some op := by
  cases op <;> rfl

theorem BinOp.ofJson?_text (place : Place) (op : BinOp) :
    BinOp.ofJson? place (.str op.text) = some op := by
  cases op <;> rfl

theorem Json.int32?_toInt (value : Int32) : (Json.int value.toInt).int32? = some value := by
  rw [int32?, if_pos ⟨value.minValue_le_toInt, value.toInt_le⟩, Int32.ofInt_toInt]

theorem Literal.ofJson?_edited {l : Literal} (edits : Edits .literal l.toJson j) :
    Literal.ofJson? place j = some l := by
  cases l with
  | none =>
    obtain ⟨fields, rfl, tag, value⟩ := edits.known rfl
    obtain ⟨_, tag⟩ := tag.field?_plain
    have value := value.optional?_absent
    simp [Literal.ofJson?, tag, name?, value]
  | bool value =>
    obtain ⟨fields, rfl, tag, value⟩ := edits.known rfl
    obtain ⟨_, tag⟩ := tag.field?_plain
    obtain ⟨_, value⟩ := value.field?_plain
    simp [Literal.ofJson?, tag, name?, value, bool?]
  | int value =>
    obtain ⟨fields, rfl, tag, value⟩ := edits.known rfl
    obtain ⟨_, tag⟩ := tag.field?_plain
    obtain ⟨_, value⟩ := value.field?_plain
    simp [Literal.ofJson?, tag, name?, value, int32?_toInt]

theorem VarDef.ofJson?_edited {v : VarDef} (edits : Edits .varDef v.toJson j) :
    VarDef.ofJson? j = some v := by
  obtain ⟨fields, rfl, name, ty, value⟩ := edits.known rfl
  obtain ⟨_, ty⟩ := ty.field?_plain
  obtain ⟨_, _, found, value⟩ := value.field?_required
  simp [VarDef.ofJson?, name.strField?, ty, found, Ty.ofJson?_toJson, Literal.ofJson?_edited value]

theorem Param.ofJson?_edited {p : Param} (edits : Edits .param p.toJson j) :
    Param.ofJson? j = some p := by
  obtain ⟨fields, rfl, name, ty⟩ := edits.known rfl
  obtain ⟨_, ty⟩ := ty.field?_plain
  simp [Param.ofJson?, name.strField?, ty, Ty.ofJson?_toJson]

namespace Source

/-! ## Expressions -/

theorem Expr.toJsons_eq (es : List Expr) : Expr.toJsons es = es.map Expr.toJson := by
  induction es with
  | nil => rfl
  | cons e es ih => rw [Expr.toJsons, ih, List.map_cons]

mutual

theorem Expr.ofJson?_edited (e : Expr) {j : Json} (edits : Edits .expr e.toJson j) :
    Expr.ofJson? j = some e := by
  cases e with
  | literal value =>
    obtain ⟨fields, rfl, tag, value⟩ := edits.known rfl
    obtain ⟨_, _, found, value⟩ := value.field?_required
    rw [Expr.ofJson?]
    simp [tag.tag?, found, Literal.ofJson?_edited value]
  | id name =>
    obtain ⟨fields, rfl, tag, name⟩ := edits.known rfl
    rw [Expr.ofJson?]
    simp [tag.tag?, name.strField?]
  | unary op arg =>
    obtain ⟨fields, rfl, tag, op, arg⟩ := edits.known rfl
    obtain ⟨_, op⟩ := op.field?_plain
    obtain ⟨_, _, found, arg⟩ := arg.field?_required
    rw [Expr.ofJson?]
    simp [tag.tag?, op, found, UnOp.ofJson?_text, Expr.ofJson?_edited _ arg]
  | binary op lhs rhs =>
    obtain ⟨fields, rfl, tag, op, lhs, rhs⟩ := edits.known rfl
    obtain ⟨_, op⟩ := op.field?_plain
    obtain ⟨_, _, left, lhs⟩ := lhs.field?_required
    obtain ⟨_, _, right, rhs⟩ := rhs.field?_required
    rw [Expr.ofJson?]
    simp [tag.tag?, op, left, right, BinOp.ofJson?_text, Expr.ofJson?_edited _ lhs,
      Expr.ofJson?_edited _ rhs]
  | paren arg =>
    obtain ⟨fields, rfl, tag, arg⟩ := edits.known rfl
    obtain ⟨_, _, found, arg⟩ := arg.field?_required
    rw [Expr.ofJson?]
    simp [tag.tag?, found, Expr.ofJson?_edited _ arg]
  | call name args =>
    rw [Expr.toJson, Expr.toJsons_eq] at edits
    obtain ⟨fields, rfl, tag, name, args⟩ := edits.known rfl
    obtain ⟨parts, found, args⟩ := args.decode_items (Expr.ofJson?_edited_of_mem _)
    rw [Expr.ofJson?]
    simp [tag.tag?, name.strField?, found, args]
  | methodCall obj name args =>
    rw [Expr.toJson, Expr.toJsons_eq] at edits
    obtain ⟨fields, rfl, tag, obj, name, args⟩ := edits.known rfl
    obtain ⟨_, _, there, obj⟩ := obj.field?_required
    obtain ⟨parts, found, args⟩ := args.decode_items (Expr.ofJson?_edited_of_mem _)
    rw [Expr.ofJson?]
    simp [tag.tag?, there, name.strField?, found, args, Expr.ofJson?_edited _ obj]
  | field obj name =>
    obtain ⟨fields, rfl, tag, obj, name⟩ := edits.known rfl
    obtain ⟨_, _, there, obj⟩ := obj.field?_required
    rw [Expr.ofJson?]
    simp [tag.tag?, there, name.strField?, Expr.ofJson?_edited _ obj]

theorem Expr.ofJson?_edited_of_mem (es : List Expr) :
    ∀ e ∈ es, ∀ j, Edits .expr e.toJson j → Expr.ofJson? j = some e := by
  cases es with
  | nil => exact List.forall_mem_nil _
  | cons e es =>
    exact List.forall_mem_cons.2
      ⟨fun _ edits => Expr.ofJson?_edited e edits, Expr.ofJson?_edited_of_mem es⟩

end

theorem LValue.ofJson?_edited (l : LValue) {j : Json} (edits : Edits .lvalue l.toJson j) :
    LValue.ofJson? j = some l := by
  induction l generalizing j with
  | var name =>
    obtain ⟨fields, rfl, tag, name⟩ := edits.known rfl
    rw [LValue.ofJson?]
    simp [tag.tag?, name.strField?]
  | field obj name ih =>
    obtain ⟨fields, rfl, tag, obj, name⟩ := edits.known rfl
    obtain ⟨_, _, there, obj⟩ := obj.field?_required
    rw [LValue.ofJson?]
    simp [tag.tag?, there, name.strField?, ih obj]

/-! ## Statements -/

theorem Expr.toJson_ne_null (e : Expr) : e.toJson ≠ .null := by
  cases e <;> nofun

theorem Expr.optional?_edited {value : Option Expr} {fields : List (String × Json)} {name : String}
    (edits : KeyEdits (.orNull name .expr) (some (optionToJson value)) (fields.lookup name)) :
    Expr.optional? (.obj fields) name = some value := by
  rw [Expr.optional?]
  cases value with
  | none => rw [edits.optional?_null]
  | some e =>
    obtain ⟨j, _, found, edits⟩ := edits.optional?_of_ne e.toJson_ne_null
    rw [found]
    simp [Expr.ofJson?_edited e edits]

theorem Stmt.toJsons_eq (ss : List Stmt) : Stmt.toJsons ss = ss.map Stmt.toJson := by
  induction ss with
  | nil => rfl
  | cons s ss ih => rw [Stmt.toJsons, ih, List.map_cons]

mutual

theorem Stmt.ofJson?_edited (s : Stmt) {j : Json} (edits : Edits .stmt s.toJson j) :
    Stmt.ofJson? j = some s := by
  cases s with
  | assign lhs value =>
    obtain ⟨fields, rfl, tag, lhs, value⟩ := edits.known rfl
    obtain ⟨_, _, target, lhs⟩ := lhs.field?_required
    obtain ⟨_, _, found, value⟩ := value.field?_required
    rw [Stmt.ofJson?]
    simp [tag.tag?, target, found, LValue.ofJson?_edited _ lhs, Expr.ofJson?_edited _ value]
  | expr e =>
    obtain ⟨fields, rfl, tag, e⟩ := edits.known rfl
    obtain ⟨_, _, found, e⟩ := e.field?_required
    rw [Stmt.ofJson?]
    simp [tag.tag?, found, Expr.ofJson?_edited _ e]
  | ret value =>
    obtain ⟨fields, rfl, tag, value⟩ := edits.known rfl
    rw [Stmt.ofJson?]
    simp [tag.tag?, Expr.optional?_edited value]
  | branch arm =>
    obtain ⟨fields, rfl, tag, condition, body, alternative⟩ := edits.known rfl
    rw [Stmt.ofJson?]
    simp [tag.tag?, Arm.ofJson?_edited arm ⟨condition, body, alternative⟩]
  | pass =>
    obtain ⟨fields, rfl, tag⟩ := edits.known rfl
    rw [Stmt.ofJson?]
    simp [tag.tag?]

/-- Only the fields of an arm are looked at, so it does not matter whether there is a tag beside
them. -/
theorem Arm.ofJson?_edited (arm : Arm) {fields : List (String × Json)}
    (edits : armKeys.Forall fun key =>
      KeyEdits key (arm.toFields.lookup key.name) (fields.lookup key.name)) :
    Arm.ofJson? (.obj fields) = some arm := by
  cases arm with
  | mk condition body alternative =>
    rw [Arm.toFields, Stmt.toJsons_eq] at edits
    obtain ⟨first, block, other⟩ := edits
    have test := Expr.optional?_edited first
    obtain ⟨parts, found, read⟩ := block.decode_items (Stmt.ofJson?_edited_of_mem _)
    rw [Arm.ofJson?]
    cases alternative with
    | none =>
      have missing := other.optional?_null
      simp [found, test, read, missing]
    | some arm =>
      obtain ⟨_, _, there, edits⟩ := other.optional?_of_ne nofun
      obtain ⟨fields, rfl, known⟩ := edits.known rfl
      simp [found, test, read, there, Arm.ofJson?_edited arm known]

theorem Stmt.ofJson?_edited_of_mem (ss : List Stmt) :
    ∀ s ∈ ss, ∀ j, Edits .stmt s.toJson j → Stmt.ofJson? j = some s := by
  cases ss with
  | nil => exact List.forall_mem_nil _
  | cons s ss =>
    exact List.forall_mem_cons.2
      ⟨fun _ edits => Stmt.ofJson?_edited s edits, Stmt.ofJson?_edited_of_mem ss⟩

end

/-! ## Declarations -/

theorem retOfJson?_edited {ret : Ty} {fields : List (String × Json)}
    (edits : KeyEdits ⟨"ret", .plain, some Ty.none.toJson⟩ (some ret.toJson)
      (fields.lookup "ret")) :
    retOfJson? (.obj fields) = some ret := by
  rw [retOfJson?]
  generalize there : fields.lookup "ret" = found at edits
  cases edits with
  | kept edits =>
    cases edits.eq_of_plain
    obtain ⟨_, found⟩ := field?_of_lookup there
    rw [found]
    exact Ty.ofJson?_toJson .top ret
  | omitted empty =>
    rw [field?_eq_none there]
    have undeclared := Option.some.inj empty
    have read := Ty.ofJson?_toJson .top ret
    rw [← undeclared, Ty.ofJson?_toJson] at read
    exact read

theorem Method.ofJson?_edited {m : Method} (edits : Edits .method m.toJson j) :
    Method.ofJson? j = some m := by
  obtain ⟨fields, rfl, name, params, ret, body⟩ := edits.known rfl
  obtain ⟨_, foundParams, params⟩ := params.decode_items fun _ _ _ => Param.ofJson?_edited
  obtain ⟨_, _, foundBody, body⟩ := body.field?_required
  rw [Stmt.toJsons_eq] at body
  obtain ⟨_, rfl, definitions, statements⟩ := body.known rfl
  obtain ⟨_, foundDefinitions, definitions⟩ :=
    definitions.decode_items fun _ _ _ => VarDef.ofJson?_edited
  obtain ⟨_, foundStatements, statements⟩ :=
    statements.decode_items (Stmt.ofJson?_edited_of_mem _)
  simp [Method.ofJson?, foundParams, params, foundBody, foundDefinitions, definitions,
    foundStatements, statements, name.strField?, retOfJson?_edited ret]

theorem Class.ofJson?_edited {c : Class} (edits : Edits .cls c.toJson j) :
    Class.ofJson? j = some c := by
  obtain ⟨fields, rfl, name, defs, methods⟩ := edits.known rfl
  obtain ⟨_, foundDefs, defs⟩ := defs.decode_items fun _ _ _ => VarDef.ofJson?_edited
  obtain ⟨_, foundMethods, methods⟩ := methods.decode_items fun _ _ _ => Method.ofJson?_edited
  simp [Class.ofJson?, foundDefs, defs, foundMethods, methods, name.strField?]

/-- A program is read back from its JSON, whatever keys with their default are left out of that and
whatever unknown keys are put in, at any depth. -/
theorem Program.reads_back (p : Program) :
    (∀ j, Edits .program p.toJson j → Program.ofJson? j = some p) ∧
      Program.ofJson? p.toJson = some p := by
  have edited : ∀ j, Edits .program p.toJson j → Program.ofJson? j = some p := by
    intro j edits
    rw [Program.toJson, Stmt.toJsons_eq] at edits
    obtain ⟨fields, rfl, globals, classes, body⟩ := edits.known rfl
    obtain ⟨_, foundGlobals, globals⟩ := globals.decode_items fun _ _ _ => VarDef.ofJson?_edited
    obtain ⟨_, foundClasses, classes⟩ := classes.decode_items fun _ _ _ => Class.ofJson?_edited
    obtain ⟨_, foundBody, body⟩ := body.decode_items (Stmt.ofJson?_edited_of_mem _)
    simp [Program.ofJson?, foundGlobals, globals, foundClasses, classes, foundBody, body]
  exact ⟨edited, edited _ (.same ..)⟩

/-- A program whose only statement is an `if` with a bare return. -/
def bareReturn : Program :=
  ⟨[], [⟨"A", [], [⟨"m", [], .none, [], [.branch (.mk (some (.id "b")) [.ret none] none)]⟩]⟩], []⟩

/-- That program without any of the keys that have a default, and with notes. -/
def bareReturnNoted : Json :=
  .obj [("version", .int 1), ("classes", .arr [.obj [("name", .str "A"), ("methods", .arr [.obj
    [("name", .str "m"), ("line", .int 2), ("body", .obj [("statements", .arr [.obj
      [("tag", .str "if"), ("body", .arr [.obj [("tag", .str "return")]]), ("condition", .obj
        [("tag", .str "id"), ("name", .str "b"), ("end", .null)])]])])]])]])]

theorem Program.reads_back_bareReturn : Program.ofJson? bareReturnNoted = some bareReturn := by
  refine bareReturn.reads_back.1 bareReturnNoted ?_
  -- from the program through its class, the method and the body of that to the one statement
  refine .of_known rfl ⟨.omitted rfl, .kept (.of_items (.cons ?_ .nil)), .omitted rfl⟩
  refine .of_known rfl ⟨.same .., .omitted rfl, .kept (.of_items (.cons ?_ .nil))⟩
  refine .of_known rfl ⟨.same .., .omitted rfl, .omitted rfl, .kept ?_⟩
  refine .of_known rfl ⟨.omitted rfl, .kept (.of_items (.cons ?_ .nil))⟩
  refine .of_known rfl
    ⟨.same .., .kept ?condition, .kept (.of_items (.cons ?bare .nil)), .omitted rfl⟩
  case condition =>
    exact @Edits.put_in .expr "end" _ [("tag", .str "id"), ("name", .str "b")] [] rfl
      ⟨by decide, by decide⟩ .null
  case bare =>
    exact @Edits.leave_out .stmt "value" .null _ [("tag", .str "return"), ("value", .null)] rfl rfl
      ⟨fun same => absurd same (by decide), fun _ => rfl⟩

end Source
end ClassLang
