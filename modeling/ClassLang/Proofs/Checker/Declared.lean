/-
Every type in a checked program can be written down: it is not `any`, and it names no class but
those that the program declares.

Signatures go into the scope before the types in them are looked at, so this holds of a scope only
once all classes have passed.
-/
import ClassLang.Proofs.Checker.Concrete
import ClassLang.Proofs.Checker.Program

namespace ClassLang

/-- A type that a program with these classes can write down. -/
def Ty.NamedIn (classes : List String) (ty : Ty) : Prop :=
  ty ≠ .any ∧ ∀ cls, ty = .object cls → cls ∈ classes

/-! ## The types in a tree -/

namespace Typed

mutual

def Expr.types : Expr → List Ty
  | .literal ty _ | .id ty _ | .construct ty _ => [ty]
  | .unary ty _ arg | .paren ty arg => ty :: arg.types
  | .binary ty _ lhs rhs => ty :: (lhs.types ++ rhs.types)
  | .call ty _ args => ty :: Expr.typesOf args
  | .methodCall ty obj _ args => ty :: (obj.types ++ Expr.typesOf args)
  | .field ty obj _ => ty :: obj.types
termination_by structural e => e

def Expr.typesOf : List Expr → List Ty
  | [] => []
  | e :: rest => e.types ++ Expr.typesOf rest
termination_by structural es => es

end

def LValue.types : LValue → List Ty
  | .var ty _ => [ty]
  | .field ty obj _ => ty :: obj.types

mutual

def Stmt.types : Stmt → List Ty
  | .assign ty lhs value => ty :: (lhs.types ++ value.types)
  | .expr ty e => ty :: e.types
  | .ret ty value => ty :: Expr.typesOf value.toList
  | .branch ty arm => ty :: arm.types
  | .pass ty => [ty]
termination_by structural s => s

def Arm.types : Arm → List Ty
  | .mk ty condition body alternative =>
    ty :: (Expr.typesOf condition.toList ++
      (Stmt.typesOf body ++ Arm.typesOfAlternative alternative))
termination_by structural a => a

def Arm.typesOfAlternative : Option Arm → List Ty
  | none => []
  | some arm => arm.types
termination_by structural a => a

def Stmt.typesOf : List Stmt → List Ty
  | [] => []
  | s :: rest => s.types ++ Stmt.typesOf rest
termination_by structural ss => ss

end

def Method.types (m : Method) : List Ty :=
  m.ret :: m.bodyTy ::
    (m.params.map (·.ty) ++ (m.definitions.map (·.ty) ++ Stmt.typesOf m.statements))

def Class.types (c : Class) : List Ty :=
  c.ty :: (c.fields.map (·.ty) ++ c.methods.flatMap (·.types))

def Program.types (p : Program) : List Ty :=
  p.ty :: (p.globals.map (·.ty) ++ (p.classes.flatMap (·.types) ++ Stmt.typesOf p.body))

end Typed

/-- The types of the variables of a scope, and those in the signatures of its classes. -/
inductive Scope.Mentions (scope : Scope) : Ty → Prop
  | var {name : String} {binding : Binding} (found : scope.vars.get? name = some binding) :
    Mentions scope binding.ty
  | field {cls name : String} {info : ClassInfo} {ty : Ty}
    (found : scope.classes.get? cls = some info) (field : info.fields.get? name = some ty) :
    Mentions scope ty
  | param {cls name : String} {info : ClassInfo} {signature : Signature} {ty : Ty}
    (found : scope.classes.get? cls = some info) (method : info.methods.get? name = some signature)
    (param : ty ∈ signature.params) : Mentions scope ty
  | ret {cls name : String} {info : ClassInfo} {signature : Signature}
    (found : scope.classes.get? cls = some info)
    (method : info.methods.get? name = some signature) : Mentions scope signature.ret

/-! ## Types that do not depend on the program -/

namespace Ty.NamedIn

variable {classes : List String}

theorem int : NamedIn classes .int := ⟨Ty.noConfusion, fun _ => Ty.noConfusion⟩

theorem bool : NamedIn classes .bool := ⟨Ty.noConfusion, fun _ => Ty.noConfusion⟩

theorem none : NamedIn classes .none := ⟨Ty.noConfusion, fun _ => Ty.noConfusion⟩

theorem object {cls : String} (mem : cls ∈ classes) : NamedIn classes (.object cls) :=
  ⟨Ty.noConfusion, fun _ eq => Ty.object.inj eq ▸ mem⟩

theorem literal (value : Literal) : NamedIn classes value.ty := by
  cases value with
  | none => exact none
  | bool value => exact bool
  | int value => exact int

theorem operand (op : UnOp) : NamedIn classes op.operandTy := by
  cases op with
  | not => exact bool
  | neg | plus => exact int

theorem result {op : BinOp} {lhs rhs ty : Ty} (operands : op.Types lhs rhs ty) :
    NamedIn classes ty := by
  cases operands with
  | arithmetic => exact int
  | compare | eq | ne | identity => exact bool

theorem builtin {name : String} {signature : Signature}
    (found : Host.builtins.get? name = some signature) : NamedIn classes signature.ret := by
  rcases Host.builtins_get? found with ⟨-, rfl⟩ | ⟨-, eq, -⟩
  · exact none
  · rw [eq]
    exact int

end Ty.NamedIn

/-! ## Scopes that mention no other types -/

namespace Scope

/-- The classes of the scope are among these, and so are all that it mentions. -/
structure Names (scope : Scope) (classes : List String) : Prop where
  functions : scope.functions = Host.builtins
  known : ∀ cls info, scope.classes.get? cls = some info → cls ∈ classes
  mentioned : ∀ ty, scope.Mentions ty → ty.NamedIn classes

namespace Names

variable {scope inner : Scope} {classes : List String}

theorem declared (names : scope.Names classes) {ty : Ty} (h : scope.Declares ty) :
    ty.NamedIn classes := by
  refine ⟨h.1, fun cls eq => ?_⟩
  obtain ⟨info, found⟩ := h.2 cls eq
  exact names.known cls info found

/-- A scope with the classes of another one mentions what that mentions, but for its variables. -/
theorem of_vars (names : scope.Names classes) (functions : inner.functions = scope.functions)
    (same : inner.classes = scope.classes)
    (vars : ∀ name binding, inner.vars.get? name = some binding → binding.ty.NamedIn classes) :
    inner.Names classes where
  functions := functions.trans names.functions
  known := same ▸ names.known
  mentioned := by
    intro ty h
    cases h with
    | var found => exact vars _ _ found
    | field found field => exact names.mentioned _ (.field (same ▸ found) field)
    | param found method param => exact names.mentioned _ (.param (same ▸ found) method param)
    | ret found method => exact names.mentioned _ (.ret (same ▸ found) method)

theorem enterClass (names : scope.Names classes) (cls : String) :
    (scope.enterClass cls).Names classes := by
  refine names.of_vars rfl rfl fun name binding found => ?_
  rw [Scope.enterClass, Table.get?_map, Option.map_eq_some_iff] at found
  obtain ⟨outer, found, rfl⟩ := found
  exact names.mentioned outer.ty (.var found)

theorem enterMethod (names : scope.Names classes) {ret : Ty} {own : List Param}
    (enters : scope.Enters inner ret own) (declared : ∀ p ∈ own, p.ty.NamedIn classes) :
    inner.Names classes := by
  refine names.of_vars enters.functions enters.classes fun name binding found => ?_
  rw [enters.vars, overlay] at found
  split at found
  · next p hp =>
    cases found
    exact declared p (List.mem_of_find?_eq_some hp)
  · exact names.mentioned _ (.var found)

end Names

end Scope

/-! ## Trees in such scopes -/

namespace Typed

section

variable {scope : Scope} {classes : List String}

theorem Expr.typesOf_named {es : List Expr}
    (h : ∀ e ∈ es, ∀ ty ∈ e.types, ty.NamedIn classes) :
    ∀ ty ∈ Expr.typesOf es, ty.NamedIn classes := by
  induction es with
  | nil => exact List.forall_mem_nil _
  | cons e rest ih =>
    obtain ⟨first, others⟩ := List.forall_mem_cons.1 h
    exact List.forall_mem_append.2 ⟨first, ih others⟩

theorem Expr.ty_mem_types (e : Expr) : e.ty ∈ e.types := by
  cases e <;> exact List.mem_cons_self

theorem Expr.Checked.types_named (names : scope.Names classes) {e : Expr} (h : e.Checked scope) :
    ∀ ty ∈ e.types, ty.NamedIn classes := by
  induction h with
  | literal value => exact List.forall_mem_singleton.2 (.literal value)
  | id found => exact List.forall_mem_singleton.2 (names.mentioned _ (.var found))
  | unary _ _ ih => exact List.forall_mem_cons.2 ⟨.operand _, ih⟩
  | binary _ _ operands left right =>
    exact List.forall_mem_cons.2 ⟨.result operands, List.forall_mem_append.2 ⟨left, right⟩⟩
  | @paren arg _ ih => exact List.forall_mem_cons.2 ⟨ih _ arg.ty_mem_types, ih⟩
  | call found _ _ ih =>
    exact List.forall_mem_cons.2 ⟨.builtin (names.functions ▸ found), Expr.typesOf_named ih⟩
  | construct found => exact List.forall_mem_singleton.2 (.object (names.known _ _ found))
  | methodCall _ _ found _ method _ _ receiver ih =>
    exact List.forall_mem_cons.2 ⟨names.mentioned _ (.ret found method),
      List.forall_mem_append.2 ⟨receiver, Expr.typesOf_named ih⟩⟩
  | field _ _ found field ih =>
    exact List.forall_mem_cons.2 ⟨names.mentioned _ (.field found field), ih⟩

theorem LValue.ty_mem_types (target : LValue) : target.ty ∈ target.types := by
  cases target <;> exact List.mem_cons_self

theorem LValue.Readable.types_named (names : scope.Names classes) {target : LValue}
    (h : target.Readable scope) : ∀ ty ∈ target.types, ty.NamedIn classes := by
  induction h with
  | var found => exact List.forall_mem_singleton.2 (names.mentioned _ (.var found))
  | field _ _ found field ih =>
    exact List.forall_mem_cons.2 ⟨names.mentioned _ (.field found field), ih⟩

theorem LValue.Writable.types_named (names : scope.Names classes) {target : LValue}
    (h : target.Writable scope) : ∀ ty ∈ target.types, ty.NamedIn classes := by
  cases h with
  | var found => exact List.forall_mem_singleton.2 (names.mentioned _ (.var found))
  | field receiver _ found field =>
    exact List.forall_mem_cons.2
      ⟨names.mentioned _ (.field found field), receiver.types_named names⟩

theorem Stmt.ty_mem_types (s : Stmt) : s.ty ∈ s.types := by
  cases s <;> exact List.mem_cons_self

theorem Arm.ty_mem_types (arm : Arm) : arm.ty ∈ arm.types := by
  cases arm
  exact List.mem_cons_self

theorem Stmt.typesOf_named {ss : List Stmt} (h : ∀ s ∈ ss, ∀ ty ∈ s.types, ty.NamedIn classes) :
    ∀ ty ∈ Stmt.typesOf ss, ty.NamedIn classes := by
  induction ss with
  | nil => exact List.forall_mem_nil _
  | cons s rest ih =>
    obtain ⟨first, others⟩ := List.forall_mem_cons.1 h
    exact List.forall_mem_append.2 ⟨first, ih others⟩

theorem Stmt.bodyTy_named {ss : List Stmt} (h : ∀ s ∈ ss, ∀ ty ∈ s.types, ty.NamedIn classes) :
    (bodyTy ss).NamedIn classes := by
  rcases bodyTy_cases ss with absent | ⟨s, mem, eq⟩
  · rw [absent]
    exact .none
  · exact eq ▸ h s mem s.ty s.ty_mem_types

/-- The type of an expression that may be missing. -/
theorem Expr.typesOf_optional_named (names : scope.Names classes) {value : Option Expr}
    (h : ∀ e ∈ value, e.Checked scope) :
    ∀ ty ∈ Expr.typesOf value.toList, ty.NamedIn classes :=
  Expr.typesOf_named fun e mem => (h e (Option.mem_toList.1 mem)).types_named names

mutual

theorem Stmt.Checked.types_named (names : scope.Names classes) {s : Stmt} (h : s.Checked scope) :
    ∀ ty ∈ s.types, ty.NamedIn classes := by
  cases h with
  | assign target checked =>
    exact List.forall_mem_cons.2 ⟨.none,
      List.forall_mem_append.2 ⟨target.types_named names, checked.types_named names⟩⟩
  | expr checked => exact List.forall_mem_cons.2 ⟨.none, checked.types_named names⟩
  | bareRet => exact List.forall_mem_cons.2 ⟨.none, List.forall_mem_nil _⟩
  | @ret e _ checked =>
    have named := checked.types_named names
    refine List.forall_mem_cons.2 ⟨named _ e.ty_mem_types, Expr.typesOf_named ?_⟩
    exact List.forall_mem_singleton.2 named
  | @branch arm checked =>
    have named := Arm.Checked.types_named names checked
    exact List.forall_mem_cons.2 ⟨named _ arm.ty_mem_types, named⟩
  | pass => exact List.forall_mem_cons.2 ⟨.none, List.forall_mem_nil _⟩

theorem Arm.Checked.types_named (names : scope.Names classes) {arm : Arm} (h : arm.Checked scope) :
    ∀ ty ∈ arm.types, ty.NamedIn classes := by
  cases h with
  | @mk ty condition body alternative test other block merged =>
    have named := fun s mem => Stmt.Checked.types_named names (block s mem)
    have own : ty.NamedIn classes := by
      rcases armTy?_cases merged with rfl | rfl
      · exact .none
      · exact Stmt.bodyTy_named named
    have condition_named := Expr.typesOf_optional_named names fun e mem => (test e mem).1
    refine List.forall_mem_cons.2 ⟨own, List.forall_mem_append.2 ⟨condition_named,
      List.forall_mem_append.2 ⟨Stmt.typesOf_named named, ?_⟩⟩⟩
    cases alternative with
    | none => exact List.forall_mem_nil _
    | some arm => exact Arm.Checked.types_named names (other arm rfl)

end

end

end Typed

/-! ## Programs -/

namespace Source

section

variable {scope : Scope} {classes : List String}

theorem VarDef.types_named (names : scope.Names classes) {vs : List VarDef}
    (h : ∀ v ∈ vs, v.Checked scope) : ∀ ty ∈ vs.map (·.ty), ty.NamedIn classes :=
  List.forall_mem_map.2 fun v mem => names.declared (h v mem).declared

theorem Method.types_named (names : scope.Names classes) {m : Method} {tm : Typed.Method}
    (h : m.check scope = .ok tm) : ∀ ty ∈ tm.types, ty.NamedIn classes := by
  obtain ⟨inner, opens, -, statements, hs, -, rfl⟩ := Method.check_eq_ok.1 h
  have params : ∀ p ∈ m.params, p.ty.NamedIn classes := fun p mem =>
    names.declared (opens.params p mem)
  have definitions := VarDef.types_named names opens.definitions
  have own : ∀ p ∈ m.params ++ m.definitions.map fun v => ⟨v.name, v.ty⟩,
      p.ty.NamedIn classes :=
    List.forall_mem_append.2 ⟨params, List.forall_mem_map.2 (List.forall_mem_map.1 definitions)⟩
  have inside := names.enterMethod (Scope.enterMethod_enters opens.enters) own
  have named := fun s mem =>
    Typed.Stmt.Checked.types_named inside (Stmt.checkAll_checked hs s mem)
  exact List.forall_mem_cons.2 ⟨names.declared opens.ret, List.forall_mem_cons.2
    ⟨Typed.Stmt.bodyTy_named named, List.forall_mem_append.2 ⟨List.forall_mem_map.2 params,
      List.forall_mem_append.2 ⟨definitions, Typed.Stmt.typesOf_named named⟩⟩⟩⟩

theorem Class.types_named (names : scope.Names classes) {c : Class} (mem : c.name ∈ classes)
    {tc : Typed.Class} (h : c.check scope = .ok tc) : ∀ ty ∈ tc.types, ty.NamedIn classes := by
  obtain ⟨fields, methods, pass, rfl⟩ := Class.check_eq_ok.1 h
  refine List.forall_mem_cons.2 ⟨.object mem, List.forall_mem_append.2
    ⟨VarDef.types_named names fields, fun ty inMethods => ?_⟩⟩
  obtain ⟨tm, memMethods, inMethod⟩ := List.mem_flatMap.1 inMethods
  obtain ⟨m, -, hm⟩ := exists_left_of_forall₂ pass memMethods
  exact Method.types_named (names.enterClass c.name) hm ty inMethod

theorem programTy_named {body : List Typed.Stmt}
    (h : ∀ s ∈ body, ∀ ty ∈ s.types, ty.NamedIn classes) : (programTy body).NamedIn classes := by
  unfold programTy
  split
  · next e last =>
    have inLast := h _ (List.mem_of_getLast? last)
    exact inLast _ (List.mem_cons_of_mem _ e.ty_mem_types)
  · next s _ last => exact h s (List.mem_of_getLast? last) s.ty s.ty_mem_types
  · exact .none

end

variable {p : Program} {tp : Typed.Program} {scope : Scope}

/-- The whole scope of a program is in order as soon as all classes have passed. -/
theorem Program.scope_names (accepted : p.check = .ok (tp, scope)) :
    scope.Names (p.classes.map (·.name)) := by
  have checked := check_checked accepted
  have shows := scope_shows (check_parts accepted).1
  have known : ∀ cls info, scope.classes.get? cls = some info → cls ∈ p.classes.map (·.name) := by
    intro cls info found
    obtain ⟨c, mem, rfl, -⟩ := shows.classes.only cls info found
    exact List.mem_map_of_mem mem
  have declared : ∀ {ty : Ty}, scope.Declares ty → ty.NamedIn (p.classes.map (·.name)) :=
    fun h => ⟨h.1, fun cls eq => (h.2 cls eq).elim fun info found => known cls info found⟩
  refine ⟨checked.functions, known, fun ty mentioned => ?_⟩
  cases mentioned with
  | var found =>
    obtain ⟨v, mem, -, rfl⟩ := checked.vars.only _ _ found
    exact declared (checked.globals v mem).declared
  | field found field =>
    obtain ⟨c, mem, -, shown⟩ := checked.classes.only _ _ found
    obtain ⟨f, memFields, -, rfl⟩ := shown.fields.only _ _ field
    exact declared ((checked.bodies c mem).fields f memFields).declared
  | param found method param =>
    obtain ⟨c, mem, -, shown⟩ := checked.classes.only _ _ found
    obtain ⟨m, memMethods, -, rest, params, shape⟩ := shown.methods.only _ _ method
    obtain ⟨inner, hm⟩ := (checked.bodies c mem).methods m memMethods
    rcases shape with ⟨-, -, -, rfl⟩ | ⟨-, rfl⟩
    · cases param
    · obtain ⟨q, memRest, rfl⟩ := List.mem_map.1 param
      have inside := hm.params q (params ▸ List.mem_cons_of_mem _ memRest)
      exact declared ⟨inside.1, inside.2⟩
  | @ret cls _ _ _ found method =>
    obtain ⟨c, mem, rfl, shown⟩ := checked.classes.only _ _ found
    obtain ⟨m, memMethods, -, rest, -, shape⟩ := shown.methods.only _ _ method
    obtain ⟨inner, hm⟩ := (checked.bodies c mem).methods m memMethods
    rcases shape with ⟨-, -, -, rfl⟩ | ⟨-, rfl⟩
    · exact .object (known _ _ found)
    · exact declared ⟨hm.ret.1, hm.ret.2⟩

/-- No type in a checked program is `any` or names a class that is not declared, in its tree or in
its scope. -/
theorem Program.types_declared (p : Program) (tp : Typed.Program) (scope : Scope)
    (accepted : p.check = .ok (tp, scope)) :
    (∀ ty ∈ tp.types, ty.NamedIn (p.classes.map (·.name))) ∧
      ∀ ty, scope.Mentions ty → ty.NamedIn (p.classes.map (·.name)) := by
  have names := scope_names accepted
  refine ⟨?_, names.mentioned⟩
  obtain ⟨-, globals, classes, pass, body, last, rfl⟩ := check_eq_ok.1 accepted
  have named := fun s mem =>
    Typed.Stmt.Checked.types_named names (Stmt.checkAll_checked last s mem)
  refine List.forall_mem_cons.2 ⟨programTy_named named, List.forall_mem_append.2
    ⟨VarDef.types_named names globals, List.forall_mem_append.2
      ⟨fun ty inClasses => ?_, Typed.Stmt.typesOf_named named⟩⟩⟩
  obtain ⟨tc, memClasses, inClass⟩ := List.mem_flatMap.1 inClasses
  obtain ⟨c, mem, hc⟩ := exists_left_of_forall₂ pass memClasses
  exact Class.types_named names (List.mem_map_of_mem mem) hc ty inClass

theorem Program.types_declared_counter :
    ∃ tp scope, counter.check = .ok (tp, scope) ∧ Ty.object "Counter" ∈ tp.types ∧
      (∀ ty ∈ tp.types, ty.NamedIn ["Counter"]) ∧
      ∀ ty, scope.Mentions ty → ty.NamedIn ["Counter"] := by
  obtain ⟨⟨tp, scope⟩, accepted⟩ : ∃ r, counter.check = .ok r := ⟨_, rfl⟩
  obtain ⟨tree, mentioned⟩ := types_declared counter tp scope accepted
  have global : Ty.object "Counter" ∈ tp.types := by
    cases accepted
    exact List.mem_cons_of_mem _ List.mem_cons_self
  exact ⟨tp, scope, accepted, global, tree, mentioned⟩

end Source

end ClassLang
