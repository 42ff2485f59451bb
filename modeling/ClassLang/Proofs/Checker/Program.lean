/-
What the checker promises of whole programs.

The scope of the outermost level holds exactly the declarations of the program, every declared type
has been looked at, and every body keeps to the rules in the scope that it stands in.
-/
import ClassLang.Proofs.Checker.Judgment
import ClassLang.Proofs.Checker.Method
import ClassLang.Proofs.Checker.Signature
import ClassLang.Source.Build

namespace ClassLang

/-- A type that declarations may use. -/
def Scope.Declares (scope : Scope) (ty : Ty) : Prop :=
  ty ≠ .any ∧ ∀ cls, ty = .object cls → ∃ info, scope.classes.get? cls = some info

theorem Scope.checkDeclared_eq_ok {scope : Scope} {ty : Ty} {u : Unit} :
    scope.checkDeclared ty = .ok u ↔ scope.Declares ty := by
  cases ty with
  | any =>
    constructor
    · rintro ⟨⟩
    · exact fun h => absurd rfl h.1
  | object cls =>
    simp only [checkDeclared, bind_eq_ok, classInfo_eq_ok, pure_eq_ok, and_true, Declares]
    constructor
    · rintro ⟨info, found⟩
      refine ⟨Ty.noConfusion, fun _ eq => ?_⟩
      cases eq
      exact ⟨info, found⟩
    · exact fun h => h.2 cls rfl
  | int | bool | none =>
    constructor
    · intro _
      refine ⟨Ty.noConfusion, fun cls eq => ?_⟩
      cases eq
    · exact fun _ => rfl

structure VarDef.Checked (scope : Scope) (v : VarDef) : Prop where
  declared : scope.Declares v.ty
  takes : v.ty.Takes v.value.ty

theorem VarDef.check_eq_ok {scope : Scope} {v checked : VarDef} :
    v.check scope = .ok checked ↔ checked = v ∧ v.Checked scope := by
  simp only [check, bind_eq_ok, pure_eq_ok, Scope.checkDeclared_eq_ok, Ty.require_eq_ok]
  constructor
  · rintro ⟨_, declared, _, takes, rfl⟩
    exact ⟨rfl, declared, takes⟩
  · rintro ⟨rfl, checked⟩
    exact ⟨(), checked.declared, (), checked.takes, rfl⟩

theorem VarDef.mapM_check_eq_ok {scope : Scope} {vs checked : List VarDef} :
    vs.mapM (·.check scope) = .ok checked ↔ checked = vs ∧ ∀ v ∈ vs, v.Checked scope := by
  rw [mapM_eq_ok]
  constructor
  · intro h
    induction h with
    | nil => exact ⟨rfl, List.forall_mem_nil _⟩
    | cons hv _ ih =>
      obtain ⟨rfl, checked⟩ := VarDef.check_eq_ok.1 hv
      exact ⟨by rw [ih.1], List.forall_mem_cons.2 ⟨checked, ih.2⟩⟩
  · rintro ⟨rfl, checked⟩
    exact List.forall₂_same.2 fun v mem => VarDef.check_eq_ok.2 ⟨rfl, checked v mem⟩

namespace Typed

/-- The variables of a method: its parameters, then its locals. -/
def Method.variables (m : Method) : List Param :=
  m.params ++ m.definitions.map fun v => ⟨v.name, v.ty⟩

/-- A method of class `cls` takes the object first, and shows callers the given signature. -/
def Method.Shows (cls : String) (m : Method) (signature : Signature) : Prop :=
  ∃ rest, m.params = ⟨"self", .object cls⟩ :: rest ∧
    (m.isConstructor = true ∧ rest = [] ∧ m.ret = .none ∧ signature = ⟨[], .object cls⟩ ∨
      m.isConstructor = false ∧ signature = ⟨rest.map Param.ty, m.ret⟩)

structure Method.Checked (scope : Scope) (m : Method) (inner : Scope) : Prop where
  params : ∀ p ∈ m.params, scope.Declares p.ty
  ret : scope.Declares m.ret
  definitions : ∀ v ∈ m.definitions, v.Checked scope
  enters : scope.enterMethod m.ret m.params (m.definitions.map fun v => ⟨v.name, v.ty⟩) = .ok inner
  statements : ∀ s ∈ m.statements, s.Checked inner
  returns : m.ret.Takes (Typed.bodyTy m.statements)

/-- What the scope says of a class. -/
structure Class.Shows (c : Class) (info : ClassInfo) : Prop where
  fields : Table.Filled VarDef.name (fun v ty => ty = v.ty) c.fields info.fields
  methods : Table.Filled Method.name (Method.Shows c.name) c.methods info.methods

structure Class.Checked (scope : Scope) (c : Class) : Prop where
  fields : ∀ f ∈ c.fields, f.Checked scope
  methods : ∀ m ∈ c.methods, ∃ inner, m.Checked (scope.enterClass c.name) inner

structure Program.Checked (p : Program) (scope : Scope) : Prop where
  functions : scope.functions = Host.builtins
  owner : scope.owner = none
  vars : Table.Filled VarDef.name (fun v binding => binding = ⟨v.ty, true⟩) p.globals scope.vars
  classes : Table.Filled Class.name Class.Shows p.classes scope.classes
  globals : ∀ v ∈ p.globals, v.Checked scope
  bodies : ∀ c ∈ p.classes, c.Checked scope
  body : ∀ s ∈ p.body, s.Checked scope

end Typed

namespace Source

/-! ## Signatures -/

theorem Method.signature_shows {cls : String} {m : Method} {signature : Signature}
    (h : m.signature cls = .ok signature) {tm : Typed.Method} (name : tm.name = m.name)
    (params : tm.params = m.params) (ret : tm.ret = m.ret) : tm.Shows cls signature := by
  obtain ⟨signed, rfl⟩ := signature_eq_ok.1 h
  obtain ⟨rest, hp, single⟩ := signed.params_eq
  refine ⟨rest, params.trans hp, ?_⟩
  rw [Typed.Method.isConstructor, shown, name, ret]
  by_cases isCtor : m.name = constructorName
  · exact Or.inl ⟨decide_eq_true isCtor, single isCtor, (signed.alone isCtor).2, if_pos isCtor⟩
  · rw [if_neg isCtor, hp]
    exact Or.inr ⟨decide_eq_false isCtor, rfl⟩

/-- What the pass over signatures makes of a class. -/
structure Class.Shows (c : Class) (info : ClassInfo) : Prop where
  fields : Table.Filled VarDef.name (fun v ty => ty = v.ty) c.fields info.fields
  methods : Table.Filled Method.name (fun m signature => m.signature c.name = .ok signature)
    c.methods info.methods

theorem Class.signature_shows {c : Class} {info : ClassInfo} (h : c.signature = .ok info) :
    c.Shows info := by
  have declares := Class.signature_eq_ok.1 h
  exact ⟨declares.fields, declares.methods.imp fun _ _ given => given.2⟩

/-- What the pass over signatures makes of a program. -/
structure Program.Shows (p : Program) (scope : Scope) : Prop where
  functions : scope.functions = Host.builtins
  owner : scope.owner = none
  vars : Table.Filled VarDef.name (fun v binding => binding = ⟨v.ty, true⟩) p.globals scope.vars
  classes : Table.Filled Class.name Class.Shows p.classes scope.classes

theorem Program.scope_shows {p : Program} {scope : Scope} (h : p.scope = .ok scope) :
    p.Shows scope := by
  have declares := Program.scope_eq_ok.1 h
  exact ⟨declares.functions, declares.owner, declares.vars,
    declares.classes.imp fun _ _ given => Class.signature_shows given⟩

/-! ## Bodies -/

end Source

/-- `inner` is the scope of a method that declares these names, and all that it declares is in
order. -/
structure Scope.Opens (outer : Scope) (ps : List Param) (result : Ty) (vs : List VarDef)
    (inner : Scope) : Prop where
  params : ∀ p ∈ ps, outer.Declares p.ty
  ret : outer.Declares result
  definitions : ∀ v ∈ vs, v.Checked outer
  enters : outer.enterMethod result ps (vs.map fun v => ⟨v.name, v.ty⟩) = .ok inner

namespace Source

/-- Once the statements have passed, only the verdict on their type is left. -/
theorem Method.check_of_passed {scope inner : Scope} {m : Method}
    (opens : scope.Opens m.params m.ret m.definitions inner)
    (quiet : m.name = constructorName → Stmt.anyReturnsValue m.statements = false)
    {typed : List Typed.Stmt} (passed : Stmt.checkAll inner m.statements = .ok typed) :
    m.check scope =
      (m.ret.require (Typed.bodyTy typed) (m.returnError (Typed.bodyTy typed)) >>= fun _ =>
        pure { name := m.name, ret := m.ret, params := m.params, definitions := m.definitions,
               statements := typed, bodyTy := Typed.bodyTy typed }) := by
  have params : m.params.forM (fun p => scope.checkDeclared p.ty) = .ok () :=
    forM_eq_ok.2 fun p mem => Scope.checkDeclared_eq_ok.2 (opens.params p mem)
  have ret : scope.checkDeclared m.ret = .ok () := Scope.checkDeclared_eq_ok.2 opens.ret
  have definitions : m.definitions.mapM (·.check scope) = .ok m.definitions :=
    VarDef.mapM_check_eq_ok.2 ⟨rfl, opens.definitions⟩
  have plain : ¬(m.name = constructorName && Stmt.anyReturnsValue m.statements) = true := by
    rwa [Bool.and_eq_true, decide_eq_true_eq, not_and, Bool.not_eq_true]
  simp only [check, params, ret, definitions, opens.enters, plain, passed, bind, Except.bind,
    if_false, Bool.false_eq_true]

theorem Method.check_eq_ok {scope : Scope} {m : Method} {tm : Typed.Method} :
    m.check scope = .ok tm ↔
      ∃ inner, scope.Opens m.params m.ret m.definitions inner ∧
        (m.name = constructorName → Stmt.anyReturnsValue m.statements = false) ∧
          ∃ statements, Stmt.checkAll inner m.statements = .ok statements ∧
            m.ret.Takes (Typed.bodyTy statements) ∧
              { name := m.name, ret := m.ret, params := m.params, definitions := m.definitions,
                statements, bodyTy := Typed.bodyTy statements } = tm := by
  constructor
  · simp only [Method.check, bind_eq_ok, forM_eq_ok, Scope.checkDeclared_eq_ok,
      VarDef.mapM_check_eq_ok]
    rintro ⟨_, params, _, ret, definitions, ⟨rfl, hdefs⟩, inner, enters, h⟩
    refine ⟨inner, ⟨params, ret, hdefs, enters⟩, ?_⟩
    split at h
    · cases h
    · next quiet =>
      rw [Bool.and_eq_true, decide_eq_true_eq, not_and, Bool.not_eq_true] at quiet
      simp only [bind_eq_ok, pure_eq_ok, Ty.require_eq_ok] at h
      obtain ⟨statements, hs, _, returns, rfl⟩ := h
      exact ⟨quiet, statements, hs, returns, rfl⟩
  · rintro ⟨inner, opens, quiet, statements, hs, returns, rfl⟩
    rw [check_of_passed opens quiet hs]
    exact bind_eq_ok.2 ⟨(), Ty.require_eq_ok.2 returns, rfl⟩

theorem Class.check_eq_ok {scope : Scope} {c : Class} {tc : Typed.Class} :
    c.check scope = .ok tc ↔
      (∀ f ∈ c.fields, f.Checked scope) ∧
        ∃ methods, List.Forall₂ (fun m tm => m.check (scope.enterClass c.name) = .ok tm) c.methods
          methods ∧ { name := c.name, ty := .object c.name, fields := c.fields, methods } = tc := by
  -- entering the class hides no class, so its fields may as well be checked outside
  have outside : ∀ f : VarDef, f.Checked (scope.enterClass c.name) ↔ f.Checked scope := fun f =>
    ⟨fun h => ⟨h.declared, h.takes⟩, fun h => ⟨h.declared, h.takes⟩⟩
  simp only [Class.check, bind_eq_ok, pure_eq_ok, VarDef.mapM_check_eq_ok, outside]
  constructor
  · rintro ⟨fields, ⟨rfl, checked⟩, methods, pass, rfl⟩
    exact ⟨checked, methods, mapM_eq_ok.1 pass, rfl⟩
  · rintro ⟨checked, methods, pass, rfl⟩
    exact ⟨c.fields, ⟨rfl, checked⟩, methods, mapM_eq_ok.2 pass, rfl⟩

theorem Program.check_eq_ok {p : Program} {tp : Typed.Program} {scope : Scope} :
    p.check = .ok (tp, scope) ↔
      p.scope = .ok scope ∧ (∀ v ∈ p.globals, v.Checked scope) ∧
        ∃ classes, List.Forall₂ (fun c tc => c.check scope = .ok tc) p.classes classes ∧
          ∃ body, Stmt.checkAll scope p.body = .ok body ∧
            { ty := programTy body, globals := p.globals, classes, body } = tp := by
  simp only [Program.check, bind_eq_ok, pure_eq_ok, VarDef.mapM_check_eq_ok]
  constructor
  · rintro ⟨_, start, globals, ⟨rfl, checked⟩, classes, pass, body, last, eq⟩
    obtain ⟨rfl, rfl⟩ := Prod.mk.inj eq
    exact ⟨start, checked, classes, mapM_eq_ok.1 pass, body, last, rfl⟩
  · rintro ⟨start, checked, classes, pass, body, last, rfl⟩
    exact ⟨scope, start, p.globals, ⟨rfl, checked⟩, classes, mapM_eq_ok.2 pass, body, last, rfl⟩

theorem Method.check_checked {scope : Scope} {m : Method} {tm : Typed.Method}
    (h : m.check scope = .ok tm) :
    (tm.name = m.name ∧ tm.params = m.params ∧ tm.ret = m.ret ∧ tm.definitions = m.definitions) ∧
      ∃ inner, tm.Checked scope inner := by
  obtain ⟨inner, opens, -, statements, hs, returns, rfl⟩ := Method.check_eq_ok.1 h
  exact ⟨⟨rfl, rfl, rfl, rfl⟩, inner, opens.params, opens.ret, opens.definitions, opens.enters,
    Stmt.checkAll_checked hs, returns⟩

theorem Class.check_parts {scope : Scope} {c : Class} {tc : Typed.Class}
    (h : c.check scope = .ok tc) :
    (tc.name = c.name ∧ tc.fields = c.fields) ∧ (∀ f ∈ c.fields, f.Checked scope) ∧
      List.Forall₂ (fun m tm => m.check (scope.enterClass c.name) = .ok tm) c.methods
        tc.methods := by
  obtain ⟨checked, methods, pass, rfl⟩ := Class.check_eq_ok.1 h
  exact ⟨⟨rfl, rfl⟩, checked, pass⟩

theorem Class.check_checked {scope : Scope} {c : Class} {tc : Typed.Class}
    (h : c.check scope = .ok tc) :
    tc.name = c.name ∧ tc.Checked scope ∧ ∀ info, c.Shows info → tc.Shows info := by
  obtain ⟨⟨name, fields⟩, checked, methods⟩ := check_parts h
  refine ⟨name, ⟨fields ▸ checked, fun tm mem => ?_⟩, fun info shows => ⟨?_, ?_⟩⟩
  · obtain ⟨m, _, hm⟩ := exists_left_of_forall₂ methods mem
    rw [name]
    exact (Method.check_checked hm).2
  · rw [fields]
    exact shows.fields
  · rw [name]
    refine shows.methods.transfer (methods.imp fun m tm hm => ?_)
    obtain ⟨⟨name, params, ret, -⟩, -⟩ := Method.check_checked hm
    exact ⟨name, fun signature hs => Method.signature_shows hs name params ret⟩

theorem Program.check_parts {p : Program} {tp : Typed.Program} {scope : Scope}
    (h : p.check = .ok (tp, scope)) :
    p.scope = .ok scope ∧ (tp.globals = p.globals ∧ ∀ v ∈ p.globals, v.Checked scope) ∧
      List.Forall₂ (fun c tc => c.check scope = .ok tc) p.classes tp.classes ∧
      Stmt.checkAll scope p.body = .ok tp.body := by
  obtain ⟨start, checked, classes, pass, body, last, rfl⟩ := Program.check_eq_ok.1 h
  exact ⟨start, ⟨rfl, checked⟩, pass, last⟩

/-- The checker keeps to the rules. -/
theorem Program.check_checked {p : Program} {tp : Typed.Program} {scope : Scope}
    (h : p.check = .ok (tp, scope)) : tp.Checked scope := by
  obtain ⟨hscope, ⟨globals, hglobals⟩, hclasses, hbody⟩ := check_parts h
  have shows := Program.scope_shows hscope
  refine ⟨shows.functions, shows.owner, globals ▸ shows.vars, ?_, globals ▸ hglobals, ?_,
    Stmt.checkAll_checked hbody⟩
  · refine shows.classes.transfer (hclasses.imp fun c tc hc => ?_)
    obtain ⟨name, -, transfer⟩ := Class.check_checked hc
    exact ⟨name, transfer⟩
  · intro tc mem
    obtain ⟨c, _, hc⟩ := exists_left_of_forall₂ hclasses mem
    exact (Class.check_checked hc).2.1

/-- A program with a constructor, a method that may return early, and a call of a built-in. -/
def Program.counter : Program where
  globals := [⟨"c", .object "Counter", .none⟩]
  classes := [
    { name := "Counter"
      fields := [⟨"n", .int, .int 0⟩]
      methods := [
        { name := constructorName
          params := [⟨"self", .object "Counter"⟩]
          ret := .none
          definitions := []
          statements := [.assign (.field (.var "self") "n") (.int 5)] },
        { name := "add"
          params := [⟨"self", .object "Counter"⟩, ⟨"k", .int⟩]
          ret := .int
          definitions := []
          statements := [
            .ifThen (.binary .eq (.id "k") (.int 0)) [.give (.field (.id "self") "n")],
            .assign (.field (.var "self") "n")
              (.binary .add (.field (.id "self") "n") (.id "k")),
            .give (.field (.id "self") "n")] }] }]
  body := [
    .assign (.var "c") (.call "Counter" []),
    .expr (.call Host.printName [.methodCall (.id "c") "add" [.int 2]]),
    .expr (.methodCall (.id "c") "add" [.int 0])]

end Source

end ClassLang
