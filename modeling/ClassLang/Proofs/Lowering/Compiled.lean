/-
Checked programs beside their modules.

The functions of a module are found by the symbols of what they were made from, and the names that
a body uses lead back to the declarations of the program.
-/
import ClassLang.Proofs.Lowering.Addresses
import ClassLang.Proofs.Lowering.Symbols

namespace ClassLang

/-- Among declarations of different names, each is the only one of its own. -/
theorem filter_of_mem {β ν : Type} [DecidableEq ν] {name : β → ν} {l : List β}
    (distinct : (l.map name).Nodup) {x : β} (mem : x ∈ l) :
    l.filter (name · = name x) = [x] := by
  induction l with
  | nil => cases mem
  | cons y l ih =>
    rw [List.map_cons, List.nodup_cons] at distinct
    rcases List.mem_cons.1 mem with rfl | mem
    · have others : l.filter (name · = name x) = [] := by
        rw [List.filter_eq_nil_iff]
        intro y hy eq
        exact distinct.1 (of_decide_eq_true eq ▸ List.mem_map_of_mem hy)
      rw [List.filter_cons_of_pos (by simp), others]
    · have ne : name y ≠ name x := fun eq => distinct.1 (eq ▸ List.mem_map_of_mem mem)
      rw [List.filter_cons_of_neg (by simpa using ne)]
      exact ih distinct.2 mem

namespace Typed

theorem Method.variables_names (m : Method) :
    m.variables.map Param.name = m.params.map Param.name ++ m.definitions.map VarDef.name := by
  rw [Method.variables, List.map_append, List.map_map]
  rfl

/-- The locals of a method when it is entered: its own are zero, and its parameters are what has
been passed. -/
theorem Method.entry_names {m : Method} {words : List Int32}
    (count : words.length = m.params.length) :
    ((scratch, (0 : Int32)) :: (m.definitions.map VarDef.name).map (·, 0) ++
      (m.params.map Param.name).zip words).map Prod.fst =
        scratch :: (m.definitions.map VarDef.name ++ m.params.map Param.name) := by
  have enough : (m.params.map Param.name).length ≤ words.length := by
    rw [List.length_map]
    omega
  have zeros : ((m.definitions.map VarDef.name).map (·, (0 : Int32))).map Prod.fst =
      m.definitions.map VarDef.name := by
    rw [List.map_map]
    exact List.map_id _
  rw [List.map_append, List.map_cons, zeros, List.map_fst_zip enough]
  rfl

theorem Method.entry_nodup {m : Method} (distinct : (m.variables.map Param.name).Nodup)
    (plain : ∀ q ∈ m.variables, ClassLang.Plain q.name) {words : List Int32}
    (count : words.length = m.params.length) :
    (((scratch, (0 : Int32)) :: (m.definitions.map VarDef.name).map (·, 0) ++
      (m.params.map Param.name).zip words).map Prod.fst).Nodup := by
  rw [Method.variables_names, List.nodup_append] at distinct
  obtain ⟨distinctParams, distinctDefinitions, disjoint⟩ := distinct
  rw [Method.entry_names count, List.nodup_cons]
  constructor
  · intro named
    have own : scratch ∈ m.variables.map Param.name := by
      rw [Method.variables_names]
      exact List.mem_append.2 (List.mem_append.1 named).symm
    obtain ⟨r, hr, eq⟩ := List.mem_map.1 own
    exact (plain r hr).ne_scratch eq
  · exact List.nodup_append.2 ⟨distinctDefinitions, distinctParams,
      fun a ha b hb => (disjoint b hb a ha).symm⟩

/-- Each parameter is bound to an argument of its type. -/
theorem exists_arg {β : Type} {Fits : β → Ty → Prop} {params : List Param} {args : List β}
    (fits : List.Forall₂ Fits args (params.map Param.ty)) {q : Param} (mem : q ∈ params) :
    ∃ v, (q.name, v) ∈ (params.map Param.name).zip args ∧ Fits v q.ty := by
  induction params generalizing args with
  | nil => cases mem
  | cons p params ih =>
    cases fits with
    | cons first rest =>
      rcases List.mem_cons.1 mem with rfl | mem
      · exact ⟨_, List.mem_cons_self, first⟩
      · obtain ⟨v, found, fits⟩ := ih rest mem
        exact ⟨v, List.mem_cons_of_mem _ found, fits⟩

/-- The slot of a field is where it stands among the fields. -/
theorem Class.offset_eq {c : Class} (distinct : (c.fields.map VarDef.name).Nodup) {i : Nat}
    {f : VarDef} (field : c.fields[i]? = some f) {offset : UInt32}
    (lies : c.layout.offset? f.name = some offset) : offset.toInt32 = addressWord (4 * i) := by
  obtain ⟨j, there, eq⟩ := Layout.offset?_eq_some lies
  have named : c.layout.fields[i]? = some f.name := by
    rw [Class.layout, List.getElem?_map, field]
    rfl
  have bound := (List.getElem?_eq_some_iff.1 there).1
  have same : j = i := (List.getElem?_inj bound distinct).1 (there.trans named.symm)
  rw [eq, same]

theorem Program.Checked.lowerConstruct_eq {p : Program} {scope : Scope} (checked : p.Checked scope)
    (lays : scope.LaysOut p.classes) {c : Class} (mem : c ∈ p.classes) :
    ∃ fields, initFields c.name c.layout c.fields = .ok fields ∧
      c.lowerConstruct (scope.enterClass c.name) =
        .ok (c.constructFunc fields (c.methods.any Method.isConstructor)) := by
  obtain ⟨info, found, laid⟩ := lays c mem
  obtain ⟨info', shows, found'⟩ := checked.classes.found c mem
  cases found.symm.trans found'
  have inside : (scope.enterClass c.name).classes.get? c.name = some info := found
  rw [← shows.contains_constructor]
  exact Class.lowerConstruct_ok inside laid

/-- The function that makes an object of a class is in the module. -/
theorem Program.Lowers.exists_construct {p : Program} {scope : Scope} {m : Module}
    (lowers : p.Lowers scope m) (checked : p.Checked scope) (lays : scope.LaysOut p.classes)
    {c : Class} (mem : c ∈ p.classes) :
    ∃ fields, initFields c.name c.layout c.fields = .ok fields ∧
      c.lowerConstruct (scope.enterClass c.name) =
        .ok (c.constructFunc fields (c.methods.any Method.isConstructor)) ∧
      c.constructFunc fields (c.methods.any Method.isConstructor) ∈ m.functions := by
  obtain ⟨functions, bare, code, pass, -, rfl⟩ := lowers
  obtain ⟨fs, hfs, construct, methods, made, -, rfl⟩ := exists_right_of_forall₂ pass mem
  obtain ⟨fields, filled, made'⟩ := checked.lowerConstruct_eq lays mem
  cases made.symm.trans made'
  exact ⟨fields, filled, made, List.mem_flatten.2 ⟨_, hfs, List.mem_cons_self⟩⟩

theorem Program.Lowers.function_cases {p : Program} {scope : Scope} {m : Module}
    (lowers : p.Lowers scope m) (checked : p.Checked scope) (lays : scope.LaysOut p.classes)
    {f : Func} (mem : f ∈ m.functions) :
    ∃ c ∈ p.classes,
      (∃ fields, initFields c.name c.layout c.fields = .ok fields ∧
        f = c.constructFunc fields (c.methods.any Method.isConstructor)) ∨
      ∃ m ∈ c.methods, ∃ inner code, m.Checked (scope.enterClass c.name) inner ∧
        Stmt.lowerAll inner m.bare m.statements = .ok code ∧ f = m.func c.name code := by
  obtain ⟨functions, bare, code, pass, -, rfl⟩ := lowers
  obtain ⟨fs, hfs, hf⟩ := List.mem_flatten.1 mem
  obtain ⟨c, hc, construct, methods, made, each, rfl⟩ := exists_left_of_forall₂ pass hfs
  refine ⟨c, hc, ?_⟩
  rcases List.mem_cons.1 hf with rfl | hf
  · obtain ⟨fields, filled, made'⟩ := checked.lowerConstruct_eq lays hc
    cases made.symm.trans made'
    exact Or.inl ⟨fields, filled, rfl⟩
  · obtain ⟨m, hm, turns⟩ := exists_left_of_forall₂ each hf
    obtain ⟨inner, passed⟩ := (checked.bodies c hc).methods m hm
    obtain ⟨code, lowered, rfl⟩ := turns.exists_code passed
    exact Or.inr ⟨m, hm, inner, code, passed, lowered, rfl⟩

theorem Program.Checked.constructor_params {p : Program} {scope : Scope} (checked : p.Checked scope)
    {c : Class} (mem : c ∈ p.classes) {m : Method} (hm : m ∈ c.methods)
    (isConstructor : m.isConstructor = true) : m.params = [⟨"self", .object c.name⟩] := by
  obtain ⟨info, shows, -⟩ := checked.classes.found c mem
  obtain ⟨signature, ⟨rest, params, kind⟩, -⟩ := shows.methods.found m hm
  rcases kind with ⟨-, rfl, -⟩ | ⟨ordinary, -⟩
  · exact params
  · rw [isConstructor] at ordinary
    cases ordinary

theorem Method.bare_self {m : Method} (self : m.bare = .self) :
    m.isConstructor = true := by
  cases kind : m.isConstructor with
  | true => rfl
  | false =>
    rw [Method.bare_of_ordinary kind] at self
    cases self

end Typed

/-- A checked program, laid out, and its module. -/
structure Compiled where
  program : Typed.Program
  scope : Scope
  target : Module
  checked : program.Checked scope
  lays : scope.LaysOut program.classes
  lowers : program.Lowers scope target
  plain : program.Plain

namespace Compiled

variable {S : Compiled}

/-! ## Functions -/

theorem functions_nodup : (S.target.functions.map Func.name).Nodup := by
  rw [S.lowers.names S.lays]
  exact (S.checked.symbols_nodup S.plain).map fun a b same => Option.some.inj same

/-- Each function is the one that its name calls. -/
theorem find_of_mem {f : Func} (mem : f ∈ S.target.functions) {symbol : String}
    (name : f.name = some symbol) : S.target.functions.find? (·.name = some symbol) = some f := by
  rw [← name]
  exact find?_of_mem S.functions_nodup mem

theorem exists_construct {c : Typed.Class} (mem : c ∈ S.program.classes) :
    ∃ fields, Typed.initFields c.name c.layout c.fields = .ok fields ∧
      c.constructFunc fields (c.methods.any Typed.Method.isConstructor) ∈ S.target.functions := by
  obtain ⟨fields, filled, -, inModule⟩ := S.lowers.exists_construct S.checked S.lays mem
  exact ⟨fields, filled, inModule⟩

theorem exists_method {c : Typed.Class} (mem : c ∈ S.program.classes) {m : Typed.Method}
    (hm : m ∈ c.methods) : ∃ inner code, m.Checked (S.scope.enterClass c.name) inner ∧
      Typed.Stmt.lowerAll inner m.bare m.statements = .ok code ∧
        m.func c.name code ∈ S.target.functions := by
  obtain ⟨inner, code, checked, lowered, inModule, -⟩ := S.lowers.exists_function S.checked mem hm
  exact ⟨inner, code, checked, lowered, inModule⟩

/-- There are no other functions. -/
theorem function_cases {f : Func} (mem : f ∈ S.target.functions) :
    ∃ c ∈ S.program.classes,
      (∃ fields, Typed.initFields c.name c.layout c.fields = .ok fields ∧
        f = c.constructFunc fields (c.methods.any Typed.Method.isConstructor)) ∨
      ∃ m ∈ c.methods, ∃ inner code, m.Checked (S.scope.enterClass c.name) inner ∧
        Typed.Stmt.lowerAll inner m.bare m.statements = .ok code ∧ f = m.func c.name code :=
  S.lowers.function_cases S.checked S.lays mem

theorem exists_entry : ∃ bare code, Typed.Stmt.lowerAll S.scope bare S.program.body = .ok code ∧
    S.target.entry = S.program.entryFunc code := by
  obtain ⟨functions, bare, code, -, lowered, eq⟩ := S.lowers
  exact ⟨bare, code, lowered, by rw [← eq]; rfl⟩

theorem target_globals :
    S.target.globals = S.program.globals.map fun v => ⟨v.name, v.value.word⟩ := by
  obtain ⟨functions, bare, code, -, -, eq⟩ := S.lowers
  rw [← eq]
  rfl

theorem constructor_params {c : Typed.Class} (mem : c ∈ S.program.classes) {m : Typed.Method}
    (hm : m ∈ c.methods) (isConstructor : m.isConstructor = true) :
    m.params = [⟨"self", .object c.name⟩] :=
  S.checked.constructor_params mem hm isConstructor

/-- The method that a call finds, by the class and the signature that the checker has gone by. -/
theorem exists_called {cls name : String} {info : ClassInfo} {signature : Signature}
    (found : S.scope.classes.get? cls = some info) (ordinary : name ≠ Source.constructorName)
    (method : info.methods.get? name = some signature) :
    ∃ c ∈ S.program.classes, c.name = cls ∧ ∃ m ∈ c.methods, m.name = name ∧
      m.isConstructor = false ∧ m.ret = signature.ret ∧
        m.params.map Param.ty = .object cls :: signature.params ∧
          ∀ ty ∈ signature.params, ty ≠ .any := by
  obtain ⟨c, mem, rfl, shows⟩ := S.checked.classes.only cls info found
  obtain ⟨m, hm, rfl, rest, params, kind⟩ := shows.methods.only name signature method
  obtain ⟨inner, checked⟩ := (S.checked.bodies c mem).methods m hm
  have notConstructor : m.isConstructor = false := decide_eq_false ordinary
  rcases kind with ⟨isConstructor, -⟩ | ⟨-, rfl⟩
  · rw [notConstructor] at isConstructor
    cases isConstructor
  · refine ⟨c, mem, rfl, m, hm, rfl, notConstructor, rfl, ?_, fun ty inRest => ?_⟩
    · rw [params]
      rfl
    · obtain ⟨q, hq, rfl⟩ := List.mem_map.1 inRest
      exact (checked.params q (params ▸ List.mem_cons_of_mem _ hq)).1

/-- Where the layout of a class says that a field lies. -/
theorem exists_slot {cls field : String} {info : ClassInfo} {ty : Ty}
    (found : S.scope.classes.get? cls = some info) (declared : info.fields.get? field = some ty) :
    ∃ c ∈ S.program.classes, c.name = cls ∧ info.layout = some c.layout ∧
      ∃ offset, c.layout.offset? field = some offset ∧ ∃ (i : Nat) (f : VarDef),
        c.fields[i]? = some f ∧ f.name = field ∧ f.ty = ty ∧
          offset.toInt32 = addressWord (4 * i) := by
  obtain ⟨c, mem, rfl, shows⟩ := S.checked.classes.only cls info found
  obtain ⟨info', found', laid⟩ := S.lays c mem
  cases found.symm.trans found'
  obtain ⟨f, hf, rfl, rfl⟩ := shows.fields.only field ty declared
  obtain ⟨offset, lies⟩ := Layout.offset?_of_mem (List.mem_map_of_mem hf : f.name ∈ c.layout.fields)
  obtain ⟨i, here, eq⟩ := Layout.offset?_eq_some lies
  have named : (c.fields.map VarDef.name)[i]? = some f.name := here
  rw [List.getElem?_map, Option.map_eq_some_iff] at named
  obtain ⟨g, hg, name⟩ := named
  have same : g = f :=
    List.inj_on_of_nodup_map shows.fields.distinct (List.mem_of_getElem? hg) hf name
  exact ⟨c, mem, rfl, laid, offset, lies, i, f, same ▸ hg, rfl, rfl, eq⟩

/-! ## Names in bodies -/

/-- A name in the scope of a method is its own or that of a variable of the program. -/
theorem exists_binding {cls : String} {m : Typed.Method} {inner : Scope}
    (checked : m.Checked (S.scope.enterClass cls) inner) {name : String} {binding : Binding}
    (found : inner.vars.get? name = some binding) :
    (∃ q ∈ m.variables, q.name = name ∧ binding = ⟨q.ty, true⟩) ∨
      name ∉ m.variables.map Param.name ∧
        ∃ v ∈ S.program.globals, v.name = name ∧ binding = ⟨v.ty, false⟩ := by
  have enters := Scope.enterMethod_enters checked.enters
  by_cases own : name ∈ m.variables.map Param.name
  · obtain ⟨q, mem, rfl⟩ := List.mem_map.1 own
    have bound := (enters.vars q.name).trans (Scope.overlay_of_mem enters.distinct mem)
    rw [found] at bound
    exact Or.inl ⟨q, mem, rfl, Option.some.inj bound⟩
  · have bound := (enters.vars name).trans (Scope.overlay_of_not_mem own)
    rw [found, Scope.enterClass, Table.get?_map] at bound
    obtain ⟨outer, hout, rfl⟩ := Option.map_eq_some_iff.1 bound.symm
    obtain ⟨v, mem, named, rfl⟩ := S.checked.vars.only name outer hout
    exact Or.inr ⟨own, v, mem, named, rfl⟩

/-- The bodies of the program: the name of the function that a body turns into, the scope that it
stands in and the variables that it has of its own. -/
inductive Body (S : Compiled) : String → Scope → List Param → Prop
  | entry : Body S entryExport S.scope []
  | method {c : Typed.Class} {m : Typed.Method} {inner : Scope} (hc : c ∈ S.program.classes)
    (hm : m ∈ c.methods) (checked : m.Checked (S.scope.enterClass c.name) inner) :
    Body S (methodSymbol c.name m.name) inner m.variables

namespace Body

variable {func : String} {scope : Scope} {own : List Param}

theorem ready (body : S.Body func scope own) : scope.Ready := by
  have ready := S.checked.ready S.lays
  cases body with
  | entry => exact ready
  | method _ _ checked => exact checked.ready (ready.enterClass _)

theorem classes (body : S.Body func scope own) : scope.classes = S.scope.classes := by
  cases body with
  | entry => rfl
  | method _ _ checked => exact (Scope.enterMethod_enters checked.enters).classes

theorem plain (body : S.Body func scope own) : ∀ q ∈ own, Plain q.name := by
  cases body with
  | entry => exact List.forall_mem_nil _
  | method hc hm _ => exact S.plain.bound _ hc _ hm

theorem distinct (body : S.Body func scope own) : (own.map Param.name).Nodup := by
  cases body with
  | entry => exact List.nodup_nil
  | method _ _ checked => exact (Scope.enterMethod_enters checked.enters).distinct

/-- A symbol leads back to one method. -/
theorem own_eq (body : S.Body func scope own) {c : Typed.Class} {m : Typed.Method}
    (hc : c ∈ S.program.classes) (hm : m ∈ c.methods) (named : func = methodSymbol c.name m.name) :
    own = m.variables := by
  cases body with
  | entry => exact absurd named (entryExport_ne_methodSymbol _ _)
  | @method c' m' _ hc' hm' _ =>
    obtain ⟨sameClass, same⟩ :=
      methodSymbol_inj (S.plain.classes c' hc') (S.plain.classes c hc) named
    have eq : c' = c := List.inj_on_of_nodup_map S.checked.classes.distinct hc' hc sameClass
    subst eq
    obtain ⟨info, shows, -⟩ := S.checked.classes.found c' hc
    rw [List.inj_on_of_nodup_map shows.methods.distinct hm' hm same]

/-- A name that a body uses is that of a variable of its own, kept in a local, or that of a variable
of the program. -/
theorem binding_cases (body : S.Body func scope own) {name : String} {binding : Binding}
    (found : scope.vars.get? name = some binding) :
    (scope.inMethod && binding.assignable) = true ∧ ⟨name, binding.ty⟩ ∈ own ∨
      (scope.inMethod && binding.assignable) = false ∧
        ∃ v ∈ S.program.globals, v.name = name ∧ v.ty = binding.ty := by
  cases body with
  | entry =>
    have outside : S.scope.inMethod = false := by
      rw [Scope.inMethod, S.checked.owner]
      rfl
    obtain ⟨v, mem, named, rfl⟩ := S.checked.vars.only name binding found
    exact Or.inr ⟨by rw [outside]; rfl, v, mem, named, rfl⟩
  | method _ _ checked =>
    have inside : scope.inMethod = true := checked.inMethod
    rw [inside, Bool.true_and]
    rcases exists_binding checked found with ⟨q, hq, rfl, rfl⟩ | ⟨-, v, hv, named, rfl⟩
    · exact Or.inl ⟨rfl, hq⟩
    · exact Or.inr ⟨rfl, v, hv, named, rfl⟩

end Body
end Compiled

end ClassLang
