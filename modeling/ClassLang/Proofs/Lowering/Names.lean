/-
Which names the generator tells apart.

A name may be any text, and the checker compares names as wholes.  The generator goes on from there:
it keeps two names for itself and joins those of a class and a member to a symbol, all with dollar
signs.  So a program can name things after what the generator makes, and then declarations that the
checker has told apart have one name in the module.  Here is when that happens, exactly.
-/
import ClassLang.Proofs.Lowering.Linked
import Mathlib.Data.List.Pairwise

namespace ClassLang

/-- What a call may name: the functions of the host and those of the module. -/
def Module.symbols (m : Module) : List String :=
  Host.imports.map (·.name) ++ m.functions.filterMap (·.name)

/-- All globals of a module. -/
def Module.globalNames (m : Module) : List String := heap :: m.globals.map (·.name)

/-- No two functions, no two globals and no two locals of a function have one name. -/
structure Module.NamesApart (m : Module) : Prop where
  symbols : m.symbols.Nodup
  globals : m.globalNames.Nodup
  locals : ∀ f ∈ m.entry :: m.functions, f.localNames.Nodup

theorem not_plain_methodSymbol (cls member : String) : ¬Plain (methodSymbol cls member) := by
  intro plain
  rw [Plain, toList_methodSymbol] at plain
  exact plain (List.mem_append_right _ List.mem_cons_self)

theorem methodSymbol_right_injective (cls : String) : Function.Injective (methodSymbol cls) := by
  intro member member' same
  have lists := congrArg String.toList same
  rw [toList_methodSymbol, toList_methodSymbol, List.append_cancel_left_eq] at lists
  exact String.toList_inj.1 (List.cons.inj lists).2

/-- A symbol is longer than the name of its class. -/
theorem length_lt_methodSymbol (cls member : String) :
    cls.length < (methodSymbol cls member).length := by
  rw [← String.length_toList, ← String.length_toList, toList_methodSymbol, List.length_append,
    List.length_cons]
  omega

namespace Source

variable {p : Program} {c c' : Class}

/-! ## Symbols -/

/-- The members that are functions: the one that makes objects, and the methods. -/
def Class.members (c : Class) : List String := "$constructor" :: c.methods.map (·.name)

def Class.symbols (c : Class) : List String := c.members.map (methodSymbol c.name)

/-- The name of the second class goes on from that of the first one, and a member of the first one
goes on the same way to one of the second. -/
def Class.Clashes (c c' : Class) : Prop :=
  ∃ inner, c'.name = methodSymbol c.name inner ∧
    ∃ member ∈ c'.members, methodSymbol inner member ∈ c.members

/-- Clashing classes are those that share a symbol, in the order of the lengths of their names. -/
theorem Class.clashes_iff : c.Clashes c' ↔ c.name.length < c'.name.length ∧
    ∃ member ∈ c.members, ∃ member' ∈ c'.members,
      methodSymbol c.name member = methodSymbol c'.name member' := by
  constructor
  · rintro ⟨inner, longer, member', mem', mem⟩
    exact ⟨longer ▸ length_lt_methodSymbol c.name inner, _, mem, member', mem',
      methodSymbol_eq_iff.2 (Or.inr (Or.inl ⟨inner, longer, rfl⟩))⟩
  · rintro ⟨shorter, member, mem, member', mem', same⟩
    rcases methodSymbol_eq_iff.1 same with ⟨eq, -⟩ | ⟨inner, longer, rfl⟩ | ⟨inner, longer, -⟩
    · rw [eq] at shorter
      exact absurd shorter (Nat.lt_irrefl _)
    · exact ⟨inner, longer, member', mem', mem⟩
    · rw [longer] at shorter
      exact absurd shorter (Nat.lt_asymm (length_lt_methodSymbol c'.name inner))

instance : Decidable (c.Clashes c') := decidable_of_iff _ Class.clashes_iff.symm

theorem Class.not_clashes_self : ¬c.Clashes c := fun clashes =>
  Nat.lt_irrefl _ (Class.clashes_iff.1 clashes).1

theorem Class.disjoint_symbols_iff (ne : c.name ≠ c'.name) :
    c.symbols.Disjoint c'.symbols ↔ ¬c.Clashes c' ∧ ¬c'.Clashes c := by
  constructor
  · intro disjoint
    constructor <;> intro clashes
    · obtain ⟨-, member, mem, member', mem', same⟩ := Class.clashes_iff.1 clashes
      exact disjoint (List.mem_map_of_mem mem) (same ▸ List.mem_map_of_mem mem')
    · obtain ⟨-, member, mem, member', mem', same⟩ := Class.clashes_iff.1 clashes
      exact disjoint (List.mem_map_of_mem mem') (same ▸ List.mem_map_of_mem mem)
  · rintro ⟨apart, apart'⟩ symbol here there
    obtain ⟨member, mem, rfl⟩ := List.mem_map.1 here
    obtain ⟨member', mem', same⟩ := List.mem_map.1 there
    rcases methodSymbol_eq_iff.1 same with ⟨eq, -⟩ | ⟨inner, longer, rfl⟩ | ⟨inner, longer, rfl⟩
    · exact ne eq.symm
    · exact apart' ⟨inner, longer, member, mem, mem'⟩
    · exact apart ⟨inner, longer, member', mem', mem⟩

theorem Class.symbols_nodup_iff (distinct : (c.methods.map (·.name)).Nodup) :
    c.symbols.Nodup ↔ ∀ m ∈ c.methods, m.name ≠ "$constructor" := by
  rw [Class.symbols, List.nodup_map_iff (methodSymbol_right_injective c.name), Class.members,
    List.nodup_cons, and_iff_left distinct, List.mem_map, not_exists]
  exact forall_congr' fun m => not_and

/-- The symbols of a program, one class after the other. -/
theorem Program.symbols_nodup_iff (classes : (p.classes.map (·.name)).Nodup)
    (methods : ∀ c ∈ p.classes, (c.methods.map (·.name)).Nodup) :
    (p.classes.flatMap Class.symbols).Nodup ↔
      (∀ c ∈ p.classes, ∀ m ∈ c.methods, m.name ≠ "$constructor") ∧
        ∀ c ∈ p.classes, ∀ c' ∈ p.classes, ¬c.Clashes c' := by
  have within : (∀ c ∈ p.classes, c.symbols.Nodup) ↔
      ∀ c ∈ p.classes, ∀ m ∈ c.methods, m.name ≠ "$constructor" :=
    forall₂_congr fun c mem => Class.symbols_nodup_iff (methods c mem)
  have distinct := List.pairwise_map.1 classes
  rw [List.nodup_flatMap, within]
  refine and_congr_right fun _ => ?_
  constructor
  · intro disjoint c mem c' mem'
    by_cases same : c = c'
    · rw [same]
      exact Class.not_clashes_self
    · have ne : c.name ≠ c'.name := fun eq => same (List.inj_on_of_nodup_map classes mem mem' eq)
      have symm : Std.Symm (Function.onFun List.Disjoint Class.symbols) :=
        ⟨fun _ _ apart => List.disjoint_symm apart⟩
      exact ((Class.disjoint_symbols_iff ne).1 (disjoint.forall mem mem' same)).1
  · intro apart
    refine distinct.imp_of_mem fun {c c'} mem mem' ne => ?_
    exact (Class.disjoint_symbols_iff ne).2 ⟨apart c mem c' mem', apart c' mem' c mem⟩

theorem Class.check_symbols {scope : Scope} {tc : Typed.Class} (check : c.check scope = .ok tc) :
    tc.symbols = c.symbols := by
  obtain ⟨⟨name, -⟩, -, methods⟩ := Class.check_parts check
  have members : tc.methods.map Typed.Method.name = c.methods.map (·.name) :=
    map_eq_of_forall₂ methods fun m tm _ passed => (Method.check_checked passed).1.1
  rw [Typed.Class.symbols, Class.symbols, Class.members, List.map_cons, constructorSymbol_eq, name,
    ← members, List.map_map]
  rfl

/-- The symbols of a module are those of the host and of the program, and the host names nothing
like a member. -/
theorem Program.module_symbols_nodup_iff {tp : Typed.Program} {scope laid : Scope} {m : Module}
    (accepted : p.check = .ok (tp, scope)) (lays : laid.LaysOut tp.classes)
    (lowers : tp.Lowers laid m) :
    m.symbols.Nodup ↔ (p.classes.flatMap Class.symbols).Nodup := by
  obtain ⟨-, -, classes, -⟩ := check_parts accepted
  have symbols : tp.classes.flatMap Typed.Class.symbols = p.classes.flatMap Class.symbols := by
    have each : tp.classes.map Typed.Class.symbols = p.classes.map Class.symbols :=
      map_eq_of_forall₂ classes fun c tc _ passed => Class.check_symbols passed
    rw [List.flatMap_def, each, ← List.flatMap_def]
  have named : m.functions.filterMap Func.name = p.classes.flatMap Class.symbols := by
    have names := congrArg (List.filterMap id) (lowers.names lays)
    rwa [List.filterMap_map, List.filterMap_map, Function.id_comp, Function.id_comp,
      List.filterMap_some, symbols] at names
  have imports : (Host.imports.map Host.Import.name).Nodup := by decide
  have apart : ∀ i ∈ Host.imports.map Host.Import.name,
      ∀ symbol ∈ p.classes.flatMap Class.symbols, i ≠ symbol := by
    intro _ mem _ made same
    obtain ⟨i, hi, rfl⟩ := List.mem_map.1 mem
    obtain ⟨c, -, own⟩ := List.mem_flatMap.1 made
    obtain ⟨member, -, rfl⟩ := List.mem_map.1 own
    have unknown := import?_methodSymbol c.name member
    rw [Host.import?, List.find?_eq_none] at unknown
    exact unknown i hi (decide_eq_true same)
  rw [Module.symbols, named, List.nodup_append]
  exact ⟨fun nodup => nodup.2.1, fun nodup => ⟨imports, nodup, apart⟩⟩

/-! ## Globals and locals -/

theorem Program.module_globals_nodup_iff {tp : Typed.Program} {scope laid : Scope} {m : Module}
    (accepted : p.check = .ok (tp, scope)) (lowers : tp.Lowers laid m) :
    m.globalNames.Nodup ↔ ∀ v ∈ p.globals, v.name ≠ heap := by
  obtain ⟨functions, bare, code, -, -, rfl⟩ := lowers
  obtain ⟨start, ⟨declared, -⟩, -⟩ := check_parts accepted
  have same : (tp.assemble functions.flatten code).globals.map Global.name =
      p.globals.map (·.name) := by
    rw [Typed.Program.assemble, declared, List.map_map]
    rfl
  have distinct := (scope_shows start).vars.distinct
  rw [Module.globalNames, same, List.nodup_cons, and_iff_left distinct, List.mem_map, not_exists]
  exact forall_congr' fun v => not_and

/-- The names that a method binds. -/
def Method.bound (m : Method) : List String := m.params.map (·.name) ++ m.definitions.map (·.name)

theorem Method.check_localNames {m : Method} {tm : Typed.Method} {scope : Scope}
    (passed : m.check scope = .ok tm) (cls : String) (code : Code) :
    (tm.func cls code).localNames = scratch :: m.bound := by
  obtain ⟨⟨-, params, -, definitions⟩, -⟩ := check_checked passed
  rw [Func.localNames, Method.bound, ← params, ← definitions]
  rfl

/-- Beside the scratch local a function has the names that its method binds, each of them once. -/
theorem Method.check_localNames_nodup_iff {m : Method} {tm : Typed.Method} {scope : Scope}
    (passed : m.check scope = .ok tm) (cls : String) (code : Code) :
    (tm.func cls code).localNames.Nodup ↔ scratch ∉ m.bound := by
  obtain ⟨⟨-, params, -, definitions⟩, inner, checked⟩ := check_checked passed
  have distinct := (Scope.enterMethod_enters checked.enters).distinct
  have bound : tm.variables.map Param.name = m.bound := by
    rw [tm.variables_names, params, definitions, Method.bound]
  change (tm.variables.map Param.name).Nodup at distinct
  rw [check_localNames passed, List.nodup_cons, ← bound, and_iff_left distinct]

theorem Program.module_locals_nodup_iff {tp : Typed.Program} {scope laid : Scope} {m : Module}
    (accepted : p.check = .ok (tp, scope)) (checked : tp.Checked laid)
    (lays : laid.LaysOut tp.classes) (lowers : tp.Lowers laid m) :
    (∀ f ∈ m.entry :: m.functions, f.localNames.Nodup) ↔
      ∀ c ∈ p.classes, ∀ method ∈ c.methods, scratch ∉ method.bound := by
  obtain ⟨-, -, classes, -⟩ := check_parts accepted
  constructor
  · intro apart c hc method hm
    obtain ⟨tc, htc, passed⟩ := exists_right_of_forall₂ classes hc
    obtain ⟨tm, htm, passed⟩ := exists_right_of_forall₂ (Class.check_parts passed).2.2 hm
    obtain ⟨inner, code, -, -, inModule, -⟩ := lowers.exists_function checked htc htm
    exact (Method.check_localNames_nodup_iff passed tc.name code).1
      (apart _ (List.mem_cons_of_mem _ inModule))
  · intro free f mem
    rcases List.mem_cons.1 mem with rfl | mem
    · obtain ⟨functions, bare, code, -, -, rfl⟩ := lowers
      exact List.nodup_singleton scratch
    · obtain ⟨tc, htc, made⟩ := lowers.function_cases checked lays mem
      rcases made with ⟨fields, -, rfl⟩ | ⟨tm, htm, inner, code, -, -, rfl⟩
      · exact List.nodup_singleton scratch
      · obtain ⟨c, hc, passed⟩ := exists_left_of_forall₂ classes htc
        obtain ⟨method, hm, passed⟩ := exists_left_of_forall₂ (Class.check_parts passed).2.2 htm
        exact (Method.check_localNames_nodup_iff passed tc.name code).2 (free c hc method hm)

/-! ## Programs -/

/-- Plain names are out of reach of what the generator makes. -/
theorem Program.plain_apart (plain : ∀ name ∈ p.names, Plain name) :
    ((∀ c ∈ p.classes, ∀ m ∈ c.methods, m.name ≠ "$constructor") ∧
      ∀ c ∈ p.classes, ∀ c' ∈ p.classes, ¬c.Clashes c') ∧
    (∀ v ∈ p.globals, v.name ≠ heap) ∧
    ∀ c ∈ p.classes, ∀ m ∈ c.methods, scratch ∉ m.bound := by
  refine ⟨⟨fun c hc m hm named => ?_, fun c hc c' hc' ⟨inner, longer, _⟩ => ?_⟩,
    fun v hv => ?_, fun c hc m hm own => ?_⟩
  · exact not_plain_constructor
      (named ▸ plain _ (method_names_subset hc hm List.mem_cons_self))
  · exact not_plain_methodSymbol c.name inner
      (longer ▸ plain _ (class_names_subset hc' List.mem_cons_self))
  · exact (plain _ (List.mem_append_left _ (List.mem_map_of_mem hv))).ne_heap
  · exact (plain _ (method_names_subset hc hm (List.mem_cons_of_mem _ own))).ne_scratch rfl

/-- When the declared names of a compiled program stay apart.  Two functions have one symbol if a
method is called like what makes objects or two classes clash, and nothing but the two names that
the generator keeps for itself can meet a global or a local.  Plain names do none of this. -/
theorem Program.names_apart_iff {text : String} (compiled : p.compile = .ok text) :
    ∃ m, p.toModule = .ok m ∧ m.text = text ∧
      (m.symbols.Nodup ↔
        (∀ c ∈ p.classes, ∀ method ∈ c.methods, method.name ≠ "$constructor") ∧
          ∀ c ∈ p.classes, ∀ c' ∈ p.classes, ¬c.Clashes c') ∧
      (m.globalNames.Nodup ↔ ∀ v ∈ p.globals, v.name ≠ heap) ∧
      ((∀ f ∈ m.entry :: m.functions, f.localNames.Nodup) ↔
        ∀ c ∈ p.classes, ∀ method ∈ c.methods, scratch ∉ method.bound) ∧
      ((∀ name ∈ p.names, Plain name) → m.NamesApart) := by
  obtain ⟨m, made, texts⟩ := bind_eq_ok.1 compiled
  obtain ⟨tp, scope, laid, accepted, -, checked, lays, lowers⟩ := lowered_of_toModule made
  have start := scope_shows (check_parts accepted).1
  have methods : ∀ c ∈ p.classes, (c.methods.map (·.name)).Nodup := fun c mem => by
    obtain ⟨info, shows, -⟩ := start.classes.found c mem
    exact shows.methods.distinct
  have symbols := (module_symbols_nodup_iff accepted lays lowers).trans
    (symbols_nodup_iff start.classes.distinct methods)
  have globals := module_globals_nodup_iff accepted lowers
  have locals := module_locals_nodup_iff accepted checked lays lowers
  refine ⟨m, made, pure_eq_ok.1 texts, symbols, globals, locals, fun plain => ?_⟩
  obtain ⟨ofSymbols, ofGlobals, ofLocals⟩ := plain_apart plain
  exact ⟨symbols.2 ofSymbols, globals.2 ofGlobals, locals.2 ofLocals⟩

/-- A program with dollar signs in its names that stay apart: the class `A$b` goes on from `A`, but
has no method `c`. -/
def Program.dollars : Program where
  globals := [⟨"$pile", .int, .int 0⟩]
  classes := [
    { name := "A"
      fields := []
      methods := [
        { name := "b$c"
          params := [⟨"self", .object "A"⟩, ⟨"$rest", .int⟩]
          ret := .none
          definitions := []
          statements := [] }] },
    { name := "A$b"
      fields := []
      methods := [
        { name := "d"
          params := [⟨"self", .object "A$b"⟩]
          ret := .none
          definitions := []
          statements := [] }] }]
  body := []

theorem Program.names_apart_iff_dollars :
    ∃ text m, dollars.compile = .ok text ∧ dollars.toModule = .ok m ∧
      (∃ name ∈ dollars.names, ¬Plain name) ∧ m.NamesApart := by
  obtain ⟨⟨tp, scope⟩, accepted⟩ : ∃ r, dollars.check = .ok r := ⟨_, rfl⟩
  obtain ⟨text, compiled⟩ := compile_ok accepted
  obtain ⟨m, made, -, symbols, globals, locals, -⟩ := names_apart_iff compiled
  have apart : m.NamesApart :=
    ⟨symbols.2 ⟨by decide, by decide⟩, globals.2 (by decide), locals.2 (by decide)⟩
  exact ⟨text, m, compiled, made, by decide, apart⟩

/-- A program whose declarations are told apart by the checker and not in the module. -/
def Program.tangled : Program where
  globals := [⟨"$heap", .int, .int 7⟩]
  classes := [
    { name := "A"
      fields := []
      methods := [
        { name := "$constructor"
          params := [⟨"self", .object "A"⟩]
          ret := .none
          definitions := [⟨"$scratch", .int, .int 1⟩]
          statements := [] },
        { name := "b$c"
          params := [⟨"self", .object "A"⟩]
          ret := .none
          definitions := []
          statements := [] }] },
    { name := "A$b"
      fields := []
      methods := [
        { name := "c"
          params := [⟨"self", .object "A$b"⟩]
          ret := .none
          definitions := []
          statements := [] }] }]
  body := []

theorem Program.tangled_compiles :
    ∃ text m, tangled.compile = .ok text ∧ tangled.toModule = .ok m ∧
      ¬m.symbols.Nodup ∧ ¬m.globalNames.Nodup ∧
        ¬∀ f ∈ m.entry :: m.functions, f.localNames.Nodup := by
  exact ⟨_, _, rfl, rfl, by decide, by decide, by decide⟩

end Source
end ClassLang
