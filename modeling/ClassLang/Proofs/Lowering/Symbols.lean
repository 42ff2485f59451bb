/-
The names of functions.

A symbol is the name of a class and that of a member with a dollar sign between them, so plain names
can be read off it again.  Plain are the names of programs whose declarations are.
-/
import ClassLang.Proofs.Lowering.Module
import Mathlib.Data.List.Nodup

namespace ClassLang

/-- A name that the generator makes no names of its own from. -/
def Plain (name : String) : Prop := '$' ∉ name.toList

instance : DecidablePred Plain := fun name => inferInstanceAs (Decidable ('$' ∉ name.toList))

theorem Plain.ne_scratch {name : String} (plain : Plain name) : name ≠ scratch := by
  rintro rfl
  exact plain (by decide)

theorem Plain.ne_heap {name : String} (plain : Plain name) : name ≠ heap := by
  rintro rfl
  exact plain (by decide)

/-- Two lists that `c` stands in are the same if the two places of `c` are, or else the one comes
before the other. -/
theorem append_cons_eq_append_cons {c : Char} {front front' back back' : List Char} :
    front ++ c :: back = front' ++ c :: back' ↔
      (front = front' ∧ back = back') ∨
        (∃ inner, front' = front ++ c :: inner ∧ back = inner ++ c :: back') ∨
        ∃ inner, front = front' ++ c :: inner ∧ back' = inner ++ c :: back := by
  constructor
  · intro same
    rcases List.append_eq_append_iff.1 same with ⟨more, longer, rest⟩ | ⟨more, longer, rest⟩
    · cases more with
      | nil => exact Or.inl ⟨(longer.trans (List.append_nil front)).symm, (List.cons.inj rest).2⟩
      | cons d inner =>
        obtain ⟨rfl, inside⟩ := List.cons.inj rest
        exact Or.inr (Or.inl ⟨inner, longer, inside⟩)
    · cases more with
      | nil => exact Or.inl ⟨longer.trans (List.append_nil front'), (List.cons.inj rest).2.symm⟩
      | cons d inner =>
        obtain ⟨rfl, inside⟩ := List.cons.inj rest
        exact Or.inr (Or.inr ⟨inner, longer, inside⟩)
  · rintro (⟨rfl, rfl⟩ | ⟨inner, rfl, rfl⟩ | ⟨inner, rfl, rfl⟩)
    · rfl
    · rw [List.append_assoc, List.cons_append]
    · rw [List.append_assoc, List.cons_append]

theorem append_cons_inj {c : Char} {front front' back back' : List Char} (first : c ∉ front)
    (first' : c ∉ front') (same : front ++ c :: back = front' ++ c :: back') :
    front = front' ∧ back = back' := by
  rcases append_cons_eq_append_cons.1 same with same | ⟨inner, rfl, -⟩ | ⟨inner, rfl, -⟩
  · exact same
  · exact absurd (List.mem_append_right front List.mem_cons_self) first'
  · exact absurd (List.mem_append_right front' List.mem_cons_self) first

theorem toList_methodSymbol (cls method : String) :
    (methodSymbol cls method).toList = cls.toList ++ '$' :: method.toList := by
  simp [methodSymbol]

theorem methodSymbol_inj {cls cls' method method' : String} (plain : Plain cls)
    (plain' : Plain cls') (same : methodSymbol cls method = methodSymbol cls' method') :
    cls = cls' ∧ method = method' := by
  have lists := congrArg String.toList same
  rw [toList_methodSymbol, toList_methodSymbol] at lists
  have apart := append_cons_inj plain plain' lists
  exact ⟨String.toList_inj.1 apart.1, String.toList_inj.1 apart.2⟩

/-- Two members have one symbol if they are the same member, or if the name of the one class begins
with that of the other and the member of the other goes on where its class ends. -/
theorem methodSymbol_eq_iff {cls cls' method method' : String} :
    methodSymbol cls method = methodSymbol cls' method' ↔
      (cls = cls' ∧ method = method') ∨
        (∃ inner, cls' = methodSymbol cls inner ∧ method = methodSymbol inner method') ∨
        ∃ inner, cls = methodSymbol cls' inner ∧ method' = methodSymbol inner method := by
  have chars : Function.Surjective String.toList := fun l =>
    ⟨String.ofList l, String.toList_ofList⟩
  simp only [← String.toList_inj, toList_methodSymbol, append_cons_eq_append_cons, chars.exists]
/-- As if it were a method of a name that is not plain. -/
theorem constructorSymbol_eq (cls : String) :
    constructorSymbol cls = methodSymbol cls "$constructor" := by
  have dollars : "$$constructor" = "$" ++ "$constructor" := by decide
  rw [constructorSymbol, methodSymbol, dollars, String.append_assoc]

theorem not_plain_constructor : ¬Plain "$constructor" := fun plain => plain (by decide)

/-- The entry is no function of a class. -/
theorem entryExport_ne_methodSymbol (cls member : String) :
    entryExport ≠ methodSymbol cls member := by
  intro same
  have dollar : '$' ∈ entryExport.toList := by
    rw [same, toList_methodSymbol]
    simp
  exact absurd dollar (by decide)

/-- The host supplies no methods. -/
theorem import?_methodSymbol (cls method : String) :
    Host.import? (methodSymbol cls method) = none := by
  have plain : ∀ i ∈ Host.imports, Plain i.name := by
    unfold Plain
    decide
  rw [Host.import?, List.find?_eq_none]
  intro i mem eq
  have named : i.name = methodSymbol cls method := by simpa using eq
  have dollar : '$' ∈ i.name.toList := by
    rw [named, toList_methodSymbol]
    simp
  exact plain i mem dollar

namespace Typed

/-- What has to be plain are the names of everything but fields. -/
structure Program.Plain (p : Program) : Prop where
  globals : ∀ v ∈ p.globals, ClassLang.Plain v.name
  classes : ∀ c ∈ p.classes, ClassLang.Plain c.name
  methods : ∀ c ∈ p.classes, ∀ m ∈ c.methods, ClassLang.Plain m.name
  bound : ∀ c ∈ p.classes, ∀ m ∈ c.methods, ∀ v ∈ m.variables, ClassLang.Plain v.name

/-- The symbols of the functions that a class turns into. -/
def Class.symbols (c : Class) : List String :=
  constructorSymbol c.name :: c.methods.map fun m => methodSymbol c.name m.name

theorem Class.mem_symbols {c : Class} {symbol : String} (mem : symbol ∈ c.symbols) :
    ∃ member, symbol = methodSymbol c.name member := by
  rcases List.mem_cons.1 mem with rfl | mem
  · exact ⟨_, constructorSymbol_eq c.name⟩
  · obtain ⟨m, -, rfl⟩ := List.mem_map.1 mem
    exact ⟨m.name, rfl⟩

theorem Class.symbols_nodup {c : Class} (plain : ClassLang.Plain c.name)
    (methods : ∀ m ∈ c.methods, ClassLang.Plain m.name)
    (distinct : (c.methods.map Method.name).Nodup) : c.symbols.Nodup := by
  refine List.nodup_cons.2 ⟨fun mem => ?_, ?_⟩
  · obtain ⟨m, hm, same⟩ := List.mem_map.1 mem
    rw [constructorSymbol_eq] at same
    have named : m.name = "$constructor" := (methodSymbol_inj plain plain same).2
    exact not_plain_constructor (named ▸ methods m hm)
  · have apart : Function.Injective (methodSymbol c.name) := fun method method' same =>
      (methodSymbol_inj plain plain same).2
    have mapped := distinct.map apart
    rwa [List.map_map] at mapped

theorem Program.Checked.symbols_nodup {p : Program} {scope : Scope} (checked : p.Checked scope)
    (plain : p.Plain) : (p.classes.flatMap Class.symbols).Nodup := by
  refine List.nodup_flatMap.2 ⟨fun c mem => ?_, ?_⟩
  · obtain ⟨info, shows, -⟩ := checked.classes.found c mem
    exact Class.symbols_nodup (plain.classes c mem) (plain.methods c mem) shows.methods.distinct
  · have distinct := List.pairwise_map.1 checked.classes.distinct
    refine distinct.imp_of_mem fun {c c'} mem mem' ne symbol here there => ?_
    obtain ⟨member, rfl⟩ := Class.mem_symbols here
    obtain ⟨member', same⟩ := Class.mem_symbols there
    exact ne (methodSymbol_inj (plain.classes c mem) (plain.classes c' mem') same).1

theorem Class.Lowers.names {scope : Scope} {c : Class} {info : ClassInfo} {fs : List Func}
    (lowers : c.Lowers scope fs) (found : scope.classes.get? c.name = some info)
    (laid : info.layout = some c.layout) : fs.map Func.name = c.symbols.map some := by
  obtain ⟨construct, methods, made, pass, rfl⟩ := lowers
  have inside : (scope.enterClass c.name).classes.get? c.name = some info := found
  obtain ⟨fields, -, made'⟩ := Class.lowerConstruct_ok inside laid
  cases made.symm.trans made'
  have symbols : methods.map Func.name =
      c.methods.map fun m => some (methodSymbol c.name m.name) := by
    refine map_eq_of_forall₂ pass fun m f _ h => ?_
    obtain ⟨inner, code, -, -, rfl⟩ := h
    rfl
  rw [List.map_cons, Class.symbols, List.map_cons, List.map_map, symbols]
  rfl

/-- The functions of a module are those of the classes, one class after the other. -/
theorem Program.Lowers.names {scope : Scope} {p : Program} {m : Module} (lowers : p.Lowers scope m)
    (lays : scope.LaysOut p.classes) :
    m.functions.map Func.name = (p.classes.flatMap Class.symbols).map some := by
  obtain ⟨functions, bare, code, pass, -, rfl⟩ := lowers
  have each : functions.map (List.map Func.name) = p.classes.map fun c => c.symbols.map some := by
    refine map_eq_of_forall₂ pass fun c fs mem turns => ?_
    obtain ⟨info, found, laid⟩ := lays c mem
    exact turns.names found laid
  rw [Program.assemble, List.map_flatten, each, List.map_flatMap]
  rfl

theorem Class.Shows.contains_constructor {c : Class} {info : ClassInfo} (shows : c.Shows info) :
    info.methods.contains Source.constructorName = c.methods.any Method.isConstructor := by
  rw [Bool.eq_iff_iff, Table.contains_eq_true, List.any_eq_true]
  constructor
  · intro ⟨signature, found⟩
    obtain ⟨m, mem, name, -⟩ := shows.methods.only _ signature found
    exact ⟨m, mem, decide_eq_true name⟩
  · intro ⟨m, mem, isConstructor⟩
    obtain ⟨signature, -, found⟩ := shows.methods.found m mem
    have name : m.name = Source.constructorName := of_decide_eq_true isConstructor
    exact ⟨signature, name ▸ found⟩

end Typed

namespace Source

/-! ## Declared names -/

def Method.names (m : Method) : List String :=
  m.name :: (m.params.map (·.name) ++ m.definitions.map (·.name))

def Class.names (c : Class) : List String := c.name :: c.methods.flatMap (·.names)

/-- All names that a program declares but those of fields. -/
def Program.names (p : Program) : List String :=
  p.globals.map (·.name) ++ p.classes.flatMap (·.names)

variable {p : Program} {tp : Typed.Program} {scope : Scope}

theorem Method.check_bound {m : Method} {tm : Typed.Method} (h : m.check scope = .ok tm)
    {v : Param} (mem : v ∈ tm.variables) : v.name ∈ m.names := by
  obtain ⟨⟨-, params, -, definitions⟩, -⟩ := check_checked h
  rw [Typed.Method.variables, params, definitions] at mem
  refine List.mem_cons_of_mem _ (List.mem_append.2 ?_)
  rcases List.mem_append.1 mem with mem | mem
  · exact Or.inl (List.mem_map_of_mem mem)
  · obtain ⟨d, hd, rfl⟩ := List.mem_map.1 mem
    exact Or.inr (List.mem_map.2 ⟨d, hd, rfl⟩)

theorem Program.class_names_subset {c : Class} (mem : c ∈ p.classes) : c.names ⊆ p.names :=
  fun _ own => List.mem_append_right _ (List.mem_flatMap.2 ⟨c, mem, own⟩)

theorem Program.method_names_subset {c : Class} (mem : c ∈ p.classes) {m : Method}
    (hm : m ∈ c.methods) : m.names ⊆ p.names := fun _ own =>
  class_names_subset mem (List.mem_cons_of_mem _ (List.mem_flatMap.2 ⟨m, hm, own⟩))

theorem Program.check_plain (accepted : p.check = .ok (tp, scope))
    (plain : ∀ name ∈ p.names, Plain name) : tp.Plain := by
  obtain ⟨-, ⟨globals, -⟩, classes, -⟩ := check_parts accepted
  refine ⟨fun v mem => ?_, fun tc mem => ?_, fun tc mem tm hm => ?_, fun tc mem tm hm v hv => ?_⟩
  · rw [globals] at mem
    exact plain _ (List.mem_append_left _ (List.mem_map_of_mem mem))
  all_goals
    obtain ⟨c, hc, check⟩ := exists_left_of_forall₂ classes mem
    obtain ⟨⟨name, -⟩, -, methods⟩ := Class.check_parts check
  · rw [name]
    exact plain _ (class_names_subset hc List.mem_cons_self)
  all_goals obtain ⟨m, hm, check⟩ := exists_left_of_forall₂ methods hm
  · rw [(Method.check_checked check).1.1]
    exact plain _ (method_names_subset hc hm List.mem_cons_self)
  · exact plain _ (method_names_subset hc hm (Method.check_bound check hv))

end Source

end ClassLang
