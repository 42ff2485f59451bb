/-
Programs whose methods are rewritten one by one.

What the checker makes of the rewritten program follows from what it makes of each rewritten method,
if callers see the same of both.
-/
import ClassLang.Proofs.Checker.Program

namespace ClassLang

namespace Source

def Class.mapMethods (f : Method → Method) (c : Class) : Class :=
  { c with methods := c.methods.map f }

def Program.mapMethods (f : Method → Method) (p : Program) : Program :=
  { p with classes := p.classes.map (·.mapMethods f) }

end Source

namespace Typed

def Class.mapMethods (f : Method → Method) (c : Class) : Class :=
  { c with methods := c.methods.map f }

def Program.mapMethods (f : Method → Method) (p : Program) : Program :=
  { p with classes := p.classes.map (·.mapMethods f) }

end Typed

namespace Source

/-- The methods of a program that passes have passed. -/
theorem Program.exists_check_of_mem {p : Program} {tp : Typed.Program} {scope : Scope}
    (accepted : p.check = .ok (tp, scope)) {c : Class} (hc : c ∈ p.classes) {m : Method}
    (hm : m ∈ c.methods) : ∃ tm, m.check (scope.enterClass c.name) = .ok tm := by
  obtain ⟨-, -, classes, -⟩ := check_parts accepted
  obtain ⟨tc, -, passed⟩ := exists_right_of_forall₂ classes hc
  obtain ⟨-, -, methods⟩ := Class.check_parts passed
  obtain ⟨tm, -, passed⟩ := exists_right_of_forall₂ methods hm
  exact ⟨tm, passed⟩

variable {f : Method → Method} {g : Typed.Method → Typed.Method} {P : Method → Prop}

/-- A rewriting of methods that callers cannot see. -/
structure Method.KeepsSignature (f : Method → Method) : Prop where
  name : ∀ m, (f m).name = m.name
  signature : ∀ cls m, (f m).signature cls = m.signature cls

/-- Within a class, the rewritten method passes if the method does and `P` holds of it; the tree
that it gives is rewritten by `g`. -/
def Method.ChecksTo (f : Method → Method) (P : Method → Prop) (g : Typed.Method → Typed.Method) :
    Prop :=
  ∀ {scope : Scope}, scope.inMethod = true → ∀ {m tm'}, (f m).check scope = .ok tm' ↔
    P m ∧ ∃ tm, m.check scope = .ok tm ∧ g tm = tm'

theorem Class.signature_mapMethods (keeps : Method.KeepsSignature f) (c : Class) :
    (c.mapMethods f).signature = c.signature := by
  simp only [Class.signature, mapMethods, List.foldlM_map, keeps.name, keeps.signature]

theorem Class.check_mapMethods (checks : Method.ChecksTo f P g) {scope : Scope} {c : Class}
    {tc' : Typed.Class} :
    (c.mapMethods f).check scope = .ok tc' ↔
      (∀ m ∈ c.methods, P m) ∧ ∃ tc, c.check scope = .ok tc ∧ tc.mapMethods g = tc' := by
  have each {methods' : List Typed.Method} :
      List.Forall₂ (fun m tm => Method.check (scope.enterClass c.name) m = .ok tm)
        (c.methods.map f) methods' ↔
      (∀ m ∈ c.methods, P m) ∧
        ∃ methods, List.Forall₂ (fun m tm => Method.check (scope.enterClass c.name) m = .ok tm)
          c.methods methods ∧ methods.map g = methods' :=
    forall₂_map_iff fun _ _ => checks rfl
  simp only [Class.check_eq_ok, mapMethods, each]
  constructor
  · rintro ⟨fields, _, ⟨holds, methods, pass, rfl⟩, rfl⟩
    exact ⟨holds, _, ⟨fields, methods, pass, rfl⟩, rfl⟩
  · rintro ⟨holds, _, ⟨fields, methods, pass, rfl⟩, rfl⟩
    exact ⟨fields, _, ⟨holds, methods, pass, rfl⟩, rfl⟩

theorem Program.scope_mapMethods (keeps : Method.KeepsSignature f) (p : Program) :
    (p.mapMethods f).scope = p.scope := by
  simp only [Program.scope, mapMethods, List.foldlM_map, Class.signature_mapMethods keeps]
  rfl

theorem Program.check_mapMethods (keeps : Method.KeepsSignature f) (checks : Method.ChecksTo f P g)
    {p : Program} {tq : Typed.Program} {scope : Scope} :
    (p.mapMethods f).check = .ok (tq, scope) ↔
      (∀ c ∈ p.classes, ∀ m ∈ c.methods, P m) ∧
        ∃ tp, p.check = .ok (tp, scope) ∧ tp.mapMethods g = tq := by
  have each {classes' : List Typed.Class} :
      List.Forall₂ (fun c tc => Class.check scope c = .ok tc) (p.classes.map (·.mapMethods f))
        classes' ↔
      (∀ c ∈ p.classes, ∀ m ∈ c.methods, P m) ∧
        ∃ classes, List.Forall₂ (fun c tc => Class.check scope c = .ok tc) p.classes classes ∧
          classes.map (·.mapMethods g) = classes' :=
    forall₂_map_iff fun _ _ => Class.check_mapMethods checks
  simp only [Program.check_eq_ok, Program.scope_mapMethods keeps]
  simp only [mapMethods, each]
  constructor
  · rintro ⟨start, globals, _, ⟨holds, classes, pass, rfl⟩, body, last, rfl⟩
    exact ⟨holds, _, ⟨start, globals, classes, pass, body, last, rfl⟩, rfl⟩
  · rintro ⟨holds, _, ⟨start, globals, classes, pass, body, last, rfl⟩, rfl⟩
    exact ⟨start, globals, _, ⟨holds, classes, pass, rfl⟩, body, last, rfl⟩

end Source
end ClassLang
