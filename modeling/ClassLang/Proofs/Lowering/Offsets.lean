/-
Where the fields of an object lie, in all of a module.

The place of a field among the fields of its class settles its offset.  The function that makes an
object stores the initial values there, and every use of the field in a method or in the entry
function adds that same offset to the address of the object.
-/
import ClassLang.Proofs.Checker.Erasure
import ClassLang.Proofs.Compile
import ClassLang.Proofs.Lowering.Compiled
import ClassLang.Proofs.Lowering.Fields

namespace ClassLang

theorem toInt_addressWord {a : Nat} (h : a < 2 ^ 31) : (addressWord a).toInt = a := by
  rw [addressWord, UInt32.toInt32_ofNat', Int32.toInt_ofNat']
  refine Int.bmod_eq_of_le (by omega) ?_
  show (a : Int) < (4294967296 + 1) / 2
  omega

namespace Typed

/-! ## Slots -/

/-- Different fields have different slots, and every slot is in the object. -/
structure Class.SlotsApart (c : Class) : Prop where
  size : (addressWord (4 * c.fields.length)).toInt = 4 * c.fields.length
  value : ∀ {i : Nat} {f : VarDef}, c.fields[i]? = some f →
    (addressWord (4 * i)).toInt = 4 * i ∧ 4 * i + 4 ≤ 4 * c.fields.length
  apart : ∀ {i j : Nat} {f g : VarDef}, c.fields[i]? = some f → c.fields[j]? = some g →
    (addressWord (4 * i) = addressWord (4 * j) ↔ f.name = g.name)

theorem Class.slotsApart {c : Class} (distinct : (c.fields.map VarDef.name).Nodup)
    (few : c.fields.length < 2 ^ 29) : c.SlotsApart where
  size := by
    rw [toInt_addressWord (by omega)]
    omega
  value := fun {i f} field => by
    have bound := (List.getElem?_eq_some_iff.1 field).1
    rw [toInt_addressWord (by omega)]
    omega
  apart := fun {i j f g} first second => by
    have bound := (List.getElem?_eq_some_iff.1 first).1
    have bound' := (List.getElem?_eq_some_iff.1 second).1
    constructor
    · intro same
      have eq : i = j := by
        have slots := addressWord_inj (by omega) (by omega) same
        omega
      subst eq
      rw [first] at second
      rw [Option.some.inj second]
    · intro same
      have names (k : Nat) (v : VarDef) (h : c.fields[k]? = some v) :
          (c.fields.map VarDef.name)[k]? = some v.name := by
        rw [List.getElem?_map, h]
        rfl
      have eq : i = j := by
        refine (List.getElem?_inj ?_ distinct).1 ((names i f first).trans ?_)
        · rw [List.length_map]
          exact bound
        · rw [same, names j g second]
      rw [eq]

/-! ## The function that makes an object -/

/-- Stores the initial value of each field into the slot that its place gives it. -/
def Class.storeFields (c : Class) : Code :=
  c.fields.zipIdx.flatMap fun (v, i) =>
    [.globalGet heap, .const (addressWord (4 * i)), .add, .const v.value.word, .store]

theorem Class.initFields_eq {c : Class} (distinct : (c.fields.map VarDef.name).Nodup) {code : Code}
    (filled : initFields c.name c.layout c.fields = .ok code) : code = c.storeFields := by
  -- the fields that are left to store are the last ones of the class
  suffices ∀ k fields, (∀ i, fields[i]? = c.fields[k + i]?) → ∀ code,
      initFields c.name c.layout fields = .ok code → code = (fields.zipIdx k).flatMap fun (v, i) =>
        [.globalGet heap, .const (addressWord (4 * i)), .add, .const v.value.word, .store] from
    this 0 c.fields (fun i => by rw [Nat.zero_add]) code filled
  intro k fields
  induction fields generalizing k with
  | nil =>
    intro _ code filled
    cases filled
    rfl
  | cons f rest ih =>
    intro last code filled
    rw [initFields] at filled
    split at filled
    · next offset lies =>
      simp only [bind_eq_ok, pure_eq_ok] at filled
      obtain ⟨cs, hcs, rfl⟩ := filled
      have here : c.fields[k]? = some f := (last 0).symm
      have left (i : Nat) : rest[i]? = c.fields[k + 1 + i]? := by
        rw [Nat.add_right_comm]
        exact last (i + 1)
      have others := ih (k + 1) left cs hcs
      rw [Class.offset_eq distinct here lies, List.zipIdx_cons, List.flatMap_cons, others]
    · cases filled

/-- Stores the fields, keeps the address of the object, and moves the first free address past the
object.  A class with a constructor has it run last. -/
def Class.makeCode (c : Class) : Code :=
  let runs := c.methods.any Method.isConstructor
  c.storeFields ++ [.globalGet heap] ++ (if runs then [.globalGet heap] else []) ++
    [.globalGet heap, .const (addressWord (4 * c.fields.length)), .add, .globalSet heap] ++
    (if runs then [.call (methodSymbol c.name Source.constructorName) 1 true, .localSet scratch]
      else []) ++ [.ret]

theorem Class.exists_construct {p : Program} {scope : Scope} (checked : p.Checked scope)
    (lays : scope.LaysOut p.classes) {m : Module} (lowers : p.Lowers scope m) {c : Class}
    (mem : c ∈ p.classes) :
    ∃ f ∈ m.functions, c.lowerConstruct (scope.enterClass c.name) = .ok f ∧
      f.body = c.makeCode := by
  obtain ⟨fields, filled, made, inModule⟩ := lowers.exists_construct checked lays mem
  obtain ⟨info, shows, -⟩ := checked.classes.found c mem
  have size : c.layout.size.toInt32 = addressWord (4 * c.fields.length) := by
    rw [Layout.size_toInt32, Class.layout, List.length_map]
  refine ⟨_, inModule, made, ?_⟩
  rw [constructFunc, size, Class.initFields_eq shows.fields.distinct filled]
  rfl

/-! ## Uses of fields -/

/-- The code of each use of this field of this class takes the field to lie at this offset. -/
def UsesAt (scope : Scope) (code : Code) (uses : List FieldUse) (cls field : String)
    (offset : Int32) : Prop :=
  ∀ use ∈ uses, use.receiver = .object cls → use.name = field →
    ∃ piece, use.lower scope = .ok piece ∧ use.codeAt scope offset = .ok piece ∧
      Code.Part piece code

section

variable {scope : Scope} {code : Code}

theorem FieldUse.codeAt_of_lower {use : FieldUse} {piece : Code} {offset : Int32}
    (lowered : use.lower scope = .ok piece)
    (address : scope.fieldAddress use.receiver use.name =
      .ok (guardAbsent ++ [Instr.const offset, .add])) : use.codeAt scope offset = .ok piece := by
  cases use with
  | read ty obj name =>
    have typed : ty ≠ .any := by
      rintro rfl
      cases lowered
    obtain ⟨o, ho, _, h, rfl⟩ := (Expr.lower_field typed).1 lowered
    cases h.symm.trans address
    simp only [codeAt, ho, bind_eq_ok, pure_eq_ok]
    exact ⟨o, rfl, by simp only [List.append_assoc, List.cons_append, List.nil_append]⟩
  | readTarget ty obj name =>
    have lowered : (LValue.field ty obj name).lowerRead scope = .ok piece := lowered
    obtain ⟨o, ho, _, h, rfl⟩ := LValue.lowerRead_field.1 lowered
    cases h.symm.trans address
    simp only [codeAt, ho, bind_eq_ok, pure_eq_ok]
    exact ⟨o, rfl, by simp only [List.append_assoc, List.cons_append, List.nil_append]⟩
  | write ty obj name value =>
    have lowered : (LValue.field ty obj name).lowerWrite scope value = .ok piece := lowered
    obtain ⟨o, ho, _, h, v, hv, rfl⟩ := LValue.lowerWrite_field.1 lowered
    cases h.symm.trans address
    simp only [codeAt, ho, hv, bind_eq_ok, pure_eq_ok]
    exact ⟨o, rfl, v, rfl, by simp only [List.append_assoc]⟩

theorem Uses.usesAt {uses : List FieldUse} (h : Uses scope code uses) {cls field : String}
    {offset : Int32} (address : scope.fieldAddress (.object cls) field =
      .ok (guardAbsent ++ [Instr.const offset, .add])) : UsesAt scope code uses cls field offset := by
  intro use mem receiver name
  obtain ⟨piece, lowered, part⟩ := h use mem
  refine ⟨piece, lowered, FieldUse.codeAt_of_lower lowered ?_, part⟩
  rw [receiver, name]
  exact address

end

/-- All scopes of a program take the offset of a field from the one layout of its class. -/
theorem Program.Checked.fieldAddress_eq {p : Program} {scope inner : Scope}
    (checked : p.Checked scope) (lays : scope.LaysOut p.classes)
    (same : inner.classes = scope.classes) {c : Class} (mem : c ∈ p.classes) {i : Nat} {f : VarDef}
    (field : c.fields[i]? = some f) : inner.fieldAddress (.object c.name) f.name =
      .ok (guardAbsent ++ [Instr.const (addressWord (4 * i)), .add]) := by
  obtain ⟨info, found, laid⟩ := lays c mem
  obtain ⟨info', shows, -⟩ := checked.classes.found c mem
  obtain ⟨offset, lies⟩ := Layout.offset?_of_mem
    (List.mem_map_of_mem (List.mem_of_getElem? field) : f.name ∈ c.layout.fields)
  rw [← Class.offset_eq shows.fields.distinct field lies]
  exact Scope.fieldAddress_of_found (same ▸ found) laid lies

section

variable {p : Program} {scope : Scope} (checked : p.Checked scope)
  (lays : scope.LaysOut p.classes) {m : Module} (lowers : p.Lowers scope m) {c : Class}
  (mem : c ∈ p.classes) {i : Nat} {field : VarDef} (place : c.fields[i]? = some field)

include checked lays lowers mem place

theorem Program.Checked.usesAt_entry :
    UsesAt scope m.entry.body (Stmt.fieldUsesOf p.body) c.name field.name
      (addressWord (4 * i)) := by
  obtain ⟨functions, bare, code, -, lowered, rfl⟩ := lowers
  have uses := Stmt.uses_lowerAll checked.concrete checked.body lowered
  exact (uses.extend List.infix_append_left).usesAt (checked.fieldAddress_eq lays rfl mem place)

theorem Program.Checked.usesAt_method {c' : Class} (mem' : c' ∈ p.classes) {method : Method}
    (hm : method ∈ c'.methods) :
    ∃ f ∈ m.functions, ∃ inner,
      (∀ g, (method.lower (scope.enterClass c'.name) c'.name).run g = .ok f .zero) ∧
      (scope.enterClass c'.name).enterMethod method.ret method.params
        (method.definitions.map fun v => ⟨v.name, v.ty⟩) = .ok inner ∧
      UsesAt inner f.body (Stmt.fieldUsesOf method.statements) c.name field.name
        (addressWord (4 * i)) := by
  obtain ⟨inner, code, body, lowered, hf, run⟩ := lowers.exists_function checked mem' hm
  have concrete := (body.ready ((checked.ready lays).enterClass c'.name)).concrete
  have uses := Stmt.uses_lowerAll concrete body.statements lowered
  refine ⟨_, hf, inner, run, body.enters, (uses.extend (List.infix_append ..)).usesAt ?_⟩
  exact checked.fieldAddress_eq lays (Scope.enterMethod_enters body.enters).classes mem place

end

end Typed

namespace Source

/-- The offset of a field is four times its place among the fields of its class: where the object
is made, and wherever the field is read or written, in every method of every class and in the entry
function.  Different fields have different offsets, every slot is in the object, and making an
object moves the first free address by its size. -/
theorem Program.offsets_agree {p : Program} {tp : Typed.Program} {scope : Scope}
    (accepted : p.check = .ok (tp, scope)) :
    ∃ laid m, tp.erase = p ∧ scope.withLayouts tp = .ok laid ∧ p.toModule = .ok m ∧
      ∀ c ∈ tp.classes, c.fields.length < 2 ^ 29 →
        c.SlotsApart ∧
        (∃ f ∈ m.functions, c.lowerConstruct (laid.enterClass c.name) = .ok f ∧
          f.body = c.makeCode) ∧
        ∀ (i : Nat) field, c.fields[i]? = some field →
          Typed.UsesAt laid m.entry.body (Typed.Stmt.fieldUsesOf tp.body) c.name field.name
            (addressWord (4 * i)) ∧
          ∀ c' ∈ tp.classes, ∀ method ∈ c'.methods, ∃ f ∈ m.functions, ∃ inner,
            (∀ g, (method.lower (laid.enterClass c'.name) c'.name).run g = .ok f .zero) ∧
            (laid.enterClass c'.name).enterMethod method.ret method.params
              (method.definitions.map fun v => ⟨v.name, v.ty⟩) = .ok inner ∧
            Typed.UsesAt inner f.body (Typed.Stmt.fieldUsesOf method.statements) c.name field.name
              (addressWord (4 * i)) := by
  obtain ⟨laid, pass, -, checked, lays⟩ := Scope.withLayouts_ok (check_checked accepted)
  obtain ⟨m, g, run⟩ := checked.lower_ok lays .zero
  have lowers := Typed.Program.lower_lowers run
  refine ⟨laid, m, erase_of_check accepted, pass, toModule_of_run accepted pass run, ?_⟩
  intro c mem few
  obtain ⟨info, shows, -⟩ := checked.classes.found c mem
  refine ⟨Typed.Class.slotsApart shows.fields.distinct few,
    Typed.Class.exists_construct checked lays lowers mem, fun i field place => ⟨?_, ?_⟩⟩
  · exact checked.usesAt_entry lays lowers mem place
  · intro c' mem' method hm
    exact checked.usesAt_method lays lowers mem place mem' hm

/-- A list whose nodes write into the next one. -/
def Program.linked : Program where
  globals := [⟨"list", .object "Node", .none⟩]
  classes := [
    { name := "Node"
      fields := [⟨"value", .int, .int 1⟩, ⟨"next", .object "Node", .none⟩]
      methods := [
        { name := "pass"
          params := [⟨"self", .object "Node"⟩]
          ret := .none
          definitions := []
          statements := [
            .assign (.field (.field (.var "self") "next") "value")
              (.field (.id "self") "value")] }] }]
  body := [
    .assign (.var "list") (.call "Node" []),
    .assign (.field (.var "list") "next") (.field (.id "list") "next")]

/-- On the way to the object that `pass` writes to, the second field of a node is read. -/
theorem Program.offsets_agree_linked :
    ∃ tp scope laid m, linked.check = .ok (tp, scope) ∧ scope.withLayouts tp = .ok laid ∧
      linked.toModule = .ok m ∧
      ∃ c ∈ tp.classes, c.fields.length < 2 ^ 29 ∧ c.SlotsApart ∧ ∃ method ∈ c.methods,
        ∃ use ∈ Typed.Stmt.fieldUsesOf method.statements, use.receiver = .object "Node" ∧
          use.name = "next" ∧ ∃ f ∈ m.functions, ∃ inner piece,
            use.codeAt inner 4 = .ok piece ∧ Code.Part piece f.body := by
  obtain ⟨⟨tp, scope⟩, accepted⟩ : ∃ r, linked.check = .ok r := ⟨_, rfl⟩
  obtain ⟨laid, m, -, pass, compiled, fields⟩ := offsets_agree accepted
  cases accepted
  obtain ⟨apart, -, uses⟩ := fields _ (.head _) (by decide)
  obtain ⟨-, inMethods⟩ := uses 1 _ rfl
  obtain ⟨f, hf, inner, -, -, at4⟩ := inMethods _ (.head _) _ (.head _)
  obtain ⟨piece, -, code, part⟩ := at4 _ (.tail _ (.head _)) rfl rfl
  exact ⟨_, _, laid, m, rfl, pass, compiled, _, .head _, by decide, apart, _, .head _, _,
    .tail _ (.head _), rfl, rfl, f, hf, inner, piece, code, part⟩

end Source
end ClassLang
