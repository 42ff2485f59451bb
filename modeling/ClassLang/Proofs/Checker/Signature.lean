/-
The scope that a program declares.

The pass over signatures makes it one name after the other and refuses a name that it has met.  What
it ends with is said by the declarations as a whole: it is the scope that holds each of them once.
-/
import ClassLang.Proofs.Table
import ClassLang.Typing.Program

namespace ClassLang
namespace Source

/-! ## Methods -/

theorem Method.checkSelf_eq_ok {cls : String} {m : Method} {first : Param} {u : Unit} :
    m.checkSelf cls first = .ok u ↔ first = ⟨"self", .object cls⟩ := by
  unfold checkSelf
  split
  · next h => exact ⟨fun _ => by cases first; cases h.1; cases h.2; rfl, fun _ => rfl⟩
  · next h => exact ⟨nofun, fun eq => absurd (eq ▸ ⟨rfl, rfl⟩) h⟩

/-- A method of a class takes the object first.  A constructor takes nothing else, and is not
declared to return anything. -/
structure Method.WellSigned (cls : String) (m : Method) : Prop where
  self : m.params.head? = some ⟨"self", .object cls⟩
  alone : m.name = constructorName → m.params.length = 1 ∧ m.ret = .none

theorem Method.WellSigned.params_eq {cls : String} {m : Method} (h : m.WellSigned cls) :
    ∃ rest, m.params = ⟨"self", .object cls⟩ :: rest ∧ (m.name = constructorName → rest = []) := by
  obtain ⟨rest, hp⟩ := List.head?_eq_some_iff.1 h.self
  refine ⟨rest, hp, fun isCtor => ?_⟩
  have count := (h.alone isCtor).1
  rw [hp, List.length_cons] at count
  exact List.eq_nil_of_length_eq_zero (Nat.succ.inj count)

/-- What callers see of a method: what it takes beside the object, and what it returns.  The
constructor is seen as what makes the object. -/
def Method.shown (cls : String) (m : Method) : Signature :=
  if m.name = constructorName then { params := [], ret := .object cls }
  else { params := m.params.tail.map Param.ty, ret := m.ret }

theorem Method.signature_eq_ok {cls : String} {m : Method} {signature : Signature} :
    m.signature cls = .ok signature ↔ m.WellSigned cls ∧ signature = m.shown cls := by
  unfold Method.signature shown
  constructor
  · intro h
    split at h
    · next isCtor =>
      rw [if_pos isCtor]
      split at h
      · next first hp =>
        simp only [throw_bind, guard_eq_ok, bind_eq_ok, pure_eq_ok, checkSelf_eq_ok, ne_eq,
          not_not] at h
        obtain ⟨ret, _, rfl, rfl⟩ := h
        exact ⟨⟨by rw [hp]; rfl, fun _ => ⟨by rw [hp]; rfl, ret⟩⟩, rfl⟩
      · cases h
    · next notCtor =>
      rw [if_neg notCtor]
      split at h
      · next first rest hp =>
        simp only [bind_eq_ok, pure_eq_ok, checkSelf_eq_ok] at h
        obtain ⟨_, rfl, rfl⟩ := h
        exact ⟨⟨by rw [hp]; rfl, fun isCtor => absurd isCtor notCtor⟩, by rw [hp]; rfl⟩
      · cases h
  · rintro ⟨signed, rfl⟩
    obtain ⟨rest, hp, single⟩ := signed.params_eq
    have passed : m.checkSelf cls ⟨"self", .object cls⟩ = .ok () := checkSelf_eq_ok.2 rfl
    split
    · next isCtor =>
      simp only [hp, single isCtor, throw_bind]
      exact guard_eq_ok.2
        ⟨not_not_intro (signed.alone isCtor).2, bind_eq_ok.2 ⟨(), passed, rfl⟩⟩
    · simp only [hp]
      exact bind_eq_ok.2 ⟨(), passed, rfl⟩

/-! ## Classes -/

/-- The names of a class: its fields, and its methods by other names with what callers see of
them. -/
structure Class.Declares (c : Class) (info : ClassInfo) : Prop where
  fields : Table.Filled VarDef.name (fun f ty => ty = f.ty) c.fields info.fields
  methods : Table.Filled Method.name
    (fun m signature => info.fields.get? m.name = none ∧ m.signature c.name = .ok signature)
    c.methods info.methods
  layout : info.layout = none

theorem Class.signature_eq_ok {c : Class} {info : ClassInfo} :
    c.signature = .ok info ↔ c.Declares info := by
  simp only [Class.signature, throw_bind, bind_eq_ok, pure_eq_ok]
  constructor
  · rintro ⟨fields, hf, methods, hm, rfl⟩
    refine ⟨(Table.foldlM_eq_ok_iff fun t f t' => ?_).1 hf,
      (Table.foldlM_eq_ok_iff fun t m t' => ?_).1 hm, rfl⟩
    · simp only [guard_eq_ok, Bool.not_eq_true, Table.contains_eq_false, pure_eq_ok, exists_eq_left]
    · simp only [guard_eq_ok, Bool.not_eq_true, Bool.or_eq_false_iff, Table.contains_eq_false,
        pure_eq_ok, bind_eq_ok, and_assoc, exists_and_left]
  · rintro ⟨fields, methods, layout⟩
    refine ⟨info.fields, (Table.foldlM_eq_ok_iff fun t f t' => ?_).2 fields, info.methods,
      (Table.foldlM_eq_ok_iff fun t m t' => ?_).2 methods, by rw [← layout]⟩
    · simp only [guard_eq_ok, Bool.not_eq_true, Table.contains_eq_false, pure_eq_ok, exists_eq_left]
    · simp only [guard_eq_ok, Bool.not_eq_true, Bool.or_eq_false_iff, Table.contains_eq_false,
        pure_eq_ok, bind_eq_ok, and_assoc, exists_and_left]

/-- The members of a class have different names, and each of its methods is declared as one. -/
structure Class.WellSigned (c : Class) : Prop where
  fields : (c.fields.map VarDef.name).Nodup
  methods : (c.methods.map Method.name).Nodup
  apart : ∀ m ∈ c.methods, ∀ f ∈ c.fields, m.name ≠ f.name
  signed : ∀ m ∈ c.methods, m.WellSigned c.name

/-- What the names of the fields of a class come to. -/
theorem VarDef.filled_iff {fields : List VarDef} {t : Table Ty} :
    Table.Filled VarDef.name (fun f ty => ty = f.ty) fields t ↔
      (fields.map VarDef.name).Nodup ∧
      ∀ name ty, t.get? name = some ty ↔ ∃ f ∈ fields, f.name = name ∧ f.ty = ty := by
  refine (Table.filled_iff (P := fun _ => True) fun _ _ => (true_and _).symm.to_iff).trans ?_
  exact and_congr_right fun _ => and_iff_right fun _ _ => trivial

/-- What the names of its methods come to, beside those of the fields. -/
theorem Method.filled_iff {cls : String} {fields : Table Ty} {methods : List Method}
    {t : Table Signature} :
    Table.Filled Method.name
        (fun m signature => fields.get? m.name = none ∧ m.signature cls = .ok signature) methods t ↔
      (methods.map Method.name).Nodup ∧
      (∀ m ∈ methods, fields.get? m.name = none ∧ m.WellSigned cls) ∧
      ∀ name signature, t.get? name = some signature ↔
        ∃ m ∈ methods, m.name = name ∧ m.shown cls = signature :=
  Table.filled_iff fun m signature => by rw [signature_eq_ok, and_assoc]

theorem Class.declares_iff {c : Class} {info : ClassInfo} :
    c.Declares info ↔ c.WellSigned ∧
      (∀ name ty, info.fields.get? name = some ty ↔ ∃ f ∈ c.fields, f.name = name ∧ f.ty = ty) ∧
      (∀ name signature, info.methods.get? name = some signature ↔
        ∃ m ∈ c.methods, m.name = name ∧ m.shown c.name = signature) ∧
      info.layout = none := by
  constructor
  · rintro ⟨fields, methods, layout⟩
    obtain ⟨distinct, fieldsFound⟩ := VarDef.filled_iff.1 fields
    obtain ⟨distinct', signed, methodsFound⟩ := Method.filled_iff.1 methods
    have apart : ∀ m ∈ c.methods, ∀ f ∈ c.fields, m.name ≠ f.name := fun m mem =>
      fields.get?_eq_none_iff.1 (signed m mem).1
    exact ⟨⟨distinct, distinct', apart, fun m mem => (signed m mem).2⟩, fieldsFound, methodsFound,
      layout⟩
  · rintro ⟨signed, fieldsFound, methodsFound, layout⟩
    have fields := VarDef.filled_iff.2 ⟨signed.fields, fieldsFound⟩
    refine ⟨fields, Method.filled_iff.2 ⟨signed.methods, fun m mem => ⟨?_, signed.signed m mem⟩,
      methodsFound⟩, layout⟩
    exact fields.get?_eq_none_iff.2 (signed.apart m mem)

theorem Class.exists_declares {c : Class} (signed : c.WellSigned) : ∃ info, c.Declares info := by
  obtain ⟨fields, ofFields⟩ :
      ∃ t, Table.Filled VarDef.name (fun f ty => ty = f.ty) c.fields t :=
    Table.exists_filled_iff.2 ⟨signed.fields, fun f _ => ⟨f.ty, rfl⟩⟩
  obtain ⟨methods, ofMethods⟩ : ∃ t, Table.Filled Method.name
      (fun m signature => fields.get? m.name = none ∧ m.signature c.name = .ok signature)
      c.methods t :=
    Table.exists_filled_iff.2 ⟨signed.methods, fun m mem => ⟨m.shown c.name,
      ofFields.get?_eq_none_iff.2 (signed.apart m mem),
      Method.signature_eq_ok.2 ⟨signed.signed m mem, rfl⟩⟩⟩
  exact ⟨{ fields, methods, layout := none }, ofFields, ofMethods, rfl⟩

/-- The pass over signatures goes through exactly the classes whose members are declared as they
should be, and what it ends with has each field with its type, each method as callers see it, and
nothing else. -/
theorem Class.signature_iff_wellSigned (c : Class) :
    ((∃ info, c.signature = .ok info) ↔ c.WellSigned) ∧
    ∀ info, c.signature = .ok info ↔ c.WellSigned ∧
      (∀ name ty, info.fields.get? name = some ty ↔ ∃ f ∈ c.fields, f.name = name ∧ f.ty = ty) ∧
      (∀ name signature, info.methods.get? name = some signature ↔
        ∃ m ∈ c.methods, m.name = name ∧ m.shown c.name = signature) ∧
      info.layout = none := by
  refine ⟨⟨?_, fun signed => ?_⟩, fun info => signature_eq_ok.trans declares_iff⟩
  · rintro ⟨info, passed⟩
    exact (declares_iff.1 (signature_eq_ok.1 passed)).1
  · obtain ⟨info, declares⟩ := exists_declares signed
    exact ⟨info, signature_eq_ok.2 declares⟩

/-! ## Programs -/

/-- The names of a program: its variables, which its statements may assign, and its classes. -/
structure Program.Declares (p : Program) (scope : Scope) : Prop where
  vars : Table.Filled VarDef.name (fun v binding => binding = ⟨v.ty, true⟩) p.globals scope.vars
  classes : Table.Filled Class.name (fun c info => c.signature = .ok info) p.classes scope.classes
  functions : scope.functions = Host.builtins
  returns : scope.returns = .none
  owner : scope.owner = none

theorem Program.scope_eq_ok {p : Program} {scope : Scope} :
    p.scope = .ok scope ↔ p.Declares scope := by
  simp only [Program.scope, throw_bind, bind_eq_ok, pure_eq_ok]
  constructor
  · rintro ⟨vars, hv, classes, hc, rfl⟩
    refine ⟨(Table.foldlM_eq_ok_iff fun t v t' => ?_).1 hv,
      (Table.foldlM_eq_ok_iff fun t c t' => ?_).1 hc, rfl, rfl, rfl⟩
    · simp only [guard_eq_ok, Bool.not_eq_true, Table.contains_eq_false, pure_eq_ok, exists_eq_left]
    · simp only [bind_eq_ok, guard_eq_ok, Bool.not_eq_true, Table.contains_eq_false, pure_eq_ok,
        and_left_comm, exists_and_left]
  · rintro ⟨vars, classes, functions, returns, owner⟩
    refine ⟨scope.vars, (Table.foldlM_eq_ok_iff fun t v t' => ?_).2 vars, scope.classes,
      (Table.foldlM_eq_ok_iff fun t c t' => ?_).2 classes, ?_⟩
    · simp only [guard_eq_ok, Bool.not_eq_true, Table.contains_eq_false, pure_eq_ok, exists_eq_left]
    · simp only [bind_eq_ok, guard_eq_ok, Bool.not_eq_true, Table.contains_eq_false, pure_eq_ok,
        and_left_comm, exists_and_left]
    · cases scope
      cases functions
      cases returns
      cases owner
      rfl

end Source
end ClassLang
