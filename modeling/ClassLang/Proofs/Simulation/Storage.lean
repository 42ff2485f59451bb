/-
Variables and fields in the code of a body.

The names that a method binds are locals of its function, and all others are globals.  The scratch
local is none of them, so guards may use it whenever they like.
-/
import ClassLang.Proofs.Machine.Exec
import ClassLang.Proofs.Simulation.Setting

namespace ClassLang

open Machine (Frame Outcome Reaches State)

/-- A call of a function: the scope of its body, whether it has a result, and who waits for it. -/
structure Activation where
  scope : Scope
  result : Bool
  callers : List Frame

namespace Setting

variable (S : Setting)

/-- The scope of a body of the program: that of the outermost statements, or that of a method. -/
structure Body (scope : Scope) : Prop where
  ready : scope.Ready
  classes : scope.classes = S.scope.classes
  plain : ∀ name binding, scope.vars.get? name = some binding → Plain name
  outer : ∀ name binding, scope.vars.get? name = some binding →
    (scope.inMethod && binding.assignable) = false →
      ∃ v ∈ S.program.globals, v.name = name ∧ v.ty = binding.ty
  returns : scope.inMethod = true → scope.returns ≠ .any

/-- The locals of a function hold what the names that its body binds stand for. -/
structure Locals (scope : Scope) (w : World) (locals : Table Int32) : Prop where
  own : ∀ name binding, scope.vars.get? name = some binding →
    (scope.inMethod && binding.assignable) = true →
      ∃ v, w.locals.get? name = some v ∧ v.Fits w.classes binding.ty ∧
        locals.get? name = some (w.word S.program v)
  outer : ∀ name binding, scope.vars.get? name = some binding →
    (scope.inMethod && binding.assignable) = false → w.locals.get? name = none

/-- The machine stands before some code of a body with some words on the stack, and holds `w`. -/
def At (act : Activation) (code : Code) (stack : List Int32) (w : World) (s : State) : Prop :=
  ∃ locals store, s = ⟨⟨code, stack, locals, act.result⟩, act.callers, store⟩ ∧
    S.Locals act.scope w locals ∧ w.HeldBy S.program S.limit store

/-- The machine has left a value of the given type on the stack. -/
def Pushed (act : Activation) (code : Code) (stack : List Int32) (ty : Ty) (v : Value) (w : World)
    (s : State) : Prop :=
  v.Fits w.classes ty ∧ S.At act code (w.word S.program v :: stack) w s

namespace Locals

variable {S} {scope : Scope} {w w' : World} {locals : Table Int32}

theorem scratch (holds : S.Locals scope w locals) (body : S.Body scope) (word : Int32) :
    S.Locals scope w (locals.insert ClassLang.scratch word) where
  own := fun name binding found mine => by
    obtain ⟨v, hw, fits, hl⟩ := holds.own name binding found mine
    have differs : name ≠ ClassLang.scratch := (body.plain name binding found).ne_scratch
    exact ⟨v, hw, fits, (Table.get?_insert ..).trans ((if_neg differs).trans hl)⟩
  outer := holds.outer

/-- Objects that are made in between do not count. -/
theorem grow (holds : S.Locals scope w locals) (grown : w.Extends w')
    (same : w'.locals = w.locals) : S.Locals scope w' locals where
  own := fun name binding found mine => by
    obtain ⟨v, hw, fits, hl⟩ := holds.own name binding found mine
    exact ⟨v, same ▸ hw, grown.fits fits, hl.trans (congrArg some (grown.word fits.made).symm)⟩
  outer := fun name binding found other => same ▸ holds.outer name binding found other

theorem set (holds : S.Locals scope w locals) {name : String} {binding : Binding}
    (found : scope.vars.get? name = some binding)
    (mine : (scope.inMethod && binding.assignable) = true) {v : Value}
    (fits : v.Fits w.classes binding.ty) :
    S.Locals scope { w with locals := w.locals.insert name v }
      (locals.insert name (w.word S.program v)) where
  own := fun other binding' found' mine' => by
    rw [Table.get?_insert, Table.get?_insert]
    by_cases same : other = name
    · subst same
      cases found.symm.trans found'
      rw [if_pos rfl, if_pos rfl]
      exact ⟨v, rfl, fits, rfl⟩
    · rw [if_neg same, if_neg same]
      exact holds.own other binding' found' mine'
  outer := fun other binding' found' outside => by
    have differs : other ≠ name := by
      rintro rfl
      cases found.symm.trans found'
      rw [mine] at outside
      cases outside
    rw [Table.get?_insert, if_neg differs]
    exact holds.outer other binding' found' outside

end Locals

/-! ## Variables -/

variable {S} {act : Activation} {code : Code} {stack : List Int32} {w : World} {s : State}

theorem follows_readVar {name : String} {binding : Binding} {read : Instr}
    (body : S.Body act.scope) (found : act.scope.vars.get? name = some binding)
    (lowered : act.scope.readVar name = .ok read) (start : S.At act (read :: code) stack w s) :
    S.Follows (readVar name w) (S.Pushed act code stack binding.ty) s := by
  obtain ⟨locals, store, rfl, holds, held⟩ := start
  cases (Scope.readVar_of_found found).symm.trans lowered
  cases mine : act.scope.inMethod && binding.assignable with
  | true =>
    obtain ⟨v, hw, fits, hl⟩ := holds.own name binding found mine
    have run : readVar name w = .ok v w := by rw [readVar, hw]; rfl
    rw [run]
    exact fun _ => .localGet hl (.here ⟨fits, locals, store, rfl, holds, held⟩)
  | false =>
    obtain ⟨u, hu, rfl, ty⟩ := body.outer name binding found mine
    obtain ⟨v, hw, fits, hs⟩ := held.globals u hu
    have run : readVar u.name w = .ok v w := by
      rw [readVar, holds.outer u.name binding found mine, hw]
      rfl
    rw [run]
    exact fun _ => .globalGet hs (.here ⟨ty ▸ fits, locals, store, rfl, holds, held⟩)

theorem follows_writeVar {name : String} {binding : Binding} {write : Instr} {v : Value}
    (body : S.Body act.scope) (found : act.scope.vars.get? name = some binding)
    (lowered : act.scope.writeVar name = .ok write) (fits : v.Fits w.classes binding.ty)
    (start : S.At act (write :: code) (w.word S.program v :: stack) w s) :
    S.Follows (writeVar name v w) (fun _ => S.At act code stack) s := by
  obtain ⟨locals, store, rfl, holds, held⟩ := start
  cases (Scope.writeVar_of_found found).symm.trans lowered
  cases mine : act.scope.inMethod && binding.assignable with
  | true =>
    obtain ⟨u, hw, -⟩ := holds.own name binding found mine
    have bound : w.locals.contains name = true := Table.contains_eq_true.2 ⟨u, hw⟩
    have run : writeVar name v w = .ok () { w with locals := w.locals.insert name v } := by
      rw [writeVar, if_pos bound]
    rw [run]
    exact fun _ => .localSet (.here
      ⟨_, store, rfl, holds.set found mine fits, held.setLocals _⟩)
  | false =>
    obtain ⟨u, hu, rfl, ty⟩ := body.outer name binding found mine
    obtain ⟨old, hw, -⟩ := held.globals u hu
    have unbound : ¬w.locals.contains u.name = true := by
      rw [Table.contains, holds.outer u.name binding found mine]
      exact Bool.false_ne_true
    have bound : w.globals.contains u.name = true := Table.contains_eq_true.2 ⟨old, hw⟩
    have run : writeVar u.name v w = .ok () { w with globals := w.globals.insert u.name v } := by
      rw [writeVar, if_neg unbound, if_pos bound]
    rw [run]
    exact fun _ => .globalSet (.here ⟨locals, _, rfl, ⟨holds.own, holds.outer⟩,
      held.setGlobal S.checked S.plain hu (ty ▸ fits)⟩)

/-! ## Fields -/

/-- An object keeps one of its fields at the address `a`. -/
structure Slot (S : Setting) (w : World) (id : Nat) (field : String) (ty : Ty) (a : Nat) :
    Prop where
  keeps : ∃ c ∈ S.program.classes, w.classes[id]? = some c.name ∧ ∃ (i : Nat) (f : VarDef),
    c.fields[i]? = some f ∧ f.name = field ∧ f.ty = ty ∧ a = w.address S.program id + 4 * i

theorem Slot.grow {w' : World} {id a : Nat} {field : String} {ty : Ty}
    (slot : S.Slot w id field ty a) (grown : w.Extends w') : S.Slot w' id field ty a := by
  obtain ⟨c, mem, cls, i, f, hf, name, hty, rfl⟩ := slot.keeps
  have bound : id ≤ w.classes.length := Nat.le_of_lt (List.getElem?_eq_some_iff.1 cls).1
  exact ⟨c, mem, grown.getElem? cls, i, f, hf, name, hty, by rw [grown.address bound]⟩

/-- The guard lets through the objects that are there. -/
theorem follows_guard {cls : String} {v : Value} (body : S.Body act.scope)
    (fits : v.Fits w.classes (.object cls))
    (start : S.At act (guardAbsent ++ code) (w.word S.program v :: stack) w s) :
    S.Follows (deref v w) (fun id w' t => w' = w ∧ v = .ref id ∧ w.classes[id]? = some cls ∧
      S.At act code (w.word S.program v :: stack) w t) s := by
  obtain ⟨locals, store, rfl, holds, held⟩ := start
  cases fits with
  | absent _ =>
    have stops : Halt.Stops S.program S.limit .absent w (.aborted _) := ⟨store, held, rfl⟩
    exact fun _ => .guardAbsent_abort (S.standard.trap _) stops
  | @ref id _ made =>
    have bound := (List.getElem?_eq_some_iff.1 made).1
    have present : w.word S.program (.ref id) ≠ 0 :=
      World.word_ref_ne_zero (held.fielded S.checked S.fielded)
        (Nat.le_trans held.fits S.limit_le) bound
    exact fun _ => .guardAbsent present
      (.here ⟨rfl, rfl, made, _, store, rfl, holds.scratch body _, held⟩)

theorem follows_fieldAddress {cls field : String} {info : ClassInfo} {ty : Ty} {address : Code}
    {v : Value} (body : S.Body act.scope) (found : act.scope.classes.get? cls = some info)
    (declared : info.fields.get? field = some ty)
    (lowered : act.scope.fieldAddress (.object cls) field = .ok address)
    (fits : v.Fits w.classes (.object cls))
    (start : S.At act (address ++ code) (w.word S.program v :: stack) w s) :
    S.Follows (deref v w) (fun id w' t => w' = w ∧ ∃ a, S.Slot w id field ty a ∧
      S.At act code (addressWord a :: stack) w t) s := by
  obtain ⟨c, mem, rfl, laid, offset, lies, i, f, hf, name, hty, eq⟩ :=
    S.compiled.exists_slot (body.classes ▸ found) declared
  cases (Scope.fieldAddress_of_found found laid lies).symm.trans lowered
  rw [List.append_assoc] at start
  have guarded := follows_guard body fits start
  refine guarded.andThen fun id w' t _ passed => ?_
  obtain ⟨rfl, rfl, made, locals, store, rfl, holds, held⟩ := passed
  have sum : w'.word S.program (.ref id) + offset.toInt32 =
      addressWord (w'.address S.program id + 4 * i) := by
    rw [eq, World.word, addressWord_add]
  refine .const (.binary rfl rfl (.here ⟨rfl, _, ⟨c, mem, made, i, f, hf, name, hty, rfl⟩, ?_⟩))
  exact ⟨locals, store, by rw [sum]; rfl, holds, held⟩

theorem Slot.inside {id a : Nat} {field : String} {ty : Ty} {store : Machine.Store}
    (slot : S.Slot w id field ty a) (held : w.HeldBy S.program S.limit store) :
    (addressWord a).toUInt32.toNat = a ∧ a + 4 ≤ store.memory.size := by
  obtain ⟨c, mem, cls, i, f, hf, -, -, rfl⟩ := slot.keeps
  have below := World.address_add_le_heapEnd (p := S.program) cls
  have inside := (List.getElem?_eq_some_iff.1 hf).1
  have room := held.fits
  have limit := S.limit_le
  have size := held.size
  rw [S.checked.slots_of_mem mem] at below
  exact ⟨toNat_addressWord (by omega), by omega⟩

theorem Slot.object {id a : Nat} {field : String} {ty : Ty} {store : Machine.Store}
    (slot : S.Slot w id field ty a) (held : w.HeldBy S.program S.limit store) :
    ∃ obj c, w.objects[id]? = some obj ∧ w.HasObject S.program store.memory id obj c ∧
      ∃ (i : Nat) (f : VarDef), c.fields[i]? = some f ∧ f.name = field ∧ f.ty = ty ∧
        a = w.address S.program id + 4 * i := by
  obtain ⟨c, mem, cls, keeps⟩ := slot.keeps
  have bound : id < w.objects.length := by
    have bound := (List.getElem?_eq_some_iff.1 cls).1
    rwa [World.classes, List.length_map] at bound
  have found := List.getElem?_eq_getElem bound
  obtain ⟨c', has⟩ := held.objects id _ found
  have same : c' = c := by
    have name := (World.classes_getElem? found).symm.trans cls
    rw [has.cls] at name
    exact List.inj_on_of_nodup_map S.checked.classes.distinct has.declared mem
      (Option.some.inj name)
  exact ⟨_, c, found, same ▸ has, keeps⟩

theorem follows_readField {id a : Nat} {field : String} {ty : Ty} (slot : S.Slot w id field ty a)
    (start : S.At act (.load :: code) (addressWord a :: stack) w s) :
    S.Follows (readField id field w) (S.Pushed act code stack ty) s := by
  obtain ⟨locals, store, rfl, holds, held⟩ := start
  obtain ⟨here, inside⟩ := slot.inside held
  obtain ⟨obj, c, found, has, i, f, hf, rfl, rfl, rfl⟩ := slot.object held
  obtain ⟨v, hv, fits, word⟩ := has.slots i f hf
  have run : readField id f.name w = .ok v w := by
    rw [readField, found, Option.bind_some, hv]
  have within : (addressWord (w.address S.program id + 4 * i)).toUInt32.toNat + 4 ≤
      store.memory.size := by omega
  rw [run]
  refine fun _ => .load within (.here ⟨fits, locals, store, ?_, holds, held⟩)
  rw [here, word]

theorem follows_writeField {id a : Nat} {field : String} {ty : Ty} {v : Value}
    (slot : S.Slot w id field ty a) (fits : v.Fits w.classes ty)
    (start : S.At act (.store :: code) (w.word S.program v :: addressWord a :: stack) w s) :
    S.Follows (writeField id field v w) (fun _ => S.At act code stack) s := by
  obtain ⟨locals, store, rfl, holds, held⟩ := start
  obtain ⟨here, inside⟩ := slot.inside held
  obtain ⟨obj, c, found, has, i, f, hf, rfl, rfl, rfl⟩ := slot.object held
  obtain ⟨old, hold, -⟩ := has.slots i f hf
  have bound : obj.fields.contains f.name = true := Table.contains_eq_true.2 ⟨old, hold⟩
  have run : writeField id f.name v w = .ok () { w with
      objects := w.objects.set id { obj with fields := obj.fields.insert f.name v } } := by
    rw [writeField, found]
    exact if_pos bound
  have grown := (grows_writeField id f.name v).ok run
  have within : (addressWord (w.address S.program id + 4 * i)).toUInt32.toNat + 4 ≤
      store.memory.size := by omega
  rw [run]
  refine fun _ => .storeWord within (.here ⟨locals, _, rfl, holds.grow grown rfl, ?_⟩)
  rw [here]
  exact held.setField S.checked found has hf fits

end Setting
end ClassLang
