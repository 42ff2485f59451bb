/-
Worlds in a machine.

Variables are globals of the same names, and the fields of objects are words of memory.  What a
world and a store agree on is kept by each way in which a world changes.
-/
import ClassLang.Proofs.Lowering.Symbols
import ClassLang.Proofs.Simulation.Words
import Mathlib.Data.List.Nodup

namespace ClassLang

namespace Typed

theorem Program.Checked.class?_of_mem {p : Program} {scope : Scope} (checked : p.Checked scope)
    {c : Class} (mem : c ∈ p.classes) : p.class? c.name = some c :=
  find?_of_mem checked.classes.distinct mem

theorem Program.Checked.slots_of_mem {p : Program} {scope : Scope} (checked : p.Checked scope)
    {c : Class} (mem : c ∈ p.classes) : p.slots c.name = c.fields.length := by
  rw [Program.slots, checked.class?_of_mem mem]
  rfl

end Typed

/-- A call of the host as the machine makes it. -/
def Event.call (word : Value → Int32) (e : Event) : HostCall := ⟨e.func, e.args.map word⟩

namespace World

/-- The slots of an object hold the values of its fields. -/
structure HasObject (p : Typed.Program) (w : World) (memory : Memory) (id : Nat) (obj : Object)
    (c : Typed.Class) : Prop where
  declared : c ∈ p.classes
  cls : obj.cls = c.name
  slots : ∀ (i : Nat) f, c.fields[i]? = some f → ∃ v, obj.fields.get? f.name = some v ∧
    v.Fits w.classes f.ty ∧ memory.word (w.address p id + 4 * i) = w.word p v

/-- A store holds a world, in so many bytes of memory.  All variables and fields have values of
their types. -/
structure HeldBy (p : Typed.Program) (limit : Nat) (w : World) (store : Machine.Store) : Prop where
  globals : ∀ v ∈ p.globals, ∃ value, w.globals.get? v.name = some value ∧
    value.Fits w.classes v.ty ∧ store.globals.get? v.name = some (w.word p value)
  objects : ∀ id obj, w.objects[id]? = some obj → ∃ c, w.HasObject p store.memory id obj c
  made : ∀ e ∈ w.events, ∀ v ∈ e.args, v.Made w.classes
  calls : store.calls = w.events.map (Event.call (w.word p))
  free : store.globals.get? heap = some (addressWord (w.heapEnd p))
  size : store.memory.size = limit
  fits : w.heapEnd p ≤ limit

end World

theorem World.word_literal (p : Typed.Program) (w : World) (literal : Literal) :
    w.word p literal.value = literal.word := by
  cases literal <;> rfl

namespace World.HeldBy

variable {p : Typed.Program} {scope : Scope} {limit : Nat} {w : World} {store : Machine.Store}

theorem fielded (held : w.HeldBy p limit store) (checked : p.Checked scope)
    (fielded : ∀ c ∈ p.classes, c.fields ≠ []) : ∀ cls ∈ w.classes, 0 < p.slots cls := by
  intro cls mem
  obtain ⟨obj, hobj, rfl⟩ := List.mem_map.1 mem
  obtain ⟨id, found⟩ := List.mem_iff_getElem?.1 hobj
  obtain ⟨c, has⟩ := held.objects id obj found
  rw [has.cls, checked.slots_of_mem has.declared]
  exact List.length_pos_iff.2 (fielded c has.declared)

/-- Nothing that a store holds is about locals. -/
theorem setLocals (held : w.HeldBy p limit store) (locals : Table Value) :
    World.HeldBy p limit { w with locals } store where
  globals := held.globals
  objects := fun id obj found => by
    obtain ⟨c, has⟩ := held.objects id obj found
    exact ⟨c, has.declared, has.cls, has.slots⟩
  made := held.made
  calls := held.calls
  free := held.free
  size := held.size
  fits := held.fits

theorem setGlobal (held : w.HeldBy p limit store) (checked : p.Checked scope)
    (plain : p.Plain) {v : VarDef} (mem : v ∈ p.globals) {value : Value}
    (fits : value.Fits w.classes v.ty) :
    World.HeldBy p limit { w with globals := w.globals.insert v.name value }
      { store with globals := store.globals.insert v.name (w.word p value) } where
  globals := fun u hu => by
    show ∃ value', (w.globals.insert v.name value).get? u.name = some value' ∧
      value'.Fits w.classes u.ty ∧
      (store.globals.insert v.name (w.word p value)).get? u.name = some (w.word p value')
    rw [Table.get?_insert, Table.get?_insert]
    by_cases same : u.name = v.name
    · have eq : u = v := List.inj_on_of_nodup_map checked.vars.distinct hu mem same
      rw [if_pos same, if_pos same, eq]
      exact ⟨value, rfl, fits, rfl⟩
    · rw [if_neg same, if_neg same]
      exact held.globals u hu
  objects := fun id obj found => by
    obtain ⟨c, has⟩ := held.objects id obj found
    exact ⟨c, has.declared, has.cls, has.slots⟩
  made := held.made
  calls := held.calls
  free := by
    have differs : heap ≠ v.name := (plain.globals v mem).ne_heap.symm
    exact (Table.get?_insert ..).trans ((if_neg differs).trans held.free)
  size := held.size
  fits := held.fits

theorem record (held : w.HeldBy p limit store) (func : String) {args : List Value}
    (made : ∀ v ∈ args, v.Made w.classes) :
    World.HeldBy p limit { w with events := w.events ++ [⟨func, args⟩] }
      { store with calls := store.calls ++ [⟨func, args.map (w.word p)⟩] } where
  globals := held.globals
  objects := fun id obj found => by
    obtain ⟨c, has⟩ := held.objects id obj found
    exact ⟨c, has.declared, has.cls, has.slots⟩
  made := fun e mem => by
    rcases List.mem_append.1 mem with mem | mem
    · exact held.made e mem
    · rw [List.mem_singleton.1 mem]
      exact made
  calls := by
    show store.calls ++ [_] = (w.events ++ [_]).map (Event.call (w.word p))
    rw [List.map_append, held.calls]
    rfl
  free := held.free
  size := held.size
  fits := held.fits

end World.HeldBy

/-! ## Objects -/

namespace World

variable {p : Typed.Program} {scope : Scope} {limit : Nat} {w w' : World} {store : Machine.Store}
  {memory memory' : Memory} {id : Nat} {obj : Object} {c : Typed.Class}

/-- An object stays where it is as long as nothing is put into its slots. -/
theorem HasObject.keep (has : w.HasObject p memory id obj c) (grown : w.Extends w')
    (bound : id < w.classes.length)
    (same : ∀ i < c.fields.length, memory'.word (w.address p id + 4 * i) =
      memory.word (w.address p id + 4 * i)) : w'.HasObject p memory' id obj c where
  declared := has.declared
  cls := has.cls
  slots := fun i f field => by
    obtain ⟨v, found, fits, word⟩ := has.slots i f field
    have inside : i < c.fields.length := (List.getElem?_eq_some_iff.1 field).1
    refine ⟨v, found, grown.fits fits, ?_⟩
    rw [grown.address (Nat.le_of_lt bound), same i inside, word, grown.word fits.made]

theorem classes_getElem? (found : w.objects[id]? = some obj) : w.classes[id]? = some obj.cls := by
  rw [classes, List.getElem?_map, found]
  rfl

/-- The slots of different objects are apart. -/
theorem slots_apart (checked : p.Checked scope) {id' : Nat} {obj' : Object} {c' : Typed.Class}
    (found : w.objects[id]? = some obj) (found' : w.objects[id']? = some obj')
    (has : w.HasObject p memory id obj c) (has' : w.HasObject p memory' id' obj' c')
    (ne : id ≠ id') {i i' : Nat} (inside : i < c.fields.length) (inside' : i' < c'.fields.length) :
    w.address p id + 4 * i + 4 ≤ w.address p id' + 4 * i' ∨
      w.address p id' + 4 * i' + 4 ≤ w.address p id + 4 * i := by
  have size : p.slots obj.cls = c.fields.length := has.cls ▸ checked.slots_of_mem has.declared
  have size' : p.slots obj'.cls = c'.fields.length := has'.cls ▸ checked.slots_of_mem has'.declared
  rcases Nat.lt_or_gt_of_ne ne with lt | gt
  · have below := address_add_le (p := p) (classes_getElem? found) lt
    omega
  · have below := address_add_le (p := p) (classes_getElem? found') gt
    omega

theorem HasObject.setField (has : w.HasObject p memory id obj c) (checked : p.Checked scope)
    {i : Nat} {f : VarDef} (field : c.fields[i]? = some f) {v : Value}
    (fits : v.Fits w.classes f.ty) :
    w.HasObject p (memory.putWord (w.address p id + 4 * i) (w.word p v)) id
      { obj with fields := obj.fields.insert f.name v } c where
  declared := has.declared
  cls := has.cls
  slots := fun j g hg => by
    rw [Table.get?_insert]
    by_cases eq : g.name = f.name
    · obtain ⟨info, shows, -⟩ := checked.classes.found c has.declared
      have same : g = f := List.inj_on_of_nodup_map shows.fields.distinct
        (List.mem_of_getElem? hg) (List.mem_of_getElem? field) eq
      have here : j = i := by
        have nodup := List.Nodup.of_map _ shows.fields.distinct
        have bound := (List.getElem?_eq_some_iff.1 hg).1
        exact (List.getElem?_inj bound nodup).1 (by rw [hg, field, same])
      subst here
      rw [if_pos eq]
      exact ⟨v, rfl, same ▸ fits, Memory.word_putWord _ _ _⟩
    · have apart : j ≠ i := by
        rintro rfl
        rw [hg] at field
        exact eq (congrArg VarDef.name (Option.some.inj field))
      rw [if_neg eq, Memory.word_putWord_of_apart (by omega)]
      exact has.slots j g hg

theorem HeldBy.setField (held : w.HeldBy p limit store) (checked : p.Checked scope)
    (found : w.objects[id]? = some obj) (has : w.HasObject p store.memory id obj c) {i : Nat}
    {f : VarDef} (field : c.fields[i]? = some f) {v : Value} (fits : v.Fits w.classes f.ty) :
    World.HeldBy p limit
      { w with objects := w.objects.set id { obj with fields := obj.fields.insert f.name v } }
      { store with
        memory := store.memory.putWord (w.address p id + 4 * i) (w.word p v) } := by
  have same : World.classes { w with
      objects := w.objects.set id { obj with fields := obj.fields.insert f.name v } } = w.classes :=
    classes_set found _
  have grown : w.Extends
      { w with objects := w.objects.set id { obj with fields := obj.fields.insert f.name v } } := by
    rw [Extends, same]
  have bound : id < w.objects.length := (List.getElem?_eq_some_iff.1 found).1
  have inside : i < c.fields.length := (List.getElem?_eq_some_iff.1 field).1
  refine ⟨fun u hu => ?_, fun id' obj' found' => ?_, fun e he u hu => ?_, ?_, ?_, held.size, ?_⟩
  · obtain ⟨value, hw, fits, hs⟩ := held.globals u hu
    exact ⟨value, hw, grown.fits fits, hs.trans (congrArg some (word_congr same value).symm)⟩
  · by_cases eq : id = id'
    · subst eq
      have updated : ({ obj with fields := obj.fields.insert f.name v } : Object) = obj' := by
        rw [List.getElem?_set_self bound] at found'
        exact Option.some.inj found'
      subst updated
      exact ⟨c, (has.setField checked field fits).keep grown (by simpa [classes] using bound)
        fun _ _ => rfl⟩
    · have other : w.objects[id']? = some obj' := by
        rwa [List.getElem?_set_ne eq] at found'
      have bound' := (List.getElem?_eq_some_iff.1 (classes_getElem? other)).1
      obtain ⟨c', has'⟩ := held.objects id' obj' other
      refine ⟨c', has'.keep grown bound' fun j inside' => ?_⟩
      have apart := slots_apart checked other found has' has (Ne.symm eq) inside' inside
      exact Memory.word_putWord_of_apart apart
  · exact grown.made (held.made e he u hu)
  · have words : Event.call (w.word p) = Event.call (World.word p _) :=
      congrArg Event.call (funext fun v => (word_congr same v).symm)
    exact held.calls.trans (congrArg w.events.map words)
  · exact held.free.trans (congrArg (some ∘ addressWord) (heapEnd_congr same).symm)
  · rw [heapEnd_congr same]
    exact held.fits

/-- The world with one more object. -/
def add (w : World) (obj : Object) : World := { w with objects := w.objects ++ [obj] }

theorem classes_add (w : World) (c : Typed.Class) :
    (w.add c.blank).classes = w.classes ++ [c.name] := List.map_append

theorem extends_add (w : World) (c : Typed.Class) : w.Extends (w.add c.blank) := by
  rw [Extends, classes_add]
  exact List.prefix_append _ _

theorem heapEnd_add (checked : p.Checked scope) (w : World) (mem : c ∈ p.classes) :
    (w.add c.blank).heapEnd p = w.heapEnd p + 4 * c.fields.length := by
  rw [heapEnd, classes_add, p.bytes_append, p.bytes_singleton, checked.slots_of_mem mem, heapEnd]
  omega

/-- A new object lies behind all others. -/
theorem address_add (p : Typed.Program) (w : World) (c : Typed.Class) :
    (w.add c.blank).address p w.objects.length = w.heapEnd p := by
  have all : w.classes.length = w.objects.length := List.length_map _
  rw [address, classes_add, ← all, List.take_left, heapEnd]

theorem HeldBy.makeObject (held : w.HeldBy p limit store) (checked : p.Checked scope)
    (plain : p.Plain) (mem : c ∈ p.classes)
    (room : w.heapEnd p + 4 * c.fields.length ≤ limit) (size : memory.size = store.memory.size)
    (kept : ∀ a, a + 4 ≤ w.heapEnd p → memory.word a = store.memory.word a)
    (filled : ∀ (i : Nat) f, c.fields[i]? = some f →
      memory.word (w.heapEnd p + 4 * i) = f.value.word) :
    (w.add c.blank).HeldBy p limit
      { store with
        globals := store.globals.insert heap (addressWord (w.heapEnd p + 4 * c.fields.length))
        memory } := by
  have grown := w.extends_add c
  refine ⟨fun u hu => ?_, fun id obj found => ?_, fun e he u hu => ?_, ?_, ?_, ?_, ?_⟩
  · obtain ⟨value, hw, fits, hs⟩ := held.globals u hu
    have differs : u.name ≠ heap := (plain.globals u hu).ne_heap
    refine ⟨value, hw, grown.fits fits, ?_⟩
    rw [Table.get?_insert, if_neg differs, hs, grown.word fits.made]
  · rw [add] at found
    by_cases old : id < w.objects.length
    · rw [List.getElem?_append_left old] at found
      obtain ⟨c', has⟩ := held.objects id obj found
      have bound := (List.getElem?_eq_some_iff.1 (classes_getElem? found)).1
      have below := address_add_le_heapEnd (p := p) (classes_getElem? found)
      rw [has.cls, checked.slots_of_mem has.declared] at below
      exact ⟨c', has.keep grown bound fun i inside => kept _ (by omega)⟩
    · have bound := (List.getElem?_eq_some_iff.1 found).1
      have last : id = w.objects.length := by
        rw [List.length_append, List.length_singleton] at bound
        omega
      subst last
      rw [List.getElem?_concat_length] at found
      cases found
      refine ⟨c, mem, rfl, fun i f field => ⟨f.value.value, ?_, ?_, ?_⟩⟩
      · obtain ⟨info, shows, -⟩ := checked.classes.found c mem
        have distinct : ((c.fields.map fun f => (f.name, f.value.value)).map Prod.fst).Nodup := by
          rw [List.map_map]
          exact shows.fields.distinct
        exact Table.get?_insertAll_of_mem distinct
          (List.mem_map.2 ⟨f, List.mem_of_getElem? field, rfl⟩)
      · have hf := (checked.bodies c mem).fields f (List.mem_of_getElem? field)
        exact (Value.fits_literal f.value).of_takes hf.takes hf.declared.1
      · rw [address_add, filled i f field, word_literal]
  · exact grown.made (held.made e he u hu)
  · show store.calls = w.events.map _
    rw [held.calls]
    refine List.map_congr_left fun e he => ?_
    have words : e.args.map (w.word p) = e.args.map ((w.add c.blank).word p) :=
      List.map_congr_left fun v hv => (grown.word (held.made e he v hv)).symm
    exact congrArg (HostCall.mk e.func) words
  · rw [heapEnd_add checked w mem]
    exact (Table.get?_insert ..).trans (if_pos rfl)
  · exact size.trans held.size
  · rw [heapEnd_add checked w mem]
    exact room

end World

end ClassLang
