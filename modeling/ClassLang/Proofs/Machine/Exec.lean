/-
Running code symbolically: what each instruction needs to go on, and what it goes on with.
-/
import ClassLang.Lowering.Expr
import ClassLang.Proofs.Machine.State
import ClassLang.Table.Lemmas

namespace ClassLang
namespace Machine
namespace Reaches

variable {m : Module} {host : HostFunctions} {Q : State → Prop} {X : Outcome → Prop}
  {code : Code} {stack : List Int32} {locals : Table Int32} {result : Bool}
  {callers : List Frame} {store : Store}

attribute [local simp] State.step State.exec State.call State.pop State.push State.setCode
  State.setStack

theorem const {w : Int32}
    (rest : Reaches m host Q X ⟨⟨code, w :: stack, locals, result⟩, callers, store⟩) :
    Reaches m host Q X ⟨⟨.const w :: code, stack, locals, result⟩, callers, store⟩ :=
  .next rfl rest

theorem localGet {name : String} {w : Int32} (found : locals.get? name = some w)
    (rest : Reaches m host Q X ⟨⟨code, w :: stack, locals, result⟩, callers, store⟩) :
    Reaches m host Q X ⟨⟨.localGet name :: code, stack, locals, result⟩, callers, store⟩ := by
  refine .next ?_ rest
  simp [found]

theorem localSet {name : String} {w : Int32}
    (rest : Reaches m host Q X ⟨⟨code, stack, locals.insert name w, result⟩, callers, store⟩) :
    Reaches m host Q X ⟨⟨.localSet name :: code, w :: stack, locals, result⟩, callers, store⟩ :=
  .next rfl rest

theorem globalGet {name : String} {w : Int32} (found : store.globals.get? name = some w)
    (rest : Reaches m host Q X ⟨⟨code, w :: stack, locals, result⟩, callers, store⟩) :
    Reaches m host Q X ⟨⟨.globalGet name :: code, stack, locals, result⟩, callers, store⟩ := by
  refine .next ?_ rest
  simp [found]

theorem globalSet {name : String} {w : Int32}
    (rest : Reaches m host Q X ⟨⟨code, stack, locals, result⟩, callers,
      { store with globals := store.globals.insert name w }⟩) :
    Reaches m host Q X ⟨⟨.globalSet name :: code, w :: stack, locals, result⟩, callers, store⟩ :=
  .next rfl rest

theorem step_binary {i : Instr} {op : Int32 → Int32 → Option Int32} (h : binary? i = some op)
    {a b : Int32} :
    State.step m host ⟨⟨i :: code, b :: a :: stack, locals, result⟩, callers, store⟩ =
      match op a b with
      | some w => .next ⟨⟨code, w :: stack, locals, result⟩, callers, store⟩
      | none => .trapped store := by
  cases i <;> cases h <;> rfl

/-- An instruction that makes one word of two. -/
theorem binary {i : Instr} {op : Int32 → Int32 → Option Int32} (h : binary? i = some op)
    {a b w : Int32} (value : op a b = some w)
    (rest : Reaches m host Q X ⟨⟨code, w :: stack, locals, result⟩, callers, store⟩) :
    Reaches m host Q X ⟨⟨i :: code, b :: a :: stack, locals, result⟩, callers, store⟩ := by
  refine .next ?_ rest
  rw [step_binary h, value]

/-- An instruction that cannot make one word of the two it finds. -/
theorem binary_trap {i : Instr} {op : Int32 → Int32 → Option Int32} (h : binary? i = some op)
    {a b : Int32} (value : op a b = none) (stopped : X (.trapped store)) :
    Reaches m host Q X ⟨⟨i :: code, b :: a :: stack, locals, result⟩, callers, store⟩ := by
  refine .stop ?_ (by nofun) stopped
  rw [step_binary h, value]

theorem load {a : Int32} (within : a.toUInt32.toNat + 4 ≤ store.memory.size)
    (rest : Reaches m host Q X
      ⟨⟨code, store.memory.word a.toUInt32.toNat :: stack, locals, result⟩, callers, store⟩) :
    Reaches m host Q X ⟨⟨.load :: code, a :: stack, locals, result⟩, callers, store⟩ := by
  refine .next ?_ rest
  simp [within]

theorem storeWord {a w : Int32} (within : a.toUInt32.toNat + 4 ≤ store.memory.size)
    (rest : Reaches m host Q X ⟨⟨code, stack, locals, result⟩, callers,
      { store with memory := store.memory.putWord a.toUInt32.toNat w }⟩) :
    Reaches m host Q X ⟨⟨.store :: code, w :: a :: stack, locals, result⟩, callers, store⟩ := by
  refine .next ?_ rest
  simp [within]

theorem branch {yes : Code} {no : Option Code} {w : Int32}
    (rest : Reaches m host Q X
      ⟨⟨(if w ≠ 0 then yes else no.getD []) ++ code, stack, locals, result⟩, callers, store⟩) :
    Reaches m host Q X ⟨⟨.branch yes no :: code, w :: stack, locals, result⟩, callers, store⟩ :=
  .next rfl rest

theorem nop (rest : Reaches m host Q X ⟨⟨code, stack, locals, result⟩, callers, store⟩) :
    Reaches m host Q X ⟨⟨.nop :: code, stack, locals, result⟩, callers, store⟩ :=
  .next rfl rest

/-- A return to a caller. -/
theorem ret {w : Int32} {caller : Frame}
    (rest : Reaches m host Q X ⟨{ caller with stack := w :: caller.stack }, callers, store⟩) :
    Reaches m host Q X ⟨⟨.ret :: code, w :: stack, locals, true⟩, caller :: callers, store⟩ :=
  .next rfl rest

/-! ## Calls -/

theorem popArgs_append {s : State} {args : List Int32} (rest : List Int32)
    (h : s.frame.stack = args.reverse ++ rest) (go : List Int32 → State → Outcome) :
    s.popArgs args.length go = go args (s.setStack rest) := by
  have enough : args.length ≤ (args.reverse ++ rest).length := by
    rw [List.length_append, List.length_reverse]
    omega
  have length : args.length = args.reverse.length := List.length_reverse.symm
  rw [State.popArgs, h, if_pos enough, length, List.take_left, List.drop_left, List.reverse_reverse]

theorem step_hostCall {i : Host.Import} {func : String} {params : Nat} {returns : Bool}
    (known : Host.import? func = some i) (args : List Int32) (count : args.length = i.params) :
    State.step m host ⟨⟨.call func params returns :: code, args.reverse ++ stack, locals, result⟩,
        callers, store⟩ =
      match host store.calls ⟨func, args⟩ with
      | none => .aborted { store with calls := store.calls ++ [⟨func, args⟩] }
      | some w => .next ⟨⟨code, if i.returns then w :: stack else stack, locals, result⟩, callers,
        { store with calls := store.calls ++ [⟨func, args⟩] }⟩ := by
  simp only [State.step, State.exec, State.setCode, State.call, known, ← count]
  rw [popArgs_append stack rfl]
  simp only [State.setStack]
  cases host store.calls ⟨func, args⟩ with
  | none => rfl
  | some w => cases i.returns <;> rfl

theorem hostCall {i : Host.Import} {func : String} {params : Nat} {returns : Bool}
    (known : Host.import? func = some i) (hasResult : i.returns = true) (args : List Int32)
    (count : args.length = i.params) {w : Int32}
    (answer : host store.calls ⟨func, args⟩ = some w)
    (rest : Reaches m host Q X ⟨⟨code, w :: stack, locals, result⟩, callers,
      { store with calls := store.calls ++ [⟨func, args⟩] }⟩) :
    Reaches m host Q X
      ⟨⟨.call func params returns :: code, args.reverse ++ stack, locals, result⟩, callers,
        store⟩ := by
  refine .next ?_ rest
  simp only [step_hostCall known args count, answer, hasResult, if_true]

/-- A function of the host that does not return. -/
theorem hostCall_abort {i : Host.Import} {func : String} {params : Nat} {returns : Bool}
    (known : Host.import? func = some i) (args : List Int32) (count : args.length = i.params)
    (answer : host store.calls ⟨func, args⟩ = none)
    (aborted : X (.aborted { store with calls := store.calls ++ [⟨func, args⟩] })) :
    Reaches m host Q X
      ⟨⟨.call func params returns :: code, args.reverse ++ stack, locals, result⟩, callers,
        store⟩ := by
  refine .stop ?_ (by nofun) aborted
  simp only [step_hostCall known args count, answer]

theorem step_call {func : String} {params : Nat} {returns : Bool} {f : Func}
    (notHost : Host.import? func = none)
    (found : m.functions.find? (·.name = some func) = some f) (args : List Int32)
    (count : args.length = f.params.length) :
    State.step m host ⟨⟨.call func params returns :: code, args.reverse ++ stack, locals, result⟩,
        callers, store⟩ =
      .next ⟨.enter f args, ⟨code, stack, locals, result⟩ :: callers, store⟩ := by
  simp only [State.step, State.exec, State.setCode, State.call, notHost, found, ← count]
  rw [popArgs_append stack rfl]
  rfl

theorem call {func : String} {params : Nat} {returns : Bool} {f : Func}
    (notHost : Host.import? func = none)
    (found : m.functions.find? (·.name = some func) = some f) (args : List Int32)
    (count : args.length = f.params.length)
    (rest : Reaches m host Q X
      ⟨.enter f args, ⟨code, stack, locals, result⟩ :: callers, store⟩) :
    Reaches m host Q X
      ⟨⟨.call func params returns :: code, args.reverse ++ stack, locals, result⟩, callers,
        store⟩ :=
  .next (step_call notHost found args count) rest

/-! ## Looking at an object -/

/-- An object that is there stays on the stack. -/
theorem guardAbsent {a : Int32} (present : a ≠ 0)
    (rest : Reaches m host Q X
      ⟨⟨code, a :: stack, locals.insert scratch a, result⟩, callers, store⟩) :
    Reaches m host Q X
      ⟨⟨ClassLang.guardAbsent ++ code, a :: stack, locals, result⟩, callers, store⟩ := by
  have kept : (locals.insert scratch a).get? scratch = some a := by
    rw [Table.get?_insert, if_pos rfl]
  have differs : bit (decide ((0 : Int32) = a)) = 0 := by
    rw [bit, if_neg]
    simpa using present.symm
  refine localSet (localGet kept (const (localGet kept ?_)))
  refine binary rfl rfl (branch ?_)
  rw [differs]
  exact rest

/-- An absent object ends the run. -/
theorem guardAbsent_abort (answer : host store.calls ⟨Host.trapName, []⟩ = none)
    (aborted : X (.aborted { store with calls := store.calls ++ [⟨Host.trapName, []⟩] })) :
    Reaches m host Q X
      ⟨⟨ClassLang.guardAbsent ++ code, 0 :: stack, locals, result⟩, callers, store⟩ := by
  have kept : (locals.insert scratch 0).get? scratch = some 0 := by
    rw [Table.get?_insert, if_pos rfl]
  refine localSet (localGet kept (const (localGet kept ?_)))
  refine binary rfl rfl (branch ?_)
  have known : Host.import? Host.trapName = some ⟨Host.trapName, _, _, 0, false⟩ := rfl
  exact hostCall_abort known [] rfl answer aborted

end Reaches
end Machine
end ClassLang
