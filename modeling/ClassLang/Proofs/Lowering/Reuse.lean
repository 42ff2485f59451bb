/-
A generator that has been used before.

A method that cannot be lowered leaves the generator as its own returns need it, so the state that
the next call starts in depends on all calls before.  It shows in no answer: every method sets the
state before its body reads it, and the statements of the outermost level, which are lowered in
whatever state is left, have no return that is lowered.
-/
import ClassLang.Proofs.Compile

namespace ClassLang

/-! ## Answers and states -/

namespace Generator

variable {α β : Type}

/-- What a generator in the given state answers. -/
def answerFrom (g : Generator α) (s : BareReturn) : Except Error α :=
  match g.run s with
  | .ok value _ => .ok value
  | .error error _ => .error error

/-- The state that the generator is left in, be it by an answer or by an error. -/
def leaves (g : Generator α) (s : BareReturn) : BareReturn :=
  match g.run s with
  | .ok _ s' => s'
  | .error _ s' => s'

theorem answerFrom_zero (g : Generator α) : g.answerFrom .zero = g.answer := rfl

/-- The state shows in no answer. -/
def Forgets (g : Generator α) : Prop := ∀ s s', g.answerFrom s = g.answerFrom s'

theorem forgets_pure (a : α) : Forgets (pure a) := fun _ _ => rfl

theorem forgets_set (s : BareReturn) : Forgets (set s) := fun _ _ => rfl

theorem forgets_ofExcept (x : Except Error α) : Forgets (MonadExcept.ofExcept x) := by
  intro s s'
  cases x <;> rfl

theorem answerFrom_bind (x : Generator α) (f : α → Generator β) (s : BareReturn) :
    (x >>= f).answerFrom s = x.answerFrom s >>= fun a => (f a).answerFrom (x.leaves s) := by
  unfold answerFrom leaves
  rw [EStateM.run_bind]
  cases x.run s <;> rfl

theorem answerFrom_ofExcept_bind (x : Except Error α) (f : α → Generator β) (s : BareReturn) :
    (MonadExcept.ofExcept x >>= f).answerFrom s = x >>= fun a => (f a).answerFrom s := by
  cases x <;> rfl

theorem answerFrom_set_bind (t : BareReturn) (f : PUnit → Generator β) (s : BareReturn) :
    (set t >>= f).answerFrom s = (f ⟨⟩).answerFrom t := rfl

theorem Forgets.bind {x : Generator α} {f : α → Generator β} (first : Forgets x)
    (next : ∀ a, Forgets (f a)) : Forgets (x >>= f) := by
  intro s s'
  rw [answerFrom_bind, answerFrom_bind, first s s']
  exact congrArg (x.answerFrom s' >>= ·) (funext fun a => next a _ _)

/-- A generator may read its state if it makes nothing of it. -/
theorem forgets_get_bind {f : BareReturn → Generator β} (next : ∀ s, Forgets (f s))
    (same : ∀ s s', f s = f s') : Forgets (get >>= f) := by
  intro s s'
  rw [answerFrom_bind, answerFrom_bind]
  show (f s).answerFrom s = (f s').answerFrom s'
  rw [same s s']
  exact next s' s s'

theorem Forgets.mapM {f : α → Generator β} (each : ∀ a, Forgets (f a)) (l : List α) :
    Forgets (l.mapM f) := by
  induction l with
  | nil => exact forgets_pure []
  | cons a l ih =>
    rw [List.mapM_cons]
    exact (each a).bind fun b => ih.bind fun bs => forgets_pure (b :: bs)

/-- Where the state does not show, a pass is one over the answers. -/
theorem Forgets.answerFrom_mapM {f : α → Generator β} (each : ∀ a, Forgets (f a)) (l : List α)
    (s : BareReturn) : (l.mapM f).answerFrom s = l.mapM fun a => (f a).answer := by
  induction l generalizing s with
  | nil => rfl
  | cons a l ih =>
    simp only [List.mapM_cons, answerFrom_bind, ih, each a s .zero, answerFrom_zero]
    rfl

end Generator

/-! ## Runs over a program -/

namespace Typed

open Generator

/-- A method sets the state on the way into its body. -/
theorem Method.lower_forgets (scope : Scope) (cls : String) (m : Method) :
    Forgets (m.lower scope cls) :=
  (forgets_ofExcept _).bind fun _ => (forgets_set _).bind fun _ =>
    (forgets_ofExcept _).bind fun _ => (forgets_set _).bind fun _ => forgets_pure _

theorem Class.lower_forgets (scope : Scope) (c : Class) : Forgets (c.lower scope) :=
  (forgets_ofExcept _).bind fun _ =>
    (Forgets.mapM (Method.lower_forgets _ c.name) c.methods).bind fun _ => forgets_pure _

/-- The entry reads the state, but only a return could tell what it is. -/
theorem Program.lowerEntry_forgets {scope : Scope} (outermost : scope.owner = none) (p : Program) :
    Forgets (p.lowerEntry scope) := by
  have outside : scope.inMethod = false := by rw [Scope.inMethod, outermost]; rfl
  refine forgets_get_bind (fun s => ?_) fun s s' => ?_
  · exact (forgets_ofExcept _).bind fun _ => forgets_pure _
  · rw [Stmt.lowerAll_outside outside s s']

theorem Program.lower_forgets {scope : Scope} (outermost : scope.owner = none) (p : Program) :
    Forgets (p.lower scope) :=
  (Forgets.mapM (Class.lower_forgets scope) p.classes).bind fun _ =>
    (p.lowerEntry_forgets outermost).bind fun _ => forgets_pure _

/-! What the generator answers is what it would answer without a state. -/

theorem Method.answer_lower (scope : Scope) (cls : String) (m : Method) :
    (m.lower scope cls).answer =
      scope.enterMethod m.ret m.params (m.definitions.map fun v => ⟨v.name, v.ty⟩) >>= fun inner =>
        Stmt.lowerAll inner m.bare m.statements >>= fun code => .ok (m.func cls code) := by
  simp only [← answerFrom_zero, Method.lower, answerFrom_ofExcept_bind, answerFrom_set_bind]
  rfl

theorem Class.answer_lower (scope : Scope) (c : Class) :
    (c.lower scope).answer = c.lowerConstruct (scope.enterClass c.name) >>= fun construct =>
      (c.methods.mapM fun m => (m.lower (scope.enterClass c.name) c.name).answer) >>= fun methods =>
        .ok (construct :: methods) := by
  rw [← answerFrom_zero, Class.lower, answerFrom_ofExcept_bind]
  simp only [answerFrom_bind, Forgets.answerFrom_mapM (Method.lower_forgets _ c.name)]
  rfl

theorem Program.answerFrom_lowerEntry (scope : Scope) (p : Program) (s : BareReturn) :
    (p.lowerEntry scope).answerFrom s =
      Stmt.lowerAll scope s p.body >>= fun code => .ok (p.entryFunc code) :=
  answerFrom_ofExcept_bind _ _ s

theorem Program.answerFrom_lower (scope : Scope) (p : Program) (s : BareReturn) :
    (p.lower scope).answerFrom s =
      (p.classes.mapM fun c => (c.lower scope).answer) >>= fun functions =>
        Stmt.lowerAll scope ((p.classes.mapM (Class.lower scope)).leaves s) p.body >>= fun code =>
          .ok (p.assemble functions.flatten code) := by
  simp only [Program.lower, answerFrom_bind, Forgets.answerFrom_mapM (Class.lower_forgets scope),
    answerFrom_lowerEntry, bind_assoc]
  rfl

/-- The text of the module of a checked program. -/
def Program.lowerText (scope : Scope) (p : Program) : Generator String := do
  let m ← p.lower scope
  return m.text

theorem Program.answerFrom_lowerText (scope : Scope) (p : Program) (s : BareReturn) :
    (p.lowerText scope).answerFrom s = (p.lower scope).answerFrom s >>= fun m => .ok m.text :=
  answerFrom_bind _ _ s

end Typed

/-! ## Histories -/

namespace Generator

/-- What a generator can be asked for: the module of a typed tree in some scope, or its text.  The
tree need not have passed the checker, and the scope may be any. -/
inductive Request where
  | module (p : Typed.Program) (scope : Scope)
  | text (p : Typed.Program) (scope : Scope)

def Request.leaves (s : BareReturn) : Request → BareReturn
  | .module p scope => (p.lower scope).leaves s
  | .text p scope => (p.lowerText scope).leaves s

/-- The state of a generator that was new before these requests. -/
def stateAfter (history : List Request) : BareReturn := history.foldl Request.leaves .zero

end Generator

/-- Whatever has been asked of a generator before, and whatever came of it, at the outermost level
it answers like a new one: with the same module or the same error. -/
theorem Typed.Program.reused_as_new (history : List Generator.Request) (p : Typed.Program)
    {scope : Scope} (outermost : scope.owner = none) :
    (p.lower scope).answerFrom (Generator.stateAfter history) = (p.lower scope).answer ∧
      (p.lowerText scope).answerFrom (Generator.stateAfter history) =
        (p.lowerText scope).answer := by
  have forgets := p.lower_forgets outermost
  have forgetsText : (p.lowerText scope).Forgets := forgets.bind fun _ => Generator.forgets_pure _
  exact ⟨forgets _ .zero, forgetsText _ .zero⟩

namespace Generator

/-- A constructor that reads a variable which is not there. -/
def Request.halted : Request :=
  .text
    { ty := .none
      globals := []
      classes := [
        { name := "C"
          ty := .object "C"
          fields := []
          methods := [
            { name := Source.constructorName
              ret := .none
              params := [⟨"self", .object "C"⟩]
              definitions := []
              statements := [.expr .none (.id .int "n")]
              bodyTy := .none }] }]
      body := [] }
    { Scope.empty with
      classes := .ofList [("C", { fields := .empty, methods := .empty, layout := some ⟨[]⟩ })] }

end Generator

open Generator Source in
theorem Typed.Program.reused_as_new_halted :
    ∃ tp scope laid m, Program.counter.check = .ok (tp, scope) ∧
      scope.withLayouts tp = .ok laid ∧ laid.owner = none ∧
      stateAfter [.module tp laid, .halted] = .self ∧
      (tp.lower laid).answerFrom (stateAfter [.module tp laid, .halted]) = .ok m ∧
      Program.counter.toModule = .ok m := by
  obtain ⟨⟨tp, scope⟩, accepted⟩ : ∃ r, Program.counter.check = .ok r := ⟨_, rfl⟩
  obtain ⟨laid, m, pass, compiled, checked, -, -⟩ := Program.exists_lowered accepted
  have asNew := (tp.reused_as_new [.module tp laid, .halted] checked.owner).1
  refine ⟨tp, scope, laid, m, accepted, pass, checked.owner, ?_, ?_, compiled⟩
  · cases accepted
    cases pass
    rfl
  · rw [asNew, ← Program.toModule_eq_answer accepted pass]
    exact compiled

end ClassLang
