/-
Expressions: the word that the code of one leaves has its type.

What is on the stack while an expression is run stays there, and words that had their types before a
call have them after it.  The answer of a printer counts as the absent value only if the code behind
looks at it, and code that drops it does not.
-/
import ClassLang.Proofs.Safety.Access

namespace ClassLang

open Machine (Frame History State)

/-! ## Operators -/

theorem xor_one_cases {w : Int32} (truth : w = 0 ∨ w = 1) : w ^^^ 1 = 0 ∨ w ^^^ 1 = 1 := by
  rcases truth with rfl | rfl
  · exact Or.inr rfl
  · exact Or.inl rfl

theorem BinOp.fits_result {p : Typed.Program} {called : List String} {op : BinOp} {lhs rhs ty : Ty}
    (operands : op.Types lhs rhs ty) {f : Int32 → Int32 → Option Int32}
    (known : Machine.binary? op.instr = some f) {a b w : Int32} (value : f a b = some w) :
    p.Fits called ty w := by
  cases operands with
  | arithmetic => trivial
  | compare ordinary notIs =>
    cases op with
    | eq | ne | lt | le | gt | ge =>
      cases known
      cases value
      exact Typed.Program.Fits.bit _
    | is => exact absurd rfl notIs
    | _ => cases ordinary
  | eq | ne | identity =>
    cases known
    cases value
    exact Typed.Program.Fits.bit _

/-! ## Code that looks at what is on the stack -/

theorem Scope.drops_readVar {scope : Scope} {name : String} {binding : Binding}
    (found : scope.vars.get? name = some binding) {read : Instr}
    (lowered : scope.readVar name = .ok read) (code : Code) :
    Code.drops (read :: code) = false := by
  rw [readVar_of_found found, Except.ok.injEq] at lowered
  subst lowered
  split <;> rfl

theorem Typed.drops_lowerAll {scope : Scope} {es : List Expr}
    (each : ∀ e ∈ es, ∀ c code, e.lower scope = .ok c → Code.drops (c ++ code) = false) {c : Code}
    (lowered : Expr.lowerAll scope es = .ok c) {code : Code} (looks : Code.drops code = false) :
    Code.drops (c ++ code) = false := by
  cases es with
  | nil =>
    cases lowered
    exact looks
  | cons e es =>
    simp only [Expr.lowerAll, bind_eq_ok, pure_eq_ok] at lowered
    obtain ⟨c₁, he, c₂, -, rfl⟩ := lowered
    rw [List.append_assoc]
    exact each e List.mem_cons_self c₁ _ he

/-- No expression begins by dropping what is on the stack. -/
theorem Typed.Expr.Checked.drops {scope : Scope} (ready : scope.Ready) {e : Expr}
    (h : e.Checked scope) {c : Code} (lowered : e.lower scope = .ok c) (code : Code) :
    Code.drops (c ++ code) = false := by
  have concrete := h.ty_ne_any ready.concrete
  induction h generalizing c code with
  | literal value =>
    cases (Expr.lower_literal concrete).1 lowered
    rfl
  | id found =>
    obtain ⟨read, hread, rfl⟩ := (Expr.lower_id concrete).1 lowered
    exact Scope.drops_readVar found hread code
  | unary checked _ ih =>
    obtain ⟨c, hc, rfl⟩ := (Expr.lower_unary concrete).1 lowered
    rw [List.append_assoc]
    exact ih hc _ (checked.ty_ne_any ready.concrete)
  | binary left _ _ ih =>
    obtain ⟨l, hl, r, -, rfl⟩ := (Expr.lower_binary concrete).1 lowered
    rw [List.append_assoc, List.append_assoc]
    exact ih hl _ (left.ty_ne_any ready.concrete)
  | paren checked ih =>
    exact ih ((Expr.lower_paren concrete).1 lowered) code (checked.ty_ne_any ready.concrete)
  | call found checked passed ih =>
    obtain ⟨c, hargs, call, hcall, rfl⟩ := (Expr.lower_call concrete).1 lowered
    cases hcall.symm.trans (callBuiltin_ok (ready.concrete.functions ▸ found) passed)
    rw [List.append_assoc]
    exact Typed.drops_lowerAll
      (fun e mem c code he => ih e mem he code ((checked e mem).ty_ne_any ready.concrete)) hargs rfl
  | construct =>
    cases (Expr.lower_construct concrete).1 lowered
    rfl
  | methodCall receiver object _ _ _ _ _ ih =>
    obtain ⟨o, ho, c, -, rfl⟩ := (Expr.lower_methodCall concrete object).1 lowered
    simp only [List.append_assoc]
    exact ih ho _ (receiver.ty_ne_any ready.concrete)
  | field receiver _ _ _ ih =>
    obtain ⟨o, ho, address, -, rfl⟩ := (Expr.lower_field concrete).1 lowered
    simp only [List.append_assoc]
    exact ih ho _ (receiver.ty_ne_any ready.concrete)

namespace Watch

section

variable (W : Watch)

/-- The word fits the type, if words do and the code behind looks at it. -/
def Meets (code : Code) (ty : Ty) (h : History) (w : Int32) : Prop :=
  W.typed → (ty = .none → W.Heeds code) → W.program.Fits h.called ty w

/-- The machine has come to some code with one more word on the stack, which is `good`. -/
def Pushed (place : Place) (code : Code) (stack : List Int32) (start : History)
    (good : History → Int32 → Prop) (s : State) (h : History) : Prop :=
  start.Begins h ∧ ∃ w, W.At place code (w :: stack) s h ∧ good h w

/-- The functions of the module keep what is to be kept, as far as so many steps show. -/
structure Serves (n : Nat) : Prop where
  method : ∀ c ∈ W.program.classes, ∀ m ∈ c.methods, ∀ (place : Place) (code : Code)
    (stack args : List Int32) (s : State) (h : History) (params : Nat) (returns : Bool),
    args.length = m.params.length →
      (W.typed → List.Forall₂ (W.program.Fits h.called) (m.params.map Param.ty) args) →
        W.At place (.call (methodSymbol c.name m.name) params returns :: code)
            (args.reverse ++ stack) s h →
          W.Keeps place.callers code (W.Pushed place code stack h fun h' w =>
            W.typed → m.isConstructor = false → W.program.Fits h'.called m.ret w) n s h
  construct : ∀ c ∈ W.program.classes, ∀ (place : Place) (code : Code) (stack : List Int32)
    (s : State) (h : History),
    W.At place (.call (constructorSymbol c.name) 0 true :: code) stack s h →
      W.Keeps place.callers code (W.Pushed place code stack h fun h' w =>
        W.typed → W.program.Fits h'.called (.object c.name) w) n s h

/-- Wherever the code of an expression stands in a place, it leaves a word of its type. -/
def Leaves (n : Nat) (place : Place) (scope : Scope) (e : Typed.Expr) : Prop :=
  ∀ (c code : Code) (stack : List Int32) (s : State) (h : History), e.lower scope = .ok c →
    W.At place (c ++ code) stack s h →
      W.Keeps place.callers code (W.Pushed place code stack h (W.Meets code e.ty)) n s h

end

variable {W : Watch} {place : Place} {n : Nat} {code rest : Code} {stack : List Int32} {s : State}
  {h : History} {Q : State → History → Prop} {func : String} {scope : Scope} {own : List Param}

namespace At

theorem readVar (body : W.Body place.func scope own) {name : String} {binding : Binding}
    (found : scope.vars.get? name = some binding) {read : Instr}
    (lowered : scope.readVar name = .ok read) (here : W.At place (read :: code) stack s h)
    (ahead : rest <:+ code)
    (go : ∀ t w, W.At place code (w :: stack) t h →
      (W.typed → W.program.Fits h.called binding.ty w) → W.Keeps place.callers rest Q n t h) :
    W.Keeps place.callers rest Q n s h := by
  rw [Scope.readVar_of_found found, Except.ok.injEq] at lowered
  rcases body.binding_cases found with ⟨mine, mem⟩ | ⟨other, v, mem, rfl, same⟩
  · rw [mine, if_pos rfl] at lowered
    subst lowered
    exact Here.localGet body mem here ahead go
  · rw [other, if_neg Bool.false_ne_true] at lowered
    subst lowered
    rw [← same] at go
    exact Here.globalGet mem here ahead go

theorem writeVar (body : W.Body place.func scope own) {name : String} {binding : Binding}
    (found : scope.vars.get? name = some binding) {write : Instr}
    (lowered : scope.writeVar name = .ok write) {w : Int32}
    (fits : W.typed → W.program.Fits h.called binding.ty w)
    (here : W.At place (write :: code) (w :: stack) s h) (ahead : rest <:+ code)
    (go : ∀ t, W.At place code stack t h → W.Keeps place.callers rest Q n t h) :
    W.Keeps place.callers rest Q n s h := by
  rw [Scope.writeVar_of_found found, Except.ok.injEq] at lowered
  rcases body.binding_cases found with ⟨mine, mem⟩ | ⟨other, v, mem, rfl, same⟩
  · rw [mine, if_pos rfl] at lowered
    subst lowered
    exact Here.localSet body mem fits here ahead go
  · rw [other, if_neg Bool.false_ne_true] at lowered
    subst lowered
    rw [← same] at fits
    exact Here.globalSet mem fits here ahead go

theorem unOp {op : UnOp} {w : Int32} (fits : W.typed → W.program.Fits h.called op.operandTy w)
    (here : W.At place (op.code ++ code) (w :: stack) s h) :
    W.Keeps place.callers code (W.Pushed place code stack h (W.Meets code op.operandTy)) n s h := by
  cases op with
  | not =>
    refine here.const (List.suffix_cons _ _) fun t here => ?_
    refine here.binary rfl (List.suffix_refl _) fun t x value here => ?_
    cases value
    exact .here ⟨.refl h, _, here, fun typed _ => xor_one_cases (fits typed)⟩
  | neg =>
    refine here.const (List.suffix_cons _ _) fun t here => ?_
    refine here.binary rfl (List.suffix_refl _) fun t x value here => ?_
    exact .here ⟨.refl h, x, here, fun _ _ => trivial⟩
  | plus => exact .here ⟨.refl h, w, here, fun _ _ => trivial⟩

theorem binOp {op : BinOp} {lhs rhs ty : Ty} (operands : op.Types lhs rhs ty) {a b : Int32}
    (here : W.At place (op.instr :: code) (b :: a :: stack) s h) :
    W.Keeps place.callers code (W.Pushed place code stack h (W.Meets code ty)) n s h := by
  obtain ⟨f, known⟩ : ∃ f, Machine.binary? op.instr = some f := by
    cases op <;> exact ⟨_, rfl⟩
  refine here.binary known (List.suffix_refl _) fun t w value here => ?_
  exact .here ⟨.refl h, w, here, fun _ _ => BinOp.fits_result operands known value⟩

end At

/-! ## Expressions -/

/-- The words of the arguments, each of its type. -/
theorem leaves_all (ready : scope.Ready) {es : List Typed.Expr}
    (checked : ∀ e ∈ es, e.Checked scope) (each : ∀ e ∈ es, W.Leaves n place scope e) {c : Code}
    (lowered : Typed.Expr.lowerAll scope es = .ok c) (looks : Code.drops code = false)
    (here : W.At place (c ++ code) stack s h) :
    W.Keeps place.callers code (fun t h' => h.Begins h' ∧ ∃ ws : List Int32,
      ws.length = es.length ∧ W.At place code (ws.reverse ++ stack) t h' ∧
        (W.typed → List.Forall₂ (W.program.Fits h'.called) (es.map Typed.Expr.ty) ws)) n s h := by
  induction es generalizing c stack s h with
  | nil =>
    cases lowered
    exact .here ⟨.refl h, [], rfl, here, fun _ => .nil⟩
  | cons e es ih =>
    obtain ⟨first, others⟩ := List.forall_mem_cons.1 each
    have checkedOthers := (List.forall_mem_cons.1 checked).2
    simp only [Typed.Expr.lowerAll, bind_eq_ok, pure_eq_ok] at lowered
    obtain ⟨c₁, he, c₂, hes, rfl⟩ := lowered
    rw [List.append_assoc] at here
    have looked : Code.drops (c₂ ++ code) = false :=
      Typed.drops_lowerAll (fun e mem _ _ he => (checkedOthers e mem).drops ready he _) hes looks
    refine (first c₁ _ stack s h he here).bind (List.suffix_append _ _) fun t h₁ pushed => ?_
    obtain ⟨begins, w, there, fits⟩ := pushed
    refine (ih checkedOthers others hes there).bind (List.suffix_refl _) fun t' h₂ pushed => ?_
    obtain ⟨begins', ws, count, there', fitsAll⟩ := pushed
    refine .here ⟨begins.trans begins', w :: ws, congrArg (· + 1) count, ?_, fun typed => ?_⟩
    · rw [List.reverse_cons, List.append_assoc]
      exact there'
    · exact .cons ((fits typed fun _ => Or.inr looked).grow begins'.called) (fitsAll typed)

namespace Leaves

variable {ty : Ty}

theorem unary {op : UnOp} {arg : Typed.Expr} (operand : arg.ty = op.operandTy)
    (inner : W.Leaves n place scope arg) :
    W.Leaves n place scope (.unary op.operandTy op arg) := by
  intro c code stack s h lowered here
  obtain ⟨c, harg, rfl⟩ := (Typed.Expr.lower_unary op.operandTy_ne_any).1 lowered
  rw [List.append_assoc] at here
  refine (inner c _ stack s h harg here).bind (List.suffix_append _ _) fun t h₁ pushed => ?_
  obtain ⟨begins, w, there, fits⟩ := pushed
  have present : arg.ty ≠ .none := by
    rw [operand]
    cases op <;> exact Ty.noConfusion
  have fits' (typed : W.typed) : W.program.Fits h₁.called op.operandTy w :=
    operand ▸ fits typed fun absent => absurd absent present
  refine (At.unOp fits' there).bind (List.suffix_refl _) fun t₂ h₂ pushed => ?_
  exact .here ⟨begins.trans pushed.1, pushed.2⟩

/-- The first operand waits on the stack while the second is evaluated. -/
theorem binary {op : BinOp} {lhs rhs : Typed.Expr} (operands : op.Types lhs.ty rhs.ty ty)
    (left : W.Leaves n place scope lhs) (right : W.Leaves n place scope rhs) :
    W.Leaves n place scope (.binary ty op lhs rhs) := by
  intro c code stack s h lowered here
  obtain ⟨l, hl, r, hr, rfl⟩ := (Typed.Expr.lower_binary operands.result_ne_any).1 lowered
  rw [List.append_assoc, List.append_assoc] at here
  have ahead : code <:+ [op.instr] ++ code := List.suffix_append _ _
  refine (left l _ stack s h hl here).bind (ahead.trans (List.suffix_append _ _))
    fun t₁ h₁ pushed => ?_
  obtain ⟨begins₁, a, there, -⟩ := pushed
  refine (right r _ _ t₁ h₁ hr there).bind ahead fun t₂ h₂ pushed => ?_
  obtain ⟨begins₂, b, there, -⟩ := pushed
  refine (At.binOp operands there).bind (List.suffix_refl _) fun t₃ h₃ pushed => ?_
  exact .here ⟨(begins₁.trans begins₂).trans pushed.1, pushed.2⟩

theorem builtin (ready : scope.Ready) {name : String} {signature : Signature}
    {args : List Typed.Expr} (found : scope.functions.get? name = some signature)
    (passed : Passes signature.params (args.map Typed.Expr.ty))
    (checked : ∀ e ∈ args, e.Checked scope) (each : ∀ e ∈ args, W.Leaves n place scope e) :
    W.Leaves n place scope (.call signature.ret name args) := by
  intro c code stack s h lowered here
  have known : Host.builtins.get? name = some signature := ready.concrete.functions ▸ found
  have concrete := Host.builtins_ret_ne_any known
  obtain ⟨c, hargs, call, hcall, rfl⟩ := (Typed.Expr.lower_call concrete).1 lowered
  cases hcall.symm.trans (callBuiltin_ok known passed)
  rw [List.append_assoc] at here
  refine (leaves_all ready checked each hargs rfl here).bind (List.suffix_append _ _)
    fun t₁ h₁ pushed => ?_
  obtain ⟨begins₁, ws, count, there, -⟩ := pushed
  have arity : ws.length = (args.map Typed.Expr.ty).length := by rw [count, List.length_map]
  refine there.builtin known passed arity (List.suffix_refl _)
    fun t₂ w kept there begins₂ fits => ?_
  exact .here ⟨begins₁.trans begins₂, w, there, fits⟩

theorem construct (serves : W.Serves n) (body : W.Body func scope own) {cls : String}
    {info : ClassInfo} (found : scope.classes.get? cls = some info) :
    W.Leaves n place scope (.construct (.object cls) cls) := by
  intro c code stack s h lowered here
  cases (Typed.Expr.lower_construct Ty.noConfusion).1 lowered
  obtain ⟨c, mem, rfl, -⟩ := W.checked.classes.only _ _ (body.classes ▸ found)
  refine (serves.construct c mem place code stack s h here).bind (List.suffix_refl _)
    fun t₁ h₁ pushed => ?_
  obtain ⟨begins, w, there, fits⟩ := pushed
  exact .here ⟨begins, w, there, fun typed _ => fits typed⟩

/-- The object waits below the arguments, and is an argument in the end. -/
theorem methodCall (serves : W.Serves n) (body : W.Body func scope own) {obj : Typed.Expr}
    {cls name : String} {info : ClassInfo} {signature : Signature} {args : List Typed.Expr}
    (concrete : signature.ret ≠ .any) (object : obj.ty = .object cls)
    (found : scope.classes.get? cls = some info) (ordinary : name ≠ Source.constructorName)
    (method : info.methods.get? name = some signature)
    (passed : Passes signature.params (args.map Typed.Expr.ty))
    (receiver : W.Leaves n place scope obj) (checked : ∀ e ∈ args, e.Checked scope)
    (each : ∀ e ∈ args, W.Leaves n place scope e) :
    W.Leaves n place scope (.methodCall signature.ret obj name args) := by
  intro c code stack s h lowered here
  obtain ⟨o, ho, c, hargs, rfl⟩ := (Typed.Expr.lower_methodCall concrete object).1 lowered
  obtain ⟨d, hd, rfl, m, hm, rfl, notConstructor, ret, tys, slots⟩ :=
    W.exists_called (body.classes ▸ found) ordinary method
  simp only [List.append_assoc] at here
  let call : Code := [.call (methodSymbol d.name m.name) (args.length + 1) true]
  have ahead : code <:+ call ++ code := List.suffix_append _ _
  have ahead' : code <:+ c ++ (call ++ code) := ahead.trans (List.suffix_append _ _)
  refine (receiver o _ stack s h ho here).bind (ahead'.trans (List.suffix_append _ _))
    fun t₁ h₁ pushed => ?_
  obtain ⟨begins₁, w, there, fits⟩ := pushed
  rw [object] at fits
  refine there.guard ahead' fun t there _ => ?_
  refine (leaves_all body.ready checked each hargs rfl there).bind ahead fun t₂ h₂ pushed => ?_
  obtain ⟨begins₂, ws, count, there, fitsAll⟩ := pushed
  have arity : (w :: ws).length = m.params.length := by
    have lengths := congrArg List.length tys
    have given := passed.length_eq
    rw [List.length_map] at lengths given
    rw [lengths, List.length_cons, List.length_cons, count, given]
  have fitsArgs (typed : W.typed) :
      List.Forall₂ (W.program.Fits h₂.called) (m.params.map Param.ty) (w :: ws) := by
    rw [tys]
    exact .cons ((fits typed Ty.noConfusion).grow begins₂.called)
      (Typed.Program.Fits.passed (fitsAll typed) passed slots)
  have before : W.At place (call ++ code) ((w :: ws).reverse ++ stack) t₂ h₂ := by
    rw [List.reverse_cons, List.append_assoc]
    exact there
  refine (serves.method d hd m hm place code stack _ t₂ h₂ _ _ arity fitsArgs before).bind
    (List.suffix_refl _) fun t₃ h₃ pushed => ?_
  obtain ⟨begins₃, x, there, fitsResult⟩ := pushed
  refine .here ⟨(begins₁.trans begins₂).trans begins₃, x, there, fun typed _ => ?_⟩
  exact ret ▸ fitsResult typed notConstructor

theorem field (body : W.Body func scope own) {obj : Typed.Expr} {cls name : String}
    {info : ClassInfo} (concrete : ty ≠ .any) (object : obj.ty = .object cls)
    (found : scope.classes.get? cls = some info) (field : info.fields.get? name = some ty)
    (receiver : W.Leaves n place scope obj) : W.Leaves n place scope (.field ty obj name) := by
  intro c code stack s h lowered here
  obtain ⟨o, ho, address, haddress, rfl⟩ := (Typed.Expr.lower_field concrete).1 lowered
  rw [List.append_assoc, List.append_assoc] at here
  have ahead : code <:+ [Instr.load] ++ code := List.suffix_append _ _
  refine (receiver o _ stack s h ho here).bind (ahead.trans (List.suffix_append _ _))
    fun t₁ h₁ pushed => ?_
  obtain ⟨begins, w, there, fits⟩ := pushed
  rw [object] at fits haddress
  refine there.fieldAddress body found field haddress (fun typed => fits typed Ty.noConfusion) ahead
    fun t₂ a there points => ?_
  refine there.load points (List.suffix_refl _) fun t₃ x there fits => ?_
  exact .here ⟨begins, x, there, fun typed _ => fits typed⟩

end Leaves

theorem leaves (serves : W.Serves n) (body : W.Body place.func scope own) {e : Typed.Expr}
    (checked : e.Checked scope) : W.Leaves n place scope e := by
  have known {e : Typed.Expr} (checked : e.Checked scope) : e.ty ≠ .any :=
    checked.ty_ne_any body.ready.concrete
  have concrete := known checked
  induction checked with
  | literal value =>
    intro c code stack s h lowered here
    cases (Typed.Expr.lower_literal concrete).1 lowered
    refine here.const (List.suffix_refl _) fun t here => ?_
    exact .here ⟨.refl h, _, here, fun _ _ => .literal value⟩
  | id found =>
    intro c code stack s h lowered here
    obtain ⟨read, hread, rfl⟩ := (Typed.Expr.lower_id concrete).1 lowered
    refine At.readVar body found hread here (List.suffix_refl _) fun t w here fits => ?_
    exact .here ⟨.refl h, w, here, fun typed _ => fits typed⟩
  | unary checked operand ih => exact .unary operand (ih (known checked))
  | binary left right operands ihl ihr =>
    exact .binary operands (ihl (known left)) (ihr (known right))
  | paren checked ih =>
    intro c code stack s h lowered here
    exact ih (known checked) c code stack s h ((Typed.Expr.lower_paren concrete).1 lowered) here
  | call found checked passed ih =>
    exact .builtin body.ready found passed checked fun e mem => ih e mem (known (checked e mem))
  | construct found _ => exact .construct serves body found
  | methodCall receiver object found ordinary method checked passed ihr ih =>
    exact .methodCall serves body concrete object found ordinary method passed
      (ihr (known receiver)) checked fun e mem => ih e mem (known (checked e mem))
  | field receiver object found field ih =>
    exact .field body concrete object found field (ih (known receiver))

end Watch
end ClassLang
