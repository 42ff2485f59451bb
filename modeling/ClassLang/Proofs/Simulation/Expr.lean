/-
Expressions: their code leaves the word of the value that the evaluator comes to.

The induction is on the rules of the checker.  Words that wait on the stack stay those of their
values, since nothing that is evaluated meanwhile moves an object.
-/
import ClassLang.Proofs.Simulation.Construct
import ClassLang.Proofs.Simulation.Operators

namespace ClassLang

open Machine (Frame Outcome Reaches State)

/-! ## Lists of values -/

theorem Passes.fits {classes : List String} {vs : List Value} {params args : List Ty}
    (passed : Passes params args) (fits : List.Forall₂ (Value.Fits classes) vs args)
    (concrete : ∀ ty ∈ params, ty ≠ .any) : List.Forall₂ (Value.Fits classes) vs params := by
  induction passed generalizing vs with
  | nil => exact fits
  | cons takes _ ih =>
    cases fits with
    | cons first rest =>
      exact .cons (first.of_takes takes (concrete _ List.mem_cons_self))
        (ih rest fun ty mem => concrete ty (List.mem_cons_of_mem _ mem))

theorem Value.made_of_fits {classes : List String} {vs : List Value} {tys : List Ty}
    (fits : List.Forall₂ (Value.Fits classes) vs tys) : ∀ v ∈ vs, v.Made classes := by
  intro v mem
  obtain ⟨ty, -, h⟩ := exists_right_of_forall₂ fits mem
  exact h.made

theorem mapM_int?_of_fits {p : Typed.Program} {w : World} {vs : List Value} {n : Nat}
    (fits : List.Forall₂ (Value.Fits w.classes) vs (List.replicate n .int)) :
    vs.mapM Value.int? = some (vs.map (w.word p)) := by
  induction n generalizing vs with
  | zero =>
    cases fits
    rfl
  | succ n ih =>
    cases fits with
    | cons first rest =>
      obtain ⟨k, rfl⟩ := first.eq_int
      rw [List.mapM_cons, ih rest]
      rfl

namespace Setting

variable {S : Setting} {act : Activation} {code : Code} {stack : List Int32} {w : World}
  {s : State}

/-! ## Built-ins -/

theorem follows_callHost {name : String} {signature : Signature} {tys : List Ty} {vs : List Value}
    {params : Nat} {returns : Bool} (found : Host.builtins.get? name = some signature)
    (passed : Passes signature.params tys) (fits : List.Forall₂ (Value.Fits w.classes) vs tys)
    (start : S.At act (.call (Host.target name tys) params returns :: code)
      ((vs.map (w.word S.program)).reverse ++ stack) w s) :
    S.Follows (Typed.callHost S.answers name tys vs w) (S.Pushed act code stack signature.ret)
      s := by
  obtain ⟨locals, store, rfl, holds, held⟩ := start
  have held' := held.record (Host.target name tys) (Value.made_of_fits fits)
  have holds' : S.Locals act.scope
      { w with events := w.events ++ [⟨Host.target name tys, vs⟩] } locals :=
    ⟨holds.own, holds.outer⟩
  have count : (vs.map (w.word S.program)).length = signature.params.length := by
    rw [List.length_map, fits.length_eq, passed.length_eq]
  rcases Host.builtins_get? found with ⟨rfl, rfl⟩ | ⟨notPrint, numbers, imported⟩
  · obtain ⟨ty, rfl⟩ := List.length_eq_one_iff.1 passed.length_eq.symm
    have run : Typed.callHost S.answers Host.printName [ty] vs w =
        .ok .none { w with events := w.events ++ [⟨Host.target Host.printName [ty], vs⟩] } := rfl
    rw [run]
    exact fun _ => .hostCall (Host.import?_printerOf ty) rfl _ count (S.standard.print _ ty _)
      (.here ⟨.absent rfl, locals, _, rfl, holds', held'⟩)
  · have target : Host.target name tys = name := if_neg notPrint
    have ints : List.Forall₂ (Value.Fits w.classes) vs
        (List.replicate signature.params.length .int) := by
      rw [numbers] at passed
      refine passed.fits fits fun ty mem => ?_
      rw [List.eq_of_mem_replicate mem]
      nofun
    have known : Host.builtins.contains name = true := Table.contains_eq_true.2 ⟨_, found⟩
    have answer := S.standard.number store.calls name (vs.map (w.word S.program)) known notPrint
    have ret : signature.ret = .int := congrArg Signature.ret numbers
    have run : Typed.callHost S.answers name tys vs w =
        .ok (.int (S.answers name (vs.map (w.word S.program))))
          { w with events := w.events ++ [⟨Host.target name tys, vs⟩] } := by
      show (if name = Host.printName then _ else _ : Eval Value) _ = _
      rw [if_neg notPrint, mapM_int?_of_fits (p := S.program) ints]
      rfl
    rw [run, ret]
    rw [target] at held' holds' ⊢
    exact fun _ => .hostCall imported rfl _ count answer
      (.here ⟨.int _, locals, _, rfl, holds', held'⟩)

/-! ## Calls of methods -/

theorem follows_dispatch {call : Calls} (serves : S.Serves call) {id : Nat} {cls name : String}
    {info : ClassInfo} {signature : Signature} {vs : List Value} {tys : List Ty} {params : Nat}
    {returns : Bool} (found : S.scope.classes.get? cls = some info)
    (ordinary : name ≠ Source.constructorName)
    (method : info.methods.get? name = some signature) (passed : Passes signature.params tys)
    (made : w.classes[id]? = some cls) (fits : List.Forall₂ (Value.Fits w.classes) vs tys)
    (start : S.At act (.call (methodSymbol cls name) params returns :: code)
      ((vs.map (w.word S.program)).reverse ++ (w.word S.program (.ref id) :: stack)) w s) :
    S.Follows (Typed.dispatch call id name vs w) (S.Pushed act code stack signature.ret) s := by
  obtain ⟨c, mem, rfl, m, hm, rfl, notConstructor, ret, tys', concrete⟩ :=
    S.compiled.exists_called found ordinary method
  obtain ⟨locals, store, rfl, holds, held⟩ := start
  obtain ⟨obj, hobj, cls⟩ : ∃ obj, w.objects[id]? = some obj ∧ obj.cls = c.name := by
    rwa [World.classes, List.getElem?_map, Option.map_eq_some_iff] at made
  have run : Typed.dispatch call id m.name vs w = call c.name m.name (.ref id :: vs) w := by
    have known : classOf id w = .ok c.name w := by rw [classOf, hobj, ← cls]
    show EStateM.bind (classOf id) _ w = _
    rw [EStateM.bind, known]
  have all : List.Forall₂ (Value.Fits w.classes) (.ref id :: vs) (m.params.map Param.ty) := by
    rw [tys']
    exact .cons (.ref made) (passed.fits fits concrete)
  have words : (vs.map (w.word S.program)).reverse ++ (w.word S.program (.ref id) :: stack) =
      ((.ref id :: vs).map (w.word S.program)).reverse ++ stack := by
    rw [List.map_cons, List.reverse_cons, List.append_assoc]
    rfl
  rw [run, words]
  have served := serves.follows c mem m hm _ w ⟨code, stack, locals, act.result⟩ act.callers store
    params returns all held
  refine served.andThen fun v w' t run' returned => ?_
  obtain ⟨r, store', rfl, held', same, value⟩ := returned
  obtain ⟨fitsV, rfl⟩ := value notConstructor
  have grown := (serves.grow _ _ _).ok run'
  exact .here ⟨ret ▸ fitsV, locals, store', rfl, holds.grow grown same, held'⟩

/-! ## Expressions -/

/-- Wherever the code of an expression stands, it leaves what the evaluator comes to. -/
def Computes (S : Setting) (call : Calls) (act : Activation) (e : Typed.Expr) : Prop :=
  ∀ (c code : Code) (stack : List Int32) (w : World) (s : State),
    e.lower act.scope = .ok c → S.At act (c ++ code) stack w s →
      S.Follows (e.eval S.program S.answers call w) (S.Pushed act code stack e.ty) s

theorem follows_evalAll {call : Calls} (serves : S.Serves call) {es : List Typed.Expr}
    (each : ∀ e ∈ es, S.Computes call act e) {c : Code}
    (lowered : Typed.Expr.lowerAll act.scope es = .ok c)
    (start : S.At act (c ++ code) stack w s) :
    S.Follows (Typed.Expr.evalAll S.program S.answers call es w) (fun vs w' t =>
      List.Forall₂ (Value.Fits w'.classes) vs (es.map Typed.Expr.ty) ∧
        S.At act code ((vs.map (w'.word S.program)).reverse ++ stack) w' t) s := by
  induction es generalizing c stack w s with
  | nil =>
    cases lowered
    exact .pure ⟨.nil, start⟩
  | cons e es ih =>
    obtain ⟨first, others⟩ := List.forall_mem_cons.1 each
    simp only [Typed.Expr.lowerAll, bind_eq_ok, pure_eq_ok] at lowered
    obtain ⟨c₁, he, c₂, hes, rfl⟩ := lowered
    rw [List.append_assoc] at start
    rw [Typed.Expr.evalAll]
    refine .bind (first c₁ _ stack w s he start)
      (fun v => .bind (Typed.Expr.grows_evalAll serves.grow es) fun vs => .pure _) ?_
    intro v w₁ t _ pushed
    obtain ⟨fits, there⟩ := pushed
    refine .bind (ih others hes there) (fun vs => .pure _) ?_
    intro vs w₂ t' run pushed
    obtain ⟨fitsAll, there'⟩ := pushed
    have grown := (Typed.Expr.grows_evalAll serves.grow es).ok run
    refine .pure ⟨.cons (grown.fits fits) fitsAll, ?_⟩
    rw [List.map_cons, List.reverse_cons, List.append_assoc, grown.word fits.made]
    exact there'

namespace Computes

variable {call : Calls} {ty : Ty}

theorem unary {op : UnOp} {arg : Typed.Expr} (concrete : op.operandTy ≠ .any)
    (operand : arg.ty = op.operandTy) (inner : S.Computes call act arg) :
    S.Computes call act (.unary op.operandTy op arg) := by
  intro c code stack w s lowered start
  obtain ⟨c, harg, rfl⟩ := (Typed.Expr.lower_unary concrete).1 lowered
  rw [List.append_assoc] at start
  rw [Typed.Expr.eval]
  refine .bind (inner c _ stack w s harg start) (UnOp.grows_eval _) ?_
  intro v w₁ t _ pushed
  obtain ⟨fits, there⟩ := pushed
  exact follows_unOp (operand ▸ fits) there

/-- The first operand waits on the stack while the second is evaluated. -/
theorem binary (serves : S.Serves call) {op : BinOp} {lhs rhs : Typed.Expr} (concrete : ty ≠ .any)
    (operands : op.Types lhs.ty rhs.ty ty) (left : S.Computes call act lhs)
    (right : S.Computes call act rhs) : S.Computes call act (.binary ty op lhs rhs) := by
  intro c code stack w s lowered start
  obtain ⟨l, hl, r, hr, rfl⟩ := (Typed.Expr.lower_binary concrete).1 lowered
  rw [List.append_assoc, List.append_assoc] at start
  rw [Typed.Expr.eval]
  refine .bind (left l _ stack w s hl start)
    (fun a => .bind (Typed.Expr.grows_eval serves.grow _) fun b => BinOp.grows_eval _ a b) ?_
  intro a w₁ t _ pushed
  obtain ⟨fitsA, there⟩ := pushed
  refine .bind (right r _ _ w₁ t hr there) (BinOp.grows_eval _ a) ?_
  intro b w₂ t' run pushed
  obtain ⟨fitsB, there'⟩ := pushed
  have grown := (Typed.Expr.grows_eval serves.grow _).ok run
  rw [← grown.word fitsA.made] at there'
  exact follows_binOp operands (grown.fits fitsA) fitsB there'

theorem builtin (serves : S.Serves call) (body : S.Body act.scope) {name : String}
    {signature : Signature} {args : List Typed.Expr} (concrete : signature.ret ≠ .any)
    (found : act.scope.functions.get? name = some signature)
    (passed : Passes signature.params (args.map Typed.Expr.ty))
    (each : ∀ e ∈ args, S.Computes call act e) :
    S.Computes call act (.call signature.ret name args) := by
  intro c code stack w s lowered start
  obtain ⟨c, hargs, call, hcall, rfl⟩ := (Typed.Expr.lower_call concrete).1 lowered
  have known : Host.builtins.get? name = some signature := body.ready.concrete.functions ▸ found
  cases hcall.symm.trans (callBuiltin_ok known passed)
  rw [List.append_assoc] at start
  rw [Typed.Expr.eval]
  refine .bind (S.follows_evalAll serves each hargs start) (Typed.grows_callHost _ _) ?_
  intro vs w₁ t _ pushed
  obtain ⟨fits, there⟩ := pushed
  exact follows_callHost known passed fits there

/-- The object waits below the arguments, and is an argument in the end. -/
theorem methodCall (serves : S.Serves call) (body : S.Body act.scope) {obj : Typed.Expr}
    {cls name : String} {info : ClassInfo} {signature : Signature} {args : List Typed.Expr}
    (concrete : signature.ret ≠ .any) (object : obj.ty = .object cls)
    (found : act.scope.classes.get? cls = some info) (ordinary : name ≠ Source.constructorName)
    (method : info.methods.get? name = some signature)
    (passed : Passes signature.params (args.map Typed.Expr.ty))
    (receiver : S.Computes call act obj) (each : ∀ e ∈ args, S.Computes call act e) :
    S.Computes call act (.methodCall signature.ret obj name args) := by
  intro c code stack w s lowered start
  obtain ⟨o, ho, c, hargs, rfl⟩ := (Typed.Expr.lower_methodCall concrete object).1 lowered
  simp only [List.append_assoc] at start
  rw [Typed.Expr.eval]
  refine .bind (receiver o _ stack w s ho start)
    (fun v => .bind (grows_deref v) fun id => .bind (Typed.Expr.grows_evalAll serves.grow _)
      (Typed.grows_dispatch serves.grow id _)) ?_
  intro v w₁ t _ pushed
  obtain ⟨fits, there⟩ := pushed
  rw [object] at fits
  refine .bind (follows_guard body fits there)
    (fun id => .bind (Typed.Expr.grows_evalAll serves.grow _)
      (Typed.grows_dispatch serves.grow id _)) ?_
  intro id w₁' t' _ passed'
  obtain ⟨rfl, rfl, made, there'⟩ := passed'
  refine .bind (S.follows_evalAll serves each hargs there')
    (Typed.grows_dispatch serves.grow id _) ?_
  intro vs w₂ t'' run pushed
  obtain ⟨fitsAll, there''⟩ := pushed
  have grown := (Typed.Expr.grows_evalAll serves.grow _).ok run
  rw [← grown.word (Value.Fits.ref made).made] at there''
  exact follows_dispatch serves (body.classes ▸ found) ordinary method passed
    (grown.getElem? made) fitsAll there''

theorem field (body : S.Body act.scope) {obj : Typed.Expr} {cls name : String} {info : ClassInfo}
    (concrete : ty ≠ .any) (object : obj.ty = .object cls)
    (found : act.scope.classes.get? cls = some info)
    (field : info.fields.get? name = some ty) (receiver : S.Computes call act obj) :
    S.Computes call act (.field ty obj name) := by
  intro c code stack w s lowered start
  obtain ⟨o, ho, address, haddress, rfl⟩ := (Typed.Expr.lower_field concrete).1 lowered
  rw [List.append_assoc, List.append_assoc] at start
  rw [Typed.Expr.eval]
  refine .bind (receiver o _ stack w s ho start)
    (fun v => .bind (grows_deref v) fun id => grows_readField id _) ?_
  intro v w₁ t _ pushed
  obtain ⟨fits, there⟩ := pushed
  rw [object] at fits haddress
  refine .bind (follows_fieldAddress body found field haddress fits there)
    (fun id => grows_readField id _) ?_
  intro id w₁' t' _ passed
  obtain ⟨rfl, a, slot, there'⟩ := passed
  exact follows_readField slot there'

end Computes

theorem computes {call : Calls} (serves : S.Serves call) (body : S.Body act.scope)
    {e : Typed.Expr} (checked : e.Checked act.scope) : S.Computes call act e := by
  have known {e : Typed.Expr} (checked : e.Checked act.scope) : e.ty ≠ .any :=
    checked.ty_ne_any body.ready.concrete
  have concrete := known checked
  induction checked with
  | literal value =>
    intro c code stack w s lowered start
    cases (Typed.Expr.lower_literal concrete).1 lowered
    obtain ⟨locals, store, rfl, holds, held⟩ := start
    rw [Typed.Expr.eval]
    refine .step (.const (.here (.pure ⟨Value.fits_literal value, locals, store, ?_, holds, held⟩)))
    rw [World.word_literal]
    rfl
  | id found =>
    intro c code stack w s lowered start
    obtain ⟨read, hread, rfl⟩ := (Typed.Expr.lower_id concrete).1 lowered
    rw [Typed.Expr.eval]
    exact follows_readVar body found hread start
  | unary checked operand ih => exact .unary concrete operand (ih (known checked))
  | binary left right operands ihl ihr =>
    exact .binary serves concrete operands (ihl (known left)) (ihr (known right))
  | paren checked ih =>
    intro c code stack w s lowered start
    rw [Typed.Expr.eval]
    exact ih concrete c code stack w s ((Typed.Expr.lower_paren concrete).1 lowered) start
  | call found checked passed ih =>
    exact .builtin serves body concrete found passed fun e mem => ih e mem (known (checked e mem))
  | construct found notFunction =>
    intro c code stack w s lowered start
    cases (Typed.Expr.lower_construct concrete).1 lowered
    obtain ⟨cls, mem, rfl, -⟩ := S.checked.classes.only _ _ (body.classes ▸ found)
    rw [Typed.Expr.eval]
    exact follows_makeObject serves mem start
  | methodCall receiver object found ordinary method checked passed ihr ih =>
    exact .methodCall serves body concrete object found ordinary method passed
      (ihr (known receiver)) fun e mem => ih e mem (known (checked e mem))
  | field receiver object found field ih =>
    exact .field body concrete object found field (ih (known receiver))

end Setting
end ClassLang
