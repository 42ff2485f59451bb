/-
Modules without loose ends.

A linker asks of a module that every local and global that a function names is declared, that every
call has exactly one function to go to, and that a call and its callee agree on what is passed and
handed back.  The checker knows nothing of locals and symbols: it keeps scopes and signatures.  So
each name in the code is traced back to a declaration of the program, and from there to what the
generator makes of it.  The instructions inside of branches count like all others.
-/
import ClassLang.Proofs.Compile
import ClassLang.Proofs.Lowering.Compiled

namespace ClassLang

/-! ## What a linker asks -/

/-- The instruction stands somewhere in the code, be it in an arm of a branch. -/
inductive Instr.Occurs (i : Instr) : Code → Prop
  | head {rest : Code} : Occurs i (i :: rest)
  | tail {j : Instr} {rest : Code} (later : Occurs i rest) : Occurs i (j :: rest)
  | yes {yes rest : Code} {no : Option Code} (inside : Occurs i yes) :
    Occurs i (.branch yes no :: rest)
  | no {yes no rest : Code} (inside : Occurs i no) : Occurs i (.branch yes (some no) :: rest)

/-- The shapes of all functions that a call of this name may mean, of the host and of the module:
how many words they take and whether they leave one. -/
def Module.callees (m : Module) (func : String) : List (Nat × Bool) :=
  ((Host.imports.filter (·.name = func)).map fun i => (i.params, i.returns)) ++
    (m.functions.filter (·.name = some func)).map fun f => (f.params.length, f.result)

/-- What the instruction names is there: one of these locals, one of these globals, or the one
function that a call can mean, of the shape that the call carries. -/
def Instr.Linked (m : Module) (locals globals : List String) : Instr → Prop
  | .localGet name | .localSet name => name ∈ locals
  | .globalGet name | .globalSet name => name ∈ globals
  | .call func params returns => m.callees func = [(params, returns)]
  | _ => True

/-- All locals of a function. -/
def Func.localNames (f : Func) : List String := scratch :: (f.params ++ f.locals)

/-- A function whose locals have different names, and that names nothing that is not there. -/
structure Func.Closed (m : Module) (f : Func) : Prop where
  distinct : f.localNames.Nodup
  linked : ∀ i : Instr, i.Occurs f.body → i.Linked m f.localNames (heap :: m.globals.map (·.name))

/-! ## Code that names nothing else -/

def Code.Linked (m : Module) (locals globals : List String) (code : Code) : Prop :=
  ∀ i : Instr, i.Occurs code → i.Linked m locals globals

namespace Code.Linked

variable {m : Module} {locals globals : List String} {first second code : Code}

theorem nil : Linked m locals globals [] := by
  intro i occurs
  cases occurs

theorem append (h : Linked m locals globals first) (h' : Linked m locals globals second) :
    Linked m locals globals (first ++ second) := by
  intro i occurs
  induction first with
  | nil => exact h' i occurs
  | cons j first ih =>
    rw [List.cons_append] at occurs
    cases occurs with
    | head => exact h i .head
    | tail later => exact ih (fun i occurs => h i (.tail occurs)) later
    | yes inside => exact h i (.yes inside)
    | no inside => exact h i (.no inside)

theorem single {i : Instr} (h : i.Linked m locals globals) (flat : ∀ yes no, i ≠ .branch yes no) :
    Linked m locals globals [i] := by
  intro j occurs
  cases occurs with
  | head => exact h
  | tail later => cases later
  | yes | no => exact absurd rfl (flat _ _)

theorem branch {yes : Code} {no : Option Code} (hyes : Linked m locals globals yes)
    (hno : ∀ code ∈ no, Linked m locals globals code) :
    Linked m locals globals [Instr.branch yes no] := by
  intro i occurs
  cases occurs with
  | head => trivial
  | tail later => cases later
  | yes inside => exact hyes i inside
  | no inside => exact hno _ rfl i inside

/-- More names are no harm. -/
theorem mono (h : Linked m locals globals code) {globals' : List String}
    (sub : globals ⊆ globals') : Linked m locals globals' code := by
  intro i occurs
  have linked := h i occurs
  cases i with
  | globalGet | globalSet => exact sub linked
  | _ => exact linked

end Code.Linked

/-! ## Callees -/

namespace Compiled

variable {S : Compiled}

theorem exists_symbol {f : Func} (mem : f ∈ S.target.functions) :
    ∃ cls member, f.name = some (methodSymbol cls member) := by
  obtain ⟨c, -, made⟩ := S.function_cases mem
  rcases made with ⟨fields, -, rfl⟩ | ⟨m, -, inner, code, -, -, rfl⟩
  · exact ⟨c.name, "$constructor", congrArg some (constructorSymbol_eq c.name)⟩
  · exact ⟨c.name, m.name, rfl⟩

/-- No function of the module has the name of one of the host. -/
theorem callees_import {symbol : String} {i : Host.Import} (known : Host.import? symbol = some i) :
    S.target.callees symbol = [(i.params, i.returns)] := by
  have named : i.name = symbol := by simpa using List.find?_some known
  subst named
  have distinct : (Host.imports.map Host.Import.name).Nodup := by decide
  have imported : Host.imports.filter (·.name = i.name) = [i] :=
    filter_of_mem distinct (List.mem_of_find?_eq_some known)
  have others : S.target.functions.filter (·.name = some i.name) = [] := by
    rw [List.filter_eq_nil_iff]
    intro f mem eq
    obtain ⟨cls, member, symbol⟩ := S.exists_symbol mem
    have named : f.name = some i.name := of_decide_eq_true eq
    have same : methodSymbol cls member = i.name := Option.some.inj (symbol.symm.trans named)
    have unknown := import?_methodSymbol cls member
    rw [same, known] at unknown
    cases unknown
  rw [Module.callees, imported, others]
  rfl

theorem callees_function {f : Func} (mem : f ∈ S.target.functions) {symbol : String}
    (name : f.name = some symbol) :
    S.target.callees symbol = [(f.params.length, f.result)] := by
  obtain ⟨cls, member, named⟩ := S.exists_symbol mem
  have same : symbol = methodSymbol cls member := Option.some.inj (name.symm.trans named)
  have imported : Host.imports.filter (·.name = symbol) = [] := by
    have unknown := import?_methodSymbol cls member
    rw [← same, Host.import?, List.find?_eq_none] at unknown
    exact List.filter_eq_nil_iff.2 unknown
  have own : S.target.functions.filter (·.name = some symbol) = [f] := by
    rw [← name]
    exact filter_of_mem S.functions_nodup mem
  rw [Module.callees, imported, own]
  rfl

theorem callees_construct {c : Typed.Class} (mem : c ∈ S.program.classes) :
    S.target.callees (constructorSymbol c.name) = [(0, true)] := by
  obtain ⟨fields, -, inModule⟩ := S.exists_construct mem
  exact callees_function inModule rfl

theorem callees_method {c : Typed.Class} (mem : c ∈ S.program.classes) {m : Typed.Method}
    (hm : m ∈ c.methods) :
    S.target.callees (methodSymbol c.name m.name) = [(m.params.length, true)] := by
  obtain ⟨inner, code, -, -, inModule⟩ := S.exists_method mem hm
  rw [callees_function inModule rfl]
  have count : (m.func c.name code).params.length = m.params.length := List.length_map _
  rw [count]
  rfl

theorem callees_builtin {name : String} {signature : Signature} {args : List Ty}
    (found : Host.builtins.get? name = some signature) (passed : Passes signature.params args) :
    S.target.callees (Host.target name args) = [(args.length, true)] := by
  obtain ⟨i, imported, count, result, -⟩ := Host.exists_target found passed
  rw [callees_import imported, count, result]

/-! ## Bodies -/

/-- Code that names, beside functions, the variables of the program, these variables of a body and
the scratch local. -/
def Links (S : Compiled) (own : List Param) (code : Code) : Prop :=
  code.Linked S.target (scratch :: own.map (·.name)) (S.program.globals.map (·.name))

/-- Code that names the scratch local and the globals of the module, the first free address with
them. -/
def LinksHeap (S : Compiled) (code : Code) : Prop :=
  code.Linked S.target [scratch] (heap :: S.target.globals.map (·.name))

variable {own : List Param} {func : String} {scope : Scope}

theorem links_guardAbsent : S.Links own guardAbsent := by
  have put : S.Links own [.localSet scratch] := .single List.mem_cons_self nofun
  have get : S.Links own [.localGet scratch] := .single List.mem_cons_self nofun
  have zero : S.Links own [.const 0] := .single trivial nofun
  have compare : S.Links own [.eq] := .single trivial nofun
  have trap : S.Links own [.call Host.trapName 0 false] :=
    .single (callees_import (i := ⟨Host.trapName, _, _, 0, false⟩) rfl) nofun
  have look : S.Links own [.branch [.call Host.trapName 0 false] none] := .branch trap nofun
  exact put.append (get.append (zero.append (get.append (compare.append look))))

theorem links_unOp (op : UnOp) : S.Links own op.code := by
  cases op with
  | plus => exact .nil
  | not =>
    have one : S.Links own [.const 1] := .single trivial nofun
    exact one.append (.single trivial nofun)
  | neg =>
    have minusOne : S.Links own [.const (-1)] := .single trivial nofun
    exact minusOne.append (.single trivial nofun)

theorem links_binOp (op : BinOp) : S.Links own [op.instr] := by
  cases op <;> exact .single trivial nofun

namespace Body

/-- A local of its own and a variable of the program are read and written by different
instructions, and the generator takes the right one. -/
theorem links_readVar (body : S.Body func scope own) {name : String} {binding : Binding}
    (found : scope.vars.get? name = some binding) {read : Instr}
    (lowered : scope.readVar name = .ok read) : S.Links own [read] := by
  rw [Scope.readVar_of_found found, Except.ok.injEq] at lowered
  rcases body.binding_cases found with ⟨mine, mem⟩ | ⟨other, v, mem, rfl, -⟩
  · rw [mine, if_pos rfl] at lowered
    subst lowered
    exact .single (List.mem_cons_of_mem _ (List.mem_map_of_mem mem)) nofun
  · rw [other, if_neg Bool.false_ne_true] at lowered
    subst lowered
    exact .single (List.mem_map_of_mem mem) nofun

theorem links_writeVar (body : S.Body func scope own) {name : String} {binding : Binding}
    (found : scope.vars.get? name = some binding) {write : Instr}
    (lowered : scope.writeVar name = .ok write) : S.Links own [write] := by
  rw [Scope.writeVar_of_found found, Except.ok.injEq] at lowered
  rcases body.binding_cases found with ⟨mine, mem⟩ | ⟨other, v, mem, rfl, -⟩
  · rw [mine, if_pos rfl] at lowered
    subst lowered
    exact .single (List.mem_cons_of_mem _ (List.mem_map_of_mem mem)) nofun
  · rw [other, if_neg Bool.false_ne_true] at lowered
    subst lowered
    exact .single (List.mem_map_of_mem mem) nofun

theorem links_fieldAddress (body : S.Body func scope own) {cls field : String} {info : ClassInfo}
    {ty : Ty} (found : scope.classes.get? cls = some info)
    (declared : info.fields.get? field = some ty) {address : Code}
    (lowered : scope.fieldAddress (.object cls) field = .ok address) : S.Links own address := by
  obtain ⟨offset, known⟩ := body.ready.fieldAddress_ok found declared
  cases known.symm.trans lowered
  have const : S.Links own [.const offset.toInt32] := .single trivial nofun
  exact links_guardAbsent.append (const.append (.single trivial nofun))

end Body
end Compiled

/-- If a bare return in this scope hands back the object, that is among the variables. -/
def BareReturn.Finds (bare : BareReturn) (scope : Scope) (own : List Param) : Prop :=
  scope.inMethod = true → bare = .self → "self" ∈ own.map Param.name

namespace Typed

open Compiled

variable {S : Compiled} {own : List Param} {func : String} {scope : Scope}

theorem links_lowerAll {es : List Expr}
    (h : ∀ e ∈ es, ∀ code, e.lower scope = .ok code → S.Links own code) {code : Code}
    (lowered : Expr.lowerAll scope es = .ok code) : S.Links own code := by
  induction es generalizing code with
  | nil =>
    cases lowered
    exact .nil
  | cons e es ih =>
    simp only [Expr.lowerAll, bind_eq_ok, pure_eq_ok] at lowered
    obtain ⟨first, hfirst, rest, hrest, rfl⟩ := lowered
    have links := ih (fun e mem => h e (List.mem_cons_of_mem _ mem)) hrest
    exact (h e List.mem_cons_self first hfirst).append links

theorem Expr.Checked.links (body : S.Body func scope own) {e : Expr} (h : e.Checked scope)
    {code : Code} (lowered : e.lower scope = .ok code) : S.Links own code := by
  have concrete := h.ty_ne_any body.ready.concrete
  induction h generalizing code with
  | literal value =>
    cases (Expr.lower_literal concrete).1 lowered
    exact .single trivial nofun
  | id found =>
    obtain ⟨read, hread, rfl⟩ := (Expr.lower_id concrete).1 lowered
    exact body.links_readVar found hread
  | @unary op arg checked _ ih =>
    obtain ⟨c, hc, rfl⟩ := (Expr.lower_unary concrete).1 lowered
    exact (ih hc (checked.ty_ne_any body.ready.concrete)).append (links_unOp op)
  | @binary op lhs rhs ty left right _ ihl ihr =>
    obtain ⟨l, hl, r, hr, rfl⟩ := (Expr.lower_binary concrete).1 lowered
    have linksL := ihl hl (left.ty_ne_any body.ready.concrete)
    have linksR := ihr hr (right.ty_ne_any body.ready.concrete)
    exact (linksL.append linksR).append (links_binOp op)
  | paren checked ih =>
    exact ih ((Expr.lower_paren concrete).1 lowered) (checked.ty_ne_any body.ready.concrete)
  | call found checked passed ih =>
    obtain ⟨c, hc, call, hcall, rfl⟩ := (Expr.lower_call concrete).1 lowered
    have builtin := body.ready.concrete.functions ▸ found
    rw [callBuiltin_ok builtin passed] at hcall
    cases hcall
    have links := links_lowerAll (S := S)
      (fun e mem _ he => ih e mem he ((checked e mem).ty_ne_any body.ready.concrete)) hc
    exact links.append (.single (callees_builtin builtin passed) nofun)
  | construct found _ =>
    cases (Expr.lower_construct concrete).1 lowered
    obtain ⟨c, mem, rfl, -⟩ := S.checked.classes.only _ _ (body.classes ▸ found)
    exact .single (callees_construct mem) nofun
  | @methodCall obj cls name info signature args receiver object found ordinary method checked
      passed ihr ih =>
    obtain ⟨o, ho, c, hc, rfl⟩ := (Expr.lower_methodCall concrete object).1 lowered
    have links := links_lowerAll (S := S)
      (fun e mem _ he => ih e mem he ((checked e mem).ty_ne_any body.ready.concrete)) hc
    have linksObj := (ihr ho (receiver.ty_ne_any body.ready.concrete)).append links_guardAbsent
    refine (linksObj.append links).append (.single ?_ nofun)
    obtain ⟨d, hd, rfl, m, hm, rfl, -, -, tys, -⟩ :=
      S.exists_called (body.classes ▸ found) ordinary method
    have count : m.params.length = args.length + 1 := by
      have lengths := congrArg List.length tys
      have given := passed.length_eq
      rw [List.length_map] at lengths given
      rw [lengths, List.length_cons, given]
    rw [← count]
    exact callees_method hd hm
  | field receiver object found field ih =>
    obtain ⟨o, ho, address, haddress, rfl⟩ := (Expr.lower_field concrete).1 lowered
    have linksObj := ih ho (receiver.ty_ne_any body.ready.concrete)
    have linksAddress := body.links_fieldAddress found field (object ▸ haddress)
    exact (linksObj.append linksAddress).append (.single trivial nofun)

theorem LValue.Readable.links (body : S.Body func scope own) {target : LValue}
    (h : target.Readable scope) {code : Code} (lowered : target.lowerRead scope = .ok code) :
    S.Links own code := by
  induction h generalizing code with
  | var found =>
    obtain ⟨read, hread, rfl⟩ := LValue.lowerRead_var.1 lowered
    exact body.links_readVar found hread
  | field _ object found field ih =>
    obtain ⟨o, ho, address, haddress, rfl⟩ := LValue.lowerRead_field.1 lowered
    have linksAddress := body.links_fieldAddress found field (object ▸ haddress)
    exact ((ih ho).append linksAddress).append (.single trivial nofun)

theorem LValue.Writable.links (body : S.Body func scope own) {target : LValue}
    (h : target.Writable scope) {value : Expr} (checked : value.Checked scope) {code : Code}
    (lowered : target.lowerWrite scope value = .ok code) : S.Links own code := by
  cases h with
  | var found _ =>
    obtain ⟨v, hv, write, hwrite, rfl⟩ := LValue.lowerWrite_var.1 lowered
    exact (checked.links body hv).append (body.links_writeVar found hwrite)
  | field receiver object found field =>
    obtain ⟨o, ho, address, haddress, v, hv, rfl⟩ := LValue.lowerWrite_field.1 lowered
    have linksAddress := body.links_fieldAddress found field (object ▸ haddress)
    have linksTarget := (receiver.links body ho).append linksAddress
    exact (linksTarget.append (checked.links body hv)).append (.single trivial nofun)

/-- In a constructor the object is among the variables. -/
theorem links_bare {bare : BareReturn} (self : bare = .self → "self" ∈ own.map Param.name) :
    S.Links own bare.code := by
  have ret : S.Links own [.ret] := .single trivial nofun
  cases bare with
  | zero =>
    have zero : S.Links own [.const 0] := .single trivial nofun
    exact zero.append ret
  | self =>
    have get : S.Links own [.localGet "self"] := .single (List.mem_cons_of_mem _ (self rfl)) nofun
    exact get.append ret

mutual

theorem Stmt.Checked.links (body : S.Body func scope own) {bare : BareReturn}
    (self : bare.Finds scope own) {s : Stmt} (h : s.Checked scope) {code : Code}
    (lowered : s.lower scope bare = .ok code) : S.Links own code := by
  cases h with
  | assign target checked _ =>
    rw [Stmt.lower] at lowered
    exact target.links body checked lowered
  | expr checked =>
    obtain ⟨c, hc, rfl⟩ := Stmt.lower_expr.1 lowered
    exact (checked.links body hc).append (.single List.mem_cons_self nofun)
  | bareRet inside =>
    rw [Stmt.lower, lowerReturn_none inside] at lowered
    subst lowered
    exact links_bare (self inside)
  | ret inside checked _ =>
    rw [Stmt.lower, lowerReturn_some inside] at lowered
    rcases lowered with ⟨-, rfl⟩ | ⟨-, c, hc, rfl⟩
    · exact links_bare (self inside)
    · exact (checked.links body hc).append (.single trivial nofun)
  | branch checked =>
    rw [Stmt.lower] at lowered
    exact Arm.Checked.links body self checked lowered
  | pass =>
    cases lowered
    exact .single trivial nofun

theorem Arm.Checked.links (body : S.Body func scope own) {bare : BareReturn}
    (self : bare.Finds scope own) {arm : Arm} (h : arm.Checked scope) {code : Code}
    (lowered : arm.lower scope bare = .ok code) : S.Links own code := by
  cases h with
  | @mk ty condition stmts alternative test other block merged =>
    cases condition with
    | none =>
      obtain ⟨last, -⟩ := armTy?_else merged
      cases Option.map_eq_none_iff.1 last
      exact Stmt.links_lowerAll body self block (Arm.lower_else.1 lowered)
    | some e =>
      obtain ⟨yes, hyes, no, hno, c, hc, rfl⟩ := Arm.lower_if.1 lowered
      have linksYes := Stmt.links_lowerAll body self block hyes
      have linksNo := Arm.links_alternative body self other hno
      exact ((test e rfl).1.links body hc).append (.branch linksYes linksNo)

theorem Arm.links_alternative (body : S.Body func scope own) {bare : BareReturn}
    (self : bare.Finds scope own) {alternative : Option Arm}
    (h : ∀ arm ∈ alternative, arm.Checked scope) {no : Option Code}
    (lowered : Arm.lowerAlternative scope bare alternative = .ok no) :
    ∀ code ∈ no, S.Links own code := by
  cases alternative with
  | none =>
    cases lowered
    exact fun _ mem => nomatch mem
  | some arm =>
    obtain ⟨c, hc, rfl⟩ := Arm.lowerAlternative_some.1 lowered
    intro code mem
    cases mem
    exact Arm.Checked.links body self (h arm rfl) hc

theorem Stmt.links_lowerAll (body : S.Body func scope own) {bare : BareReturn}
    (self : bare.Finds scope own) {ss : List Stmt}
    (h : ∀ s ∈ ss, s.Checked scope) {code : Code}
    (lowered : Stmt.lowerAll scope bare ss = .ok code) : S.Links own code := by
  cases ss with
  | nil =>
    cases lowered
    exact .nil
  | cons s ss =>
    obtain ⟨first, rest⟩ := List.forall_mem_cons.1 h
    obtain ⟨c, hc, cs, hcs, rfl⟩ := Stmt.lowerAll_cons.1 lowered
    have links := Stmt.links_lowerAll body self rest hcs
    exact (Stmt.Checked.links body self first hc).append links

end

/-! ## Functions -/

theorem Method.links_initLocals {m : Method} {definitions : List VarDef}
    (sub : ∀ v ∈ definitions, v.name ∈ m.variables.map Param.name) :
    S.Links m.variables (initLocals definitions) := by
  induction definitions with
  | nil => exact .nil
  | cons v definitions ih =>
    obtain ⟨mine, rest⟩ := List.forall_mem_cons.1 sub
    have value : S.Links m.variables [.const v.value.word] := .single trivial nofun
    have put : S.Links m.variables [.localSet v.name] :=
      .single (List.mem_cons_of_mem _ mine) nofun
    exact (value.append put).append (ih rest)

theorem initFields_linked {cls : String} {layout : Layout} {fields : List VarDef} {code : Code}
    (h : initFields cls layout fields = .ok code) : S.LinksHeap code := by
  induction fields generalizing code with
  | nil =>
    cases h
    exact .nil
  | cons f fields ih =>
    rw [initFields] at h
    split at h
    · next offset _ =>
      simp only [bind_eq_ok, pure_eq_ok] at h
      obtain ⟨rest, hrest, rfl⟩ := h
      have get : S.LinksHeap [.globalGet heap] := .single List.mem_cons_self fun _ _ => Instr.noConfusion
      have address : S.LinksHeap ([.const offset.toInt32] ++ [.add]) :=
        .append (.single trivial fun _ _ => Instr.noConfusion)
          (.single trivial fun _ _ => Instr.noConfusion)
      have fill : S.LinksHeap ([.const f.value.word] ++ [.store]) :=
        .append (.single trivial fun _ _ => Instr.noConfusion)
          (.single trivial fun _ _ => Instr.noConfusion)
      exact (get.append (address.append fill)).append (ih hrest)
    · cases h

/-- The only function that names the first free address, and the only one that calls a
constructor. -/
theorem Class.constructFunc_closed {c : Class} (mem : c ∈ S.program.classes) {fields : Code}
    (filled : initFields c.name c.layout c.fields = .ok fields) :
    (c.constructFunc fields (c.methods.any Method.isConstructor)).Closed S.target where
  distinct := List.nodup_singleton scratch
  linked := by
    have init : S.LinksHeap fields := initFields_linked filled
    have get : S.LinksHeap [.globalGet heap] := .single List.mem_cons_self nofun
    have size : S.LinksHeap ([.const c.layout.size.toInt32] ++ [.add]) :=
      .append (.single trivial nofun) (.single trivial nofun)
    have put : S.LinksHeap [.globalSet heap] := .single List.mem_cons_self nofun
    have move := get.append (size.append put)
    have ret : S.LinksHeap [.ret] := .single trivial nofun
    cases runs : c.methods.any Method.isConstructor with
    | false => exact ((((init.append get).append .nil).append move).append .nil).append ret
    | true =>
      obtain ⟨m, hm, isConstructor⟩ := List.any_eq_true.1 runs
      have named : m.name = Source.constructorName := of_decide_eq_true isConstructor
      have callee := callees_method mem hm
      rw [named, S.constructor_params mem hm isConstructor] at callee
      have call : S.LinksHeap [.call (methodSymbol c.name Source.constructorName) 1 true] :=
        .single callee nofun
      have drop : S.LinksHeap [.localSet scratch] := .single List.mem_cons_self nofun
      exact ((((init.append get).append get).append move).append (call.append drop)).append ret

theorem nodup_localNames (body : S.Body func scope own) :
    (scratch :: own.map Param.name).Nodup := by
  refine List.nodup_cons.2 ⟨fun mem => ?_, body.distinct⟩
  obtain ⟨q, hq, eq⟩ := List.mem_map.1 mem
  exact (body.plain q hq).ne_scratch eq

/-- The globals of the module are the variables of the program. -/
theorem Program.globals_subset :
    S.program.globals.map (·.name) ⊆ heap :: S.target.globals.map (·.name) := by
  have same : S.target.globals.map (·.name) = S.program.globals.map (·.name) := by
    rw [S.target_globals, List.map_map]
    rfl
  rw [same]
  exact List.subset_cons_self _ _

theorem Method.func_closed {c : Class} (mem : c ∈ S.program.classes) {m : Method}
    (hm : m ∈ c.methods) {inner : Scope} (checked : m.Checked (S.scope.enterClass c.name) inner)
    {code : Code} (lowered : Stmt.lowerAll inner m.bare m.statements = .ok code) :
    (m.func c.name code).Closed S.target := by
  have body : S.Body (methodSymbol c.name m.name) inner m.variables := .method mem hm checked
  have names : (m.func c.name code).localNames = scratch :: m.variables.map Param.name := by
    rw [m.variables_names]
    rfl
  have self : m.bare = .self → "self" ∈ m.variables.map Param.name := by
    intro bare
    rw [Method.variables, S.constructor_params mem hm (Method.bare_self bare)]
    exact List.mem_cons_self
  have defined : ∀ v ∈ m.definitions, v.name ∈ m.variables.map Param.name := by
    intro v hv
    rw [m.variables_names]
    exact List.mem_append_right _ (List.mem_map_of_mem hv)
  have init := Method.links_initLocals (S := S) defined
  have stmts := Stmt.links_lowerAll body (fun _ => self) checked.statements lowered
  have links := (init.append stmts).append (links_bare self)
  constructor
  · rw [names]
    exact nodup_localNames body
  · rw [names]
    exact links.mono Program.globals_subset

theorem Program.entryFunc_closed {bare : BareReturn} {code : Code}
    (lowered : Stmt.lowerAll S.scope bare S.program.body = .ok code) :
    (S.program.entryFunc code).Closed S.target where
  distinct := List.nodup_singleton scratch
  linked := by
    have body : S.Body entryExport S.scope [] := .entry
    have outermost : bare.Finds S.scope [] := by
      intro inside
      rw [Scope.inMethod, S.checked.owner] at inside
      cases inside
    have stmts := Stmt.links_lowerAll body outermost S.checked.body lowered
    have get : S.Links [] [.localGet scratch] :=
      .single List.mem_cons_self fun _ _ => Instr.noConfusion
    have last : S.Links []
        (if endsInExpr S.program.body then [.localGet scratch, .ret] else []) := by
      cases endsInExpr S.program.body with
      | false => exact .nil
      | true => exact get.append (.single trivial fun _ _ => Instr.noConfusion)
    exact (stmts.append last).mono Program.globals_subset

end Typed

/-! ## Programs -/

theorem Compiled.closed (S : Compiled) :
    ∀ f ∈ S.target.entry :: S.target.functions, f.Closed S.target := by
  intro f mem
  rcases List.mem_cons.1 mem with rfl | mem
  · obtain ⟨bare, code, lowered, entry⟩ := S.exists_entry
    rw [entry]
    exact Typed.Program.entryFunc_closed lowered
  · obtain ⟨c, hc, ⟨fields, filled, rfl⟩ | ⟨m, hm, inner, code, checked, lowered, rfl⟩⟩ :=
      S.function_cases mem
    · exact Typed.Class.constructFunc_closed hc filled
    · exact Typed.Method.func_closed hc hm checked lowered

/-- The module of a checked program with plain names has the variables of the program for globals,
and all its functions are closed. -/
theorem Source.Program.module_closed {p : Source.Program} {tp : Typed.Program} {scope : Scope}
    (accepted : p.check = .ok (tp, scope)) (plain : ∀ name ∈ p.names, Plain name) :
    ∃ laid, scope.withLayouts tp = .ok laid ∧ ∀ g, ∃ m g', (tp.lower laid).run g = .ok m g' ∧
      m.globals.map (·.name) = p.globals.map (·.name) ∧
        ∀ f ∈ m.entry :: m.functions, f.Closed m := by
  obtain ⟨laid, pass, -, checked, lays⟩ := Scope.withLayouts_ok (check_checked accepted)
  refine ⟨laid, pass, fun g => ?_⟩
  obtain ⟨m, g', run⟩ := checked.lower_ok lays g
  let S : Compiled :=
    ⟨tp, laid, m, checked, lays, Typed.Program.lower_lowers run, check_plain accepted plain⟩
  have declared : tp.globals = p.globals := (check_parts accepted).2.1.1
  have globals : m.globals.map (·.name) = p.globals.map (·.name) := by
    rw [S.target_globals, ← declared, List.map_map]
    rfl
  exact ⟨m, g', run, globals, S.closed⟩

theorem Source.Program.module_closed_counter :
    ∃ tp scope, counter.check = .ok (tp, scope) ∧ (∀ name ∈ counter.names, Plain name) ∧
      ∃ laid, scope.withLayouts tp = .ok laid ∧ ∀ g, ∃ m g', (tp.lower laid).run g = .ok m g' ∧
        m.globals.map (·.name) = ["c"] ∧ ∀ f ∈ m.entry :: m.functions, f.Closed m := by
  obtain ⟨⟨tp, scope⟩, accepted⟩ : ∃ r, counter.check = .ok r := ⟨_, rfl⟩
  have plain : ∀ name ∈ counter.names, Plain name := by decide
  exact ⟨tp, scope, accepted, plain, module_closed accepted plain⟩

end ClassLang
