/-
Statements: they come to their end with an empty stack, or leave the function with a word of its
type.

A value of the absent type that is stored or returned is looked at, so there it has to be the absent
value.  One that is dropped does not.
-/
import ClassLang.Proofs.Safety.Expr

namespace ClassLang

open Machine (Frame History State)

/-- Storing looks at what it stores: the scratch local is no variable. -/
theorem Compiled.Body.drops_writeVar {S : Compiled} {func : String} {scope : Scope}
    {own : List Param} (body : S.Body func scope own) {name : String} {binding : Binding}
    (found : scope.vars.get? name = some binding) {write : Instr}
    (lowered : scope.writeVar name = .ok write) (code : Code) :
    Code.drops (write :: code) = false := by
  rw [Scope.writeVar_of_found found, Except.ok.injEq] at lowered
  rcases body.binding_cases found with ⟨mine, mem⟩ | ⟨other, -⟩
  · rw [mine, if_pos rfl] at lowered
    subst lowered
    exact decide_eq_false (body.plain _ mem).ne_scratch
  · rw [other, if_neg Bool.false_ne_true] at lowered
    subst lowered
    rfl

namespace Watch

section

variable (W : Watch)

/-- A place in the body of a method or of the program, and what a bare return hands back in it. -/
structure Inside (place : Place) (scope : Scope) (own : List Param) (bare : BareReturn) :
    Prop where
  body : W.Body place.func scope own
  result : scope.inMethod = true → place.result = true
  returns : scope.inMethod = true → scope.returns ≠ .any
  self : scope.inMethod = true → bare = .self → "self" ∈ own.map Param.name

/-- What a return may hand back.  Of a constructor nobody looks at it. -/
def Returns (scope : Scope) (bare : BareReturn) (h : History) (w : Int32) : Prop :=
  W.typed → bare = .zero → W.program.Fits h.called scope.returns w

/-- The machine has left the function. -/
def Back (place : Place) (scope : Scope) (bare : BareReturn) (start : History) (s : State)
    (h : History) : Prop :=
  start.Begins h ∧ ∃ w, W.Left place w s h ∧ W.Returns scope bare h w

/-- The machine has come to some code with nothing on the stack, or has left the function. -/
def After (place : Place) (scope : Scope) (bare : BareReturn) (code : Code) (start : History)
    (s : State) (h : History) : Prop :=
  start.Begins h ∧ W.At place code [] s h ∨ W.Back place scope bare start s h

/-- Wherever the code of statements stands in a place, that is how control leaves it. -/
def Passes (n : Nat) (place : Place) (scope : Scope) (bare : BareReturn) (c : Code) : Prop :=
  ∀ (code : Code) (s : State) (h : History), W.At place (c ++ code) [] s h →
    W.Keeps place.callers code (W.After place scope bare code h) n s h

end

variable {W : Watch} {place : Place} {n : Nat} {code rest : Code} {stack : List Int32} {s : State}
  {h : History} {Q : State → History → Prop} {scope : Scope} {own : List Param}
  {bare : BareReturn} {start : History}

theorem Back.since (back : W.Back place scope bare h s start) {earlier : History}
    (begins : earlier.Begins h) : W.Back place scope bare earlier s start :=
  ⟨begins.trans back.1, back.2⟩

theorem After.since (after : W.After place scope bare code h s start) {earlier : History}
    (begins : earlier.Begins h) : W.After place scope bare code earlier s start := by
  rcases after with ⟨begins', there⟩ | back
  · exact Or.inl ⟨begins.trans begins', there⟩
  · exact Or.inr (back.since begins)

/-! ## Targets -/

theorem leaves_target (body : W.Body place.func scope own) {target : Typed.LValue}
    (readable : target.Readable scope) {c : Code} (lowered : target.lowerRead scope = .ok c)
    (here : W.At place (c ++ code) stack s h) :
    W.Keeps place.callers code (W.Pushed place code stack h fun h' w =>
      W.typed → W.program.Fits h'.called target.ty w) n s h := by
  induction readable generalizing c code with
  | var found =>
    obtain ⟨read, hread, rfl⟩ := Typed.LValue.lowerRead_var.1 lowered
    refine At.readVar body found hread here (List.suffix_refl _) fun t w here fits => ?_
    exact .here ⟨.refl h, w, here, fits⟩
  | field receiver object found field ih =>
    obtain ⟨o, ho, address, haddress, rfl⟩ := Typed.LValue.lowerRead_field.1 lowered
    rw [List.append_assoc, List.append_assoc] at here
    have ahead : code <:+ [Instr.load] ++ code := List.suffix_append _ _
    refine (ih ho here).bind (ahead.trans (List.suffix_append _ _)) fun t₁ h₁ pushed => ?_
    obtain ⟨begins, w, there, fits⟩ := pushed
    rw [object] at fits haddress
    refine there.fieldAddress body found field haddress fits ahead fun t₂ a there points => ?_
    refine there.load points (List.suffix_refl _) fun t₃ x there fits => ?_
    exact .here ⟨begins, x, there, fits⟩

namespace Passes

/-- The address of a field waits on the stack while the value is computed. -/
theorem assign (serves : W.Serves n) (inside : W.Inside place scope own bare)
    {target : Typed.LValue} (writable : target.Writable scope) {value : Typed.Expr}
    (checked : value.Checked scope) (takes : target.ty.Takes value.ty) {c : Code}
    (lowered : target.lowerWrite scope value = .ok c) : W.Passes n place scope bare c := by
  intro code s h here
  have body := inside.body
  have leaves := leaves serves body checked
  cases writable with
  | @var name binding found _ =>
    obtain ⟨v, hv, write, hwrite, rfl⟩ := Typed.LValue.lowerWrite_var.1 lowered
    rw [List.append_assoc] at here
    have slot := body.ready.concrete.vars _ _ found
    refine (leaves v _ [] s h hv here).bind (List.suffix_append _ _) fun t₁ h₁ pushed => ?_
    obtain ⟨begins, w, there, fits⟩ := pushed
    have looks := body.drops_writeVar found hwrite code
    have fits' (typed : W.typed) : W.program.Fits h₁.called binding.ty w :=
      (fits typed fun _ => Or.inr looks).of_takes takes slot
    refine At.writeVar body found hwrite fits' there (List.suffix_refl _) fun t₂ there => ?_
    exact .here (Or.inl ⟨begins, there⟩)
  | @field obj cls name info ty receiver object found field =>
    obtain ⟨o, ho, address, haddress, v, hv, rfl⟩ := Typed.LValue.lowerWrite_field.1 lowered
    simp only [List.append_assoc] at here
    have slot := (body.ready.concrete.classes _ _ found).fields _ _ field
    have ahead : code <:+ [Instr.store] ++ code := List.suffix_append _ _
    have ahead' : code <:+ v ++ ([Instr.store] ++ code) := ahead.trans (List.suffix_append _ _)
    refine (leaves_target body receiver ho here).bind (ahead'.trans (List.suffix_append _ _))
      fun t₁ h₁ pushed => ?_
    obtain ⟨begins₁, w, there, fits⟩ := pushed
    rw [object] at fits haddress
    refine there.fieldAddress body found field haddress fits ahead' fun t₂ a there points => ?_
    refine (leaves v _ _ t₂ h₁ hv there).bind ahead fun t₃ h₂ pushed => ?_
    obtain ⟨begins₂, x, there, fits⟩ := pushed
    have points' (typed : W.typed) : W.program.PointsTo h₂.called ty a :=
      (points typed).grow begins₂.called
    have fits' (typed : W.typed) : W.program.Fits h₂.called ty x :=
      (fits typed fun _ => Or.inr rfl).of_takes takes slot
    refine there.store points' fits' (List.suffix_refl _) fun t₄ stored there => ?_
    have begins := begins₁.trans begins₂
    exact .here (Or.inl ⟨⟨begins.called, begins.kept⟩, there⟩)

/-- Nobody looks at the word of the value. -/
theorem expr (serves : W.Serves n) (inside : W.Inside place scope own bare) {e : Typed.Expr}
    (checked : e.Checked scope) {c : Code} (lowered : e.lower scope = .ok c) :
    W.Passes n place scope bare (c ++ [Instr.localSet scratch]) := by
  intro code s h here
  rw [List.append_assoc] at here
  refine (leaves serves inside.body checked c _ [] s h lowered here).bind (List.suffix_append _ _)
    fun t₁ h₁ pushed => ?_
  obtain ⟨begins, w, there, -⟩ := pushed
  refine there.drop (List.suffix_refl _) fun t₂ there => ?_
  exact .here (Or.inl ⟨begins, there⟩)

end Passes

/-! ## Returns -/

theorem At.ret (inside : W.Inside place scope own bare) (inMethod : scope.inMethod = true)
    {w : Int32} (here : W.At place (.ret :: code) (w :: stack) s h)
    (returns : W.Returns scope bare h w) (ahead : rest <:+ code) :
    W.Keeps place.callers rest (W.Back place scope bare h) n s h := by
  refine Here.ret here (inside.result inMethod) ahead ⟨rfl, rfl⟩ (fun c mem named => ?_)
    fun t left => ?_
  · exact absurd named (inside.body.ne_construct mem)
  · exact .here ⟨⟨List.prefix_refl _, List.prefix_refl _⟩, w, left, returns⟩

/-- A bare return hands back zero, or the object of a constructor. -/
theorem At.bareReturn (inside : W.Inside place scope own bare) (inMethod : scope.inMethod = true)
    (here : W.At place (bare.code ++ code) [] s h) (ahead : rest <:+ code) :
    W.Keeps place.callers rest (W.Back place scope bare h) n s h := by
  have ahead' : rest <:+ .ret :: code := ahead.trans (List.suffix_cons _ _)
  cases bare with
  | zero =>
    refine here.const ahead' fun t there => ?_
    exact At.ret inside inMethod there (fun _ _ => .zero (inside.returns inMethod)) ahead
  | self =>
    obtain ⟨v, mem, named⟩ := List.mem_map.1 (inside.self inMethod rfl)
    have here : W.At place (.localGet v.name :: .ret :: code) [] s h := by
      rw [named]
      exact here
    refine Here.localGet inside.body mem here ahead' fun t w there _ => ?_
    exact At.ret inside inMethod there (fun _ other => nomatch other) ahead

namespace Passes

theorem bareReturn (inside : W.Inside place scope own bare) (inMethod : scope.inMethod = true) :
    W.Passes n place scope bare bare.code := by
  intro code s h here
  refine (At.bareReturn inside inMethod here (List.suffix_refl _)).bind (List.suffix_refl _)
    fun t₁ h₁ back => ?_
  exact .here (Or.inr back)

theorem ret (serves : W.Serves n) (inside : W.Inside place scope own bare)
    (inMethod : scope.inMethod = true) {e : Typed.Expr} (checked : e.Checked scope)
    (takes : scope.returns.Takes e.ty) {c : Code}
    (lowered : Typed.lowerReturn scope bare (some e) = .ok c) : W.Passes n place scope bare c := by
  rcases (Typed.lowerReturn_some inMethod).1 lowered with ⟨-, rfl⟩ | ⟨-, c, hc, rfl⟩
  · exact .bareReturn inside inMethod
  · intro code s h here
    rw [List.append_assoc] at here
    refine (leaves serves inside.body checked c _ [] s h hc here).bind (List.suffix_append _ _)
      fun t₁ h₁ pushed => ?_
    obtain ⟨begins, w, there, fits⟩ := pushed
    have returns : W.Returns scope bare h₁ w := fun typed _ =>
      (fits typed fun _ => Or.inr rfl).of_takes takes (inside.returns inMethod)
    refine (At.ret inside inMethod there returns (List.suffix_refl _)).bind (List.suffix_refl _)
      fun t₂ h₂ back => ?_
    exact .here (Or.inr (back.since begins))

theorem branch (serves : W.Serves n) (inside : W.Inside place scope own bare) {e : Typed.Expr}
    (checked : e.Checked scope) {c : Code} (lowered : e.lower scope = .ok c) {yes : Code}
    {no : Option Code} (first : W.Passes n place scope bare yes)
    (second : W.Passes n place scope bare (no.getD [])) :
    W.Passes n place scope bare (c ++ [Instr.branch yes no]) := by
  intro code s h here
  rw [List.append_assoc] at here
  refine (leaves serves inside.body checked c _ [] s h lowered here).bind (List.suffix_append _ _)
    fun t₁ h₁ pushed => ?_
  obtain ⟨begins, w, there, -⟩ := pushed
  refine there.branch (List.suffix_refl _) fun t₂ there => ?_
  have goes : W.Keeps place.callers code (W.After place scope bare code h₁) n t₂ h₁ := by
    split at there
    · exact first code t₂ h₁ there
    · exact second code t₂ h₁ there
  refine goes.bind (List.suffix_refl _) fun t₃ h₂ after => ?_
  exact .here (after.since begins)

theorem append {first second : Code} (passes : W.Passes n place scope bare first)
    (next : W.Passes n place scope bare second) :
    W.Passes n place scope bare (first ++ second) := by
  intro code s h here
  rw [List.append_assoc] at here
  refine (passes _ s h here).bind (List.suffix_append _ _) fun t₁ h₁ after => ?_
  rcases after with ⟨begins, there⟩ | back
  · refine (next code t₁ h₁ there).bind (List.suffix_refl _) fun t₂ h₂ after => ?_
    exact .here (after.since begins)
  · exact .here (Or.inr back)

theorem nil : W.Passes n place scope bare [] :=
  fun _ _ h here => .here (Or.inl ⟨.refl h, here⟩)

end Passes

/-! ## Statements -/

mutual

theorem passes_stmt (serves : W.Serves n) (inside : W.Inside place scope own bare)
    {st : Typed.Stmt} (checked : st.Checked scope) {c : Code}
    (lowered : st.lower scope bare = .ok c) : W.Passes n place scope bare c := by
  cases checked with
  | assign target checked takes =>
    rw [Typed.Stmt.lower] at lowered
    exact .assign serves inside target checked takes lowered
  | expr checked =>
    obtain ⟨c, hc, rfl⟩ := Typed.Stmt.lower_expr.1 lowered
    exact .expr serves inside checked hc
  | bareRet inMethod =>
    rw [Typed.Stmt.lower, Typed.lowerReturn_none inMethod] at lowered
    subst lowered
    exact .bareReturn inside inMethod
  | ret inMethod checked takes =>
    rw [Typed.Stmt.lower] at lowered
    exact .ret serves inside inMethod checked takes lowered
  | branch checked =>
    rw [Typed.Stmt.lower] at lowered
    exact passes_arm serves inside checked lowered
  | pass =>
    cases lowered
    intro code s h here
    refine here.nop (List.suffix_refl _) fun t there => ?_
    exact .here (Or.inl ⟨.refl h, there⟩)

theorem passes_arm (serves : W.Serves n) (inside : W.Inside place scope own bare)
    {arm : Typed.Arm} (checked : arm.Checked scope) {c : Code}
    (lowered : arm.lower scope bare = .ok c) : W.Passes n place scope bare c := by
  cases checked with
  | @mk ty condition stmts alternative test other block merged =>
    cases condition with
    | none =>
      obtain ⟨last, -⟩ := Typed.armTy?_else merged
      cases Option.map_eq_none_iff.1 last
      exact passes_stmts serves inside block (Typed.Arm.lower_else.1 lowered)
    | some e =>
      obtain ⟨yes, hyes, no, hno, c, hc, rfl⟩ := Typed.Arm.lower_if.1 lowered
      exact .branch serves inside (test e rfl).1 hc (passes_stmts serves inside block hyes)
        (passes_alternative serves inside other hno)

theorem passes_alternative (serves : W.Serves n) (inside : W.Inside place scope own bare)
    {alternative : Option Typed.Arm} (checked : ∀ arm ∈ alternative, arm.Checked scope)
    {no : Option Code} (lowered : Typed.Arm.lowerAlternative scope bare alternative = .ok no) :
    W.Passes n place scope bare (no.getD []) := by
  cases alternative with
  | none =>
    cases lowered
    exact .nil
  | some arm =>
    obtain ⟨c, hc, rfl⟩ := Typed.Arm.lowerAlternative_some.1 lowered
    exact passes_arm serves inside (checked arm rfl) hc

theorem passes_stmts (serves : W.Serves n) (inside : W.Inside place scope own bare)
    {stmts : List Typed.Stmt} (checked : ∀ st ∈ stmts, st.Checked scope) {c : Code}
    (lowered : Typed.Stmt.lowerAll scope bare stmts = .ok c) : W.Passes n place scope bare c := by
  cases stmts with
  | nil =>
    cases lowered
    exact .nil
  | cons st stmts =>
    obtain ⟨first, others⟩ := List.forall_mem_cons.1 checked
    obtain ⟨c, hc, cs, hcs, rfl⟩ := Typed.Stmt.lowerAll_cons.1 lowered
    exact (passes_stmt serves inside first hc).append (passes_stmts serves inside others hcs)

end

end Watch
end ClassLang
