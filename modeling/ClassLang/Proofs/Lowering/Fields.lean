/-
Where a body uses the fields of objects, and the code of these uses.

Fields are used in three ways: an expression reads one, an assignment writes one, and an assignment
reads one on the way to the object that it writes to.  Each use has code of its own, which stands
somewhere in the code of the body.
-/
import ClassLang.Proofs.Lowering.Total
import ClassLang.Typed.Expressions

namespace ClassLang

/-! ## Code within code -/

/-- The piece stands in the code, in one run of instructions, be it in an arm of a branch. -/
inductive Code.Part (piece : Code) : Code → Prop
  | here {code : Code} (run : piece <:+: code) : Part piece code
  | yes {yes code : Code} {no : Option Code} (branch : Instr.branch yes no ∈ code)
    (inside : Part piece yes) : Part piece code
  | no {yes no code : Code} (branch : Instr.branch yes (some no) ∈ code)
    (inside : Part piece no) : Part piece code

theorem Code.Part.extend {piece first second : Code} (h : Part piece first)
    (run : first <:+: second) : Part piece second := by
  cases h with
  | here inner => exact .here (inner.trans run)
  | yes branch inside => exact .yes (run.subset branch) inside
  | no branch inside => exact .no (run.subset branch) inside

namespace Typed

/-! ## Uses of fields -/

/-- A node of the tree that uses the field `name` of the object that another node stands for. -/
inductive FieldUse where
  | read (ty : Ty) (obj : Expr) (name : String)
  /-- On the way to the object whose field is written. -/
  | readTarget (ty : Ty) (obj : LValue) (name : String)
  | write (ty : Ty) (obj : LValue) (name : String) (value : Expr)

namespace FieldUse

/-- The type of the object. -/
def receiver : FieldUse → Ty
  | .read _ obj _ => obj.ty
  | .readTarget _ obj _ | .write _ obj _ _ => obj.ty

def name : FieldUse → String
  | .read _ _ name | .readTarget _ _ name | .write _ _ name _ => name

/-- What the generator makes of the node. -/
def lower (scope : Scope) : FieldUse → Except Error Code
  | .read ty obj name => (Expr.field ty obj name).lower scope
  | .readTarget ty obj name => (LValue.field ty obj name).lowerRead scope
  | .write ty obj name value => (LValue.field ty obj name).lowerWrite scope value

/-- The code of the use if the field lies so many bytes into the object: the object, which must be
there, then the address of the field, and the load or the store. -/
def codeAt (scope : Scope) (offset : Int32) : FieldUse → Except Error Code
  | .read _ obj _ => do
    let obj ← obj.lower scope
    return obj ++ guardAbsent ++ [.const offset, .add, .load]
  | .readTarget _ obj _ => do
    let obj ← obj.lowerRead scope
    return obj ++ guardAbsent ++ [.const offset, .add, .load]
  | .write _ obj _ value => do
    let obj ← obj.lowerRead scope
    let value ← value.lower scope
    return obj ++ guardAbsent ++ [.const offset, .add] ++ value ++ [.store]

end FieldUse

def Expr.fieldUse? : Expr → Option FieldUse
  | .field ty obj name => some (.read ty obj name)
  | _ => none

/-- The uses of fields in an expression, at every depth. -/
def Expr.fieldUses (e : Expr) : List FieldUse := e.all.filterMap Expr.fieldUse?

/-- The uses of fields in reading a target. -/
def LValue.readUses : LValue → List FieldUse
  | .var _ _ => []
  | .field ty obj name => .readTarget ty obj name :: obj.readUses

/-- The uses of fields in writing a target. -/
def LValue.writeUses (value : Expr) : LValue → List FieldUse
  | .var _ _ => []
  | .field ty obj name => .write ty obj name value :: obj.readUses

mutual

def Stmt.fieldUses : Stmt → List FieldUse
  | .assign _ lhs value => lhs.writeUses value ++ value.fieldUses
  | .expr _ e => e.fieldUses
  | .ret _ value => value.toList.flatMap Expr.fieldUses
  | .branch _ arm => arm.fieldUses
  | .pass _ => []
termination_by structural s => s

def Arm.fieldUses : Arm → List FieldUse
  | .mk _ condition body alternative =>
    condition.toList.flatMap Expr.fieldUses ++
      (Stmt.fieldUsesOf body ++ Arm.alternativeFieldUses alternative)
termination_by structural a => a

def Arm.alternativeFieldUses : Option Arm → List FieldUse
  | none => []
  | some arm => arm.fieldUses
termination_by structural a => a

def Stmt.fieldUsesOf : List Stmt → List FieldUse
  | [] => []
  | s :: rest => s.fieldUses ++ Stmt.fieldUsesOf rest
termination_by structural ss => ss

end

/-! ## Their code is there -/

/-- Each use has code, and it is part of this code. -/
def Uses (scope : Scope) (code : Code) (uses : List FieldUse) : Prop :=
  ∀ use ∈ uses, ∃ piece, use.lower scope = .ok piece ∧ Code.Part piece code

section

variable {scope : Scope} {code : Code}

theorem Uses.append {first second : List FieldUse} (h : Uses scope code first)
    (h' : Uses scope code second) : Uses scope code (first ++ second) :=
  List.forall_mem_append.2 ⟨h, h'⟩

theorem Uses.nil : Uses scope code [] := List.forall_mem_nil _

theorem Uses.extend {inner : Code} {uses : List FieldUse} (h : Uses scope inner uses)
    (run : inner <:+: code) : Uses scope code uses := by
  intro use mem
  obtain ⟨piece, lowered, part⟩ := h use mem
  exact ⟨piece, lowered, part.extend run⟩

theorem Uses.yes {yes : Code} {no : Option Code} {uses : List FieldUse} (h : Uses scope yes uses)
    (branch : Instr.branch yes no ∈ code) : Uses scope code uses := by
  intro use mem
  obtain ⟨piece, lowered, part⟩ := h use mem
  exact ⟨piece, lowered, .yes branch part⟩

/-- Each of these expressions has code, and it stands in one run in this code. -/
def Expr.Within (scope : Scope) (code : Code) (parts : List Expr) : Prop :=
  ∀ part ∈ parts, ∃ piece, part.lower scope = .ok piece ∧ piece <:+: code

theorem Expr.Within.extend {inner : Code} {parts : List Expr} (h : Expr.Within scope inner parts)
    (run : inner <:+: code) : Expr.Within scope code parts := by
  intro part mem
  obtain ⟨piece, lowered, within⟩ := h part mem
  exact ⟨piece, lowered, within.trans run⟩

theorem Expr.within_cons {e : Expr} {parts : List Expr} (lowered : e.lower scope = .ok code)
    (h : Expr.Within scope code parts) : Expr.Within scope code (e :: parts) :=
  List.forall_mem_cons.2 ⟨⟨code, lowered, List.infix_rfl⟩, h⟩

theorem Expr.within_append {first second : List Expr} (h : Expr.Within scope code first)
    (h' : Expr.Within scope code second) : Expr.Within scope code (first ++ second) :=
  List.forall_mem_append.2 ⟨h, h'⟩

theorem Expr.within_lowerAll {es : List Expr}
    (h : ∀ e ∈ es, ∀ {c}, e.lower scope = .ok c → Expr.Within scope c e.all)
    (lowered : Expr.lowerAll scope es = .ok code) : Expr.Within scope code (Expr.allOf es) := by
  induction es generalizing code with
  | nil => exact List.forall_mem_nil _
  | cons e rest ih =>
    simp only [Expr.lowerAll, bind_eq_ok, pure_eq_ok] at lowered
    obtain ⟨c, hc, cs, hcs, rfl⟩ := lowered
    obtain ⟨first, others⟩ := List.forall_mem_cons.1 h
    exact Expr.within_append ((first hc).extend List.infix_append_left)
      ((ih others hcs).extend List.infix_append_right)

/-- Every part of an expression has code, which stands in one run in the code of the whole. -/
theorem Expr.Checked.within (concrete : scope.Concrete) {e : Expr} (h : e.Checked scope)
    (lowered : e.lower scope = .ok code) : Expr.Within scope code e.all := by
  have typed := h.ty_ne_any concrete
  induction h generalizing code with
  | literal | id | construct => exact Expr.within_cons lowered (List.forall_mem_nil _)
  | unary checked _ ih =>
    obtain ⟨c, hc, rfl⟩ := (Expr.lower_unary typed).1 lowered
    have arg := ih hc (checked.ty_ne_any concrete)
    exact Expr.within_cons lowered (arg.extend List.infix_append_left)
  | binary left right _ ihl ihr =>
    obtain ⟨l, hl, r, hr, rfl⟩ := (Expr.lower_binary typed).1 lowered
    have lhs := ihl hl (left.ty_ne_any concrete)
    have rhs := ihr hr (right.ty_ne_any concrete)
    refine Expr.within_cons lowered (Expr.within_append (lhs.extend ?_) (rhs.extend ?_))
    · exact List.infix_append_of_infix_left List.infix_append_left
    · exact List.infix_append ..
  | paren checked ih =>
    have arg := ih ((Expr.lower_paren typed).1 lowered) (checked.ty_ne_any concrete)
    exact Expr.within_cons lowered arg
  | call _ checked _ ih =>
    obtain ⟨c, hc, _, -, rfl⟩ := (Expr.lower_call typed).1 lowered
    have args := Expr.within_lowerAll
      (fun e mem _ he => ih e mem he ((checked e mem).ty_ne_any concrete)) hc
    exact Expr.within_cons lowered (args.extend List.infix_append_left)
  | methodCall receiver object _ _ _ checked _ ihr ih =>
    obtain ⟨o, ho, c, hc, rfl⟩ := (Expr.lower_methodCall typed object).1 lowered
    have obj := ihr ho (receiver.ty_ne_any concrete)
    have args := Expr.within_lowerAll
      (fun e mem _ he => ih e mem he ((checked e mem).ty_ne_any concrete)) hc
    refine Expr.within_cons lowered (Expr.within_append (obj.extend ?_) (args.extend ?_))
    · rw [List.append_assoc, List.append_assoc]
      exact List.infix_append_left
    · exact List.infix_append ..
  | field receiver _ _ _ ih =>
    obtain ⟨o, ho, _, -, rfl⟩ := (Expr.lower_field typed).1 lowered
    have obj := ih ho (receiver.ty_ne_any concrete)
    refine Expr.within_cons lowered (obj.extend ?_)
    rw [List.append_assoc]
    exact List.infix_append_left

theorem Expr.Checked.uses (concrete : scope.Concrete) {e : Expr} (h : e.Checked scope)
    (lowered : e.lower scope = .ok code) : Uses scope code e.fieldUses := by
  intro use mem
  obtain ⟨part, inside, found⟩ := List.mem_filterMap.1 mem
  obtain ⟨piece, hp, run⟩ := h.within concrete lowered part inside
  cases part with
  | field ty obj name =>
    cases found
    exact ⟨piece, hp, .here run⟩
  | _ => cases found

theorem LValue.uses_lowerRead {target : LValue} (lowered : target.lowerRead scope = .ok code) :
    Uses scope code target.readUses := by
  induction target generalizing code with
  | var ty name => exact .nil
  | field ty obj name ih =>
    obtain ⟨o, ho, _, -, rfl⟩ := LValue.lowerRead_field.1 lowered
    refine List.forall_mem_cons.2 ⟨⟨_, lowered, .here List.infix_rfl⟩, (ih ho).extend ?_⟩
    rw [List.append_assoc]
    exact List.infix_append_left

theorem LValue.uses_lowerWrite {target : LValue} {value : Expr}
    (lowered : target.lowerWrite scope value = .ok code) :
    Uses scope code (target.writeUses value) := by
  cases target with
  | var ty name => exact .nil
  | field ty obj name =>
    obtain ⟨o, ho, _, -, v, -, rfl⟩ := LValue.lowerWrite_field.1 lowered
    refine List.forall_mem_cons.2
      ⟨⟨_, lowered, .here List.infix_rfl⟩, (LValue.uses_lowerRead ho).extend ?_⟩
    rw [List.append_assoc, List.append_assoc]
    exact List.infix_append_left

/-- The value that is written is lowered in one run as well. -/
theorem LValue.lower_infix_lowerWrite {target : LValue} {value : Expr}
    (lowered : target.lowerWrite scope value = .ok code) :
    ∃ v, value.lower scope = .ok v ∧ v <:+: code := by
  cases target with
  | var ty name =>
    obtain ⟨v, hv, _, -, rfl⟩ := LValue.lowerWrite_var.1 lowered
    exact ⟨v, hv, List.infix_append_left⟩
  | field ty obj name =>
    obtain ⟨_, -, _, -, v, hv, rfl⟩ := LValue.lowerWrite_field.1 lowered
    exact ⟨v, hv, List.infix_append ..⟩

theorem uses_lowerReturn (concrete : scope.Concrete) {bare : BareReturn} {e : Expr}
    (checked : e.Checked scope) (inside : scope.inMethod = true)
    (lowered : lowerReturn scope bare (some e) = .ok code) : Uses scope code e.fieldUses := by
  rcases (lowerReturn_some inside).1 lowered with ⟨⟨-, ty, rfl⟩, -⟩ | ⟨-, c, hc, rfl⟩
  · -- the literal `None` is not even lowered, and there is no field in it
    exact .nil
  · exact (checked.uses concrete hc).extend List.infix_append_left

mutual

theorem Stmt.Checked.uses (concrete : scope.Concrete) {bare : BareReturn} {s : Stmt}
    (h : s.Checked scope) {code : Code} (lowered : s.lower scope bare = .ok code) :
    Uses scope code s.fieldUses := by
  cases h with
  | assign _ checked =>
    obtain ⟨v, hv, run⟩ := LValue.lower_infix_lowerWrite lowered
    exact (LValue.uses_lowerWrite lowered).append ((checked.uses concrete hv).extend run)
  | expr checked =>
    obtain ⟨c, hc, rfl⟩ := Stmt.lower_expr.1 lowered
    exact (checked.uses concrete hc).extend List.infix_append_left
  | bareRet => exact .nil
  | ret inside checked =>
    exact (uses_lowerReturn concrete checked inside lowered).append .nil
  | branch checked => exact Arm.Checked.uses concrete checked lowered
  | pass => exact .nil

theorem Arm.Checked.uses (concrete : scope.Concrete) {bare : BareReturn} {arm : Arm}
    (h : arm.Checked scope) {code : Code} (lowered : arm.lower scope bare = .ok code) :
    Uses scope code arm.fieldUses := by
  cases h with
  | @mk ty condition body alternative test other block merged =>
    cases condition with
    | none =>
      obtain ⟨last, -⟩ := armTy?_else merged
      cases Option.map_eq_none_iff.1 last
      have inBody := Stmt.uses_lowerAll concrete block (Arm.lower_else.1 lowered)
      exact Uses.nil.append (inBody.append .nil)
    | some e =>
      obtain ⟨yes, hyes, no, hno, c, hc, rfl⟩ := Arm.lower_if.1 lowered
      have inCondition := ((test e rfl).1.uses concrete hc).append .nil
      have inBody := Stmt.uses_lowerAll concrete block hyes
      have inOther := Arm.uses_lowerAlternative concrete other hno
      have branch : Instr.branch yes no ∈ c ++ [Instr.branch yes no] :=
        List.mem_append_right _ List.mem_cons_self
      refine (inCondition.extend List.infix_append_left).append ((inBody.yes branch).append ?_)
      intro use mem
      obtain ⟨code, rfl, piece, hp, part⟩ := inOther use mem
      exact ⟨piece, hp, .no branch part⟩

theorem Arm.uses_lowerAlternative (concrete : scope.Concrete) {bare : BareReturn}
    {alternative : Option Arm} (h : ∀ arm ∈ alternative, arm.Checked scope) {no : Option Code}
    (lowered : Arm.lowerAlternative scope bare alternative = .ok no) :
    ∀ use ∈ Arm.alternativeFieldUses alternative,
      ∃ code ∈ no, ∃ piece, use.lower scope = .ok piece ∧ Code.Part piece code := by
  cases alternative with
  | none => exact List.forall_mem_nil _
  | some arm =>
    obtain ⟨c, hc, rfl⟩ := Arm.lowerAlternative_some.1 lowered
    intro use mem
    exact ⟨c, rfl, Arm.Checked.uses concrete (h arm rfl) hc use mem⟩

theorem Stmt.uses_lowerAll (concrete : scope.Concrete) {bare : BareReturn} {stmts : List Stmt}
    (h : ∀ s ∈ stmts, s.Checked scope) {code : Code}
    (lowered : Stmt.lowerAll scope bare stmts = .ok code) :
    Uses scope code (Stmt.fieldUsesOf stmts) := by
  cases stmts with
  | nil => exact .nil
  | cons s rest =>
    obtain ⟨c, hc, cs, hcs, rfl⟩ := Stmt.lowerAll_cons.1 lowered
    obtain ⟨first, others⟩ := List.forall_mem_cons.1 h
    have inFirst := Stmt.Checked.uses concrete first hc
    have inRest := Stmt.uses_lowerAll concrete others hcs
    exact (inFirst.extend List.infix_append_left).append
      (inRest.extend List.infix_append_right)

end

end

end Typed
end ClassLang
