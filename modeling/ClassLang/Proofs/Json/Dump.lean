/-
The dump of a checked program: its JSON as text, in full.

The only numbers in it are those of literals, so nothing of it is lost in reading.
-/
import ClassLang.CommandLine.Run
import ClassLang.Proofs.Json.Typed

namespace ClassLang

open Json

@[simp]
theorem Json.isWord64_toInt (value : Int32) : isWord64 value.toInt := by
  have least : -2 ^ 31 ≤ value.toInt := value.minValue_le_toInt
  have most : value.toInt ≤ 2 ^ 31 - 1 := value.toInt_le
  by_cases negative : value.toInt < 0
  · have some : 0 < value.toInt.natAbs := by omega
    have small : value.toInt.natAbs ≤ 2 ^ 63 := by omega
    rw [isWord64, decide_eq_true negative]
    show (decide (0 < value.toInt.natAbs) && decide (value.toInt.natAbs ≤ 2 ^ 63)) = true
    rw [decide_eq_true some, decide_eq_true small]
    rfl
  · have small : value.toInt.natAbs < 2 ^ 64 := by omega
    rw [isWord64, decide_eq_false negative]
    exact decide_eq_true small

theorem Json.itemsExact_map {α : Type} {encode : α → Json} (each : ∀ t, (encode t).isExact)
    (ts : List α) : itemsExact (ts.map encode) := by
  induction ts with
  | nil => rfl
  | cons t ts ih => simp [each t, ih]

@[simp]
theorem Ty.isExact_toJson (ty : Ty) : ty.toJson.isExact := by
  cases ty <;> rfl

@[simp]
theorem Literal.isExact_toJson (l : Literal) : l.toJson.isExact := by
  cases l <;> simp [toJson]

namespace Typed

@[simp]
theorem isExact_nodeToJson (ty : Ty) (kind : List (String × Json)) :
    (nodeToJson ty kind).isExact = fieldsExact kind := by
  simp [nodeToJson]

mutual

theorem Expr.isExact_toJson (e : Expr) : e.toJson.isExact := by
  cases e with
  | literal | id | construct => simp [Expr.toJson]
  | unary _ _ arg | paren _ arg | field _ arg _ => simp [Expr.toJson, Expr.isExact_toJson arg]
  | binary _ _ lhs rhs => simp [Expr.toJson, Expr.isExact_toJson lhs, Expr.isExact_toJson rhs]
  | call _ _ args => simp [Expr.toJson, Expr.itemsExact_toJsons args]
  | methodCall _ obj _ args =>
    simp [Expr.toJson, Expr.isExact_toJson obj, Expr.itemsExact_toJsons args]

theorem Expr.itemsExact_toJsons (es : List Expr) : itemsExact (Expr.toJsons es) := by
  cases es with
  | nil => rfl
  | cons e es => simp [Expr.toJsons, Expr.isExact_toJson e, Expr.itemsExact_toJsons es]

end

theorem LValue.isExact_toJson (l : LValue) : l.toJson.isExact := by
  induction l with
  | var => simp [toJson]
  | field _ _ _ ih => simp [toJson, ih]

theorem isExact_optionToJson (value : Option Expr) : (optionToJson value).isExact := by
  cases value with
  | none => rfl
  | some e => exact e.isExact_toJson

mutual

theorem Stmt.isExact_toJson (s : Stmt) : s.toJson.isExact := by
  cases s with
  | assign _ lhs value => simp [Stmt.toJson, lhs.isExact_toJson, value.isExact_toJson]
  | expr _ e => simp [Stmt.toJson, e.isExact_toJson]
  | ret _ value => simp [Stmt.toJson, isExact_optionToJson value]
  | branch _ arm => simp [Stmt.toJson, Arm.fieldsExact_toFields arm]
  | pass => simp [Stmt.toJson]

theorem Arm.fieldsExact_toFields (arm : Arm) : fieldsExact arm.toFields := by
  match arm with
  | .mk _ condition body none =>
    simp [Arm.toFields, Arm.alternativeToJson, isExact_optionToJson condition,
      Stmt.itemsExact_toJsons body]
  | .mk _ condition body (some other) =>
    simp [Arm.toFields, Arm.alternativeToJson, isExact_optionToJson condition,
      Stmt.itemsExact_toJsons body, Arm.fieldsExact_toFields other]

theorem Stmt.itemsExact_toJsons (ss : List Stmt) : itemsExact (Stmt.toJsons ss) := by
  cases ss with
  | nil => rfl
  | cons s ss => simp [Stmt.toJsons, Stmt.isExact_toJson s, Stmt.itemsExact_toJsons ss]

end

theorem isExact_varDefToJson (v : VarDef) : (varDefToJson v).isExact := by
  simp [varDefToJson]

theorem isExact_paramToJson (p : Param) : (paramToJson p).isExact := by
  simp [paramToJson]

theorem Method.isExact_toJson (m : Method) : m.toJson.isExact := by
  simp [toJson, itemsExact_map isExact_paramToJson, itemsExact_map isExact_varDefToJson,
    Stmt.itemsExact_toJsons]

theorem Class.isExact_toJson (c : Class) : c.toJson.isExact := by
  simp [toJson, itemsExact_map isExact_varDefToJson, itemsExact_map Method.isExact_toJson]

theorem Program.isExact_toJson (p : Program) : p.toJson.isExact := by
  simp [toJson, itemsExact_map isExact_varDefToJson, itemsExact_map Class.isExact_toJson,
    Stmt.itemsExact_toJsons]

/-! ## The text -/

/-- The text that a build writes if it is told to emit the checked program. -/
def Program.dump (t : Program) : String := t.toJson.pretty 0

/-- What a dump says, read without a limit on how deep it nests. -/
def Program.ofDump? (text : String) : Option Program := (Json.read? text).bind Program.ofJson?

theorem Program.ofDump?_dump (t : Program) : Program.ofDump? t.dump = some t := by
  rw [ofDump?, dump, read?_pretty t.isExact_toJson]
  exact t.ofJson?_toJson

end Typed

theorem CommandLine.Options.product_eq_dump {o : Options} {p : Source.Program} {t : Typed.Program}
    {here : Scope} (emits : o.emitTyped = true) (accepted : p.check = .ok (t, here)) :
    o.product p = .ok t.dump := by
  rw [product, if_pos emits, accepted]
  rfl

namespace Typed

/-- A checked program, or any tree of that form, is read back from its JSON and from its dump.  So no
two have one dump, and from a dump the same module is made as from the program that was dumped. -/
theorem Program.dump_reads_back (t : Program) :
    Program.ofJson? t.toJson = some t ∧ Program.ofDump? t.dump = some t ∧
      (∀ u : Program, u.dump = t.dump → u = t) ∧
      (∀ here bare, (Program.ofDump? t.dump).map (fun u => (u.lower here).run bare) =
        some ((t.lower here).run bare)) ∧
      ∀ (o : CommandLine.Options) (p : Source.Program) (here : Scope),
        o.emitTyped = true → p.check = .ok (t, here) → o.product p = .ok t.dump := by
  have read := t.ofDump?_dump
  refine ⟨t.ofJson?_toJson, read, fun u same => ?_, fun here bare => ?_, fun o p here => ?_⟩
  · have other := u.ofDump?_dump
    rw [same, read] at other
    exact (Option.some.inj other).symm
  · rw [read]
    rfl
  · exact CommandLine.Options.product_eq_dump

/-- A chain of two arms, of which the first makes an object and the second has no condition, beside a
variable whose name needs escapes and whose value is negative. -/
def escaped : Source.Program where
  globals := [⟨"a \"\x01é", .int, .int (-5)⟩]
  classes := [⟨"A", [], []⟩]
  body := [.branch (.mk (some (.literal (.bool true))) [.expr (.call "A" [])]
    (some (.mk none [.pass] none)))]

/-- The dump of that program with types is what a build writes of it, and differs from the dump of
the program with another value of the variable. -/
theorem Program.dump_reads_back_escaped :
    ∃ t here, escaped.check = .ok (t, here) ∧ Program.ofDump? t.dump = some t ∧
      CommandLine.Options.product ⟨.build "a.json" none, true, .human⟩ escaped = .ok t.dump ∧
      Program.dump ⟨t.ty, [⟨"a \"\x01é", .int, .int 5⟩], t.classes, t.body⟩ ≠ t.dump := by
  obtain ⟨⟨t, here⟩, accepted⟩ : ∃ r, escaped.check = .ok r := ⟨_, rfl⟩
  obtain ⟨-, read, apart, -, product⟩ := t.dump_reads_back
  refine ⟨t, here, accepted, read, product _ _ _ rfl accepted, fun same => ?_⟩
  cases accepted
  cases apart _ same

end Typed
end ClassLang
