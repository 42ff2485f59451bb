/-
In which order a program declares its names.

Signatures are collected before any body is looked at, and a table of names does not know in which
order it was filled.  So the order decides which mistake is found first, but not whether there is
one, and a checked tree has its declarations in the order in which they were handed in.
-/
import ClassLang.Proofs.Checker.Program
import Mathlib.Data.List.Perm.Basic

namespace ClassLang

/-! ## Orders of lists -/

section Lists

variable {α β γ : Type}

/-- The elements of a list by their old places, in the new order. -/
def inOrder (order : List Nat) (l : List α) : List α := order.filterMap (l[·]?)

/-- Every place of a list of this length comes once. -/
def OrderOf (order : List Nat) (length : Nat) : Prop := order.Perm (List.range length)

instance (order : List Nat) (length : Nat) : Decidable (OrderOf order length) :=
  inferInstanceAs (Decidable (order.Perm (List.range length)))

theorem inOrder_range (l : List α) : inOrder (List.range l.length) l = l := by
  induction l with
  | nil => rfl
  | cons a l ih =>
    rw [List.length_cons, List.range_succ_eq_map, inOrder, List.filterMap_cons, List.filterMap_map]
    exact congrArg (a :: ·) ih

theorem inOrder_perm {order : List Nat} {l : List α} (h : OrderOf order l.length) :
    (inOrder order l).Perm l := by
  have perm := h.filterMap (l[·]?)
  rwa [← inOrder, ← inOrder, inOrder_range] at perm

theorem mem_of_mem_inOrder {order : List Nat} {l : List α} {a : α} (mem : a ∈ inOrder order l) :
    a ∈ l := by
  obtain ⟨i, -, found⟩ := List.mem_filterMap.1 mem
  exact List.mem_of_getElem? found

/-- Lists that correspond do so in every order. -/
theorem forall₂_inOrder {R : α → β → Prop} {l : List α} {r : List β} (h : List.Forall₂ R l r)
    (order : List Nat) : List.Forall₂ R (inOrder order l) (inOrder order r) := by
  have places : ∀ i : Nat, l[i]? = none ∧ r[i]? = none ∨
      ∃ a b, l[i]? = some a ∧ r[i]? = some b ∧ R a b := by
    induction h with
    | nil => exact fun i => Or.inl ⟨rfl, rfl⟩
    | cons first _ ih =>
      intro i
      cases i with
      | zero => exact Or.inr ⟨_, _, rfl, rfl, first⟩
      | succ i => exact ih i
  induction order with
  | nil => exact .nil
  | cons i order ih =>
    rcases places i with ⟨hl, hr⟩ | ⟨a, b, hl, hr, hR⟩
    · rwa [inOrder, inOrder, List.filterMap_cons_none hl, List.filterMap_cons_none hr]
    · rw [inOrder, inOrder, List.filterMap_cons_some hl, List.filterMap_cons_some hr]
      exact .cons hR ih

/-- Every rearrangement of a list is the list in some order. -/
theorem exists_order {l l' : List α} (h : l'.Perm l) :
    ∃ order, OrderOf order l.length ∧ l' = inOrder order l := by
  have places : List.Forall₂ (fun a i => l[i]? = some a) l (List.range l.length) :=
    List.forall₂_iff_get.2 ⟨List.length_range.symm, fun i hl hr => by simp⟩
  obtain ⟨order, placed, perm⟩ := List.perm_comp_forall₂ h places
  refine ⟨order, perm, ?_⟩
  clear perm h
  induction placed with
  | nil => rfl
  | cons found _ ih => rw [inOrder, List.filterMap_cons_some found, ← inOrder, ← ih]

theorem forall₂_zipWith {δ : Type} {P : δ → α → Prop} {R : α → β → Prop} {f : δ → α → α}
    {g : δ → β → β} {ds : List δ} {l : List α} {r : List β} (fits : List.Forall₂ P ds l)
    (h : List.Forall₂ R l r) (each : ∀ d a b, P d a → R a b → R (f d a) (g d b)) :
    List.Forall₂ R (List.zipWith f ds l) (List.zipWith g ds r) := by
  induction fits generalizing r with
  | nil => cases h; exact .nil
  | cons first _ ih =>
    cases h with
    | cons hR rest => exact .cons (each _ _ _ first hR) (ih rest)

end Lists

/-! ## Orders of programs -/

/-- The order of the members of a class. -/
structure MemberOrder where
  fields : List Nat
  methods : List Nat
deriving Repr, DecidableEq

/-- The order of the declarations of a program.  There is one order of members for each class, as
the classes stand before. -/
structure DeclarationOrder where
  globals : List Nat
  classes : List Nat
  members : List MemberOrder
deriving Repr, DecidableEq

namespace Source

def Class.inOrder (order : MemberOrder) (c : Class) : Class :=
  { c with
    fields := ClassLang.inOrder order.fields c.fields
    methods := ClassLang.inOrder order.methods c.methods }

def Program.inOrder (order : DeclarationOrder) (p : Program) : Program :=
  { p with
    globals := ClassLang.inOrder order.globals p.globals
    classes := ClassLang.inOrder order.classes
      (List.zipWith Class.inOrder order.members p.classes) }

end Source

namespace Typed

def Class.inOrder (order : MemberOrder) (c : Class) : Class :=
  { c with
    fields := ClassLang.inOrder order.fields c.fields
    methods := ClassLang.inOrder order.methods c.methods }

def Program.inOrder (order : DeclarationOrder) (p : Program) : Program :=
  { p with
    globals := ClassLang.inOrder order.globals p.globals
    classes := ClassLang.inOrder order.classes
      (List.zipWith Class.inOrder order.members p.classes) }

end Typed

/-- An order of all members of the class. -/
def MemberOrder.Fits (order : MemberOrder) (c : Source.Class) : Prop :=
  OrderOf order.fields c.fields.length ∧ OrderOf order.methods c.methods.length

/-- An order of all declarations of the program. -/
structure DeclarationOrder.Fits (order : DeclarationOrder) (p : Source.Program) : Prop where
  globals : OrderOf order.globals p.globals.length
  classes : OrderOf order.classes p.classes.length
  members : List.Forall₂ MemberOrder.Fits order.members p.classes

namespace Source

/-- The same class but for the order of its members. -/
structure Class.Rearranges (c c' : Class) : Prop where
  name : c.name = c'.name
  fields : c.fields.Perm c'.fields
  methods : c.methods.Perm c'.methods

/-- The same program but for the order of its declarations. -/
structure Program.Rearranges (p p' : Program) : Prop where
  globals : p.globals.Perm p'.globals
  classes : ∃ cs, p.classes.Perm cs ∧ List.Forall₂ Class.Rearranges cs p'.classes
  body : p.body = p'.body

theorem Class.Rearranges.symm {c c' : Class} (h : c.Rearranges c') : c'.Rearranges c :=
  ⟨h.name.symm, h.fields.symm, h.methods.symm⟩

theorem Program.Rearranges.symm {p p' : Program} (h : p.Rearranges p') : p'.Rearranges p := by
  obtain ⟨cs, perm, members⟩ := h.classes
  obtain ⟨cs', members', perm'⟩ := List.perm_comp_forall₂ perm members
  exact ⟨h.globals.symm, ⟨cs', perm'.symm, members'.flip.imp fun _ _ h => h.symm⟩, h.body.symm⟩

theorem Class.inOrder_rearranges {order : MemberOrder} {c : Class} (fits : order.Fits c) :
    (c.inOrder order).Rearranges c :=
  ⟨rfl, inOrder_perm fits.1, inOrder_perm fits.2⟩

theorem rearranges_of_fits {members : List MemberOrder} {cs : List Class}
    (fits : List.Forall₂ MemberOrder.Fits members cs) :
    List.Forall₂ Class.Rearranges (List.zipWith Class.inOrder members cs) cs := by
  induction fits with
  | nil => exact .nil
  | cons first _ ih => exact .cons (Class.inOrder_rearranges first) ih

theorem Program.inOrder_rearranges {order : DeclarationOrder} {p : Program} (fits : order.Fits p) :
    (p.inOrder order).Rearranges p := by
  have members := rearranges_of_fits fits.members
  refine ⟨inOrder_perm fits.globals, ⟨_, inOrder_perm ?_, members⟩, rfl⟩
  rw [members.length_eq]
  exact fits.classes

/-- Rearranged classes have their members in some order. -/
theorem exists_members {cs cs' : List Class} (h : List.Forall₂ Class.Rearranges cs cs') :
    ∃ members, List.Forall₂ MemberOrder.Fits members cs' ∧
      cs = List.zipWith Class.inOrder members cs' := by
  induction h with
  | nil => exact ⟨[], .nil, rfl⟩
  | @cons c c' _ _ first _ ih =>
    obtain ⟨fields, hf, eqf⟩ := exists_order first.fields
    obtain ⟨methods, hm, eqm⟩ := exists_order first.methods
    obtain ⟨members, fits, rfl⟩ := ih
    refine ⟨⟨fields, methods⟩ :: members, .cons ⟨hf, hm⟩ fits, ?_⟩
    have same : c = c'.inOrder ⟨fields, methods⟩ := by
      rw [Class.inOrder, ← eqf, ← eqm, ← first.name]
    rw [List.zipWith_cons_cons, ← same]

theorem Program.Rearranges.exists_order {p p' : Program} (h : p.Rearranges p') :
    ∃ order : DeclarationOrder, order.Fits p' ∧ p = p'.inOrder order := by
  obtain ⟨globals, hg, eqg⟩ := ClassLang.exists_order h.globals
  obtain ⟨cs, perm, alike⟩ := h.classes
  obtain ⟨members, fits, rfl⟩ := exists_members alike
  obtain ⟨classes, hc, eqc⟩ := ClassLang.exists_order perm
  rw [alike.length_eq] at hc
  refine ⟨⟨globals, classes, members⟩, ⟨hg, hc, fits⟩, ?_⟩
  rw [Program.inOrder, ← eqg, ← eqc, ← h.body]

/-! ## The scope does not depend on the order -/

theorem Class.Rearranges.signature {c c' : Class} (same : c'.Rearranges c) {info : ClassInfo}
    (h : c.signature = .ok info) : c'.signature = .ok info := by
  have declares := Class.signature_eq_ok.1 h
  have methods := declares.methods.perm same.methods.symm
  rw [← same.name] at methods
  exact Class.signature_eq_ok.2 ⟨declares.fields.perm same.fields.symm, methods, declares.layout⟩

theorem Program.Rearranges.scope {p p' : Program} (same : p'.Rearranges p) {scope : Scope}
    (h : p.scope = .ok scope) : p'.scope = .ok scope := by
  have declares := Program.scope_eq_ok.1 h
  obtain ⟨cs, perm, members⟩ := same.classes
  have classes := declares.classes.transfer (members.flip.imp fun _ _ alike =>
    ⟨alike.name, fun _ => alike.signature⟩)
  exact Program.scope_eq_ok.2 ⟨declares.vars.perm same.globals.symm, classes.perm perm.symm,
    declares.functions, declares.returns, declares.owner⟩

/-! ## Bodies are checked in a scope that has all names -/

theorem Class.check_inOrder {scope : Scope} {order : MemberOrder} {c : Class} {tc : Typed.Class}
    (h : c.check scope = .ok tc) : (c.inOrder order).check scope = .ok (tc.inOrder order) := by
  obtain ⟨fields, methods, pass, rfl⟩ := Class.check_eq_ok.1 h
  exact Class.check_eq_ok.2 ⟨fun f mem => fields f (mem_of_mem_inOrder mem), _,
    forall₂_inOrder pass order.methods, rfl⟩

theorem Program.check_inOrder {order : DeclarationOrder} {p : Program} (fits : order.Fits p)
    {tp : Typed.Program} {scope : Scope} (h : p.check = .ok (tp, scope)) :
    (p.inOrder order).check = .ok (tp.inOrder order, scope) := by
  obtain ⟨start, globals, classes, pass, body, last, rfl⟩ := Program.check_eq_ok.1 h
  have members : List.Forall₂ (fun c tc => Class.check scope c = .ok tc)
      (List.zipWith Class.inOrder order.members p.classes)
      (List.zipWith Typed.Class.inOrder order.members classes) :=
    forall₂_zipWith fits.members pass fun _ _ _ _ => Class.check_inOrder
  exact Program.check_eq_ok.2 ⟨(inOrder_rearranges fits).scope start,
    fun v mem => globals v (mem_of_mem_inOrder mem), _, forall₂_inOrder members order.classes, body,
    last, rfl⟩

theorem Program.Rearranges.passes {p p' : Program} (same : p'.Rearranges p)
    (h : ∃ r, p.check = .ok r) : ∃ r, p'.check = .ok r := by
  obtain ⟨⟨tp, scope⟩, accepted⟩ := h
  obtain ⟨order, fits, rfl⟩ := same.exists_order
  exact ⟨_, check_inOrder fits accepted⟩

/-- A program with its declarations in any other order passes exactly if it passes as it is.  The
checked tree then has them in that order and is otherwise the same, and the scope is the same. -/
theorem Program.check_any_order (p : Program) :
    (∀ p', p'.Rearranges p ↔ ∃ order : DeclarationOrder, order.Fits p ∧ p' = p.inOrder order) ∧
    ∀ order : DeclarationOrder, order.Fits p →
      ((∃ r, (p.inOrder order).check = .ok r) ↔ ∃ r, p.check = .ok r) ∧
      ∀ tp scope, p.check = .ok (tp, scope) →
        (p.inOrder order).check = .ok (tp.inOrder order, scope) := by
  refine ⟨fun p' => ⟨fun same => same.exists_order, ?_⟩, fun order fits => ⟨⟨?_, ?_⟩, ?_⟩⟩
  · rintro ⟨order, fits, rfl⟩
    exact inOrder_rearranges fits
  · exact (inOrder_rearranges fits).symm.passes
  · exact (inOrder_rearranges fits).passes
  · exact fun tp scope => check_inOrder fits

/-- Two classes that make and use each other's objects. -/
def Program.ring : Program where
  globals := [⟨"a", .object "A", .none⟩, ⟨"n", .int, .int 3⟩]
  classes := [
    { name := "A"
      fields := [⟨"b", .object "B", .none⟩, ⟨"n", .int, .int 0⟩]
      methods := [
        { name := constructorName
          params := [⟨"self", .object "A"⟩]
          ret := .none
          definitions := []
          statements := [.assign (.field (.var "self") "b") (.call "B" [])] },
        { name := "sum"
          params := [⟨"self", .object "A"⟩]
          ret := .int
          definitions := []
          statements := [.give (.binary .add (.field (.id "self") "n")
            (.methodCall (.field (.id "self") "b") "get" []))] }] },
    { name := "B"
      fields := [⟨"n", .int, .int 4⟩]
      methods := [
        { name := "get"
          params := [⟨"self", .object "B"⟩]
          ret := .int
          definitions := []
          statements := [.give (.field (.id "self") "n")] },
        { name := "owner"
          params := [⟨"self", .object "B"⟩]
          ret := .object "A"
          definitions := []
          statements := [.give (.id "a")] }] }]
  body := [
    .assign (.var "a") (.call "A" []),
    .expr (.binary .add (.id "n") (.methodCall (.id "a") "sum" []))]

/-- Everything the other way round. -/
def Program.ringReversed : DeclarationOrder where
  globals := [1, 0]
  classes := [1, 0]
  members := [⟨[1, 0], [1, 0]⟩, ⟨[0], [1, 0]⟩]

theorem Program.check_any_order_ring :
    ∃ tp scope, ringReversed.Fits ring ∧ ring.check = .ok (tp, scope) ∧
      (ring.inOrder ringReversed).check = .ok (tp.inOrder ringReversed, scope) ∧
      tp.inOrder ringReversed ≠ tp := by
  have fits : ringReversed.Fits ring :=
    ⟨by decide, by decide, .cons ⟨by decide, by decide⟩ (.cons ⟨by decide, by decide⟩ .nil)⟩
  obtain ⟨⟨tp, scope⟩, accepted⟩ : ∃ r, ring.check = .ok r := ⟨_, rfl⟩
  refine ⟨tp, scope, fits, accepted, ((check_any_order ring).2 _ fits).2 tp scope accepted, ?_⟩
  intro same
  have names := congrArg (fun t : Typed.Program => t.classes.map (·.name)) same
  cases accepted
  exact absurd names (by decide)

end Source

end ClassLang
