/-
Runs with their history.

A state does not say how it came about: which functions have been called and which of the calls its
frames are of, which addresses have been stored to, and what the printers of the host have answered.
A history keeps this beside the state.  It is an observer only: nothing in it decides what the
machine does.
-/
import ClassLang.Lowering.Expr
import ClassLang.Proofs.Machine.State

namespace ClassLang

/-- The functions of the host that print. -/
def Host.isPrinter (func : String) : Bool :=
  [Ty.int, .bool, .none, .any].any fun ty => printerOf ty = func

/-- Code that goes on by dropping the word on top of the stack. -/
def Code.drops : Code → Bool
  | .localSet name :: _ => name = scratch
  | _ => false

namespace Machine

structure History where
  /-- The functions of the module that have been called, in order.  The first is the entry. -/
  called : List String
  /-- The calls that the frames are of, innermost first, as places in `called`. -/
  active : List Nat
  /-- The addresses that have been stored to. -/
  stored : List Nat
  /-- The answers of printers that the code has not dropped at once. -/
  kept : List Int32
deriving Repr, DecidableEq

namespace History

def start : History := { called := [entryExport], active := [0], stored := [], kept := [] }

/-- A function of the module is called. -/
def enter (h : History) (func : String) : History :=
  { h with called := h.called ++ [func], active := h.called.length :: h.active }

/-- The history after the step from `s` to `t`. -/
def after (h : History) (s t : State) : History :=
  match s.frame.code with
  | [] | .ret :: _ => { h with active := h.active.tail }
  | .store :: _ =>
    { h with stored := h.stored ++ (s.frame.stack[1]?.map (·.toUInt32.toNat)).toList }
  | .call func _ _ :: rest =>
    if (Host.import? func).isNone then h.enter func
    else
      { h with
        kept := h.kept ++
          if Host.isPrinter func && !Code.drops rest then t.frame.stack.head?.toList else [] }
  | _ => h

/-- One history is the beginning of another, as far as calls and answers go. -/
structure Begins (h h' : History) : Prop where
  called : h.called <+: h'.called
  kept : h.kept <+: h'.kept

theorem Begins.refl (h : History) : h.Begins h := ⟨List.prefix_refl _, List.prefix_refl _⟩

theorem Begins.trans {h h' h'' : History} (first : h.Begins h') (second : h'.Begins h'') :
    h.Begins h'' :=
  ⟨first.called.trans second.called, first.kept.trans second.kept⟩

theorem begins_enter (h : History) (func : String) : h.Begins (h.enter func) :=
  ⟨List.prefix_append _ _, List.prefix_refl _⟩

theorem begins_after (h : History) (s t : State) : h.Begins (h.after s t) := by
  unfold after
  split
  · exact ⟨List.prefix_refl _, List.prefix_refl _⟩
  · exact ⟨List.prefix_refl _, List.prefix_refl _⟩
  · exact ⟨List.prefix_refl _, List.prefix_refl _⟩
  · split
    · exact h.begins_enter _
    · exact ⟨List.prefix_refl _, List.prefix_append _ _⟩
  · exact .refl h

end History

section

variable (m : Module) (host : HostFunctions)

/-- The machine gets from one state to another. -/
inductive State.Leads (s : State) (h : History) : State → History → Prop
  | refl : Leads s h s h
  | step {t u : State} {h' : History} (earlier : Leads s h t h') (next : t.step m host = .next u) :
    Leads s h u (h'.after t u)

/-- For the first time the machine has just `rest` to run, below no frames but `callers`. -/
inductive State.Completes (callers : List Frame) (rest : Code) :
    State → History → State → History → Prop
  | here {s : State} {h : History} (code : s.frame.code = rest) (same : s.callers = callers) :
    Completes callers rest s h s h
  | next {s t u : State} {h h' : History} (before : ¬(s.frame.code = rest ∧ s.callers = callers))
    (step : s.step m host = .next t) (later : Completes callers rest t (h.after s t) u h') :
    Completes callers rest s h u h'

/-- As long as the history satisfies `A`, the machine is in states with `P`, until it is in one with
`Q`.  This is looked at for so many steps only, so that calls may be gone into by induction. -/
def Keeps (A : History → Prop) (P Q : State → History → Prop) : Nat → State → History → Prop
  | 0, _, _ => True
  | n + 1, s, h => A h → Q s h ∨ P s h ∧
    ∀ t, s.step m host = .next t → Keeps A P Q n t (h.after s t)

/-- Makes so many steps, if the machine does not stop before. -/
def State.follow : Nat → State → History → Option (State × History)
  | 0, s, h => some (s, h)
  | n + 1, s, h =>
    match s.step m host with
    | .next t => State.follow n t (h.after s t)
    | _ => none

end

variable {m : Module} {host : HostFunctions}

/-! ## Runs -/

namespace State

variable {s t u : State} {h h' h'' : History}

theorem Leads.trans (first : s.Leads m host h t h') (second : t.Leads m host h' u h'') :
    s.Leads m host h u h'' := by
  induction second with
  | refl => exact first
  | step _ next ih => exact .step ih next

theorem Leads.begins (leads : s.Leads m host h t h') : h.Begins h' := by
  induction leads with
  | refl => exact .refl h
  | step _ _ ih => exact ih.trans (History.begins_after _ _ _)

theorem Completes.leads {callers : List Frame} {rest : Code}
    (completes : Completes m host callers rest s h t h') : s.Leads m host h t h' := by
  induction completes with
  | here => exact .refl
  | next _ step _ ih => exact (Leads.step .refl step).trans ih

theorem Leads.of_follow {n : Nat} (run : follow m host n s h = some (t, h')) :
    s.Leads m host h t h' := by
  induction n generalizing s h with
  | zero =>
    cases run
    exact .refl
  | succ n ih =>
    rw [follow] at run
    split at run
    · next u step => exact (Leads.step .refl step).trans (ih run)
    · cases run

end State

/-! ## What holds on the way -/

namespace Keeps

variable {A : History → Prop} {P P' Q Q' : State → History → Prop} {n : Nat} {s t : State}
  {h h' : History}

theorem of_le {k : Nat} (keeps : Keeps m host A P Q n s h) (le : k ≤ n) :
    Keeps m host A P Q k s h := by
  induction k generalizing n s h with
  | zero => trivial
  | succ k ih =>
    obtain ⟨n, rfl⟩ : ∃ n', n = n' + 1 := ⟨n - 1, by omega⟩
    intro allowed
    rcases keeps allowed with done | ⟨holds, next⟩
    · exact Or.inl done
    · exact Or.inr ⟨holds, fun t step => ih (next t step) (Nat.le_of_succ_le_succ le)⟩

theorem here (done : Q s h) : Keeps m host A P Q n s h := by
  cases n with
  | zero => trivial
  | succ n => exact fun _ => Or.inl done

/-- One step, with which the number of steps looked at goes down. -/
theorem succ (holds : A h → P s h)
    (next : A h → ∀ t, s.step m host = .next t → Keeps m host A P Q n t (h.after s t)) :
    Keeps m host A P Q (n + 1) s h :=
  fun allowed => Or.inr ⟨holds allowed, next allowed⟩

/-- One step, without regard to their number. -/
theorem next (holds : A h → P s h)
    (next : A h → ∀ t, s.step m host = .next t → Keeps m host A P Q n t (h.after s t)) :
    Keeps m host A P Q n s h := by
  cases n with
  | zero => trivial
  | succ n => exact succ holds fun allowed t step => (next allowed t step).of_le (Nat.le_succ n)

theorem assume (keeps : A h → Keeps m host A P Q n s h) : Keeps m host A P Q n s h := by
  cases n with
  | zero => trivial
  | succ n => exact fun allowed => keeps allowed allowed

theorem bind (keeps : Keeps m host A P Q n s h) (holds : ∀ t h', P t h' → P' t h')
    (rest : ∀ t h', Q t h' → Keeps m host A P' Q' n t h') : Keeps m host A P' Q' n s h := by
  induction n generalizing s h with
  | zero => trivial
  | succ n ih =>
    intro allowed
    rcases keeps allowed with done | ⟨here, next⟩
    · exact rest s h done allowed
    · refine Or.inr ⟨holds s h here, fun t step => ih (next t step) fun u h' done => ?_⟩
      exact (rest u h' done).of_le (Nat.le_succ n)

/-- What is kept for any number of steps holds along the run. -/
theorem along (keeps : ∀ n, Keeps m host A P Q n s h)
    (down : ∀ h h' : History, h.Begins h' → A h' → A h) (leads : s.Leads m host h t h')
    (allowed : A h') : (∃ u h'', u.Leads m host h'' t h' ∧ Q u h'') ∨ P t h' := by
  suffices (∃ u h'', u.Leads m host h'' t h' ∧ Q u h'') ∨
      ∀ n, Keeps m host A P Q n t h' by
    rcases this with done | keeps
    · exact Or.inl done
    · rcases keeps 1 allowed with done | ⟨holds, -⟩
      · exact Or.inl ⟨t, h', .refl, done⟩
      · exact Or.inr holds
  induction leads with
  | refl => exact Or.inr keeps
  | @step t u h' earlier next ih =>
    have before : A h' := down _ _ (History.begins_after h' t u) allowed
    rcases ih before with ⟨v, h'', leads, done⟩ | keeps
    · exact Or.inl ⟨v, h'', .step leads next, done⟩
    · by_cases done : Q t h'
      · exact Or.inl ⟨t, h', .step .refl next, done⟩
      · refine Or.inr fun n => ?_
        rcases keeps (n + 1) before with now | ⟨-, rest⟩
        · exact absurd now done
        · exact rest u next

/-- If `P` cannot hold where `rest` alone is left, and `Q` can hold nowhere else, `Q` holds
there. -/
theorem completes {callers : List Frame} {rest : Code} (keeps : ∀ n, Keeps m host A P Q n s h)
    (down : ∀ h h' : History, h.Begins h' → A h' → A h)
    (before : ∀ u h'', P u h'' → ¬(u.frame.code = rest ∧ u.callers = callers))
    (done : ∀ u h'', Q u h'' → u.frame.code = rest ∧ u.callers = callers)
    (completes : State.Completes m host callers rest s h t h') (allowed : A h') : Q t h' := by
  induction completes with
  | @here s h code same =>
    rcases keeps 1 allowed with now | ⟨holds, -⟩
    · exact now
    · exact absurd ⟨code, same⟩ (before _ _ holds)
  | @next s t u h h' notYet step later ih =>
    have start : A h := down _ _ ((History.begins_after h s t).trans later.leads.begins) allowed
    refine ih (fun n => ?_) allowed
    rcases keeps (n + 1) start with now | ⟨-, rest⟩
    · exact absurd (done _ _ now) notYet
    · exact rest t step

end Keeps
end Machine
end ClassLang
