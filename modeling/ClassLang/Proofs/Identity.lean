/-
Which references are the same.

A reference is an address, and an object without fields takes up no addresses.  So two calls of
constructor functions hand back one and the same reference exactly if nothing that is made from the
one call up to the other has a field.
-/
import ClassLang.Proofs.Safety.Program

namespace ClassLang

open Machine (History State)

namespace Typed

/-- Nothing that is made from one of two calls up to the other takes up room. -/
def Program.Coincide (p : Program) (called : List String) (k k' : Nat) : Prop :=
  ∀ j, min k k' ≤ j → j < max k k' →
    ∀ c ∈ p.classes, called[j]? = some (constructorSymbol c.name) → c.fields = []

variable {p : Program} {scope : Scope} {called : List String} {k k' : Nat}

theorem Program.Coincide.symm (coincide : p.Coincide called k k') : p.Coincide called k' k := by
  intro j low high
  rw [Nat.min_comm] at low
  rw [Nat.max_comm] at high
  exact coincide j low high

theorem Program.Checked.handle_eq_iff_coincide_of_le (checked : p.Checked scope) (le : k ≤ k')
    (bound : k' ≤ called.length) :
    p.handle called k = p.handle called k' ↔ p.Coincide called k k' := by
  rw [Program.handle_eq_iff le bound, Program.Coincide, Nat.min_eq_left le, Nat.max_eq_right le]
  constructor
  · intro empty j low high c mem found
    exact checked.bytesOf_eq_zero.1 (empty j low high _ found) c mem rfl
  · intro coincide j low high func found
    refine checked.bytesOf_eq_zero.2 fun c mem named => ?_
    exact coincide j low high c mem (named ▸ found)

theorem Program.Checked.handle_eq_iff_coincide (checked : p.Checked scope)
    (bound : k ≤ called.length) (bound' : k' ≤ called.length) :
    p.handle called k = p.handle called k' ↔ p.Coincide called k k' := by
  rcases Nat.le_total k k' with le | le
  · exact checked.handle_eq_iff_coincide_of_le le bound'
  · rw [eq_comm, checked.handle_eq_iff_coincide_of_le le bound]
    exact ⟨.symm, .symm⟩

/-- As long as addresses are words, the words of two objects are the same if their addresses are. -/
theorem Program.Checked.word_eq_iff_coincide (checked : p.Checked scope)
    (room : p.heapTop called ≤ 2 ^ 32) (bound : k ≤ called.length) (bound' : k' ≤ called.length) :
    addressWord (p.handle called k) = addressWord (p.handle called k') ↔
      p.Coincide called k k' := by
  have low := Program.four_le_handle (p := p) called k
  have low' := Program.four_le_handle (p := p) called k'
  have high : p.handle called k ≤ p.heapTop called := by
    rw [← Program.handle_length]
    exact Program.handle_le bound
  have high' : p.handle called k' ≤ p.heapTop called := by
    rw [← Program.handle_length]
    exact Program.handle_le bound'
  rw [addressWord_eq_iff (by omega) (by omega)]
  exact checked.handle_eq_iff_coincide bound bound'

end Typed

namespace Source

variable {p : Program} {tp : Typed.Program} {scope : Scope}

/-- On every host, two calls of constructor functions hand back the same reference exactly if they
coincide, and that is when `is` finds the references of two calls to be the same. -/
theorem Program.same_reference_iff (accepted : p.check = .ok (tp, scope))
    (plain : ∀ name ∈ p.names, Plain name) :
    ∃ m, p.toModule = .ok m ∧ ∀ host memory s h s' h',
      (State.start m memory).Leads m host .start s h → s.Leads m host h s' h' →
        tp.heapTop h'.called ≤ 2 ^ 32 →
          (∀ k k' w w', tp.HandsBack s h k w → tp.HandsBack s' h' k' w' →
            (w = w' ↔ tp.Coincide h'.called k k')) ∧
          ∀ k k' code stack, k < h'.called.length → k' < h'.called.length →
            s'.frame.code = BinOp.is.instr :: code →
              s'.frame.stack = addressWord (tp.handle h'.called k') ::
                addressWord (tp.handle h'.called k) :: stack →
              ∃ t w, s'.step m host = .next t ∧ t.frame.stack = w :: stack ∧
                (w = 0 ∨ w = 1) ∧ (w = 1 ↔ tp.Coincide h'.called k k') := by
  obtain ⟨S, rfl, -, -, compiled⟩ := exists_compiled accepted plain
  refine ⟨S.target, compiled, fun host memory s h s' h' leads later room => ⟨?_, ?_⟩⟩
  · intro k k' w w' back back'
    let W : Watch := ⟨S, host, False, False.elim⟩
    have allowed : W.Allowed h' := ⟨room, False.elim⟩
    have begins := later.begins
    obtain ⟨c, -, found⟩ := back.made
    obtain ⟨c', -, found'⟩ := back'.made
    have bound : k < h.called.length := (List.getElem?_eq_some_iff.1 found).1
    have bound' : k' < h'.called.length := (List.getElem?_eq_some_iff.1 found').1
    have grown : h.called.length ≤ h'.called.length := begins.called.length_le
    have word := (Watch.proper_of_leads (W := W) leads (allowed.down begins)).handle k w back
    have word' :=
      (Watch.proper_of_leads (W := W) (leads.trans later) allowed).handle k' w' back'
    have same : W.program.handle h'.called k = W.program.handle h.called k :=
      Typed.Program.handle_of_prefix begins.called (Nat.le_of_lt bound)
    rw [word, word', ← same]
    exact S.checked.word_eq_iff_coincide room (by omega) (Nat.le_of_lt bound')
  · intro k k' code stack bound bound' code_eq stack_eq
    obtain ⟨⟨_, _, locals, result⟩, callers, store⟩ := s'
    cases code_eq
    cases stack_eq
    have same := S.checked.word_eq_iff_coincide room (Nat.le_of_lt bound) (Nat.le_of_lt bound')
    refine ⟨_, Machine.bit (decide (addressWord (S.program.handle h'.called k) =
      addressWord (S.program.handle h'.called k'))), rfl, rfl, Machine.bit_cases _, ?_⟩
    rw [Machine.bit_eq_one_iff, decide_eq_true_iff]
    exact same

/-- A class with these fields, and whether two objects of it are the same. -/
def Program.twins (fields : List VarDef) : Program where
  globals := []
  classes := [{ name := "C", fields, methods := [] }]
  body := [.expr (.binary .is (.call "C" []) (.call "C" []))]

/-- With a field, the two objects are at 4 and at 8. -/
theorem Program.same_reference_iff_twins :
    ∃ tp scope m, (twins [⟨"n", .int, .int 0⟩]).check = .ok (tp, scope) ∧
      (∀ name ∈ (twins [⟨"n", .int, .int 0⟩]).names, Plain name) ∧
      (twins [⟨"n", .int, .int 0⟩]).toModule = .ok m ∧
      ∃ s h s' h', (State.start m .blank).Leads m (.answering 0) .start s h ∧
        s.Leads m (.answering 0) h s' h' ∧ tp.heapTop h'.called ≤ 2 ^ 32 ∧
          tp.HandsBack s h 1 4 ∧ tp.HandsBack s' h' 2 8 ∧
            ((4 : Int32) = 8 ↔ tp.Coincide h'.called 1 2) := by
  have plain : ∀ name ∈ (twins [⟨"n", .int, .int 0⟩]).names, Plain name := by decide
  have seen : (twins [⟨"n", .int, .int 0⟩]).observe (.answering 0) 11 (fun tp m s h =>
      (State.follow m (.answering 0) 12 s h).any fun r => decide
        (tp.heapTop r.2.called ≤ 2 ^ 32 ∧ tp.HandsBack s h 1 4 ∧ tp.HandsBack r.1 r.2 2 8)) =
      some true := by
    decide +kernel
  obtain ⟨⟨tp, scope⟩, accepted⟩ : ∃ r, (twins [⟨"n", .int, .int 0⟩]).check = .ok r := ⟨_, rfl⟩
  obtain ⟨m, compiled, same⟩ := same_reference_iff accepted plain
  obtain ⟨s, h, leads, found⟩ := leads_of_observe accepted compiled seen
  obtain ⟨⟨s', h'⟩, follow, holds⟩ := (Option.any_eq_true _ _).1 found
  obtain ⟨room, back, back'⟩ := of_decide_eq_true holds
  have later := State.Leads.of_follow follow
  have both := (same _ _ s h s' h' leads later room).1 1 2 4 8 back back'
  exact ⟨tp, scope, m, accepted, plain, compiled, s, h, s', h', leads, later, room, back, back',
    both⟩

/-- Without a field, two calls hand back 4 and `is` finds the two objects to be the same. -/
theorem Program.twins_without_fields_same :
    ∃ tp scope m, (twins []).check = .ok (tp, scope) ∧
      (∀ name ∈ (twins []).names, Plain name) ∧ (twins []).toModule = .ok m ∧
      ∃ s h s' h' t h'', (State.start m .blank).Leads m (.answering 0) .start s h ∧
        s.Leads m (.answering 0) h s' h' ∧ s'.Leads m (.answering 0) h' t h'' ∧
          tp.heapTop h''.called ≤ 2 ^ 32 ∧
            tp.HandsBack s h 1 4 ∧ tp.HandsBack s' h' 2 4 ∧ t.frame.stack = [1] := by
  have plain : ∀ name ∈ (twins []).names, Plain name := by decide
  have seen : (twins []).observe (.answering 0) 6 (fun tp m s h =>
      (State.follow m (.answering 0) 7 s h).any fun r =>
        (State.follow m (.answering 0) 2 r.1 r.2).any fun last => decide
          (tp.heapTop last.2.called ≤ 2 ^ 32 ∧ tp.HandsBack s h 1 4 ∧ tp.HandsBack r.1 r.2 2 4 ∧
            last.1.frame.stack = [1])) =
      some true := by
    decide +kernel
  obtain ⟨⟨tp, scope⟩, accepted⟩ : ∃ r, (twins []).check = .ok r := ⟨_, rfl⟩
  obtain ⟨laid, m, -, -, -, compiled⟩ := toModule_ok accepted
  obtain ⟨s, h, leads, found⟩ := leads_of_observe accepted compiled seen
  obtain ⟨⟨s', h'⟩, follow, found⟩ := (Option.any_eq_true _ _).1 found
  obtain ⟨⟨t, h''⟩, follow', holds⟩ := (Option.any_eq_true _ _).1 found
  obtain ⟨room, back, back', answer⟩ := of_decide_eq_true holds
  exact ⟨tp, scope, m, accepted, plain, compiled, s, h, s', h', t, h'', leads, .of_follow follow,
    .of_follow follow', room, back, back', answer⟩

end Source

end ClassLang
