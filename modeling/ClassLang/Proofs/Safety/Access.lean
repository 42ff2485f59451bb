/-
Objects in the code of a body: how they are looked at, read and written.

Behind a guard an object is there, so the address that a field access goes to is that of a slot.
-/
import ClassLang.Proofs.Safety.Step

namespace ClassLang

open Machine (Frame History Outcome State Store)

namespace Watch

variable {W : Watch} {place : Place} {base filled n : Nat} {code rest : Code} {stack : List Int32}
  {s : State} {h : History} {Q : State → History → Prop}

/-- The word of a slot, as long as addresses are words. -/
theorem Allowed.toNat_slot (allowed : W.Allowed h) {a : Nat} {f : VarDef}
    (slot : W.program.IsSlot h.called a f) :
    (addressWord a).toUInt32.toNat = a ∧ addressWord a ≠ 0 := by
  have low := slot.four_le
  have high := slot.add_le_heapTop W.checked
  have room := allowed.room
  have lt : a < 2 ^ 32 := by omega
  exact ⟨toNat_addressWord lt, addressWord_ne_zero lt (by omega)⟩

namespace Here

/-- A store to a slot.  If the slot is the first that has not been filled, there is one less of
those. -/
theorem store {a w : Int32} {filled' : Nat}
    (here : W.Here place base filled (.store :: code) (w :: a :: stack) s h) (ahead : rest <:+ code)
    (settled : (∃ c ∈ W.program.classes, place.func = constructorSymbol c.name) ∨
      filled' = filled)
    (slot : W.typed → ∃ b f, a = addressWord b ∧ W.program.IsSlot h.called b f ∧
      W.program.Fits h.called f.ty w ∧ filled ≤ filled' ∧ b + 4 ≤ filled' ∧
        ∀ d g, W.program.IsSlot h.called d g → d + 4 ≤ filled' → d = b ∨ d + 4 ≤ filled)
    (go : ∀ t stored, W.Here place base filled' code stack t { h with stored } →
      W.Keeps place.callers rest Q n t { h with stored }) :
    W.Keeps place.callers rest Q n s h := by
  refine Machine.Keeps.next (here.ready ahead (fun typed allowed => ?_) fun k x back => ?_)
    fun allowed t step => ?_
  · obtain ⟨b, f, rfl, isSlot, fits, -⟩ := slot typed
    obtain ⟨same, present⟩ := allowed.toNat_slot isSlot
    refine ⟨present, f, ?_, fits⟩
    rwa [same]
  · cases here.eq_ret back
  · obtain ⟨locals, store, rfl, holds⟩ := here
    have stepped : (if a.toUInt32.toNat + 4 ≤ store.memory.size then
        Outcome.next ⟨⟨code, stack, locals, place.result⟩, place.callers,
          { store with memory := store.memory.putWord a.toUInt32.toNat w }⟩
      else .trapped store) = .next t := step
    split at stepped
    · cases stepped
      refine go _ (h.stored ++ [a.toUInt32.toNat]) ⟨locals, _, rfl, holds.active, holds.func, ?_,
        holds.free, fun typed => ?_⟩
      · rcases settled with made | same
        · exact Or.inl made
        · rw [same]
          exact holds.settled
      · obtain ⟨b, f, rfl, isSlot, fits, more, below, others⟩ := slot typed
        rw [(allowed.toNat_slot isSlot).1]
        exact (holds.held typed).setSlot isSlot fits more below others
    · cases stepped

end Here

namespace At

/-- Where types count, the trap does not return. -/
theorem trap (here : W.At place (.call Host.trapName 0 false :: code) stack s h)
    (ahead : rest <:+ code)
    (go : ∀ t, W.At place code stack t h → ¬W.typed → W.Keeps place.callers rest Q n t h) :
    W.Keeps place.callers rest Q n s h := by
  refine here.quiet rfl ahead fun t step => ?_
  obtain ⟨locals, store, rfl, holds⟩ := here
  have known : Host.import? Host.trapName = some ⟨Host.trapName, _, _, 0, false⟩ := rfl
  have stepped := (Machine.Reaches.step_hostCall known [] rfl).symm.trans step
  cases answer : W.host store.calls ⟨Host.trapName, []⟩ with
  | none => simp [answer] at stepped
  | some w =>
    simp only [answer, Bool.false_eq_true, if_false, Outcome.next.injEq] at stepped
    subst stepped
    have silent : Host.isPrinter Host.trapName = false := rfl
    simp only [History.after, known, silent, Option.isNone_some, Bool.false_and,
      Bool.false_eq_true, if_false, List.append_nil]
    refine go _ ⟨locals, _, rfl, holds.hear _ _⟩ fun typed => ?_
    rw [W.aborts typed] at answer
    cases answer

/-- An object that is there stays on the stack. -/
theorem guard {w : Int32} (here : W.At place (guardAbsent ++ code) (w :: stack) s h)
    (ahead : rest <:+ code)
    (go : ∀ t, W.At place code (w :: stack) t h → (W.typed → w ≠ 0) →
      W.Keeps place.callers rest Q n t h) : W.Keeps place.callers rest Q n s h := by
  obtain ⟨locals, store, rfl, holds⟩ := here
  have holds' := holds.scratch w
  let now (c : Code) (ws : List Int32) : State :=
    ⟨⟨c, ws, locals.insert scratch w, place.result⟩, place.callers, store⟩
  have there (c : Code) (ws : List Int32) : W.At place c ws (now c ws) h :=
    ⟨_, store, rfl, holds'⟩
  have get (c : Code) (ws : List Int32) :
      (now (.localGet scratch :: c) ws).step W.target W.host = .next (now c (w :: ws)) := by
    have kept : (locals.insert scratch w).get? scratch = some w := by
      rw [Table.get?_insert, if_pos rfl]
    simp only [now, State.step, State.exec, State.setCode, kept]
    rfl
  have behind (front : Code) : rest <:+ front ++ code := ahead.trans (List.suffix_append _ _)
  let look : Code := [.branch [.call Host.trapName 0 false] none]
  refine Here.quiet_to ⟨_, store, rfl, holds⟩ rfl (behind ([_, _, _, _] ++ look))
    (t := now ([.localGet scratch, .const 0, .localGet scratch, .eq] ++ look ++ code) stack)
    rfl rfl ?_
  refine (there _ _).quiet_to rfl (behind ([_, _, _] ++ look)) (get _ _) rfl ?_
  refine (there _ _).quiet_to rfl (behind ([_, _] ++ look))
    (t := now ([.localGet scratch, .eq] ++ look ++ code) (0 :: w :: stack)) rfl rfl ?_
  refine (there _ _).quiet_to rfl (behind ([_] ++ look)) (get _ _) rfl ?_
  refine (there _ _).binary rfl (behind look) fun t x compared here => ?_
  cases compared
  refine here.branch ahead fun t here => ?_
  by_cases absent : w = 0
  · have looked : (Machine.bit (decide ((0 : Int32) = w)) ≠ 0) := by
      rw [absent]
      decide
    rw [if_pos looked] at here
    exact trap here ahead fun t here aborted => go t here fun typed => absurd typed aborted
  · have looked : ¬(Machine.bit (decide ((0 : Int32) = w)) ≠ 0) := by
      rw [decide_eq_false (Ne.symm absent)]
      decide
    rw [if_neg looked] at here
    exact go t here fun _ => absent

theorem fieldAddress {func : String} {scope : Scope} {own : List Param}
    (body : W.Body func scope own) {cls field : String} {info : ClassInfo} {ty : Ty}
    (found : scope.classes.get? cls = some info) (declared : info.fields.get? field = some ty)
    {address : Code} (lowered : scope.fieldAddress (.object cls) field = .ok address) {w : Int32}
    (fits : W.typed → W.program.Fits h.called (.object cls) w)
    (here : W.At place (address ++ code) (w :: stack) s h) (ahead : rest <:+ code)
    (go : ∀ t a, W.At place code (a :: stack) t h → (W.typed → W.program.PointsTo h.called ty a) →
      W.Keeps place.callers rest Q n t h) : W.Keeps place.callers rest Q n s h := by
  obtain ⟨c, mem, rfl, laid, offset, lies, i, f, hf, -, rfl, eq⟩ :=
    W.exists_slot (body.classes ▸ found) declared
  cases (Scope.fieldAddress_of_found found laid lies).symm.trans lowered
  rw [List.append_assoc] at here
  have ahead' : rest <:+ .add :: code := ahead.trans (List.suffix_cons _ _)
  refine here.guard (ahead'.trans (List.suffix_cons _ _)) fun t here present => ?_
  refine here.const ahead' fun t here => ?_
  refine here.binary rfl ahead fun t a sum here => go t a here fun typed => ?_
  rcases fits typed with absent | ⟨k, made, rfl⟩
  · exact absurd absent (present typed)
  · refine ⟨W.program.handle h.called k + 4 * i, f, ⟨c, mem, k, i, made, hf, rfl⟩, rfl, ?_⟩
    rw [← addressWord_add, ← eq]
    exact (Option.some.inj sum).symm

/-- Every slot has been filled, so what is loaded from it has its type. -/
theorem load {ty : Ty} {a : Int32} (points : W.typed → W.program.PointsTo h.called ty a)
    (here : W.At place (.load :: code) (a :: stack) s h) (ahead : rest <:+ code)
    (go : ∀ t w, W.At place code (w :: stack) t h → (W.typed → W.program.Fits h.called ty w) →
      W.Keeps place.callers rest Q n t h) : W.Keeps place.callers rest Q n s h := by
  refine Machine.Keeps.next (here.ready ahead (fun typed allowed => ?_) fun k x back => ?_)
    fun allowed t step => ?_
  · obtain ⟨locals, store, rfl, holds⟩ := here
    obtain ⟨b, f, slot, -, rfl⟩ := points typed
    obtain ⟨same, present⟩ := allowed.toNat_slot slot
    have filled := (holds.held typed).slots b f slot (slot.add_le_heapTop W.checked)
    refine ⟨present, f, ?_, ?_⟩
    · rwa [same]
    · rw [same]
      exact filled.1
  · cases here.eq_ret back
  · obtain ⟨locals, store, rfl, holds⟩ := here
    have stepped : (if a.toUInt32.toNat + 4 ≤ store.memory.size then
        Outcome.next ⟨⟨code, store.memory.word a.toUInt32.toNat :: stack, locals, place.result⟩,
          place.callers, store⟩
      else .trapped store) = .next t := step
    split at stepped
    · cases stepped
      refine go _ _ ⟨locals, store, rfl, holds⟩ fun typed => ?_
      obtain ⟨b, f, slot, rfl, rfl⟩ := points typed
      rw [(allowed.toNat_slot slot).1]
      exact ((holds.held typed).slots b f slot (slot.add_le_heapTop W.checked)).2
    · cases stepped

theorem store {ty : Ty} {a w : Int32} (points : W.typed → W.program.PointsTo h.called ty a)
    (fits : W.typed → W.program.Fits h.called ty w)
    (here : W.At place (.store :: code) (w :: a :: stack) s h) (ahead : rest <:+ code)
    (go : ∀ t stored, W.At place code stack t { h with stored } →
      W.Keeps place.callers rest Q n t { h with stored }) :
    W.Keeps place.callers rest Q n s h := by
  refine Here.store here ahead (Or.inr rfl) (fun typed => ?_) go
  obtain ⟨b, f, slot, rfl, rfl⟩ := points typed
  exact ⟨b, f, rfl, slot, fits typed, Nat.le_refl _, slot.add_le_heapTop W.checked,
    fun _ _ _ below => Or.inr below⟩

end At
end Watch
end ClassLang
