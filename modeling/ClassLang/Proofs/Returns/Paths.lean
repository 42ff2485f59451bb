/-
Paths through statements and through code.

A path is the list of what is executed along it, with every branch taken either way, whatever its
condition.  It ends behind the first return, or else at the end of what it leads through.
-/
import ClassLang.Proofs.Stack.Height
import ClassLang.Source
import Mathlib.Data.List.Basic

namespace ClassLang

section Sequence

variable {α : Type} (ends : α → Bool)

/-- The paths through one piece and then through another: a path that has come to its end goes no
further. -/
def pathsThrough (first second : List (List α)) : List (List α) :=
  first.flatMap fun path => if path.any ends then [path] else second.map (path ++ ·)

/-- None of these paths gets to the end of the piece that they lead through. -/
def AllEnd (paths : List (List α)) : Prop := ∀ path ∈ paths, path.any ends = true

variable {ends} {first second third : List (List α)}

/-- Behind paths that all end there is nothing to be seen. -/
theorem pathsThrough_eq_left (h : AllEnd ends first) : pathsThrough ends first second = first := by
  unfold pathsThrough
  induction first with
  | nil => rfl
  | cons path paths ih =>
    obtain ⟨head, rest⟩ := List.forall_mem_cons.1 h
    rw [List.flatMap_cons, if_pos head, ih rest]
    rfl

theorem allEnd_pathsThrough (h : AllEnd ends second) :
    AllEnd ends (pathsThrough ends first second) := by
  intro path mem
  obtain ⟨start, -, mem⟩ := List.mem_flatMap.1 mem
  split at mem
  · next ended =>
    rw [List.mem_singleton.1 mem]
    exact ended
  · obtain ⟨rest, hrest, rfl⟩ := List.mem_map.1 mem
    rw [List.any_append, h rest hrest, Bool.or_true]

theorem pathsThrough_nil_right : pathsThrough ends first [[]] = first := by
  unfold pathsThrough
  induction first with
  | nil => rfl
  | cons path paths ih =>
    have alone : (if path.any ends then [path] else [[]].map (path ++ ·)) = [path] := by
      split
      · rfl
      · rw [List.map_singleton, List.append_nil]
    rw [List.flatMap_cons, alone, ih]
    rfl

theorem pathsThrough_assoc :
    pathsThrough ends (pathsThrough ends first second) third =
      pathsThrough ends first (pathsThrough ends second third) := by
  unfold pathsThrough
  rw [List.flatMap_assoc]
  refine List.flatMap_congr fun path _ => ?_
  by_cases ended : path.any ends = true
  · simp only [ended, if_true, List.flatMap_singleton]
  · rw [if_neg ended, if_neg ended, List.flatMap_map, List.map_flatMap]
    refine List.flatMap_congr fun rest _ => ?_
    rw [List.any_append, (Bool.not_eq_true _).mp ended, Bool.false_or]
    split
    · rfl
    · rw [List.map_map]
      exact List.map_congr_left fun last _ => List.append_assoc ..

end Sequence

/-! ## Statements -/

namespace Source

def Stmt.isRet : Stmt → Bool
  | .ret _ => true
  | _ => false

mutual

def Stmt.paths : Stmt → List (List Stmt)
  | .branch arm => arm.paths
  | s => [[s]]
termination_by structural s => s

/-- An arm without a condition is always entered. -/
def Arm.paths : Arm → List (List Stmt)
  | .mk none body _ => Stmt.pathsOf body
  | .mk (some _) body alternative => Stmt.pathsOf body ++ Arm.alternativePaths alternative
termination_by structural a => a

def Arm.alternativePaths : Option Arm → List (List Stmt)
  | none => [[]]
  | some arm => arm.paths
termination_by structural a => a

def Stmt.pathsOf : List Stmt → List (List Stmt)
  | [] => [[]]
  | s :: rest => pathsThrough Stmt.isRet s.paths (Stmt.pathsOf rest)
termination_by structural ss => ss

end

/-- Every path through the statements returns. -/
def Stmt.Return (stmts : List Stmt) : Prop := AllEnd Stmt.isRet (Stmt.pathsOf stmts)

theorem Stmt.return_of_mem {s : Stmt} {stmts : List Stmt} (mem : s ∈ stmts)
    (h : AllEnd Stmt.isRet s.paths) : Stmt.Return stmts := by
  induction stmts with
  | nil => cases mem
  | cons first rest ih =>
    unfold Stmt.Return
    rw [Stmt.pathsOf]
    rcases List.mem_cons.1 mem with rfl | mem
    · rw [pathsThrough_eq_left h]
      exact h
    · exact allEnd_pathsThrough (ih mem)

end Source

/-! ## Code -/

mutual

def Instr.paths : Instr → List (List Instr)
  | .branch yes no =>
    (Code.paths yes ++ Code.alternativePaths no).map (Instr.branch yes no :: ·)
  | i => [[i]]
termination_by structural i => i

def Code.paths : List Instr → List (List Instr)
  | [] => [[]]
  | i :: rest => pathsThrough Instr.isRet i.paths (Code.paths rest)
termination_by structural code => code

def Code.alternativePaths : Option (List Instr) → List (List Instr)
  | none => [[]]
  | some code => Code.paths code
termination_by structural no => no

end

namespace Code

/-- Every path through the code returns. -/
def Returns (code : Code) : Prop := AllEnd Instr.isRet (paths code)

theorem paths_append (first second : Code) :
    paths (first ++ second) = pathsThrough Instr.isRet (paths first) (paths second) := by
  induction first with
  | nil =>
    rw [List.nil_append, paths, pathsThrough, List.flatMap_singleton]
    exact (List.map_id _).symm
  | cons i rest ih => rw [List.cons_append, paths, paths, ih, pathsThrough_assoc]

/-- Only the path that leaves the arm alone gets behind it. -/
example : paths [.branch [.ret] none, .nop] =
    [[.branch [.ret] none, .ret], [.branch [.ret] none, .nop]] := rfl

theorem paths_singleton (i : Instr) : paths [i] = i.paths := by
  rw [paths, paths, pathsThrough_nil_right]

theorem returns_ret : Returns [.ret] := by
  intro path mem
  rw [paths_singleton, Instr.paths] at mem
  · rw [List.mem_singleton.1 mem]
    rfl
  · exact fun _ _ => Instr.noConfusion

theorem returns_branch {yes no : Code} (hyes : Returns yes) (hno : Returns no) :
    Returns [.branch yes (some no)] := by
  intro path mem
  rw [paths_singleton, Instr.paths, alternativePaths] at mem
  obtain ⟨inner, hinner, rfl⟩ := List.mem_map.1 mem
  have ended : inner.any Instr.isRet = true := by
    rcases List.mem_append.1 hinner with first | second
    · exact hyes inner first
    · exact hno inner second
  rw [List.any_cons, ended, Bool.or_true]

namespace Returns

/-- Nothing gets behind code that always returns. -/
theorem paths_eq {first : Code} (h : Returns first) (second : Code) :
    paths (first ++ second) = paths first := by
  rw [paths_append, pathsThrough_eq_left h]

theorem append_left {first : Code} (h : Returns first) (second : Code) :
    Returns (first ++ second) := by
  unfold Returns
  rw [h.paths_eq]
  exact h

theorem append_right {second : Code} (h : Returns second) (first : Code) :
    Returns (first ++ second) := by
  unfold Returns
  rw [paths_append]
  exact allEnd_pathsThrough h

end Returns

end Code
end ClassLang
