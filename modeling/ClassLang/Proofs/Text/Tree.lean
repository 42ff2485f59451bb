/-
Words in nested groups.

No sequence of tokens belongs to two lists of trees: where a group begins and where it ends can be
seen from the parentheses alone.  The first word of a group says what kind of thing it stands for,
and so a list that is put together from groups of several kinds can be taken apart again.
-/
import ClassLang.Proofs.Text.Tokens
import Mathlib.Data.List.Basic

namespace ClassLang
namespace Text

inductive Tree where
  | word (text : String)
  | group (parts : List Tree)

namespace Tree

mutual

def tokens : Tree → List Token
  | .word text => [.word text]
  | .group parts => .opening :: (tokensAll parts ++ [.closing])
termination_by structural t => t

def tokensAll : List Tree → List Token
  | [] => []
  | t :: rest => t.tokens ++ tokensAll rest
termination_by structural ts => ts

end

theorem tokensAll_append (ts us : List Tree) :
    tokensAll (ts ++ us) = tokensAll ts ++ tokensAll us := by
  induction ts with
  | nil => rfl
  | cons t ts ih => rw [List.cons_append, tokensAll, tokensAll, ih, List.append_assoc]

theorem tokensAll_map {α : Type} (tree : α → Tree) (l : List α) :
    tokensAll (l.map tree) = l.flatMap fun a => (tree a).tokens := by
  induction l with
  | nil => rfl
  | cons a l ih => rw [List.map_cons, tokensAll, ih, List.flatMap_cons]

theorem tokensAll_words (ws : List String) :
    tokensAll (ws.map .word) = ws.map Token.word := by
  rw [tokensAll_map]
  exact List.map_eq_flatMap.symm

/-! ## Tokens determine trees -/

theorem tokens_group_append (parts : List Tree) (rest : List Token) :
    (group parts).tokens ++ rest = .opening :: (tokensAll parts ++ .closing :: rest) := by
  rw [tokens, List.cons_append, List.append_assoc, List.singleton_append]

/-- A tree does not start with the end of a group. -/
theorem tokens_append_ne_closing (t : Tree) (rest rest' : List Token) :
    t.tokens ++ rest ≠ .closing :: rest' := by
  cases t <;> nofun

mutual

theorem tokens_append_inj {t u : Tree} {rest rest' : List Token}
    (same : t.tokens ++ rest = u.tokens ++ rest') : t = u ∧ rest = rest' := by
  cases t with
  | word text =>
    cases u with
    | word text' =>
      cases same
      exact ⟨rfl, rfl⟩
    | group parts' => cases same
  | group parts =>
    cases u with
    | word text' => cases same
    | group parts' =>
      rw [tokens_group_append, tokens_group_append] at same
      obtain ⟨rfl, rfl⟩ := tokensAll_closing_inj (List.cons.inj same).2
      exact ⟨rfl, rfl⟩

/-- The end of a group is the first closing that no tree takes. -/
theorem tokensAll_closing_inj {ts us : List Tree} {rest rest' : List Token}
    (same : tokensAll ts ++ .closing :: rest = tokensAll us ++ .closing :: rest') :
    ts = us ∧ rest = rest' := by
  cases ts with
  | nil =>
    cases us with
    | nil => exact ⟨rfl, (List.cons.inj same).2⟩
    | cons u us =>
      rw [tokensAll, tokensAll, List.append_assoc] at same
      exact absurd same.symm (tokens_append_ne_closing u _ _)
  | cons t ts =>
    cases us with
    | nil =>
      rw [tokensAll, tokensAll, List.append_assoc] at same
      exact absurd same (tokens_append_ne_closing t _ _)
    | cons u us =>
      rw [tokensAll, tokensAll, List.append_assoc, List.append_assoc] at same
      obtain ⟨rfl, others⟩ := tokens_append_inj same
      obtain ⟨rfl, rfl⟩ := tokensAll_closing_inj others
      exact ⟨rfl, rfl⟩

end

/-! ## Groups of several kinds -/

/-- The word that a group starts with; empty for what has none. -/
def keyword : Tree → String
  | .group (.word text :: _) => text
  | _ => ""

/-- The trees with this keyword. -/
def under (key : String) (ts : List Tree) : List Tree := ts.filter (·.keyword = key)

theorem under_append (key : String) (ts us : List Tree) :
    under key (ts ++ us) = under key ts ++ under key us := List.filter_append _ _

/-- Trees of one kind are taken together or left. -/
theorem under_of_keyword {kind : String} {ts : List Tree} (all : ∀ t ∈ ts, t.keyword = kind)
    (key : String) : under key ts = if kind = key then ts else [] := by
  split
  · next same =>
    exact List.filter_eq_self.2 fun t mem => decide_eq_true ((all t mem).trans same)
  · next other =>
    refine List.filter_eq_nil_iff.2 fun t mem => ?_
    rw [all t mem]
    simpa using other

end Tree
end Text
end ClassLang
