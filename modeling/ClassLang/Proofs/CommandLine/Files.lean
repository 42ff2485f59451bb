/-
What a write leaves behind: the text at the place that its path names, and all other places as they
were.

A new file makes no new folder, since a path leads to a place only through folders that are there.
So the path leads to the same place afterwards.
-/
import ClassLang.CommandLine.Files
import ClassLang.Proofs.Except

namespace ClassLang
namespace Files

variable {files after : Files} {path text name : String} {place here next folder : List String}

/-! ## Putting a text somewhere -/

/-- The place where a text for a path is kept.  The null device keeps none. -/
def target? (files : Files) (path : String) : Option (List String) :=
  match outside? path with
  | some .folder | some .nullDevice => none
  | some (.newFile place) => some place
  | none => (files.locateNew path).toOption

/-- Whether a path takes texts. -/
def Writable (files : Files) (path : String) : Prop :=
  outside? path = some .nullDevice ∨ ∃ place, files.target? path = some place

end Files
end ClassLang
