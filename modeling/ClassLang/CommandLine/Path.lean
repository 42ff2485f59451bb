/-
Names of files beside other files.
-/

namespace ClassLang
namespace CommandLine

/-- A name without its last extension.  A name whose only dot comes first has none. -/
def stem (name : List Char) : List Char :=
  match (name.reverse.span (· ≠ '.')).2 with
  | _ :: before => if before.isEmpty then name else before.reverse
  | [] => name

/-- The path of a file next to the one at `path`, with another extension.  A name of which no more
than its first dot is left takes none: with its second dot it names the folder above. -/
def withExtension (path extension : String) : String :=
  let (name, folder) := path.toList.reverse.span (· ≠ '/')
  let kept := stem name.reverse
  String.ofList (folder.reverse ++ kept) ++ "." ++ if kept = ['.'] then "" else extension

end CommandLine
end ClassLang
