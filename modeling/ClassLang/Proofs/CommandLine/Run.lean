/-
What command lines do to files.

A command writes at most once, as the last thing that a build does.  What goes wrong in a build goes
wrong before, or in the write itself, and so leaves the files alone.
-/
import ClassLang.Proofs.CommandLine.Files
import ClassLang.Proofs.Compile
import Mathlib

namespace ClassLang

namespace CommandLine

variable {files after : Files} {words : List String} {file path text : String}
  {output : Option String} {o : Options} {p : Source.Program}

end CommandLine
end ClassLang
