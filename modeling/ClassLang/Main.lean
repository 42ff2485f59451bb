/-
The command itself.
-/
import ClassLang.CommandLine.Run

namespace ClassLang
namespace CommandLine

/-- The system's words for a failure. -/
def describe : IO.Error → String
  | .noFileOrDirectory _ code _ => s!"No such file or directory (os error {code})"
  | .inappropriateType _ code details => s!"{details} (os error {code})"
  | .permissionDenied _ code _ => s!"Permission denied (os error {code})"
  | e => toString e

instance : Storage IO where
  read path := do
    try return .ok (← IO.FS.readFile path) catch e => return .error (describe e)
  write path text := do
    try return .ok (← IO.FS.writeFile path text) catch e => return .error (describe e)

end CommandLine
end ClassLang

def main (args : List String) : IO UInt32 := do
  let outcome ← ClassLang.CommandLine.run args
  (← IO.getStdout).putStr outcome.stdout
  (← IO.getStderr).putStr outcome.stderr
  return outcome.exit.toUInt32
