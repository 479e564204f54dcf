import ChangeWatch.CommandLine.Basic

/-!
The program itself: takes its arguments, reads the one file that a scenario lives in, prints the
result and ends with its status.
-/
namespace ChangeWatch.CommandLine

/-- What the path of a command leads to. -/
def readContent (path : String) : IO FileContent := do
  let file := System.mkFilePath [path]
  if !(← file.pathExists) || (← file.isDir) then return .missing
  else
    try return .text (← IO.FS.readFile file)
    catch _ => return .unreadable

end ChangeWatch.CommandLine

open ChangeWatch.CommandLine in
def main (arguments : List String) : IO UInt32 := do
  let chosen ← IO.getEnv strategyVariable
  let environment name := if name == strategyVariable then chosen else none
  let content ← match command? environment arguments with
    | some (.run path _ _ _) => readContent path
    | _ => pure .missing
  let result := program environment (fun _ => content) arguments
  IO.print result.output
  match result.ending with
  | .ok => pure ()
  | .failed message => IO.eprintln s!"Error: {message}"
  | .usage => IO.eprint usage
  return result.ending.status.toUInt32
