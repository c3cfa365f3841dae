/-
# The command line

Reads the arguments, and then the script or the lines of standard input as they come.
What is printed is decided by the shell.
-/

import Monkey.Shell.Invocation

namespace Monkey.Shell

/-- The depth granted to nested calls. -/
def commandLineDepth : Nat := 1000000000

/-- The text of a file, or the reason why it cannot be read. -/
def readSource (path : String) : IO (Except String String) := do
  try
    return .ok (← IO.FS.readFile path)
  catch
    | .noFileOrDirectory .. => return .error Invocation.noSuchFile
    | error => return .error (toString error)

/-- Print an answer and hand out its exit code. -/
def deliver (answer : Answer) : IO UInt32 := do
  (← IO.getStdout).putStr answer.output
  (← IO.getStderr).putStr answer.errors
  return answer.exitCode.toUInt32

/-- Answer the lines of standard input one by one until it ends. -/
partial def converse (options : Options) (session : Session) : IO Unit := do
  let stdout ← IO.getStdout
  let line ← (← IO.getStdin).getLine
  if line.isEmpty then
    stdout.putStr farewell
  else
    match inputSources line with
    | [] => converse options session
    | source :: _ =>
      let answered := evaluate commandLineDepth options session source
      stdout.putStr answered.output
      stdout.flush
      converse options answered.session

end Monkey.Shell

open Monkey.Shell in
def main (arguments : List String) : IO UInt32 := do
  match Invocation.ofArguments? arguments with
  | none =>
    (← IO.getStderr).putStr Invocation.usage
    return 2
  | some ⟨options, none⟩ =>
    converse options Monkey.Session.start
    return 0
  | some invocation@⟨_, some path⟩ =>
    let source ← readSource path
    deliver (invocation.run commandLineDepth (fun _ => source) "")
