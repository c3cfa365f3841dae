/-
# The shell

The shell runs a script, or the lines of an interactive session one after the other.
Either way a source is answered by the listings that were asked for, and then by its
diagnostics or by the line that shows how running it ended. A script that fails makes
the shell fail; in a session the next line follows, whatever became of the one before.
-/

import Monkey.Session
import Monkey.Shell.Listing

namespace Monkey.Shell

/-- What is to be printed about a source besides its result. -/
structure Options where
  printAst : Bool
  printTokens : Bool
  deriving DecidableEq, Repr

/-- What the shell leaves behind: its exit code and what it has printed. -/
structure Answer where
  exitCode : Nat
  output : String
  errors : String
  deriving DecidableEq, Repr

/-- Why the shell failed. -/
inductive Failure
  | unreadable (path reason : String)
  | parsing (count : Nat)
  | evaluation (message : String)
  deriving DecidableEq, Repr

/-- The text that the user sees. -/
def Failure.message : Failure → String
  | unreadable path reason => "could not read " ++ path ++ ": " ++ reason
  | parsing count => "aborted after " ++ toString count ++ " parser error(s)"
  | evaluation message => "evaluation failed: " ++ message

/-- The failure that the end of a script's run amounts to. -/
def Failure.ofOutcome? : Outcome → Option Failure
  | .failed fault => some (.evaluation fault.message)
  | .tooDeep => some (.evaluation "calls are nested too deeply")
  | _ => none

/-- The answer of a shell that printed something and then succeeded or failed. -/
def Answer.ofResult (output : String) : Option Failure → Answer
  | none => ⟨0, output, ""⟩
  | some failure => ⟨1, output, "monkey: " ++ failure.message ++ "\n"⟩

/-- The listing of the tokens, if it is wanted. -/
def tokenListing (options : Options) (source : String) : String :=
  if options.printTokens then (Cursor.ofText source).listing else ""

/-- The canonical form of a program, if it is wanted. -/
def programListing (options : Options) (program : Program) : String :=
  if options.printAst then Program.render program else ""

/-- What became of one source: what is printed, why it failed if it did, and the session
for the next. -/
structure Evaluated where
  output : String
  failure : Option Failure
  session : Session

/-- Answer one source in a session. -/
def evaluate (depth : Nat) (options : Options) (session : Session) (source : String) :
    Evaluated :=
  let tokens := tokenListing options source
  match (parse source).toExcept with
  | .error diagnostics =>
    ⟨tokens ++ Diagnostic.listing diagnostics, some (.parsing diagnostics.length), session⟩
  | .ok program =>
    let ended := session.run depth program
    ⟨tokens ++ programListing options program ++ ended.1.shown ++ "\n",
      Failure.ofOutcome? ended.1, ended.2.giveUp ended.1⟩

/-- What is printed for each of some sources, all answered in one session. -/
def transcript (depth : Nat) (options : Options) : Session → List String → List String
  | _, [] => []
  | session, source :: sources =>
    let answered := evaluate depth options session source
    answered.output :: transcript depth options answered.session sources

/-- Run a script in a session of its own. -/
def runScript (depth : Nat) (options : Options) (source : String) : Answer :=
  let answered := evaluate depth options Session.start source
  Answer.ofResult answered.output answered.failure

/-- The pieces between line feeds. The last one is not ended by any. -/
def splitLines : List Char → List (List Char)
  | [] => [[]]
  | '\n' :: rest => [] :: splitLines rest
  | c :: rest =>
    match splitLines rest with
    | [] => [[c]]
    | first :: others => (c :: first) :: others

/-- A line without the carriage return that belongs to its end. -/
def dropReturn (line : List Char) : List Char :=
  if line.getLast? = some '\r' then line.dropLast else line

/-- The lines of an input. A line feed ends a line, with a carriage return before it or
not; what follows the last line feed is a line that nothing has ended. -/
def inputLines (input : String) : List (List Char) :=
  let pieces := splitLines input.toList
  pieces.dropLast.map dropReturn ++ pieces.getLast?.toList

/-- What is printed when an interactive session has read all its input. -/
def farewell : String := "CTRL-D\n"

/-- Whether there is anything on a line to be answered. -/
def isInput (line : List Char) : Bool := !line.all Text.isBlank

/-- The sources in an input: its lines, except blank ones. -/
def inputSources (input : String) : List String :=
  ((inputLines input).filter isInput).map String.ofList

/-- Answer the sources of an input in one session. -/
def runInteractive (depth : Nat) (options : Options) (input : String) : Answer :=
  let printed := transcript depth options Session.start (inputSources input)
  Answer.ofResult (String.join printed ++ farewell) none

end Monkey.Shell
