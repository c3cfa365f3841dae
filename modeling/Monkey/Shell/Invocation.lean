/-
# Invocations

The arguments of the shell: options, a filter for log messages, and the path of a
script. Without a path the shell is interactive. Nothing is ever logged, so the filter
is read and left unused.
-/

import Monkey.Shell.Basic

namespace Monkey.Shell

/-- What the arguments ask for. -/
structure Invocation where
  options : Options
  path : Option String
  deriving DecidableEq, Repr

namespace Invocation

/-- Read arguments one by one; the answer is nothing if one is not understood. -/
def ofArguments? (arguments : List String) : Option Invocation :=
  go ⟨⟨false, false⟩, none⟩ arguments
where
  go (invocation : Invocation) : List String → Option Invocation
    | [] => some invocation
    | "--print-ast" :: others =>
      go { invocation with options := { invocation.options with printAst := true } } others
    | "--print-tokens" :: others =>
      go { invocation with options := { invocation.options with printTokens := true } } others
    | "--log" :: _ :: others => go invocation others
    | argument :: others =>
      if "--log=".isPrefixOf argument then go invocation others
      else if "-".isPrefixOf argument || invocation.path.isSome then none
      else go { invocation with path := some argument } others

/-- What the shell prints about arguments that it does not understand. -/
def usage : String :=
  "usage: monkey [--print-ast] [--print-tokens] [--log FILTER] [PATH]\n"

/-- Carry an invocation out. The file system is a parameter: it gives the text of a file or
the reason why there is none. -/
def run (depth : Nat) (readFile : String → Except String String) (input : String)
    (invocation : Invocation) : Answer :=
  match invocation.path with
  | none => runInteractive depth invocation.options input
  | some path =>
    match readFile path with
    | .ok source => runScript depth invocation.options source
    | .error reason => Answer.ofResult "" (some (.unreadable path reason))

/-- The reason that is given for a file that does not exist. -/
def noSuchFile : String := "No such file or directory (os error 2)"

end Invocation

end Monkey.Shell
