/-
# Values

A function value remembers the literal it was made from, the frame in which the
literal was evaluated, and the frames of the calls it has been returned from. The
first frame is its home; it is named but not kept alive by the value. The others are
captured: each value holds them for as long as the value itself is held. Functions
have no other identity than that of the evaluation they come from, so two of them are
equal when literal and home agree, whatever they have captured since.
-/

import Monkey.Program.Render

namespace Monkey

/-- The name of a frame. Names are never given out twice. -/
structure FrameId where
  index : Nat
  deriving DecidableEq, Repr

/-- The place of a node in everything that has been loaded: the index of a statement among
all loaded statements, then the index of a child at every step down, innermost first. Two
literals have different places even if they are spelled alike. -/
abbrev Site := List Nat

/-- The place of a child. -/
def Site.child (site : Site) (index : Nat) : Site := index :: site

/-- A function value: the literal and its place, the frame in which it was evaluated, and
the frames of the calls that it was returned from, the oldest return first. -/
structure Closure where
  parameters : List String
  body : Block
  site : Site
  home : FrameId
  captured : List FrameId
  deriving DecidableEq

/-- What expressions evaluate to. -/
inductive Value
  | int (value : Int64)
  | bool (value : Bool)
  | null
  | function (closure : Closure)
  deriving DecidableEq

/-- The kinds of values that operators and calls tell apart. -/
inductive ValueKind
  | integer
  | boolean
  | function
  | null
  deriving DecidableEq, Repr

/-- The name of a kind, as messages show it. -/
def ValueKind.text : ValueKind → String
  | integer => "INTEGER"
  | boolean => "BOOLEAN"
  | function => "FUNCTION"
  | null => "NULL"

namespace Closure

/-- Whether two function values stem from one literal evaluated in one frame. -/
def sameOrigin (first second : Closure) : Bool :=
  first.parameters == second.parameters && first.site == second.site &&
    first.home == second.home

/-- The value that a call returns for a function: the same function, which now also holds
the frame of that call. -/
def returnedFrom (closure : Closure) (frame : FrameId) : Closure :=
  { closure with captured := closure.captured ++ [frame] }

/-- A function shows its parameters and hides its body. -/
def inspect (closure : Closure) : String :=
  "fn(" ++ String.ofList (nameList closure.parameters) ++ ") \x7b...\x7d"

end Closure

namespace Value

/-- The kind of a value. -/
def kind : Value → ValueKind
  | int _ => .integer
  | bool _ => .boolean
  | function _ => .function
  | null => .null

/-- Conditions treat all values as true except `false` and null. -/
def truthy : Value → Bool
  | bool value => value
  | null => false
  | _ => true

/-- The text of a value. -/
def inspect : Value → String
  | int value => intText value
  | bool value => boolText value
  | function closure => closure.inspect
  | null => "null"

/-- The frames that a held value holds. -/
def captured : Value → List FrameId
  | function closure => closure.captured
  | _ => []

/-- The equality that programs see. Values of different kinds are never equal. -/
def same : Value → Value → Bool
  | int first, int second => first == second
  | bool first, bool second => first == second
  | null, null => true
  | function first, function second => first.sameOrigin second
  | _, _ => false

end Value

end Monkey
