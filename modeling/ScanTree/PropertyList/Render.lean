import ScanTree.Number.Integer
import ScanTree.Number.RealFormat
import ScanTree.PropertyList.Value

/-!
The text of values, on one line or indented with one entry to a line.
-/

namespace ScanTree.PropertyList

/-- Reals are written without an exponent and with at least one digit after the point. Of two
shortest texts as near, the one further from zero is taken. -/
def realFormat : RealFormat := ⟨fun _ => true, [], .up⟩

def realText : Binary64 → List Char
  | .nan => "NaN".toList
  | .infinite negative => if negative then "-inf".toList else "inf".toList
  | .finite negative rank => realFormat.finite negative rank

/-- One character of a string, between its quotes. -/
def stringChar (c : Char) : List Char :=
  if c = '"' then ['\\', '"']
  else if c = '\\' then ['\\', '\\']
  else if c = '\n' then ['\\', 'n']
  else if c = '\r' then ['\\', 'r']
  else if c = '\t' then ['\\', 't']
  else if c = '\x08' then ['\\', 'b']
  else if c = '\x0c' then ['\\', 'f']
  else [c]

def stringText (s : List Char) : List Char := '"' :: s.flatMap stringChar ++ ['"']

/-- One character of a key, between its quotes. -/
def keyChar (c : Char) : List Char := if c = '"' ∨ c = '\\' then ['\\', c] else [c]

def isBareKeyChar (c : Char) : Bool :=
  c.isAlphanum || c == '_' || c == '$' || c == '+' || c == '.' || c == '-'

/-- Whether a key can stand without quotes. A slash might begin a comment. -/
def isBareKey (key : List Char) : Bool := !key.isEmpty && key.all isBareKeyChar

def keyText (key : List Char) : List Char :=
  if isBareKey key then key else '"' :: key.flatMap keyChar ++ ['"']

def dataText : List String → List Char
  | [] => []
  | [chunk] => chunk.toList
  | chunk :: chunks => chunk.toList ++ ' ' :: dataText chunks

/-- What separates entries: a line feed and the indentation, or a space on a single line. -/
def lineBreak : Option Nat → List Char
  | some depth => '\n' :: List.replicate (4 * depth) ' '
  | none => [' ']

namespace Value

mutual

/-- The text of a value that stands at the given depth, or on a single line. -/
def render (depth : Option Nat) : Value → List Char
  | dict [] => ['\x7b', '\x7d']
  | dict entries =>
    '\x7b' :: renderEntries (depth.map (· + 1)) entries ++ lineBreak depth ++ ['\x7d']
  | array [] => ['(', ')']
  | array items =>
    match depth with
    | some d => '(' :: renderLines (d + 1) items ++ lineBreak depth ++ [')']
    | none => '(' :: renderItems items ++ [')']
  | string s => stringText s.toList
  | integer n => Integer.write n
  | real x => realText x
  | boolean b => if b then ":true".toList else ":false".toList
  | date text => text.toList
  | data chunks => '<' :: dataText chunks ++ ['>']

def renderEntries (depth : Option Nat) : List (String × Value) → List Char
  | [] => []
  | (key, v) :: entries =>
    lineBreak depth ++ keyText key.toList ++ [' ', '=', ' '] ++ v.render depth ++ ';' ::
      renderEntries depth entries

/-- Items of an indented array, each on a line with a comma after it. -/
def renderLines (depth : Nat) : List Value → List Char
  | [] => []
  | v :: items => lineBreak (some depth) ++ v.render (some depth) ++ ',' :: renderLines depth items

/-- Items of an array on a single line, with commas between them. -/
def renderItems : List Value → List Char
  | [] => []
  | [v] => v.render none
  | v :: items => v.render none ++ ',' :: ' ' :: renderItems items

end

/-- The value on a single line. -/
def inline (v : Value) : String := String.ofList (v.render none)

/-- The value with one entry to a line, and a line feed at the end. -/
def indented (v : Value) : String := String.ofList (v.render (some 0) ++ ['\n'])

end Value

end ScanTree.PropertyList
