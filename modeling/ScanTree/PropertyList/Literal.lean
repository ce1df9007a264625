import ScanTree.Number.Integer
import ScanTree.Number.RealText
import ScanTree.PropertyList.Tag
import ScanTree.PropertyList.Value
import ScanTree.Text.Quoted

/-!
The values of single tokens: runs of characters, escapes, keys, numbers and booleans.
-/

namespace ScanTree.PropertyList

def rejected (kind : Kind) (message : String) : BuildError := .rejected kind.name message

/-- Refuses a text with the reason that a number reader gave. -/
def unreadable (kind : Kind) (text reason : String) : BuildError :=
  rejected kind (Text.quoted text ++ ": " ++ reason)

def charsValue (text : String) : Except BuildError Value := .ok (.string text)

/-- The character that an escape stands for. -/
def escapeChar? : List Char → Option Char
  | ['\'', '\''] => some '\''
  | ['\\', 'n'] => some '\n'
  | ['\\', 'r'] => some '\r'
  | ['\\', 't'] => some '\t'
  | ['\\', 'b'] => some '\x08'
  | ['\\', 'f'] => some '\x0c'
  | '\\' :: c :: _ => some c
  | _ => none

def escapeValue (text : String) : Except BuildError Value :=
  match escapeChar? text.toList with
  | some c => .ok (.string (String.ofList [c]))
  | none => .error (rejected .escape ("unknown escape " ++ Text.quoted text))

/-- Takes each character after a backslash as it is. -/
def unescapeKey : List Char → List Char
  | [] => []
  | ['\\'] => []
  | '\\' :: c :: cs => c :: unescapeKey cs
  | c :: cs => c :: unescapeKey cs

/-- The text between a pair of double quotes. -/
def unquote? : List Char → Option (List Char)
  | '"' :: cs => if cs.getLast? = some '"' then some cs.dropLast else none
  | _ => none

def keyValue (text : String) : Except BuildError Value :=
  match unquote? text.toList with
  | some inside => .ok (.string (String.ofList (unescapeKey inside)))
  | none => .ok (.string text)

def intValue (text : String) : Except BuildError Value :=
  match Integer.read 10 text.toList with
  | .ok n => .ok (.integer n)
  | .error e => .error (unreadable .int text e.message)

/-- The digits of a hexadecimal number with its sign, without the `0x`. A plus is dropped. -/
def hexDigits (text : List Char) : List Char :=
  let digits : List Char → List Char
    | '0' :: 'x' :: cs => cs
    | cs => cs
  match text with
  | '-' :: cs => '-' :: digits cs
  | '+' :: cs => digits cs
  | cs => digits cs

def hexIntValue (text : String) : Except BuildError Value :=
  match Integer.read 16 (hexDigits text.toList) with
  | .ok n => .ok (.integer n)
  | .error e => .error (unreadable .hexInt text e.message)

def floatValue (text : String) : Except BuildError Value :=
  match RealText.read text.toList with
  | .ok x => .ok (.real x)
  | .error e => .error (unreadable .float text e.message)

def boolValue (text : String) : Except BuildError Value :=
  if text = ":true" then .ok (.boolean true)
  else if text = ":false" then .ok (.boolean false)
  else .error (rejected .bool (Text.quoted text ++ " is not a boolean"))

end ScanTree.PropertyList
