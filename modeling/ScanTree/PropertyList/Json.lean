import ScanTree.Number.Integer
import ScanTree.Number.RealFormat
import ScanTree.PropertyList.Value

/-!
The JSON text of values, indented by two spaces. Dates become strings and data blocks arrays of
strings; reals that are not finite become null.
-/

namespace ScanTree.PropertyList.Json

/-- Numbers from `0.00001` up to below `10 ^ 16` are written in place, others with a signed
exponent. -/
def realFormat : RealFormat := ⟨fun e => -5 ≤ e && e < 16, ['+'], .even⟩

def realText : Binary64 → List Char
  | .finite negative rank => realFormat.finite negative rank
  | _ => "null".toList

def stringChar (c : Char) : List Char :=
  if c = '"' then ['\\', '"']
  else if c = '\\' then ['\\', '\\']
  else if c = '\n' then ['\\', 'n']
  else if c = '\r' then ['\\', 'r']
  else if c = '\t' then ['\\', 't']
  else if c = '\x08' then ['\\', 'b']
  else if c = '\x0c' then ['\\', 'f']
  else if c.toNat < 0x20 then
    ['\\', 'u', '0', '0', Nat.digitChar (c.toNat / 16), Nat.digitChar (c.toNat % 16)]
  else [c]

def stringText (s : String) : List Char := '"' :: s.toList.flatMap stringChar ++ ['"']

def lineBreak (depth : Nat) : List Char := '\n' :: List.replicate (2 * depth) ' '

/-- Parts between brackets, each on a line of its own. -/
def block (opening closing : Char) (depth : Nat) (parts : List (List Char)) : List Char :=
  if parts.isEmpty then [opening, closing]
  else
    opening :: [','].intercalate (parts.map (lineBreak (depth + 1) ++ ·)) ++ lineBreak depth ++
      [closing]

mutual

def text (depth : Nat) : Value → List Char
  | .dict entries => block '\x7b' '\x7d' depth (entryTexts (depth + 1) entries)
  | .array items => block '[' ']' depth (itemTexts (depth + 1) items)
  | .string s | .date s => stringText s
  | .integer n => Integer.write n
  | .real x => realText x
  | .boolean b => if b then "true".toList else "false".toList
  | .data chunks => block '[' ']' depth (chunks.map stringText)

def entryTexts (depth : Nat) : List (String × Value) → List (List Char)
  | [] => []
  | (key, v) :: entries =>
    (stringText key ++ ':' :: ' ' :: text depth v) :: entryTexts depth entries

def itemTexts (depth : Nat) : List Value → List (List Char)
  | [] => []
  | v :: items => text depth v :: itemTexts depth items

end

end Json

/-- The JSON text of a value. -/
def Value.json (v : Value) : String := String.ofList (Json.text 0 v)

end ScanTree.PropertyList
