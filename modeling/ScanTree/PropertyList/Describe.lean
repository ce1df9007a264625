import ScanTree.Number.RealFormat
import ScanTree.PropertyList.Tag
import ScanTree.PropertyList.Value
import ScanTree.Scan

/-!
How messages show the children of a tree.
-/

namespace ScanTree.PropertyList

namespace Describe

/-- Numbers from `0.0001` up to below `10 ^ 16` are written in place. -/
def realFormat : RealFormat := ⟨fun e => -4 ≤ e && e < 16, [], .up⟩

def real : Binary64 → String
  | .nan => "NaN"
  | .infinite negative => if negative then "-inf" else "inf"
  | .finite negative rank => String.ofList (realFormat.finite negative rank)

def list (parts : List String) : String := "[" ++ ", ".intercalate parts ++ "]"

mutual

def value : Value → String
  | .dict entries => "Dict(\x7b" ++ ", ".intercalate (entryTexts entries) ++ "\x7d)"
  | .array items => "Array(" ++ list (itemTexts items) ++ ")"
  | .string s => "String(" ++ Text.quoted s ++ ")"
  | .integer n => "Integer(" ++ toString n.toInt ++ ")"
  | .real x => "Real(" ++ real x ++ ")"
  | .boolean b => "Boolean(" ++ toString b ++ ")"
  | .date text => "Date(" ++ Text.quoted text ++ ")"
  | .data chunks => "Data(" ++ list (chunks.map Text.quoted) ++ ")"

def entryTexts : List (String × Value) → List String
  | [] => []
  | (key, v) :: entries => (Text.quoted key ++ ": " ++ value v) :: entryTexts entries

def itemTexts : List Value → List String
  | [] => []
  | v :: items => value v :: itemTexts items

end

def token (t : Token Tag) : String :=
  "Token \x7b tag: " ++ t.tag.describe ++ ", text: " ++ Text.quoted t.text ++ ", span: " ++
    toString t.start ++ ".." ++ toString t.stop ++ " \x7d"

def id (n : Nat) : String := "NodeId(" ++ toString n ++ ")"

def item : Item (Token Tag) Value → String
  | .token t => "Token(" ++ token t ++ ")"
  | .value v => "Value(" ++ value v ++ ")"
  | .tree n => "Tree(" ++ id n ++ ")"

/-- The kind of a node, which the root lacks. -/
def kind : Option Kind → String
  | some k => "Some(" ++ k.name ++ ")"
  | none => "None"

end Describe

end ScanTree.PropertyList
