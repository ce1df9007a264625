import ScanTree.Tree.Handler

/-!
Kinds of property-list tokens. A tag pairs the kind of a token with its role in the tree.
-/

namespace ScanTree.PropertyList

inductive Kind
  | array
  | dict
  | data
  | chars
  | string
  | key
  | comment
  | hexInt
  | int
  | float
  | bool
  | date
  | escape
  | equals
  | separator
  | space
  | newline
  deriving DecidableEq, Repr

namespace Kind

def name : Kind → String
  | array => "Array"
  | dict => "Dict"
  | data => "Data"
  | chars => "Chars"
  | string => "String"
  | key => "Key"
  | comment => "Comment"
  | hexInt => "HexInt"
  | int => "Int"
  | float => "Float"
  | bool => "Bool"
  | date => "Date"
  | escape => "Escape"
  | equals => "Equals"
  | separator => "Separator"
  | space => "Space"
  | newline => "Newline"

/-- All kinds. -/
def all : List Kind :=
  [array, dict, data, chars, string, key, comment, hexInt, int, float, bool, date, escape, equals,
   separator, space, newline]

def ofName? (name : String) : Option Kind := all.find? (·.name = name)

end Kind

structure Tag where
  role : Role
  kind : Kind
  deriving DecidableEq, Repr

namespace Tag

def start (kind : Kind) : Tag := ⟨.start, kind⟩
def stop (kind : Kind) : Tag := ⟨.stop, kind⟩
def skip (kind : Kind) : Tag := ⟨.skip, kind⟩
def leaf (kind : Kind) : Tag := ⟨.leaf, kind⟩

def describe (t : Tag) : String :=
  "Tag \x7b role: " ++ t.role.name ++ ", kind: " ++ t.kind.name ++ " \x7d"

end Tag

end ScanTree.PropertyList
