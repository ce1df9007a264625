import ScanTree.Entries
import ScanTree.Number.Binary64

/-!
Property-list values. A date is kept as its text and a data block as its runs of hex digits.
-/

namespace ScanTree.PropertyList

inductive Value
  | dict (entries : List (String × Value))
  | array (items : List Value)
  | string (s : String)
  | integer (n : Int64)
  | real (x : Binary64)
  | boolean (b : Bool)
  | date (text : String)
  | data (chunks : List String)

namespace Value

def typeName : Value → String
  | dict _ => "dict"
  | array _ => "array"
  | string _ => "string"
  | integer _ => "integer"
  | real _ => "real"
  | boolean _ => "boolean"
  | date _ => "date"
  | data _ => "data"

def dict? : Value → Option (Entries Value)
  | dict entries => some entries
  | _ => none

def array? : Value → Option (List Value)
  | array items => some items
  | _ => none

def string? : Value → Option String
  | string s => some s
  | _ => none

def integer? : Value → Option Int64
  | integer n => some n
  | _ => none

/-- Reals, and integers as the nearest real. -/
def real? : Value → Option Binary64
  | real x => some x
  | integer n => some (.ofInt n.toInt)
  | _ => none

def boolean? : Value → Option Bool
  | boolean b => some b
  | _ => none

/-- The value of a key of a dict. -/
def get? (v : Value) (key : String) : Option Value := v.dict?.bind (·.get? key)

mutual

/-- Equality of values, where reals are compared as numbers and the order of keys is free. -/
def same : Value → Value → Bool
  | dict es, dict fs => es.length == fs.length && sameEntries es fs
  | array vs, array ws => sameItems vs ws
  | string s, string t => s == t
  | integer m, integer n => m == n
  | real x, real y => x.sameNumber y
  | boolean a, boolean b => a == b
  | date s, date t => s == t
  | data xs, data ys => xs == ys
  | _, _ => false

def sameItems : List Value → List Value → Bool
  | [], [] => true
  | v :: vs, w :: ws => v.same w && sameItems vs ws
  | _, _ => false

/-- Whether every entry has a counterpart under its key. -/
def sameEntries : List (String × Value) → Entries Value → Bool
  | [], _ => true
  | (k, v) :: es, fs => (fs.get? k).any (v.same ·) && sameEntries es fs

end

end Value

end ScanTree.PropertyList
