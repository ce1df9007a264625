import ScanTree.Entries
import ScanTree.Number.Binary64

/-!
Settings, and how one table of settings is laid over another.
-/

namespace ScanTree.Config

inductive Setting
  | string (s : String)
  | integer (n : Int)
  | real (x : Binary64)
  | boolean (b : Bool)
  | array (items : List Setting)
  | table (entries : List (String × Setting))

namespace Setting

/-- The entries of a table. A scalar has none. -/
def entries : Setting → Entries Setting
  | table es => es
  | _ => []

/-- Case does not distinguish keys. -/
def normalKey (key : String) : String := String.ofList (key.toList.map Char.toLower)

mutual

/-- Sets a key. A table is laid over what is there key by key, so that an empty one changes
nothing. -/
def put (key : String) (old : Entries Setting) : Setting → Entries Setting
  | table es => old.insert (normalKey key) (putAll ((old.get? (normalKey key)).getD (table [])) es)
  | v => old.insert (normalKey key) v

/-- Sets several keys. What is no table becomes one at the first of them. -/
def putAll (old : Setting) : List (String × Setting) → Setting
  | [] => old
  | (key, v) :: es => putAll (table (put key old.entries v)) es

end

end Setting

/-- A step on the way to a setting. -/
inductive Step
  | key (name : String)
  /-- Into an array, at any index: the items of an array have no meaning. -/
  | item
  deriving DecidableEq, Repr

/-- What holds the value at the end of a path. -/
def Setting.nested (v : Setting) : List Step → Setting
  | [] => v
  | .key name :: steps => table [(name, nested v steps)]
  | .item :: steps => array [nested v steps]

end ScanTree.Config
