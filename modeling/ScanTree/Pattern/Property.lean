import ScanTree.Pattern.CharSet

/-!
Unicode properties, as patterns name them.

Which names there are, and which characters each stands for, is in tables that come from outside.
Nothing is assumed of them.
-/

namespace ScanTree.Pattern

/-- What stands between the name of a property and a value of it. -/
inductive PropertySign
  | equal
  | colon
  | unequal
  deriving DecidableEq, Repr

/-- What `\p` and `\P` ask for. -/
inductive Property
  | letter (c : Char)
  | named (name : List Char)
  | valued (name : List Char) (sign : PropertySign) (value : List Char)
  deriving DecidableEq, Repr

/-- The text before the first `mark` in a text, and the text after it. -/
def cut? (mark : List Char) : List Char → Option (List Char × List Char)
  | [] => none
  | c :: cs =>
    if mark.isPrefixOf (c :: cs) then some ([], (c :: cs).drop mark.length)
    else (cut? mark cs).map fun p => (c :: p.1, p.2)

/-- The property with the given text in braces. -/
def Property.ofText (text : List Char) : Property :=
  match cut? ['!', '='] text, cut? [':'] text, cut? ['='] text with
  | some (name, value), _, _ => valued name .unequal value
  | none, some (name, value), _ => valued name .colon value
  | none, none, some (name, value) => valued name .equal value
  | none, none, none => named text

/-- Tables of properties, as closed ranges of code points. A property without a table is not
known. -/
structure Properties where
  ranges? : Property → Option (List (Nat × Nat)) := fun _ => none

end ScanTree.Pattern
