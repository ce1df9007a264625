import ScanTree.Config.Toml
import ScanTree.Options
import ScanTree.Text.Quoted

/-!
Options from layers of settings. Later layers win over earlier ones, and overrides win over all
layers. Every layer is read before any setting is given its type, so a wrong type counts only
where nothing replaces it.
-/

namespace ScanTree.Config

inductive Error
  /-- The text of a layer cannot be read. -/
  | unreadable
  /-- A required layer is not there. -/
  | missing
  /-- The key of an override is no path. -/
  | badPath
  | wrongType (found expected key : String)
  | badVariant (message : String)
  deriving DecidableEq, Repr

namespace Error

/-- The text of errors about single settings. -/
def message? : Error → Option String
  | wrongType found expected key =>
    some ("invalid type: " ++ found ++ ", expected " ++ expected ++ " for key `" ++ key ++ "`")
  | badVariant message => some message
  | _ => none

end Error

/-! Typing. -/

/-- The nearest whole number from zero to `2 ^ 64 - 1`, where a half goes away from zero. -/
def wholeNumber : Binary64 → Nat
  | .nan | .infinite true => 0
  | .infinite false => UInt64.size - 1
  | .finite negative rank =>
    if negative then 0
    else min ((2 * Binary64.size rank + Binary64.unit) / (2 * Binary64.unit)) (UInt64.size - 1)

/-- A number below `2 ^ 64` in decimal digits, with or without a plus. -/
def natural? (cs : List Char) : Option Nat :=
  let ds :=
    match cs with
    | '+' :: ds => ds
    | _ => cs
  if ds ≠ [] ∧ ds.all Char.isDigit ∧ RealText.natOfDigits ds < UInt64.size then
    some (RealText.natOfDigits ds)
  else none

/-- A setting that counts something. Words for yes and no count as one and zero. -/
def count (key : String) : Setting → Except Error Nat
  | .integer n =>
    if 0 ≤ n then .ok n.toNat
    else
      .error (.wrongType ("64-bit integer `" ++ toString n ++ "`")
        "an unsigned 64 bit or less integer" key)
  | .boolean b => .ok b.toNat
  | .real x => .ok (wholeNumber x)
  | .string s =>
    let word := Setting.normalKey s
    if ["true", "on", "yes"].contains word then .ok 1
    else if ["false", "off", "no"].contains word then .ok 0
    else
      match natural? s.toList with
      | some n => .ok n
      | none => .error (.wrongType ("string " ++ Text.quoted s) "an integer" key)
  | .array _ => .error (.wrongType "sequence" "an integer" key)
  | .table _ => .error (.wrongType "map" "an integer" key)

def policyNamed (name : String) : Except Error KeyPolicy :=
  match Setting.normalKey name with
  | "overwrite" => .ok .overwrite
  | "reject" => .ok .reject
  | _ => .error (.badVariant ("enum KeyPolicy does not have variant constructor " ++ name))

/-- A policy is given by its name, or by a table whose only key is its name. -/
def keyPolicy : Setting → Except Error KeyPolicy
  | .string name | .table [(name, _)] => policyNamed name
  | _ =>
    .error (.badVariant ("value of enum KeyPolicy should be represented by either string or " ++
      "table with exactly one key"))

/-! Loading. -/

/-- The settings below all layers. -/
def defaults : Entries Setting :=
  [("key_policy", .string "overwrite"), ("excerpt_len", .integer 80)]

inductive Layer
  | text (settings : String)
  | absent (required : Bool)

structure Loader where
  layers : List Layer := []
  overrides : List (List Step × Setting) := []

namespace Loader

/-- Adds a layer on top of the others. -/
def layer (l : Loader) (layer : Layer) : Loader := { l with layers := l.layers ++ [layer] }

def isPathChar (c : Char) : Bool := c.isAlphanum || c == '_' || c == '-' || c == ' '

def key? (cs : List Char) : Option (Step × List Char) :=
  let (name, rest) := cs.span isPathChar
  if name = [] then none else some (.key (String.ofList name), rest)

/-- Reads a whole number of 64 bits, with space around it, and the closing bracket. -/
def item? (cs : List Char) : Option (Step × List Char) := do
  let cs := Toml.dropSpace cs
  let (negative, ds) :=
    match cs with
    | '-' :: ds => (true, ds)
    | _ => (false, cs)
  let (ds, rest) := ds.span Char.isDigit
  let limit := if negative then Int64.size / 2 else Int64.size / 2 - 1
  match Toml.dropSpace rest with
  | ']' :: rest =>
    if ds ≠ [] ∧ RealText.natOfDigits ds ≤ limit then some (.item, rest) else none
  | _ => none

/-- Reads at most `n` steps after the first: a point and a key, or an index in brackets. -/
def steps? : Nat → List Char → Option (List Step)
  | _, [] => some []
  | n + 1, '.' :: cs => do
    let (step, rest) ← key? cs
    (step :: ·) <$> steps? n rest
  | n + 1, '[' :: cs => do
    let (step, rest) ← item? cs
    (step :: ·) <$> steps? n rest
  | _, _ => none

/-- The steps of a path. -/
def path? (path : String) : Option (List Step) := do
  let (step, rest) ← key? path.toList
  (step :: ·) <$> steps? rest.length rest

/-- Adds an override on top of the others. -/
def set (l : Loader) (key : String) (v : Setting) : Except Error Loader :=
  match path? key with
  | some path => .ok { l with overrides := l.overrides ++ [(path, v)] }
  | none => .error .badPath

/-- Lays one layer over settings. -/
def apply (settings : Setting) : Layer → Except Error Setting
  | .text text =>
    match Toml.read? text with
    | some entries => .ok (settings.putAll entries)
    | none => .error .unreadable
  | .absent required => if required then .error .missing else .ok settings

def override (settings : Setting) : List Step × Setting → Setting
  | (path, v) => settings.putAll (v.nested path).entries

/-- The value of a key that has a default. -/
def setting (settings : Setting) (key : String) : Setting :=
  (settings.entries.get? key).getD (.table [])

def build (l : Loader) : Except Error Options := do
  let layered ← l.layers.foldlM apply (.table defaults)
  let settings := l.overrides.foldl override layered
  let excerptLength ← count "excerpt_len" (setting settings "excerpt_len")
  let keyPolicy ← keyPolicy (setting settings "key_policy")
  return { keyPolicy, excerptLength }

end Loader

end ScanTree.Config
