import ScanTree.Options
import ScanTree.PropertyList.Describe
import ScanTree.PropertyList.Literal
import ScanTree.Tree.Builder

/-!
How property-list tokens build a tree.

An array keeps its elements in a sequence. A dict pairs each key with the value that comes after
it. Scalars are evaluated at once, and a string when it closes, from its runs of characters and
its escapes. Dates and data blocks stay as they come.
-/

namespace ScanTree.PropertyList

/-- A dict under construction. -/
structure OpenDict where
  entries : Entries (Item (Token Tag) Value) := []
  /-- The key that waits for its value. -/
  pending : Option String := none

/-- The trees of property lists. -/
abbrev schema : Schema where
  Kind := Kind
  Token := Token Tag
  Value := Value
  Aggregate := OpenDict
  Context := Options
  kindName := Kind.name

/-- An evaluator of tokens that looks at their text only. -/
def leafEval (f : String → Except BuildError Value) : Eval schema :=
  .leaf fun options token => ⟨options, f token.text, []⟩

/-- Joins the parts of a string. -/
def joinParts : List schema.Item → Except BuildError (List Char)
  | [] => .ok []
  | .value (.string part) :: items => (part.toList ++ ·) <$> joinParts items
  | item :: _ =>
    .error (rejected .string ("unexpected string part " ++ Describe.item item))

def stringEval : Eval schema :=
  .subtree fun options tree id =>
    ⟨options, (.string <| String.ofList ·) <$> joinParts ((tree.children? id).getD []), []⟩

/-- Takes a key, which then waits, or the value of the key that waits. -/
def pushEntry (options : Options) (shape : Shape schema) (kind : Kind) (item : schema.Item) :
    Outcome (Options × Shape schema) Unit :=
  match shape with
  | .custom dict =>
    if kind = .key then
      match item with
      | .value (.string key) =>
        let next : Shape schema := .custom { dict with pending := some key }
        match dict.pending with
        | none => ⟨(options, next), .ok (), []⟩
        | some pending =>
          if options.keyPolicy = .reject then
            ⟨(options, shape), .error (rejected .dict
              ("key " ++ Text.quoted pending ++ " has no value before key " ++ Text.quoted key)),
              []⟩
          else
            ⟨(options, next), .ok (), [⟨.trace,
              "plist: key " ++ Text.quoted key ++ " replaces pending key " ++
                Text.quoted pending⟩]⟩
      | _ => ⟨(options, shape), .error (rejected .key "key did not evaluate to a string"), []⟩
    else
      match dict.pending with
      | some key =>
        ⟨(options, .custom ⟨dict.entries.insert key item, none⟩), .ok (), []⟩
      | none =>
        ⟨(options, shape), .error (rejected .dict (kind.name ++ " value without a key")), []⟩
  | _ => ⟨(options, shape), .error (.unabsorbable shape.name kind.name), []⟩

/-- Closes a dict. A key that still waits is dropped or refused. -/
def endDict (options : Options) (shape : Shape schema) (_ : Token Tag) :
    Outcome (Options × Shape schema) Unit :=
  match shape with
  | .custom ⟨entries, some pending⟩ =>
    let closed : Shape schema := .custom ⟨entries, none⟩
    if options.keyPolicy = .reject then
      ⟨(options, closed), .error (rejected .dict
        ("key " ++ Text.quoted pending ++ " has no value before the dict closes")), []⟩
    else
      ⟨(options, closed), .ok (), [⟨.trace,
        "plist: dropping key " ++ Text.quoted pending ++ " without a value"⟩]⟩
  | _ => ⟨(options, shape), .ok (), []⟩

def handler : Kind → Handler schema
  | .array => { start := some fun options _ _ => (.seq [], options) }
  | .dict =>
    { start := some fun options _ _ => (.custom {}, options)
      stop := some endDict
      push := some pushEntry }
  | .string => { eval := some stringEval }
  | .chars => { eval := some (leafEval charsValue) }
  | .escape => { eval := some (leafEval escapeValue) }
  | .key => { eval := some (leafEval keyValue) }
  | .int => { eval := some (leafEval intValue) }
  | .hexInt => { eval := some (leafEval hexIntValue) }
  | .float => { eval := some (leafEval floatValue) }
  | .bool => { eval := some (leafEval boolValue) }
  | _ => {}

def classify (token : Token Tag) : Role × Kind := (token.tag.role, token.tag.kind)

def plan : Plan schema := ⟨classify, handler⟩

end ScanTree.PropertyList
