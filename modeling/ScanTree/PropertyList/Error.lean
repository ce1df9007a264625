import ScanTree.PropertyList.Rules

/-!
Places in a text by line and column, and the errors of the property-list reader.
-/

namespace ScanTree.PropertyList

/-- A line and a column, both counted from one. Columns count characters. -/
structure Location where
  line : Nat
  column : Nat
  deriving DecidableEq, Repr

namespace Location

def text (l : Location) : String := toString l.line ++ ":" ++ toString l.column

/-- The place of a scan in its input. -/
def ofContext (input : String) (cx : Context Nesting) : Location :=
  let inLine := Text.slice? cx.ext.lineStart cx.position input.toList
  ⟨cx.ext.line, (inLine.map List.length).getD 0 + 1⟩

end Location

inductive Error
  /-- No rule matches the input. -/
  | noRule (location : Location) (state : String) (source : ScanError)
  /-- The scan is in a state that has no rules. -/
  | brokenGrammar (source : ScanError)
  /-- A token could not be placed or evaluated. -/
  | invalid (location : Location) (source : BuildError)
  /-- The tokens form no complete value. -/
  | incomplete (source : BuildError)
  /-- There is no value at all. -/
  | empty
  deriving DecidableEq, Repr

namespace Error

def message : Error → String
  | noRule l state _ =>
    "plist: syntax error at line " ++ toString l.line ++ ", column " ++ toString l.column ++
      " in state " ++ state
  | brokenGrammar _ => "plist: broken grammar"
  | invalid l _ =>
    "plist: invalid value at line " ++ toString l.line ++ ", column " ++ toString l.column
  | incomplete _ => "plist: incomplete input"
  | empty => "plist: empty input"

def location? : Error → Option Location
  | noRule l .. | invalid l _ => some l
  | _ => none

/-- The error of a scan that stopped at the given context. -/
def ofScan (input : String) (cx : Context Nesting) : ScanError → Error
  | .noMatch position state excerpt =>
    noRule (.ofContext input cx) state (.noMatch position state excerpt)
  | .unknownState state => brokenGrammar (.unknownState state)

end Error

end ScanTree.PropertyList
