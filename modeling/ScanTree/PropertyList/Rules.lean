import ScanTree.PropertyList.Tag
import ScanTree.Scan

/-!
The rules of property-list text.

    value  := dict | array | string | int | hexint | float | bool | date | data
    dict   := '{' (key '=' value ';')* '}'        the last ';' may be left out
    array  := '(' (value (',' value)* ','?)? ')'
    string := '"' (chars | escape)* '"' | "'" (chars | "''")* "'"

White space and comments may stand between any two tokens of these.

The scan keeps a stack of tails, the states in which the open arrays and dicts go on after a
value. Opening one pushes its tail and closing one pops it, and every value is followed by the
tail on top, or by `end` when nothing is open.
-/

namespace ScanTree.PropertyList

/-- What a scan remembers beside its place. -/
structure Nesting where
  /-- Tails of the open arrays and dicts, innermost first. -/
  tails : List String := []
  /-- The current line, counted from one. -/
  line : Nat := 1
  /-- Byte offset of the start of the current line. -/
  lineStart : Nat := 0
  deriving DecidableEq, Repr

/-- Counts the lines of a text that was matched at the current offset. -/
def trackLines (text : List Char) (cx : Context Nesting) : Context Nesting :=
  match Text.afterLastLineFeed? text with
  | some n =>
    { cx with ext := { cx.ext with
        line := cx.ext.line + Text.lineFeeds text, lineStart := cx.position + n } }
  | none => cx

/-- Emits the tag for text that may run over several lines. -/
def overLines (tag : Tag) : Emit Tag Nesting :=
  .compute fun taken cx => (tag, trackLines taken.text.toList cx)

/-- The state after a value. -/
def Nesting.afterValue (n : Nesting) : String := n.tails.head?.getD "end"

def resume : Goto Nesting := .compute fun _ cx => (cx.ext.afterValue, cx)

/-- Opens an array or a dict, which goes on in `tail` after each value. -/
def descend (tail first : String) : Goto Nesting :=
  .compute fun _ cx => (first, { cx with ext := { cx.ext with tails := tail :: cx.ext.tails } })

def ascend : Goto Nesting :=
  .compute fun _ cx =>
    let ext := { cx.ext with tails := cx.ext.tails.tail }
    (ext.afterValue, { cx with ext })

def rule (pattern : String) (tag : Tag) (goto : Goto Nesting) : Rule Tag Nesting :=
  { pattern := some pattern, emit := .const tag, goto }

def lineRule (pattern : String) (tag : Tag) (goto : Goto Nesting) : Rule Tag Nesting :=
  { pattern := some pattern, emit := overLines tag, goto }

/-- A rule that takes nothing, for when no other one of its state matches. -/
def otherwise (tag : Tag) (goto : Goto Nesting) : Rule Tag Nesting :=
  { pattern := none, emit := .const tag, goto }

def spaceRules : List (Rule Tag Nesting) :=
  [lineRule "\\n\\r?" (.skip .newline) .stay,
   rule "[ \\t\\r]+" (.skip .space) .stay,
   rule "//[^\\n]*" (.skip .comment) .stay,
   lineRule "/\\*.*?\\*/" (.skip .comment) .stay]

def closeArray : Rule Tag Nesting := rule "\\)" (.stop .array) ascend

def closeDict : Rule Tag Nesting := rule "\\\x7d" (.stop .dict) ascend

def dateSource : String :=
  "@[0-9]\x7b4\x7d-[0-9]\x7b2\x7d-[0-9]\x7b2\x7d [0-9]\x7b2\x7d:[0-9]\x7b2\x7d:[0-9]\x7b2\x7d" ++
    " [+\\-][0-9]\x7b4\x7d"

/-- Hex comes before decimal, which would match the zero only. A float needs a point and may come
before an integer. -/
def mainRules : List (Rule Tag Nesting) :=
  [rule "\\(" (.start .array) (descend "arrayTail" "arrayHead"),
   rule "\\\x7b" (.start .dict) (descend "dictTail" "beforeKey"),
   rule "<" (.start .data) (.const "data"),
   rule "\"" (.start .string) (.const "string"),
   rule "'" (.start .string) (.const "sstring"),
   rule "[+\\-]?0x[0-9a-fA-F]+" (.leaf .hexInt) resume,
   rule "[+\\-]?[0-9]*\\.[0-9]+" (.leaf .float) resume,
   rule "[+\\-]?[0-9]+" (.leaf .int) resume,
   rule ":true\\b|:false\\b" (.leaf .bool) resume,
   rule dateSource (.leaf .date) resume]

/-- After an opening bracket or a comma: the array closes or a value follows. -/
def elementRules : List (Rule Tag Nesting) :=
  [closeArray, otherwise (.skip .space) (.const "main")]

def ruleTable : RuleTable Tag Nesting :=
  [("main", spaceRules ++ mainRules),
   ("data", spaceRules ++
     [rule "[0-9a-fA-F]\x7b1,8\x7d" (.leaf .data) .stay,
      rule ">" (.stop .data) resume]),
   ("string",
     [lineRule "[^\"\\\\]+" (.leaf .chars) .stay,
      rule "\\\\[\"\\\\/bfnrt]" (.leaf .escape) .stay,
      rule "\"" (.stop .string) resume]),
   ("sstring",
     [lineRule "[^']+" (.leaf .chars) .stay,
      rule "''" (.leaf .escape) .stay,
      rule "'" (.stop .string) resume]),
   ("arrayHead", spaceRules ++ elementRules),
   ("arrayTail", spaceRules ++
     [rule "," (.skip .separator) (.const "afterComma"), closeArray]),
   ("afterComma", spaceRules ++ elementRules),
   ("dictTail", spaceRules ++
     [rule ";" (.skip .separator) (.const "beforeKey"), closeDict]),
   ("beforeKey", spaceRules ++
     [rule "[a-zA-Z0-9_$+/.\\-]+" (.leaf .key) (.const "afterKey"),
      lineRule "\"(?:[^\"\\\\]|\\\\.)*\"" (.leaf .key) (.const "afterKey"),
      closeDict]),
   ("afterKey", spaceRules ++ [rule "=" (.skip .equals) (.const "main")]),
   ("end", spaceRules)]

/-- The compiled rules. -/
def grammar : Grammar Tag Nesting :=
  match Grammar.compile ruleTable with
  | .ok g => g
  | .error _ => ⟨[]⟩

/-- A scan of a whole text. -/
def scan (input : String) (excerptLength : Nat) : Scan Tag Nesting :=
  { grammar.scan input 0 "main" {} with excerptLength }

end ScanTree.PropertyList
