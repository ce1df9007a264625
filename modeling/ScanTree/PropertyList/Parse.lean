import ScanTree.PropertyList.Error
import ScanTree.PropertyList.Resolve

/-!
Reading property lists: the tokens of a text, the tree that they build, and its value.
-/

namespace ScanTree.PropertyList

/-- More pulls than the scan of a text can take. Every second token at least has some text. -/
def pullBound (input : String) : Nat := 2 * Text.byteSize input.toList + 2

/-- The tokens of a text, and the scan and the pull that they end with. -/
def tokens (input : String) (excerptLength : Nat) :
    List (Scan.Entry Tag Nesting) × Scan Tag Nesting × Option (Pull Tag) :=
  (scan input excerptLength).drain (pullBound input)

def tokenRecord (t : Token Tag) : Record :=
  ⟨.trace, "plist: " ++ t.tag.role.name ++ " " ++ t.tag.kind.name ++ " at " ++ toString t.start⟩

/-- Writes tokens into a tree up to the first one that is refused. -/
def feed (input : String) (b : Builder schema) :
    List (Scan.Entry Tag Nesting) → Except Error (Builder schema) × List Record
  | [] => (.ok b, [])
  | e :: es =>
    let o := b.write plan e.token
    let log := e.log ++ tokenRecord e.token :: o.log
    match o.result with
    | .error err => (.error (.invalid (.ofContext input e.before) err), log)
    | .ok _ =>
      let rest := feed input o.state es
      (rest.1, log ++ rest.2)

/-- The end of a text: the scan must have ended and nothing may be open. -/
def conclude (stopped : Scan Tag Nesting × Option (Pull Tag)) (b : Builder schema) :
    Except Error (Tree schema) :=
  match stopped with
  | (s, some (.error e)) => .error (.ofScan s.input s.context e)
  | _ => b.finish.mapError .incomplete

/-- The tree of a text, and the records of building it. -/
def buildTreeLogged (options : Options) (input : String) :
    Except Error (Tree schema) × List Record :=
  let (entries, stopped) := tokens input options.excerptLength
  let (fed, log) := feed input { context := options } entries
  (fed.bind (conclude stopped), log)

def buildTree (options : Options) (input : String) : Except Error (Tree schema) :=
  (buildTreeLogged options input).1

/-- The value of a tree. -/
def treeValue (tree : Tree schema) : Except Error Value :=
  match tree.top with
  | [] => .error .empty
  | item :: _ => (resolve tree item).mapError .incomplete

def valueRecord (input : String) (v : Value) : Record :=
  ⟨.debug, "plist: parsed a " ++ v.typeName ++ " from " ++
    toString (Text.byteSize input.toList) ++ " bytes"⟩

/-- The value of a text, and the records of reading it. -/
def parseLogged (options : Options) (input : String) : Except Error Value × List Record :=
  let (tree, log) := buildTreeLogged options input
  match tree.bind treeValue with
  | .ok v => (.ok v, log ++ [valueRecord input v])
  | .error e => (.error e, log)

def parseWith (options : Options) (input : String) : Except Error Value :=
  (parseLogged options input).1

def parse (input : String) : Except Error Value := parseWith {} input

end ScanTree.PropertyList
