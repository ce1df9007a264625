import ScanTree.Config.Setting
import ScanTree.Number.RealText

/-!
Reading settings from text: comments, assignments of scalars, arrays and tables on one line, and
sections, in the notation of TOML.
-/

namespace ScanTree.Config.Toml

def isKeyChar (c : Char) : Bool := c.isAlphanum || c == '_' || c == '-'

def isScalarChar (c : Char) : Bool := isKeyChar c || c == '+' || c == '.'

def dropSpace (cs : List Char) : List Char := cs.dropWhile fun c => c == ' ' || c == '\t'

/-- Characters that strings and comments may hold. -/
def isPlain (c : Char) : Bool := c == '\t' || (' ' ≤ c && c != '\x7f')

/-- Whether nothing but a comment follows on the line. -/
def isRestOfLine (cs : List Char) : Bool :=
  match dropSpace cs with
  | [] => true
  | c :: cs => c == '#' && cs.all isPlain

/-- Digits without the underscores, each of which must stand between two digits. -/
def digits? (isDigit : Char → Bool) : List Char → Option (List Char)
  | [] => none
  | [c] => if isDigit c then some [c] else none
  | c :: '_' :: cs => if isDigit c then (c :: ·) <$> digits? isDigit cs else none
  | c :: cs => if isDigit c then (c :: ·) <$> digits? isDigit cs else none

def natOf (radix : Nat) (ds : List Char) : Nat :=
  ds.foldl (fun n c =>
    n * radix + (if c.isDigit then c.toNat - '0'.toNat else c.toLower.toNat - 'a'.toNat + 10)) 0

/-- Digits before the point, where a zero comes first only if it is alone. -/
def whole? (cs : List Char) : Option (List Char) :=
  (digits? Char.isDigit cs).filter fun ds => ds.length == 1 || ds.head? != some '0'

def integer? (cs : List Char) : Option Setting :=
  let (negative, ds) := RealText.sign cs
  let n : Option Int :=
    match cs with
    | '0' :: 'x' :: ds =>
      (digits? (fun c => c.isDigit || ('a' ≤ c.toLower && c.toLower ≤ 'f')) ds).map (natOf 16 ·)
    | '0' :: 'o' :: ds => (digits? (fun c => '0' ≤ c && c ≤ '7') ds).map (natOf 8 ·)
    | '0' :: 'b' :: ds => (digits? (fun c => c == '0' || c == '1') ds).map (natOf 2 ·)
    | _ => (whole? ds).map fun ds => if negative then -(natOf 10 ds : Int) else natOf 10 ds
  (n.filter fun n => Int64.minValue.toInt ≤ n && n ≤ Int64.maxValue.toInt).map .integer

/-- A number with a fraction, an exponent or both. One that is too large is refused, but not its
negative. -/
def fraction? (cs : List Char) : Option Setting := do
  let isDigit := fun (c : Char) => c.isDigit || c == '_'
  let (negative, cs) := RealText.sign cs
  let (first, rest) := cs.span isDigit
  let first ← whole? first
  let (places, rest) ←
    match rest with
    | '.' :: more =>
      let (places, rest) := more.span isDigit
      (digits? Char.isDigit places).map ('.' :: ·, rest)
    | _ => some ([], rest)
  let exponent ←
    match rest with
    | [] => if places = [] then none else some []
    | e :: more =>
      if e = 'e' ∨ e = 'E' then
        let (negative, ds) := RealText.sign more
        (digits? Char.isDigit ds).map fun ds => 'e' :: (if negative then '-' :: ds else ds)
      else none
  let x ← RealText.number? negative (first ++ places ++ exponent)
  if x = .infinite false then none else some (.real x)

def special? (cs : List Char) : Option Setting :=
  let (negative, name) := RealText.sign cs
  if cs = "true".toList then some (.boolean true)
  else if cs = "false".toList then some (.boolean false)
  else if name = "inf".toList then some (.real (.infinite negative))
  else if name = "nan".toList then some (.real .nan)
  else none

def scalar? (cs : List Char) : Option Setting := (special? cs).or ((integer? cs).or (fraction? cs))

/-- The character that an escape stands for, and what follows it. -/
def escape? : List Char → Option (Char × List Char)
  | [] => none
  | c :: cs =>
    let code (count : Nat) : Option (Char × List Char) :=
      let ds := cs.take count
      let n := natOf 16 ds
      if ds.length = count ∧ ds.all (fun c => c.isDigit || ('a' ≤ c.toLower && c.toLower ≤ 'f')) ∧
          n.isValidChar then some (Char.ofNat n, cs.drop count)
      else none
    match c with
    | 'b' => some ('\x08', cs)
    | 't' => some ('\t', cs)
    | 'n' => some ('\n', cs)
    | 'f' => some ('\x0c', cs)
    | 'r' => some ('\r', cs)
    | '"' => some ('"', cs)
    | '\\' => some ('\\', cs)
    | 'u' => code 4
    | 'U' => code 8
    | _ => none

/-- The inside of a string up to its double quote, in at most `n` characters. -/
def basic? : Nat → List Char → Option (List Char × List Char)
  | 0, _ | _, [] => none
  | n + 1, c :: cs =>
    if c = '"' then some ([], cs)
    else if c = '\\' then do
      let (c, rest) ← escape? cs
      let (more, rest) ← basic? n rest
      some (c :: more, rest)
    else if isPlain c then (basic? n cs).map fun p => (c :: p.1, p.2)
    else none

/-- The inside of a string up to its single quote, as it stands. -/
def literal? (cs : List Char) : Option (List Char × List Char) :=
  match cs.span (· ≠ '\'') with
  | (_, []) => none
  | (inside, _ :: rest) => if inside.all isPlain then some (inside, rest) else none

def key? (cs : List Char) : Option (String × List Char) :=
  let (key, rest) := cs.span isKeyChar
  if key = [] then none else some (String.ofList key, rest)

mutual

/-- A value and what follows it. Values inside it are at most `n` deep and long. -/
def value? : Nat → List Char → Option (Setting × List Char)
  | _, '"' :: cs => (basic? (cs.length + 1) cs).map fun p => (.string (String.ofList p.1), p.2)
  | _, '\'' :: cs => (literal? cs).map fun p => (.string (String.ofList p.1), p.2)
  | 0, _ => none
  | n + 1, '[' :: cs => (items? n cs).map fun p => (.array p.1, p.2)
  | n + 1, '\x7b' :: cs =>
    match dropSpace cs with
    | '\x7d' :: rest => some (.table [], rest)
    | cs => (entries? n [] cs).map fun p => (.table p.1, p.2)
  | _, cs =>
    let (word, rest) := cs.span isScalarChar
    (scalar? word).map (·, rest)

/-- The items of an array up to its closing bracket. -/
def items? : Nat → List Char → Option (List Setting × List Char)
  | 0, _ => none
  | n + 1, cs =>
    match dropSpace cs with
    | ']' :: rest => some ([], rest)
    | cs => do
      let (v, rest) ← value? n cs
      match dropSpace rest with
      | ',' :: rest => (items? n rest).map fun p => (v :: p.1, p.2)
      | ']' :: rest => some ([v], rest)
      | _ => none

/-- The entries of a table up to its closing brace, after those in `es`. No key comes twice. -/
def entries? : Nat → Entries Setting → List Char → Option (Entries Setting × List Char)
  | 0, _, _ => none
  | n + 1, es, cs => do
    let (key, rest) ← key? (dropSpace cs)
    if es.keys.contains key then none
    match dropSpace rest with
    | '=' :: rest =>
      let (v, rest) ← value? n (dropSpace rest)
      let es := es ++ [(key, v)]
      match dropSpace rest with
      | ',' :: rest => entries? n es rest
      | '\x7d' :: rest => some (es, rest)
      | _ => none
    | _ => none

end

/-- A document as far as it is read: the entries of the root and of the sections. -/
structure Document where
  entries : Entries Setting := []
  /-- The name of the section that assignments go to. -/
  current : Option String := none

namespace Document

/-- Adds an entry to the root or to the current section. No key comes twice. -/
def assign? (d : Document) (key : String) (v : Setting) : Option Document :=
  match d.current with
  | none =>
    if d.entries.keys.contains key then none else some { d with entries := d.entries ++ [(key, v)] }
  | some name =>
    let inside := ((d.entries.get? name).map Setting.entries).getD []
    if inside.keys.contains key then none
    else some { d with entries := d.entries.insert name (.table (inside ++ [(key, v)])) }

def openSection? (d : Document) (name : String) : Option Document :=
  if d.entries.keys.contains name then none
  else some { entries := d.entries ++ [(name, .table [])], current := some name }

/-- Reads one line. -/
def line? (d : Document) (text : List Char) : Option Document :=
  if isRestOfLine text then some d
  else
    match dropSpace text with
    | '[' :: cs => do
      let (name, rest) ← key? (dropSpace cs)
      match dropSpace rest with
      | ']' :: rest => if isRestOfLine rest then d.openSection? name else none
      | _ => none
    | cs => do
      let (key, rest) ← key? cs
      match dropSpace rest with
      | '=' :: rest =>
        let (v, rest) ← value? (2 * rest.length + 1) (dropSpace rest)
        if isRestOfLine rest then d.assign? key v else none
      | _ => none

end Document

/-- The text with line feeds for the line ends of two characters. -/
def plainLineEnds : List Char → List Char
  | '\r' :: '\n' :: cs => '\n' :: plainLineEnds cs
  | c :: cs => c :: plainLineEnds cs
  | [] => []

/-- The settings of a text, which may begin with a byte order mark. -/
def read? (text : String) : Option (Entries Setting) :=
  let cs :=
    match text.toList with
    | '\ufeff' :: cs => cs
    | cs => cs
  (((plainLineEnds cs).splitOn '\n').foldlM Document.line? {}).map Document.entries

end ScanTree.Config.Toml
