import ScanTree.Proofs.PropertyList.Nesting

/-!
The grammar of property lists over tokens, and what its phrases mean.

A phrase is a derivation tree, and its tokens are a sentence. Its meaning goes by recursion on the
tree. Blanks and comments belong to no phrase; without them, the tokens of a text are its skeleton.
-/

namespace ScanTree.PropertyList

/-! ### Phrases -/

abbrev Marked (tag : Tag) := { t : Token Tag // t.tag = tag }

abbrev Sign (tag : Tag) (text : String) := { t : Token Tag // t.tag = tag ∧ t.text = text }

abbrev Comma := Sign (.skip .separator) ","

abbrev Semicolon := Sign (.skip .separator) ";"

abbrev Equals := Sign (.skip .equals) "="

def isScalar (kind : Kind) : Bool :=
  kind = .int || kind = .hexInt || kind = .float || kind = .bool || kind = .date

abbrev Scalar := { t : Token Tag // t.tag.role = .leaf ∧ isScalar t.tag.kind }

abbrev Part := { t : Token Tag // t.tag = .leaf .chars ∨ t.tag = .leaf .escape }

mutual

inductive Phrase
  | scalar (t : Scalar)
  | string (opener : Marked (.start .string)) (parts : List Part) (closer : Marked (.stop .string))
  | data (opener : Marked (.start .data)) (chunks : List (Marked (.leaf .data)))
      (closer : Marked (.stop .data))
  | array (opener : Marked (.start .array)) (elements : Elements) (closer : Marked (.stop .array))
  | dict (opener : Marked (.start .dict)) (members : Members) (closer : Marked (.stop .dict))

/-- Values with commas between them, and maybe one after the last. -/
inductive Elements
  | nil
  | last (v : Phrase)
  | cons (v : Phrase) (comma : Comma) (rest : Elements)

/-- Keys with values, with semicolons between them, and maybe one after the last. -/
inductive Members
  | nil
  | last (key : Marked (.leaf .key)) (equals : Equals) (v : Phrase)
  | cons (key : Marked (.leaf .key)) (equals : Equals) (v : Phrase) (semicolon : Semicolon)
      (rest : Members)

end

mutual

def Phrase.tokens : Phrase → List (Token Tag)
  | .scalar t => [t.1]
  | .string opener parts closer => opener.1 :: (parts.map Subtype.val ++ [closer.1])
  | .data opener chunks closer => opener.1 :: (chunks.map Subtype.val ++ [closer.1])
  | .array opener elements closer => opener.1 :: (elements.tokens ++ [closer.1])
  | .dict opener members closer => opener.1 :: (members.tokens ++ [closer.1])

def Elements.tokens : Elements → List (Token Tag)
  | .nil => []
  | .last v => v.tokens
  | .cons v comma rest => v.tokens ++ comma.1 :: rest.tokens

def Members.tokens : Members → List (Token Tag)
  | .nil => []
  | .last key equals v => key.1 :: equals.1 :: v.tokens
  | .cons key equals v semicolon rest =>
    key.1 :: equals.1 :: (v.tokens ++ semicolon.1 :: rest.tokens)

end

/-! ### Meaning -/

/-- The meaning of a leaf. A date stays as its text. -/
def scalarValue (t : Token Tag) : Except BuildError Value :=
  match evaluator? t.tag.kind with
  | some f => f t.text
  | none => .ok (.date t.text)

/-- The text of a run of characters, or the character that an escape stands for. -/
def partText (t : Token Tag) : Except BuildError (List Char) :=
  if t.tag.kind = .escape then
    match escapeChar? t.text.toList with
    | some c => .ok [c]
    | none => .error (rejected .escape ("unknown escape " ++ Text.quoted t.text))
  else .ok t.text.toList

/-- The key without its quotes and backslashes, if it has quotes. -/
def keyName (text : String) : String :=
  match unquote? text.toList with
  | some inside => String.ofList (unescapeKey inside)
  | none => text

mutual

def Phrase.value : Phrase → Except BuildError Value
  | .scalar t => scalarValue t.1
  | .string _ parts _ =>
    (fun texts => .string (String.ofList texts.flatten)) <$> parts.mapM fun t => partText t.1
  | .data _ chunks _ => .ok (.data (chunks.map fun t => t.1.text))
  | .array _ elements _ => .array <$> elements.values
  | .dict _ members _ => (fun entries => .dict (Entries.ofList entries)) <$> members.entries

def Elements.values : Elements → Except BuildError (List Value)
  | .nil => .ok []
  | .last v => (fun x => [x]) <$> v.value
  | .cons v _ rest => do
    let x ← v.value
    let xs ← rest.values
    return x :: xs

/-- The entries in order, with repeated keys. -/
def Members.entries : Members → Except BuildError (List (String × Value))
  | .nil => .ok []
  | .last key _ v => (fun x => [(keyName key.1.text, x)]) <$> v.value
  | .cons key _ v _ rest => do
    let x ← v.value
    let entries ← rest.entries
    return (keyName key.1.text, x) :: entries

end

lemma keyValue_eq (text : String) : keyValue text = .ok (.string (keyName text)) := by
  unfold keyValue keyName
  rcases unquote? text.toList with _ | inside <;> rfl

/-! ### Skeletons -/

def isBlankToken (t : Token Tag) : Bool :=
  t.tag = .skip .space || t.tag = .skip .newline || t.tag = .skip .comment

/-- The tokens of a scan without blanks and comments. -/
def skeleton (es : List (Scan.Entry Tag Nesting)) : List (Token Tag) :=
  (es.map Scan.Entry.token).filter fun t => !isBlankToken t

lemma skeleton_append (es fs : List (Scan.Entry Tag Nesting)) :
    skeleton (es ++ fs) = skeleton es ++ skeleton fs := by
  simp [skeleton]

lemma skeleton_of_blank {e : Scan.Entry Tag Nesting} (h : isBlankToken e.token = true) :
    skeleton [e] = [] := by
  simp [skeleton, h]

lemma skeleton_of_not_blank {e : Scan.Entry Tag Nesting} (h : isBlankToken e.token = false) :
    skeleton [e] = [e.token] := by
  simp [skeleton, h]

end ScanTree.PropertyList
