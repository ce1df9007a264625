import ScanTree.Grammar

/-!
Scans. Each pull makes one step: it matches the rules of the current state at the current offset
and gives the token of the rule that matched. A scan that has failed or ended stays so.
-/

namespace ScanTree

variable {T X : Type}

structure Token (T : Type) where
  tag : T
  text : String
  /-- Byte offset of the text in the input. -/
  start : Nat
  /-- Byte offset right after the text. -/
  stop : Nat
  deriving DecidableEq, Repr

inductive ScanError
  | unknownState (state : String)
  | noMatch (position : Nat) (state : String) (excerpt : String)
  deriving DecidableEq, Repr

namespace ScanError

def message : ScanError → String
  | unknownState state => "lexer: no such state: " ++ state
  | noMatch position state excerpt =>
    "lexer: invalid input at offset " ++ toString position ++ " in state " ++ state ++
      " before " ++ Text.quoted excerpt

/-- Whether the grammar is at fault and not the input. -/
def isConfiguration : ScanError → Bool
  | unknownState _ => true
  | noMatch .. => false

def position? : ScanError → Option Nat
  | unknownState _ => none
  | noMatch position .. => some position

end ScanError

/-- What one pull gives. -/
inductive Pull (T : Type)
  | token (t : Token T)
  | error (e : ScanError)
  | ended
  deriving DecidableEq, Repr

def Pull.isToken : Pull T → Bool
  | token _ => true
  | _ => false

/-- Number of characters that an error quotes unless told otherwise. -/
def defaultExcerptLength : Nat := 80

structure Scan (T X : Type) where
  grammar : Grammar T X
  input : String
  context : Context X
  /-- The place at the current offset, if that lies in the input. -/
  place : Option Place
  excerptLength : Nat := defaultExcerptLength
  finished : Bool := false

namespace Scan

/-- Takes a match. The rule emits first and chooses the next state then; whatever it does to the
offset and the state of the context is overwritten. -/
def take (s : Scan T X) (m : Match T X) : Token T × Context X :=
  let cx := s.context
  let taken : Taken := ⟨s.input, cx.state, String.ofList m.text⟩
  let stop := cx.position + Text.byteSize m.text
  let emitted := m.edge.emit.apply taken cx
  let next := m.edge.goto.apply taken emitted.2
  (⟨emitted.1, taken.text, cx.position, stop⟩,
    { next.2 with state := next.1, position := stop })

def record (s : Scan T X) (text : List Char) : Record :=
  ⟨.trace, "lexer: " ++ s.context.state ++ "@" ++ toString s.context.position ++ " matched " ++
    Text.quoted (String.ofList text)⟩

/-- What a scan comes to when no rule matches at a place. -/
def unmatched (s : Scan T X) (place : Place) : Pull T :=
  if place.rest.isEmpty then .ended
  else .error (.noMatch s.context.position s.context.state
    (String.ofList (place.rest.take s.excerptLength)))

/-- One pull, the scan after it, and the records it made. -/
def next (s : Scan T X) : Pull T × Scan T X × List Record :=
  match s.finished, s.place with
  | false, some place =>
    match s.grammar.state? s.context.state with
    | none => (.error (.unknownState s.context.state), { s with finished := true }, [])
    | some st =>
      match st.match? place with
      | some m =>
        let (token, context) := s.take m
        (.token token, { s with context, place := some m.after }, [s.record m.text])
      | none => (s.unmatched place, { s with finished := true }, [])
  | _, _ => (.ended, s, [])

/-- A token, the context before it, and the records of its pull. -/
structure Entry (T X : Type) where
  before : Context X
  token : Token T
  log : List Record

/-- The tokens of at most `n` pulls, and the scan and the pull that stopped them. -/
def drain : Nat → Scan T X → List (Entry T X) × Scan T X × Option (Pull T)
  | 0, s => ([], s, none)
  | n + 1, s =>
    match s.next with
    | (.token token, s', log) =>
      let (entries, stopped) := drain n s'
      (⟨s.context, token, log⟩ :: entries, stopped)
    | (pull, s', _) => ([], s', some pull)

end Scan

namespace Grammar

/-- A scan of the input from a byte offset on, in the state `start`. -/
def scan (g : Grammar T X) (input : String) (position : Nat) (start : String) (ext : X) :
    Scan T X :=
  { grammar := g, input, context := ⟨position, start, ext⟩,
    place := Place.seek? none position input.toList }

end Grammar

end ScanTree
