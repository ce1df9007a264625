import ScanTree.Log
import ScanTree.Pattern.Reader
import ScanTree.Pattern.Search
import ScanTree.Rule
import ScanTree.Text.Offset

/-!
Compiled rule tables.

The rules of a state become one pattern, the alternation of their patterns with a group around
each. After a match, the group that it went through tells the rule. The pattern of a rule may
have groups of its own, so the compiler counts them to know the number of the group around the
next rule.
-/

namespace ScanTree

variable {T X : Type}

/-- The pattern of a rule, or the alternation of all of them, cannot be read. -/
structure CompileError where
  state : String
  index : Nat
  deriving DecidableEq, Repr

namespace CompileError

def reason : String := "error parsing pattern 0"

def message (e : CompileError) : String :=
  "lexer: invalid pattern for rule " ++ toString e.index ++ " of state " ++ e.state ++ ": " ++
    reason

end CompileError

/-- What follows on the match of one rule, and the group around its pattern. -/
structure Edge (T X : Type) where
  group : Nat
  emit : Emit T X
  goto : Goto X

structure State (T X : Type) where
  name : String
  /-- The alternation, as text and as pattern. A state without rules has none. -/
  alternation : Option (List Char × Pattern)
  edges : List (Edge T X)

/-- A match: the number of the rule in its state, its edge, the text and the place after it. -/
structure Match (T X : Type) where
  index : Nat
  edge : Edge T X
  text : List Char
  after : Place

namespace State

/-- The edges of the rules from number `index` on, when the next group has number `group`. -/
def edgesFrom (props : Pattern.Properties) (name : String) (index group : Nat) :
    List (Rule T X) → Except CompileError (List (Edge T X))
  | [] => .ok []
  | rule :: rules =>
    match Pattern.read? rule.source props with
    | none => .error ⟨name, index⟩
    | some p =>
      (⟨group, rule.emit, rule.goto⟩ :: ·) <$>
        edgesFrom props name (index + 1) (group + 1 + p.groupCount) rules

/-- The patterns in brackets, with bars between them. -/
def join (patterns : List (List Char)) : List Char :=
  ['|'].intercalate (patterns.map fun p => '(' :: p ++ [')'])

def compile (props : Pattern.Properties) (name : String) (rules : List (Rule T X)) :
    Except CompileError (State T X) := do
  let edges ← edgesFrom props name 0 1 rules
  if rules.isEmpty then return ⟨name, none, edges⟩
  let text := join (rules.map Rule.source)
  match Pattern.read? text props with
  | none => .error ⟨name, 0⟩
  | some p => .ok ⟨name, some (text, p), edges⟩

/-- The match of a state from a place on, with the edge whose group it went through. -/
def match? (st : State T X) (place : Place) : Option (Match T X) := do
  let (_, p) ← st.alternation
  let stop ← p.match? place
  let (edge, index) ← st.edges.zipIdx.find? fun e => stop.groups.contains e.1.group
  some ⟨index, edge, place.rest.take stop.taken, stop.place⟩

/-- The match of a state at a byte offset of a text. -/
def matchAt? (st : State T X) (input : List Char) (position : Nat) : Option (Match T X) :=
  (Place.seek? none position input).bind st.match?

def describe (st : State T X) : String :=
  "CompiledState \x7b name: " ++ Text.quoted st.name ++ ", pattern: " ++
    describePattern (st.alternation.map fun a => String.ofList a.1) ++ ", edges: " ++
    toString st.edges.length ++ " \x7d"

end State

/-- States with distinct names. -/
structure Grammar (T X : Type) where
  states : List (State T X)

namespace Grammar

/-- Puts a state in the place of the one with its name, or at the end. -/
def place (st : State T X) : List (State T X) → List (State T X)
  | [] => [st]
  | s :: ss => if s.name = st.name then st :: ss else s :: place st ss

/-- Compiles the states of a table in order. Of two states with one name the later one counts. -/
def compile (table : RuleTable T X) (props : Pattern.Properties := {}) :
    Except CompileError (Grammar T X) :=
  Grammar.mk <$> table.foldlM
    (fun states entry => (place · states) <$> State.compile props entry.1 entry.2) []

/-- The record of a successful compilation. -/
def record (g : Grammar T X) : Record :=
  ⟨.debug, "lexer: compiled " ++ toString g.states.length ++ " states"⟩

def state? (g : Grammar T X) (name : String) : Option (State T X) :=
  g.states.find? fun st => st.name = name

/-- The names of the states in order of their code points. -/
def stateNames (g : Grammar T X) : List String :=
  (g.states.map State.name).mergeSort fun a b => !decide (b < a)

def describe (g : Grammar T X) : String :=
  "CompiledGrammar \x7b states: [" ++ ", ".intercalate (g.stateNames.map Text.quoted) ++ "] \x7d"

end Grammar

theorem eq_ok_of_toOption {ε α : Type} {result : Except ε α} {a : α}
    (h : result.toOption = some a) : result = .ok a := by
  cases result with
  | error e => cases h
  | ok b =>
    cases h
    rfl

theorem exists_ok_of_isSome {ε α : Type} {result : Except ε α} (h : result.toOption.isSome) :
    ∃ a, result = .ok a := by
  obtain ⟨a, ha⟩ := Option.isSome_iff_exists.1 h
  exact ⟨a, eq_ok_of_toOption ha⟩

end ScanTree
