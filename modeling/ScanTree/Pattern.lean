import ScanTree.Pattern.CharSet

/-!
Patterns, places in a text, and the conditions on a place that a pattern can hold.
-/

namespace ScanTree

/-- Which characters around a place are word characters. -/
inductive Boundary
  /-- Exactly one of the two. -/
  | one
  /-- Both or none. -/
  | notOne
  | start
  | stop
  /-- None before, whatever follows. -/
  | startHalf
  /-- None after, whatever precedes. -/
  | stopHalf
  deriving DecidableEq, Repr

/-- Conditions on the characters around a place. -/
inductive Look
  | textStart
  | textEnd
  /-- With `returns`, a carriage return ends a line too, alone or before a line feed. -/
  | lineStart (returns : Bool)
  | lineEnd (returns : Bool)
  /-- With `ascii`, only ASCII characters count as word characters. -/
  | word (b : Boundary) (ascii : Bool)
  deriving DecidableEq, Repr

inductive Pattern
  | empty
  | set (s : CharSet)
  | look (l : Look)
  | seq (p q : Pattern)
  | alt (p q : Pattern)
  | group (index : Nat) (p : Pattern)
  /-- From `min` to `max` turns, more or fewer of them preferred. -/
  | rep (p : Pattern) (min : Nat) (max : Option Nat) (greedy : Bool)
  deriving DecidableEq, Repr

/-- A place in a text: the character before it, if there is one, and the text after it. -/
structure Place where
  before : Option Char
  rest : List Char
  deriving DecidableEq, Repr

namespace Place

/-- The place at a byte offset of a text that follows `before`. There is none past the end or
inside a character. -/
def seek? (before : Option Char) : Nat → List Char → Option Place
  | 0, cs => some ⟨before, cs⟩
  | _ + 1, [] => none
  | n + 1, c :: cs => if c.utf8Size ≤ n + 1 then seek? (some c) (n + 1 - c.utf8Size) cs else none

end Place

namespace Look

def isWord (ascii : Bool) (c : Char) : Bool := Text.isWord c && (!ascii || Text.isAscii c)

/-- Whether a boundary lies between two characters, of which we know if they are word
characters. -/
def atBoundary (before after : Bool) : Boundary → Bool
  | .one => before != after
  | .notOne => before == after
  | .start => !before && after
  | .stop => before && !after
  | .startHalf => !before
  | .stopHalf => !after

def holds : Look → Place → Bool
  | textStart, p => p.before.isNone
  | textEnd, p => p.rest.isEmpty
  | lineStart false, p => p.before.all (· == '\n')
  | lineStart true, p =>
    p.before.all fun c => c == '\n' || (c == '\r' && p.rest.head? != some '\n')
  | lineEnd false, p => p.rest.head?.all (· == '\n')
  | lineEnd true, p =>
    p.rest.head?.all fun c => c == '\r' || (c == '\n' && p.before != some '\r')
  | word b ascii, p => atBoundary (p.before.any (isWord ascii)) (p.rest.head?.any (isWord ascii)) b

end Look

namespace Pattern

/-- Whether a pattern never takes anything. -/
def isIdle : Pattern → Bool
  | empty | look _ => true
  | set _ => false
  | seq p q | alt p q => p.isIdle && q.isIdle
  | group _ p => p.isIdle
  | rep p _ max _ => max.isSome && p.isIdle

/-- Whether a pattern takes at least one character. None if it holds a set without characters. -/
def proper? : Pattern → Option Bool
  | empty | look _ => some false
  | set s => if s = .nothing then none else some true
  | seq p q => do return (← p.proper?) || (← q.proper?)
  | alt p q => do return (← p.proper?) && (← q.proper?)
  | group _ p => p.proper?
  | rep p min _ _ => p.proper?.map (· && min != 0)

def isProper (p : Pattern) : Bool := p.proper?.getD false

/-- Number of groups in a pattern. -/
def groupCount : Pattern → Nat
  | empty | set _ | look _ => 0
  | seq p q | alt p q => p.groupCount + q.groupCount
  | group _ p => p.groupCount + 1
  | rep p .. => p.groupCount

end Pattern

end ScanTree
