import ScanTree.Pattern
import Std.Data.TreeMap

/-!
The match of a pattern from a place on.

A search goes through the pattern and the text together. At a choice it takes the preferred way,
which is the left branch, or another turn of a greedy loop, and comes back for the other way if the
first one fails. It makes no choice twice at the same place, for what has failed there fails again.
So the search ends soon, and so does a loop whose turns take nothing.
-/

namespace ScanTree

/-- Where a choice stands in a pattern: the way to it from the whole pattern, last step first. -/
abbrev Address := List Nat

/-- A match on its way: the place it has come to, the number of characters it has taken, and the
groups it has been in. -/
structure Run where
  place : Place
  taken : Nat
  groups : List Nat
  deriving DecidableEq, Repr

namespace Run

def start (place : Place) : Run := ⟨place, 0, []⟩

def enter (r : Run) (group : Nat) : Run := { r with groups := group :: r.groups }

/-- Takes the next character, if that is one of the set. -/
def take? (set : CharSet) (r : Run) : Option Run :=
  match r.place.rest with
  | [] => none
  | c :: cs => if set.contains c then some ⟨⟨some c, cs⟩, r.taken + 1, r.groups⟩ else none

end Run

/-- The choices that a search has made, by the number of characters taken before. -/
structure Tried where
  choices : Std.TreeMap Nat (List Address) := {}

namespace Tried

def has (t : Tried) (a : Address) (taken : Nat) : Bool := (t.choices.getD taken []).contains a

def add (t : Tried) (a : Address) (taken : Nat) : Tried :=
  ⟨t.choices.insert taken (a :: t.choices.getD taken [])⟩

@[simp] theorem has_empty (a : Address) (n : Nat) : ({} : Tried).has a n = false := by
  simp [has]

theorem has_add (t : Tried) (a b : Address) (m n : Nat) :
    (t.add a m).has b n = (decide (m = n ∧ b = a) || t.has b n) := by
  by_cases h : m = n <;> simp [has, add, Std.TreeMap.getD_insert, h]

end Tried

inductive Finding
  | found (stop : Run)
  | failed (tried : Tried)

namespace Finding

def orElse (o : Finding) (other : Tried → Finding) : Finding :=
  match o with
  | found r => found r
  | failed t => other t

def run? : Finding → Option Run
  | found r => some r
  | failed _ => none

end Finding

/-- A search from a run on, with the choices made so far. -/
abbrev Search := Run → Tried → Finding

namespace Search

/-- One search and then another, unless the choice between them was made here before. -/
def choose (a : Address) (first second : Search) : Search := fun r t =>
  if t.has a r.taken then .failed t else (first r (t.add a r.taken)).orElse (second r)

/-- One search from several runs, up to the first that succeeds. -/
def fromAny (next : Search) : List Run → Tried → Finding
  | [], t => .failed t
  | r :: rs, t => (next r t).orElse (fromAny next rs)

/-- Exactly `n` turns of a loop and then `next`. Turns are numbered from `first` on. -/
def times (turn : Nat → Search → Search) (first : Nat) : Nat → Search → Search
  | 0, next, r, t => next r t
  | n + 1, next, r, t => turn first (times turn (first + 1) n next) r t

/-- At most `n` turns, each after a choice, and then `next`. -/
def atMost (turn : Nat → Search → Search) (choice : Nat → Search → Search → Search) (first : Nat) :
    Nat → Search → Search
  | 0, next, r, t => next r t
  | n + 1, next, r, t =>
    choice first (turn first (atMost turn choice (first + 1) n next)) next r t

/-- Any number of turns, each after the same choice, and then `next`. That choice is made once at
a place, so the loop never comes to it `n` times if there are fewer places. -/
def many (turn : Search → Search) (choice : Search → Search → Search) (next : Search) :
    Nat → Search
  | 0, _, t => .failed t
  | n + 1, r, t => choice (turn (many turn choice next n)) next r t

/-- The runs that take characters of a set as long as the choice to go on is new. The longest
comes first, and last come those in `shorter`. -/
def stretch (set : CharSet) (a : Address) (groups : List Nat) :
    (before : Option Char) → (taken : Nat) → (shorter : List Run) → List Char → Tried →
      List Run × Tried
  | before, taken, shorter, [], t =>
    if t.has a taken then (shorter, t)
    else (⟨⟨before, []⟩, taken, groups⟩ :: shorter, t.add a taken)
  | before, taken, shorter, c :: cs, t =>
    if t.has a taken then (shorter, t)
    else
      let runs := ⟨⟨before, c :: cs⟩, taken, groups⟩ :: shorter
      if set.contains c then stretch set a groups (some c) (taken + 1) runs cs (t.add a taken)
      else (runs, t.add a taken)

/-- Tries `next` at once, and then after each character of a set, as long as the choice to go on
is new. -/
def creep (set : CharSet) (a : Address) (groups : List Nat) (next : Search) :
    (before : Option Char) → (taken : Nat) → List Char → Tried → Finding
  | before, taken, [], t =>
    if t.has a taken then .failed t else next ⟨⟨before, []⟩, taken, groups⟩ (t.add a taken)
  | before, taken, c :: cs, t =>
    if t.has a taken then .failed t
    else
      (next ⟨⟨before, c :: cs⟩, taken, groups⟩ (t.add a taken)).orElse fun t =>
        if set.contains c then creep set a groups next (some c) (taken + 1) cs t else .failed t

/-- Any number of characters of a set and then `next`. -/
def spell (set : CharSet) (a : Address) (greedy : Bool) (next : Search) : Search := fun r t =>
  if greedy then
    let (runs, t) := stretch set a r.groups r.place.before r.taken [] r.place.rest t
    fromAny next runs t
  else creep set a r.groups next r.place.before r.taken r.place.rest t

end Search

namespace Pattern

/-- The search for a pattern, of which the choices are under an address, and then `next`. The
turns of a loop have odd numbers and the choices before them even ones. If the body of a loop may
take nothing, the choice before its first turn is another one than those after it. -/
def search : Pattern → Address → Search → Search
  | empty, _, next, r, t => next r t
  | set cs, _, next, r, t =>
    match r.take? cs with
    | some r => next r t
    | none => .failed t
  | look l, _, next, r, t => if l.holds r.place then next r t else .failed t
  | seq p q, a, next, r, t => p.search (0 :: a) (q.search (1 :: a) next) r t
  | alt p q, a, next, r, t => Search.choose a (p.search (0 :: a) next) (q.search (1 :: a) next) r t
  | group i p, a, next, r, t => p.search a next (r.enter i) t
  | rep p min max greedy, a, next, r, t =>
    let turn (i : Nat) : Search → Search := p.search ((2 * i + 1) :: a)
    let choice (i : Nat) (more stop : Search) : Search :=
      if greedy then Search.choose ((2 * i) :: a) more stop
      else Search.choose ((2 * i) :: a) stop more
    let rounds : Search :=
      match p with
      | set cs => Search.spell cs (0 :: a) greedy next
      | _ => fun r t => Search.many (turn 0) (choice 0) next (r.place.rest.length + 2) r t
    match min, max with
    | min, some max => Search.times turn 0 min (Search.atMost turn choice min (max - min) next) r t
    | 0, none =>
      if p.isProper then rounds r t else choice 1 (turn 0 rounds) next r t
    | min + 1, none => Search.times turn 1 min (turn 0 rounds) r t

/-- The match from a place on, at its end. -/
def match? (p : Pattern) (place : Place) : Option Run :=
  (p.search [] (fun r _ => .found r) (.start place) {}).run?

end Pattern

end ScanTree
