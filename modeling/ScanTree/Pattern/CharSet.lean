import ScanTree.Text.Blank
import ScanTree.Text.CaseFold
import ScanTree.Text.Word

/-!
Sets of characters, as a pattern writes them.

A set is kept as the ranges of its ranks, in ascending order and with gaps between them, so that
two sets with the same characters are equal.
-/

namespace ScanTree

structure CharSet where
  ranges : List (Nat × Nat)
  deriving DecidableEq, Repr

namespace CharSet

/-- Code points counted without the surrogates, which are no characters. -/
def rank (codePoint : Nat) : Nat := if codePoint < 0xd800 then codePoint else codePoint - 0x800

/-- The rank of the last character. -/
def lastRank : Nat := rank 0x10ffff

def has (s : CharSet) (n : Nat) : Bool := s.ranges.any fun r => r.1 ≤ n && n ≤ r.2

def contains (s : CharSet) (c : Char) : Bool := s.has (rank c.toNat)

def nothing : CharSet := ⟨[]⟩

def any : CharSet := ⟨[(0, lastRank)]⟩

def char (c : Char) : CharSet := ⟨[(rank c.toNat, rank c.toNat)]⟩

def range (first last : Char) : CharSet := ⟨[(rank first.toNat, rank last.toNat)]⟩

/-- Adds a range to ranges in order, and joins those that it meets or touches. -/
def add (r : Nat × Nat) : List (Nat × Nat) → List (Nat × Nat)
  | [] => [r]
  | s :: ss =>
    if r.2 + 1 < s.1 then r :: s :: ss
    else if s.2 + 1 < r.1 then s :: add r ss
    else add (min r.1 s.1, max r.2 s.2) ss

def union (s t : CharSet) : CharSet := ⟨s.ranges.foldr add t.ranges⟩

/-- The gaps between ranges from rank `n` on. -/
def gaps (n : Nat) : List (Nat × Nat) → List (Nat × Nat)
  | [] => if n ≤ lastRank then [(n, lastRank)] else []
  | r :: rs => if n < r.1 then (n, r.1 - 1) :: gaps (r.2 + 1) rs else gaps (r.2 + 1) rs

def compl (s : CharSet) : CharSet := ⟨gaps 0 s.ranges⟩

def inter (s t : CharSet) : CharSet := (s.compl.union t.compl).compl

def diff (s t : CharSet) : CharSet := s.inter t.compl

/-- Whether the set has exactly one character. -/
def isSingle (s : CharSet) : Bool :=
  match s.ranges with
  | [r] => r.1 == r.2
  | _ => false

/-- The set of the given code points. -/
def ofPoints (points : List Nat) : CharSet :=
  ⟨points.foldr (fun n => add (rank n, rank n)) []⟩

/-- The set of the code points in closed ranges. -/
def ofTable (table : List (Nat × Nat)) : CharSet :=
  ⟨table.foldr (fun r => add (rank r.1, rank r.2)) []⟩

/-- The set with all characters that differ from one of it only in case, where `folds` pairs
code points with their folds. -/
def caseless (folds : List (Nat × Nat)) (s : CharSet) : CharSet :=
  let hit := ofPoints (folds.filterMap fun p =>
    if s.has (rank p.1) || s.has (rank p.2) then some p.2 else none)
  let sources := ofPoints (folds.filterMap fun p =>
    if hit.has (rank p.2) then some p.1 else none)
  (sources.union hit).union s

/-- The union of a list of ranges. -/
def ofRanges (rs : List (Char × Char)) : CharSet :=
  rs.foldr (fun r => (range r.1 r.2).union) nothing

/-- The ASCII classes that have a name. -/
def named? (name : String) : Option CharSet :=
  match name with
  | "alnum" => some (ofRanges [('0', '9'), ('A', 'Z'), ('a', 'z')])
  | "alpha" => some (ofRanges [('A', 'Z'), ('a', 'z')])
  | "ascii" => some (ofRanges [('\x00', '\x7f')])
  | "blank" => some (ofRanges [('\t', '\t'), (' ', ' ')])
  | "cntrl" => some (ofRanges [('\x00', '\x1f'), ('\x7f', '\x7f')])
  | "digit" => some (ofRanges [('0', '9')])
  | "graph" => some (ofRanges [('!', '~')])
  | "lower" => some (ofRanges [('a', 'z')])
  | "print" => some (ofRanges [(' ', '~')])
  | "punct" => some (ofRanges [('!', '/'), (':', '@'), ('[', '\x60'), ('\x7b', '~')])
  | "space" => some (ofRanges [('\t', '\r'), (' ', ' ')])
  | "upper" => some (ofRanges [('A', 'Z')])
  | "word" => some (ofRanges [('0', '9'), ('A', 'Z'), ('_', '_'), ('a', 'z')])
  | "xdigit" => some (ofRanges [('0', '9'), ('A', 'F'), ('a', 'f')])
  | _ => none

def asciiDigit : CharSet := range '0' '9'

def asciiBlank : CharSet := ofRanges [('\t', '\r'), (' ', ' ')]

def asciiWord : CharSet := ofRanges [('0', '9'), ('A', 'Z'), ('_', '_'), ('a', 'z')]

def digit : CharSet := asciiDigit.union (ofTable Text.digitRanges)

def blank : CharSet := ofTable Text.blankRanges

def word : CharSet :=
  asciiWord.union (ofTable (Text.alphabeticRanges ++ Text.digitRanges ++ Text.linkRanges))

end CharSet

end ScanTree
