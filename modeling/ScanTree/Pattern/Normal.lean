import ScanTree.Pattern

/-!
Patterns put together in normal form.

Sequences are flat and hold no empty parts, alternatives of single characters are one set, and what
all alternatives begin with stands once before them. No text is matched otherwise than without
this, but in a loop whose turns may take nothing it tells which choices are the same.
-/

namespace ScanTree.Pattern

/-- The parts of a sequence. -/
def factors : Pattern → List Pattern
  | empty => []
  | seq p q => p.factors ++ q.factors
  | p => [p]

/-- The parts of a choice. -/
def alternatives : Pattern → List Pattern
  | alt p q => p.alternatives ++ q.alternatives
  | p => [p]

def sequence : List Pattern → Pattern
  | [] => empty
  | [p] => p
  | p :: ps => seq p (sequence ps)

def anyOf : List Pattern → Pattern
  | [] => set .nothing
  | [p] => p
  | p :: ps => alt p (anyOf ps)

def concat (ps : List Pattern) : Pattern := sequence (ps.flatMap factors)

def charSet? : Pattern → Option CharSet
  | set s => some s
  | _ => none

def isLetter (p : Pattern) : Bool := p.charSet?.any CharSet.isSingle

/-- The set of all characters in sets, if each of them has one character or none has just one. -/
def merge? (ps : List Pattern) : Option CharSet := do
  let sets ← ps.mapM charSet?
  if sets.all CharSet.isSingle || !sets.any CharSet.isSingle then
    some (sets.foldr CharSet.union .nothing)
  else none

/-- Alternatives without a common beginning. -/
def either (ps : List Pattern) : Pattern :=
  let ps := ps.flatMap alternatives
  match merge? ps with
  | some s => set s
  | none => anyOf ps

/-- The parts of a sequence, where letters that follow each other are one part. -/
def chunks (p : Pattern) : List (List Pattern) :=
  p.factors.splitBy fun p q => p.isLetter && q.isLetter

/-- What two lists begin with. -/
def shared {α : Type} [DecidableEq α] : List α → List α → List α
  | a :: as, b :: bs => if a = b then a :: shared as bs else []
  | _, _ => []

/-- Takes a common beginning out of alternatives that all go on after their first part. -/
def lift? (ps : List Pattern) : Option Pattern :=
  match ps.map chunks with
  | [] => none
  | c :: cs =>
    let common := cs.foldl shared c
    if common = [] ∨ (c :: cs).any (·.length < 2) then none
    else
      let ends := (c :: cs).map fun c => concat (c.drop common.length).flatten
      some (concat (common.flatten ++ [either ends]))

def choice : List Pattern → Pattern
  | [p] => p
  | ps =>
    let ps := ps.flatMap alternatives
    (lift? ps).getD (either ps)

/-- Repetition. A pattern that never takes anything has at most one turn, and no turns at all
leave nothing of it, its groups included. -/
def repeated (p : Pattern) (least : Nat) (most : Option Nat) (greedy : Bool) : Pattern :=
  let (least, most) :=
    if p.isIdle then (min least 1, some (min (most.getD 1) 1)) else (least, most)
  if most = some 0 then empty
  else if least = 1 ∧ most = some 1 then p
  else rep p least most greedy

end ScanTree.Pattern
