import ScanTree.Pattern

/-!
Flags of a pattern, and the items whose meaning depends on them.
-/

namespace ScanTree.Pattern

structure Flags where
  /-- `i`: letters match in either case. -/
  ignoreCase : Bool := false
  /-- `m`: `^` and `$` match at lines. -/
  multiLine : Bool := false
  /-- `s`: `.` matches the characters that end a line. -/
  dotAll : Bool := true
  /-- `U`: loops are lazy unless marked. -/
  swapGreed : Bool := false
  /-- `u`: sets hold characters beyond ASCII. -/
  unicode : Bool := true
  /-- `R`: a carriage return ends a line too. -/
  returns : Bool := false
  /-- `x`: white space and comments between items are skipped. -/
  verbose : Bool := false
  deriving DecidableEq, Repr

namespace Flags

def set? (flags : Flags) (letter : Char) (on : Bool) : Option Flags :=
  match letter with
  | 'i' => some { flags with ignoreCase := on }
  | 'm' => some { flags with multiLine := on }
  | 's' => some { flags with dotAll := on }
  | 'U' => some { flags with swapGreed := on }
  | 'u' => some { flags with unicode := on }
  | 'R' => some { flags with returns := on }
  | 'x' => some { flags with verbose := on }
  | _ => none

/-- Reads letters up to `:` or `)`, which is given back. The letters after a `-` are turned off,
and none comes twice. -/
def read (flags : Flags) (seen : List Char) : List Char → Option (Flags × Char × List Char)
  | [] => none
  | c :: cs =>
    if c = ':' then if seen.head? = some '-' then none else some (flags, c, cs)
    else if c = ')' then
      if seen = [] ∨ seen.head? = some '-' then none else some (flags, c, cs)
    else if c ∈ seen then none
    else if c = '-' then read flags (c :: seen) cs
    else (flags.set? c (!seen.contains '-')).bind fun flags => read flags (c :: seen) cs

/-- The set as it is matched under the flags. -/
def charSet (flags : Flags) (s : CharSet) : CharSet :=
  if flags.ignoreCase then s.caseless (if flags.unicode then Text.folds else Text.asciiFolds)
  else s

/-- The set or its complement. The complement reaches beyond ASCII, so that there is none
without `u`. -/
def side? (flags : Flags) (negated : Bool) (s : CharSet) : Option CharSet :=
  if !negated then some s
  else if flags.unicode then some s.compl
  else none

def literal (flags : Flags) (c : Char) : Pattern := .set (flags.charSet (.char c))

/-- Any character, or any but those that end a line. Without `u` this would not be a set of ASCII
characters. -/
def dot? (flags : Flags) : Option Pattern :=
  if !flags.unicode then none
  else if flags.dotAll then some (.set .any)
  else if flags.returns then some (.set (CharSet.compl ((CharSet.char '\n').union (.char '\r'))))
  else some (.set (CharSet.compl (.char '\n')))

def caret (flags : Flags) : Pattern :=
  .look (if flags.multiLine then .lineStart flags.returns else .textStart)

def dollar (flags : Flags) : Pattern :=
  .look (if flags.multiLine then .lineEnd flags.returns else .textEnd)

/-- Drops white space and comments. A comment runs from `#` through the next line feed. -/
def dropIgnored (comment : Bool) : List Char → List Char
  | [] => []
  | c :: cs =>
    if comment then dropIgnored (c != '\n') cs
    else if Text.isBlank c then dropIgnored false cs
    else if c = '#' then dropIgnored true cs
    else c :: cs

/-- What is left of a text to be read as the next item. -/
def skip (flags : Flags) (cs : List Char) : List Char :=
  if flags.verbose then dropIgnored false cs else cs

end Flags

end ScanTree.Pattern
