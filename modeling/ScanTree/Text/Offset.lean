/-!
Byte offsets into text. Text is a list of characters here, and an offset counts the bytes that
the characters before it take in UTF-8.
-/

namespace ScanTree.Text

/-- Number of bytes of the UTF-8 form of a text. -/
def byteSize : List Char → Nat
  | [] => 0
  | c :: cs => c.utf8Size + byteSize cs

@[simp] theorem byteSize_nil : byteSize [] = 0 := rfl

@[simp] theorem byteSize_cons (c : Char) (cs : List Char) :
    byteSize (c :: cs) = c.utf8Size + byteSize cs := rfl

@[simp] theorem byteSize_append (xs ys : List Char) :
    byteSize (xs ++ ys) = byteSize xs + byteSize ys := by
  induction xs with
  | nil => simp
  | cons x xs ih => simp [ih, Nat.add_assoc]

/-- The text before and after an offset. There is none past the end or inside a character. -/
def splitAtByte? : Nat → List Char → Option (List Char × List Char)
  | 0, cs => some ([], cs)
  | _ + 1, [] => none
  | n + 1, c :: cs =>
    if c.utf8Size ≤ n + 1 then
      (splitAtByte? (n + 1 - c.utf8Size) cs).map fun p => (c :: p.1, p.2)
    else none

/-- The two parts make up the text, and the first one has the size asked for. -/
theorem splitAtByte?_eq_some_iff {n : Nat} {cs before after : List Char} :
    splitAtByte? n cs = some (before, after) ↔ cs = before ++ after ∧ byteSize before = n := by
  induction cs generalizing n before with
  | nil => cases n <;> cases before <;> simp [splitAtByte?, eq_comm]
  | cons c cs ih =>
    have hc := c.utf8Size_pos
    cases n with
    | zero =>
      cases before with
      | nil => simp [splitAtByte?, eq_comm]
      | cons d ds => have := d.utf8Size_pos; simp [splitAtByte?]; omega
    | succ n =>
      cases before with
      | nil => simp [splitAtByte?]
      | cons d ds =>
        have key := @ih (n + 1 - c.utf8Size) ds
        by_cases h : c.utf8Size ≤ n + 1
        · simp only [splitAtByte?, h, if_true, Option.map_eq_some_iff, Prod.mk.injEq,
            List.cons.injEq, Prod.exists, List.cons_append, byteSize_cons]
          constructor
          · rintro ⟨a, b, hab, ⟨rfl, rfl⟩, rfl⟩
            obtain ⟨rfl, hs⟩ := key.1 hab
            exact ⟨⟨rfl, rfl⟩, by omega⟩
          · rintro ⟨⟨rfl, rfl⟩, hs⟩
            exact ⟨ds, after, key.2 ⟨rfl, by omega⟩, ⟨rfl, rfl⟩, rfl⟩
        · simp only [splitAtByte?, h, if_false, List.cons_append, List.cons.injEq, byteSize_cons]
          constructor
          · simp
          · rintro ⟨⟨rfl, _⟩, hs⟩
            omega

/-- The text from offset `start` up to offset `stop`. -/
def slice? (start stop : Nat) (cs : List Char) : Option (List Char) :=
  if start ≤ stop then
    (splitAtByte? start cs).bind fun p => (splitAtByte? (stop - start) p.2).map (·.1)
  else none

/-- The number of line feeds in a text. -/
def lineFeeds (cs : List Char) : Nat := cs.count '\n'

@[simp] theorem lineFeeds_nil : lineFeeds [] = 0 := rfl

@[simp] theorem lineFeeds_cons (c : Char) (cs : List Char) :
    lineFeeds (c :: cs) = lineFeeds cs + if c = '\n' then 1 else 0 := by
  simp [lineFeeds, List.count_cons]

@[simp] theorem lineFeeds_append (xs ys : List Char) :
    lineFeeds (xs ++ ys) = lineFeeds xs + lineFeeds ys := List.count_append

theorem lineFeeds_eq_zero {cs : List Char} : lineFeeds cs = 0 ↔ '\n' ∉ cs := List.count_eq_zero

/-- Number of bytes up to and with the last line feed, if there is one. -/
def afterLastLineFeed? : List Char → Option Nat
  | [] => none
  | c :: cs =>
    match afterLastLineFeed? cs with
    | some n => some (c.utf8Size + n)
    | none => if c = '\n' then some 1 else none

end ScanTree.Text
