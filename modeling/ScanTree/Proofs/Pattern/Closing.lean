import Mathlib.Data.List.TakeDrop
import Mathlib.Data.List.TakeWhile
import ScanTree.Pattern.Reader

/-!
Readers of patterns before a closing bracket.

A reader that has read an item from a text reads the same item if the text goes on with a `)` after
its end. The readers look one character ahead or search for a mark, and a `)` is never what they
look for, so that it ends their search as the end of the text does. Only a comment at the end of
the text goes on with it.
-/

namespace ScanTree.Pattern

/-- A reader that reads the same from a text that goes on with a closing bracket. -/
def Closes {α : Type} (read : List Char → Option (α × List Char)) : Prop :=
  ∀ cs x rest more, read cs = some (x, rest) →
    read (cs ++ ')' :: more) = some (x, rest ++ ')' :: more)

/-- A reader that does so unless it reads to the end of the text, where it may have skipped a
comment. -/
def ClosesEarly {α : Type} (read : List Char → Option (α × List Char)) : Prop :=
  ∀ cs x rest more, read cs = some (x, rest) → rest ≠ [] →
    read (cs ++ ')' :: more) = some (x, rest ++ ')' :: more)

section Closes

variable {α β : Type} {read : List Char → Option (α × List Char)}

lemma closes_pure (x : α) : Closes fun cs => some (x, cs) := by
  intro cs y rest more h
  cases h
  rfl

lemma closes_option (o : Option α) : Closes fun cs => o.map (·, cs) := by
  intro cs x rest more h
  obtain ⟨y, rfl, heq⟩ := Option.map_eq_some_iff.1 h
  cases heq
  rfl

lemma Closes.bind {next : α → List Char → Option (β × List Char)} (h : Closes read)
    (hnext : ∀ a, Closes (next a)) : Closes fun cs => (read cs).bind fun p => next p.1 p.2 := by
  intro cs x rest more hx
  obtain ⟨⟨a, rest'⟩, hread, hx⟩ := Option.bind_eq_some_iff.1 hx
  simp only [h cs a rest' more hread, Option.bind_some]
  exact hnext a rest' x rest more hx

/-- A search ends at a mark in the text, or at one that comes after it. -/
lemma takeWhile_append_of_stop (p : Char → Bool) (cs tail : List Char)
    (h : cs.dropWhile p = [] → tail.takeWhile p = []) :
    (cs ++ tail).takeWhile p = cs.takeWhile p ∧
      (cs ++ tail).dropWhile p = cs.dropWhile p ++ tail := by
  induction cs with
  | nil =>
    have htail := h rfl
    have hsplit := List.takeWhile_append_dropWhile (p := p) (l := tail)
    rw [htail, List.nil_append] at hsplit
    exact ⟨htail, hsplit⟩
  | cons c cs ih =>
    by_cases hc : p c = true
    · simp only [List.cons_append, List.takeWhile_cons, List.dropWhile_cons, hc, if_true]
      simp only [List.dropWhile_cons, hc, if_true] at h
      rw [(ih h).1, (ih h).2]
      exact ⟨rfl, rfl⟩
    · simp [hc]

lemma dropWhile_isBlank_append (cs more : List Char) :
    (cs ++ ')' :: more).dropWhile Text.isBlank = cs.dropWhile Text.isBlank ++ ')' :: more :=
  (takeWhile_append_of_stop _ _ _ fun _ => List.takeWhile_cons_of_neg (by decide)).2

end Closes

namespace Flags

variable {flags : Flags} {cs : List Char}

lemma skip_eq (h : flags.verbose = false) (cs : List Char) : flags.skip cs = cs := by
  simp [skip, h]

@[simp] lemma skip_nil (flags : Flags) : flags.skip [] = [] := by simp [skip, dropIgnored]

lemma dropIgnored_dropIgnored (comment : Bool) (cs : List Char) :
    dropIgnored false (dropIgnored comment cs) = dropIgnored comment cs := by
  induction cs generalizing comment with
  | nil => rfl
  | cons c cs ih =>
    rw [dropIgnored]
    split_ifs with hcomment hblank hmark
    · exact ih _
    · exact ih _
    · exact ih _
    · simp [dropIgnored, hblank, hmark]

@[simp] lemma skip_skip (flags : Flags) (cs : List Char) :
    flags.skip (flags.skip cs) = flags.skip cs := by
  unfold skip
  split_ifs
  · exact dropIgnored_dropIgnored false cs
  · rfl

lemma length_dropIgnored_le (comment : Bool) (cs : List Char) :
    (dropIgnored comment cs).length ≤ cs.length := by
  induction cs generalizing comment with
  | nil => exact Nat.le_refl _
  | cons c cs ih =>
    rw [dropIgnored]
    split_ifs
    · exact (ih _).trans (Nat.le_succ _)
    · exact (ih _).trans (Nat.le_succ _)
    · exact (ih _).trans (Nat.le_succ _)
    · exact Nat.le_refl _

/-- What is skipped before a closing bracket is what is skipped without it, or the text ends in a
comment that takes the bracket. -/
lemma dropIgnored_append (comment : Bool) (cs : List Char) :
    (∀ more, dropIgnored comment (cs ++ ')' :: more) = dropIgnored comment cs ++ ')' :: more) ∨
      dropIgnored comment cs = [] ∧ dropIgnored comment (cs ++ [')']) = [] := by
  induction cs generalizing comment with
  | nil =>
    rcases comment with _ | _
    · exact .inl fun more => rfl
    · exact .inr ⟨rfl, rfl⟩
  | cons c cs ih =>
    simp only [List.cons_append, dropIgnored]
    split_ifs
    · exact ih _
    · exact ih _
    · exact ih _
    · exact .inl fun more => rfl

lemma length_skip_le (flags : Flags) (cs : List Char) : (flags.skip cs).length ≤ cs.length := by
  unfold skip
  split_ifs
  · exact length_dropIgnored_le false cs
  · exact Nat.le_refl _

lemma skip_append (flags : Flags) (cs : List Char) :
    (∀ more, flags.skip (cs ++ ')' :: more) = flags.skip cs ++ ')' :: more) ∨
      flags.verbose = true ∧ flags.skip cs = [] ∧ flags.skip (cs ++ [')']) = [] := by
  unfold skip
  split_ifs with hverbose
  · rcases dropIgnored_append false cs with hsame | htaken
    · exact .inl hsame
    · exact .inr ⟨hverbose, htaken⟩
  · exact .inl fun more => rfl

lemma skip_append_of_ne (h : flags.skip cs ≠ []) (more : List Char) :
    flags.skip (cs ++ ')' :: more) = flags.skip cs ++ ')' :: more := by
  rcases skip_append flags cs with hsame | ⟨-, hnil, -⟩
  · exact hsame more
  · exact absurd hnil h

lemma skip_closing (flags : Flags) (more : List Char) :
    flags.skip (')' :: more) = ')' :: more := by
  unfold skip
  split_ifs <;> rfl

lemma read_append {flags flags' : Flags} {seen cs rest : List Char} {stop : Char}
    (h : flags.read seen cs = some (flags', stop, rest)) (tail : List Char) :
    flags.read seen (cs ++ tail) = some (flags', stop, rest ++ tail) := by
  induction cs generalizing flags seen with
  | nil => simp [read] at h
  | cons c cs ih =>
    simp only [List.cons_append, read] at h ⊢
    split_ifs at h ⊢ with hcolon hminus hclose hempty hseen hhyphen
    · cases h
      rfl
    · cases h
      rfl
    · exact ih h
    · obtain ⟨flags₁, hset, h⟩ := Option.bind_eq_some_iff.1 h
      rw [hset, Option.bind_some]
      exact ih h

end Flags

variable {props : Properties} {flags : Flags}

namespace Escape

lemma gatherWhile_append {p : Char → Bool} {n m : Nat} {cs : List Char} (hn : cs.length ≤ n)
    (hnm : n ≤ m) (hrest : (gatherWhile flags p n cs).2 ≠ []) (more : List Char) :
    gatherWhile flags p m (cs ++ ')' :: more) =
      ((gatherWhile flags p n cs).1, (gatherWhile flags p n cs).2 ++ ')' :: more) := by
  induction n generalizing m cs with
  | zero =>
    obtain rfl : cs = [] := by simpa using hn
    exact absurd (by simp [gatherWhile]) hrest
  | succ n ih =>
    obtain ⟨m, rfl⟩ : ∃ k, m = k + 1 := ⟨m - 1, by omega⟩
    rcases hskip : flags.skip cs with _ | ⟨c, after⟩
    · exact absurd (by simp only [gatherWhile, hskip]) hrest
    · have hlen := Flags.length_skip_le flags cs
      rw [hskip, List.length_cons] at hlen
      have hsame := Flags.skip_append_of_ne (by rw [hskip]; exact List.cons_ne_nil c after) more
      simp only [gatherWhile, hskip, hsame, List.cons_append] at hrest ⊢
      split_ifs at hrest ⊢
      · rw [ih (by omega) (by omega) hrest]
      · rfl

lemma gather_append {n : Nat} {cs : List Char} (h : (gather flags n cs).1.length = n)
    (more : List Char) : gather flags n (cs ++ ')' :: more) =
      ((gather flags n cs).1, (gather flags n cs).2 ++ ')' :: more) := by
  induction n generalizing cs with
  | zero => rfl
  | succ n ih =>
    rcases hskip : flags.skip cs with _ | ⟨c, after⟩
    · simp [gather, hskip] at h
    · have hsame := Flags.skip_append_of_ne (by rw [hskip]; exact List.cons_ne_nil c after) more
      simp only [gather, hskip, hsame, List.cons_append, List.length_cons, Nat.add_right_cancel_iff]
        at h ⊢
      rw [ih h]

lemma gather_nil (n : Nat) : gather flags n [] = ([], []) := by
  cases n <;> simp [gather]

lemma closes_hex? {count : Nat} (hcount : 0 < count) : Closes (hex? flags count) := by
  intro cs x rest more hx
  have hne : flags.skip cs ≠ [] := fun hnil => by
    simp only [hex?, hnil, gather_nil, List.length_nil, if_neg hcount.ne] at hx
    cases hx
  unfold hex? at hx ⊢
  rw [Flags.skip_append_of_ne hne]
  split at hx
  · rename_i inside hskip
    simp only [hskip, List.cons_append]
    split at hx
    · rename_i digits mark after hdigits
      have hle : inside.length ≤ (inside ++ ')' :: more).length := by simp
      rw [gatherWhile_append (Nat.le_refl _) hle (by rw [hdigits]; simp), hdigits]
      simp only [List.cons_append, Option.map_eq_some_iff, Prod.mk.injEq] at hx ⊢
      obtain ⟨c, hc, hchar, hrest⟩ := hx
      exact ⟨c, hc, hchar, by rw [hrest]⟩
    · cases hx
  · rename_i hbrace
    simp only at hx
    split_ifs at hx with hlen
    obtain ⟨c, after, hskip⟩ := List.exists_cons_of_ne_nil hne
    have hc : c ≠ '\x7b' := fun hc => hbrace after (by rw [hskip, hc])
    rw [hskip, List.cons_append]
    split
    · rename_i heq
      exact absurd (List.cons.inj heq).1 hc
    · rw [← List.cons_append, ← hskip, gather_append hlen]
      simp only [hlen, if_true]
      obtain ⟨d, hd, hx⟩ := Option.bind_eq_some_iff.1 hx
      rw [hd, Option.bind_some]
      split_ifs at hx ⊢
      cases hx
      rfl

lemma closes_boundary? : Closes (boundary? flags) := by
  intro cs x rest more hx
  unfold boundary? at hx ⊢
  split at hx
  · rename_i inside
    rcases hskip : flags.skip inside with _ | ⟨c, after⟩
    · simp only [hskip] at hx
      cases hx
    · have hsame := Flags.skip_append_of_ne (by rw [hskip]; simp) more
      simp only [List.cons_append, hskip, hsame] at hx ⊢
      split_ifs at hx ⊢ with hc
      · split at hx
        · rename_i name left hname
          have hle : inside.length ≤ (inside ++ ')' :: more).length := by simp
          rw [gatherWhile_append (Nat.le_refl _) hle (by rw [hname]; simp), hname]
          simp only [List.cons_append, Option.map_eq_some_iff, Prod.mk.injEq] at hx ⊢
          obtain ⟨b, hb, hlook, hrest⟩ := hx
          exact ⟨b, hb, hlook, by rw [hrest]⟩
        · cases hx
      · cases hx
        rfl
  · rename_i hbrace
    cases hx
    rcases cs with _ | ⟨c, cs⟩
    · rfl
    · have hc : c ≠ '\x7b' := fun hc => hbrace cs (by rw [hc])
      rw [List.cons_append]
      split
      · rename_i heq
        exact absurd (List.cons.inj heq).1 hc
      · rfl

lemma closes_property? (negated : Bool) : Closes (property? props flags negated) := by
  intro cs x rest more hx
  have hne : flags.skip cs ≠ [] := fun hnil => by
    rw [property?, hnil] at hx
    cases hx
  unfold property? at hx ⊢
  rw [Flags.skip_append_of_ne hne]
  split at hx
  · cases hx
  · rename_i inside hskip
    simp only [hskip, List.cons_append]
    split at hx
    · rename_i text mark after htext
      have hle : inside.length ≤ (inside ++ ')' :: more).length := by simp
      rw [gatherWhile_append (Nat.le_refl _) hle (by rw [htext]; simp), htext]
      exact closes_option (ofProperty? props flags negated (.ofText text)) after x rest more hx
    · cases hx
  · rename_i c after hbrace hskip
    rw [hskip, List.cons_append]
    split
    · rename_i heq
      cases heq
    · rename_i heq
      exact absurd (List.cons.inj heq).1 hbrace
    · rename_i heq
      obtain ⟨rfl, rfl⟩ := List.cons.inj heq
      split_ifs at hx ⊢
      exact closes_option (ofProperty? props flags negated (.letter c)) after x rest more hx

lemma closes_read : Closes (read props flags) := by
  intro cs x rest more hx
  rcases cs with _ | ⟨c, cs⟩
  · cases hx
  · rw [List.cons_append]
    unfold read at hx ⊢
    simp only at hx ⊢
    split at hx
    · exact closes_hex? (by decide) cs x rest more hx
    · exact closes_hex? (by decide) cs x rest more hx
    · exact closes_hex? (by decide) cs x rest more hx
    · exact closes_option _ cs x rest more hx
    · exact closes_option _ cs x rest more hx
    · exact closes_option _ cs x rest more hx
    · exact closes_option _ cs x rest more hx
    · exact closes_option _ cs x rest more hx
    · exact closes_option _ cs x rest more hx
    · exact closes_property? false cs x rest more hx
    · exact closes_property? true cs x rest more hx
    all_goals try exact closes_pure _ cs x rest more hx
    · exact closes_boundary? cs x rest more hx
    · split_ifs at hx with hself
      split <;> simp_all

end Escape

namespace Bracket

def complementMark : List Char → Bool × List Char
  | '^' :: cs => (true, cs)
  | cs => (false, cs)

def firstMembers (flags : Flags) (negated : Bool) (cs : List Char) : Bracket × List Char :=
  match Escape.gatherWhile flags (· = '-') cs.length cs with
  | ([], ']' :: rest) => (addChar ⟨negated, none, []⟩ ']', rest)
  | (hyphens, rest) => (hyphens.foldl addChar ⟨negated, none, []⟩, rest)

lemma opening_eq (flags : Flags) (cs : List Char) : opening flags cs =
    firstMembers flags (complementMark (flags.skip cs)).1 (complementMark (flags.skip cs)).2 := rfl

lemma complementMark_append (cs more : List Char) : complementMark (cs ++ ')' :: more) =
    ((complementMark cs).1, (complementMark cs).2 ++ ')' :: more) := by
  rcases cs with _ | ⟨c, cs⟩
  · rfl
  · by_cases hc : c = '^'
    · subst hc
      rfl
    · simp [complementMark, hc]

lemma firstMembers_append {negated : Bool} {cs : List Char}
    (hrest : (firstMembers flags negated cs).2 ≠ []) (more : List Char) :
    firstMembers flags negated (cs ++ ')' :: more) =
      ((firstMembers flags negated cs).1, (firstMembers flags negated cs).2 ++ ')' :: more) := by
  have hle : cs.length ≤ (cs ++ ')' :: more).length := by simp
  unfold firstMembers at hrest ⊢
  rcases hgather : Escape.gatherWhile flags (· = '-') cs.length cs with ⟨hyphens, _ | ⟨c, rest⟩⟩
  · rw [hgather] at hrest
    exact absurd (by rcases hyphens <;> rfl) hrest
  · rw [Escape.gatherWhile_append (Nat.le_refl _) hle (by rw [hgather]; simp), hgather]
    rcases hyphens with _ | ⟨d, hyphens⟩
    · by_cases hc : c = ']'
      · subst hc
        rfl
      · simp [hc]
    · rfl

lemma opening_append {cs : List Char} (hrest : (opening flags cs).2 ≠ []) (more : List Char) :
    opening flags (cs ++ ')' :: more) =
      ((opening flags cs).1, (opening flags cs).2 ++ ')' :: more) := by
  have hne : flags.skip cs ≠ [] := fun hnil => by
    refine hrest ?_
    rw [opening_eq, hnil]
    simp [complementMark, firstMembers, Escape.gatherWhile]
  rw [opening_eq] at hrest
  rw [opening_eq, opening_eq, Flags.skip_append_of_ne hne, complementMark_append,
    firstMembers_append hrest]

lemma closes_item : Closes (item props flags) := by
  intro cs x rest more hx
  rcases cs with _ | ⟨c, cs⟩
  · cases hx
  · rw [List.cons_append]
    unfold item at hx ⊢
    split at hx
    · cases hx
    · rename_i heq
      obtain ⟨rfl, rfl⟩ := List.cons.inj heq
      exact Escape.closes_read cs x rest more hx
    · rename_i c' cs' hback heq
      obtain ⟨rfl, rfl⟩ := List.cons.inj heq
      cases hx
      split
      · rename_i heq
        cases heq
      · rename_i heq
        exact absurd (List.cons.inj heq).1 fun hc => hback hc
      · rename_i heq
        cases heq
        rfl

def endsRange (flags : Flags) (cs : List Char) : Prop :=
  ahead? flags cs = some ']' ∨ ahead? flags cs = some '-'

/-- A closing bracket does not end a set, and so it does not tell what the hyphen is. -/
lemma endsRange_append (cs more : List Char) :
    endsRange flags (cs ++ ')' :: more) ↔ endsRange flags cs := by
  have hhead : ∀ c, Text.isBlank c = false → cs.head? = some c →
      cs.dropWhile Text.isBlank = cs := fun c hc hcs => by
    obtain ⟨after, rfl⟩ := List.head?_eq_some_iff.1 hcs
    exact List.dropWhile_cons_of_neg (by simp [hc])
  unfold endsRange ahead?
  split_ifs
  · rw [dropWhile_isBlank_append]
    rcases hdrop : cs.dropWhile Text.isBlank with _ | ⟨c, after⟩
    · have hends : ∀ c, Text.isBlank c = false → cs.head? ≠ some c := fun c hc hcs => by
        rw [← hhead c hc hcs, hdrop] at hcs
        cases hcs
      simp [hends ']' (by decide), hends '-' (by decide)]
    · by_cases hc : c = '#'
      · subst hc
        have hends : ∀ c, Text.isBlank c = false → c ≠ '#' → cs.head? ≠ some c :=
          fun c hc hne hcs => by
            rw [← hhead c hc hcs, hdrop] at hcs
            exact hne (Option.some.inj hcs).symm
        simp only [List.cons_append, dropWhile_isBlank_append]
        rcases after.dropWhile Text.isBlank with _ | ⟨d, left⟩
        · simp [hends ']' (by decide) (by decide), hends '-' (by decide) (by decide)]
        · simp
      · simp [hc]
  · rcases cs with _ | ⟨c, cs⟩ <;> simp

lemma closesEarly_member : ClosesEarly (member props flags) := by
  intro cs x rest more hx hrest
  unfold member at hx ⊢
  obtain ⟨⟨first, after⟩, hfirst, hx⟩ := Option.bind_eq_some_iff.1 hx
  have hends : ∀ cs, endsRange flags (cs ++ ')' :: more) ↔ endsRange flags cs := fun cs =>
    endsRange_append cs more
  simp only [endsRange] at hends
  rw [closes_item cs first after more hfirst, Option.bind_eq_bind, Option.bind_some]
  simp only at hx ⊢
  rcases hskip : flags.skip after with _ | ⟨c, left⟩
  · rw [hskip] at hx
    obtain ⟨y, -, heq⟩ := Option.map_eq_some_iff.1 hx
    exact absurd (Prod.mk.inj heq).2.symm hrest
  · rw [hskip] at hx
    rw [Flags.skip_append_of_ne (by rw [hskip]; simp), hskip, List.cons_append]
    by_cases hc : c = '-'
    · subst hc
      simp only [hends] at hx ⊢
      split_ifs at hx ⊢
      · exact closes_option (itemSet? flags first) ('-' :: left) x rest more hx
      · have hne : flags.skip left ≠ [] := fun hnil => by
          rw [hnil] at hx
          cases hx
        rw [Flags.skip_append_of_ne hne]
        exact (closes_item.bind fun last => closes_option (range? flags first last))
          (flags.skip left) x rest more hx
    · split at hx
      · rename_i heq
        exact absurd (List.cons.inj heq).1 hc
      · split
        · rename_i heq
          exact absurd (List.cons.inj heq).1 hc
        · exact closes_option (itemSet? flags first) (c :: left) x rest more hx

lemma named?_eq_none {name : String} (h : ')' ∈ name.toList) : CharSet.named? name = none := by
  unfold CharSet.named?
  split
  all_goals first
    | exact absurd h (by decide)
    | rfl

def classIn (negated : Bool) (cs : List Char) : Option (Bool × CharSet × List Char) :=
  match cs.span (· ≠ ':') with
  | (name, ':' :: ']' :: rest) => (CharSet.named? (String.ofList name)).map (negated, ·, rest)
  | _ => none

lemma named?_cons (cs : List Char) :
    named? (':' :: cs) = classIn (complementMark cs).1 (complementMark cs).2 := by
  rcases cs with _ | ⟨c, cs⟩
  · rfl
  · by_cases hc : c = '^'
    · subst hc
      rfl
    · have hmark : complementMark (c :: cs) = (false, c :: cs) := by simp [complementMark, hc]
      rw [hmark, named?]
      simp only
      · rfl
      · intro after heq
        exact hc (List.cons.inj heq).1

lemma classIn_append (negated : Bool) (cs more : List Char) :
    classIn negated (cs ++ ')' :: more) =
      (classIn negated cs).map fun p => (p.1, p.2.1, p.2.2 ++ ')' :: more) := by
  rcases hdrop : cs.dropWhile (· ≠ ':') with _ | ⟨c, rest⟩
  · -- The search for the colon passes over the bracket, which no name has.
    have hall : ∀ d ∈ cs, (decide (d ≠ ':')) = true := List.dropWhile_eq_nil_iff.1 hdrop
    have hclose : ')' ∈ (cs ++ ')' :: more).takeWhile (· ≠ ':') := by
      rw [List.takeWhile_append_of_pos hall, List.takeWhile_cons_of_pos (by decide)]
      simp
    have hnone : CharSet.named? (String.ofList ((cs ++ ')' :: more).takeWhile (· ≠ ':'))) = none :=
      named?_eq_none (by rwa [String.toList_ofList])
    have hown : classIn negated cs = none := by
      simp only [classIn, List.span_eq_takeWhile_dropWhile, hdrop]
    rw [hown, classIn, List.span_eq_takeWhile_dropWhile]
    split
    · rename_i heq
      rw [← (Prod.mk.inj heq).1, hnone]
      rfl
    · rfl
  · obtain ⟨htake', hdrop'⟩ := takeWhile_append_of_stop (· ≠ ':') cs (')' :: more)
      fun hnil => by rw [hdrop] at hnil; cases hnil
    simp only [classIn, List.span_eq_takeWhile_dropWhile, htake', hdrop', hdrop]
    rcases rest with _ | ⟨d, rest⟩
    · by_cases hc : c = ':' <;> simp [hc]
    · by_cases hc : c = ':'
      · by_cases hd : d = ']'
        · subst hc hd
          simp [Function.comp_def]
        · simp [hd]
      · simp [hc]

lemma named?_append (cs more : List Char) :
    named? (cs ++ ')' :: more) =
      (named? cs).map fun p => (p.1, p.2.1, p.2.2 ++ ')' :: more) := by
  rcases cs with _ | ⟨c, cs⟩
  · rfl
  · by_cases hc : c = ':'
    · subst hc
      rw [List.cons_append, named?_cons, named?_cons, complementMark_append, classIn_append]
    · simp [named?, hc]

def beginsMark : List Char → Bool
  | ']' :: _ | '[' :: _ | '&' :: '&' :: _ | '-' :: '-' :: _ | '~' :: '~' :: _ => true
  | _ => false

lemma beginsMark_append {cs : List Char} (hne : cs ≠ []) (hmark : beginsMark cs = false)
    (more : List Char) : beginsMark (cs ++ ')' :: more) = false := by
  rcases cs with _ | ⟨c, _ | ⟨d, cs⟩⟩
  · exact absurd rfl hne
  · unfold beginsMark at hmark ⊢
    split <;> simp_all
  · unfold beginsMark at hmark ⊢
    split <;> simp_all

lemma run_of_member {n : Nat} {b : Bracket} {outer : List Bracket} {cs : List Char}
    (hmark : beginsMark (flags.skip cs) = false) :
    run props flags (n + 1) b outer cs =
      (member props flags (flags.skip cs)).bind fun p =>
        run props flags n (b.add ⟨p.1, 0⟩) outer p.2 := by
  rw [run]
  unfold beginsMark at hmark
  split <;> simp_all

lemma run_nil (n : Nat) (b : Bracket) (outer : List Bracket) :
    run props flags n b outer [] = none := by
  rcases n with _ | n
  · rfl
  · rw [run_of_member (by rw [Flags.skip_nil]; rfl), Flags.skip_nil]
    rfl

lemma run_append {n : Nat} {b : Bracket} {outer : List Bracket} {cs rest : List Char} {s : Nested}
    (hrun : run props flags n b outer cs = some (s, rest)) (k : Nat) (more : List Char) :
    run props flags (n + k) b outer (cs ++ ')' :: more) = some (s, rest ++ ')' :: more) := by
  induction n generalizing b outer cs with
  | zero => cases hrun
  | succ n ih =>
    rw [Nat.add_right_comm]
    have hne : flags.skip cs ≠ [] := fun hnil => by
      rw [run_of_member (by rw [hnil]; rfl), hnil] at hrun
      cases hrun
    have hskip := Flags.skip_append_of_ne hne more
    rcases hmark : beginsMark (flags.skip cs) with _ | _
    · rw [run_of_member hmark] at hrun
      obtain ⟨⟨set, after⟩, hmember, hrun⟩ := Option.bind_eq_some_iff.1 hrun
      have hafter : after ≠ [] := by
        rintro rfl
        rw [run_nil] at hrun
        cases hrun
      rw [run_of_member (by rw [hskip]; exact beginsMark_append hne hmark more), hskip,
        closesEarly_member (flags.skip cs) set after more hmember hafter]
      exact ih hrun
    · rw [run] at hrun ⊢
      rw [hskip]
      unfold beginsMark at hmark
      split at hmark
      · rename_i after heq
        simp only [heq, List.cons_append] at hrun ⊢
        obtain ⟨closed, hclosed, hrun⟩ := Option.bind_eq_some_iff.1 hrun
        simp only [hclosed, Option.bind_eq_bind, Option.bind_some]
        rcases outer with _ | ⟨o, outer⟩
        · cases hrun
          rfl
        · exact ih hrun
      · rename_i after heq
        simp only [heq, List.cons_append, named?_append] at hrun ⊢
        rcases hname : named? after with _ | ⟨negated, set, left⟩
        · simp only [hname, Option.map_none] at hrun ⊢
          have hrest : (opening flags after).2 ≠ [] := fun hnil => by
            rw [hnil, run_nil] at hrun
            cases hrun
          rw [opening_append hrest]
          exact ih hrun
        · simp only [hname, Option.map_some] at hrun ⊢
          obtain ⟨side, hside, hrun⟩ := Option.bind_eq_some_iff.1 hrun
          rw [hside]
          exact ih hrun
      · rename_i after heq
        simp only [heq, List.cons_append] at hrun ⊢
        exact ih hrun
      · rename_i after heq
        simp only [heq, List.cons_append] at hrun ⊢
        exact ih hrun
      · rename_i after heq
        simp only [heq, List.cons_append] at hrun ⊢
        exact ih hrun
      · cases hmark

lemma closes_read : Closes (read props flags) := by
  intro cs x rest more hx
  unfold read at hx ⊢
  have hrest : (opening flags cs).2 ≠ [] := fun hnil => by
    simp only [hnil, run_nil] at hx
    cases hx
  rw [opening_append hrest]
  have hlen : ((opening flags cs).2 ++ ')' :: more).length + 1 =
      (opening flags cs).2.length + 1 + (more.length + 1) := by
    rw [List.length_append, List.length_cons]
    omega
  simp only [hlen]
  exact run_append hx (more.length + 1) more

end Bracket

namespace Reader

lemma count_nil : count flags [] = none := by simp [count, Escape.gatherWhile]

lemma closesEarly_count : ClosesEarly (count flags) := by
  intro cs n rest more hx hrest
  have hle : cs.length ≤ (cs ++ ')' :: more).length := by simp
  unfold count at hx ⊢
  simp only at hx
  split_ifs at hx with hdigits
  obtain ⟨hvalue, hafter⟩ := Prod.mk.inj (Option.some.inj hx)
  have hleft : (Escape.gatherWhile flags Char.isDigit cs.length
      (cs.dropWhile Text.isBlank)).2 ≠ [] := fun hnil => by
    rw [hnil] at hafter
    exact hrest hafter.symm
  rw [dropWhile_isBlank_append, Escape.gatherWhile_append (List.length_dropWhile_le _ _) hle hleft]
  simp only [dropWhile_isBlank_append]
  rw [if_pos hdigits, hvalue, hafter]

lemma counts_append {cs rest : List Char} {min : Nat}
    {max : Option Nat} (hx : counts flags cs = some (min, max, rest)) (more : List Char) :
    counts flags (cs ++ ')' :: more) = some (min, max, rest ++ ')' :: more) := by
  unfold counts at hx ⊢
  simp only [Option.bind_eq_bind] at hx ⊢
  obtain ⟨⟨first, after⟩, hfirst, hx⟩ := Option.bind_eq_some_iff.1 hx
  have hne : flags.skip cs ≠ [] := fun hnil => by
    rw [hnil, count_nil] at hfirst
    cases hfirst
  have hafter : after ≠ [] := by
    rintro rfl
    cases hx
  rw [Flags.skip_append_of_ne hne, closesEarly_count (flags.skip cs) first after more hfirst hafter,
    Option.bind_some]
  simp only at hx ⊢
  split at hx
  · cases hx
    rfl
  · rename_i after
    simp only [List.cons_append]
    have hne : flags.skip after ≠ [] := fun hnil => by
      simp only [hnil, count_nil] at hx
      cases hx
    rw [Flags.skip_append_of_ne hne]
    split at hx
    · rename_i left hskip
      cases hx
      simp only [hskip, List.cons_append]
    · rename_i hbrace
      obtain ⟨⟨last, after'⟩, hlast, hx⟩ := Option.bind_eq_some_iff.1 hx
      have hafter' : after' ≠ [] := by
        rintro rfl
        cases hx
      have hlast := closesEarly_count (flags.skip after) last after' more hlast hafter'
      split
      · rename_i left heq
        obtain ⟨c, after, hskip⟩ := List.exists_cons_of_ne_nil hne
        rw [hskip, List.cons_append] at heq
        exact (hbrace after (by rw [hskip, (List.cons.inj heq).1])).elim
      · rw [hlast, Option.bind_some]
        split at hx
        · rename_i heq
          cases heq
          simp only [List.cons_append]
          split_ifs at hx ⊢
          cases hx
          rfl
        · cases hx
  · cases hx

def lazyMark : List Char → Bool × List Char
  | '?' :: cs => (true, cs)
  | cs => (false, cs)

lemma lazyMark_append (cs more : List Char) :
    lazyMark (cs ++ ')' :: more) = ((lazyMark cs).1, (lazyMark cs).2 ++ ')' :: more) := by
  rcases cs with _ | ⟨c, cs⟩
  · rfl
  · by_cases hc : c = '?'
    · subst hc
      rfl
    · simp [lazyMark, hc]

variable {r r' : Reader} {cs rest : List Char}

lemma repetition_eq (r : Reader) (min : Nat) (max : Option Nat) (cs : List Char) :
    r.repetition min max cs =
      (r.level.repeat? min max ((lazyMark cs).1 == r.flags.swapGreed)).map fun level =>
        ({ r with level }, (lazyMark cs).2) := by
  rcases cs with _ | ⟨c, cs⟩
  · rfl
  · by_cases hc : c = '?'
    · subst hc
      rfl
    · simp [repetition, lazyMark, hc]

lemma closes_repetition (min : Nat) (max : Option Nat) : Closes (r.repetition min max) := by
  intro cs r' rest more h
  rw [repetition_eq] at h ⊢
  obtain ⟨level, hlevel, heq⟩ := Option.map_eq_some_iff.1 h
  cases heq
  rw [lazyMark_append]
  simp only [hlevel, Option.map_some]

lemma closes_named : Closes r.named := by
  intro cs r' rest more h
  unfold named at h ⊢
  rw [List.span_eq_takeWhile_dropWhile] at h ⊢
  rcases hdrop : cs.dropWhile (· ≠ '>') with _ | ⟨mark, after⟩
  · rw [hdrop] at h
    cases h
  · obtain ⟨htake', hdrop'⟩ := takeWhile_append_of_stop (· ≠ '>') cs (')' :: more)
      fun hnil => by rw [hdrop] at hnil; cases hnil
    rw [htake', hdrop', hdrop]
    simp only [hdrop, List.cons_append] at h ⊢
    split_ifs at h ⊢
    cases h
    rfl

inductive Heading
  | name (cs : List Char)
  | flags (cs : List Char)
  | inside (cs : List Char)

def heading : List Char → Heading
  | '?' :: 'P' :: '<' :: cs | '?' :: '<' :: cs => .name cs
  | '?' :: cs => .flags cs
  | cs => .inside cs

def enter? (r : Reader) : Heading → Option (Reader × List Char)
  | .name cs => r.named cs
  | .flags cs => (r.flags.read [] cs).map fun p =>
    if p.2.1 = ':' then (r.descend p.1 none, p.2.2) else (r.setFlags p.1, p.2.2)
  | .inside cs => some (r.capture, cs)

lemma opening_eq (r : Reader) (cs : List Char) :
    r.opening cs = r.enter? (heading (r.flags.skip cs)) := by
  unfold opening
  generalize r.flags.skip cs = cs
  split
  · rfl
  · rfl
  · rename_i hP hmark
    rw [heading.eq_3 _ hP hmark]
    rfl
  · rename_i hP hmark hflags
    rw [heading.eq_4 _ hP hmark hflags]
    rfl

lemma heading_append (cs more : List Char) : heading (cs ++ ')' :: more) =
    match heading cs with
    | .name cs => .name (cs ++ ')' :: more)
    | .flags cs => .flags (cs ++ ')' :: more)
    | .inside cs => .inside (cs ++ ')' :: more) := by
  rcases cs with _ | ⟨c, cs⟩
  · rfl
  · by_cases hc : c = '?'
    · subst hc
      rcases cs with _ | ⟨d, _ | ⟨e, cs⟩⟩
      · rfl
      · by_cases hd : d = '<'
        · subst hd
          rfl
        · simp [heading, hd]
      · by_cases hd : d = '<'
        · subst hd
          rfl
        · by_cases hP : d = 'P'
          · subst hP
            by_cases he : e = '<'
            · subst he
              rfl
            · simp [heading, he]
          · simp [heading, hd, hP]
    · simp [heading, hc]

lemma closes_enter? : Closes fun cs => r.enter? (heading cs) := by
  intro cs r' rest more h
  simp only [heading_append] at h ⊢
  rcases hhead : heading cs with inside | inside | inside <;> rw [hhead] at h
  · exact closes_named inside r' rest more h
  · obtain ⟨⟨flags, stop, after⟩, hread, heq⟩ := Option.map_eq_some_iff.1 h
    simp only [enter?, Flags.read_append hread, Option.map_some]
    simp only at heq
    split_ifs at heq ⊢ <;> cases heq <;> rfl
  · cases h
    rfl

/-- The text of a group may end in a comment. -/
lemma opening_append (h : r.opening cs = some (r', rest)) :
    (∀ more, r.opening (cs ++ ')' :: more) = some (r', rest ++ ')' :: more)) ∨
      r.flags.verbose = true ∧ rest = [] ∧ r.opening (cs ++ [')']) = some (r', []) := by
  simp only [opening_eq] at h ⊢
  rcases r.flags.skip_append cs with hsame | ⟨hverbose, hnil, htaken⟩
  · refine .inl fun more => ?_
    rw [hsame]
    exact closes_enter? _ r' rest more h
  · rw [hnil] at h
    cases h
    exact .inr ⟨hverbose, rfl, by rw [htaken]; rfl⟩

/-- **Steps before a closing bracket**: an item is read as it is at the end of the text, or it ends
in a comment that takes the bracket. -/
lemma step_append {c : Char} (h : r.step props c cs = some (r', rest)) :
    (∀ more, r.step props c (cs ++ ')' :: more) = some (r', rest ++ ')' :: more)) ∨
      r.flags.verbose = true ∧ rest = [] ∧ r.step props c (cs ++ [')']) = some (r', []) := by
  unfold step at h
  split at h
  · exact opening_append h
  · obtain ⟨closed, hclosed, heq⟩ := Option.map_eq_some_iff.1 h
    cases heq
    exact .inl fun more => by simp only [step, hclosed, Option.map_some]
  · cases h
    exact .inl fun more => rfl
  · obtain ⟨⟨set, after⟩, hread, heq⟩ := Option.map_eq_some_iff.1 h
    cases heq
    exact .inl fun more => by
      simp only [step, Bracket.closes_read cs set rest more hread, Option.map_some]
  · exact .inl fun more => closes_repetition 0 (some 1) cs r' rest more h
  · exact .inl fun more => closes_repetition 0 none cs r' rest more h
  · exact .inl fun more => closes_repetition 1 none cs r' rest more h
  · obtain ⟨⟨min, max, after⟩, hread, h⟩ := Option.bind_eq_some_iff.1 h
    simp only [step, counts_append hread, Option.bind_eq_bind, Option.bind_some] at h ⊢
    rcases r.flags.skip_append after with hsame | ⟨hverbose, hnil, htaken⟩
    · refine .inl fun more => ?_
      rw [hsame]
      exact closes_repetition min max _ r' rest more h
    · rw [hnil] at h
      obtain rfl : rest = [] := by
        rw [repetition_eq] at h
        obtain ⟨level, -, heq⟩ := Option.map_eq_some_iff.1 h
        exact (Prod.mk.inj heq).2.symm
      exact .inr ⟨hverbose, rfl, by rw [htaken]; exact h⟩
  · obtain ⟨⟨e, after⟩, hread, heq⟩ := Option.map_eq_some_iff.1 h
    cases heq
    exact .inl fun more => by
      simp only [step, Escape.closes_read cs e rest more hread, Option.map_some]
  · obtain ⟨p, hdot, heq⟩ := Option.map_eq_some_iff.1 h
    cases heq
    exact .inl fun more => by simp only [step, hdot, Option.map_some]
  · cases h
    exact .inl fun more => rfl
  · cases h
    exact .inl fun more => rfl
  · cases h
    refine .inl fun more => ?_
    unfold step
    split <;> first | rfl | simp_all

end Reader

end ScanTree.Pattern
