import ScanTree.Proofs.PropertyList.Reading
import ScanTree.PropertyList.Render

/-!
Reading brackets, separators and the blanks between tokens.
-/

namespace ScanTree.PropertyList

open Pattern

/-! ### Brackets and separators -/

lemma reads_openArray (tails : List String) (rest : List Char) :
    Reads ⟨"main", tails, '(' :: rest⟩ (Single (.start .array) ['('])
      ⟨"arrayHead", "arrayTail" :: tails, rest⟩ :=
  reads_char (k := 0) (i := 4) rfl rfl rfl (by decide) tails rest

lemma reads_openDict (tails : List String) (rest : List Char) :
    Reads ⟨"main", tails, '\x7b' :: rest⟩ (Single (.start .dict) ['\x7b'])
      ⟨"beforeKey", "dictTail" :: tails, rest⟩ :=
  reads_char (k := 0) (i := 5) rfl rfl rfl (by decide) tails rest

lemma reads_openData (tails : List String) (rest : List Char) :
    Reads ⟨"main", tails, '<' :: rest⟩ (Single (.start .data) ['<']) ⟨"data", tails, rest⟩ :=
  reads_char (k := 0) (i := 6) rfl rfl rfl (by decide) tails rest

lemma reads_openString (tails : List String) (rest : List Char) :
    Reads ⟨"main", tails, '"' :: rest⟩ (Single (.start .string) ['"']) ⟨"string", tails, rest⟩ :=
  reads_char (k := 0) (i := 7) rfl rfl rfl (by decide) tails rest

lemma reads_closeData (tails : List String) (rest : List Char) :
    Reads ⟨"data", tails, '>' :: rest⟩ (Single (.stop .data) ['>']) ⟨after tails, tails, rest⟩ :=
  reads_char (k := 1) (i := 5) rfl rfl rfl (by decide) tails rest

lemma reads_closeString (tails : List String) (rest : List Char) :
    Reads ⟨"string", tails, '"' :: rest⟩ (Single (.stop .string) ['"'])
      ⟨after tails, tails, rest⟩ :=
  reads_char (k := 2) (i := 2) rfl rfl rfl (by decide) tails rest

lemma reads_closeArray {q : String} (hq : q = "arrayHead" ∨ q = "arrayTail" ∨ q = "afterComma")
    (tails : List String) (rest : List Char) :
    Reads ⟨q, "arrayTail" :: tails, ')' :: rest⟩ (Single (.stop .array) [')'])
      ⟨after tails, tails, rest⟩ := by
  rcases hq with rfl | rfl | rfl
  · exact reads_char (k := 4) (i := 4) rfl rfl rfl (by decide) ("arrayTail" :: tails) rest
  · exact reads_char (k := 5) (i := 5) rfl rfl rfl (by decide) ("arrayTail" :: tails) rest
  · exact reads_char (k := 6) (i := 4) rfl rfl rfl (by decide) ("arrayTail" :: tails) rest

lemma reads_closeDict {q : String} (hq : q = "beforeKey" ∨ q = "dictTail") (tails : List String)
    (rest : List Char) :
    Reads ⟨q, "dictTail" :: tails, '\x7d' :: rest⟩ (Single (.stop .dict) ['\x7d'])
      ⟨after tails, tails, rest⟩ := by
  rcases hq with rfl | rfl
  · exact reads_char (k := 8) (i := 6) rfl rfl rfl (by decide) ("dictTail" :: tails) rest
  · exact reads_char (k := 7) (i := 5) rfl rfl rfl (by decide) ("dictTail" :: tails) rest

lemma reads_comma (tails : List String) (rest : List Char) :
    Reads ⟨"arrayTail", tails, ',' :: rest⟩ (Single (.skip .separator) [','])
      ⟨"afterComma", tails, rest⟩ :=
  reads_char (k := 5) (i := 4) rfl rfl rfl (by decide) tails rest

lemma reads_semicolon (tails : List String) (rest : List Char) :
    Reads ⟨"dictTail", tails, ';' :: rest⟩ (Single (.skip .separator) [';'])
      ⟨"beforeKey", tails, rest⟩ :=
  reads_char (k := 7) (i := 4) rfl rfl rfl (by decide) tails rest

lemma reads_equals (tails : List String) (rest : List Char) :
    Reads ⟨"afterKey", tails, '=' :: rest⟩ (Single (.skip .equals) ['=']) ⟨"main", tails, rest⟩ :=
  reads_char (k := 9) (i := 4) rfl rfl rfl (by decide) tails rest

/-! ### Blanks -/

variable {q : String} {tails : List String} {rest : List Char} {more : List (Rule Tag Nesting)}

def Solid (text : List Char) : Prop := ∀ c ∈ text.head?, c ≠ '\t' ∧ c ≠ '\r' ∧ c ≠ ' '

lemma picks_newline (hq : (q, spaceRules ++ more) ∈ ruleTable) {r : List Char}
    (h : r = ['\r'] ∨ r = [] ∧ rest.head? ≠ some '\r') :
    Picks (spaceRules ++ more) 0 (lineRule "\\n\\r?" (.skip .newline) .stay) ('\n' :: r) rest := by
  refine picks_of_refuses hq rfl rfl fun run hrun => ?_
  have hrest : (run.ahead 1).place.rest = r ++ rest := by rw [Run.rest_ahead, hrun]; rfl
  rw [ownPattern_newline, List.length_cons, Nat.add_comm]
  refine (leads_set hrun ((CharSet.contains_char (by decide)).2 rfl)).seq ?_
  rcases h with rfl | ⟨rfl, h⟩
  · exact leads_rep_set hrest (by simp [CharSet.contains_char]) (Nat.zero_le _) (by simp) (.inl rfl)
  · refine leads_rep_set hrest (by simp) (Nat.le_refl 0) (by simp) (.inr ?_)
    rcases rest with _ | ⟨c, cs⟩
    · rfl
    · have hc : c ≠ '\r' := by simpa using h
      simpa [← Bool.not_eq_true, CharSet.contains_char] using hc

lemma reads_newline (hq : (q, spaceRules ++ more) ∈ ruleTable) (h : rest.head? ≠ some '\r') :
    Reads ⟨q, tails, '\n' :: rest⟩ Nothing ⟨q, tails, rest⟩ :=
  (picks_newline hq (.inr ⟨rfl, h⟩)).skips hq (by decide)

lemma solid_iff {text : List Char} : Solid text ↔ text.head?.any blankSet.contains = false := by
  rcases text with _ | ⟨c, cs⟩
  · simp [Solid]
  · simp only [Solid, List.head?_cons, Option.mem_def, Option.some.injEq, forall_eq',
      Option.any_some, ← Bool.not_eq_true, contains_blankSet]
    tauto

lemma solid_cons {c : Char} (h : blankSet.contains c = false) (cs : List Char) :
    Solid (c :: cs) :=
  solid_iff.2 h

lemma picks_blanks (hq : (q, spaceRules ++ more) ∈ ruleTable) {w : List Char} (hne : w ≠ [])
    (hw : ∀ c ∈ w, blankSet.contains c = true) (h : Solid rest) :
    Picks (spaceRules ++ more) 1 (rule "[ \\t\\r]+" (.skip .space) .stay) w rest := by
  refine picks_of_refuses hq rfl ?_ fun run hrun => ?_
  · obtain ⟨c, w, rfl⟩ := List.exists_cons_of_ne_nil hne
    show refuses (spaceRules.take 1) (some c) = true
    rw [refuses_take patterns_spaceRules]
    rcases contains_blankSet.1 (hw c List.mem_cons_self) with rfl | rfl | rfl <;> decide
  · rw [ownPattern_blanks]
    exact leads_rep_set hrun hw (List.length_pos_iff.2 hne) (by simp) (.inr (solid_iff.1 h))

lemma reads_blanks (hq : (q, spaceRules ++ more) ∈ ruleTable) {w : List Char} (hne : w ≠ [])
    (hw : ∀ c ∈ w, blankSet.contains c = true) (h : Solid rest) :
    Reads ⟨q, tails, w ++ rest⟩ Nothing ⟨q, tails, rest⟩ :=
  (picks_blanks hq hne hw h).skips hq (by decide)

lemma reads_spaces (hq : (q, spaceRules ++ more) ∈ ruleTable) (h : Solid rest) (n : Nat) :
    Reads ⟨q, tails, List.replicate (n + 1) ' ' ++ rest⟩ Nothing ⟨q, tails, rest⟩ := by
  refine reads_blanks hq (by simp) (fun c hc => ?_) h
  rw [List.eq_of_mem_replicate hc]
  decide

lemma reads_space (hq : (q, spaceRules ++ more) ∈ ruleTable) (h : Solid rest) :
    Reads ⟨q, tails, ' ' :: rest⟩ Nothing ⟨q, tails, rest⟩ := reads_spaces hq h 0

lemma reads_lineBreak (hq : (q, spaceRules ++ more) ∈ ruleTable) (h : Solid rest)
    (depth : Option Nat) :
    Reads ⟨q, tails, lineBreak depth ++ rest⟩ Nothing ⟨q, tails, rest⟩ := by
  rcases depth with _ | depth
  · exact reads_space hq h
  · rcases hdepth : 4 * depth with _ | n
    · have hbreak : lineBreak (some depth) = ['\n'] := by rw [lineBreak, hdepth]; rfl
      rw [hbreak]
      exact reads_newline hq fun hr => (h '\r' hr).2.1 rfl
    · have hbreak : lineBreak (some depth) = '\n' :: List.replicate (n + 1) ' ' := by
        rw [lineBreak, hdepth]
      rw [hbreak]
      exact (reads_newline hq (by simp [List.replicate_succ])).after_blank (reads_spaces hq h n)

/-! ### Elements -/

def valueFirsts : List Char := "(\x7b<\":@-0123456789Ni".toList

lemma solid_of_mem {c : Char} (hc : c ∈ valueFirsts) (cs : List Char) : Solid (c :: cs) := by
  have hall : (valueFirsts.all fun c => !blankSet.contains c) = true := by decide
  exact solid_cons (by simpa using List.all_eq_true.1 hall c hc) cs

/-- Where neither a blank nor a bracket comes next, an array goes on to a value without taking
anything. -/
lemma reads_idle {c : Char} (hq : q = "arrayHead" ∨ q = "afterComma")
    (hc : ((spacePatterns ++ [Pattern.set (.char ')')]).all fun p => !p.opens (some c)) = true)
    (cs : List Char) : Reads ⟨q, tails, c :: cs⟩ Nothing ⟨"main", tails, c :: cs⟩ := by
  have hmem : (q, spaceRules ++ elementRules) ∈ ruleTable := by
    rcases hq with rfl | rfl
    · exact List.mem_of_getElem? (i := 4) rfl
    · exact List.mem_of_getElem? (i := 6) rfl
  have hrefuses : refuses ((spaceRules ++ elementRules).take 5) (some c) = true := by
    rw [refuses_take (map_ownPattern_eq (k := 4) rfl rfl)]
    exact hc
  have hpicks : Picks (spaceRules ++ elementRules) 5 (otherwise (.skip .space) (.const "main")) []
      (c :: cs) := by
    refine picks_of_refuses hmem rfl hrefuses fun run _ => ?_
    rw [ownPattern_eq (k := 4) (i := 5) rfl rfl rfl rfl]
    exact leads_empty run
  exact hpicks.skips hmem (by decide)

lemma reads_element {c : Char} (hq : q = "arrayHead" ∨ q = "afterComma") (hc : c ∈ valueFirsts)
    (cs : List Char) : Reads ⟨q, tails, c :: cs⟩ Nothing ⟨"main", tails, c :: cs⟩ := by
  have hall : (valueFirsts.all fun c =>
      (spacePatterns ++ [Pattern.set (.char ')')]).all fun p => !p.opens (some c)) = true := by
    decide
  exact reads_idle hq (List.all_eq_true.1 hall c hc) cs

end ScanTree.PropertyList
