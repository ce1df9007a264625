import ScanTree.Proofs.PropertyList.Lexicon

/-!
What a scan of property-list text can do in one pull.

A pull gives the token of the first rule that matches. Seen from the states and tails there are few
kinds of moves, and every proof about scans goes by cases on them.
-/

namespace ScanTree.PropertyList

open Pattern

/-- The state after a value inside the given tails. -/
def after (tails : List String) : String := tails.head?.getD "end"

def tagOf (r : Rule Tag Nesting) : Tag := (r.emit.apply ⟨"", "", ""⟩ ⟨0, "", {}⟩).1

def landing (r : Rule Tag Nesting) (state : String) (tails : List String) : String × List String :=
  let next := r.goto.apply ⟨"", state, ""⟩ ⟨0, state, { tails }⟩
  (next.1, next.2.ext.tails)

/-- The tag and the landing of a rule depend on nothing else, and only its goto moves the tails. -/
structure Steady (r : Rule Tag Nesting) : Prop where
  emits : ∀ taken cx, (r.emit.apply taken cx).1 = tagOf r
  keeps : ∀ taken cx, (r.emit.apply taken cx).2.ext.tails = cx.ext.tails
  lands : ∀ taken (cx : Context Nesting), (r.goto.apply taken cx).1 =
    (landing r taken.state cx.ext.tails).1
  nests : ∀ taken (cx : Context Nesting), (r.goto.apply taken cx).2.ext.tails =
    (landing r taken.state cx.ext.tails).2

inductive IsGoto : Goto Nesting → Prop
  | stay : IsGoto .stay
  | const (state : String) : IsGoto (.const state)
  | resume : IsGoto resume
  | descend (tail first : String) : IsGoto (descend tail first)
  | ascend : IsGoto ascend

lemma tails_trackLines (text : List Char) (cx : Context Nesting) :
    (trackLines text cx).ext.tails = cx.ext.tails := by
  unfold trackLines
  split <;> rfl

lemma steady_rule (pattern : String) (tag : Tag) {goto : Goto Nesting} (h : IsGoto goto) :
    Steady (rule pattern tag goto) := by
  refine ⟨fun _ _ => rfl, fun _ _ => rfl, ?_, ?_⟩ <;> cases h <;> exact fun _ _ => rfl

lemma steady_otherwise (tag : Tag) {goto : Goto Nesting} (h : IsGoto goto) :
    Steady (otherwise tag goto) := by
  refine ⟨fun _ _ => rfl, fun _ _ => rfl, ?_, ?_⟩ <;> cases h <;> exact fun _ _ => rfl

lemma steady_lineRule (pattern : String) (tag : Tag) {goto : Goto Nesting} (h : IsGoto goto) :
    Steady (lineRule pattern tag goto) := by
  refine ⟨fun _ _ => rfl, fun taken cx => tails_trackLines taken.text.toList cx, ?_, ?_⟩ <;>
    cases h <;> exact fun _ _ => rfl

lemma steady_of_mem {q : String} {rules : List (Rule Tag Nesting)} (hq : (q, rules) ∈ ruleTable)
    {r : Rule Tag Nesting} (hr : r ∈ rules) : Steady r := by
  have hall : ∀ e ∈ ruleTable, ∀ r ∈ e.2, Steady r := by
    simp only [ruleTable, mainRules, elementRules, spaceRules, closeArray, closeDict,
      List.forall_mem_cons, List.forall_mem_append]
    simp [steady_rule, steady_lineRule, steady_otherwise, IsGoto.stay, IsGoto.const,
      IsGoto.resume, IsGoto.descend, IsGoto.ascend]
  exact hall _ hq r hr

/-- What one pull does to the state and the tails, by the tag of its token. -/
inductive Move : String → List String → Tag → String → List String → Prop
  | blank (q : String) (tails : List String) (kind : Kind)
      (hkind : kind = .space ∨ kind = .newline ∨ kind = .comment) :
      Move q tails (.skip kind) q tails
  | scalar (tails : List String) (kind : Kind)
      (hkind : kind = .int ∨ kind = .hexInt ∨ kind = .float ∨ kind = .bool ∨ kind = .date) :
      Move "main" tails (.leaf kind) (after tails) tails
  | openArray (tails : List String) :
      Move "main" tails (.start .array) "arrayHead" ("arrayTail" :: tails)
  | openDict (tails : List String) :
      Move "main" tails (.start .dict) "beforeKey" ("dictTail" :: tails)
  | openData (tails : List String) : Move "main" tails (.start .data) "data" tails
  | openString (tails : List String) (q : String) (hq : q = "string" ∨ q = "sstring") :
      Move "main" tails (.start .string) q tails
  | chunk (tails : List String) : Move "data" tails (.leaf .data) "data" tails
  | closeData (tails : List String) : Move "data" tails (.stop .data) (after tails) tails
  | part (q : String) (tails : List String) (kind : Kind) (hq : q = "string" ∨ q = "sstring")
      (hkind : kind = .chars ∨ kind = .escape) : Move q tails (.leaf kind) q tails
  | closeString (q : String) (tails : List String) (hq : q = "string" ∨ q = "sstring") :
      Move q tails (.stop .string) (after tails) tails
  | element (q : String) (tails : List String) (hq : q = "arrayHead" ∨ q = "afterComma") :
      Move q tails (.skip .space) "main" tails
  | closeArray (q : String) (tails : List String)
      (hq : q = "arrayHead" ∨ q = "arrayTail" ∨ q = "afterComma") :
      Move q tails (.stop .array) (after tails.tail) tails.tail
  | comma (tails : List String) : Move "arrayTail" tails (.skip .separator) "afterComma" tails
  | semicolon (tails : List String) : Move "dictTail" tails (.skip .separator) "beforeKey" tails
  | closeDict (q : String) (tails : List String) (hq : q = "beforeKey" ∨ q = "dictTail") :
      Move q tails (.stop .dict) (after tails.tail) tails.tail
  | key (tails : List String) : Move "beforeKey" tails (.leaf .key) "afterKey" tails
  | equals (tails : List String) : Move "afterKey" tails (.skip .equals) "main" tails

def Moves (q : String) (r : Rule Tag Nesting) : Prop :=
  ∀ tails, Move q tails (tagOf r) (landing r q tails).1 (landing r q tails).2

lemma moves_spaceRules (q : String) : ∀ r ∈ spaceRules, Moves q r := by
  simp only [spaceRules, List.forall_mem_cons]
  refine ⟨?_, ?_, ?_, ?_, by simp⟩ <;> intro tails
  · exact .blank q tails .newline (by decide)
  · exact .blank q tails .space (by decide)
  · exact .blank q tails .comment (by decide)
  · exact .blank q tails .comment (by decide)

lemma moves_mainRules : ∀ r ∈ mainRules, Moves "main" r := by
  simp only [mainRules, List.forall_mem_cons]
  refine ⟨?_, ?_, ?_, ?_, ?_, ?_, ?_, ?_, ?_, ?_, by simp⟩ <;> intro tails
  · exact .openArray tails
  · exact .openDict tails
  · exact .openData tails
  · exact .openString tails "string" (by decide)
  · exact .openString tails "sstring" (by decide)
  · exact .scalar tails .hexInt (by decide)
  · exact .scalar tails .float (by decide)
  · exact .scalar tails .int (by decide)
  · exact .scalar tails .bool (by decide)
  · exact .scalar tails .date (by decide)

lemma moves_elementRules {q : String} (hq : q = "arrayHead" ∨ q = "afterComma") :
    ∀ r ∈ elementRules, Moves q r := by
  simp only [elementRules, List.forall_mem_cons]
  refine ⟨?_, ?_, by simp⟩ <;> intro tails
  · exact .closeArray q tails (by rcases hq with rfl | rfl <;> decide)
  · exact .element q tails hq

/-- **Moves**: every rule of every state does one of the moves. -/
lemma moves_of_mem {q : String} {rules : List (Rule Tag Nesting)} (hq : (q, rules) ∈ ruleTable)
    {r : Rule Tag Nesting} (hr : r ∈ rules) : Moves q r := by
  have hall : ∀ e ∈ ruleTable, ∀ r ∈ e.2, Moves e.1 r := by
    simp only [ruleTable, List.forall_mem_cons, List.forall_mem_append]
    refine ⟨⟨moves_spaceRules _, moves_mainRules⟩, ⟨moves_spaceRules _, ?_, ?_, by simp⟩,
      ⟨?_, ?_, ?_, by simp⟩, ⟨?_, ?_, ?_, by simp⟩,
      ⟨moves_spaceRules _, moves_elementRules (by decide)⟩,
      ⟨moves_spaceRules _, ?_, ?_, by simp⟩, ⟨moves_spaceRules _, moves_elementRules (by decide)⟩,
      ⟨moves_spaceRules _, ?_, ?_, by simp⟩, ⟨moves_spaceRules _, ?_, ?_, ?_, by simp⟩,
      ⟨moves_spaceRules _, ?_, by simp⟩, moves_spaceRules _, by simp⟩ <;> intro tails
    · exact .chunk tails
    · exact .closeData tails
    · exact .part "string" tails .chars (by decide) (by decide)
    · exact .part "string" tails .escape (by decide) (by decide)
    · exact .closeString "string" tails (by decide)
    · exact .part "sstring" tails .chars (by decide) (by decide)
    · exact .part "sstring" tails .escape (by decide) (by decide)
    · exact .closeString "sstring" tails (by decide)
    · exact .comma tails
    · exact .closeArray "arrayTail" tails (by decide)
    · exact .semicolon tails
    · exact .closeDict "dictTail" tails (by decide)
    · exact .key tails
    · exact .key tails
    · exact .closeDict "beforeKey" tails (by decide)
    · exact .equals tails
  exact hall _ hq r hr

/-! ### Texts -/

/-- What the text of a token looks like, by its tag and the state it is read in. -/
def SpellsWell (q : String) (tag : Tag) (w : List Char) : Prop :=
  match tag.role, tag.kind with
  | .leaf, kind => WellSpelled kind w
  | .skip, .separator => if q = "arrayTail" then w = [','] else w = [';']
  | .skip, .equals => w = ['=']
  | _, _ => True

def Spelling (q : String) (r : Rule Tag Nesting) : Prop :=
  ∀ w, r.ownPattern.Spells w → SpellsWell q (tagOf r) w

lemma spelling_spaceRules (q : String) : ∀ r ∈ spaceRules, Spelling q r := by
  simp only [spaceRules, List.forall_mem_cons]
  refine ⟨?_, ?_, ?_, ?_, by simp⟩ <;> exact fun _ _ => trivial

lemma spelling_mainRules : ∀ r ∈ mainRules, Spelling "main" r := by
  simp only [mainRules, List.forall_mem_cons]
  refine ⟨?_, ?_, ?_, ?_, ?_, ?_, ?_, ?_, ?_, ?_, by simp⟩ <;> intro w hw
  · trivial
  · trivial
  · trivial
  · trivial
  · trivial
  · exact wellSpelled_hexInt (by rwa [ownPattern_hex] at hw)
  · exact wellSpelled_float (by rwa [ownPattern_float] at hw)
  · exact wellSpelled_int (by rwa [ownPattern_int] at hw)
  · exact wellSpelled_bool (by rwa [ownPattern_bool] at hw)
  · trivial

lemma spelling_elementRules (q : String) : ∀ r ∈ elementRules, Spelling q r := by
  simp only [elementRules, List.forall_mem_cons]
  exact ⟨fun _ _ => trivial, fun _ _ => trivial, by simp⟩

lemma spelling_of_mem {q : String} {rules : List (Rule Tag Nesting)} (hq : (q, rules) ∈ ruleTable)
    {r : Rule Tag Nesting} (hr : r ∈ rules) : Spelling q r := by
  have hall : ∀ e ∈ ruleTable, ∀ r ∈ e.2, Spelling e.1 r := by
    simp only [ruleTable, List.forall_mem_cons, List.forall_mem_append]
    refine ⟨⟨spelling_spaceRules _, spelling_mainRules⟩,
      ⟨spelling_spaceRules _, ?_, ?_, by simp⟩, ⟨?_, ?_, ?_, by simp⟩, ⟨?_, ?_, ?_, by simp⟩,
      ⟨spelling_spaceRules _, spelling_elementRules _⟩, ⟨spelling_spaceRules _, ?_, ?_, by simp⟩,
      ⟨spelling_spaceRules _, spelling_elementRules _⟩, ⟨spelling_spaceRules _, ?_, ?_, by simp⟩,
      ⟨spelling_spaceRules _, ?_, ?_, ?_, by simp⟩, ⟨spelling_spaceRules _, ?_, by simp⟩,
      spelling_spaceRules _, by simp⟩ <;> intro w hw
    · trivial
    · trivial
    · trivial
    · exact wellSpelled_escape (by rwa [ownPattern_escape] at hw)
    · trivial
    · trivial
    · exact wellSpelled_quotes (by rwa [ownPattern_eq (k := 3) (i := 1) rfl rfl rfl rfl] at hw)
    · trivial
    · exact spells_char (by decide) (by rwa [ownPattern_eq (k := 5) (i := 4) rfl rfl rfl rfl] at hw)
    · trivial
    · exact spells_char (by decide) (by rwa [ownPattern_eq (k := 7) (i := 4) rfl rfl rfl rfl] at hw)
    · trivial
    · trivial
    · trivial
    · trivial
    · exact spells_char (by decide) (by rwa [ownPattern_eq (k := 9) (i := 4) rfl rfl rfl rfl] at hw)
  exact hall _ hq r hr

end ScanTree.PropertyList
