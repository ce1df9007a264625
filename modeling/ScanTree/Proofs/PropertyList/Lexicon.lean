import ScanTree.Proofs.Alternation
import ScanTree.Proofs.Number.RealText
import ScanTree.Proofs.Pattern.Spelling
import ScanTree.PropertyList.Rules

/-!
The patterns of the property-list rules, and what the texts of numbers, booleans, escapes and the
other tokens look like.
-/

namespace ScanTree

namespace CharSet

lemma rank_le_iff {c : Char} {n : Nat} (h : n < 0xd800) : rank c.toNat ≤ n ↔ c.toNat ≤ n := by
  have hc : c.toNat < 0xd800 ∨ 0xdfff < c.toNat ∧ c.toNat < 0x110000 := c.valid
  unfold rank
  split_ifs <;> omega

lemma le_rank_iff {c : Char} {n : Nat} (h : n ≤ 0xd800) : n ≤ rank c.toNat ↔ n ≤ c.toNat := by
  have hc : c.toNat < 0xd800 ∨ 0xdfff < c.toNat ∧ c.toNat < 0x110000 := c.valid
  unfold rank
  split_ifs <;> omega

lemma contains_char {c d : Char} (h : c.toNat < 0xd800) :
    (char c).contains d = true ↔ d = c := by
  have hrank : rank c.toNat = c.toNat := if_pos h
  simp only [contains, has, char, hrank, List.any_cons, List.any_nil, Bool.or_false,
    Bool.and_eq_true, decide_eq_true_eq, le_rank_iff (Nat.le_of_lt h), rank_le_iff h,
    ← Char.toNat_inj]
  omega

lemma rank_le_lastRank (c : Char) : rank c.toNat ≤ lastRank := by
  have hc : c.toNat < 0xd800 ∨ 0xdfff < c.toNat ∧ c.toNat < 0x110000 := c.valid
  have hlast : lastRank = 1112063 := rfl
  rw [hlast]
  unfold rank
  split_ifs <;> omega

/-- Below the surrogates ranks are code points. -/
lemma contains_low {s : CharSet} (h : ∀ r ∈ s.ranges, r.1 < 0xd800 ∧ r.2 < 0xd800) (c : Char) :
    s.contains c = s.ranges.any fun r => r.1 ≤ c.toNat && c.toNat ≤ r.2 := by
  obtain ⟨ranges⟩ := s
  induction ranges with
  | nil => rfl
  | cons r rs ih =>
    have hr := h r List.mem_cons_self
    have ih := ih fun x hx => h x (List.mem_cons_of_mem _ hx)
    simp only [contains, has] at ih ⊢
    simp only [List.any_cons, ih, le_rank_iff (Nat.le_of_lt hr.1), rank_le_iff hr.2]

end CharSet

namespace PropertyList

open Pattern
open RealText (AllDigits)

/-! ### Sets of characters -/

def signSet : CharSet := ⟨[(43, 43), (45, 45)]⟩

def digitSet : CharSet := .asciiDigit

def hexSet : CharSet := ⟨[(48, 57), (65, 70), (97, 102)]⟩

def blankSet : CharSet := ⟨[(9, 9), (13, 13), (32, 32)]⟩

def insideSet : CharSet := ⟨[(0, 33), (35, 91), (93, 1112063)]⟩

def singleSet : CharSet := ⟨[(0, 38), (40, 1112063)]⟩

def bareSet : CharSet := ⟨[(36, 36), (43, 43), (45, 57), (65, 90), (95, 95), (97, 122)]⟩

def isHexDigit (c : Char) : Bool := c.isDigit || ('A' ≤ c && c ≤ 'F') || ('a' ≤ c && c ≤ 'f')

/-- What is to be shown of a low character is shown number by number. -/
lemma forall_low {P : Char → Prop} (h : ∀ n < 128, P (Char.ofNat n)) {c : Char}
    (hc : c.toNat < 128) : P c := by
  have := h c.toNat hc
  rwa [Char.ofNat_toNat] at this

lemma forall_digit {P : Char → Prop} (h : ∀ n < 10, P (Char.ofNat (48 + n))) {c : Char}
    (hc : c.isDigit = true) : P c := by
  have hrange : 48 ≤ c.toNat ∧ c.toNat ≤ 57 := by
    simpa [Char.isDigit, UInt32.le_iff_toNat_le] using hc
  have := h (c.toNat - 48) (by omega)
  rwa [show 48 + (c.toNat - 48) = c.toNat by omega, Char.ofNat_toNat] at this

lemma contains_signSet {c : Char} : signSet.contains c = true ↔ c = '+' ∨ c = '-' := by
  rw [CharSet.contains_low (by decide)]
  simp only [signSet, List.any_cons, List.any_nil, Bool.or_false, Bool.or_eq_true,
    Bool.and_eq_true, decide_eq_true_eq, ← Char.toNat_inj]
  show _ ↔ c.toNat = 43 ∨ c.toNat = 45
  omega

lemma contains_digitSet (c : Char) : digitSet.contains c = c.isDigit := by
  rw [CharSet.contains_low (by decide)]
  simp [digitSet, CharSet.asciiDigit, CharSet.range, Char.isDigit, CharSet.rank,
    UInt32.le_iff_toNat_le]

def escapeSet : CharSet :=
  ⟨[(34, 34), (47, 47), (92, 92), (98, 98), (102, 102), (110, 110), (114, 114), (116, 116)]⟩

lemma contains_hexSet (c : Char) : hexSet.contains c = isHexDigit c := by
  rw [CharSet.contains_low (by decide)]
  simp [hexSet, isHexDigit, Char.isDigit, Char.le_def, UInt32.le_iff_toNat_le, Bool.or_assoc]

lemma low_of_isHexDigit {c : Char} (h : isHexDigit c = true) : c.toNat < 128 := by
  rw [← contains_hexSet, CharSet.contains_low (by decide)] at h
  simp only [hexSet, List.any_cons, List.any_nil, Bool.or_false, Bool.or_eq_true, Bool.and_eq_true,
    decide_eq_true_eq] at h
  omega

lemma contains_insideSet {c : Char} : insideSet.contains c = true ↔ c ≠ '"' ∧ c ≠ '\\' := by
  have hlast : CharSet.rank c.toNat ≤ 1112063 := CharSet.rank_le_lastRank c
  have h33 : CharSet.rank c.toNat ≤ 33 ↔ c.toNat ≤ 33 := CharSet.rank_le_iff (by omega)
  have h35 : 35 ≤ CharSet.rank c.toNat ↔ 35 ≤ c.toNat := CharSet.le_rank_iff (by omega)
  have h91 : CharSet.rank c.toNat ≤ 91 ↔ c.toNat ≤ 91 := CharSet.rank_le_iff (by omega)
  have h93 : 93 ≤ CharSet.rank c.toNat ↔ 93 ≤ c.toNat := CharSet.le_rank_iff (by omega)
  simp only [CharSet.contains, CharSet.has, insideSet, List.any_cons, List.any_nil, Bool.or_false,
    Bool.or_eq_true, Bool.and_eq_true, decide_eq_true_eq, ne_eq, ← Char.toNat_inj]
  show _ ↔ ¬ c.toNat = 34 ∧ ¬ c.toNat = 92
  omega

lemma contains_singleSet {c : Char} : singleSet.contains c = true ↔ c ≠ '\'' := by
  have hlast : CharSet.rank c.toNat ≤ 1112063 := CharSet.rank_le_lastRank c
  have h38 : CharSet.rank c.toNat ≤ 38 ↔ c.toNat ≤ 38 := CharSet.rank_le_iff (by omega)
  have h40 : 40 ≤ CharSet.rank c.toNat ↔ 40 ≤ c.toNat := CharSet.le_rank_iff (by omega)
  simp only [CharSet.contains, CharSet.has, singleSet, List.any_cons, List.any_nil, Bool.or_false,
    Bool.or_eq_true, Bool.and_eq_true, decide_eq_true_eq, ne_eq, ← Char.toNat_inj]
  show _ ↔ ¬ c.toNat = 39
  omega

lemma contains_blankSet {c : Char} :
    blankSet.contains c = true ↔ c = '\t' ∨ c = '\r' ∨ c = ' ' := by
  rw [CharSet.contains_low (by decide)]
  simp only [blankSet, List.any_cons, List.any_nil, Bool.or_false, Bool.or_eq_true,
    Bool.and_eq_true, decide_eq_true_eq, ← Char.toNat_inj]
  show _ ↔ c.toNat = 9 ∨ c.toNat = 13 ∨ c.toNat = 32
  omega

/-! ### Patterns -/

def newlinePattern : Pattern := seq (.set (.char '\n')) (rep (.set (.char '\r')) 0 (some 1) true)

def blanksPattern : Pattern := rep (.set blankSet) 1 none true

def lineCommentPattern : Pattern :=
  seq (.set (.char '/')) (seq (.set (.char '/')) (rep (.set ⟨[(0, 9), (11, 1112063)]⟩) 0 none true))

def blockCommentPattern : Pattern :=
  seq (.set (.char '/')) (seq (.set (.char '*'))
    (seq (rep (.set .any) 0 none false) (seq (.set (.char '*')) (.set (.char '/')))))

def signPattern : Pattern := rep (.set signSet) 0 (some 1) true

def digitsPattern : Pattern := rep (.set digitSet) 1 none true

def hexPattern : Pattern :=
  seq signPattern (seq (.set (.char '0')) (seq (.set (.char 'x')) (rep (.set hexSet) 1 none true)))

def floatPattern : Pattern :=
  seq signPattern
    (seq (rep (.set digitSet) 0 none true) (seq (.set (.char '.')) digitsPattern))

def intPattern : Pattern := seq signPattern digitsPattern

def letters : List Char → Pattern
  | [] => look (.word .one false)
  | c :: cs => seq (.set (.char c)) (letters cs)

def boolPattern : Pattern := alt (letters ":true".toList) (letters ":false".toList)

def exactly (n : Nat) : Pattern := rep (.set digitSet) n (some n) true

def inOrder : List Pattern → Pattern
  | [] => empty
  | [p] => p
  | p :: ps => seq p (inOrder ps)

def datePattern : Pattern :=
  inOrder [.set (.char '@'), exactly 4, .set (.char '-'), exactly 2, .set (.char '-'), exactly 2,
    .set (.char ' '), exactly 2, .set (.char ':'), exactly 2, .set (.char ':'), exactly 2,
    .set (.char ' '), .set signSet, exactly 4]

def chunkPattern : Pattern := rep (.set hexSet) 1 (some 8) true

def charsPattern : Pattern := rep (.set insideSet) 1 none true

def escapePattern : Pattern := seq (.set (.char '\\')) (.set escapeSet)

def quotesPattern : Pattern := seq (.set (.char '\'')) (.set (.char '\''))

def bareKeyPattern : Pattern := rep (.set bareSet) 1 none true

def quotedPattern : Pattern :=
  seq (.set (.char '"'))
    (seq (rep (oneOrTwo insideSet (.char '\\') .any) 0 none true) (.set (.char '"')))

/-! ### Texts of leaves -/

def IsSign (s : List Char) : Prop := s = [] ∨ s = ['+'] ∨ s = ['-']

/-- What the text of a leaf looks like. Nothing is said of kinds whose text is not evaluated. -/
def WellSpelled : Kind → List Char → Prop
  | .int, w => ∃ s ds, IsSign s ∧ AllDigits ds ∧ ds ≠ [] ∧ w = s ++ ds
  | .hexInt, w => ∃ s ds, IsSign s ∧ (∀ c ∈ ds, isHexDigit c = true) ∧ ds ≠ [] ∧
      w = s ++ '0' :: 'x' :: ds
  | .float, w => ∃ s ds es, IsSign s ∧ AllDigits ds ∧ AllDigits es ∧ es ≠ [] ∧
      w = s ++ (ds ++ '.' :: es)
  | .bool, w => w = ":true".toList ∨ w = ":false".toList
  | .escape, w => w = ['\'', '\''] ∨ ∃ c, w = ['\\', c]
  | _, _ => True

lemma spells_sign {w : List Char} (h : signPattern.Spells w) : IsSign w := by
  obtain ⟨hset, -, hmax⟩ := spells_rep_set.1 h
  have hlen : w.length ≤ 1 := by
    have := hmax 1 rfl
    omega
  rcases w with _ | ⟨c, _ | ⟨d, w⟩⟩
  · exact .inl rfl
  · rcases contains_signSet.1 (hset c (by simp)) with rfl | rfl
    · exact .inr (.inl rfl)
    · exact .inr (.inr rfl)
  · simp at hlen

lemma spells_digits {w : List Char} {min : Nat} (h : (rep (.set digitSet) min none true).Spells w) :
    AllDigits w ∧ min ≤ w.length := by
  obtain ⟨hset, hmin, -⟩ := spells_rep_set.1 h
  exact ⟨fun c hc => by rw [← contains_digitSet]; exact hset c hc, hmin⟩

lemma spells_char {c : Char} (hc : c.toNat < 0xd800) {w : List Char}
    (h : (Pattern.set (.char c)).Spells w) : w = [c] := by
  obtain ⟨d, hd, rfl⟩ := h
  rw [(CharSet.contains_char hc).1 hd]

lemma spells_space {p : Pattern} (hp : p = newlinePattern ∨ p = blanksPattern) {w : List Char}
    (h : p.Spells w) : ∀ c ∈ w, c = '\n' ∨ blankSet.contains c = true := by
  intro c hc
  rcases hp with rfl | rfl
  · obtain ⟨a, b, ha, hb, rfl⟩ := h
    obtain rfl := spells_char (by decide) ha
    obtain ⟨hset, -, -⟩ := spells_rep_set.1 hb
    rcases List.mem_cons.1 hc with rfl | hc
    · exact .inl rfl
    · rw [(CharSet.contains_char (by decide)).1 (hset c hc)]
      exact .inr (by decide)
  · exact .inr ((spells_rep_set.1 h).1 c hc)

lemma wellSpelled_int {w : List Char} (h : intPattern.Spells w) : WellSpelled .int w := by
  obtain ⟨u, v, hu, hv, rfl⟩ := h
  obtain ⟨hdigits, hlen⟩ := spells_digits hv
  exact ⟨u, v, spells_sign hu, hdigits, List.ne_nil_of_length_pos hlen, rfl⟩

lemma wellSpelled_float {w : List Char} (h : floatPattern.Spells w) : WellSpelled .float w := by
  obtain ⟨u, _, hu, ⟨ds, _, hds, ⟨point, es, hpoint, hes, rfl⟩, rfl⟩, rfl⟩ := h
  obtain rfl := spells_char (by decide) hpoint
  obtain ⟨hdigits, hlen⟩ := spells_digits hes
  exact ⟨u, ds, es, spells_sign hu, (spells_digits hds).1, hdigits,
    List.ne_nil_of_length_pos hlen, rfl⟩

lemma wellSpelled_hexInt {w : List Char} (h : hexPattern.Spells w) : WellSpelled .hexInt w := by
  obtain ⟨u, _, hu, ⟨zero, _, hzero, ⟨x, ds, hx, hds, rfl⟩, rfl⟩, rfl⟩ := h
  obtain rfl := spells_char (by decide) hzero
  obtain rfl := spells_char (by decide) hx
  obtain ⟨hset, hmin, -⟩ := spells_rep_set.1 hds
  exact ⟨u, ds, spells_sign hu, fun c hc => by rw [← contains_hexSet]; exact hset c hc,
    List.ne_nil_of_length_pos hmin, rfl⟩

lemma spells_letters {cs w : List Char} (hcs : cs.all fun c => c.toNat < 0xd800)
    (h : (letters cs).Spells w) : w = cs := by
  induction cs generalizing w with
  | nil => exact h
  | cons c cs ih =>
    obtain ⟨u, v, hu, hv, rfl⟩ := h
    obtain ⟨hc, hcs⟩ : c.toNat < 0xd800 ∧ (cs.all fun c => c.toNat < 0xd800) := by simpa using hcs
    rw [spells_char hc hu, ih hcs hv]
    rfl

lemma wellSpelled_bool {w : List Char} (h : boolPattern.Spells w) : WellSpelled .bool w := by
  rcases h with h | h
  · exact .inl (spells_letters (by decide) h)
  · exact .inr (spells_letters (by decide) h)

lemma wellSpelled_escape {w : List Char} (h : escapePattern.Spells w) : WellSpelled .escape w := by
  obtain ⟨u, v, hu, ⟨c, -, rfl⟩, rfl⟩ := h
  rw [spells_char (by decide) hu]
  exact .inr ⟨c, rfl⟩

lemma wellSpelled_quotes {w : List Char}
    (h : quotesPattern.Spells w) : WellSpelled .escape w := by
  obtain ⟨u, v, hu, hv, rfl⟩ := h
  rw [spells_char (by decide) hu, spells_char (by decide) hv]
  exact .inl rfl

/-! ### Patterns of rules -/

def spacePatterns : List Pattern :=
  [newlinePattern, blanksPattern, lineCommentPattern, blockCommentPattern]

def mainPatterns : List Pattern :=
  [.set (.char '('), .set (.char '\x7b'), .set (.char '<'), .set (.char '"'), .set (.char '\''),
   hexPattern, floatPattern, intPattern, boolPattern, datePattern]

/-- The patterns of the rules, state by state. -/
def patternTable : List (List Pattern) :=
  [spacePatterns ++ mainPatterns, spacePatterns ++ [chunkPattern, .set (.char '>')],
   [charsPattern, escapePattern, .set (.char '"')],
   [rep (.set singleSet) 1 none true, quotesPattern, .set (.char '\'')],
   spacePatterns ++ [.set (.char ')'), .empty],
   spacePatterns ++ [.set (.char ','), .set (.char ')')],
   spacePatterns ++ [.set (.char ')'), .empty],
   spacePatterns ++ [.set (.char ';'), .set (.char '\x7d')],
   spacePatterns ++ [bareKeyPattern, quotedPattern, .set (.char '\x7d')],
   spacePatterns ++ [.set (.char '=')], spacePatterns]

/-- **Patterns of the rules**: what all their sources are read as. -/
lemma patterns_ruleTable : ruleTable.map (fun e => e.2.map Rule.ownPattern) = patternTable := by
  decide +kernel

lemma forall_ownPattern {α : Type} {f : Pattern → α} {g : Rule Tag Nesting → α}
    (h : patternTable.map (List.map f) = ruleTable.map fun e => e.2.map g) :
    ∀ e ∈ ruleTable, ∀ r ∈ e.2, f r.ownPattern = g r := by
  have hall : ruleTable.map (fun e => e.2.map fun r => f r.ownPattern) =
      ruleTable.map fun e => e.2.map g := by
    calc
      _ = (ruleTable.map fun e => e.2.map Rule.ownPattern).map (List.map f) := by
        simp [Function.comp_def]
      _ = _ := by rw [patterns_ruleTable, h]
  exact fun e he => List.map_inj_left.1 (List.map_inj_left.1 hall e he)

variable {k i : Nat} {q : String} {rules : List (Rule Tag Nesting)} {r : Rule Tag Nesting}
  {ps : List Pattern} {p : Pattern}

lemma map_ownPattern_eq (hq : ruleTable[k]? = some (q, rules)) (hps : patternTable[k]? = some ps) :
    rules.map Rule.ownPattern = ps := by
  have h : (ruleTable[k]?).map (fun e => e.2.map Rule.ownPattern) = patternTable[k]? := by
    rw [← patterns_ruleTable, List.getElem?_map]
  rw [hq, hps] at h
  exact Option.some.inj h

lemma ownPattern_eq (hq : ruleTable[k]? = some (q, rules)) (hr : rules[i]? = some r)
    (hps : patternTable[k]? = some ps) (hp : ps[i]? = some p) : r.ownPattern = p := by
  have h : (rules[i]?).map Rule.ownPattern = ps[i]? := by
    rw [← map_ownPattern_eq hq hps, List.getElem?_map]
  rw [hr, hp] at h
  exact Option.some.inj h

lemma patterns_spaceRules : spaceRules.map Rule.ownPattern = spacePatterns :=
  map_ownPattern_eq (k := 10) rfl rfl

lemma ownPattern_newline :
    (lineRule "\\n\\r?" (.skip .newline) .stay).ownPattern = newlinePattern :=
  ownPattern_eq (k := 10) (i := 0) rfl rfl rfl rfl

lemma ownPattern_blanks : (rule "[ \\t\\r]+" (.skip .space) .stay).ownPattern = blanksPattern :=
  ownPattern_eq (k := 10) (i := 1) rfl rfl rfl rfl

lemma ownPattern_hex : (rule "[+\\-]?0x[0-9a-fA-F]+" (.leaf .hexInt) resume).ownPattern =
    hexPattern :=
  ownPattern_eq (k := 0) (i := 9) rfl rfl rfl rfl

lemma ownPattern_float : (rule "[+\\-]?[0-9]*\\.[0-9]+" (.leaf .float) resume).ownPattern =
    floatPattern :=
  ownPattern_eq (k := 0) (i := 10) rfl rfl rfl rfl

lemma ownPattern_int : (rule "[+\\-]?[0-9]+" (.leaf .int) resume).ownPattern = intPattern :=
  ownPattern_eq (k := 0) (i := 11) rfl rfl rfl rfl

lemma ownPattern_bool : (rule ":true\\b|:false\\b" (.leaf .bool) resume).ownPattern = boolPattern :=
  ownPattern_eq (k := 0) (i := 12) rfl rfl rfl rfl

lemma ownPattern_date : (rule dateSource (.leaf .date) resume).ownPattern = datePattern :=
  ownPattern_eq (k := 0) (i := 13) rfl rfl rfl rfl

lemma ownPattern_escape :
    (rule "\\\\[\"\\\\/bfnrt]" (.leaf .escape) .stay).ownPattern = escapePattern :=
  ownPattern_eq (k := 2) (i := 1) rfl rfl rfl rfl

end PropertyList

end ScanTree
