import ScanTree.Proofs.PropertyList.Leaves
import ScanTree.Proofs.PropertyList.Steps

/-!
Reading from one spot of a text to another: which tokens the scan gives on the way.

A rule is picked where its own pattern leads and the rules before it have no match. What the text
goes on with matters only as far as the pattern looks ahead.
-/

namespace ScanTree.PropertyList

open Pattern

/-! ### Picking a rule -/

/-- A rule is picked when it matches and the rules before it do not. -/
lemma pick?_of_leads {rules : List (Rule Tag Nesting)} (hplain : ∀ r ∈ rules, r.ownPattern.isPlain)
    {i : Nat} {r : Rule Tag Nesting} (hr : rules[i]? = some r) {place : Place} {n : Nat}
    (hbefore : ∀ x ∈ rules.take i, x.ownPattern.match? place = none)
    (hlead : r.ownPattern.Leads (.start place) n) :
    pick? place rules = some (r, ⟨place.past n, n, []⟩) := by
  induction rules generalizing i with
  | nil => simp at hr
  | cons x rules ih =>
    have hplain' := fun y hy => hplain y (List.mem_cons_of_mem _ hy)
    cases i with
    | zero =>
      obtain rfl : x = r := by simpa using hr
      rw [pick?, hlead.match? (hplain x List.mem_cons_self)]
      rfl
    | succ i =>
      have hx : x.ownPattern.match? place = none := hbefore x (by simp)
      rw [pick?, hx, ih hplain' (by simpa using hr) fun y hy => hbefore y (by simp [hy])]
      rfl

/-- None of the rules can match before the given next character. -/
def refuses (rules : List (Rule Tag Nesting)) (next : Option Char) : Bool :=
  rules.all fun r => !r.ownPattern.opens next

lemma refuses_take {rules : List (Rule Tag Nesting)} {ps : List Pattern}
    (hps : rules.map Rule.ownPattern = ps) (i : Nat) (next : Option Char) :
    refuses (rules.take i) next = (ps.take i).all fun p => !p.opens next := by
  rw [← hps, ← List.map_take, List.all_map]
  rfl

lemma match?_of_refuses {rules : List (Rule Tag Nesting)}
    (hplain : ∀ r ∈ rules, r.ownPattern.isPlain) {place : Place}
    (h : refuses rules place.rest.head? = true) :
    ∀ r ∈ rules, r.ownPattern.match? place = none := by
  intro r hr
  refine match?_eq_none_of_opens (hplain r hr) ?_
  simpa using List.all_eq_true.1 h r hr

lemma pick?_eq_none {rules : List (Rule Tag Nesting)} {place : Place}
    (h : ∀ r ∈ rules, r.ownPattern.match? place = none) : pick? place rules = none := by
  induction rules with
  | nil => rfl
  | cons r rules ih =>
    rw [pick?, h r List.mem_cons_self, ih fun x hx => h x (List.mem_cons_of_mem _ hx)]
    rfl

/-! ### Spots -/

/-- A state inside some tails, and the text that is still to come. -/
structure Spot where
  state : String
  tails : List String
  text : List Char

def Stands (s : Scan Tag Nesting) (x : Spot) : Prop :=
  ∃ place, At s x.state x.tails place ∧ place.rest = x.text

/-- Every scan at one spot comes to the other, and its tokens on the way have a skeleton with the
given property and with integers that fit. -/
def Reads (x : Spot) (P : List (Token Tag) → Prop) (y : Spot) : Prop :=
  ∀ s, Stands s x → ∃ es s', Pulls s es s' ∧ P (skeleton es) ∧ AllFit (skeleton es) ∧ Stands s' y

def Both (P Q : List (Token Tag) → Prop) (ts : List (Token Tag)) : Prop :=
  ∃ us vs, P us ∧ Q vs ∧ ts = us ++ vs

def Nothing (ts : List (Token Tag)) : Prop := ts = []

def Single (tag : Tag) (w : List Char) (ts : List (Token Tag)) : Prop :=
  ∃ t : Token Tag, t.tag = tag ∧ t.text = String.ofList w ∧ ts = [t]

variable {x y z : Spot} {P Q R : List (Token Tag) → Prop}

lemma allFit_nil : AllFit [] := by simp [AllFit]

lemma Reads.refl (x : Spot) : Reads x Nothing x :=
  fun s hs => ⟨[], s, .nil s, rfl, allFit_nil, hs⟩

lemma Reads.append (h : Reads x P y) (h' : Reads y Q z) : Reads x (Both P Q) z := by
  intro s hs
  obtain ⟨es, s', hpulls, hP, hfit, hs'⟩ := h s hs
  obtain ⟨fs, s'', hpulls', hQ, hfit', hs''⟩ := h' s' hs'
  refine ⟨es ++ fs, s'', hpulls.append hpulls', ⟨_, _, hP, hQ, skeleton_append es fs⟩, ?_, hs''⟩
  rw [skeleton_append]
  exact allFit_append.2 ⟨hfit, hfit'⟩

lemma Reads.mono (h : Reads x P y) (hPQ : ∀ ts, P ts → Q ts) : Reads x Q y := by
  intro s hs
  obtain ⟨es, s', hpulls, hP, hfit, hs'⟩ := h s hs
  exact ⟨es, s', hpulls, hPQ _ hP, hfit, hs'⟩

lemma Reads.after_blank (h : Reads x Nothing y) (h' : Reads y P z) : Reads x P z :=
  (h.append h').mono fun ts ⟨us, vs, hus, hvs, hts⟩ => by
    rw [hts, hus]
    exact hvs

lemma Reads.before_blank (h : Reads x P y) (h' : Reads y Nothing z) : Reads x P z :=
  (h.append h').mono fun ts ⟨us, vs, hus, hvs, hts⟩ => by
    rw [hts, hvs, List.append_nil]
    exact hus

variable {q : String} {tails : List String} {rules : List (Rule Tag Nesting)} {i : Nat}
  {r : Rule Tag Nesting} {w rest : List Char}

/-- The next token is that of a rule which takes `w`, and no rule before it matches. -/
structure Picks (rules : List (Rule Tag Nesting)) (i : Nat) (r : Rule Tag Nesting)
    (w rest : List Char) : Prop where
  rule : rules[i]? = some r
  before : ∀ place : Place, place.rest = w ++ rest →
    ∀ x ∈ rules.take i, x.ownPattern.match? place = none
  leads : ∀ run : Run, run.place.rest = w ++ rest → r.ownPattern.Leads run w.length

lemma Picks.pulls (h : Picks rules i r w rest) (hq : (q, rules) ∈ ruleTable)
    {s : Scan Tag Nesting} (hs : Stands s ⟨q, tails, w ++ rest⟩) :
    ∃ e s', Pulls s [e] s' ∧ e.token.tag = tagOf r ∧ e.token.text = String.ofList w ∧
      Stands s' ⟨(landing r q tails).1, (landing r q tails).2, rest⟩ := by
  obtain ⟨place, hat, hrest⟩ := hs
  have hrest : place.rest = w ++ rest := hrest
  have hplain := fun x hx => State.isPlain_of_mem (isRegular_ruleTable _ hq) (r := x) hx
  have hpick := pick?_of_leads hplain h.rule (h.before place hrest) (h.leads (.start place) hrest)
  have hnext := hat.next_eq hq
  rw [hpick] at hnext
  obtain ⟨t, s', log, hn, htag, htext, hat'⟩ := hnext
  refine ⟨_, s', .one hn, htag, ?_, place.past w.length, hat', ?_⟩
  · rw [htext]
    show String.ofList (place.rest.take w.length) = _
    rw [hrest, List.take_left]
  · rw [Place.rest_past, hrest, List.drop_left]

lemma isBlankToken_eq {t u : Token Tag} (h : t.tag = u.tag) : isBlankToken t = isBlankToken u := by
  rw [isBlankToken, isBlankToken, h]

lemma Picks.reads (h : Picks rules i r w rest) (hq : (q, rules) ∈ ruleTable)
    (htag : isBlankToken ⟨tagOf r, "", 0, 0⟩ = false)
    (hfit : ∀ t : Token Tag, t.tag = tagOf r → t.text = String.ofList w → LiteralFits t) :
    Reads ⟨q, tails, w ++ rest⟩ (Single (tagOf r) w)
      ⟨(landing r q tails).1, (landing r q tails).2, rest⟩ := by
  intro s hs
  obtain ⟨e, s', hpulls, hetag, hetext, hs'⟩ := h.pulls hq hs
  have hblank : isBlankToken e.token = false := by rw [← htag]; exact isBlankToken_eq hetag
  refine ⟨[e], s', hpulls, ⟨e.token, hetag, hetext, skeleton_of_not_blank hblank⟩, ?_, hs'⟩
  rw [skeleton_of_not_blank hblank]
  intro t ht
  obtain rfl := List.mem_singleton.1 ht
  exact hfit _ hetag hetext

/-- The tag of a token that is neither a blank nor an integer. -/
def isPlainTag (tag : Tag) : Bool :=
  !isBlankToken ⟨tag, "", 0, 0⟩ && tag != .leaf .int && tag != .leaf .hexInt

lemma Picks.reads_plain (h : Picks rules i r w rest) (hq : (q, rules) ∈ ruleTable)
    (htag : isPlainTag (tagOf r) = true) :
    Reads ⟨q, tails, w ++ rest⟩ (Single (tagOf r) w)
      ⟨(landing r q tails).1, (landing r q tails).2, rest⟩ := by
  simp only [isPlainTag, Bool.and_eq_true, Bool.not_eq_true', bne_iff_ne] at htag
  exact h.reads hq htag.1.1 fun t ht _ => literalFits_of_tag ht htag.1.2 htag.2

lemma Picks.skips (h : Picks rules i r w rest) (hq : (q, rules) ∈ ruleTable)
    (htag : isBlankToken ⟨tagOf r, "", 0, 0⟩ = true) :
    Reads ⟨q, tails, w ++ rest⟩ Nothing ⟨(landing r q tails).1, (landing r q tails).2, rest⟩ := by
  intro s hs
  obtain ⟨e, s', hpulls, hetag, -, hs'⟩ := h.pulls hq hs
  have hblank : isBlankToken e.token = true := by rw [← htag]; exact isBlankToken_eq hetag
  have hskel := skeleton_of_blank hblank
  exact ⟨[e], s', hpulls, hskel, by rw [hskel]; exact allFit_nil, hs'⟩

/-- The next character alone keeps the rules before it from a match. -/
lemma picks_of_refuses (hq : (q, rules) ∈ ruleTable) (hr : rules[i]? = some r)
    (hbefore : refuses (rules.take i) (w ++ rest).head? = true)
    (hleads : ∀ run : Run, run.place.rest = w ++ rest → r.ownPattern.Leads run w.length) :
    Picks rules i r w rest := by
  refine ⟨hr, fun place hplace => ?_, hleads⟩
  have hplain : ∀ x ∈ rules.take i, x.ownPattern.isPlain := fun x hx =>
    State.isPlain_of_mem (isRegular_ruleTable _ hq) (List.mem_of_mem_take hx)
  exact match?_of_refuses hplain (by rw [hplace]; exact hbefore)

lemma picks_char {k : Nat} {ps : List Pattern} {c : Char} (hq : ruleTable[k]? = some (q, rules))
    (hr : rules[i]? = some r) (hps : patternTable[k]? = some ps)
    (h : ps[i]? = some (.set (.char c)) ∧ c.toNat < 0xd800 ∧
      ((ps.take i).all fun p => !p.opens (some c)) = true)
    (rest : List Char) : Picks rules i r [c] rest := by
  obtain ⟨hpattern, hc, hbefore⟩ := h
  have hrefuses : refuses (rules.take i) (some c) = true := by
    rw [refuses_take (map_ownPattern_eq hq hps)]
    exact hbefore
  refine picks_of_refuses (List.mem_of_getElem? hq) hr hrefuses fun run hrun => ?_
  rw [ownPattern_eq hq hr hps hpattern]
  exact leads_set hrun ((CharSet.contains_char hc).2 rfl)

lemma reads_char {k : Nat} {ps : List Pattern} {c : Char} (hq : ruleTable[k]? = some (q, rules))
    (hr : rules[i]? = some r) (hps : patternTable[k]? = some ps)
    (h : (ps[i]? = some (.set (.char c)) ∧ c.toNat < 0xd800 ∧
      ((ps.take i).all fun p => !p.opens (some c)) = true) ∧ isPlainTag (tagOf r) = true)
    (tails : List String) (rest : List Char) :
    Reads ⟨q, tails, c :: rest⟩ (Single (tagOf r) [c])
      ⟨(landing r q tails).1, (landing r q tails).2, rest⟩ :=
  (picks_char hq hr hps h.1 rest).reads_plain (List.mem_of_getElem? hq) h.2

end ScanTree.PropertyList
