import Mathlib.Data.List.Nodup
import ScanTree.Proofs.Pattern.Cutting
import ScanTree.Proofs.PropertyList.RoundTrip

/-!
What a scan does next, as a choice that the state and the text that is still to come make alone.

The choice on a text and that on a longer one are the same as long as the token stays before the
cut. Only booleans look at the character after them, and where they could stand nothing else can.
-/

namespace ScanTree.PropertyList

open Pattern

/-! ### Facts about all rules -/

lemma forall_rule {f : String → Pattern → Tag → Prop}
    (h : ∀ x ∈ ruleTable.zip patternTable, ∀ y ∈ x.1.2.zip x.2, f x.1.1 y.2 (tagOf y.1))
    {q : String} {rules : List (Rule Tag Nesting)} (hq : (q, rules) ∈ ruleTable)
    {r : Rule Tag Nesting} (hr : r ∈ rules) : f q r.ownPattern (tagOf r) := by
  have hx : ((q, rules), rules.map Rule.ownPattern) ∈ ruleTable.zip patternTable := by
    rw [← patterns_ruleTable, ← List.map_prod_left_eq_zip]
    exact List.mem_map_of_mem (f := fun e => (e, e.2.map Rule.ownPattern)) hq
  have hy : (r, r.ownPattern) ∈ rules.zip (rules.map Rule.ownPattern) := by
    rw [← List.map_prod_left_eq_zip]
    exact List.mem_map_of_mem (f := fun r => (r, r.ownPattern)) hr
  exact h _ hx _ hy

variable {q : String} {rules rules' : List (Rule Tag Nesting)} {r r' : Rule Tag Nesting}

lemma rules_unique (h : (q, rules) ∈ ruleTable) (h' : (q, rules') ∈ ruleTable) : rules = rules' :=
  congrArg Prod.snd (List.inj_on_of_nodup_map names_nodup h h' rfl)

lemma isPlain_of_rule (hq : (q, rules) ∈ ruleTable) (hr : r ∈ rules) : r.ownPattern.isPlain :=
  State.isPlain_of_mem (isRegular_ruleTable _ hq) hr

/-- Only booleans look at what is around them. -/
lemma isBlind_or_bool (hq : (q, rules) ∈ ruleTable) (hr : r ∈ rules) :
    r.ownPattern.isBlind = true ∨ r.ownPattern = boolPattern :=
  forall_rule (f := fun _ p _ => p.isBlind = true ∨ p = boolPattern) (by decide) hq hr

/-- Where a boolean may begin, nothing else does. -/
lemma eq_bool_of_opens (hq : (q, rules) ∈ ruleTable) (hr : r ∈ rules) (hr' : r' ∈ rules)
    (hbool : r'.ownPattern = boolPattern) (hopens : r.ownPattern.opens (some ':') = true) :
    r.ownPattern = boolPattern := by
  have hmain : q = "main" := forall_rule (f := fun q p _ => p = boolPattern → q = "main")
    (by decide) hq hr' hbool
  exact forall_rule (f := fun q p _ => q = "main" → p.opens (some ':') = true → p = boolPattern)
    (by decide) hq hr hmain hopens

/-! ### Booleans -/

lemma way_of_letters {cs : List Char} (hcs : ∀ c ∈ cs, c.toNat < 0xd800) {run s : Run}
    (h : s ∈ (letters cs).ways run) : run.place.rest = cs ++ s.place.rest ∧
      s = run.ahead cs.length ∧ (Look.word .one false).holds s.place = true := by
  induction cs generalizing run with
  | nil =>
    have h : s ∈ if (Look.word .one false).holds run.place then [run] else [] := h
    split_ifs at h with hlook
    · obtain rfl := List.mem_singleton.1 h
      exact ⟨rfl, (Run.ahead_zero s).symm, hlook⟩
    · cases h
  | cons c cs ih =>
    obtain ⟨t, ht, hs⟩ := List.mem_flatMap.1 h
    obtain ⟨d, ds, hrest, hd, -⟩ := Run.take?_eq_some_iff.1 (Option.mem_toList.1 ht)
    have hone := Run.take?_ahead hrest hd
    obtain rfl : run.ahead 1 = t := Option.some.inj (hone.symm.trans (Option.mem_toList.1 ht))
    obtain rfl := (CharSet.contains_char (hcs c List.mem_cons_self)).1 hd
    obtain ⟨hcut, hahead, hlook⟩ := ih (fun x hx => hcs x (List.mem_cons_of_mem _ hx)) hs
    refine ⟨?_, ?_, hlook⟩
    · rw [Run.rest_ahead, hrest] at hcut
      rw [hrest, List.cons_append, ← hcut]
      rfl
    · rw [hahead, Run.ahead_ahead, List.length_cons, Nat.add_comm]

/-- The text of a boolean is followed by no word character. -/
lemma bool_of_match? {place : Place} {stop : Run} (h : boolPattern.match? place = some stop) :
    ∃ w rest, WellSpelled .bool w ∧ place.rest = w ++ rest ∧ stop.taken = w.length ∧
      rest.head?.any (Look.isWord false) = false := by
  have hword : ∀ w, WellSpelled .bool w → stop ∈ (letters w).ways (.start place) →
      ∃ w rest, WellSpelled .bool w ∧ place.rest = w ++ rest ∧ stop.taken = w.length ∧
        rest.head?.any (Look.isWord false) = false := by
    intro w hw hs
    have hlow : ∀ c ∈ w, c.toNat < 0xd800 := by rcases hw with rfl | rfl <;> simp
    obtain ⟨hrest, hahead, hlook⟩ := way_of_letters hlow hs
    have hrest : place.rest = w ++ stop.place.rest := hrest
    have hbefore : stop.place.before = (place.rest.take w.length).getLast?.or place.before := by
      rw [hahead]
      rfl
    have hlast : stop.place.before.any (Look.isWord false) = true := by
      rw [hbefore, hrest, List.take_left]
      rcases hw with rfl | rfl <;> (show Look.isWord false 'e' = true) <;> decide
    refine ⟨w, stop.place.rest, hw, hrest, by rw [hahead]; exact Nat.zero_add _, ?_⟩
    simpa [Look.holds, Look.atBoundary, hlast] using hlook
  rcases List.mem_append.1 (mem_ways_of_match? (by decide) h) with hs | hs
  · exact hword _ (.inl rfl) hs
  · exact hword _ (.inr rfl) hs

lemma match?_bool {w rest : List Char} (hw : WellSpelled .bool w) {place : Place}
    (hplace : place.rest = w ++ rest) (hrest : rest.head?.any (Look.isWord false) = false) :
    ∃ stop, boolPattern.match? place = some stop ∧ stop.taken = w.length := by
  rcases hw with rfl | rfl
  · exact ⟨_, Leads.match? (by decide) (leads_boolean true hrest hplace), rfl⟩
  · exact ⟨_, Leads.match? (by decide) (leads_boolean false hrest hplace), rfl⟩

/-! ### Rules on both texts -/

lemma opens_of_match? {p : Pattern} (hp : p.isPlain) {place : Place} {stop : Run}
    (h : p.match? place = some stop) : p.opens place.rest.head? = true := by
  by_contra hne
  rw [match?_eq_none_of_opens hp (by simpa using hne)] at h
  cases h

variable {place place' : Place} {x : List Char} {stop : Run}

lemma rule_match?_of_cut (hq : (q, rules) ∈ ruleTable) (hr : r ∈ rules)
    (h : place'.rest = place.rest ++ x) (hm : r.ownPattern.match? place' = some stop)
    (hle : stop.taken ≤ place.rest.length) :
    ∃ stop', r.ownPattern.match? place = some stop' ∧ stop'.taken = stop.taken := by
  rcases isBlind_or_bool hq hr with hblind | hbool
  · exact match?_of_cut (isPlain_of_rule hq hr) hblind h hm hle
  · rw [hbool] at hm ⊢
    obtain ⟨w, rest, hw, hrest, htaken, hword⟩ := bool_of_match? hm
    have hsplit : place.rest ++ x = w ++ rest := h.symm.trans hrest
    obtain ⟨more, hmore⟩ : w <+: place.rest :=
      List.prefix_of_prefix_length_le ⟨rest, hsplit.symm⟩ (List.prefix_append _ x) (htaken ▸ hle)
    rw [← hmore, List.append_assoc, List.append_cancel_left_eq] at hsplit
    have hnext : more.head?.any (Look.isWord false) = false := by
      rcases more with _ | ⟨c, cs⟩
      · rfl
      · rwa [← hsplit] at hword
    rw [htaken]
    exact match?_bool hw hmore.symm hnext

/-- Where a rule does not match the longer text, it does not match the shorter one, unless that ends
with a boolean to which a character of a word was added. -/
lemma rule_match?_none_of_cut (hq : (q, rules) ∈ ruleTable) (hr : r ∈ rules)
    (h : place'.rest = place.rest ++ x) (hm : r.ownPattern.match? place' = none)
    (hbool : r.ownPattern = boolPattern → place.rest.head? = some ':' →
      x.head?.any (Look.isWord false) = false) : r.ownPattern.match? place = none := by
  rcases isBlind_or_bool hq hr with hblind | hb
  · exact match?_none_of_cut (isPlain_of_rule hq hr) hblind h hm
  · have hbool := hbool hb
    rw [hb] at hm ⊢
    rcases hn : boolPattern.match? place with _ | stop
    · rfl
    · obtain ⟨w, rest, hw, hrest, -, hword⟩ := bool_of_match? hn
      have hx := hbool (by rw [hrest]; rcases hw with rfl | rfl <;> rfl)
      have hnext : (rest ++ x).head?.any (Look.isWord false) = false := by
        rcases rest with _ | ⟨c, cs⟩
        · exact hx
        · exact hword
      obtain ⟨stop', hstop', -⟩ := match?_bool hw (by rw [h, hrest, List.append_assoc]) hnext
      rw [hstop'] at hm
      cases hm

/-- If no rule matches at one place that does not at another, the rule picked there is picked here
if it matches. -/
lemma pick?_of_match {stop' : Run}
    (hnone : ∀ y ∈ rules, y.ownPattern.match? place' = none → y.ownPattern.match? place = none)
    (hpick : pick? place' rules = some (r, stop)) (hm : r.ownPattern.match? place = some stop') :
    pick? place rules = some (r, stop') := by
  induction rules with
  | nil => cases hpick
  | cons y rules ih =>
    unfold pick? at hpick ⊢
    rcases hy : y.ownPattern.match? place' with _ | first
    · rw [hy] at hpick
      rw [hnone y List.mem_cons_self hy]
      simpa using ih (fun z hz => hnone z (List.mem_cons_of_mem _ hz)) (by simpa using hpick)
    · rw [hy] at hpick
      obtain ⟨rfl, rfl⟩ : y = r ∧ first = stop := by simpa using hpick
      rw [hm]
      rfl

/-- If rules match at one place where they do at another, and as much, the same rule is picked. -/
lemma pick?_of_matches {k : Nat}
    (hsome : ∀ y ∈ rules, ∀ s, y.ownPattern.match? place' = some s → s.taken ≤ k →
      ∃ s', y.ownPattern.match? place = some s' ∧ s'.taken = s.taken)
    (hnone : ∀ y ∈ rules, y.ownPattern.match? place' = none → y.ownPattern.match? place = none)
    (hpick : pick? place' rules = some (r, stop)) (hle : stop.taken ≤ k) :
    ∃ stop', pick? place rules = some (r, stop') ∧ stop'.taken = stop.taken := by
  obtain ⟨hr, hm⟩ := mem_of_pick? hpick
  obtain ⟨stop', hstop', htaken⟩ := hsome r hr stop hm hle
  exact ⟨stop', pick?_of_match hnone hpick hstop', htaken⟩

/-- The pick on a longer text, if it stays before the cut, is the pick on the shorter one. -/
lemma pick?_of_cut (hq : (q, rules) ∈ ruleTable) (h : place'.rest = place.rest ++ x)
    (hpick : pick? place' rules = some (r, stop)) (hle : stop.taken ≤ place.rest.length) :
    ∃ stop', pick? place rules = some (r, stop') ∧ stop'.taken = stop.taken := by
  obtain ⟨hr, hm⟩ := mem_of_pick? hpick
  have hopens := opens_of_match? (isPlain_of_rule hq hr) hm
  refine pick?_of_matches (fun y hy s => rule_match?_of_cut hq hy h) (fun y hy hyn => ?_) hpick hle
  refine rule_match?_none_of_cut hq hy h hyn fun hb hhead => ?_
  -- If a boolean may begin here, the rule that was picked is its own.
  have hhead' : place'.rest.head? = some ':' := by rw [h, List.head?_append, hhead]; rfl
  rw [hhead'] at hopens
  rw [hb, ← eq_bool_of_opens hq hr hy hb hopens, hm] at hyn
  cases hyn

/-- Where nothing is picked on a longer text, nothing is on the shorter one, if no character of a
word was added. -/
lemma pick?_none_of_cut (hq : (q, rules) ∈ ruleTable) (h : place'.rest = place.rest ++ x)
    (hx : x.head?.any (Look.isWord false) = false) (hpick : pick? place' rules = none) :
    pick? place rules = none := by
  refine pick?_eq_none fun y hy => rule_match?_none_of_cut hq hy h ?_ fun _ _ => hx
  clear hq
  induction rules with
  | nil => cases hy
  | cons z rules ih =>
    unfold pick? at hpick
    rcases hz : z.ownPattern.match? place' with _ | first
    · rw [hz] at hpick
      rcases List.mem_cons.1 hy with rfl | hy
      · exact hz
      · exact ih (by simpa using hpick) hy
    · rw [hz] at hpick
      cases hpick

/-! ### Choices -/

/-- At a spot a scan takes `n` characters by a rule. -/
def Chooses (x : Spot) (r : Rule Tag Nesting) (n : Nat) : Prop :=
  ∃ rules place stop, (x.state, rules) ∈ ruleTable ∧ place.rest = x.text ∧
    pick? place rules = some (r, stop) ∧ stop.taken = n

def Spot.past (x : Spot) (r : Rule Tag Nesting) (n : Nat) : Spot :=
  ⟨(landing r x.state x.tails).1, (landing r x.state x.tails).2, x.text.drop n⟩

variable {s s' : Scan Tag Nesting} {y : Spot} {n m : Nat} {t : Token Tag} {log : List Record}

lemma Stands.unique {y z : Spot} (h : Stands s y) (h' : Stands s z) : y = z := by
  obtain ⟨place, hat, hrest⟩ := h
  obtain ⟨place', hat', hrest'⟩ := h'
  obtain rfl : place = place' := Option.some.inj (hat.place.symm.trans hat'.place)
  obtain ⟨q, tails, text⟩ := y
  obtain ⟨q', tails', text'⟩ := z
  obtain rfl : q = q' := hat.state.symm.trans hat'.state
  obtain rfl : tails = tails' := hat.tails.symm.trans hat'.tails
  obtain rfl : text = text' := hrest.symm.trans hrest'
  rfl

lemma Stands.next (h : Stands s y) (hn : s.next = (.token t, s', log)) :
    ∃ r n, Chooses y r n ∧ t.tag = tagOf r ∧ t.text = String.ofList (y.text.take n) ∧
      Stands s' (y.past r n) := by
  obtain ⟨place, hat, hrest⟩ := h
  have hstate : ∃ rules, (y.state, rules) ∈ ruleTable := by
    rcases hst : PropertyList.grammar.state? y.state with _ | st
    · simp [Scan.next, hat.live, hat.place, hat.grammar, hat.state, hst] at hn
    · exact exists_rules_of_state? hst
  obtain ⟨rules, hq⟩ := hstate
  have hnext := hat.next_eq hq
  rcases hp : pick? place rules with _ | ⟨r, stop⟩
  · rw [hp] at hnext
    have hnext := hn.symm.trans hnext
    unfold Scan.unmatched at hnext
    split_ifs at hnext <;> simp at hnext
  · rw [hp] at hnext
    obtain ⟨t', mid, log', hn', htag, htext, hat'⟩ := hnext
    obtain ⟨rfl, rfl, rfl⟩ : t' = t ∧ mid = s' ∧ log' = log := by
      simpa using hn'.symm.trans hn
    obtain ⟨hr, hown⟩ := mem_of_pick? hp
    obtain ⟨-, -, hplace⟩ := spells_of_match? (isPlain_of_rule hq hr) hown
    refine ⟨r, stop.taken, ⟨rules, place, stop, hq, hrest, hp, rfl⟩, htag, by rw [htext, hrest], ?_⟩
    exact ⟨stop.place, hat', by rw [hplace, Place.rest_past, hrest]; rfl⟩

structure Chosen (y : Spot) (r : Rule Tag Nesting) (n : Nat) (rules : List (Rule Tag Nesting)) :
    Prop where
  state : (y.state, rules) ∈ ruleTable
  rule : r ∈ rules
  le : n ≤ y.text.length
  spells : r.ownPattern.Spells (y.text.take n)
  opens : r.ownPattern.opens y.text.head? = true
  found : ∃ place stop, place.rest = y.text ∧ r.ownPattern.match? place = some stop ∧
    stop.taken = n
  move : Move y.state y.tails (tagOf r) (y.past r n).state (y.past r n).tails
  /-- A choice without text leads on to a value. -/
  idle : n = 0 → mayIdle y.state = true ∧ (y.past r n).state = "main"

lemma Chooses.chosen (h : Chooses y r n) : ∃ rules, Chosen y r n rules := by
  obtain ⟨rules, place, stop, hq, hrest, hp, rfl⟩ := h
  obtain ⟨hr, hown⟩ := mem_of_pick? hp
  have hplain := isPlain_of_rule hq hr
  obtain ⟨hle, hspells, -⟩ := spells_of_match? hplain hown
  have hopens := opens_of_match? hplain hown
  rw [hrest] at hle hspells hopens
  refine ⟨rules, hq, hr, hle, hspells, hopens, ⟨place, stop, hrest, hown, rfl⟩,
    moves_of_mem hq hr y.tails, fun hzero => ?_⟩
  rw [hzero, List.take_zero] at hspells
  have hnull := nullable_of_spells hspells
  rw [nullable_of_mem _ hq r hr] at hnull
  exact idle_of_mem hq hr (by simpa using hnull) y.tails

variable {tails : List String} {u x : List Char}

lemma Chooses.cut (h : Chooses ⟨q, tails, u ++ x⟩ r n) (hle : n ≤ u.length) :
    Chooses ⟨q, tails, u⟩ r n := by
  obtain ⟨rules, place, stop, hq, hrest, hp, rfl⟩ := h
  have hrest : place.rest = (Place.mk none u).rest ++ x := hrest
  obtain ⟨stop', hp', htaken⟩ := pick?_of_cut hq hrest hp hle
  exact ⟨rules, _, stop', hq, rfl, hp', htaken⟩

/-- What is around the text makes no difference, so there is one choice at most. -/
lemma Chooses.unique (h : Chooses y r n) (h' : Chooses y r' m) : r = r' ∧ n = m := by
  obtain ⟨_, hchosen⟩ := h.chosen
  obtain ⟨rules, place, stop, hq, hrest, hp, rfl⟩ := h
  obtain ⟨rules', place', stop', hq', hrest', hp', rfl⟩ := h'
  obtain rfl := rules_unique hq hq'
  have hsame : place.rest = place'.rest ++ [] := by rw [hrest, hrest', List.append_nil]
  obtain ⟨stop'', hp'', htaken⟩ := pick?_of_cut hq hsame hp (by rw [hrest']; exact hchosen.le)
  obtain ⟨rfl, rfl⟩ : r = r' ∧ stop'' = stop' := by simpa using hp''.symm.trans hp'
  exact ⟨rfl, htaken.symm⟩

/-- **Cut**: the choice on a longer text, if it stays before the cut, is the only choice on the
shorter one. -/
lemma Chooses.of_cut (h : Chooses ⟨q, tails, u ++ x⟩ r n) (hle : n ≤ u.length)
    (h' : Chooses ⟨q, tails, u⟩ r' m) : r' = r ∧ m = n := h'.unique (h.cut hle)

lemma Picks.chooses {i : Nat} {w rest : List Char} (h : Picks rules i r w rest)
    (hq : (q, rules) ∈ ruleTable) : Chooses ⟨q, tails, w ++ rest⟩ r w.length :=
  ⟨rules, ⟨none, w ++ rest⟩, _, hq, rfl, pick?_of_leads (fun _ hy => isPlain_of_rule hq hy) h.rule
    (h.before _ rfl) (h.leads (.start _) rfl), rfl⟩

/-- The rule that is chosen on a longer text is the one on the shorter text if it matches that. -/
lemma Chooses.shrink (h : Chooses ⟨q, tails, u ++ x⟩ r n)
    (hx : x.head?.any (Look.isWord false) = false)
    (hleads : r.ownPattern.Leads (.start ⟨none, u⟩) m) : Chooses ⟨q, tails, u⟩ r m := by
  obtain ⟨rules, place, stop, hq, hrest, hp, rfl⟩ := h
  have hm := hleads.match? (isPlain_of_rule hq (mem_of_pick? hp).1)
  exact ⟨rules, _, _, hq, rfl, pick?_of_match
    (fun y hy hyn => rule_match?_none_of_cut hq hy hrest hyn fun _ _ => hx) hp hm, rfl⟩

/-- **Growth**: where there is a choice, there is one on a longer text too, if no character of a
word was added. -/
lemma Chooses.grow (h : Chooses ⟨q, tails, u⟩ r n) (hx : x.head?.any (Look.isWord false) = false) :
    ∃ r' m, Chooses ⟨q, tails, u ++ x⟩ r' m := by
  obtain ⟨rules, place, stop, hq, hrest, hp, rfl⟩ := h
  have hrest : place.rest = u := hrest
  rcases hp' : pick? ⟨none, u ++ x⟩ rules with _ | ⟨r', stop'⟩
  · rw [pick?_none_of_cut hq (by rw [hrest]) hx hp'] at hp
    cases hp
  · exact ⟨r', stop'.taken, rules, _, stop', hq, rfl, hp', rfl⟩

lemma Chooses.pulls (h : Chooses y r n) (hs : Stands s y) :
    ∃ t s' log, s.next = (.token t, s', log) ∧ t.tag = tagOf r ∧
      t.text = String.ofList (y.text.take n) ∧ Stands s' (y.past r n) := by
  obtain ⟨rules, place', stop', hq, hrest', hp', rfl⟩ := h
  obtain ⟨place, hat, hrest⟩ := hs
  have hle : stop'.taken ≤ place.rest.length := by
    obtain ⟨hr, hown⟩ := mem_of_pick? hp'
    obtain ⟨hle, -, -⟩ := spells_of_match? (isPlain_of_rule hq hr) hown
    rwa [hrest, ← hrest']
  obtain ⟨stop, hp, htaken⟩ := pick?_of_cut (x := []) hq (by rw [hrest', hrest, List.append_nil])
    hp' hle
  have hnext := hat.next_eq hq
  rw [hp] at hnext
  obtain ⟨t, s', log, hn, htag, htext, hat'⟩ := hnext
  obtain ⟨hr, hown⟩ := mem_of_pick? hp
  obtain ⟨-, -, hplace⟩ := spells_of_match? (isPlain_of_rule hq hr) hown
  refine ⟨t, s', log, hn, htag, by rw [htext, hrest, htaken], stop.place, hat', ?_⟩
  rw [hplace, Place.rest_past, hrest, htaken]
  rfl

end ScanTree.PropertyList
