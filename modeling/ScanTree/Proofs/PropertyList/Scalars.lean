import ScanTree.Proofs.Number.RealFormat
import ScanTree.Proofs.PropertyList.Leaves
import ScanTree.Proofs.PropertyList.Marks

/-!
Reading numbers, booleans and dates as they are written.

Hexadecimal integers, floats and integers are tried in this order. The first to match is the one
that was written, for the digits and the sign of a text are not to be had in two ways. Where a real
is not finite, no rule matches.
-/

namespace ScanTree.PropertyList

open Pattern
open RealText (AllDigits)

variable {tails : List String} {rest more more' : List Char} {s s' ds ds' : List Char}

def Delimited (rest : List Char) : Prop := ∀ c ∈ rest.head?, c ∈ [',', ';', ')', '\n']

/-! ### Signs and digits -/

def Stops (text : List Char) : Prop := ∀ c ∈ text.head?, c.isDigit = false ∧ c ≠ '+' ∧ c ≠ '-'

lemma stops_cons {c : Char} (hc : c.isDigit = false ∧ c ≠ '+' ∧ c ≠ '-') (cs : List Char) :
    Stops (c :: cs) := by
  intro d hd
  obtain rfl : c = d := by simpa using hd
  exact hc

lemma Delimited.stops (h : Delimited rest) : Stops rest := by
  have hall : ∀ c ∈ [',', ';', ')', '\n'], c.isDigit = false ∧ c ≠ '+' ∧ c ≠ '-' := by simp
  exact fun c hc => hall c (h c hc)

lemma ne_sign_of_isDigit {c : Char} (h : c.isDigit = true) : c ≠ '+' ∧ c ≠ '-' := by
  constructor <;> rintro rfl <;> exact absurd h (by decide)

lemma head?_ne_sign (hds : AllDigits ds) (hmore : Stops more) :
    ∀ c ∈ (ds ++ more).head?, c ≠ '+' ∧ c ≠ '-' := by
  rcases ds with _ | ⟨d, ds⟩
  · exact fun c hc => (hmore c hc).2
  · intro c hc
    obtain rfl : d = c := by simpa using hc
    exact ne_sign_of_isDigit (hds d List.mem_cons_self)

lemma sign_append (hs : IsSign s) {x : List Char} (hx : ∀ c ∈ x.head?, c ≠ '+' ∧ c ≠ '-') :
    (RealText.sign (s ++ x)).2 = x := by
  rcases hs with rfl | rfl | rfl
  · rcases x with _ | ⟨c, x⟩
    · rfl
    · obtain ⟨hplus, hminus⟩ := hx c rfl
      rw [List.nil_append, RealText.sign_of_ne hminus hplus]
  · rfl
  · rfl

/-- The sign and the digits at the front of a text are not to be had in two ways. -/
lemma digits_unique (hs : IsSign s) (hs' : IsSign s') (hds : AllDigits ds) (hds' : AllDigits ds')
    (hmore : Stops more) (hmore' : Stops more') (h : s ++ (ds ++ more) = s' ++ (ds' ++ more')) :
    ds = ds' ∧ more = more' := by
  have hsign : ds ++ more = ds' ++ more' := by
    rw [← sign_append hs (head?_ne_sign hds hmore), ← sign_append hs' (head?_ne_sign hds' hmore'),
      h]
  have hdigits := RealText.digits_append hds fun c hc => (hmore c hc).1
  rw [hsign, RealText.digits_append hds' fun c hc => (hmore' c hc).1] at hdigits
  exact ⟨(Prod.mk.inj hdigits).1.symm, (Prod.mk.inj hdigits).2.symm⟩

lemma hex_match?_eq_none (hs : IsSign s) (hds : AllDigits ds) (hmore : Stops more)
    (hx : more.head? ≠ some 'x') {place : Place} (hplace : place.rest = s ++ (ds ++ more)) :
    hexPattern.match? place = none := by
  refine match?_eq_none (by decide) fun w rest hw hspells => ?_
  obtain ⟨s', es, hs', -, -, rfl⟩ := wellSpelled_hexInt hspells
  have hsplit : s ++ (ds ++ more) = s' ++ (['0'] ++ 'x' :: (es ++ rest)) := by
    rw [← hplace, hw]
    simp
  obtain ⟨-, rfl⟩ := digits_unique hs hs' hds (RealFormat.allDigits_zeros 1) hmore
    (stops_cons (by decide) _) hsplit
  exact hx rfl

lemma float_match?_eq_none (hs : IsSign s) (hds : AllDigits ds) (hmore : Stops more)
    (hpoint : more.head? ≠ some '.') {place : Place} (hplace : place.rest = s ++ (ds ++ more)) :
    floatPattern.match? place = none := by
  refine match?_eq_none (by decide) fun w rest hw hspells => ?_
  obtain ⟨s', es, fs, hs', hes, -, -, rfl⟩ := wellSpelled_float hspells
  have hsplit : s ++ (ds ++ more) = s' ++ (es ++ '.' :: (fs ++ rest)) := by
    rw [← hplace, hw]
    simp
  obtain ⟨-, rfl⟩ := digits_unique hs hs' hds hes hmore (stops_cons (by decide) _) hsplit
  exact hpoint rfl

/-! ### Leading -/

lemma leads_sign (hs : IsSign s) (hmore : ∀ c ∈ more.head?, c ≠ '+' ∧ c ≠ '-') {run : Run}
    (hrun : run.place.rest = s ++ more) : signPattern.Leads run s.length := by
  refine leads_rep_set hrun (fun c hc => ?_) (Nat.zero_le _) (fun m hm => ?_) ?_
  · rw [contains_signSet]
    rcases hs with rfl | rfl | rfl <;> simp_all
  · cases hm
    rcases hs with rfl | rfl | rfl <;> simp
  · rcases hs with rfl | rfl | rfl
    · refine .inr ?_
      rcases more with _ | ⟨c, more⟩
      · rfl
      · rw [List.head?_cons, Option.any_some, ← Bool.not_eq_true, contains_signSet]
        have := hmore c rfl
        tauto
    · exact .inl rfl
    · exact .inl rfl

lemma leads_digits (hds : AllDigits ds) {min : Nat} (hmin : min ≤ ds.length)
    (hmore : ∀ c ∈ more.head?, c.isDigit = false) {run : Run}
    (hrun : run.place.rest = ds ++ more) :
    (rep (.set digitSet) min none true).Leads run ds.length := by
  refine leads_rep_set hrun (fun c hc => ?_) hmin (by simp) (.inr ?_)
  · rw [contains_digitSet]
    exact hds c hc
  · rcases more with _ | ⟨c, more⟩
    · rfl
    · rw [List.head?_cons, Option.any_some, contains_digitSet]
      exact hmore c rfl

lemma leads_int (hs : IsSign s) (hds : AllDigits ds) (hne : ds ≠ []) (hmore : Stops more)
    {run : Run} (hrun : run.place.rest = s ++ ds ++ more) :
    intPattern.Leads run (s ++ ds).length := by
  rw [List.append_assoc] at hrun
  rw [List.length_append]
  refine (leads_sign hs (head?_ne_sign hds hmore) hrun).seq
    (leads_digits hds (List.length_pos_of_ne_nil hne) (fun c hc => (hmore c hc).1) ?_)
  rw [Run.rest_ahead, hrun, List.drop_left]

lemma leads_hex (hs : IsSign s) (hds : ∀ c ∈ ds, isHexDigit c = true) (hne : ds ≠ [])
    (hmore : ∀ c ∈ more.head?, isHexDigit c = false) {run : Run}
    (hrun : run.place.rest = s ++ '0' :: 'x' :: ds ++ more) :
    hexPattern.Leads run (s ++ '0' :: 'x' :: ds).length := by
  have h0 : run.place.rest = s ++ '0' :: 'x' :: (ds ++ more) := by rw [hrun]; simp
  have h1 : (run.ahead s.length).place.rest = '0' :: 'x' :: (ds ++ more) := by
    rw [Run.rest_ahead, h0, List.drop_left]
  have h2 : ((run.ahead s.length).ahead 1).place.rest = 'x' :: (ds ++ more) := by
    rw [Run.rest_ahead, h1]
    rfl
  have h3 : (((run.ahead s.length).ahead 1).ahead 1).place.rest = ds ++ more := by
    rw [Run.rest_ahead, h2]
    rfl
  have hlength : (s ++ '0' :: 'x' :: ds).length = s.length + (1 + (1 + ds.length)) := by
    simp only [List.length_append, List.length_cons]
    omega
  have hdigits : (rep (.set hexSet) 1 none true).Leads
      (((run.ahead s.length).ahead 1).ahead 1) ds.length := by
    refine leads_rep_set h3 (fun c hc => by rw [contains_hexSet]; exact hds c hc)
      (List.length_pos_of_ne_nil hne) (by simp) (.inr ?_)
    rcases more with _ | ⟨c, more⟩
    · rfl
    · rw [List.head?_cons, Option.any_some, contains_hexSet]
      exact hmore c rfl
  rw [hlength]
  exact (leads_sign hs (by simp) h0).seq
    ((leads_set h1 ((CharSet.contains_char (by decide)).2 rfl)).seq
    ((leads_set h2 ((CharSet.contains_char (by decide)).2 rfl)).seq hdigits))

lemma leads_float {es : List Char} (hs : IsSign s) (hds : AllDigits ds) (hes : AllDigits es)
    (hne : es ≠ []) (hmore : Stops more) {run : Run}
    (hrun : run.place.rest = s ++ (ds ++ '.' :: es) ++ more) :
    floatPattern.Leads run (s ++ (ds ++ '.' :: es)).length := by
  have hstops : Stops ('.' :: (es ++ more)) := stops_cons (by decide) _
  have h0 : run.place.rest = s ++ (ds ++ '.' :: (es ++ more)) := by rw [hrun]; simp
  have h1 : (run.ahead s.length).place.rest = ds ++ '.' :: (es ++ more) := by
    rw [Run.rest_ahead, h0, List.drop_left]
  have h2 : ((run.ahead s.length).ahead ds.length).place.rest = '.' :: (es ++ more) := by
    rw [Run.rest_ahead, h1, List.drop_left]
  have h3 : (((run.ahead s.length).ahead ds.length).ahead 1).place.rest = es ++ more := by
    rw [Run.rest_ahead, h2]
    rfl
  have hlength : (s ++ (ds ++ '.' :: es)).length = s.length + (ds.length + (1 + es.length)) := by
    simp only [List.length_append, List.length_cons]
    omega
  rw [hlength]
  refine (leads_sign hs (head?_ne_sign hds hstops) h0).seq
    ((leads_digits hds (Nat.zero_le _) (fun c hc => (hstops c hc).1) h1).seq
      ((leads_set h2 ((CharSet.contains_char (by decide)).2 rfl)).seq
        (leads_digits hes (List.length_pos_of_ne_nil hne) (fun c hc => (hmore c hc).1) h3)))

/-! ### Tokens -/

lemma mem_main : ("main", spaceRules ++ mainRules) ∈ ruleTable := List.mem_of_getElem? (i := 0) rfl

lemma refuses_number (hs : IsSign s) (hds : AllDigits ds) (hne : ds ≠ []) :
    refuses ((spaceRules ++ mainRules).take 9) (s ++ (ds ++ more)).head? = true := by
  have hsigns : refuses ((spaceRules ++ mainRules).take 9) (some '+') = true ∧
      refuses ((spaceRules ++ mainRules).take 9) (some '-') = true := by
    decide +kernel
  obtain ⟨d, ds, rfl⟩ := List.exists_cons_of_ne_nil hne
  rcases hs with rfl | rfl | rfl
  · exact forall_digit (P := fun d => refuses ((spaceRules ++ mainRules).take 9) (some d) = true)
      (by decide) (hds d List.mem_cons_self)
  · exact hsigns.1
  · exact hsigns.2

lemma isSign_of_minus (hs : s = [] ∨ s = ['-']) : IsSign s := by
  rcases hs with rfl | rfl
  · exact .inl rfl
  · exact .inr (.inr rfl)

lemma plain_mainRules {r : Rule Tag Nesting} (hr : r ∈ spaceRules ++ mainRules) :
    r.ownPattern.isPlain := State.isPlain_of_mem (isRegular_ruleTable _ mem_main) hr

lemma match?_of_number (hs : IsSign s) (hds : AllDigits ds) (hne : ds ≠ [])
    {place : Place} (hplace : place.rest = s ++ (ds ++ more)) :
    ∀ r ∈ (spaceRules ++ mainRules).take 9, r.ownPattern.match? place = none :=
  match?_of_refuses (fun _ hr => plain_mainRules (List.mem_of_mem_take hr))
    (by rw [hplace]; exact refuses_number hs hds hne)

lemma picks_int (hs : IsSign s) (hds : AllDigits ds) (hne : ds ≠ []) (hrest : Delimited rest) :
    Picks (spaceRules ++ mainRules) 11 (rule "[+\\-]?[0-9]+" (.leaf .int) resume) (s ++ ds)
      rest := by
  have hall : ∀ c ∈ [',', ';', ')', '\n'], c ≠ 'x' ∧ c ≠ '.' := by simp
  refine ⟨rfl, fun place hplace r hr => ?_, fun run hrun => ?_⟩
  · rw [List.append_assoc] at hplace
    have hsplit : (spaceRules ++ mainRules).take 11 = (spaceRules ++ mainRules).take 9 ++
        [rule "[+\\-]?0x[0-9a-fA-F]+" (.leaf .hexInt) resume,
          rule "[+\\-]?[0-9]*\\.[0-9]+" (.leaf .float) resume] := rfl
    rw [hsplit, List.mem_append, List.mem_cons, List.mem_singleton] at hr
    rcases hr with hr | rfl | rfl
    · exact match?_of_number hs hds hne hplace r hr
    · rw [ownPattern_hex]
      exact hex_match?_eq_none hs hds hrest.stops (fun hx => (hall 'x' (hrest 'x' hx)).1 rfl) hplace
    · rw [ownPattern_float]
      exact float_match?_eq_none hs hds hrest.stops (fun hx => (hall '.' (hrest '.' hx)).2 rfl)
        hplace
  · rw [ownPattern_int]
    exact leads_int hs hds hne hrest.stops hrun

/-- A hexadecimal number is taken as a whole, though it begins with a decimal one. -/
lemma picks_hex (hs : IsSign s) (hds : ∀ c ∈ ds, isHexDigit c = true) (hne : ds ≠ [])
    (hrest : ∀ c ∈ rest.head?, isHexDigit c = false) :
    Picks (spaceRules ++ mainRules) 9 (rule "[+\\-]?0x[0-9a-fA-F]+" (.leaf .hexInt) resume)
      (s ++ '0' :: 'x' :: ds) rest := by
  refine ⟨rfl, fun place hplace r hr => ?_, fun run hrun => ?_⟩
  · have hplace : place.rest = s ++ (['0'] ++ 'x' :: (ds ++ rest)) := by rw [hplace]; simp
    exact match?_of_number hs (RealFormat.allDigits_zeros 1) (by simp) hplace r hr
  · rw [ownPattern_hex]
    exact leads_hex hs hds hne hrest (by simpa using hrun)

lemma reads_digits (hs : IsSign s) (hds : AllDigits ds) (hne : ds ≠ [])
    (hfits : Integer.Fits (Integer.signedValue 10 (s ++ ds))) (hrest : Delimited rest) :
    Reads ⟨"main", tails, s ++ ds ++ rest⟩ (Single (.leaf .int) (s ++ ds))
      ⟨after tails, tails, rest⟩ := by
  refine (picks_int hs hds hne hrest).reads mem_main (by decide) fun t ht htext n hn => ?_
  have ht : t.tag = .leaf .int := ht
  simp only [numeral?, ht, if_true, htext, String.toList_ofList, Option.some.injEq] at hn
  rwa [← hn]

lemma reads_point {es : List Char} (hs : IsSign s) (hds : AllDigits ds) (hne : ds ≠ [])
    (hes : AllDigits es) (hne' : es ≠ []) (hrest : Delimited rest) :
    Reads ⟨"main", tails, s ++ (ds ++ '.' :: es) ++ rest⟩
      (Single (.leaf .float) (s ++ (ds ++ '.' :: es))) ⟨after tails, tails, rest⟩ := by
  have hpicks : Picks (spaceRules ++ mainRules) 10
      (rule "[+\\-]?[0-9]*\\.[0-9]+" (.leaf .float) resume) (s ++ (ds ++ '.' :: es)) rest := by
    refine ⟨rfl, fun place hplace r hr => ?_, fun run hrun => ?_⟩
    · have hplace : place.rest = s ++ (ds ++ '.' :: (es ++ rest)) := by rw [hplace]; simp
      have hsplit : (spaceRules ++ mainRules).take 10 = (spaceRules ++ mainRules).take 9 ++
          [rule "[+\\-]?0x[0-9a-fA-F]+" (.leaf .hexInt) resume] := rfl
      rw [hsplit, List.mem_append, List.mem_singleton] at hr
      rcases hr with hr | rfl
      · exact match?_of_number hs hds hne hplace r hr
      · rw [ownPattern_hex]
        exact hex_match?_eq_none hs hds (stops_cons (by decide) _) (by simp) hplace
    · rw [ownPattern_float]
      exact leads_float hs hds hes hne' hrest.stops hrun
  exact hpicks.reads_plain mem_main (by decide)

lemma leads_letters {cs : List Char} (hcs : ∀ c ∈ cs, c.toNat < 0xd800)
    (hrest : rest.head?.any (Look.isWord false) = false) {run : Run}
    (hlast : (cs.getLast?.or run.place.before).any (Look.isWord false) = true)
    (hrun : run.place.rest = cs ++ rest) : (letters cs).Leads run cs.length := by
  induction cs generalizing run with
  | nil =>
    refine leads_look ?_
    have hbefore : run.place.before.any (Look.isWord false) = true := hlast
    have hafter : run.place.rest.head?.any (Look.isWord false) = false := by rwa [hrun]
    simp [Look.holds, Look.atBoundary, hbefore, hafter]
  | cons c cs ih =>
    have hc := leads_set hrun ((CharSet.contains_char (hcs c List.mem_cons_self)).2 rfl)
    have hpast : (run.ahead 1).place = ⟨some c, cs ++ rest⟩ := Place.past_succ (n := 0) hrun
    rw [List.length_cons, Nat.add_comm]
    refine hc.seq (ih (fun d hd => hcs d (List.mem_cons_of_mem _ hd)) ?_ ?_)
    · rw [hpast]
      rcases cs with _ | ⟨d, cs⟩
      · simpa using hlast
      · rw [List.getLast?_cons_cons] at hlast
        rw [List.getLast?_eq_some_getLast (List.cons_ne_nil d cs)] at hlast ⊢
        exact hlast
    · rw [hpast]

lemma leads_boolean (b : Bool) (hrest : rest.head?.any (Look.isWord false) = false) {run : Run}
    (hrun : run.place.rest = (if b then ":true".toList else ":false".toList) ++ rest) :
    boolPattern.Leads run (if b then ":true".toList else ":false".toList).length := by
  have hlast : ((if b then ":true".toList else ":false".toList).getLast?.or
      run.place.before).any (Look.isWord false) = true := by
    cases b <;> (show Look.isWord false 'e' = true) <;> decide
  cases b with
  | true => exact (leads_letters (by simp) hrest hlast hrun).alt_left _
  | false =>
    refine Leads.alt_right ?_ (leads_letters (by simp) hrest hlast hrun)
    rw [List.eq_nil_iff_forall_not_mem]
    intro r' hr'
    obtain ⟨w, hw, hplace, -⟩ := covers_of_mem_ways hr'
    rw [spells_letters (by simp) hw, hrun] at hplace
    have hplace : ':' :: 'f' :: ("alse".toList ++ rest) =
      ':' :: 't' :: ("rue".toList ++ r'.place.rest) := hplace
    exact absurd (List.cons.inj (List.cons.inj hplace).2).1 (by decide)

lemma reads_boolean (b : Bool) (hrest : Delimited rest) :
    Reads ⟨"main", tails, (if b then ":true".toList else ":false".toList) ++ rest⟩
      (Single (.leaf .bool) (if b then ":true".toList else ":false".toList))
      ⟨after tails, tails, rest⟩ := by
  have hword : rest.head?.any (Look.isWord false) = false := by
    have hall : ([',', ';', ')', '\n'].all fun c => !Look.isWord false c) = true := by
      decide
    rcases rest with _ | ⟨c, cs⟩
    · rfl
    · simpa using List.all_eq_true.1 hall c (hrest c rfl)
  have hbefore : refuses ((spaceRules ++ mainRules).take 12) (some ':') = true := by decide
  have hhead : ((if b then ":true".toList else ":false".toList) ++ rest).head? = some ':' := by
    cases b <;> rfl
  have hpicks : Picks (spaceRules ++ mainRules) 12
      (rule ":true\\b|:false\\b" (.leaf .bool) resume)
      (if b then ":true".toList else ":false".toList) rest := by
    refine picks_of_refuses mem_main rfl (by rw [hhead]; exact hbefore) fun run hrun => ?_
    rw [ownPattern_bool]
    exact leads_boolean b hword hrun
  exact hpicks.reads_plain mem_main (by decide)

/-! ### Dates -/

lemma read?_date : Pattern.read? dateSource.toList = some datePattern := by decide

/-- The pattern of dates matches the whole text. -/
def isDate (text : List Char) : Bool :=
  (Pattern.read? dateSource.toList).any fun p =>
    (p.match? ⟨none, text⟩).any fun stop => stop.taken == text.length

lemma spells_of_isDate {text : List Char} (h : isDate text = true) : datePattern.Spells text := by
  rw [isDate, read?_date, Option.any_some, Option.any_eq_true] at h
  obtain ⟨stop, hstop, htaken⟩ := h
  obtain ⟨-, hspells, -⟩ := spells_of_match? (by decide) hstop
  rwa [beq_iff_eq.1 htaken, List.take_length] at hspells

lemma head?_of_isDate {text : List Char} (h : isDate text = true) : ∃ cs, text = '@' :: cs := by
  obtain ⟨u, v, hu, -, rfl⟩ := spells_of_isDate h
  rw [spells_char (by decide) hu]
  exact ⟨v, rfl⟩

lemma reads_date {text : List Char} (h : isDate text = true) (tails : List String)
    (rest : List Char) :
    Reads ⟨"main", tails, text ++ rest⟩ (Single (.leaf .date) text) ⟨after tails, tails, rest⟩ := by
  have hbefore : refuses ((spaceRules ++ mainRules).take 13) (some '@') = true := by decide
  obtain ⟨cs, hcs⟩ := head?_of_isDate h
  have hpicks : Picks (spaceRules ++ mainRules) 13 (rule dateSource (.leaf .date) resume) text
      rest := by
    refine picks_of_refuses mem_main rfl (by rw [hcs]; exact hbefore) fun run hrun => ?_
    rw [ownPattern_date]
    exact leads_of_isRigid (by decide) (spells_of_isDate h) hrun
  exact hpicks.reads_plain mem_main (by decide)

/-! ### Reals that are not finite -/

def Stuck (text : List Char) : Prop :=
  text ≠ [] ∧ ∀ place : Place, place.rest = text → pick? place (spaceRules ++ mainRules) = none

lemma stuck_of_refuses {c : Char} (h : refuses (spaceRules ++ mainRules) (some c) = true)
    (cs : List Char) : Stuck (c :: cs) := by
  refine ⟨by simp, fun place hplace => pick?_eq_none ?_⟩
  exact match?_of_refuses (fun _ hr => plain_mainRules hr) (by rw [hplace]; exact h)

/-- After a sign there must be digits or a point. -/
lemma stuck_minus {c : Char} (hc : c.isDigit = false ∧ c ≠ '+' ∧ c ≠ '-') (hx : c ≠ 'x')
    (hpoint : c ≠ '.') (cs : List Char) : Stuck ('-' :: c :: cs) := by
  refine ⟨by simp, fun place hplace => pick?_eq_none fun r hr => ?_⟩
  have hplace' : place.rest = ['-'] ++ ([] ++ c :: cs) := hplace
  have hstops : Stops (c :: cs) := stops_cons hc cs
  have hsign : IsSign ['-'] := .inr (.inr rfl)
  have hnil : AllDigits [] := by simp [AllDigits]
  have hfirst : refuses ((spaceRules ++ mainRules).take 9) (some '-') = true ∧
      refuses ((spaceRules ++ mainRules).drop 12) (some '-') = true := by
    decide
  have hsplit : spaceRules ++ mainRules = (spaceRules ++ mainRules).take 9 ++
      ([rule "[+\\-]?0x[0-9a-fA-F]+" (.leaf .hexInt) resume,
        rule "[+\\-]?[0-9]*\\.[0-9]+" (.leaf .float) resume,
        rule "[+\\-]?[0-9]+" (.leaf .int) resume] ++ (spaceRules ++ mainRules).drop 12) := rfl
  rw [hsplit, List.mem_append, List.mem_append] at hr
  rcases hr with hr | hr | hr
  · exact match?_of_refuses (fun _ hr => plain_mainRules (List.mem_of_mem_take hr))
      (by rw [hplace]; exact hfirst.1) r hr
  · simp only [List.mem_cons, List.not_mem_nil, or_false] at hr
    rcases hr with rfl | rfl | rfl
    · rw [ownPattern_hex]
      exact hex_match?_eq_none hsign hnil hstops (by simpa using hx) hplace'
    · rw [ownPattern_float]
      exact float_match?_eq_none hsign hnil hstops (by simpa using hpoint) hplace'
    · rw [ownPattern_int]
      refine match?_eq_none (by decide) fun w rest hw hspells => ?_
      obtain ⟨s', es, hs', hes, hne, rfl⟩ := wellSpelled_int hspells
      obtain ⟨e, es, rfl⟩ := List.exists_cons_of_ne_nil hne
      have he := hes e List.mem_cons_self
      have hleft := sign_append hsign (head?_ne_sign hnil hstops)
      have hright := sign_append hs' (x := e :: (es ++ rest)) fun d hd => by
        obtain rfl : e = d := by simpa using hd
        exact ne_sign_of_isDigit he
      have hsame : ['-'] ++ ([] ++ c :: cs) = s' ++ e :: (es ++ rest) := by
        rw [← hplace', hw]
        simp
      rw [hsame, hright] at hleft
      obtain ⟨rfl, -⟩ := List.cons.inj hleft
      rw [hc.1] at he
      cases he
  · exact match?_of_refuses (fun _ hr => plain_mainRules (List.mem_of_mem_drop hr))
      (by rw [hplace]; exact hfirst.2) r hr

/-- A real that is not finite is written as no rule reads it. -/
lemma stuck_realText {x : Binary64} (hx : x.isFinite = false) (rest : List Char) :
    Stuck (realText x ++ rest) := by
  rcases x with _ | negative | _
  · exact stuck_of_refuses (by decide) _
  · cases negative
    · exact stuck_of_refuses (by decide) _
    · exact stuck_minus (by decide) (by decide) (by decide) _
  · cases hx

end ScanTree.PropertyList
