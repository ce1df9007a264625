import ScanTree.Grammar
import ScanTree.Proofs.Pattern.Inside

/-!
Reading several patterns in one text, each in brackets and with bars between them.

Each is read as it is alone, but for the numbers of its groups, unless it ends in a comment. Then
the bracket after it is part of the comment.
-/

namespace ScanTree.Pattern

variable {props : Properties}

namespace Reader

variable {r r' s host base : Reader} {c : Char} {cs more : List Char} {n m : Nat}

def Reads (props : Properties) (r : Reader) (cs : List Char) (r' : Reader) : Prop :=
  ∃ n, run props n r cs = some r'

lemma run_mono (hnm : n ≤ m) (h : run props n r cs = some r') : run props m r cs = some r' := by
  induction n generalizing m r cs with
  | zero =>
    unfold run at h
    split_ifs at h with hskip
    cases m <;> simpa [run, hskip] using h
  | succ n ih =>
    obtain ⟨m, rfl⟩ : ∃ k, m = k + 1 := ⟨m - 1, by omega⟩
    unfold run at h ⊢
    split at h
    · exact h
    · obtain ⟨p, hstep, h⟩ := Option.bind_eq_some_iff.1 h
      rw [hstep]
      exact ih (by omega) h

lemma Reads.unique (h : r.Reads props cs r') (h' : r.Reads props cs s) : r' = s := by
  obtain ⟨n, hn⟩ := h
  obtain ⟨m, hm⟩ := h'
  have hn := run_mono (Nat.le_max_left n m) hn
  have hm := run_mono (Nat.le_max_right n m) hm
  exact Option.some.inj (hn.symm.trans hm)

lemma reads_nil (r : Reader) : r.Reads props [] r :=
  ⟨0, by simp [run, Flags.skip, Flags.dropIgnored]⟩

lemma Reads.step {after : List Char} (hskip : r.flags.skip cs = c :: after)
    (h : r.Reads props cs r') :
    ∃ mid rest, r.step props c after = some (mid, rest) ∧ mid.Reads props rest r' := by
  obtain ⟨_ | n, hn⟩ := h
  · simp [run, hskip] at hn
  · simp only [run, hskip] at hn
    obtain ⟨⟨mid, rest⟩, hstep, hn⟩ := Option.bind_eq_some_iff.1 hn
    exact ⟨mid, rest, hstep, n, hn⟩

lemma Reads.skip (h : r.Reads props cs r') : r.Reads props (r.flags.skip cs) r' := by
  obtain ⟨n, hn⟩ := h
  refine ⟨n, ?_⟩
  cases n <;> simpa only [run, Flags.skip_skip] using hn

def passes (props : Properties) : Nat → Reader → List Char → List (Reader × List Char)
  | 0, r, cs => [(r, r.flags.skip cs)]
  | n + 1, r, cs =>
    (r, r.flags.skip cs) ::
      match r.flags.skip cs with
      | [] => []
      | c :: cs => ((r.step props c cs).map fun p => passes props n p.1 p.2).getD []

lemma mem_passes (n : Nat) (r : Reader) (cs : List Char) :
    (r, r.flags.skip cs) ∈ passes props n r cs := by
  cases n <;> exact List.mem_cons_self

lemma passes_cons {rest after : List Char} (hskip : r.flags.skip cs = c :: rest)
    (hstep : r.step props c rest = some (r', after)) :
    passes props (n + 1) r cs = (r, c :: rest) :: passes props n r' after := by
  simp [passes, hskip, hstep]

/-- A text is read up to an item in it. -/
inductive Leads (props : Properties) : Reader → List Char → Reader → List Char → Prop
  | here (r : Reader) (cs : List Char) : Leads props r cs r (r.flags.skip cs)
  | step {r mid r' : Reader} {c : Char} {cs after left rest : List Char}
    (hskip : r.flags.skip cs = c :: after) (hstep : r.step props c after = some (mid, left))
    (h : Leads props mid left r' rest) : Leads props r cs r' rest

lemma Leads.reads {rest : List Char} (h : r.Leads props cs r' rest) (hreads : r.Reads props cs s) :
    r'.Reads props rest s := by
  induction h with
  | here => exact hreads.skip
  | step hskip hstep _ ih =>
    obtain ⟨mid, left, hmid, hreads⟩ := hreads.step hskip
    rw [hstep] at hmid
    cases hmid
    exact ih hreads

/-- **Runs inside a group**: a text is read there as it is alone, for no name stops it. -/
lemma Leads.reads_inside {rest : List Char} (h : r.Leads props cs r' rest)
    (hreads : (r.inside host).Reads props cs s) : (r'.inside host).Reads props rest s := by
  induction h with
  | here => exact hreads.skip
  | step hskip hstep _ ih =>
    obtain ⟨mid, left, hmid, hreads⟩ := hreads.step (by exact hskip)
    rcases step_inside hstep host with hinside | hinside
    · rw [hinside] at hmid
      cases hmid
      exact ih hreads
    · rw [hinside] at hmid
      cases hmid

lemma leads_of_skip (hskip : r.flags.skip cs = []) :
    (∀ more, r.Leads props (cs ++ ')' :: more) r (')' :: more)) ∨
      r.flags.verbose = true ∧ r.flags.skip (cs ++ [')']) = [] := by
  rcases Flags.skip_append r.flags cs with hsame | ⟨hverbose, -, htaken⟩
  · refine .inl fun more => ?_
    have hhere : r.Leads props (cs ++ ')' :: more) r _ := .here r _
    rwa [hsame, hskip, List.nil_append] at hhere
  · exact .inr ⟨hverbose, htaken⟩

/-- **Runs before a closing bracket**: a text is read up to the bracket as it is alone, or the
bracket is part of a comment at its end. -/
lemma leads_of_run (hrun : run props n r cs = some r') :
    (∀ more, r.Leads props (cs ++ ')' :: more) r' (')' :: more)) ∨
      (∃ p ∈ passes props n r cs, p.1.flags.verbose = true) ∧
        run props n r (cs ++ [')']) = some r' := by
  induction n generalizing r cs with
  | zero =>
    unfold run at hrun
    split_ifs at hrun with hskip
    obtain rfl : r = r' := by simpa using hrun
    rcases leads_of_skip hskip with hleads | ⟨hverbose, htaken⟩
    · exact .inl hleads
    · exact .inr ⟨⟨_, mem_passes 0 r cs, hverbose⟩, by rw [run, if_pos htaken]⟩
  | succ n ih =>
    rcases hskip : r.flags.skip cs with _ | ⟨c, after⟩
    · obtain rfl : r = r' := by simpa [run, hskip] using hrun
      rcases leads_of_skip hskip with hleads | ⟨hverbose, htaken⟩
      · exact .inl hleads
      · exact .inr ⟨⟨_, mem_passes _ r cs, hverbose⟩, by simp only [run, htaken]⟩
    · simp only [run, hskip] at hrun
      obtain ⟨⟨next, rest⟩, hstep, hrun⟩ := Option.bind_eq_some_iff.1 hrun
      have hsame : ∀ more, r.flags.skip (cs ++ ')' :: more) = c :: (after ++ ')' :: more) :=
        fun more => by rw [Flags.skip_append_of_ne (by rw [hskip]; simp), hskip, List.cons_append]
      rcases step_append hstep with hnext | ⟨hverbose, rfl, htaken⟩
      · rcases ih hrun with hleads | ⟨⟨p, hp, hverbose⟩, htaken⟩
        · exact .inl fun more => .step (hsame more) (hnext more) (hleads more)
        · rw [passes_cons hskip hstep]
          refine .inr ⟨⟨p, List.mem_cons_of_mem _ hp, hverbose⟩, ?_⟩
          simp only [run, hsame, hnext, Option.bind_some, htaken]
      · refine .inr ⟨⟨_, mem_passes _ r cs, hverbose⟩, ?_⟩
        simp only [run, hsame, htaken, Option.bind_some]
        exact hrun

/-- The reader after a group around a text that another one has read. -/
def captured (base r : Reader) : Reader where
  level := base.level.push
    { pattern := group (base.groups + 1)
        (r.level.whole.pattern.renumber (· + (base.groups + 1)))
      depth := r.level.whole.depth + 1 }
  outer := base.outer
  flags := base.flags
  groups := r.groups + (base.groups + 1)
  names := r.names ++ base.names

lemma close?_inside_capture (hout : r.outer = []) :
    (r.inside base.capture).close? = some (base.captured r) := by
  simp only [close?, inside, hout, capture, descend, List.map_nil, List.nil_append,
    Level.whole_renumber (add_injective _)]
  rfl

lemma head?_ne_of_run (h : run props n {} cs = some r) : cs.head? ≠ some '?' := by
  intro hmark
  rcases cs with _ | ⟨c, cs⟩
  · cases hmark
  · cases hmark
    rcases n with _ | n <;> cases h

lemma opening_capture (hflags : r.flags.verbose = false) (h : cs.head? ≠ some '?') :
    r.opening cs = some (r.capture, cs) := by
  rw [opening_eq, Flags.skip_eq hflags]
  rcases cs with _ | ⟨c, cs⟩
  · rfl
  · have hc : c ≠ '?' := fun hc => h (by rw [hc]; rfl)
    simp [heading, hc, enter?]

/-- **Groups**: a text in brackets adds one group around its own pattern. -/
lemma Reads.group (hbase : base.flags = {}) (hrun : run props n {} cs = some r)
    (hout : r.outer = []) (hleads : Leads props {} (cs ++ ')' :: more) r (')' :: more))
    (h : base.Reads props ('(' :: (cs ++ ')' :: more)) s) :
    (base.captured r).Reads props more s := by
  have hflags : base.flags.verbose = false := by rw [hbase]
  have hmark : (cs ++ ')' :: more).head? ≠ some '?' := by
    have := head?_ne_of_run hrun
    rcases cs with _ | ⟨c, cs⟩ <;> simp_all
  obtain ⟨mid, rest, hopen, h⟩ := h.step (Flags.skip_eq hflags _)
  have hopen : base.opening (cs ++ ')' :: more) = some (mid, rest) := hopen
  rw [opening_capture hflags hmark] at hopen
  cases hopen
  have hinside : base.capture = inside {} base.capture := by
    simp [inside, capture, descend, Level.renumber, hbase]
  rw [hinside] at h
  obtain ⟨mid, rest, hclose, h⟩ := (hleads.reads_inside h).step (Flags.skip_closing _ more)
  have hclose : (r.inside base.capture).close?.map (·, more) = some (mid, rest) := hclose
  rw [close?_inside_capture hout] at hclose
  cases hclose
  exact h

end Reader

/-- Whether a text switches on the skipping of white space and comments. -/
def switchesVerbose (props : Properties) (text : List Char) : Bool :=
  (Reader.passes props text.length {} text).any (·.1.flags.verbose)

/-- Whether a text takes a closing bracket after it for a part of it. -/
def takesBracket (props : Properties) (text : List Char) : Bool :=
  (read? (text ++ [')']) props).isSome

def own (props : Properties) (text : List Char) : Pattern := (read? text props).getD .empty

def opened (props : Properties) (text : List Char) : Nat :=
  ((Reader.run props text.length {} text).map Reader.groups).getD 0

/-- A group around the pattern of each text. The groups have the numbers from `n` on, in the order
in which the texts open them. -/
def arranged (props : Properties) : Nat → List (List Char) → List Pattern
  | _, [] => []
  | n, t :: ts =>
    group n ((own props t).renumber (· + n)) :: arranged props (n + 1 + opened props t) ts

lemma Level.pattern_whole (l : Level) :
    l.whole.pattern = choice (l.earlier.reverse.map Part.pattern ++ [l.current.pattern]) := by
  simp [whole, Part.fork]

lemma run_of_read? {text : List Char} (h : (read? text props).isSome) :
    ∃ r, Reader.run props text.length {} text = some r ∧ r.outer = [] ∧
      own props text = r.level.whole.pattern ∧ opened props text = r.groups := by
  obtain ⟨p, hp⟩ := Option.isSome_iff_exists.1 h
  have hread := hp
  simp only [read?, Option.bind_eq_bind, Option.bind_eq_some_iff] at hp
  obtain ⟨r, hrun, hp⟩ := hp
  split_ifs at hp with hwhole
  cases hp
  exact ⟨r, hrun, by simpa using hwhole.1, by simp [own, hread], by simp [opened, hrun]⟩

lemma leads_of_read? {text : List Char} (hread : (read? text props).isSome)
    (htakes : takesBracket props text = false) {r : Reader}
    (hrun : Reader.run props text.length {} text = some r) (more : List Char) :
    Reader.Leads props {} (text ++ ')' :: more) r (')' :: more) := by
  rcases Reader.leads_of_run hrun with hleads | ⟨-, htaken⟩
  · exact hleads more
  · have htaken : Reader.run props (text ++ [')']).length {} (text ++ [')']) = some r :=
      Reader.run_mono (by simp) htaken
    have hsame : read? (text ++ [')']) props = read? text props := by
      simp only [read?, htaken, hrun]
    rw [takesBracket, hsame, hread] at htakes
    cases htakes

/-- Where white space counts there are no comments, and the closing bracket closes nothing. -/
lemma takesBracket_of_quiet {text : List Char} (hread : (read? text props).isSome)
    (hquiet : switchesVerbose props text = false) : takesBracket props text = false := by
  obtain ⟨r, hrun, hout, -, -⟩ := run_of_read? hread
  have hquiet' : ∀ s ∈ Reader.passes props text.length {} text, s.1.flags.verbose = false := by
    simpa [switchesVerbose] using hquiet
  rcases Reader.leads_of_run hrun with hleads | ⟨⟨p, hp, hverbose⟩, -⟩
  · rcases htaken : read? (text ++ [')']) props with _ | p
    · rw [takesBracket, htaken]
      rfl
    · obtain ⟨s, hrun, -⟩ := run_of_read? (by rw [htaken]; rfl)
      obtain ⟨mid, rest, hclose, -⟩ := ((hleads []).reads ⟨_, hrun⟩).step (Flags.skip_closing _ [])
      have hclose : r.close?.map (·, []) = some (mid, rest) := hclose
      rw [Reader.close?, hout] at hclose
      cases hclose
  · rw [hquiet' p hp] at hverbose
    cases hverbose

lemma join_singleton (t : List Char) : State.join [t] = '(' :: (t ++ [')']) := by
  simp [State.join, List.intercalate]

lemma join_cons_cons (t u : List Char) (ts : List (List Char)) :
    State.join (t :: u :: ts) = '(' :: (t ++ ')' :: '|' :: State.join (u :: ts)) := by
  simp [State.join, List.intercalate]

lemma reads_join {texts : List (List Char)} (hread : ∀ t ∈ texts, (read? t props).isSome)
    (htakes : ∀ t ∈ texts, takesBracket props t = false) (hne : texts ≠ []) {base s : Reader}
    (hflags : base.flags = {}) (hitems : base.level.items = [])
    (h : base.Reads props (State.join texts) s) :
    s.level.whole.pattern =
      choice (base.level.earlier.reverse.map Part.pattern ++
        arranged props (base.groups + 1) texts) := by
  induction texts generalizing base with
  | nil => exact absurd rfl hne
  | cons t ts ih =>
    obtain ⟨r, hrun, hout, hown, hopened⟩ := run_of_read? (hread t List.mem_cons_self)
    have hleads := leads_of_read? (hread t List.mem_cons_self) (htakes t List.mem_cons_self) hrun
    have hcurrent : (base.captured r).level.current.pattern =
        group (base.groups + 1) ((own props t).renumber (· + (base.groups + 1))) := by
      rw [hown]
      simp [Reader.captured, Level.push, Level.current, hitems, Part.row, concat, factors, sequence]
    rcases ts with _ | ⟨u, ts⟩
    · rw [join_singleton] at h
      have h := Reader.Reads.group hflags hrun hout (hleads _) h
      rw [← (Reader.reads_nil _).unique h, Level.pattern_whole, hcurrent]
      rfl
    · rw [join_cons_cons] at h
      have h := Reader.Reads.group hflags hrun hout (hleads _) h
      obtain ⟨mid, rest, hbar, h⟩ := h.step (Flags.skip_eq (by simp [Reader.captured, hflags]) _)
      cases hbar
      have key := ih (fun x hx => hread x (List.mem_cons_of_mem _ hx))
        (fun x hx => htakes x (List.mem_cons_of_mem _ hx)) (List.cons_ne_nil u ts)
        (by exact hflags) (by rfl) h
      have hgroups : (base.captured r).groups + 1 = base.groups + 1 + 1 + opened props t := by
        rw [hopened]
        simp only [Reader.captured]
        omega
      rw [key, hgroups, arranged]
      simp [Level.bar, hcurrent]
      rfl

lemma lift?_group (i : Nat) (p : Pattern) (ps : List Pattern) : lift? (group i p :: ps) = none := by
  simp [lift?, chunks, factors, List.splitBy, List.splitBy.loop]

lemma merge?_group (i : Nat) (p : Pattern) (ps : List Pattern) :
    merge? (group i p :: ps) = none := by
  simp [merge?, charSet?]

lemma alternatives_arranged (props : Properties) (n : Nat) (texts : List (List Char)) :
    (arranged props n texts).flatMap alternatives = arranged props n texts := by
  induction texts generalizing n with
  | nil => rfl
  | cons t ts ih => simp [arranged, alternatives, ih]

/-- Groups are kept apart. -/
lemma choice_arranged (n : Nat) (texts : List (List Char)) :
    choice (arranged props n texts) = anyOf (arranged props n texts) := by
  rcases texts with _ | ⟨t, _ | ⟨u, ts⟩⟩
  · rfl
  · rfl
  · have hall := alternatives_arranged props n (t :: u :: ts)
    simp only [arranged] at hall ⊢
    simp only [choice, hall, lift?_group, either, merge?_group, Option.getD_none]

/-- **Joined texts**: together they describe the alternation of their patterns. -/
lemma read?_join {texts : List (List Char)} (hread : ∀ t ∈ texts, (read? t props).isSome)
    (htakes : ∀ t ∈ texts, takesBracket props t = false) (hne : texts ≠ []) {p : Pattern}
    (h : read? (State.join texts) props = some p) : p = anyOf (arranged props 1 texts) := by
  simp only [read?, Option.bind_eq_bind, Option.bind_eq_some_iff] at h
  obtain ⟨r, hrun, hp⟩ := h
  split_ifs at hp
  cases hp
  have key := reads_join hread htakes hne rfl rfl ⟨_, hrun⟩
  exact key.trans (choice_arranged 1 texts)

end ScanTree.Pattern
