import ScanTree.Proofs.Pattern.Copy
import ScanTree.Proofs.Pulls

/-!
Scans cover their input.

Whatever the rules of a grammar emit and wherever they lead, the tokens of a scan lie one after the
other from where it started to where it stands. A scan that has come to no token stays as it is.
-/

namespace ScanTree

namespace Text

/-- An offset lies between two characters of a text, or at one of its ends. -/
def IsBoundary (n : Nat) (cs : List Char) : Prop :=
  ∃ before after, cs = before ++ after ∧ byteSize before = n

lemma slice?_append (before w after : List Char) :
    slice? (byteSize before) (byteSize before + byteSize w) (before ++ (w ++ after)) = some w := by
  have hfirst :
      splitAtByte? (byteSize before) (before ++ (w ++ after)) = some (before, w ++ after) :=
    splitAtByte?_eq_some_iff.2 ⟨rfl, rfl⟩
  have hsecond : splitAtByte? (byteSize w) (w ++ after) = some (w, after) :=
    splitAtByte?_eq_some_iff.2 ⟨rfl, rfl⟩
  simp [slice?, hfirst, hsecond]

lemma byteSize_pos {cs : List Char} (h : cs ≠ []) : 0 < byteSize cs := by
  obtain ⟨c, cs, rfl⟩ := List.exists_cons_of_ne_nil h
  have := c.utf8Size_pos
  rw [byteSize_cons]
  omega

lemma byteSize_eq_zero_iff {cs : List Char} : byteSize cs = 0 ↔ cs = [] := by
  constructor
  · intro h
    by_contra hne
    have := byteSize_pos hne
    omega
  · rintro rfl
    rfl

lemma byteSize_lt_of_longer {cs ds : List Char} (h : cs <+: ds) (hlt : cs.length < ds.length) :
    byteSize cs < byteSize ds := by
  obtain ⟨es, rfl⟩ := h
  have hne : es ≠ [] := by
    rintro rfl
    simp at hlt
  have := byteSize_pos hne
  rw [byteSize_append]
  omega

lemma byteSize_take_lt (before : List Char) {text : List Char} {m n : Nat} (h : m < n)
    (hn : n ≤ text.length) :
    byteSize (before ++ text.take m) < byteSize (before ++ text.take n) := by
  refine byteSize_lt_of_longer ((List.prefix_append_right_inj before).2
    (List.take_prefix_take_left (Nat.le_of_lt h))) ?_
  simp only [List.length_append, List.length_take]
  omega

end Text

open Text

namespace Place

lemma seek?_append (b : Option Char) (before after : List Char) :
    seek? b (byteSize before) (before ++ after) = some ⟨before.getLast?.or b, after⟩ := by
  induction before generalizing b with
  | nil => simp [seek?]
  | cons c cs ih =>
    have hpos := c.utf8Size_pos
    obtain ⟨n, hn⟩ : ∃ n, c.utf8Size + byteSize cs = n + 1 :=
      ⟨c.utf8Size + byteSize cs - 1, by omega⟩
    have hle : c.utf8Size ≤ n + 1 := by omega
    have hsub : n + 1 - c.utf8Size = byteSize cs := by omega
    rw [byteSize_cons, hn, List.cons_append, seek?, if_pos hle, hsub, ih]
    rcases cs with _ | ⟨d, cs⟩
    · simp
    · rw [List.getLast?_cons_cons, List.getLast?_eq_some_getLast (List.cons_ne_nil d cs)]
      rfl

end Place

variable {T X : Type}

lemma State.on_of_match? {st : State T X} {place : Place} {m : Match T X}
    (h : st.match? place = some m) :
    ∃ n ≤ place.rest.length, m.text = place.rest.take n ∧ m.after = place.past n := by
  simp only [State.match?, Option.bind_eq_bind, Option.bind_eq_some_iff, Option.some.injEq] at h
  obtain ⟨a, -, stop, hstop, found, -, rfl⟩ := h
  obtain ⟨hle, hplace⟩ := Pattern.on_of_match? hstop
  exact ⟨stop.taken, hle, rfl, hplace⟩

namespace Scan

variable {s s' : Scan T X} {es : List (Entry T X)}

structure Behind (s : Scan T X) (before : List Char) : Prop where
  offset : byteSize before = s.context.position
  place : ∃ after, s.input.toList = before ++ after ∧ s.place = some ⟨before.getLast?, after⟩

lemma behind_scan (g : Grammar T X) {input : String} {before after : List Char}
    (h : input.toList = before ++ after) (start : String) (ext : X) (excerptLength : Nat) :
    Behind { g.scan input (byteSize before) start ext with excerptLength } before := by
  refine ⟨rfl, after, h, ?_⟩
  show Place.seek? none (byteSize before) input.toList = _
  rw [h, Place.seek?_append, Option.or_none]

lemma Behind.matchAt?_eq {before : List Char} (h : s.Behind before) (st : State T X) :
    st.matchAt? s.input.toList s.context.position = s.place.bind st.match? := by
  obtain ⟨after, hinput, hplace⟩ := h.place
  rw [State.matchAt?, ← h.offset, hinput, Place.seek?_append, hplace, Option.or_none]

/-- What follows on a pull that gives a token. The edge of the match emits first and then chooses
the next state, whatever either does to the context besides. -/
structure Takes (s : Scan T X) (t : Token T) (s' : Scan T X) : Prop where
  start : t.start = s.context.position
  text : slice? t.start t.stop s.input.toList = some t.text.toList
  position : s'.context.position = t.stop
  edge : ∃ st m, s.grammar.state? s.context.state = some st ∧
    st.matchAt? s.input.toList s.context.position = some m ∧ t.text.toList = m.text ∧
    let taken : Taken := ⟨s.input, s.context.state, t.text⟩
    let emitted := m.edge.emit.apply taken s.context
    let next := m.edge.goto.apply taken emitted.2
    t.tag = emitted.1 ∧ s'.context.state = next.1 ∧ s'.context.ext = next.2.ext

/-- **Tokens**: a pull that gives one takes the next stretch of text. -/
lemma Behind.next {before : List Char} (h : s.Behind before) {t : Token T} {log : List Record}
    (hn : s.next = (.token t, s', log)) :
    s.Takes t s' ∧ s'.Behind (before ++ t.text.toList) ∧ s'.input = s.input ∧
      s'.grammar = s.grammar ∧ s'.excerptLength = s.excerptLength := by
  obtain ⟨after, hinput, hplace⟩ := h.place
  unfold Scan.next at hn
  rw [hplace] at hn
  rcases hfinished : s.finished with _ | _
  · rcases hst : s.grammar.state? s.context.state with _ | st
    · simp [hfinished, hst] at hn
    · rcases hm : st.match? ⟨before.getLast?, after⟩ with _ | m
      · simp only [hfinished, hst, hm, unmatched, Prod.mk.injEq] at hn
        split_ifs at hn <;> simp at hn
      · simp only [hfinished, hst, hm, Prod.mk.injEq, Pull.token.injEq] at hn
        obtain ⟨rfl, rfl, -⟩ := hn
        obtain ⟨n, hle, htext, hafter⟩ := State.on_of_match? hm
        have htext : m.text = after.take n := htext
        have hrest : after = m.text ++ after.drop n := by rw [htext, List.take_append_drop]
        refine ⟨⟨rfl, ?_, rfl, st, m, hst, ?_, ?_, rfl, rfl, rfl⟩, ⟨?_, after.drop n, ?_, ?_⟩, rfl,
          rfl, rfl⟩
        · simp only [take, String.toList_ofList, ← h.offset, hinput]
          rw [hrest]
          exact slice?_append before m.text _
        · rw [h.matchAt?_eq, hplace, Option.bind_some, hm]
        · simp [take]
        · simp [take, h.offset]
        · simp only [take, String.toList_ofList, List.append_assoc, ← hrest, hinput]
        · simp only [take, String.toList_ofList, hafter, htext, List.getLast?_append]
          rfl
  · simp [hfinished] at hn

/-- `n` pulls, and the scan after them. -/
def advance : Nat → Scan T X → List (Pull T) × Scan T X
  | 0, s => ([], s)
  | n + 1, s =>
    let (pull, s', _) := s.next
    let (pulls, last) := advance n s'
    (pull :: pulls, last)

/-- What follows on a pull that gives no token. -/
structure Stops (s : Scan T X) (pull : Pull T) (s' : Scan T X) : Prop where
  unknown : pull = .error (.unknownState s.context.state) ↔
    s.grammar.state? s.context.state = none
  ended : ∀ st, s.grammar.state? s.context.state = some st → (pull = .ended ↔
    st.matchAt? s.input.toList s.context.position = none ∧
      s.context.position = byteSize s.input.toList)
  failed : ∀ st, s.grammar.state? s.context.state = some st → pull ≠ .ended →
    st.matchAt? s.input.toList s.context.position = none ∧
      ∃ rest, slice? s.context.position (byteSize s.input.toList) s.input.toList = some rest ∧
        pull = .error (.noMatch s.context.position s.context.state
          (String.ofList (rest.take s.excerptLength)))
  context : s'.context = s.context
  /-- Every later pull is the end. -/
  stays : ∀ n, advance n s' = (List.replicate n .ended, s')

lemma advance_of_finished (h : s.finished = true) (n : Nat) :
    advance n s = (List.replicate n .ended, s) := by
  have hnext : s.next = (.ended, s, []) := by simp [Scan.next, h]
  induction n with
  | zero => rfl
  | succ n ih => simp only [advance, hnext, ih, List.replicate_succ]

lemma input_next {pull : Pull T} {log : List Record} (hn : s.next = (pull, s', log)) :
    s'.input = s.input := by
  unfold Scan.next at hn
  split at hn
  · split at hn
    · cases hn
      rfl
    · split at hn <;> cases hn <;> rfl
  · cases hn
    rfl

/-- **Stops**: a live scan that comes to no token says why, and is finished. -/
lemma Behind.stops {before : List Char} (h : s.Behind before) (hlive : s.finished = false)
    {pull : Pull T} {log : List Record} (hn : s.next = (pull, s', log))
    (hpull : pull.isToken = false) : s.Stops pull s' := by
  obtain ⟨after, hinput, hplace⟩ := h.place
  have hmatch := h.matchAt?_eq
  rw [hplace] at hmatch
  have hend : s.context.position = byteSize s.input.toList ↔ after = [] := by
    rw [← h.offset, hinput, byteSize_append, ← byteSize_eq_zero_iff]
    omega
  unfold Scan.next at hn
  simp only [hplace, hlive] at hn
  rcases hst : s.grammar.state? s.context.state with _ | st
  · simp only [hst, Prod.mk.injEq] at hn
    obtain ⟨rfl, rfl, -⟩ := hn
    exact ⟨by simp [hst], by simp [hst], by simp [hst], rfl, advance_of_finished rfl⟩
  · rcases hm : st.match? ⟨before.getLast?, after⟩ with _ | m
    · simp only [hst, hm, Prod.mk.injEq] at hn
      obtain ⟨rfl, rfl, -⟩ := hn
      have hnone : st.matchAt? s.input.toList s.context.position = none := by rw [hmatch]; exact hm
      rcases after with _ | ⟨c, after⟩
      · refine ⟨by simp [unmatched, hst], fun st' hst' => ?_, by simp [unmatched], rfl,
          advance_of_finished rfl⟩
        obtain rfl := Option.some.inj (hst.symm.trans hst')
        simp [unmatched, hnone, hend]
      · have hslice : slice? s.context.position (byteSize s.input.toList) s.input.toList =
            some (c :: after) := by
          have := slice?_append before (c :: after) []
          rw [← h.offset, hinput, byteSize_append]
          simpa using this
        refine ⟨by simp [unmatched, hst], fun st' hst' => ?_, fun st' hst' _ => ?_, rfl,
          advance_of_finished rfl⟩
        · simp [unmatched, hend]
        · obtain rfl := Option.some.inj (hst.symm.trans hst')
          exact ⟨hnone, c :: after, hslice, rfl⟩
    · simp only [hst, hm, Prod.mk.injEq] at hn
      obtain ⟨rfl, -, -⟩ := hn
      cases hpull

lemma Stops.noMatch_eq {position : Nat} {state excerpt : String}
    (h : s.Stops (.error (.noMatch position state excerpt)) s') :
    position = s.context.position ∧ state = s.context.state := by
  have hst : s.grammar.state? s.context.state ≠ none := fun hnone => by
    have := h.unknown.2 hnone
    cases this
  obtain ⟨st, hst⟩ := Option.ne_none_iff_exists'.1 hst
  obtain ⟨-, rest, -, heq⟩ := h.failed st hst (by simp)
  cases heq
  exact ⟨rfl, rfl⟩

/-- Tokens that lie one after the other in a text, from one offset to another. -/
def Covers (input : String) : Nat → List (Token T) → Nat → Prop
  | start, [], stop => start = stop
  | start, t :: ts, stop =>
    t.start = start ∧ slice? t.start t.stop input.toList = some t.text.toList ∧
      Covers input t.stop ts stop

lemma finished_of_token {t : Token T} {log : List Record} (h : s.next = (.token t, s', log)) :
    s'.finished = false := by
  unfold Scan.next at h
  split at h
  · rename_i hfinished _
    split at h
    · cases h
    · split at h
      · cases h
        exact hfinished
      · simp only [unmatched, Prod.mk.injEq] at h
        split_ifs at h <;> simp at h
  · cases h

lemma Behind.pulls {before : List Char} (h : s.Behind before) (hlive : s.finished = false)
    (hp : Pulls s es s') :
    Covers s.input s.context.position (es.map Entry.token) s'.context.position ∧
      s'.Behind (before ++ es.flatMap fun e => e.token.text.toList) ∧ s'.finished = false ∧
      s'.input = s.input ∧ s'.excerptLength = s.excerptLength := by
  induction hp generalizing before with
  | nil s => exact ⟨rfl, by simpa using h, hlive, rfl, rfl⟩
  | cons hn _ ih =>
    obtain ⟨htakes, hbehind, hinput, -, hlength⟩ := h.next hn
    obtain ⟨hcovers, hlast, hlive', hinput', hlength'⟩ := ih hbehind (finished_of_token hn)
    rw [hinput] at hcovers hinput'
    refine ⟨⟨htakes.start, htakes.text, ?_⟩, by simpa using hlast, hlive', hinput',
      hlength'.trans hlength⟩
    rwa [htakes.position] at hcovers

/-- Any number of pulls give tokens, and then maybe one that is none and nothing but ends. -/
lemma Behind.advance_eq {before : List Char} (h : s.Behind before) (hlive : s.finished = false)
    (n : Nat) : ∃ es mid, Pulls s es mid ∧
      (advance n s = (es.map fun e => .token e.token, mid) ∨
        ∃ pull s' log k, mid.next = (pull, s', log) ∧ pull.isToken = false ∧
          advance n s =
            ((es.map fun e => .token e.token) ++ pull :: List.replicate k .ended, s')) := by
  induction n generalizing s before with
  | zero => exact ⟨[], s, .nil s, .inl rfl⟩
  | succ n ih =>
    rcases hn : s.next with ⟨pull, mid, log⟩
    have hadvance : advance (n + 1) s = (pull :: (advance n mid).1, (advance n mid).2) := by
      simp only [advance, hn]
    rcases htoken : pull.isToken with _ | _
    · have hstays := (h.stops hlive hn htoken).stays n
      refine ⟨[], s, .nil s, .inr ⟨pull, mid, log, n, hn, htoken, ?_⟩⟩
      rw [hadvance, hstays]
      rfl
    · obtain ⟨t, rfl⟩ : ∃ t, pull = .token t := by
        cases pull <;> simp_all [Pull.isToken]
      obtain ⟨es, last, hp, hrest⟩ := ih (h.next hn).2.1 (finished_of_token hn)
      refine ⟨_, last, .cons hn hp, ?_⟩
      rw [hadvance]
      rcases hrest with hrest | ⟨pull, s', log', k, hlast, hpull, hrest⟩
      · exact .inl (by rw [hrest]; rfl)
      · exact .inr ⟨pull, s', log', k, hlast, hpull, by rw [hrest]; rfl⟩

/-- A scan that ends has covered its input. -/
lemma Behind.eq_of_ended {before : List Char} (h : s.Behind before) (hlive : s.finished = false)
    {log : List Record} (hn : s.next = (.ended, s', log)) : s.input.toList = before := by
  have hstops := h.stops hlive hn rfl
  have hend : s.context.position = byteSize s.input.toList := by
    rcases hst : s.grammar.state? s.context.state with _ | st
    · have := hstops.unknown.2 hst
      cases this
    · exact ((hstops.ended st hst).1 rfl).2
  obtain ⟨after, hinput, -⟩ := h.place
  rcases after with _ | ⟨c, after⟩
  · rw [hinput, List.append_nil]
  · have := byteSize_pos (List.cons_ne_nil c after)
    rw [hinput, byteSize_append, h.offset] at hend
    omega

/-- **Coverage**: any number of pulls give some tokens, and then maybe an error or the end, which
every later pull is. The tokens cover the input from where the scan started to where it stands. The
next pull gives the token that the rules of the current state match there, or it gives none, says
why, and leaves the context as it is. A scan that ends has covered the rest of its input. -/
theorem covers_input (g : Grammar T X) {input : String} {position : Nat}
    (hposition : IsBoundary position input.toList) (start : String) (ext : X)
    (excerptLength : Nat) :
    let first : Scan T X := { g.scan input position start ext with excerptLength }
    (∀ n, ∃ es s, Pulls first es s ∧
      (advance n first = (es.map fun e => .token e.token, s) ∨
        ∃ pull s' log k, s.next = (pull, s', log) ∧ pull.isToken = false ∧
          advance n first =
            ((es.map fun e => .token e.token) ++ pull :: List.replicate k .ended, s'))) ∧
    ∀ es s, Pulls first es s →
      Covers input position (es.map Entry.token) s.context.position ∧
      (∀ t s' log, s.next = (.token t, s', log) → s.Takes t s') ∧
      (∀ pull s' log, s.next = (pull, s', log) → pull.isToken = false → s.Stops pull s') ∧
      ∀ s' log, s.next = (.ended, s', log) →
        slice? position (byteSize input.toList) input.toList =
          some (es.flatMap fun e => e.token.text.toList) := by
  intro first
  obtain ⟨before, after, hsplit, rfl⟩ := hposition
  have hstart : first.Behind before := behind_scan g hsplit start ext excerptLength
  refine ⟨hstart.advance_eq rfl, fun es s hp => ?_⟩
  obtain ⟨hcovers, hbehind, hlive, hinput, -⟩ := hstart.pulls rfl hp
  refine ⟨hcovers, fun t s' log hn => (hbehind.next hn).1,
    fun pull s' log hn => hbehind.stops hlive hn, fun s' log hn => ?_⟩
  have hall : input.toList = before ++ es.flatMap fun e => e.token.text.toList := by
    rw [← hbehind.eq_of_ended hlive hn, hinput]
    rfl
  have hslice := slice?_append before (es.flatMap fun e => e.token.text.toList) []
  rw [hall, byteSize_append]
  simpa using hslice

def strayRules : RuleTable Nat Nat :=
  [("letters", [⟨some "[a-zä]", .compute fun _ cx => (1, ⟨9999, "nowhere", cx.ext + 1⟩),
      .const "digits"⟩]),
   ("digits", [⟨some "[0-9]+", .const 0,
      .compute fun _ cx => ("letters", ⟨0, "nowhere", cx.ext * 10⟩)⟩])]

/-- From the second character on, up to one that no rule matches. -/
theorem covers_stray_callbacks : ∃ g es s s' log, Grammar.compile strayRules = .ok g ∧
    Pulls (g.scan "xä12+" 1 "letters" 0) es s ∧
    (es.map fun e => e.token.text) = ["ä", "12"] ∧ s.context = ⟨5, "letters", 10⟩ ∧
    s.next = (.error (.noMatch 5 "letters" "+"), s', log) ∧
    Covers "xä12+" 1 (es.map Entry.token) 5 ∧
    s.Stops (.error (.noMatch 5 "letters" "+")) s' := by
  have hrun : ((Grammar.compile strayRules).toOption.map fun g =>
      let run := (g.scan "xä12+" 1 "letters" 0).drain 5
      (run.1.map fun e => e.token.text, run.2.1.context, run.2.2)) =
        some (["ä", "12"], ⟨5, "letters", 10⟩, some (.error (.noMatch 5 "letters" "+"))) := by
    decide +kernel
  obtain ⟨g, hg, hrun⟩ := Option.map_eq_some_iff.1 hrun
  have hposition : IsBoundary 1 "xä12+".toList := ⟨['x'], ['ä', '1', '2', '+'], rfl, rfl⟩
  obtain ⟨-, hall⟩ := covers_input g hposition "letters" 0 defaultExcerptLength
  rcases hd : (g.scan "xä12+" 1 "letters" 0).drain 5 with ⟨es, s', stop⟩
  simp only [hd, Prod.mk.injEq] at hrun
  obtain ⟨htexts, hcontext, rfl⟩ := hrun
  obtain ⟨s, log, hp, hn, htoken⟩ := stop_of_drain hd
  obtain ⟨hcovers, -, hstops, -⟩ := hall es s hp
  have hstops := hstops _ s' log hn htoken
  rw [← hstops.context, hcontext] at hcovers
  exact ⟨g, es, s, s', log, eq_ok_of_toOption hg, hp, htexts,
    by rw [← hstops.context, hcontext], hn, hcovers, hstops⟩

end Scan

end ScanTree
