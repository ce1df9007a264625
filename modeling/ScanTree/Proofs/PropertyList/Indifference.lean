import ScanTree.Proofs.PropertyList.Outcomes
import ScanTree.Proofs.PropertyList.Policies

/-!
The options of the reader change no result, but for how much of the text a syntax error quotes.

In the tokens of a text a key never comes, and no dict closes, while a key waits. So no write asks
for the options, and two builders that are fed the same tokens under different options go through
the same trees.
-/

namespace ScanTree

variable {T X : Type}

namespace Scan

def quoting (s : Scan T X) (n : Nat) : Scan T X := { s with excerptLength := n }

variable {s s' : Scan T X} {n : Nat}

/-- Two pulls that differ in what they quote at most. -/
inductive SameButExcerpt : Pull T → Pull T → Prop
  | refl (pull : Pull T) : SameButExcerpt pull pull
  | noMatch (position : Nat) (state excerpt excerpt' : String) :
      SameButExcerpt (.error (.noMatch position state excerpt))
        (.error (.noMatch position state excerpt'))

/-- The length matters only to what an error quotes. -/
lemma next_quoting (s : Scan T X) (n : Nat) :
    SameButExcerpt s.next.1 (s.quoting n).next.1 ∧
      (s.quoting n).next.2 = (s.next.2.1.quoting n, s.next.2.2) := by
  rcases hplace : s.place with _ | place
  · simp [Scan.next, quoting, hplace, SameButExcerpt.refl]
  · rcases hfinished : s.finished with _ | _
    · rcases hst : s.grammar.state? s.context.state with _ | st
      · simp [Scan.next, quoting, hplace, hfinished, hst, SameButExcerpt.refl]
      · rcases hm : st.match? place with _ | m
        · by_cases hrest : place.rest.isEmpty
          · simp [Scan.next, quoting, hplace, hfinished, hst, hm, unmatched, hrest,
              SameButExcerpt.refl]
          · simp [Scan.next, quoting, hplace, hfinished, hst, hm, unmatched, hrest,
              SameButExcerpt.noMatch]
        · simp [Scan.next, quoting, hplace, hfinished, hst, hm, take, Scan.record,
            SameButExcerpt.refl]
    · simp [Scan.next, quoting, hplace, hfinished, SameButExcerpt.refl]

lemma SameButExcerpt.isToken {pull pull' : Pull T} (h : SameButExcerpt pull pull') :
    pull'.isToken = pull.isToken := by
  cases h <;> rfl

end Scan

open Scan

lemma Pulls.quoting {s s' : Scan T X} {es : List (Entry T X)} (h : Pulls s es s') (n : Nat) :
    Pulls (s.quoting n) es (s'.quoting n) := by
  induction h with
  | nil s => exact .nil _
  | @cons s s' s'' t log es hn _ ih =>
    obtain ⟨hpull, hrest⟩ := s.next_quoting n
    rw [hn] at hpull hrest
    have hfirst : (s.quoting n).next.1 = .token t := by
      generalize (s.quoting n).next.1 = pull at hpull
      cases hpull
      rfl
    have hnext : (s.quoting n).next = (.token t, s'.quoting n, log) := Prod.ext hfirst hrest
    exact .cons hnext ih

namespace PropertyList

open Builder Text

variable {o o' : Options} {input : String} {b : Builder schema} {q q' : String}
  {tails tails' : List String}

/-! ### Writes -/

/-- Keys come, and dicts close, only where no key waits. -/
lemma Sound.not_asks (h : Sound q tails b) {t : Token Tag} (hm : Move q tails t.tag q' tails') :
    ¬ Asks b t := by
  rintro ⟨htag, f, hf, hkind, d, hget, hwaits⟩
  have hq : q = "beforeKey" ∨ q = "dictTail" := by
    rcases htag with ht | ht <;> rw [ht] at hm <;> cases hm <;> simp_all
  have hlevels : Levels false tails (levels b.tree b.frames) := by
    rcases hq with rfl | rfl <;>
      exact h.matched.levels_of_plain (by decide) (by decide) (by decide)
  obtain ⟨d', ls, hls, hd', -⟩ := hlevels.dict_inv (h.nested.dicts (by tauto))
  obtain ⟨g, gs, hframes, -, hget', -⟩ := levels_eq_cons hls
  obtain rfl : g = f := by
    rw [hframes] at hf
    exact Option.some.inj hf
  cases hget.symm.trans hget'
  rw [hd'] at hwaits
  cases hwaits

/-- Feeding the tokens of a scan goes through the same trees under all options. -/
lemma feed_withContext {s s' : Scan Tag Nesting} {es : List (Entry Tag Nesting)} {place : Place}
    (h : At s q tails place) (hsound : Sound q tails b) (hp : Pulls s es s') (input : String)
    (o : Options) :
    (feed input (b.withContext o) es).1 = ((feed input b es).1.map (·.withContext o)) := by
  induction hp generalizing q tails place b with
  | nil s => rfl
  | @cons s mid s'' t log es hn _ ih =>
    obtain ⟨q', tails', place', hat, hstep⟩ := h.step hn
    have hsame := sameBut_write (o := o) (hsound.not_asks hstep.move)
    rcases hresult : (b.write plan t).result with e | _
    · simp only [feed, hsame.result, hresult]
      rfl
    · rcases hsound.step hstep.move with ⟨b', ⟨-, rfl⟩, hsound'⟩ | ⟨kind, e, -, -, hrefused⟩
      · simp only [feed, hsame.result, hresult, hsame.state]
        exact ih hat hsound'
      · rw [hresult] at hrefused
        cases hrefused

/-! ### Whole texts -/

/-- Two outcomes of reading a text that differ in what they quote of it at most. A syntax error
quotes as many characters as asked for, from the offset that it names. -/
inductive Alike (input : String) (n n' : Nat) : Except Error Value → Except Error Value → Prop
  | value (v : Value) : Alike input n n' (.ok v) (.ok v)
  | noRule (location : Location) (state : String) (position : Nat) (rest : List Char)
      (hrest : slice? position (byteSize input.toList) input.toList = some rest) :
      Alike input n n'
        (.error (.noRule location state (.noMatch position state (String.ofList (rest.take n)))))
        (.error (.noRule location state (.noMatch position state (String.ofList (rest.take n')))))
  | error (e : Error) (h : ∀ location state source, e ≠ .noRule location state source) :
      Alike input n n' (.error e) (.error e)

lemma excerpt_of_pulls {n : Nat} {s mid : Scan Tag Nesting} {es : List (Entry Tag Nesting)}
    {position : Nat} {state excerpt : String} {log : List Record} (hp : Pulls (scan input n) es mid)
    (hn : mid.next = (.error (.noMatch position state excerpt), s, log)) :
    ∃ rest, slice? position (byteSize input.toList) input.toList = some rest ∧
      excerpt = String.ofList (rest.take n) := by
  obtain ⟨-, hbehind, hlive, hinput, hlength⟩ := (behind_start input n).pulls rfl hp
  have hstops := hbehind.stops hlive hn rfl
  rcases hst : mid.grammar.state? mid.context.state with _ | st
  · cases hstops.unknown.2 hst
  · obtain ⟨-, rest, hrest, heq⟩ := hstops.failed st hst (by simp)
    cases heq
    have hinput : mid.input = input := hinput
    have hlength : mid.excerptLength = n := hlength
    rw [hinput] at hrest
    exact ⟨rest, hrest, by rw [hlength]⟩

lemma pulls_quoting {n : Nat} {mid : Scan Tag Nesting} {es : List (Entry Tag Nesting)}
    (hp : Pulls (scan input n) es mid) (n' : Nat) : Pulls (scan input n') es (mid.quoting n') := by
  have hstart : (scan input n).quoting n' = scan input n' := by rw [quoting, scan, scan]
  rw [← hstart]
  exact hp.quoting n'

/-- The same tokens come and the same pull stops them, whatever an error quotes. -/
lemma tokens_quoting (input : String) (n n' : Nat) : ∃ es s mid pull pull' log,
    Pulls (scan input n) es mid ∧
    tokens input n = (es, s, some pull) ∧ mid.next = (pull, s, log) ∧
    tokens input n' = (es, s.quoting n', some pull') ∧
    (mid.quoting n').next = (pull', s.quoting n', log) ∧
    SameButExcerpt pull pull' ∧ pull.isToken = false := by
  obtain ⟨es, s, pull, hd⟩ := exists_tokens input n
  obtain ⟨mid, log, hp, hn, htoken⟩ := stop_of_drain hd
  obtain ⟨hsame, hrest⟩ := mid.next_quoting n'
  rw [hn] at hsame hrest
  have hnext : (mid.quoting n').next = ((mid.quoting n').next.1, s.quoting n', log) :=
    Prod.ext rfl hrest
  have hp' : Pulls (scan input n') es (mid.quoting n') := pulls_quoting hp n'
  exact ⟨es, s, mid, pull, _, log, hp, hd, hn, tokens_eq hp' hnext (hsame.isToken.trans htoken),
    hnext, hsame, htoken⟩

lemma Alike.refl {n n' : Nat} {r : Except Error Value}
    (h : ∀ location state source, r ≠ .error (.noRule location state source)) :
    Alike input n n' r r := by
  rcases r with e | v
  · exact .error e fun location state source he => h location state source (by rw [he])
  · exact .value v

/-- What comes after the scan is no syntax error. -/
lemma finish_ne_noRule (b : Builder schema) (location : Location) (state : String)
    (source : ScanError) :
    (b.finish.mapError Error.incomplete).bind treeValue ≠
      .error (.noRule location state source) := by
  intro h
  rcases hfinish : b.finish with e | tree
  · rw [hfinish] at h
    cases h
  · rw [hfinish] at h
    have h : treeValue tree = .error (.noRule location state source) := h
    unfold treeValue at h
    split at h
    · cases h
    · rename_i item _ _
      rcases hitem : resolve tree item with e | v <;> rw [hitem] at h <;> cases h

/-- **Options change no meaning**: under all options a text is read as the same value or refused
with the same error, except for how much a syntax error quotes from its offset on. -/
theorem options_indifferent (o o' : Options) (input : String) :
    Alike input o.excerptLength o'.excerptLength (parseWith o input) (parseWith o' input) := by
  obtain ⟨es, s, mid, pull, pull', log, hp, hd, hn, hd', hn', hsame, htoken⟩ :=
    tokens_quoting input o.excerptLength o'.excerptLength
  have hfed := feed_withContext (at_scan input o.excerptLength) (sound_start o) hp input o'
  have hstart : ({ context := o } : Builder schema).withContext o' = { context := o' } := rfl
  rw [hstart] at hfed
  rw [parseWith_eq, parseWith_eq, hd, hd', hfed]
  rcases hfeed : (feed input { context := o } es).1 with e | b
  · obtain ⟨taken, entry, rest, b, err, -, -, -, rfl⟩ := feed_error hfeed
    exact .error _ fun location state source he => by cases he
  · rcases pull with t | (state | ⟨position, state, excerpt⟩) | _
    · cases htoken
    · exact absurd rfl (ne_unknownState hp hn state)
    · generalize hpull' : pull' = pull'' at hsame
      obtain ⟨excerpt', rfl⟩ : ∃ excerpt', pull'' = .error (.noMatch position state excerpt') := by
        cases hsame <;> exact ⟨_, rfl⟩
      subst hpull'
      obtain ⟨rest, hrest, rfl⟩ := excerpt_of_pulls hp hn
      have hp' := pulls_quoting hp o'.excerptLength
      obtain ⟨rest', hrest', rfl⟩ := excerpt_of_pulls hp' hn'
      obtain rfl := Option.some.inj (hrest.symm.trans hrest')
      exact .noRule _ state position rest hrest
    · obtain rfl : pull' = .ended := by
        cases hsame
        rfl
      exact .refl fun location state source => finish_ne_noRule b location state source

end PropertyList

end ScanTree
