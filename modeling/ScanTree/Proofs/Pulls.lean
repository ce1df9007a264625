import Mathlib.Data.List.Basic
import ScanTree.Scan

/-!
Runs of pulls that all give tokens, which is what draining a scan is made of.
-/

namespace ScanTree

variable {T X : Type}

/-- Pulls that lead from one scan to another and give the tokens of some entries. -/
inductive Pulls : Scan T X → List (Scan.Entry T X) → Scan T X → Prop
  | nil (s : Scan T X) : Pulls s [] s
  | cons {s s' s'' : Scan T X} {t : Token T} {log : List Record} {es : List (Scan.Entry T X)}
      (h : s.next = (.token t, s', log)) (hs : Pulls s' es s'') :
      Pulls s (⟨s.context, t, log⟩ :: es) s''

namespace Pulls

variable {s s' s'' : Scan T X} {es fs : List (Scan.Entry T X)}

lemma one {t : Token T} {log : List Record} (h : s.next = (.token t, s', log)) :
    Pulls s [⟨s.context, t, log⟩] s' := .cons h (.nil s')

lemma append (h : Pulls s es s') (h' : Pulls s' fs s'') : Pulls s (es ++ fs) s'' := by
  induction h with
  | nil s => exact h'
  | cons hn _ ih => exact .cons hn (ih h')

lemma split {e : Scan.Entry T X} (h : Pulls s (es ++ e :: fs) s'') :
    ∃ mid mid' log, Pulls s es mid ∧ mid.context = e.before ∧
      mid.next = (.token e.token, mid', log) := by
  induction es generalizing s with
  | nil =>
    rcases h with _ | ⟨hn, _⟩
    exact ⟨s, _, _, .nil s, rfl, hn⟩
  | cons first es ih =>
    rcases h with _ | ⟨hn, hs⟩
    obtain ⟨mid, mid', log, hp, hbefore, hnext⟩ := ih hs
    exact ⟨mid, mid', log, .cons hn hp, hbefore, hnext⟩

lemma rest {mid last : Scan T X} {pull : Pull T} {log : List Record} (h : Pulls s es s')
    (h' : Pulls s fs mid) (hn : s'.next = (pull, last, log)) (hpull : pull.isToken = false) :
    ∃ gs, es = fs ++ gs ∧ Pulls mid gs s' := by
  induction h' generalizing es with
  | nil s => exact ⟨es, rfl, h⟩
  | cons hfirst _ ih =>
    rcases h with _ | ⟨hfirst', h⟩
    · rw [hfirst] at hn
      cases hn
      cases hpull
    · rw [hfirst] at hfirst'
      cases hfirst'
      obtain ⟨gs, rfl, hgs⟩ := ih h
      exact ⟨gs, rfl, hgs⟩

/-- What holds at the start and is kept by each pull holds at the end, of the scan and the entries
so far. -/
lemma preserves {P : Scan T X → List (Scan.Entry T X) → Prop} (h : Pulls s es s')
    (step : ∀ {s s' fs t log}, P s fs → s.next = (.token t, s', log) →
      P s' (fs ++ [⟨s.context, t, log⟩])) (h0 : P s []) : P s' es := by
  have key : ∀ pre, P s pre → P s' (pre ++ es) := by
    clear h0
    induction h with
    | nil s =>
      intro pre hpre
      rwa [List.append_nil]
    | cons hn _ ih =>
      intro pre hpre
      have := ih (pre ++ [_]) (step hpre hn)
      rwa [List.append_assoc] at this
  exact key [] h0

end Pulls

namespace Scan

lemma drain_cases {n : Nat} {s s' : Scan T X} {es : List (Entry T X)} {stop : Option (Pull T)}
    (h : s.drain (n + 1) = (es, s', stop)) :
    (∃ t mid log rest, s.next = (.token t, mid, log) ∧ mid.drain n = (rest, s', stop) ∧
      es = ⟨s.context, t, log⟩ :: rest) ∨
    ∃ pull log, s.next = (pull, s', log) ∧ pull.isToken = false ∧ es = [] ∧ stop = some pull := by
  unfold drain at h
  rcases hn : s.next with ⟨t | e | _, mid, log⟩
  · rcases hd : mid.drain n with ⟨rest, stopped⟩
    simp only [hn, hd, Prod.mk.injEq] at h
    obtain ⟨rfl, rfl⟩ := h
    exact .inl ⟨t, mid, log, rest, rfl, hd, rfl⟩
  · simp only [hn, Prod.mk.injEq] at h
    obtain ⟨rfl, rfl, rfl⟩ := h
    exact .inr ⟨_, log, rfl, rfl, rfl, rfl⟩
  · simp only [hn, Prod.mk.injEq] at h
    obtain ⟨rfl, rfl, rfl⟩ := h
    exact .inr ⟨_, log, rfl, rfl, rfl, rfl⟩

lemma pulls_of_drain {n : Nat} {s s' : Scan T X} {es : List (Entry T X)}
    (h : s.drain n = (es, s', none)) : Pulls s es s' := by
  induction n generalizing s es with
  | zero =>
    simp only [drain, Prod.mk.injEq, and_true] at h
    obtain ⟨rfl, rfl⟩ := h
    exact .nil s
  | succ n ih =>
    obtain ⟨t, mid, log, rest, hn, hd, rfl⟩ | ⟨pull, log, -, -, -, hstop⟩ := drain_cases h
    · exact .cons hn (ih hd)
    · cases hstop

lemma stop_of_drain {n : Nat} {s s' : Scan T X} {es : List (Entry T X)} {pull : Pull T}
    (h : s.drain n = (es, s', some pull)) :
    ∃ mid log, Pulls s es mid ∧ mid.next = (pull, s', log) ∧ pull.isToken = false := by
  induction n generalizing s es with
  | zero => simp [drain] at h
  | succ n ih =>
    obtain ⟨t, mid, log, rest, hn, hd, rfl⟩ | ⟨stop, log, hn, htoken, rfl, hstop⟩ := drain_cases h
    · obtain ⟨last, log', hs, hlast, htoken⟩ := ih hd
      exact ⟨last, log', .cons hn hs, hlast, htoken⟩
    · obtain rfl : pull = stop := Option.some.inj hstop
      exact ⟨s, log, .nil s, hn, htoken⟩

lemma drain_of_pulls {s mid s' : Scan T X} {es : List (Entry T X)} {pull : Pull T}
    {log : List Record} (h : Pulls s es mid) (hn : mid.next = (pull, s', log))
    (hpull : pull.isToken = false) {n : Nat} (hlen : es.length < n) :
    s.drain n = (es, s', some pull) := by
  induction h generalizing n with
  | nil s =>
    obtain ⟨n, rfl⟩ := Nat.exists_eq_succ_of_ne_zero (Nat.ne_of_gt hlen)
    unfold drain
    rcases pull with t | e | _
    · cases hpull
    · simp [hn]
    · simp [hn]
  | cons hfirst _ ih =>
    obtain ⟨n, rfl⟩ := Nat.exists_eq_succ_of_ne_zero (Nat.ne_of_gt (Nat.zero_lt_of_lt hlen))
    simp only [List.length_cons, Nat.succ_eq_add_one, Nat.add_lt_add_iff_right] at hlen
    unfold drain
    simp [hfirst, ih hn hlen]

/-- A drain of fewer pulls than a measure allows comes to a stop. -/
lemma drain_stops (measure : Scan T X → Nat) {P : Scan T X → Prop}
    (step : ∀ {s s' t log}, P s → s.next = (.token t, s', log) → P s' ∧ measure s' < measure s)
    {n : Nat} {s : Scan T X} (h : P s) (hn : measure s < n) :
    ∃ pull, (s.drain n).2.2 = some pull := by
  induction n generalizing s with
  | zero => simp at hn
  | succ n ih =>
    unfold drain
    rcases hnext : s.next with ⟨t | e | _, mid, log⟩
    · obtain ⟨hmid, hlt⟩ := step h hnext
      obtain ⟨pull, hpull⟩ := ih hmid (by omega)
      exact ⟨pull, hpull⟩
    · exact ⟨.error e, rfl⟩
    · exact ⟨.ended, rfl⟩

end Scan

end ScanTree
