import Mathlib.Data.List.Chain
import ScanTree.Proofs.PropertyList.Locations

/-!
The scan of a text makes progress.

Only at the head of an array and after a comma there may be a token without text, and it leads on to
a value, which has some. Two tokens in a row take some text, so no more tokens come than twice its
bytes.
-/

namespace ScanTree

/-- If one pull gives a token without text, the next gives none at all or one with text. -/
def Pull.Progress {T : Type} (pull pull' : Pull T) : Prop :=
  ∀ t, pull = .token t → t.start = t.stop → ∀ t', pull' = .token t' → t'.start < t'.stop

lemma Pull.progress_of_stop {T : Type} {pull : Pull T} (h : pull.isToken = false) (pull' : Pull T) :
    pull.Progress pull' := by
  rintro t rfl
  cases h

namespace Scan

variable {T X : Type} {s s' : Scan T X} {before : List Char} {t : Token T} {log : List Record}

lemma advance_succ {pull : Pull T} (hn : s.next = (pull, s', log)) (n : Nat) :
    (advance (n + 1) s).1 = pull :: (advance n s').1 := by
  simp only [advance, hn]

lemma length_advance (n : Nat) (s : Scan T X) : (advance n s).1.length = n := by
  induction n generalizing s with
  | zero => rfl
  | succ n ih =>
    rcases hn : s.next with ⟨pull, s', log⟩
    rw [advance_succ hn, List.length_cons, ih]

lemma Behind.stop_eq (h : s.Behind before) (hn : s.next = (.token t, s', log)) :
    t.stop = t.start + Text.byteSize t.text.toList := by
  obtain ⟨htakes, hbehind, -⟩ := h.next hn
  have hoffset := hbehind.offset
  rw [Text.byteSize_append, h.offset, htakes.position] at hoffset
  rw [htakes.start, hoffset]

end Scan

namespace PropertyList

open Scan

variable {s s' s'' : Scan Tag Nesting} {q : String} {tails : List String} {place : Place}
  {before : List Char}

/-- **Step**: no token without text comes right after another. -/
lemma At.progress (h : At s q tails place) (hbehind : s.Behind before) {t t' : Token Tag}
    {log log' : List Record} (hn : s.next = (.token t, s', log))
    (hn' : s'.next = (.token t', s'', log')) (hidle : t.start = t.stop) : t'.start < t'.stop := by
  obtain ⟨q', tails', place', h', hstep⟩ := h.step hn
  obtain ⟨q'', tails'', place'', -, hstep'⟩ := h'.step hn'
  have hempty : t.text.toList = [] := by
    have := hbehind.stop_eq hn
    exact Text.byteSize_eq_zero_iff.1 (by omega)
  have hmain : q' = "main" := (hstep.idle hempty).2
  have hwide : t'.text.toList ≠ [] := by
    intro hempty'
    have hmay : mayIdle q' = true := (hstep'.idle hempty').1
    rw [hmain] at hmay
    exact absurd hmay (by decide)
  have := Text.byteSize_pos hwide
  have := (hbehind.next hn).2.1.stop_eq hn'
  omega

lemma At.of_next (h : At s q tails place) {t : Token Tag} {log : List Record}
    (hn : s.next = (.token t, s', log)) : ∃ q tails place, At s' q tails place := by
  obtain ⟨q', tails', place', h', -⟩ := h.step hn
  exact ⟨q', tails', place', h'⟩

lemma advance_of_stop (h : At s q tails place) (hbehind : s.Behind before) {pull : Pull Tag}
    {log : List Record} (hn : s.next = (pull, s', log)) (hpull : pull.isToken = false) (n : Nat) :
    (advance n s').1 = List.replicate n .ended := by
  rw [(hbehind.stops h.live hn hpull).stays]

/-- **Run**: so it is for any number of pulls. -/
lemma At.isChain_advance (h : At s q tails place) (hbehind : s.Behind before) (n : Nat) :
    (advance n s).1.IsChain Pull.Progress := by
  induction n generalizing s q tails place before with
  | zero => exact .nil
  | succ n ih =>
    rcases hn : s.next with ⟨t | e | _, s', log⟩
    · obtain ⟨q', tails', place', h'⟩ := h.of_next hn
      rw [advance_succ hn]
      refine List.isChain_cons.2 ⟨fun pull' hpull' => ?_, ih h' (hbehind.next hn).2.1⟩
      rintro _ ⟨⟩ hidle t' rfl
      rcases n with _ | n
      · cases hpull'
      · rcases hn' : s'.next with ⟨pull, s'', log'⟩
        rw [advance_succ hn', List.head?_cons] at hpull'
        obtain rfl : pull = .token t' := Option.some.inj hpull'
        exact h.progress hbehind hn hn' hidle
    all_goals
      rw [advance_succ hn, advance_of_stop h hbehind hn rfl]
      refine List.isChain_cons.2 ⟨fun pull' _ => Pull.progress_of_stop rfl pull', ?_⟩
      exact List.isChain_replicate_of_rel n (Pull.progress_of_stop rfl _)

/-- Any number of pulls give no more tokens than the budget of the scan allows. -/
lemma At.countP_advance_le (h : At s q tails place) (hbehind : s.Behind before) (n : Nat) :
    (advance n s).1.countP Pull.isToken ≤ budget s := by
  induction n generalizing s q tails place before with
  | zero => exact Nat.zero_le _
  | succ n ih =>
    rcases hn : s.next with ⟨t | e | _, s', log⟩
    · obtain ⟨q', tails', place', h'⟩ := h.of_next hn
      have hrest := ih h' (hbehind.next hn).2.1
      have hless := h.budget_lt hn
      rw [advance_succ hn, List.countP_cons_of_pos rfl]
      omega
    all_goals
      rw [advance_succ hn, advance_of_stop h hbehind hn rfl]
      simp [Pull.isToken, List.countP_replicate]

/-- **A scan comes to its end**: however often the scan of a text is pulled, it gives no more tokens
than twice the bytes of the text, and with one pull more it has given an error or the end. Right
after a token without text comes a token with text, an error or the end. -/
theorem scan_progresses (input : String) (excerptLength : Nat) :
    (∃ pull ∈ (advance (2 * Text.byteSize input.toList + 1) (scan input excerptLength)).1,
      pull.isToken = false) ∧
    ∀ n, (advance n (scan input excerptLength)).1.countP Pull.isToken ≤
        2 * Text.byteSize input.toList ∧
      (advance n (scan input excerptLength)).1.IsChain Pull.Progress := by
  have hat := at_scan input excerptLength
  have hbehind := behind_start input excerptLength
  have hcount (n : Nat) : (advance n (scan input excerptLength)).1.countP Pull.isToken ≤
      2 * Text.byteSize input.toList :=
    (hat.countP_advance_le hbehind n).trans (budget_scan_le input excerptLength)
  refine ⟨?_, fun n => ⟨hcount n, hat.isChain_advance hbehind n⟩⟩
  by_contra hall
  have htokens : ∀ pull ∈ (advance (2 * Text.byteSize input.toList + 1)
      (scan input excerptLength)).1, pull.isToken = true := by
    simpa using hall
  have hlength := List.countP_eq_length.2 htokens
  have := hcount (2 * Text.byteSize input.toList + 1)
  rw [length_advance] at hlength
  omega

/-- At the head of an array there may be a token without text. -/
example : ((advance 5 (scan "(1" 0)).1.map fun
    | .token t => (t.start, t.stop)
    | _ => (0, 0)) = [(0, 1), (1, 1), (1, 2), (0, 0), (0, 0)] := by
  decide +kernel

end PropertyList

end ScanTree
