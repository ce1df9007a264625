import ScanTree.Proofs.PropertyList.Phrases

/-!
The skeleton of a scan is always the beginning of a sentence.

The state and the tails tell how far the derivation has come: for each tail there is an array or a
dict of which some members are complete, and the state tells what is under way in the innermost.
-/

namespace ScanTree.PropertyList

abbrev Element := Phrase × Comma

def Element.tokens (e : Element) : List (Token Tag) := e.1.tokens ++ [e.2.1]

structure Member where
  key : Marked (.leaf .key)
  equals : Equals
  value : Phrase
  semicolon : Semicolon

def Member.tokens (m : Member) : List (Token Tag) :=
  m.key.1 :: m.equals.1 :: (m.value.tokens ++ [m.semicolon.1])

def Elements.after : List Element → Elements → Elements
  | [], rest => rest
  | e :: es, rest => .cons e.1 e.2 (Elements.after es rest)

def Members.after : List Member → Members → Members
  | [], rest => rest
  | m :: ms, rest => .cons m.key m.equals m.value m.semicolon (Members.after ms rest)

lemma Elements.tokens_after (es : List Element) (rest : Elements) :
    (Elements.after es rest).tokens = es.flatMap Element.tokens ++ rest.tokens := by
  induction es with
  | nil => rfl
  | cons e es ih => simp [Elements.after, Elements.tokens, Element.tokens, ih]

lemma Members.tokens_after (ms : List Member) (rest : Members) :
    (Members.after ms rest).tokens = ms.flatMap Member.tokens ++ rest.tokens := by
  induction ms with
  | nil => rfl
  | cons m ms ih => simp [Members.after, Members.tokens, Member.tokens, ih]

/-- Tokens up to where a value comes next, inside the arrays and dicts of some tails. -/
inductive Inside : List String → List (Token Tag) → Prop
  | top : Inside [] []
  | array {tails : List String} {ts : List (Token Tag)} (h : Inside tails ts)
      (opener : Marked (.start .array)) (es : List Element) :
      Inside ("arrayTail" :: tails) (ts ++ opener.1 :: es.flatMap Element.tokens)
  | dict {tails : List String} {ts : List (Token Tag)} (h : Inside tails ts)
      (opener : Marked (.start .dict)) (ms : List Member) (key : Marked (.leaf .key))
      (equals : Equals) :
      Inside ("dictTail" :: tails)
        (ts ++ opener.1 :: (ms.flatMap Member.tokens ++ [key.1, equals.1]))

def Marked.any (tag : Tag) : Marked tag := ⟨⟨tag, "", 0, 0⟩, rfl⟩

def Equals.any : Equals := ⟨⟨.skip .equals, "=", 0, 0⟩, rfl, rfl⟩

def Phrase.any : Phrase := .array (.any _) .nil (.any _)

/-- Whatever value comes next, the tokens can be completed to a sentence. -/
lemma Inside.completes {tails : List String} {ts : List (Token Tag)} (h : Inside tails ts)
    (p : Phrase) : ∃ whole : Phrase, ts ++ p.tokens <+: whole.tokens := by
  induction h generalizing p with
  | top => exact ⟨p, by simp⟩
  | array h opener es ih =>
    obtain ⟨whole, hwhole⟩ := ih (.array opener (Elements.after es (.last p)) (.any _))
    refine ⟨whole, List.IsPrefix.trans ?_ hwhole⟩
    simp [Phrase.tokens, Elements.tokens, Elements.tokens_after]
  | dict h opener ms key equals ih =>
    obtain ⟨whole, hwhole⟩ := ih (.dict opener (Members.after ms (.last key equals p)) (.any _))
    refine ⟨whole, List.IsPrefix.trans ?_ hwhole⟩
    simp [Phrase.tokens, Members.tokens, Members.tokens_after]

/-- What the tokens so far are, by the state and the tails. -/
def Reached (q : String) (tails : List String) (ts : List (Token Tag)) : Prop :=
  match q with
  -- A value comes next, or the end of the array.
  | "main" | "arrayHead" | "afterComma" => Inside tails ts
  | "string" | "sstring" =>
    ∃ pre, ∃ opener : Marked (.start .string), ∃ parts : List Part,
      Inside tails pre ∧ ts = pre ++ opener.1 :: parts.map Subtype.val
  | "data" =>
    ∃ pre, ∃ opener : Marked (.start .data), ∃ chunks : List (Marked (.leaf .data)),
      Inside tails pre ∧ ts = pre ++ opener.1 :: chunks.map Subtype.val
  | "arrayTail" | "dictTail" | "end" =>
    ∃ pre, ∃ p : Phrase, Inside tails pre ∧ ts = pre ++ p.tokens
  -- A key comes next, or the end of the dict.
  | "beforeKey" =>
    ∃ pre, ∃ opener : Marked (.start .dict), ∃ ms : List Member,
      Inside tails.tail pre ∧ ts = pre ++ opener.1 :: ms.flatMap Member.tokens
  | "afterKey" =>
    ∃ pre, ∃ opener : Marked (.start .dict), ∃ ms : List Member, ∃ key : Marked (.leaf .key),
      Inside tails.tail pre ∧ ts = pre ++ opener.1 :: (ms.flatMap Member.tokens ++ [key.1])
  | _ => False

/-- **Viable prefix**: the tokens so far begin a sentence. -/
lemma Reached.completes {q : String} {tails : List String} {ts : List (Token Tag)}
    (h : Reached q tails ts) : ∃ whole : Phrase, ts <+: whole.tokens := by
  have hvalue : ∀ {tails ts}, Inside tails ts → ∃ whole : Phrase, ts <+: whole.tokens := by
    intro tails ts h
    obtain ⟨whole, hwhole⟩ := h.completes .any
    exact ⟨whole, (List.prefix_append _ _).trans hwhole⟩
  have hstring : ∀ {tails pre}, Inside tails pre → ∀ (opener : Marked (.start .string))
      (parts : List Part), ∃ whole : Phrase,
        pre ++ opener.1 :: parts.map Subtype.val <+: whole.tokens := by
    intro tails pre h opener parts
    obtain ⟨whole, hwhole⟩ := h.completes (.string opener parts (.any _))
    refine ⟨whole, List.IsPrefix.trans ?_ hwhole⟩
    simp [Phrase.tokens]
  unfold Reached at h
  split at h
  · exact hvalue h
  · exact hvalue h
  · exact hvalue h
  · obtain ⟨pre, opener, parts, h, rfl⟩ := h
    exact hstring h opener parts
  · obtain ⟨pre, opener, parts, h, rfl⟩ := h
    exact hstring h opener parts
  · obtain ⟨pre, opener, chunks, h, rfl⟩ := h
    obtain ⟨whole, hwhole⟩ := h.completes (.data opener chunks (.any _))
    refine ⟨whole, List.IsPrefix.trans ?_ hwhole⟩
    simp [Phrase.tokens]
  · obtain ⟨pre, p, h, rfl⟩ := h
    exact h.completes p
  · obtain ⟨pre, p, h, rfl⟩ := h
    exact h.completes p
  · obtain ⟨pre, p, h, rfl⟩ := h
    exact h.completes p
  · obtain ⟨pre, opener, ms, h, rfl⟩ := h
    obtain ⟨whole, hwhole⟩ := h.completes (.dict opener (Members.after ms .nil) (.any _))
    refine ⟨whole, List.IsPrefix.trans ?_ hwhole⟩
    simp [Phrase.tokens, Members.tokens, Members.tokens_after]
  · obtain ⟨pre, opener, ms, key, h, rfl⟩ := h
    obtain ⟨whole, hwhole⟩ :=
      h.completes (.dict opener (Members.after ms (.last key .any .any)) (.any _))
    refine ⟨whole, List.IsPrefix.trans ?_ hwhole⟩
    simp [Phrase.tokens, Members.tokens, Members.tokens_after]
  · exact h.elim

/-! ### Steps of a derivation -/

variable {q q' : String} {tails tails' : List String} {ts : List (Token Tag)} {t : Token Tag}

lemma Inside.known (h : Inside tails ts) :
    ∀ tail ∈ tails, tail = "arrayTail" ∨ tail = "dictTail" := by
  induction h with
  | top => simp
  | array h opener es ih => simpa using ih
  | dict h opener ms key equals ih => simpa using ih

lemma Inside.done (h : Inside tails ts) (p : Phrase) :
    Reached (after tails) tails (ts ++ p.tokens) := by
  rcases tails with _ | ⟨tail, tails⟩
  · exact ⟨ts, p, h, rfl⟩
  · rcases h.known tail List.mem_cons_self with rfl | rfl <;> exact ⟨ts, p, h, rfl⟩

lemma Inside.array_inv (h : Inside tails ts) (hhead : tails.head? = some "arrayTail") :
    ∃ pre, ∃ opener : Marked (.start .array), ∃ es : List Element, Inside tails.tail pre ∧
      ts = pre ++ opener.1 :: es.flatMap Element.tokens := by
  cases h with
  | top => cases hhead
  | array h opener es => exact ⟨_, opener, es, h, rfl⟩
  | dict h opener ms key equals => exact absurd (Option.some.inj hhead) (by decide)

lemma Inside.dict_inv (h : Inside tails ts) (hhead : tails.head? = some "dictTail") :
    ∃ pre, ∃ opener : Marked (.start .dict), ∃ ms : List Member, ∃ key : Marked (.leaf .key),
      ∃ equals : Equals, Inside tails.tail pre ∧
      ts = pre ++ opener.1 :: (ms.flatMap Member.tokens ++ [key.1, equals.1]) := by
  cases h with
  | top => cases hhead
  | array h opener es => exact absurd (Option.some.inj hhead) (by decide)
  | dict h opener ms key equals => exact ⟨_, opener, ms, key, equals, h, rfl⟩

def extend (ts : List (Token Tag)) (t : Token Tag) : List (Token Tag) :=
  if isBlankToken t then ts else ts ++ [t]

lemma extend_blank (h : isBlankToken t = true) : extend ts t = ts := if_pos h

lemma extend_tag {tag : Tag} (ht : t.tag = tag)
    (h : tag ≠ .skip .space ∧ tag ≠ .skip .newline ∧ tag ≠ .skip .comment) :
    extend ts t = ts ++ [t] := by
  refine if_neg ?_
  simp only [isBlankToken, ht, Bool.or_eq_true, decide_eq_true_eq, not_or]
  exact ⟨⟨h.1, h.2.1⟩, h.2.2⟩

/-- A bracket that closes an array completes it, whether or not a comma came last. -/
lemma Reached.closeArray (h : Reached q tails ts) (hn : Nested q tails)
    (hq : q = "arrayHead" ∨ q = "arrayTail" ∨ q = "afterComma") (ht : t.tag = .stop .array) :
    Reached (after tails.tail) tails.tail (ts ++ [t]) := by
  have hhead := hn.arrays hq
  have hinside : ∀ {ts : List (Token Tag)}, Inside tails ts →
      Reached (after tails.tail) tails.tail (ts ++ [t]) := by
    intro ts h
    obtain ⟨pre, opener, es, hpre, rfl⟩ := h.array_inv hhead
    have := hpre.done (.array opener (Elements.after es .nil) ⟨t, ht⟩)
    simpa [Phrase.tokens, Elements.tokens, Elements.tokens_after] using this
  rcases hq with rfl | rfl | rfl
  · exact hinside h
  · obtain ⟨pre, p, hpre, rfl⟩ := h
    obtain ⟨pre, opener, es, hpre', rfl⟩ := hpre.array_inv hhead
    have := hpre'.done (.array opener (Elements.after es (.last p)) ⟨t, ht⟩)
    simpa [Phrase.tokens, Elements.tokens, Elements.tokens_after] using this
  · exact hinside h

lemma Reached.closeDict (h : Reached q tails ts) (hn : Nested q tails)
    (hq : q = "beforeKey" ∨ q = "dictTail") (ht : t.tag = .stop .dict) :
    Reached (after tails.tail) tails.tail (ts ++ [t]) := by
  rcases hq with rfl | rfl
  · obtain ⟨pre, opener, ms, hpre, rfl⟩ := h
    have := hpre.done (.dict opener (Members.after ms .nil) ⟨t, ht⟩)
    simpa [Phrase.tokens, Members.tokens, Members.tokens_after] using this
  · obtain ⟨pre, p, hpre, rfl⟩ := h
    obtain ⟨pre, opener, ms, key, equals, hpre', rfl⟩ := hpre.dict_inv (hn.dicts (by simp))
    have := hpre'.done (.dict opener (Members.after ms (.last key equals p)) ⟨t, ht⟩)
    simpa [Phrase.tokens, Members.tokens, Members.tokens_after] using this

lemma Reached.comma (h : Reached "arrayTail" tails ts) (hn : Nested "arrayTail" tails)
    (ht : t.tag = .skip .separator) (htext : t.text = ",") :
    Reached "afterComma" tails (ts ++ [t]) := by
  have hhead := hn.arrays (by simp)
  obtain ⟨pre, p, hpre, rfl⟩ := h
  obtain ⟨pre, opener, es, hpre', rfl⟩ := hpre.array_inv hhead
  have := Inside.array hpre' opener (es ++ [(p, ⟨t, ht, htext⟩)])
  rw [← eq_cons_tail hhead] at this
  show Inside tails _
  simpa [Element.tokens] using this

lemma Reached.semicolon (h : Reached "dictTail" tails ts) (hn : Nested "dictTail" tails)
    (ht : t.tag = .skip .separator) (htext : t.text = ";") :
    Reached "beforeKey" tails (ts ++ [t]) := by
  obtain ⟨pre, p, hpre, rfl⟩ := h
  obtain ⟨pre, opener, ms, key, equals, hpre', rfl⟩ := hpre.dict_inv (hn.dicts (by simp))
  exact ⟨pre, opener, ms ++ [⟨key, equals, p, t, ht, htext⟩], hpre', by simp [Member.tokens]⟩

lemma Reached.equals (h : Reached "afterKey" tails ts) (hn : Nested "afterKey" tails)
    (ht : t.tag = .skip .equals) (htext : t.text = "=") : Reached "main" tails (ts ++ [t]) := by
  have hhead := hn.dicts (by simp)
  obtain ⟨pre, opener, ms, key, hpre, rfl⟩ := h
  have := Inside.dict hpre opener ms key ⟨t, ht, htext⟩
  rw [← eq_cons_tail hhead] at this
  show Inside tails _
  simpa using this

/-- **Every move goes on with the derivation.** -/
theorem Reached.step (h : Reached q tails ts) (hn : Nested q tails)
    (hm : Move q tails t.tag q' tails') (hw : SpellsWell q t.tag t.text.toList) :
    Reached q' tails' (extend ts t) := by
  generalize htag : t.tag = tag at hm hw
  cases hm with
  | blank q tails kind hkind =>
    have hblank : isBlankToken t = true := by
      rcases hkind with rfl | rfl | rfl <;> simp [isBlankToken, htag]
    rwa [extend_blank hblank]
  | scalar tails kind hkind =>
    have hrole : t.tag.role = .leaf ∧ isScalar t.tag.kind := by
      rw [htag]
      rcases hkind with rfl | rfl | rfl | rfl | rfl <;> decide
    rw [extend_tag htag (by rcases hkind with rfl | rfl | rfl | rfl | rfl <;> decide)]
    exact Inside.done h (.scalar ⟨t, hrole⟩)
  | openArray tails =>
    rw [extend_tag htag (by decide)]
    exact .array h ⟨t, htag⟩ []
  | openDict tails =>
    rw [extend_tag htag (by decide)]
    exact ⟨ts, ⟨t, htag⟩, [], h, rfl⟩
  | openData tails =>
    rw [extend_tag htag (by decide)]
    exact ⟨ts, ⟨t, htag⟩, [], h, rfl⟩
  | openString tails q hq =>
    rw [extend_tag htag (by decide)]
    rcases hq with rfl | rfl <;> exact ⟨ts, ⟨t, htag⟩, [], h, rfl⟩
  | chunk tails =>
    rw [extend_tag htag (by decide)]
    obtain ⟨pre, opener, chunks, hpre, rfl⟩ := h
    exact ⟨pre, opener, chunks ++ [⟨t, htag⟩], hpre, by simp⟩
  | closeData tails =>
    rw [extend_tag htag (by decide)]
    obtain ⟨pre, opener, chunks, hpre, rfl⟩ := h
    have := hpre.done (.data opener chunks ⟨t, htag⟩)
    simpa [Phrase.tokens] using this
  | part q tails kind hq hkind =>
    rw [extend_tag htag (by rcases hkind with rfl | rfl <;> decide)]
    have hpart : t.tag = .leaf .chars ∨ t.tag = .leaf .escape := by
      rw [htag]
      rcases hkind with rfl | rfl <;> decide
    rcases hq with rfl | rfl <;>
    · obtain ⟨pre, opener, parts, hpre, rfl⟩ := h
      exact ⟨pre, opener, parts ++ [⟨t, hpart⟩], hpre, by simp⟩
  | closeString q tails hq =>
    rw [extend_tag htag (by decide)]
    rcases hq with rfl | rfl <;>
    · obtain ⟨pre, opener, parts, hpre, rfl⟩ := h
      have := hpre.done (.string opener parts ⟨t, htag⟩)
      simpa [Phrase.tokens] using this
  | element q tails hq =>
    have hblank : isBlankToken t = true := by simp [isBlankToken, htag]
    rw [extend_blank hblank]
    rcases hq with rfl | rfl <;> exact h
  | closeArray q tails hq =>
    rw [extend_tag htag (by decide)]
    exact h.closeArray hn hq htag
  | comma tails =>
    rw [extend_tag htag (by decide)]
    have hw : t.text.toList = ",".toList := hw
    exact h.comma hn htag (String.toList_inj.1 hw)
  | semicolon tails =>
    rw [extend_tag htag (by decide)]
    have hw : t.text.toList = ";".toList := hw
    exact h.semicolon hn htag (String.toList_inj.1 hw)
  | closeDict q tails hq =>
    rw [extend_tag htag (by decide)]
    exact h.closeDict hn hq htag
  | key tails =>
    rw [extend_tag htag (by decide)]
    obtain ⟨pre, opener, ms, hpre, rfl⟩ := h
    exact ⟨pre, opener, ms, ⟨t, htag⟩, hpre, by simp⟩
  | equals tails =>
    rw [extend_tag htag (by decide)]
    have hw : t.text.toList = "=".toList := hw
    exact h.equals hn htag (String.toList_inj.1 hw)

/-- **Runs**: the skeleton of any run of a scan is what its state and tails say. -/
theorem reached_of_pulls {s s' : Scan Tag Nesting} {es : List (Scan.Entry Tag Nesting)}
    {place : Place} (h : At s "main" [] place) (hp : Pulls s es s') :
    ∃ q tails place, At s' q tails place ∧ Nested q tails ∧ Reached q tails (skeleton es) := by
  refine hp.preserves
    (P := fun s es => ∃ q tails place, At s q tails place ∧ Nested q tails ∧
      Reached q tails (skeleton es))
    (fun {s s' fs t log} hs hnext => ?_) ⟨"main", [], place, h, nested_main, .top⟩
  obtain ⟨q, tails, place, hat, hnested, hreached⟩ := hs
  obtain ⟨q', tails', place', hat', hstep⟩ := hat.step hnext
  refine ⟨q', tails', place', hat', hnested.move hstep.move, ?_⟩
  have := hreached.step hnested hstep.move hstep.spelled
  rw [skeleton_append]
  by_cases hblank : isBlankToken t = true
  · rw [extend_blank hblank] at this
    rwa [skeleton_of_blank hblank, List.append_nil]
  · rw [skeleton_of_not_blank (by simpa using hblank)]
    rwa [extend, if_neg hblank] at this

end ScanTree.PropertyList
