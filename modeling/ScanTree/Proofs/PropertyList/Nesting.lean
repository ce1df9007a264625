import ScanTree.Proofs.PropertyList.Agreement

/-!
What is open in the scan and in the builder, stated for the reading of whole texts.
-/

namespace ScanTree.PropertyList

open Builder

/-! ### Feeding the tokens of a scan -/

variable {s s' : Scan Tag Nesting} {q : String} {tails : List String} {place : Place}

lemma spelled_of_pulls {es : List (Scan.Entry Tag Nesting)} (h : At s q tails place)
    (hp : Pulls s es s') :
    ∀ e ∈ es, ∀ kind, e.token.tag = .leaf kind → WellSpelled kind e.token.text.toList := by
  induction hp generalizing q tails place with
  | nil s => simp
  | cons hn _ ih =>
    obtain ⟨q', tails', place', hat, hstep⟩ := h.step hn
    intro e he
    rcases List.mem_cons.1 he with rfl | he
    · intro kind hkind
      have hspelled := hstep.spelled
      rwa [hkind] at hspelled
    · exact ih hat e he

/-- The tokens of a scan are taken and leave both in agreement, or one has a text without value. -/
lemma feed_of_pulls {es : List (Scan.Entry Tag Nesting)} {b : Builder schema}
    (h : At s q tails place) (hsound : Sound q tails b) (hp : Pulls s es s') (input : String) :
    (∃ b' q' tails' place', (feed input b es).1 = .ok b' ∧ At s' q' tails' place' ∧
      Sound q' tails' b') ∨
    ∃ location e, (feed input b es).1 = .error (.invalid location e) ∧
      ∃ entry ∈ es, ∃ kind, entry.token.tag = .leaf kind ∧ leafItem entry.token = .error e := by
  induction hp generalizing q tails place b with
  | nil s => exact .inl ⟨b, q, tails, place, rfl, h, hsound⟩
  | @cons s mid s'' t log es hn _ ih =>
    obtain ⟨q', tails', place', hat, hstep⟩ := h.step hn
    rcases hsound.step hstep.move with ⟨b', ⟨hresult, rfl⟩, hsound'⟩ | ⟨kind, e, ht, hitem, hresult⟩
    · have hfeed : (feed input b (⟨s.context, t, log⟩ :: es)).1 =
          (feed input (b.write plan t).state es).1 := by
        rw [feed, hresult]
      rw [hfeed]
      rcases ih hat hsound' with hok | ⟨location, e, hfeed, entry, hentry, hrefused⟩
      · exact .inl hok
      · exact .inr ⟨location, e, hfeed, entry, List.mem_cons_of_mem _ hentry, hrefused⟩
    · refine .inr ⟨.ofContext input s.context, e, ?_, _, List.mem_cons_self, kind, ht, hitem⟩
      rw [feed, hresult]

/-! ### What is open -/

/-- The kind of open slot that a tail stands for. -/
def tailKind (tail : String) : Kind := if tail = "arrayTail" then .array else .dict

/-- The string or the data block that is being read. -/
def leafKinds (q : String) : List Kind :=
  if q = "string" ∨ q = "sstring" then [.string] else if q = "data" then [.data] else []

/-- The open arrays and dicts, innermost first. -/
def containers (b : Builder schema) : List (Frame schema) :=
  b.frames.filter fun f => f.kind = .array || f.kind = .dict

/-- The open slots of the builder are those of the scan, and a key waits in the innermost one only,
from when it was read to when its value comes. -/
structure Agree (q : String) (tails : List String) (b : Builder schema) : Prop where
  /-- Kinds and tails from the outermost one inwards. -/
  kinds : b.frames.reverse.map Frame.kind = tails.reverse.map tailKind ++ leafKinds q
  known : ∀ tail ∈ tails, tail = "arrayTail" ∨ tail = "dictTail"
  arrays : q = "arrayHead" ∨ q = "arrayTail" ∨ q = "afterComma" → tails.head? = some "arrayTail"
  dicts : q = "dictTail" ∨ q = "beforeKey" ∨ q = "afterKey" → tails.head? = some "dictTail"
  ended : q = "end" → tails = []
  pending : ∀ i f, (containers b)[i]? = some f → f.kind = .dict →
    ∃ d, b.tree.get? f.id = some (.custom d) ∧
      (d.pending.isSome ↔
        i = 0 ∧ (q = "afterKey" ∨ q = "main" ∨ q = "string" ∨ q = "sstring"))

lemma Level.kind_eq {waits : Bool} {tail : String} {l : Layer} (h : Level waits tail l) :
    l.1 = tailKind tail := by
  cases h <;> rfl

lemma Levels.kinds {waits : Bool} {ls : List Layer} (h : Levels waits tails ls) :
    ls.map Prod.fst = tails.map tailKind := by
  induction h with
  | nil waits => rfl
  | cons hl _ ih => rw [List.map_cons, List.map_cons, hl.kind_eq, ih]

lemma map_fst_levels (tree : Tree schema) (frames : List (Frame schema)) :
    (levels tree frames).map Prod.fst = frames.map Frame.kind := by
  simp [levels, Function.comp_def]

lemma isContainer_tailKind (tail : String) : tailKind tail = .array ∨ tailKind tail = .dict := by
  unfold tailKind
  split_ifs <;> simp

lemma Levels.filter_eq {waits : Bool} {tree : Tree schema} {frames : List (Frame schema)}
    (h : Levels waits tails (levels tree frames)) :
    (frames.filter fun f => f.kind = .array || f.kind = .dict) = frames := by
  rw [List.filter_eq_self]
  intro f hf
  have hmem : f.kind ∈ tails.map tailKind := by
    rw [← h.kinds, map_fst_levels]
    exact List.mem_map_of_mem hf
  obtain ⟨tail, -, htail⟩ := List.mem_map.1 hmem
  rcases isContainer_tailKind tail with hk | hk <;> rw [hk] at htail <;> simp [← htail]

lemma Levels.pending {waits : Bool} {tree : Tree schema} {frames : List (Frame schema)}
    (h : Levels waits tails (levels tree frames)) {i : Nat} {f : Frame schema}
    (hf : frames[i]? = some f) (hkind : f.kind = .dict) :
    ∃ d, tree.get? f.id = some (.custom d) ∧ (d.pending.isSome ↔ i = 0 ∧ waits = true) := by
  induction frames generalizing waits tails i with
  | nil => simp at hf
  | cons g gs ih =>
    rcases tails with _ | ⟨tail, tails⟩
    · cases h
    · rcases h with _ | ⟨hl, hls⟩
      cases i with
      | zero =>
        obtain rfl : g = f := by simpa using hf
        have htail : tail = "dictTail" := by
          rcases hl.tail_eq with rfl | rfl
          · obtain ⟨items, hl⟩ := hl.array_inv
            have := (Prod.mk.inj hl).1
            rw [hkind] at this
            cases this
          · rfl
        subst htail
        obtain ⟨d, hd, hwaits⟩ := hl.dict_inv
        exact ⟨d, (Prod.mk.inj hd).2, by simp [hwaits]⟩
      | succ i =>
        obtain ⟨d, hget, hd⟩ := ih hls (by simpa using hf)
        exact ⟨d, hget, by simpa using hd⟩

lemma keyWaits_iff : keyWaits q = true ↔
    q = "afterKey" ∨ q = "main" ∨ q = "string" ∨ q = "sstring" := by
  simp [keyWaits, or_assoc]

/-- Matching levels agree. -/
lemma Sound.agree {b : Builder schema} (h : Sound q tails b) : Agree q tails b := by
  have hmatched := h.matched
  have hkinds : b.frames.map Frame.kind = leafKinds q ++ tails.map tailKind ∧
      ∀ i f, (containers b)[i]? = some f → f.kind = .dict →
        ∃ d, b.tree.get? f.id = some (.custom d) ∧
          (d.pending.isSome ↔ i = 0 ∧ keyWaits q = true) := by
    rw [← map_fst_levels b.tree]
    generalize hls : levels b.tree b.frames = ls at hmatched
    cases hmatched with
    | plain hstring hsstring hdata hlevels =>
      subst hls
      refine ⟨?_, fun i f hf hkind => hlevels.pending (i := i) ?_ hkind⟩
      · simp [leafKinds, hstring, hsstring, hdata, hlevels.kinds]
      · rwa [containers, hlevels.filter_eq] at hf
    | @string _ _ ls' hq n hn hlevels =>
      obtain ⟨f, fs, hframes, hfkind, hget, hrest⟩ := levels_eq_cons hls
      subst hrest
      have hwaits : keyWaits q = true := keyWaits_iff.2 (by tauto)
      refine ⟨by simp [leafKinds, hq, hlevels.kinds], fun i g hg hkind => ?_⟩
      rw [containers, hframes, List.filter_cons_of_neg (by simp [hfkind]), hlevels.filter_eq] at hg
      rw [hwaits]
      exact hlevels.pending hg hkind
    | @data _ ls' n hlevels =>
      obtain ⟨f, fs, hframes, hfkind, hget, hrest⟩ := levels_eq_cons hls
      subst hrest
      have hwaits : keyWaits "data" = false := by decide
      refine ⟨by simp [leafKinds, hlevels.kinds], fun i g hg hkind => ?_⟩
      rw [containers, hframes, List.filter_cons_of_neg (by simp [hfkind]), hlevels.filter_eq] at hg
      rw [hwaits]
      exact hlevels.pending hg hkind
  have hleaf : (leafKinds q).reverse = leafKinds q := by
    unfold leafKinds
    split_ifs <;> rfl
  refine ⟨?_, h.nested.known, h.nested.arrays, h.nested.dicts, h.nested.ended, ?_⟩
  · rw [List.map_reverse, hkinds.1, List.reverse_append, hleaf, List.map_reverse]
  · intro i f hf hkind
    rw [← keyWaits_iff]
    exact hkinds.2 i f hf hkind

/-! ### Whole texts -/

lemma evaluator_error {kind : Kind} {f : String → Except BuildError Value} {text : String}
    {e : BuildError} (hf : evaluator? kind = some f) (he : f text = .error e) :
    ∃ message, e = .rejected kind.name message := by
  unfold evaluator? at hf
  split at hf <;> cases hf
  · cases he
  · unfold escapeValue at he
    split at he <;> cases he
    exact ⟨_, rfl⟩
  · unfold keyValue at he
    split at he <;> cases he
  · unfold intValue at he
    split at he <;> cases he
    exact ⟨_, rfl⟩
  · unfold hexIntValue at he
    split at he <;> cases he
    exact ⟨_, rfl⟩
  · unfold floatValue at he
    split at he <;> cases he
    exact ⟨_, rfl⟩
  · unfold boolValue at he
    split_ifs at he
    cases he
    exact ⟨_, rfl⟩

lemma leafItem_error {t : Token Tag} {kind : Kind} {e : BuildError} (ht : t.tag = .leaf kind)
    (h : leafItem t = .error e) :
    ∃ f message, evaluator? kind = some f ∧ e = .rejected kind.name message := by
  have hk : t.tag.kind = kind := by rw [ht]; rfl
  rw [leafItem, hk] at h
  rcases hf : evaluator? kind with _ | f
  · rw [hf] at h
    cases h
  · rw [hf] at h
    rcases hv : f t.text with e' | v
    · simp only [hv] at h
      cases h
      obtain ⟨message, rfl⟩ := evaluator_error hf hv
      exact ⟨f, message, rfl, rfl⟩
    · simp [hv] at h

/-- **The nestings agree**: after every token that was pulled and taken, what is open in the builder
is what is open in the scan. No token is ever refused because of where it stands. -/
theorem nesting_agrees (options : Options) (input : String) :
    (∀ k b, ((scan input options.excerptLength).drain k).2.2 = none →
      (feed input { context := options } ((scan input options.excerptLength).drain k).1).1 = .ok b →
      Agree ((scan input options.excerptLength).drain k).2.1.context.state
        ((scan input options.excerptLength).drain k).2.1.context.ext.tails b) ∧
    ∀ location e, buildTree options input = .error (.invalid location e) →
      e.isStructural = false ∧ e.isConfiguration = false ∧
        ∀ message, e ≠ .rejected Kind.dict.name message := by
  have hat := at_scan input options.excerptLength
  have hsound := sound_start options
  refine ⟨fun k b hstop hfeed => ?_, fun location e he => ?_⟩
  · rcases hd : (scan input options.excerptLength).drain k with ⟨es, s, stop⟩
    rw [hd] at hstop hfeed
    obtain rfl : stop = none := hstop
    rcases feed_of_pulls hat hsound (Scan.pulls_of_drain hd) input with
      ⟨b', q, tails, place, hfeed', hat', hsound'⟩ | ⟨location, e, hfeed', -⟩
    · rw [hfeed'] at hfeed
      cases hfeed
      rw [hat'.state, hat'.tails]
      exact hsound'.agree
    · rw [hfeed'] at hfeed
      cases hfeed
  · rcases hd : tokens input options.excerptLength with ⟨es, s, stop⟩
    have hbuild : buildTree options input =
        (feed input { context := options } es).1.bind (conclude (s, stop)) := by
      simp only [buildTree, buildTreeLogged, hd]
    obtain ⟨pull, hpull⟩ := tokens_stop input options.excerptLength
    rw [hd] at hpull
    obtain rfl : stop = some pull := hpull
    obtain ⟨mid, log, hpulls, -, -⟩ := Scan.stop_of_drain hd
    rw [hbuild] at he
    rcases feed_of_pulls hat hsound hpulls input with
      ⟨b', q, tails, place, hfeed, -, -⟩ | ⟨location', e', hfeed, entry, -, kind, hkind, hitem⟩
    · rw [hfeed] at he
      have : conclude (s, some pull) b' = .error (.invalid location e) := he
      unfold conclude at this
      split at this
      · rename_i err _
        cases err <;> cases this
      · unfold finish at this
        split_ifs at this <;> cases this
    · rw [hfeed] at he
      cases he
      obtain ⟨f, message, hf, rfl⟩ := leafItem_error hkind hitem
      refine ⟨rfl, rfl, fun message' heq => ?_⟩
      have hname : kind.name = Kind.dict.name := (BuildError.rejected.inj heq).1
      cases kind <;> first | (exact absurd hname (by decide)) | cases hf

/-- In an array in a dict, with a key that waits. -/
theorem nesting_in_first_value :
    ∃ b, (feed "\x7ba=( 1" { context := {} }
        ((scan "\x7ba=( 1" (Options.excerptLength {})).drain 5).1).1 = .ok b ∧
      Agree "arrayHead" ["arrayTail", "dictTail"] b := by
  obtain ⟨hstop, hstate, htails, hok⟩ :
      ((scan "\x7ba=( 1" (Options.excerptLength {})).drain 5).2.2 = none ∧
      ((scan "\x7ba=( 1" (Options.excerptLength {})).drain 5).2.1.context.state = "arrayHead" ∧
      ((scan "\x7ba=( 1" (Options.excerptLength {})).drain 5).2.1.context.ext.tails =
        ["arrayTail", "dictTail"] ∧
      (feed "\x7ba=( 1" { context := {} }
        ((scan "\x7ba=( 1" (Options.excerptLength {})).drain 5).1).1.isOk = true := by
    decide +kernel
  rcases hfeed : (feed "\x7ba=( 1" { context := {} }
      ((scan "\x7ba=( 1" (Options.excerptLength {})).drain 5).1).1 with e | b
  · rw [hfeed] at hok
    cases hok
  · have hagree := (nesting_agrees {} "\x7ba=( 1").1 5 b hstop hfeed
    rw [hstate, htails] at hagree
    exact ⟨b, rfl, hagree⟩

end ScanTree.PropertyList
