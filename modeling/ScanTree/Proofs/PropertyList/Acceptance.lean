import ScanTree.Proofs.PropertyList.Leaves
import ScanTree.Proofs.PropertyList.Meaning
import ScanTree.Proofs.PropertyList.Prefixes

/-!
Which texts are read, and as which value: those whose skeleton is a sentence with integers that fit,
as the meaning of that sentence.
-/

namespace ScanTree.PropertyList

open Builder

/-! ### Phrases with a meaning -/

def AllSpelled (ts : List (Token Tag)) : Prop :=
  ∀ t ∈ ts, ∀ kind, t.tag = .leaf kind → WellSpelled kind t.text.toList

lemma allSpelled_append {ts us : List (Token Tag)} :
    AllSpelled (ts ++ us) ↔ AllSpelled ts ∧ AllSpelled us := List.forall_mem_append

lemma allSpelled_cons {t : Token Tag} {ts : List (Token Tag)} (h : AllSpelled (t :: ts)) :
    AllSpelled ts := fun u hu => h u (List.mem_cons_of_mem _ hu)

lemma exists_map_ok {α β ε : Type} {x : Except ε α} {f : α → β} :
    (∃ v, f <$> x = .ok v) ↔ ∃ a, x = .ok a := by
  rcases x with e | a <;> simp

lemma exists_bind_ok {α β ε : Type} {x : Except ε α} {f : α → Except ε β} {P Q : Prop}
    (hx : (∃ a, x = .ok a) ↔ P) (hq : ∀ a, (∃ v, f a = .ok v) ↔ Q) :
    (∃ v, x >>= f = .ok v) ↔ P ∧ Q := by
  rcases x with e | a
  · have hP : ¬ P := fun hp => by
      obtain ⟨a, ha⟩ := hx.2 hp
      cases ha
    refine iff_of_false ?_ fun h => hP h.1
    rintro ⟨v, hv⟩
    cases hv
  · have hP : P := hx.1 ⟨a, rfl⟩
    rw [and_iff_right hP, ← hq a]
    exact Iff.rfl

lemma scalarValue_iff {t : Token Tag} (hrole : t.tag.role = .leaf) (h : AllSpelled [t]) :
    (∃ v, scalarValue t = .ok v) ↔ AllFit [t] := by
  have ht := tag_of_role hrole
  have hleaf := leafItem_iff ht (h t (List.mem_singleton.2 rfl) _ ht)
  have hvalue : (∃ v, scalarValue t = .ok v) ↔ ∃ item, leafItem t = .ok item := by
    unfold scalarValue leafItem
    rcases evaluator? t.tag.kind with _ | f
    · simp
    · rw [exists_map_ok]
  rw [hvalue, hleaf]
  simp [AllFit]

lemma partText_ok (t : Part) (h : AllSpelled [t.1]) : ∃ text, partText t.1 = .ok text := by
  have hspelled := h t.1 (List.mem_singleton.2 rfl)
  have hitem : ∃ item, leafItem t.1 = .ok item := by
    rcases t.2 with ht | ht
    · exact (leafItem_iff ht (hspelled _ ht)).2 (literalFits_of_tag ht (by decide) (by decide))
    · exact (leafItem_iff ht (hspelled _ ht)).2 (literalFits_of_tag ht (by decide) (by decide))
  rwa [leafItem_part, exists_map_ok] at hitem

lemma parts_ok (parts : List Part) (h : AllSpelled (parts.map Subtype.val)) :
    (∃ texts, (parts.mapM fun t => partText t.1) = .ok texts) ∧ AllFit (parts.map Subtype.val) := by
  induction parts with
  | nil => exact ⟨⟨[], rfl⟩, by simp [AllFit]⟩
  | cons t parts ih =>
    obtain ⟨⟨texts, htexts⟩, hfit⟩ := ih (allSpelled_cons h)
    obtain ⟨text, htext⟩ := partText_ok t fun u hu => h u (by
      rw [List.mem_singleton.1 hu]
      exact List.mem_cons_self)
    refine ⟨⟨text :: texts, by rw [List.mapM_cons, htext, htexts]; rfl⟩, ?_⟩
    rw [List.map_cons]
    rcases t.2 with ht | ht
    · exact (allFit_cons ht (by decide) (by decide)).2 hfit
    · exact (allFit_cons ht (by decide) (by decide)).2 hfit

lemma chunks_fit (chunks : List (Marked (.leaf .data))) : AllFit (chunks.map Subtype.val) := by
  intro t ht
  obtain ⟨c, -, rfl⟩ := List.mem_map.1 ht
  exact literalFits_of_tag c.2 (by decide) (by decide)

lemma allFit_bracket {o c : Token Tag} {ok ck : Kind} (ho : o.tag = .start ok)
    (hc : c.tag = .stop ck) {ts : List (Token Tag)} : AllFit (o :: (ts ++ [c])) ↔ AllFit ts := by
  rw [allFit_cons ho (by simp [Tag.start, Tag.leaf]) (by simp [Tag.start, Tag.leaf]), allFit_append,
    allFit_cons hc (by simp [Tag.stop, Tag.leaf]) (by simp [Tag.stop, Tag.leaf])]
  simp [AllFit]

lemma allSpelled_bracket {o c : Token Tag} {ts : List (Token Tag)}
    (h : AllSpelled (o :: (ts ++ [c]))) : AllSpelled ts :=
  (allSpelled_append.1 (allSpelled_cons h)).1

mutual

/-- **Phrases have meanings** exactly if their integers fit. -/
theorem Phrase.value_iff : (p : Phrase) → AllSpelled p.tokens →
    ((∃ v, p.value = .ok v) ↔ AllFit p.tokens)
  | .scalar t, h => by
    rw [Phrase.value, Phrase.tokens]
    exact scalarValue_iff t.2.1 h
  | .string opener parts closer, h => by
    obtain ⟨hok, hfit⟩ := parts_ok parts (allSpelled_bracket h)
    rw [Phrase.value, Phrase.tokens, exists_map_ok, allFit_bracket opener.2 closer.2]
    exact iff_of_true hok hfit
  | .data opener chunks closer, _ => by
    rw [Phrase.value, Phrase.tokens, allFit_bracket opener.2 closer.2]
    exact iff_of_true ⟨_, rfl⟩ (chunks_fit chunks)
  | .array opener es closer, h => by
    rw [Phrase.value, Phrase.tokens, exists_map_ok, allFit_bracket opener.2 closer.2]
    exact es.values_iff (allSpelled_bracket h)
  | .dict opener ms closer, h => by
    rw [Phrase.value, Phrase.tokens, exists_map_ok, allFit_bracket opener.2 closer.2]
    exact ms.entries_iff (allSpelled_bracket h)

theorem Elements.values_iff : (es : Elements) → AllSpelled es.tokens →
    ((∃ vs, es.values = .ok vs) ↔ AllFit es.tokens)
  | .nil, _ => iff_of_true ⟨[], rfl⟩ (by simp [Elements.tokens, AllFit])
  | .last v, h => by
    rw [Elements.values, Elements.tokens, exists_map_ok]
    exact v.value_iff h
  | .cons v comma rest, h => by
    rw [Elements.tokens] at h ⊢
    obtain ⟨hv, hrest⟩ := allSpelled_append.1 h
    have hrest := rest.values_iff (allSpelled_cons hrest)
    rw [Elements.values, allFit_append, allFit_cons comma.2.1 (by decide) (by decide)]
    exact exists_bind_ok (v.value_iff hv) fun x => by
      simp only [bind_pure_comp, exists_map_ok, hrest]

theorem Members.entries_iff : (ms : Members) → AllSpelled ms.tokens →
    ((∃ es, ms.entries = .ok es) ↔ AllFit ms.tokens)
  | .nil, _ => iff_of_true ⟨[], rfl⟩ (by simp [Members.tokens, AllFit])
  | .last key equals v, h => by
    rw [Members.tokens] at h ⊢
    rw [Members.entries, exists_map_ok, allFit_cons key.2 (by decide) (by decide),
      allFit_cons equals.2.1 (by decide) (by decide)]
    exact v.value_iff (allSpelled_cons (allSpelled_cons h))
  | .cons key equals v semicolon rest, h => by
    rw [Members.tokens] at h ⊢
    obtain ⟨hv, hrest⟩ := allSpelled_append.1 (allSpelled_cons (allSpelled_cons h))
    have hrest := rest.entries_iff (allSpelled_cons hrest)
    rw [Members.entries, allFit_cons key.2 (by decide) (by decide),
      allFit_cons equals.2.1 (by decide) (by decide), allFit_append,
      allFit_cons semicolon.2.1 (by decide) (by decide)]
    exact exists_bind_ok (v.value_iff hv) fun x => by
      simp only [bind_pure_comp, exists_map_ok, hrest]

end

/-! ### Reading -/

lemma role_of_isBlankToken {t : Token Tag} (h : isBlankToken t = true) :
    ∃ kind, t.tag = .skip kind := by
  simp only [isBlankToken, Bool.or_eq_true, decide_eq_true_eq] at h
  rcases h with (h | h) | h <;> exact ⟨_, h⟩

/-- Blanks do nothing, so feeding a scan feeds its skeleton. -/
lemma feed_eq (input : String) (b : Builder schema) (es : List (Scan.Entry Tag Nesting)) :
    match writeAll b (skeleton es) with
    | .ok b' => (feed input b es).1 = .ok b'
    | .error e => ∃ location, (feed input b es).1 = .error (.invalid location e) := by
  induction es generalizing b with
  | nil => rfl
  | cons e es ih =>
    have hfeed : ∀ b', Writes b e.token b' → (feed input b (e :: es)).1 = (feed input b' es).1 := by
      rintro b' ⟨hresult, rfl⟩
      rw [feed, hresult]
    by_cases hblank : isBlankToken e.token = true
    · obtain ⟨kind, hkind⟩ := role_of_isBlankToken hblank
      have hskel : skeleton (e :: es) = skeleton es := by
        rw [← List.singleton_append, skeleton_append, skeleton_of_blank hblank, List.nil_append]
      rw [hskel, hfeed b (writes_skip hkind)]
      exact ih b
    · have hskel : skeleton (e :: es) = e.token :: skeleton es := by
        rw [← List.singleton_append, skeleton_append, skeleton_of_not_blank (by simpa using hblank)]
        rfl
      rw [hskel, writeAll]
      rcases hresult : (b.write plan e.token).result with err | _
      · exact ⟨_, by rw [feed, hresult]⟩
      · rw [hfeed _ ⟨hresult, rfl⟩]
        exact ih _

lemma feed_error {input : String} {b : Builder schema} {es : List (Scan.Entry Tag Nesting)}
    {err : Error} (h : (feed input b es).1 = .error err) :
    ∃ taken entry rest b' e, es = taken ++ entry :: rest ∧ (feed input b taken).1 = .ok b' ∧
      (b'.write plan entry.token).result = .error e ∧
      err = .invalid (.ofContext input entry.before) e := by
  induction es generalizing b with
  | nil => cases h
  | cons entry es ih =>
    rw [feed] at h
    rcases hw : (b.write plan entry.token).result with e | _
    · simp only [hw] at h
      exact ⟨[], entry, es, b, e, rfl, rfl, hw, (Except.error.inj h).symm⟩
    · simp only [hw] at h
      obtain ⟨taken, entry', rest, b', e, rfl, hfeed, hwrite, rfl⟩ := ih h
      refine ⟨entry :: taken, entry', rest, b', e, rfl, ?_, hwrite, rfl⟩
      simp only [feed, hw, hfeed]

lemma parseWith_eq (options : Options) (input : String) :
    parseWith options input =
      (((feed input { context := options } (tokens input options.excerptLength).1).1.bind
        (conclude (tokens input options.excerptLength).2)).bind treeValue) := by
  have hbuild : (buildTreeLogged options input).1 =
      (feed input { context := options } (tokens input options.excerptLength).1).1.bind
        (conclude (tokens input options.excerptLength).2) := rfl
  rw [← hbuild]
  simp only [parseWith, parseLogged]
  rcases (buildTreeLogged options input).1.bind treeValue with e | v <;> rfl

/-- Reading a text, in a form that can be run on a given one. -/
lemma parse_eq_drain (input : String) :
    parse input =
      let scanned := Scan.drain (pullBound input)
        { spelledGrammar.scan input 0 "main" {} with excerptLength := defaultExcerptLength }
      ((feed input { context := {} } scanned.1).1.bind (conclude scanned.2)).bind treeValue := by
  rw [parse, parseWith_eq, tokens_eq_drain]

/-- At the top level a scan has nothing, or a sentence and nothing to come after it. -/
lemma Reached.complete {q : String} {ts : List (Token Tag)} (h : Reached q [] ts) (hn : Nested q [])
    (hleaf : leafKinds q = []) : ts = [] ∨ q = "end" ∧ ∃ p : Phrase, p.tokens = ts := by
  have hinside : ∀ {ts}, Inside [] ts → ts = [] := by
    intro ts h
    cases h
    rfl
  unfold Reached at h
  split at h
  · exact .inl (hinside h)
  · exact .inl (hinside h)
  · exact .inl (hinside h)
  · exact absurd hleaf (by decide)
  · exact absurd hleaf (by decide)
  · exact absurd hleaf (by decide)
  · exact absurd (hn.arrays (by simp)) (by simp)
  · exact absurd (hn.dicts (by simp)) (by simp)
  · obtain ⟨pre, p, hpre, rfl⟩ := h
    exact .inr ⟨rfl, p, by rw [hinside hpre, List.nil_append]⟩
  · exact absurd (hn.dicts (by simp)) (by simp)
  · exact absurd (hn.dicts (by simp)) (by simp)
  · exact h.elim

/-- Nothing is open in a scan whose tokens leave nothing open in a builder. -/
lemma top_of_feed {options : Options} {input : String} {es : List (Scan.Entry Tag Nesting)}
    {s : Scan Tag Nesting} {q : String} {tails : List String} {place : Place} {b : Builder schema}
    (hp : Pulls (scan input options.excerptLength) es s) (hat : At s q tails place)
    (hfeed : (feed input { context := options } es).1 = .ok b) (hframes : b.frames = []) :
    tails = [] ∧ leafKinds q = [] := by
  rcases feed_of_pulls (at_scan input options.excerptLength) (sound_start options) hp input with
    ⟨b', q', tails', place', hfeed', hat', hsound⟩ | ⟨location, e, hfeed', -⟩
  · obtain rfl : b' = b := Except.ok.inj (hfeed'.symm.trans hfeed)
    obtain rfl : q' = q := hat'.state.symm.trans hat.state
    obtain rfl : tails' = tails := hat'.tails.symm.trans hat.tails
    have hkinds := hsound.agree.kinds
    rw [hframes] at hkinds
    obtain ⟨htails, hleaf⟩ := List.append_eq_nil_iff.1 hkinds.symm
    exact ⟨by simpa using htails, hleaf⟩
  · cases hfeed'.symm.trans hfeed

structure Scanned (input : String) (options : Options) (pull : Pull Tag) : Prop where
  stopped : (tokens input options.excerptLength).2.2 = some pull
  token : pull.isToken = false
  spelled : AllSpelled (skeleton (tokens input options.excerptLength).1)
  begins : ∃ p : Phrase, skeleton (tokens input options.excerptLength).1 <+: p.tokens
  /-- When nothing is open at the end there is nothing at all, or a sentence. -/
  whole : ∀ b,
    (feed input { context := options } (tokens input options.excerptLength).1).1 = .ok b →
    b.frames = [] → skeleton (tokens input options.excerptLength).1 = [] ∨
      ∃ p : Phrase, p.tokens = skeleton (tokens input options.excerptLength).1

lemma scanned (input : String) (options : Options) : ∃ pull, Scanned input options pull := by
  obtain ⟨es, s, pull, hd⟩ := exists_tokens input options.excerptLength
  have hat := at_scan input options.excerptLength
  obtain ⟨mid, log, hpulls, -, htoken⟩ := Scan.stop_of_drain hd
  obtain ⟨q, tails, place, hat', hnested, hreached⟩ := reached_of_pulls hat hpulls
  have hspelled := spelled_of_pulls hat hpulls
  refine ⟨pull, by rw [hd], htoken, ?_, ?_, ?_⟩
  · rw [hd]
    intro t ht
    obtain ⟨e, he, rfl⟩ := List.mem_map.1 (List.mem_of_mem_filter ht)
    exact hspelled e he
  · rw [hd]
    exact hreached.completes
  · rw [hd]
    intro b hfeed hframes
    obtain ⟨rfl, hleaf⟩ := top_of_feed hpulls hat' hfeed hframes
    exact (hreached.complete hnested hleaf).imp_right And.right

/-- A sentence with integers that fit is read as its meaning. -/
lemma parseWith_of_phrase {options : Options} {input : String} {p : Phrase} {v : Value}
    (hp : p.tokens = skeleton (tokens input options.excerptLength).1) (hv : p.value = .ok v)
    (hended : (tokens input options.excerptLength).2.2 = some .ended) :
    parseWith options input = .ok v := by
  have hphrase := writeAll_phrase options p
  rw [hv] at hphrase
  obtain ⟨b, item, hwrite, hframes, htop, hitem⟩ := hphrase
  have hfeed := feed_eq input { context := options } (tokens input options.excerptLength).1
  rw [← hp, hwrite] at hfeed
  rw [parseWith_eq, hfeed]
  rcases hd : tokens input options.excerptLength with ⟨es, s, stop⟩
  rw [hd] at hended
  obtain rfl : stop = some .ended := hended
  show ((b.finish.mapError Error.incomplete).bind treeValue) = _
  simp only [finish, hframes]
  exact treeValue_of_top htop hitem

/-- What is read has ended with nothing open. -/
lemma finished_of_tree {options : Options} {input : String} {pull : Pull Tag}
    (h : Scanned input options pull) {tree : Tree schema}
    (htree : buildTree options input = .ok tree) :
    pull = .ended ∧ ∃ b : Builder schema,
      (feed input { context := options } (tokens input options.excerptLength).1).1 = .ok b ∧
        b.frames = [] ∧ b.tree = tree := by
  have hbuild : buildTree options input =
      (feed input { context := options } (tokens input options.excerptLength).1).1.bind
        (conclude (tokens input options.excerptLength).2) := rfl
  rw [hbuild] at htree
  have hstopped := h.stopped
  rcases hd : tokens input options.excerptLength with ⟨es, s, stop⟩
  rw [hd] at htree hstopped
  obtain rfl : stop = some pull := hstopped
  rcases hfeed : (feed input { context := options } es).1 with e | b
  · rw [hfeed] at htree
    cases htree
  · rw [hfeed] at htree
    have htree : conclude (s, some pull) b = .ok tree := htree
    rcases pull with t | e | _
    · exact absurd h.token (by simp [Pull.isToken])
    · cases htree
    · have htree : b.finish.mapError Error.incomplete = .ok tree := htree
      refine ⟨rfl, b, rfl, ?_⟩
      unfold finish at htree
      split_ifs at htree with hframes
      · cases htree
        exact ⟨by simpa using hframes, rfl⟩
      · cases htree

/-- A sentence that is fed has a meaning, which is that of the only child of the root. -/
lemma value_of_feed {options : Options} {input : String} {p : Phrase} {b : Builder schema}
    (hp : p.tokens = skeleton (tokens input options.excerptLength).1)
    (hfeed : (feed input { context := options } (tokens input options.excerptLength).1).1 = .ok b) :
    ∃ v item, p.value = .ok v ∧ b.tree.top = [item] ∧ resolve b.tree item = .ok v := by
  have hfed := feed_eq input { context := options } (tokens input options.excerptLength).1
  have hphrase := writeAll_phrase options p
  rw [← hp, hfeed] at hfed
  rcases hvalue : p.value with e | v
  · rw [hvalue] at hphrase
    rw [hphrase] at hfed
    obtain ⟨location, hfed⟩ := hfed
    cases hfed
  · rw [hvalue] at hphrase
    obtain ⟨b', item, hwrite, -, htop, hitem⟩ := hphrase
    rw [hwrite] at hfed
    rw [Except.ok.inj hfed]
    exact ⟨v, item, rfl, htop, hitem⟩

/-- The tree of a text is refused for a token, for the end of the scan, or for what is left open. -/
lemma buildTree_error {options : Options} {input : String} {es : List (Scan.Entry Tag Nesting)}
    {s : Scan Tag Nesting} {stop : Option (Pull Tag)} {err : Error}
    (hd : tokens input options.excerptLength = (es, s, stop))
    (h : buildTree options input = .error err) :
    (feed input { context := options } es).1 = .error err ∨
    (∃ e, stop = some (.error e) ∧ err = .ofScan s.input s.context e) ∨
    (∀ e, stop ≠ some (.error e)) ∧ ∃ kinds, kinds ≠ [] ∧ err = .incomplete (.unclosed kinds) := by
  have hbuild : buildTree options input =
      (feed input { context := options } es).1.bind (conclude (s, stop)) := by
    simp only [buildTree, buildTreeLogged, hd]
  rw [hbuild] at h
  rcases hfeed : (feed input { context := options } es).1 with e | b
  · rw [hfeed] at h
    exact .inl (congrArg _ (Except.error.inj h))
  · rw [hfeed] at h
    have h : conclude (s, stop) b = .error err := h
    unfold conclude at h
    split at h
    · rename_i e heq
      obtain ⟨rfl, rfl⟩ := Prod.mk.inj heq
      exact .inr (.inl ⟨e, rfl, (Except.error.inj h).symm⟩)
    · rename_i hstop
      unfold finish at h
      split_ifs at h with hframes
      · cases h
      · refine .inr (.inr ⟨fun e he => hstop s e (by rw [he]), _, ?_, (Except.error.inj h).symm⟩)
        simpa using hframes

lemma buildTree_ne_empty (options : Options) (input : String) :
    buildTree options input ≠ .error .empty := by
  intro h
  rcases hd : tokens input options.excerptLength with ⟨es, s, stop⟩
  rcases buildTree_error hd h with hfeed | ⟨e, -, heq⟩ | ⟨-, kinds, -, heq⟩
  · obtain ⟨taken, entry, rest, b, e, -, -, -, heq⟩ := feed_error hfeed
    cases heq
  · rcases e with state | ⟨position, state, excerpt⟩ <;> cases heq
  · cases heq

/-- A text that is not read has no tree, or one without a value. -/
lemma parseWith_error {options : Options} {input : String} {err : Error}
    (h : parseWith options input = .error err) :
    buildTree options input = .error err ∨
      ∃ tree, buildTree options input = .ok tree ∧ treeValue tree = .error err := by
  rw [parseWith_eq] at h
  have h : (buildTree options input).bind treeValue = .error err := h
  rcases htree : buildTree options input with e | tree
  · rw [htree] at h
    exact .inl (congrArg _ (Except.error.inj h))
  · rw [htree] at h
    exact .inr ⟨tree, rfl, h⟩

lemma tree_of_parseWith {options : Options} {input : String} {v : Value}
    (h : parseWith options input = .ok v) :
    ∃ tree, buildTree options input = .ok tree ∧ treeValue tree = .ok v := by
  rw [parseWith_eq] at h
  have h : (buildTree options input).bind treeValue = .ok v := h
  rcases htree : buildTree options input with e | tree
  · rw [htree] at h
    cases h
  · rw [htree] at h
    exact ⟨tree, rfl, h⟩

/-- What is read is the meaning of a sentence, which is the skeleton. -/
lemma phrase_of_parseWith {options : Options} {input : String} {pull : Pull Tag}
    (h : Scanned input options pull) {v : Value} (hv : parseWith options input = .ok v) :
    pull = .ended ∧ ∃ p : Phrase, p.tokens = skeleton (tokens input options.excerptLength).1 ∧
      p.value = .ok v := by
  obtain ⟨tree, htree, hparse⟩ := tree_of_parseWith hv
  obtain ⟨hended, b, hfeed, hframes, rfl⟩ := finished_of_tree h htree
  refine ⟨hended, ?_⟩
  have hfed := feed_eq input { context := options } (tokens input options.excerptLength).1
  rcases h.whole b hfeed hframes with hnil | ⟨p, hp⟩
  · rw [hnil] at hfed
    have hb : b = { context := options } := by
      rw [hfeed] at hfed
      exact Except.ok.inj hfed
    rw [hb] at hparse
    cases hparse
  · obtain ⟨w, item, hw, htop, hitem⟩ := value_of_feed hp hfeed
    rw [treeValue_of_top htop hitem] at hparse
    exact ⟨p, hp, by rw [hw, Except.ok.inj hparse]⟩

/-- A text that counts as empty has a scan that ends without tokens. -/
lemma Scanned.of_empty {options : Options} {input : String} {pull : Pull Tag}
    (h : Scanned input options pull) (hempty : parseWith options input = .error .empty) :
    pull = .ended ∧ skeleton (tokens input options.excerptLength).1 = [] := by
  have hparse : (buildTree options input).bind treeValue = .error .empty := by
    rw [← hempty, parseWith_eq]
    rfl
  rcases htree : buildTree options input with e | tree
  · rw [htree] at hparse
    obtain rfl : e = .empty := Except.error.inj hparse
    exact absurd htree (buildTree_ne_empty options input)
  · rw [htree] at hparse
    have hparse : treeValue tree = .error .empty := hparse
    obtain ⟨hended, b, hfeed, hframes, rfl⟩ := finished_of_tree h htree
    refine ⟨hended, ?_⟩
    rcases h.whole b hfeed hframes with hnil | ⟨p, hp⟩
    · exact hnil
    · obtain ⟨v, item, -, htop, hitem⟩ := value_of_feed hp hfeed
      rw [treeValue_of_top htop hitem] at hparse
      cases hparse

/-- **Only the grammar is read**: the tokens of any text begin a sentence, and the text is read
exactly if its scan ends with a whole sentence whose integers fit in 64 bits. It counts as empty
exactly if the scan ends without tokens. -/
theorem reads_grammar (options : Options) (input : String) :
    (∃ pull, (tokens input options.excerptLength).2.2 = some pull ∧ pull.isToken = false) ∧
    (∃ p : Phrase, skeleton (tokens input options.excerptLength).1 <+: p.tokens) ∧
    ((∃ v, parseWith options input = .ok v) ↔
      (tokens input options.excerptLength).2.2 = some .ended ∧
      (∃ p : Phrase, p.tokens = skeleton (tokens input options.excerptLength).1) ∧
      ∀ t ∈ skeleton (tokens input options.excerptLength).1, LiteralFits t) ∧
    (parseWith options input = .error .empty ↔
      (tokens input options.excerptLength).2.2 = some .ended ∧
      skeleton (tokens input options.excerptLength).1 = []) := by
  obtain ⟨pull, h⟩ := scanned input options
  refine ⟨⟨pull, h.stopped, h.token⟩, h.begins, ⟨?_, ?_⟩, ⟨?_, ?_⟩⟩
  · rintro ⟨v, hv⟩
    obtain ⟨rfl, p, hp, hvalue⟩ := phrase_of_parseWith h hv
    refine ⟨h.stopped, ⟨p, hp⟩, ?_⟩
    have := (p.value_iff (by rw [hp]; exact h.spelled)).1 ⟨v, hvalue⟩
    rwa [hp] at this
  · rintro ⟨hended, ⟨p, hp⟩, hfit⟩
    obtain ⟨v, hv⟩ := (p.value_iff (by rw [hp]; exact h.spelled)).2 (by rw [hp]; exact hfit)
    exact ⟨v, parseWith_of_phrase hp hv hended⟩
  · intro hempty
    obtain ⟨rfl, hskel⟩ := h.of_empty hempty
    exact ⟨h.stopped, hskel⟩
  · rintro ⟨hended, hnil⟩
    have hfed := feed_eq input { context := options } (tokens input options.excerptLength).1
    rw [hnil] at hfed
    have hfed : (feed input { context := options } (tokens input options.excerptLength).1).1 =
      .ok { context := options } := hfed
    rw [parseWith_eq, hfed]
    rcases hd : tokens input options.excerptLength with ⟨es, s, stop⟩
    rw [hd] at hended
    obtain rfl : stop = some .ended := hended
    rfl

/-- **What is read is the meaning**: a value that is read is what the skeleton of the text means. -/
theorem reads_meaning {options : Options} {input : String} {v : Value}
    (h : parseWith options input = .ok v) :
    (∃ p : Phrase, p.tokens = skeleton (tokens input options.excerptLength).1) ∧
    ∀ p : Phrase, p.tokens = skeleton (tokens input options.excerptLength).1 → p.value = .ok v := by
  obtain ⟨pull, hscanned⟩ := scanned input options
  obtain ⟨rfl, p, hp, hvalue⟩ := phrase_of_parseWith hscanned h
  refine ⟨⟨p, hp⟩, fun p' hp' => ?_⟩
  have hfit := (p.value_iff (by rw [hp]; exact hscanned.spelled)).1 ⟨v, hvalue⟩
  rw [hp, ← hp'] at hfit
  obtain ⟨w, hw⟩ := (p'.value_iff (by rw [hp']; exact hscanned.spelled)).2 hfit
  have := parseWith_of_phrase hp' hw hscanned.stopped
  rw [h] at this
  rw [hw, Except.ok.inj this]

set_option maxRecDepth 4000 in
/-- A key that comes twice keeps its first place and takes its last value. -/
theorem reads_repeated_key :
    (∃ p : Phrase, p.tokens =
      skeleton (tokens "\x7ba=1;b=(2);a=3\x7d" defaultExcerptLength).1) ∧
    ∀ p : Phrase, p.tokens =
      skeleton (tokens "\x7ba=1;b=(2);a=3\x7d" defaultExcerptLength).1 →
        p.value = .ok (.dict [("a", .integer 3), ("b", .array [.integer 2])]) :=
  reads_meaning (show parseWith {} _ = _ from rfl)

end ScanTree.PropertyList
