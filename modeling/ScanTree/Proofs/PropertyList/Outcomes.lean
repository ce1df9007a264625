import ScanTree.Proofs.PropertyList.Locations

/-!
The ways in which reading a text can fail, and that a finished tree always has a value.

The scan and the builder agree on what is open and the states are all declared, so that a text can
only have a place where no rule matches, an integer that is too large, something that is left open
at its end, or nothing in it.
-/

namespace ScanTree.PropertyList

open Builder

/-- The failures that readers of a text have to expect. -/
inductive Expected (options : Options) (input : String) : Error → Prop
  | noRule (location : Location) (state : String) (position : Nat) (excerpt : String) :
      Expected options input (.noRule location state (.noMatch position state excerpt))
  /-- The literal of an integer does not fit in 64 bits. -/
  | tooLarge (location : Location) (kind : Kind) (hkind : kind = .int ∨ kind = .hexInt)
      (message : String) (entry : Scan.Entry Tag Nesting)
      (hentry : entry ∈ (tokens input options.excerptLength).1)
      (htag : entry.token.tag = .leaf kind) (hlarge : ¬ LiteralFits entry.token) :
      Expected options input (.invalid location (.rejected kind.name message))
  /-- The whole text has been scanned. -/
  | unclosed (kinds : List String) (hkinds : kinds ≠ [])
      (hended : (tokens input options.excerptLength).2.2 = some .ended)
      (hwhole : (tokens input options.excerptLength).2.1.context.position =
        Text.byteSize input.toList) :
      Expected options input (.incomplete (.unclosed kinds))
  | empty : Expected options input .empty

/-! ### Declared states -/

lemma declared_of_name {q : String} (h : q ∈ ruleTable.map Prod.fst) :
    ∃ rules, (q, rules) ∈ ruleTable := by
  simpa using h

lemma Reached.declared {q : String} {tails : List String} {ts : List (Token Tag)}
    (h : Reached q tails ts) : ∃ rules, (q, rules) ∈ ruleTable := by
  unfold Reached at h
  split at h
  all_goals first
    | exact declared_of_name (by decide)
    | exact h.elim

variable {options : Options} {input : String} {es : List (Scan.Entry Tag Nesting)}
  {mid s : Scan Tag Nesting} {pull : Pull Tag} {log : List Record}

lemma ne_unknownState (hp : Pulls (scan input options.excerptLength) es mid)
    (hn : mid.next = (pull, s, log)) (q : String) : pull ≠ .error (.unknownState q) := by
  rintro rfl
  obtain ⟨q', tails, place, hat, -, hreached⟩ :=
    reached_of_pulls (at_scan input options.excerptLength) hp
  obtain ⟨rules, hq⟩ := hreached.declared
  have hnext := hat.next_eq hq
  rcases hpick : pick? place rules with _ | ⟨r, stop⟩
  · rw [hpick] at hnext
    have hunmatched : mid.unmatched place = .error (.unknownState q) := by
      have := hn.symm.trans hnext
      exact (Prod.mk.inj this).1.symm
    unfold Scan.unmatched at hunmatched
    split_ifs at hunmatched
    cases hunmatched
  · rw [hpick] at hnext
    obtain ⟨t, s', log', hnext, -⟩ := hnext
    cases hn.symm.trans hnext

/-! ### Failures -/

/-- A token that is refused is the literal of an integer that does not fit. -/
lemma expected_of_feed {err : Error} (hp : Pulls (scan input options.excerptLength) es mid)
    (hes : es = (tokens input options.excerptLength).1)
    (h : (feed input { context := options } es).1 = .error err) : Expected options input err := by
  have hat := at_scan input options.excerptLength
  rcases feed_of_pulls hat (sound_start options) hp input with
    ⟨b, -, -, -, hfeed, -⟩ | ⟨location, e, hfeed, entry, hentry, kind, htag, hitem⟩
  · rw [hfeed] at h
    cases h
  · rw [hfeed] at h
    cases h
    obtain ⟨f, message, -, rfl⟩ := leafItem_error htag hitem
    have hlarge : ¬ LiteralFits entry.token := fun hfits => by
      obtain ⟨item, hok⟩ :=
        (leafItem_iff htag (spelled_of_pulls hat hp entry hentry kind htag)).2 hfits
      rw [hok] at hitem
      cases hitem
    have hkind : kind = .int ∨ kind = .hexInt := by
      by_contra hne
      rw [not_or] at hne
      exact hlarge (literalFits_of_tag htag (fun h => hne.1 (congrArg Tag.kind h))
        fun h => hne.2 (congrArg Tag.kind h))
    exact .tooLarge location kind hkind message entry (hes ▸ hentry) htag hlarge

/-- When the tokens of a text end, the scan has come to the end of the text. -/
lemma position_of_ended (hp : Pulls (scan input options.excerptLength) es mid)
    (hn : mid.next = (.ended, s, log)) : s.context.position = Text.byteSize input.toList := by
  obtain ⟨before, hloc⟩ := located_of_pulls hp
  rw [(hloc.behind.stops hloc.live hn rfl).context, ← hloc.behind.offset, ← hloc.input,
    hloc.behind.eq_of_ended hloc.live hn]

lemma expected_of_buildTree {err : Error} (h : buildTree options input = .error err) :
    Expected options input err := by
  obtain ⟨es, s, pull, hd⟩ := exists_tokens input options.excerptLength
  obtain ⟨mid, log, hp, hn, htoken⟩ := Scan.stop_of_drain hd
  rcases buildTree_error hd h with hfeed | ⟨e, hstop, rfl⟩ | ⟨hstop, kinds, hkinds, rfl⟩
  · exact expected_of_feed hp (by rw [hd]) hfeed
  · obtain rfl : pull = .error e := Option.some.inj hstop
    rcases e with state | ⟨position, state, excerpt⟩
    · exact absurd rfl (ne_unknownState hp hn state)
    · exact .noRule _ state position excerpt
  · obtain rfl : pull = .ended := by
      rcases pull with t | e | _
      · cases htoken
      · exact absurd rfl (hstop e)
      · rfl
    refine .unclosed kinds hkinds (by rw [hd]) ?_
    rw [hd]
    exact position_of_ended hp hn

/-! ### Finished trees -/

/-- The root of a finished tree has one child at most, and the child has a value. -/
lemma top_of_buildTree {tree : Tree schema} (h : buildTree options input = .ok tree) :
    tree.top = [] ∨ ∃ item v, tree.top = [item] ∧ resolve tree item = .ok v := by
  obtain ⟨pull, hscanned⟩ := scanned input options
  obtain ⟨-, b, hfeed, hframes, rfl⟩ := finished_of_tree hscanned h
  rcases hscanned.whole b hfeed hframes with hnil | ⟨p, hp⟩
  · have hfed := feed_eq input { context := options } (tokens input options.excerptLength).1
    rw [hnil, hfeed] at hfed
    rw [Except.ok.inj hfed]
    exact .inl rfl
  · obtain ⟨v, item, -, htop, hitem⟩ := value_of_feed hp hfeed
    exact .inr ⟨item, v, htop, hitem⟩

/-- **Outcomes**: every text is read, or fails in one of the expected ways. No pull of its scan
comes to a state without rules. The root of a finished tree has one child at most, and the child has
a value. -/
theorem outcomes (options : Options) (input : String) :
    ((∃ v, parseWith options input = .ok v) ∨
      ∃ e, parseWith options input = .error e ∧ Expected options input e) ∧
    (∀ n q, .error (.unknownState q) ∉ (Scan.advance n (scan input options.excerptLength)).1) ∧
    ∀ tree, buildTree options input = .ok tree → tree.top.length ≤ 1 ∧
      ∀ item ∈ tree.top, ∃ v, resolve tree item = .ok v := by
  refine ⟨?_, fun n q hmem => ?_, fun tree htree => ?_⟩
  · rcases hparse : parseWith options input with e | v
    · refine .inr ⟨e, rfl, ?_⟩
      rcases parseWith_error hparse with htree | ⟨tree, htree, hvalue⟩
      · exact expected_of_buildTree htree
      · rcases top_of_buildTree htree with htop | ⟨item, v, htop, hitem⟩
        · rw [treeValue, htop] at hvalue
          cases hvalue
          exact .empty
        · rw [treeValue_of_top htop hitem] at hvalue
          cases hvalue
    · exact .inl ⟨v, rfl⟩
  · obtain ⟨es, mid, hp, hadvance⟩ := (behind_start input options.excerptLength).advance_eq rfl n
    rcases hadvance with h | ⟨pull, s', log, k, hn, -, h⟩
    · simp [h] at hmem
    · rw [h] at hmem
      have := ne_unknownState hp hn q
      simp [List.mem_replicate, this.symm] at hmem
  · rcases top_of_buildTree htree with htop | ⟨item, v, htop, hitem⟩
    · simp [htop]
    · simp only [htop, List.length_singleton, Nat.le_refl, List.mem_singleton, forall_eq, true_and]
      exact ⟨v, hitem⟩

/-- The tree of a dict with a data block. -/
theorem outcomes_data : ∃ tree, buildTree {} "\x7ba=<00 ff>\x7d" = .ok tree ∧
    tree.top.length ≤ 1 ∧ ∀ item ∈ tree.top, ∃ v, resolve tree item = .ok v := by
  rcases htree : buildTree {} "\x7ba=<00 ff>\x7d" with e | tree
  · have hok : (buildTree {} "\x7ba=<00 ff>\x7d").isOk = true := by decide +kernel
    rw [htree] at hok
    cases hok
  · exact ⟨tree, rfl, (outcomes {} "\x7ba=<00 ff>\x7d").2.2 tree htree⟩

end ScanTree.PropertyList
