import ScanTree.Proofs.PropertyList.Levels
import ScanTree.Proofs.PropertyList.Steps

/-!
The nesting of the scan and that of the builder agree after every token.

Both stacks are moved by the same tokens, so the invariant is that the levels of the builder match
the state and the tails. A token is refused only if its text has no value.
-/

namespace ScanTree.PropertyList

open Builder

structure Nested (q : String) (tails : List String) : Prop where
  known : ∀ tail ∈ tails, tail = "arrayTail" ∨ tail = "dictTail"
  arrays : q = "arrayHead" ∨ q = "arrayTail" ∨ q = "afterComma" → tails.head? = some "arrayTail"
  dicts : q = "dictTail" ∨ q = "beforeKey" ∨ q = "afterKey" → tails.head? = some "dictTail"
  ended : q = "end" → tails = []

lemma nested_main : Nested "main" [] := by
  constructor <;> simp

/-- In these states the tails say everything. -/
lemma nested_of_main {q : String} {tails : List String}
    (h : ∀ tail ∈ tails, tail = "arrayTail" ∨ tail = "dictTail")
    (hq : q = "main" ∨ q = "string" ∨ q = "sstring" ∨ q = "data") : Nested q tails := by
  rcases hq with rfl | rfl | rfl | rfl <;> exact ⟨h, by simp, by simp, by simp⟩

lemma nested_after {tails : List String}
    (h : ∀ tail ∈ tails, tail = "arrayTail" ∨ tail = "dictTail") :
    Nested (after tails) tails := by
  rcases tails with _ | ⟨tail, tails⟩
  · exact ⟨h, by simp [after], by simp [after], by simp⟩
  · rcases h tail List.mem_cons_self with rfl | rfl <;>
      exact ⟨h, by simp [after], by simp [after], by simp [after]⟩

lemma Nested.known_tail {q : String} {tails : List String} (h : Nested q tails) :
    ∀ tail ∈ tails.tail, tail = "arrayTail" ∨ tail = "dictTail" :=
  fun tail htail => h.known tail (List.mem_of_mem_tail htail)

lemma Nested.move {q q' : String} {tails tails' : List String} {tag : Tag} (h : Nested q tails)
    (hm : Move q tails tag q' tails') : Nested q' tails' := by
  have hknown := h.known
  have htail : ∀ tail ∈ tails.tail, tail = "arrayTail" ∨ tail = "dictTail" :=
    fun tail ht => hknown tail (List.mem_of_mem_tail ht)
  cases hm with
  | blank q tails kind hkind => exact h
  | scalar tails kind hkind => exact nested_after hknown
  | openArray tails => exact ⟨by simpa using hknown, by simp, by simp, by simp⟩
  | openDict tails => exact ⟨by simpa using hknown, by simp, by simp, by simp⟩
  | openData tails => exact nested_of_main hknown (by simp)
  | openString tails q hq => exact nested_of_main hknown (by tauto)
  | chunk tails => exact h
  | closeData tails => exact nested_after hknown
  | part q tails kind hq hkind => exact h
  | closeString q tails hq => exact nested_after hknown
  | element q tails hq => exact nested_of_main hknown (by simp)
  | closeArray q tails hq => exact nested_after htail
  | comma tails => exact ⟨hknown, fun _ => h.arrays (by simp), by simp, by simp⟩
  | semicolon tails => exact ⟨hknown, by simp, fun _ => h.dicts (by simp), by simp⟩
  | closeDict q tails hq => exact nested_after htail
  | key tails => exact ⟨hknown, by simp, fun _ => h.dicts (by simp), by simp⟩
  | equals tails => exact nested_of_main hknown (by simp)

/-! ### Matching levels -/

variable {q q' : String} {tails tails' : List String} {ls : List Layer}

lemma Matches.levels_of_plain (h : Matches q tails ls) (hstring : q ≠ "string")
    (hsstring : q ≠ "sstring") (hdata : q ≠ "data") : Levels (keyWaits q) tails ls := by
  cases h with
  | plain _ _ _ h => exact h
  | string hq hn h =>
    rcases hq with rfl | rfl
    · exact absurd rfl hstring
    · exact absurd rfl hsstring
  | data n h => exact absurd rfl hdata

lemma Matches.of_string (h : Matches q tails ls) (hq : q = "string" ∨ q = "sstring") :
    ∃ n ls',
      ls = (.string, some (.node n)) :: ls' ∧ AllParts n.content ∧ Levels true tails ls' := by
  cases h with
  | plain hstring hsstring hdata h =>
    rcases hq with rfl | rfl
    · exact absurd rfl hstring
    · exact absurd rfl hsstring
  | string hq hn h => exact ⟨_, _, rfl, hn, h⟩
  | data n h => simp at hq

lemma Matches.of_data (h : Matches "data" tails ls) :
    ∃ n ls', ls = (.data, some (.node n)) :: ls' ∧ Levels false tails ls' := by
  generalize hq : "data" = q at h
  cases h with
  | plain hstring hsstring hdata h => exact absurd hq.symm hdata
  | string hs hn h =>
    subst hq
    simp at hs
  | data n h => exact ⟨n, _, rfl, h⟩

lemma matches_after (hknown : ∀ tail ∈ tails, tail = "arrayTail" ∨ tail = "dictTail")
    (h : Levels false tails ls) : Matches (after tails) tails ls := by
  have hafter : after tails = "arrayTail" ∨ after tails = "dictTail" ∨ after tails = "end" := by
    rcases tails with _ | ⟨tail, tails⟩
    · exact .inr (.inr rfl)
    · rcases hknown tail List.mem_cons_self with rfl | rfl
      · exact .inl rfl
      · exact .inr (.inl rfl)
  rcases hafter with h' | h' | h' <;> rw [h'] <;>
    exact .plain (by decide) (by decide) (by decide) h

lemma Level.array_inv {waits : Bool} {l : Layer} (h : Level waits "arrayTail" l) :
    ∃ items, l = (.array, some (.seq items)) := by
  generalize ht : "arrayTail" = tail at h
  cases h with
  | array waits items => exact ⟨items, rfl⟩
  | dict entries pending => exact absurd ht (by decide)

lemma Level.dict_inv {waits : Bool} {l : Layer} (h : Level waits "dictTail" l) :
    ∃ d, l = (.dict, some (.custom d)) ∧ d.pending.isSome = waits := by
  generalize ht : "dictTail" = tail at h
  cases h with
  | array waits items => exact absurd ht (by decide)
  | dict entries pending => exact ⟨⟨entries, pending⟩, rfl, rfl⟩

lemma Levels.array_inv {waits : Bool} (hhead : tails.head? = some "arrayTail")
    (h : Levels waits tails ls) :
    ∃ items ls', ls = (.array, some (.seq items)) :: ls' ∧ Levels false tails.tail ls' := by
  rcases h with _ | ⟨hl, hls⟩
  · cases hhead
  · obtain rfl := Option.some.inj hhead
    obtain ⟨items, rfl⟩ := hl.array_inv
    exact ⟨items, _, rfl, hls⟩

lemma Levels.dict_inv {waits : Bool} (hhead : tails.head? = some "dictTail")
    (h : Levels waits tails ls) :
    ∃ d ls', ls = (.dict, some (.custom d)) :: ls' ∧ d.pending.isSome = waits ∧
      Levels false tails.tail ls' := by
  rcases h with _ | ⟨hl, hls⟩
  · cases hhead
  · obtain rfl := Option.some.inj hhead
    obtain ⟨d, rfl, hd⟩ := hl.dict_inv
    exact ⟨d, _, rfl, hd, hls⟩

lemma eq_cons_tail {tail : String} (h : tails.head? = some tail) : tails = tail :: tails.tail := by
  rcases tails with _ | ⟨tail', tails⟩
  · cases h
  · obtain rfl := Option.some.inj h
    rfl

/-- Inside an array it does not matter whether a key waits. -/
lemma Levels.of_array {waits : Bool} (hhead : tails.head? = some "arrayTail")
    (h : Levels waits tails ls) (waits' : Bool) : Levels waits' tails ls := by
  obtain ⟨items, ls', rfl, hls⟩ := h.array_inv hhead
  rw [eq_cons_tail hhead]
  exact .cons (.array waits' items) hls

lemma levels_eq_cons {tree : Tree schema} {frames : List (Frame schema)} {l : Layer}
    (h : levels tree frames = l :: ls) :
    ∃ f fs, frames = f :: fs ∧ f.kind = l.1 ∧ tree.get? f.id = l.2 ∧ levels tree fs = ls := by
  rcases frames with _ | ⟨f, fs⟩
  · cases h
  · obtain ⟨rfl, rfl⟩ := List.cons.inj h
    exact ⟨f, fs, rfl, rfl, rfl, rfl⟩

lemma joinParts_ok {items : List schema.Item} (h : AllParts items) :
    ∃ text, joinParts items = .ok text := by
  induction items with
  | nil => exact ⟨[], rfl⟩
  | cons item items ih =>
    obtain ⟨s, rfl⟩ := h item List.mem_cons_self
    obtain ⟨text, htext⟩ := ih fun x hx => h x (List.mem_cons_of_mem _ hx)
    exact ⟨s.toList ++ text, by simp [joinParts, htext]⟩

/-! ### Steps of both -/

/-- The scan stands where its state may stand, and the builder has the levels for it. -/
structure Sound (q : String) (tails : List String) (b : Builder schema) : Prop where
  nested : Nested q tails
  ordered : Ordered b.tree b.frames
  matched : Matches q tails (levels b.tree b.frames)

lemma sound_start (options : Options) : Sound "main" [] { context := options } :=
  ⟨nested_main, ordered_nil _, .plain (by decide) (by decide) (by decide) (.nil _)⟩

/-- The token is a leaf whose text has no value, and the builder says so. -/
def Refused (b : Builder schema) (t : Token Tag) : Prop :=
  ∃ kind e, t.tag = .leaf kind ∧ leafItem t = .error e ∧ (b.write plan t).result = .error e

variable {b : Builder schema} {t : Token Tag}

lemma Ordered.of_give {tree : Tree schema} {frames : List (Frame schema)} (h : Ordered tree frames)
    (id : Nat) (item : schema.Item) : Ordered (give tree id item) frames := h.of_size (by simp)

/-- A scalar goes to the innermost array or dict, or to the root. -/
lemma Sound.scalar (h : Sound "main" tails b) {kind : Kind} (ht : t.tag = .leaf kind)
    (hkind : kind ≠ .string) (hkey : kind ≠ .key) :
    (∃ b', Writes b t b' ∧ Sound (after tails) tails b') ∨ Refused b t := by
  have hlevels := h.matched.levels_of_plain (by decide) (by decide) (by decide)
  rcases hitem : leafItem t with e | item
  · refine .inr ⟨kind, e, ht, hitem, ?_⟩
    rw [write_leaf ht, leaf_error ht hkind hitem]
  · refine .inl ⟨_, writes_leaf ht hkind hkey hitem (hlevels.ready h.ordered),
      nested_after h.nested.known, h.ordered.of_give _ _, ?_⟩
    show Matches _ _ (levels (give b.tree (holder b.frames) item) b.frames)
    rw [levels_give h.ordered]
    exact matches_after h.nested.known (hlevels.giveTop item)

/-- What opens is attached to the innermost array or dict, or to the root. -/
lemma Sound.start (h : Sound "main" tails b) {kind : Kind} (ht : t.tag = .start kind)
    (hkind : kind = .array ∨ kind = .dict ∨ kind = .data) (hnested : Nested q' tails')
    (hmatch : ∀ ls, Levels false tails ls →
      Matches q' tails' ((kind, some (opening kind t)) :: ls)) :
    ∃ b', Writes b t b' ∧ Sound q' tails' b' := by
  have hlevels := h.matched.levels_of_plain (by decide) (by decide) (by decide)
  refine ⟨_, writes_start ht hkind (hlevels.ready h.ordered), hnested,
    (h.ordered.push kind _).of_give _ _, ?_⟩
  show Matches _ _ (levels (give (b.tree.insert (opening kind t)) (holder b.frames)
    (.tree b.tree.nextId)) (⟨kind, b.tree.nextId⟩ :: b.frames))
  rw [levels_push h.ordered]
  exact hmatch _ (hlevels.giveTop _)

lemma Sound.startString (h : Sound "main" tails b) (ht : t.tag = .start .string)
    (hq : q' = "string" ∨ q' = "sstring") : ∃ b', Writes b t b' ∧ Sound q' tails b' := by
  have hlevels := h.matched.levels_of_plain (by decide) (by decide) (by decide)
  refine ⟨_, writes_start_string ht, nested_of_main h.nested.known (by tauto),
    h.ordered.push .string _, ?_⟩
  show Matches _ _ (levels (b.tree.insert (plainNode .string t))
    (⟨.string, b.tree.nextId⟩ :: b.frames))
  rw [levels_push_detached h.ordered]
  exact .string hq (by simp [AllParts]) hlevels

lemma child_of_node {kind : Kind} {n : Node schema} {item : schema.Item}
    (hord : Ordered b.tree b.frames) (hls : levels b.tree b.frames = (kind, some (.node n)) :: ls)
    (hdict : kind ≠ .dict) {kind' : Kind} (ht : t.tag = .leaf kind') (hkind : kind' ≠ .string)
    (hkey : kind' ≠ .key) (hitem : leafItem t = .ok item) :
    ∃ b', Writes b t b' ∧ Ordered b'.tree b'.frames ∧
      levels b'.tree b'.frames =
        (kind, some (.node { n with content := n.content ++ [item] })) :: ls := by
  obtain ⟨f, fs, hf, hfkind, hget, -⟩ := levels_eq_cons hls
  have hready : Ready b.tree b.frames := by
    intro g hg
    obtain rfl : f = g := by
      rw [hf] at hg
      exact Option.some.inj hg
    refine ⟨Nat.ne_of_gt (hord.bounds f (by simp [hf])).1, _, hget, ?_⟩
    rw [hfkind]
    cases kind <;> trivial
  refine ⟨_, writes_leaf ht hkind hkey hitem hready, hord.of_give _ _, ?_⟩
  show levels (give b.tree (holder b.frames) item) b.frames = _
  rw [levels_give hord, hls]
  rfl

lemma Sound.chunk (h : Sound "data" tails b) (ht : t.tag = .leaf .data) :
    ∃ b', Writes b t b' ∧ Sound "data" tails b' := by
  obtain ⟨n, ls, hls, hlevels⟩ := h.matched.of_data
  have hitem : leafItem t = .ok (.token t) := by rw [leafItem, ht]; rfl
  obtain ⟨b', hw, hord, hls'⟩ :=
    child_of_node h.ordered hls (by decide) ht (by decide) (by decide) hitem
  exact ⟨b', hw, h.nested, hord, by rw [hls']; exact .data _ hlevels⟩

lemma part_of_leafItem {kind : Kind} (ht : t.tag = .leaf kind)
    (hkind : kind = .chars ∨ kind = .escape) {item : schema.Item} (hitem : leafItem t = .ok item) :
    ∃ s, item = .value (.string s) := by
  rw [leafItem, ht] at hitem
  rcases hkind with rfl | rfl
  · exact ⟨t.text, by simpa [evaluator?, Tag.leaf, charsValue] using hitem.symm⟩
  · simp only [evaluator?, Tag.leaf, escapeValue] at hitem
    rcases hc : escapeChar? t.text.toList with _ | c
    · simp [hc] at hitem
    · exact ⟨String.ofList [c], by simpa [hc] using hitem.symm⟩

lemma Sound.part (h : Sound q tails b) (hq : q = "string" ∨ q = "sstring") {kind : Kind}
    (ht : t.tag = .leaf kind) (hkind : kind = .chars ∨ kind = .escape) :
    (∃ b', Writes b t b' ∧ Sound q tails b') ∨ Refused b t := by
  have hne : kind ≠ .string ∧ kind ≠ .key := by rcases hkind with rfl | rfl <;> decide
  obtain ⟨n, ls, hls, hn, hlevels⟩ := h.matched.of_string hq
  rcases hitem : leafItem t with e | item
  · refine .inr ⟨kind, e, ht, hitem, ?_⟩
    rw [write_leaf ht, leaf_error ht hne.1 hitem]
  · obtain ⟨b', hw, hord, hls'⟩ := child_of_node h.ordered hls (by decide) ht hne.1 hne.2 hitem
    refine .inl ⟨b', hw, h.nested, hord, ?_⟩
    rw [hls']
    refine .string hq ?_ hlevels
    intro x hx
    rcases List.mem_append.1 hx with hx | hx
    · exact hn x hx
    · rw [List.mem_singleton.1 hx]
      exact part_of_leafItem ht hkind hitem

lemma Sound.closeString (h : Sound q tails b) (hq : q = "string" ∨ q = "sstring")
    (ht : t.tag = .stop .string) : ∃ b', Writes b t b' ∧ Sound (after tails) tails b' := by
  obtain ⟨n, ls, hls, hn, hlevels⟩ := h.matched.of_string hq
  obtain ⟨f, fs, hf, hkind, hget, hrest⟩ := levels_eq_cons hls
  have hord : Ordered b.tree (f :: fs) := hf ▸ h.ordered
  obtain ⟨text, htext⟩ := joinParts_ok hn
  have hlevels' : Levels true tails (levels b.tree fs) := hrest ▸ hlevels
  refine ⟨_, writes_stop_string ht hf hkind (Nat.ne_of_gt (hord.bounds f List.mem_cons_self).1)
    hget htext (hlevels'.ready hord.tail) hord.holder_ne, nested_after h.nested.known,
    (hord.tail.of_size (by simp)).of_give _ _, ?_⟩
  show Matches _ _ (levels (give (b.tree.set f.id _) (holder fs) _) fs)
  rw [levels_give (hord.tail.of_size (by simp)), levels_set hord]
  exact matches_after h.nested.known (hlevels'.giveTop _)

lemma Sound.closeData (h : Sound "data" tails b) (ht : t.tag = .stop .data) :
    ∃ b', Writes b t b' ∧ Sound (after tails) tails b' := by
  obtain ⟨n, ls, hls, hlevels⟩ := h.matched.of_data
  obtain ⟨f, fs, hf, hkind, hget, hrest⟩ := levels_eq_cons hls
  have hord : Ordered b.tree (f :: fs) := hf ▸ h.ordered
  refine ⟨_, writes_stop_data ht hf hkind hget, nested_after h.nested.known,
    hord.tail.of_size (by simp), ?_⟩
  show Matches _ _ (levels (b.tree.set f.id _) fs)
  rw [levels_set hord, hrest]
  exact matches_after h.nested.known hlevels

lemma Sound.closeArray (h : Sound q tails b)
    (hq : q = "arrayHead" ∨ q = "arrayTail" ∨ q = "afterComma") (ht : t.tag = .stop .array) :
    ∃ b', Writes b t b' ∧ Sound (after tails.tail) tails.tail b' := by
  have hlevels : Levels (keyWaits q) tails (levels b.tree b.frames) := by
    rcases hq with rfl | rfl | rfl <;>
      exact h.matched.levels_of_plain (by decide) (by decide) (by decide)
  obtain ⟨items, ls, hls, hlevels'⟩ := hlevels.array_inv (h.nested.arrays hq)
  obtain ⟨f, fs, hf, hkind, hget, hrest⟩ := levels_eq_cons hls
  have hord : Ordered b.tree (f :: fs) := hf ▸ h.ordered
  refine ⟨_, writes_stop_array ht hf hkind hget, nested_after h.nested.known_tail, hord.tail, ?_⟩
  show Matches _ _ (levels b.tree fs)
  rw [hrest]
  exact matches_after h.nested.known_tail hlevels'

lemma Sound.closeDict (h : Sound q tails b) (hq : q = "beforeKey" ∨ q = "dictTail")
    (ht : t.tag = .stop .dict) :
    ∃ b', Writes b t b' ∧ Sound (after tails.tail) tails.tail b' := by
  have hlevels : Levels false tails (levels b.tree b.frames) := by
    rcases hq with rfl | rfl <;>
      exact h.matched.levels_of_plain (by decide) (by decide) (by decide)
  obtain ⟨d, ls, hls, hd, hlevels'⟩ := hlevels.dict_inv (h.nested.dicts (by tauto))
  obtain ⟨f, fs, hf, hkind, hget, hrest⟩ := levels_eq_cons hls
  have hord : Ordered b.tree (f :: fs) := hf ▸ h.ordered
  have hnone : d.pending = none := by simpa using hd
  refine ⟨_, writes_stop_dict ht hf hkind hget hnone, nested_after h.nested.known_tail, hord.tail,
    ?_⟩
  show Matches _ _ (levels b.tree fs)
  rw [hrest]
  exact matches_after h.nested.known_tail hlevels'

lemma keyValue_string (text : String) : ∃ key, keyValue text = .ok (.string key) := by
  unfold keyValue
  split
  · exact ⟨_, rfl⟩
  · exact ⟨_, rfl⟩

lemma Sound.key (h : Sound "beforeKey" tails b) (ht : t.tag = .leaf .key) :
    ∃ b', Writes b t b' ∧ Sound "afterKey" tails b' := by
  have hlevels : Levels false tails (levels b.tree b.frames) :=
    h.matched.levels_of_plain (by decide) (by decide) (by decide)
  have hhead := h.nested.dicts (by simp)
  obtain ⟨d, ls, hls, hd, hlevels'⟩ := hlevels.dict_inv hhead
  obtain ⟨f, fs, hf, hkind, hget, hrest⟩ := levels_eq_cons hls
  have hord : Ordered b.tree (f :: fs) := hf ▸ h.ordered
  obtain ⟨key, hkey⟩ := keyValue_string t.text
  refine ⟨_, writes_key ht hkey hf hkind hget (by simpa using hd), h.nested.move (.key tails),
    h.ordered.of_size (by simp), ?_⟩
  have hset : levels (b.tree.set f.id (.custom { d with pending := some key })) b.frames =
      (.dict, some (.custom { d with pending := some key })) :: ls := by
    rw [hf, ← hrest, ← levels_set hord (.custom { d with pending := some key })]
    show (f.kind, (b.tree.set f.id _).get? f.id) :: _ = _
    rw [hkind, get?_set_self (Nat.ne_of_gt (hord.bounds f List.mem_cons_self).1) hget]
    rfl
  refine .plain (by decide) (by decide) (by decide) ?_
  show Levels true tails (levels (b.tree.set f.id _) b.frames)
  rw [hset, eq_cons_tail hhead]
  exact .cons (.dict d.entries (some key)) hlevels'

/-- **Agreement is kept**: a move of the scan takes its token to a builder that agrees again,
unless the text of the token has no value. -/
theorem Sound.step (h : Sound q tails b) (hm : Move q tails t.tag q' tails') :
    (∃ b', Writes b t b' ∧ Sound q' tails' b') ∨ Refused b t := by
  have hnested := h.nested.move hm
  generalize htag : t.tag = tag at hm
  cases hm with
  | blank q tails kind hkind => exact .inl ⟨b, writes_skip htag, h⟩
  | scalar tails kind hkind =>
    refine h.scalar htag ?_ ?_ <;> rcases hkind with rfl | rfl | rfl | rfl | rfl <;> decide
  | openArray tails =>
    refine .inl (h.start htag (by simp) hnested fun ls hls => ?_)
    exact .plain (by decide) (by decide) (by decide) (.cons (.array false []) hls)
  | openDict tails =>
    refine .inl (h.start htag (by simp) hnested fun ls hls => ?_)
    exact .plain (by decide) (by decide) (by decide) (.cons (.dict [] none) hls)
  | openData tails => exact .inl (h.start htag (by simp) hnested fun ls hls => .data _ hls)
  | openString tails q hq => exact .inl (h.startString htag hq)
  | chunk tails => exact .inl (h.chunk htag)
  | closeData tails => exact .inl (h.closeData htag)
  | part q tails kind hq hkind => exact h.part hq htag hkind
  | closeString q tails hq => exact .inl (h.closeString hq htag)
  | element q tails hq =>
    refine .inl ⟨b, writes_skip htag, hnested, h.ordered,
      .plain (by decide) (by decide) (by decide) ?_⟩
    have hlevels : Levels (keyWaits q) tails (levels b.tree b.frames) := by
      rcases hq with rfl | rfl <;>
        exact h.matched.levels_of_plain (by decide) (by decide) (by decide)
    exact hlevels.of_array (h.nested.arrays (by tauto)) _
  | closeArray q tails hq => exact .inl (h.closeArray hq htag)
  | comma tails =>
    have hlevels := h.matched.levels_of_plain (by decide) (by decide) (by decide)
    exact .inl ⟨b, writes_skip htag, hnested, h.ordered,
      .plain (by decide) (by decide) (by decide) hlevels⟩
  | semicolon tails =>
    have hlevels := h.matched.levels_of_plain (by decide) (by decide) (by decide)
    exact .inl ⟨b, writes_skip htag, hnested, h.ordered,
      .plain (by decide) (by decide) (by decide) hlevels⟩
  | closeDict q tails hq => exact .inl (h.closeDict hq htag)
  | key tails => exact .inl (h.key htag)
  | equals tails =>
    have hlevels := h.matched.levels_of_plain (by decide) (by decide) (by decide)
    exact .inl ⟨b, writes_skip htag, hnested, h.ordered,
      .plain (by decide) (by decide) (by decide) hlevels⟩

end ScanTree.PropertyList
