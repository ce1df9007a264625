import ScanTree.Proofs.PropertyList.Phrases

/-!
A builder that is fed the tokens of a phrase computes the meaning of the phrase.

Feeding a phrase delivers one child to the innermost open slot. The child refers to slots that are
new, and these denote the value in every later tree, since no later token touches them.
-/

namespace ScanTree.PropertyList

open Builder

/-! ### Feeding tokens -/

def writeAll (b : Builder schema) : List (Token Tag) → Except BuildError (Builder schema)
  | [] => .ok b
  | t :: ts =>
    match (b.write plan t).result with
    | .error e => .error e
    | .ok _ => writeAll (b.write plan t).state ts

lemma writeAll_of_writes {b b' : Builder schema} {t : Token Tag} (h : Writes b t b')
    (ts : List (Token Tag)) : writeAll b (t :: ts) = writeAll b' ts := by
  rw [writeAll, h.1, h.2]

lemma writeAll_append (b : Builder schema) (ts us : List (Token Tag)) :
    writeAll b (ts ++ us) = (writeAll b ts).bind fun b => writeAll b us := by
  induction ts generalizing b with
  | nil => rfl
  | cons t ts ih =>
    rw [List.cons_append, writeAll, writeAll]
    rcases (b.write plan t).result with e | _
    · rfl
    · exact ih _

/-- Feeding the tokens computes `x`: it fails with the same error, or leaves a builder that is
right for the value. -/
def Yields {α : Type} (b : Builder schema) (ts : List (Token Tag)) (x : Except BuildError α)
    (right : Builder schema → α → Prop) : Prop :=
  match x with
  | .error e => writeAll b ts = .error e
  | .ok v => ∃ b', writeAll b ts = .ok b' ∧ right b' v

section Yields

variable {α β : Type} {b b' : Builder schema} {t : Token Tag} {ts us : List (Token Tag)}
  {x : Except BuildError α} {Q : Builder schema → α → Prop} {R : Builder schema → β → Prop}

lemma Yields.cons (h : Writes b t b') (hx : Yields b' ts x Q) : Yields b (t :: ts) x Q := by
  rcases x with e | v <;> simpa only [Yields, writeAll_of_writes h] using hx

lemma Yields.bind {f : α → Except BuildError β} (hx : Yields b ts x Q)
    (hf : ∀ b' v, Q b' v → Yields b' us (f v) R) : Yields b (ts ++ us) (x >>= f) R := by
  rcases x with e | v
  · show writeAll b (ts ++ us) = .error e
    rw [writeAll_append, show writeAll b ts = .error e from hx]
    rfl
  · obtain ⟨b', hb', hQ⟩ := hx
    have hR := hf b' v hQ
    have happend : writeAll b (ts ++ us) = writeAll b' us := by
      rw [writeAll_append, hb']
      rfl
    show Yields b (ts ++ us) (f v) R
    rcases hfv : f v with e | w <;> simpa only [Yields, hfv, happend] using hR

lemma Yields.map {f : α → β} (hx : Yields b ts x Q) (hf : ∀ b' v, Q b' v → R b' (f v)) :
    Yields b ts (f <$> x) R := by
  rcases x with e | v
  · exact hx
  · obtain ⟨b', hb', hQ⟩ := hx
    exact ⟨b', hb', hf b' v hQ⟩

lemma Yields.mono {R : Builder schema → α → Prop} (hx : Yields b ts x Q)
    (h : ∀ b' v, Q b' v → R b' v) : Yields b ts x R := by
  rcases x with e | v
  · exact hx
  · obtain ⟨b', hb', hQ⟩ := hx
    exact ⟨b', hb', h b' v hQ⟩

lemma Yields.pure {v : α} (hQ : Q b v) : Yields b [] (.ok v) Q := ⟨b, rfl, hQ⟩

end Yields

/-! ### Delivered children -/

/-- The child has the value in every tree that has the same slots from number `low` on. -/
def Denotes (tree : Tree schema) (low : Nat) (item : schema.Item) (v : Value) : Prop :=
  ∀ later : Tree schema, (∀ id, low ≤ id → id < tree.size → later.get? id = tree.get? id) →
    ∀ depth, tree.size - low ≤ depth → resolveWithin later depth item = .ok v

section Denotes

variable {tree tree' : Tree schema} {low low' : Nat} {item : schema.Item} {v : Value}

lemma denotes_value (tree : Tree schema) (low : Nat) (v : Value) :
    Denotes tree low (.value v) v := by
  intro later _ depth _
  cases depth <;> rfl

lemma Denotes.later (h : Denotes tree low item v) (hlow : low' ≤ low)
    (hsize : tree.size ≤ tree'.size)
    (hsame : ∀ id, low ≤ id → id < tree.size → tree'.get? id = tree.get? id) :
    Denotes tree' low' item v := by
  intro later hlater depth hdepth
  refine h later (fun id hid hlt => ?_) depth (by omega)
  rw [hlater id (by omega) (by omega), hsame id hid hlt]

end Denotes

/-- The builder has given a child to its innermost slot and changed no other old slot. -/
structure Delivers (b b' : Builder schema) (item : schema.Item) : Prop where
  frames : b'.frames = b.frames
  size : b.tree.size ≤ b'.tree.size
  slots : ∀ id < b.tree.size, b'.tree.get? id = (give b.tree (holder b.frames) item).get? id

structure Grows (id : Nat) (b b' : Builder schema) : Prop where
  frames : b'.frames = b.frames
  size : b.tree.size ≤ b'.tree.size
  others : ∀ other < b.tree.size, other ≠ id → b'.tree.get? other = b.tree.get? other

lemma Grows.refl (id : Nat) (b : Builder schema) : Grows id b b :=
  ⟨rfl, Nat.le_refl _, fun _ _ _ => rfl⟩

lemma Grows.trans {id : Nat} {b b' b'' : Builder schema} (h : Grows id b b')
    (h' : Grows id b' b'') :
    Grows id b b'' :=
  ⟨h'.frames.trans h.frames, Nat.le_trans h.size h'.size, fun other hlt hne =>
    (h'.others other (Nat.lt_of_lt_of_le hlt h.size) hne).trans (h.others other hlt hne)⟩

lemma Delivers.grows {b b' : Builder schema} {item : schema.Item} (h : Delivers b b' item) :
    Grows (holder b.frames) b b' :=
  ⟨h.frames, h.size, fun other hlt hne => by rw [h.slots other hlt, get?_give, if_neg hne]⟩

lemma Delivers.holder_eq {b b' : Builder schema} {item : schema.Item} (h : Delivers b b' item)
    (hlt : holder b.frames < b.tree.size) :
    b'.tree.get? (holder b.frames) = (b.tree.get? (holder b.frames)).map (accept item) := by
  rw [h.slots _ hlt, get?_give, if_pos rfl]

/-- A child keeps its value while other old slots are changed. -/
lemma Denotes.grows {b b' : Builder schema} {id low : Nat} {item : schema.Item} {v : Value}
    (h : Denotes b.tree low item v) (hid : id < low) (hg : Grows id b b') :
    Denotes b'.tree low item v :=
  h.later (Nat.le_refl _) hg.size fun other hle hlt => hg.others other hlt (by omega)

/-! ### Opening and closing -/

def opened (b : Builder schema) (kind : Kind) (t : Token Tag) : Builder schema :=
  { b with
    tree := give (b.tree.insert (opening kind t)) (holder b.frames) (.tree b.tree.nextId)
    frames := ⟨kind, b.tree.nextId⟩ :: b.frames }

section Opened

variable {b b' : Builder schema} {kind : Kind} {t : Token Tag}

lemma ordered_opened (h : Ordered b.tree b.frames) :
    Ordered (opened b kind t).tree (opened b kind t).frames := (h.push kind _).of_give _ _

lemma size_opened : (opened b kind t).tree.size = b.tree.size + 1 := by
  simp [opened]

lemma get?_opened (h : Ordered b.tree b.frames) :
    (opened b kind t).tree.get? b.tree.nextId = some (opening kind t) := by
  have hne : b.tree.nextId ≠ holder b.frames := Nat.ne_of_gt h.holder_lt
  simp only [opened]
  rw [get?_give, if_neg hne, Tree.get?_insert, if_pos rfl]

/-- Whatever comes into the new slot, its parent has been given a reference to it. -/
lemma delivers_opened {slot : Tree schema} (hg : Grows b.tree.nextId (opened b kind t) b')
    (hsize : slot.size = b'.tree.size)
    (hslot : ∀ id ≠ b.tree.nextId, slot.get? id = b'.tree.get? id) :
    Delivers b { b' with tree := slot, frames := b.frames } (.tree b.tree.nextId) := by
  have hle := hg.size
  rw [size_opened] at hle
  refine ⟨rfl, by simp only [hsize]; omega, fun id hlt => ?_⟩
  have hne : id ≠ b.tree.nextId := Nat.ne_of_lt hlt
  simp only
  rw [hslot id hne, hg.others id (by rw [size_opened]; omega) hne]
  simp only [opened]
  rw [get?_give, get?_give, Tree.get?_insert, if_neg hne]

end Opened

/-! ### Leaves -/

section Leaves

variable {b : Builder schema}

lemma isScalar_ne {kind : Kind} (h : isScalar kind = true) : kind ≠ .string ∧ kind ≠ .key := by
  constructor <;> rintro rfl <;> simp [isScalar] at h

lemma tag_of_role {t : Token Tag} (h : t.tag.role = .leaf) : t.tag = .leaf t.tag.kind := by
  obtain ⟨⟨role, kind⟩, _, _, _⟩ := t
  obtain rfl : role = .leaf := h
  rfl

/-- A scalar is delivered as its value, and a date as its token. -/
lemma yields_scalar (t : Scalar) (hready : Ready b.tree b.frames) :
    Yields b [t.1] (scalarValue t.1) fun b' v =>
      ∃ item, Delivers b b' item ∧ Denotes b'.tree b.tree.size item v := by
  obtain ⟨t, hrole, hscalar⟩ := t
  have ht := tag_of_role hrole
  obtain ⟨hstring, hkey⟩ := isScalar_ne hscalar
  have hdeliver : ∀ item, leafItem t = .ok item →
      writeAll b [t] = .ok { b with tree := give b.tree (holder b.frames) item } := by
    intro item hitem
    rw [writeAll_of_writes (writes_leaf ht hstring hkey hitem hready)]
    rfl
  have hdelivers : ∀ item,
      Delivers b { b with tree := give b.tree (holder b.frames) item } item :=
    fun item => ⟨rfl, by simp, fun _ _ => rfl⟩
  rcases hf : evaluator? t.tag.kind with _ | f
  · have hdate : t.tag.kind = .date := by
      revert hf hscalar
      generalize t.tag.kind = kind
      cases kind <;> simp [isScalar, evaluator?]
    have hitem : leafItem t = .ok (.token t) := by simp only [leafItem, hf]
    have hvalue : scalarValue t = .ok (.date t.text) := by simp only [scalarValue, hf]
    rw [hvalue]
    refine ⟨_, hdeliver _ hitem, .token t, hdelivers _, fun later _ depth _ => ?_⟩
    cases depth <;> simp [resolveWithin, hdate]
  · have hvalue : scalarValue t = f t.text := by simp only [scalarValue, hf]
    rw [hvalue]
    rcases hv : f t.text with e | v
    · have hitem : leafItem t = .error e := by
        simp only [leafItem, hf, hv]
        rfl
      show writeAll b [t] = .error e
      rw [writeAll, write_leaf ht, leaf_error ht hstring hitem]
    · have hitem : leafItem t = .ok (.value v) := by
        simp only [leafItem, hf, hv]
        rfl
      exact ⟨_, hdeliver _ hitem, .value v, hdelivers _, denotes_value _ _ _⟩

def partItem (text : List Char) : schema.Item := .value (.string (String.ofList text))

lemma leafItem_part (t : Part) : leafItem t.1 = partItem <$> partText t.1 := by
  obtain ⟨t, ht | ht⟩ := t
  · simp [leafItem, partText, ht, Tag.leaf, evaluator?, charsValue, partItem]
  · simp only [leafItem, partText, ht, Tag.leaf, evaluator?, escapeValue]
    rcases escapeChar? t.text.toList with _ | c <;> rfl

lemma yields_parts {f : Frame schema} {fs : List (Frame schema)} (hf : b.frames = f :: fs)
    (hkind : f.kind = .string) (hid : f.id ≠ 0) (parts : List Part) {n : Node schema}
    (hget : b.tree.get? f.id = some (.node n)) :
    Yields b (parts.map Subtype.val) (parts.mapM fun t => partText t.1) fun b' texts =>
      Grows f.id b b' ∧ b'.tree.size = b.tree.size ∧
        b'.tree.get? f.id = some (.node { n with content := n.content ++ texts.map partItem }) := by
  induction parts generalizing b n with
  | nil => exact .pure ⟨.refl _ _, rfl, by simpa using hget⟩
  | cons t parts ih =>
    have hready : Ready b.tree b.frames := by
      intro g hg
      rw [hf] at hg
      obtain rfl := Option.some.inj hg
      exact ⟨hid, _, hget, by rw [hkind]; trivial⟩
    have hholder : holder b.frames = f.id := by rw [hf]; rfl
    obtain ⟨kind, ht, hstring, hkey⟩ :
        ∃ kind, t.1.tag = .leaf kind ∧ kind ≠ .string ∧ kind ≠ .key := by
      rcases t.2 with h | h
      · exact ⟨_, h, by decide, by decide⟩
      · exact ⟨_, h, by decide, by decide⟩
    have hitem := leafItem_part t
    rw [List.map_cons, List.mapM_cons]
    rcases htext : partText t.1 with e | text
    · rw [htext] at hitem
      show writeAll b _ = .error e
      rw [writeAll, write_leaf ht, leaf_error ht hstring hitem]
    · rw [htext] at hitem
      have hwrite := writes_leaf ht hstring hkey hitem hready
      rw [hholder] at hwrite
      have hget' : (give b.tree f.id (partItem text)).get? f.id =
          some (.node { n with content := n.content ++ [partItem text] }) := by
        rw [get?_give, if_pos rfl, hget]
        rfl
      have hgrows : Grows f.id b { b with tree := give b.tree f.id (partItem text) } :=
        ⟨rfl, by simp, fun other _ hne => by simp only; rw [get?_give, if_neg hne]⟩
      refine .cons hwrite ?_
      refine (ih (b := { b with tree := give b.tree f.id (partItem text) }) hf hget').map
        fun b' texts ⟨hg, hsize, hnode⟩ => ?_
      exact ⟨hgrows.trans hg, by simpa using hsize, by simpa using hnode⟩

end Leaves

/-! ### Strings and data blocks -/

def Gives (b : Builder schema) (b' : Builder schema) (v : Value) : Prop :=
  ∃ item, Delivers b b' item ∧ Denotes b'.tree b.tree.size item v

section Blocks

variable {b : Builder schema}

/-- What was opened gives a value when it is closed, if it has that value in every tree that has its
slot and in which the children that came after it have theirs. -/
lemma gives_opened {b' : Builder schema} {kind : Kind} {t : Token Tag} {slots : Tree schema}
    {shape : Shape schema} {v : Value} (hg : Grows b.tree.nextId (opened b kind t) b')
    (hsize : slots.size = b'.tree.size)
    (hothers : ∀ id ≠ b.tree.nextId, slots.get? id = b'.tree.get? id)
    (hself : slots.get? b.tree.nextId = some shape)
    (hvalue : ∀ (later : Tree schema) (depth : Nat), later.get? b.tree.nextId = some shape →
      (∀ item w, Denotes b'.tree (opened b kind t).tree.size item w →
        resolveWithin later depth item = .ok w) →
      resolveWithin later (depth + 1) (.tree b.tree.nextId) = .ok v) :
    Gives b { b' with tree := slots, frames := b.frames } v := by
  refine ⟨.tree b.tree.nextId, delivers_opened hg hsize hothers, ?_⟩
  intro later hlater depth hdepth
  have hle := hg.size
  rw [size_opened] at hle
  simp only [hsize] at hdepth hlater
  obtain ⟨depth, rfl⟩ : ∃ d, depth = d + 1 := ⟨depth - 1, by omega⟩
  have hslot := (hlater b.tree.nextId (Nat.le_refl _) hle).trans hself
  refine hvalue later depth hslot fun item w hdenotes => ?_
  -- The children have higher numbers than the slot.
  refine hdenotes later (fun id hid hlt => ?_) depth (by rw [size_opened]; omega)
  rw [size_opened] at hid
  have hne : id ≠ b.tree.nextId := Nat.ne_of_gt hid
  rw [hlater id (by omega) hlt, hothers id hne]

lemma joinParts_map (texts : List (List Char)) :
    joinParts (texts.map partItem) = .ok texts.flatten := by
  induction texts with
  | nil => rfl
  | cons text texts ih => simp [joinParts, partItem, ih]

def openedString (b : Builder schema) (t : Token Tag) : Builder schema :=
  { b with
    tree := b.tree.insert (plainNode .string t)
    frames := ⟨.string, b.tree.nextId⟩ :: b.frames }

lemma yields_string (hord : Ordered b.tree b.frames) (hready : Ready b.tree b.frames)
    (opener : Marked (.start .string)) (parts : List Part) (closer : Marked (.stop .string)) :
    Yields b (Phrase.string opener parts closer).tokens
      (Phrase.string opener parts closer).value (Gives b) := by
  have hget : (openedString b opener.1).tree.get? b.tree.nextId =
      some (plainNode (S := schema) .string opener.1) := by
    simp only [openedString]
    rw [Tree.get?_insert, if_pos rfl]
  rw [Phrase.tokens, Phrase.value]
  refine .cons (writes_start_string opener.2) ?_
  have hparts := yields_parts (b := openedString b opener.1) rfl rfl (Nat.succ_ne_zero _) parts hget
  refine Yields.bind
    (f := fun texts => .ok (Value.string (String.ofList texts.flatten)))
    hparts fun b' texts ⟨hg, hsize, hnode⟩ => ?_
  have hold : ∀ id < b.tree.size, b'.tree.get? id = b.tree.get? id := by
    intro id hlt
    have hne : id ≠ b.tree.nextId := Nat.ne_of_lt hlt
    rw [hg.others id (by simp [openedString]; omega) hne]
    simp only [openedString]
    rw [Tree.get?_insert, if_neg hne]
  have hready' : Ready b'.tree b.frames := by
    intro f hf
    obtain ⟨hid, shape, hshape, haccepts⟩ := hready f hf
    have hlt := (hord.bounds f (List.mem_of_mem_head? hf)).2
    exact ⟨hid, shape, by rw [hold f.id hlt, hshape], haccepts⟩
  have hne : holder b.frames ≠ b.tree.nextId := Nat.ne_of_lt hord.holder_lt
  have hcontent : joinParts ([] ++ texts.map partItem) = .ok texts.flatten := by
    rw [List.nil_append, joinParts_map]
  have hwrite := writes_stop_string closer.2 hg.frames rfl (Nat.succ_ne_zero _) hnode hcontent
    hready' hne
  refine .cons hwrite (.pure ⟨_, ⟨rfl, ?_, fun id hlt => ?_⟩, denotes_value _ _ _⟩)
  · simp [hsize, openedString]
  · have hid : id ≠ b.tree.nextId := Nat.ne_of_lt hlt
    simp only
    rw [get?_give, get?_give, Tree.get?_set_of_ne _ _ hid, hold id hlt]

lemma yields_chunks {f : Frame schema} {fs : List (Frame schema)} (hf : b.frames = f :: fs)
    (hkind : f.kind = .data) (hid : f.id ≠ 0) (chunks : List (Marked (.leaf .data)))
    {n : Node schema} (hget : b.tree.get? f.id = some (.node n)) :
    ∃ b', writeAll b (chunks.map Subtype.val) = .ok b' ∧ Grows f.id b b' ∧
      b'.tree.get? f.id = some (.node { n with
        content := n.content ++ chunks.map fun t => .token t.1 }) := by
  induction chunks generalizing b n with
  | nil => exact ⟨b, rfl, .refl _ _, by simpa using hget⟩
  | cons t chunks ih =>
    have hready : Ready b.tree b.frames := by
      intro g hg
      rw [hf] at hg
      obtain rfl := Option.some.inj hg
      exact ⟨hid, _, hget, by rw [hkind]; trivial⟩
    have hholder : holder b.frames = f.id := by rw [hf]; rfl
    have hitem : leafItem t.1 = .ok (.token t.1) := by rw [leafItem, t.2]; rfl
    have hwrite := writes_leaf t.2 (by decide) (by decide) hitem hready
    rw [hholder] at hwrite
    have hget' : (give b.tree f.id (.token t.1)).get? f.id =
        some (.node { n with content := n.content ++ [.token t.1] }) := by
      rw [get?_give, if_pos rfl, hget]
      rfl
    have hgrows : Grows f.id b { b with tree := give b.tree f.id (.token t.1) } :=
      ⟨rfl, by simp, fun other _ hne => by simp only; rw [get?_give, if_neg hne]⟩
    obtain ⟨b', hb', hg, hnode⟩ :=
      ih (b := { b with tree := give b.tree f.id (.token t.1) }) hf hget'
    refine ⟨b', ?_, hgrows.trans hg, by simpa using hnode⟩
    rw [List.map_cons, writeAll_of_writes hwrite, hb']

lemma tokenTexts_map (ts : List (Token Tag)) :
    tokenTexts (ts.map Item.token) = ts.map Token.text := by
  rw [tokenTexts, List.filterMap_map]
  exact congrFun List.filterMap_eq_map ts

lemma yields_data (hord : Ordered b.tree b.frames) (hready : Ready b.tree b.frames)
    (opener : Marked (.start .data)) (chunks : List (Marked (.leaf .data)))
    (closer : Marked (.stop .data)) :
    Yields b (Phrase.data opener chunks closer).tokens (Phrase.data opener chunks closer).value
      (Gives b) := by
  rw [Phrase.tokens, Phrase.value]
  refine .cons (writes_start opener.2 (by simp) hready) ?_
  obtain ⟨b', hb', hg, hnode⟩ := yields_chunks (b := opened b .data opener.1) rfl rfl
    (Nat.succ_ne_zero _) chunks (get?_opened hord)
  let n : Node schema := ⟨some .data, some opener.1, chunks.map fun t => .token t.1, none⟩
  have hnode : b'.tree.get? b.tree.nextId = some (.node n) := hnode
  let closed : Tree schema := b'.tree.set b.tree.nextId (.node { n with closer := some closer.1 })
  have hwrite : Writes b' closer.1 { b' with tree := closed, frames := b.frames } :=
    writes_stop_data closer.2 hg.frames rfl hnode
  have hself : closed.get? b.tree.nextId = some (.node { n with closer := some closer.1 }) :=
    get?_set_self (Nat.succ_ne_zero _) hnode _
  refine ⟨{ b' with tree := closed, frames := b.frames }, ?_,
    gives_opened hg (by simp [closed]) (fun id hid => Tree.get?_set_of_ne _ _ hid) hself
      fun later depth hslot _ => ?_⟩
  · show writeAll (opened b .data opener.1) _ = _
    rw [writeAll_append, hb']
    show writeAll b' [closer.1] = _
    rw [writeAll_of_writes hwrite]
    rfl
  · simp only [resolveWithin, hslot]
    simpa [n] using tokenTexts_map _

end Blocks

/-! ### Arrays -/

lemma mapM_ok {α β : Type} {f : α → Except BuildError β} {xs : List α} {ys : List β}
    (h : List.Forall₂ (fun x y => f x = .ok y) xs ys) : xs.mapM f = .ok ys := by
  induction h with
  | nil => rfl
  | cons hx _ ih =>
    rw [List.mapM_cons, hx, ih]
    rfl

def GivesElements (id : Nat) (items : List schema.Item) (b b' : Builder schema)
    (vs : List Value) : Prop :=
  Grows id b b' ∧ ∃ more, b'.tree.get? id = some (.seq (items ++ more)) ∧
    List.Forall₂ (Denotes b'.tree b.tree.size) more vs

section Arrays

variable {b : Builder schema} {f : Frame schema} {fs : List (Frame schema)}

lemma ready_array (hf : b.frames = f :: fs) (hkind : f.kind = .array) (hid : f.id ≠ 0)
    {items : List schema.Item} (hget : b.tree.get? f.id = some (.seq items)) :
    Ready b.tree b.frames := by
  intro g hg
  rw [hf] at hg
  obtain rfl := Option.some.inj hg
  exact ⟨hid, _, hget, by rw [hkind]; trivial⟩

lemma Gives.element {b' : Builder schema} {v : Value} (hf : b.frames = f :: fs)
    (hord : Ordered b.tree b.frames) {items : List schema.Item}
    (hget : b.tree.get? f.id = some (.seq items)) (h : Gives b b' v) :
    Grows f.id b b' ∧ ∃ item, b'.tree.get? f.id = some (.seq (items ++ [item])) ∧
      Denotes b'.tree b.tree.size item v := by
  obtain ⟨item, hdelivers, hdenotes⟩ := h
  have hholder : holder b.frames = f.id := by rw [hf]; rfl
  have hslot := hdelivers.holder_eq hord.holder_lt
  have hgrows := hdelivers.grows
  rw [hholder] at hslot hgrows
  rw [hget] at hslot
  exact ⟨hgrows, item, hslot, hdenotes⟩

lemma yields_array (hready : Ready b.tree b.frames)
    (opener : Marked (.start .array)) (es : Elements) (closer : Marked (.stop .array))
    (hes : Yields (opened b .array opener.1) es.tokens es.values
      (GivesElements b.tree.nextId [] (opened b .array opener.1))) :
    Yields b (Phrase.array opener es closer).tokens (Phrase.array opener es closer).value
      (Gives b) := by
  rw [Phrase.tokens, Phrase.value]
  refine .cons (writes_start opener.2 (by simp) hready) ?_
  refine Yields.bind (f := fun vs => .ok (Value.array vs)) hes
    fun b' vs ⟨hg, items, hget, hall⟩ => ?_
  rw [List.nil_append] at hget
  have hwrite : Writes b' closer.1 { b' with frames := b.frames } :=
    writes_stop_array closer.2 hg.frames rfl hget
  refine .cons hwrite (.pure (gives_opened hg rfl (fun _ _ => rfl) hget
    fun later depth hslot hchildren => ?_))
  have hmap : items.mapM (resolveWithin later depth) = .ok vs := mapM_ok (hall.imp hchildren)
  simp only [resolveWithin, hslot, hmap]
  rfl

end Arrays

/-! ### Dicts -/

def DenotesEntry (tree : Tree schema) (low : Nat) (p : String × schema.Item) (e : String × Value) :
    Prop := p.1 = e.1 ∧ Denotes tree low p.2 e.2

def GivesMembers (id : Nat) (entries : Entries schema.Item) (b b' : Builder schema)
    (es : List (String × Value)) : Prop :=
  Grows id b b' ∧ ∃ more : List (String × schema.Item),
    b'.tree.get? id =
      some (.custom ⟨more.foldl (fun es p => Entries.insert p.1 p.2 es) entries, none⟩) ∧
    List.Forall₂ (DenotesEntry b'.tree b.tree.size) more es

lemma forall₂_insert {α β : Type} {R : α → β → Prop} {es : Entries α} {fs : Entries β}
    (h : List.Forall₂ (fun e f => e.1 = f.1 ∧ R e.2 f.2) es fs) {key : String} {x : α} {y : β}
    (hxy : R x y) :
    List.Forall₂ (fun e f => e.1 = f.1 ∧ R e.2 f.2) (es.insert key x) (fs.insert key y) := by
  induction h with
  | nil => exact .cons ⟨rfl, hxy⟩ .nil
  | @cons e f es fs hef hrest ih =>
    obtain ⟨hkey, hval⟩ := hef
    simp only [Entries.insert, hkey]
    split_ifs
    · exact .cons ⟨rfl, hxy⟩ hrest
    · exact .cons ⟨rfl, hval⟩ ih

lemma forall₂_ofList {α β : Type} {R : α → β → Prop} {ps : List (String × α)}
    {qs : List (String × β)} (h : List.Forall₂ (fun e f => e.1 = f.1 ∧ R e.2 f.2) ps qs) :
    List.Forall₂ (fun e f => e.1 = f.1 ∧ R e.2 f.2) (Entries.ofList ps) (Entries.ofList qs) := by
  have key : ∀ (es : Entries α) (fs : Entries β),
      List.Forall₂ (fun e f => e.1 = f.1 ∧ R e.2 f.2) es fs →
      List.Forall₂ (fun e f => e.1 = f.1 ∧ R e.2 f.2)
        (ps.foldl (fun es p => Entries.insert p.1 p.2 es) es)
        (qs.foldl (fun es p => Entries.insert p.1 p.2 es) fs) := by
    induction h with
    | nil => exact fun _ _ h => h
    | cons hpq _ ih =>
      intro es fs hes
      obtain ⟨hkey, hval⟩ := hpq
      simp only [List.foldl_cons, hkey]
      exact ih _ _ (forall₂_insert hes hval)
  exact key [] [] .nil

section Dicts

variable {b : Builder schema} {f : Frame schema} {fs : List (Frame schema)}

lemma yields_member (hf : b.frames = f :: fs) (hkind : f.kind = .dict)
    (hord : Ordered b.tree b.frames) {entries : Entries schema.Item}
    (hget : b.tree.get? f.id = some (.custom ⟨entries, none⟩)) (key : Marked (.leaf .key))
    (equals : Equals) {v : Phrase}
    (hv : ∀ b : Builder schema, Ordered b.tree b.frames → Ready b.tree b.frames →
      Yields b v.tokens v.value (Gives b)) :
    Yields b (key.1 :: equals.1 :: v.tokens) v.value fun b' x => Grows f.id b b' ∧
      ∃ item, b'.tree.get? f.id =
          some (.custom ⟨entries.insert (keyName key.1.text) item, none⟩) ∧
        Denotes b'.tree b.tree.size item x := by
  have hid : f.id ≠ 0 := Nat.ne_of_gt (hord.bounds f (by simp [hf])).1
  have hlt : f.id < b.tree.size := (hord.bounds f (by simp [hf])).2
  let waiting : Shape schema := .custom ⟨entries, some (keyName key.1.text)⟩
  let named : Builder schema := { b with tree := b.tree.set f.id waiting }
  have hwrite : Writes b key.1 named :=
    writes_key key.2 (keyValue_eq _) hf hkind hget rfl
  have hnamed : named.tree.get? f.id = some waiting := get?_set_self hid hget _
  have hready : Ready named.tree named.frames := by
    intro g hg
    have hg : b.frames.head? = some g := hg
    rw [hf] at hg
    obtain rfl := Option.some.inj hg
    exact ⟨hid, _, hnamed, by rw [hkind]; rfl⟩
  have hgrows : Grows f.id b named :=
    ⟨rfl, by simp [named], fun other _ hne => Tree.get?_set_of_ne _ _ hne⟩
  have hsize : named.tree.size = b.tree.size := by simp [named]
  refine .cons hwrite (.cons (writes_skip equals.2.1) ?_)
  refine (hv named (hord.of_size (by omega)) hready).mono fun b' x ⟨item, hdelivers, hdenotes⟩ => ?_
  have hholder : holder named.frames = f.id := by
    show holder b.frames = f.id
    rw [hf]
    rfl
  have hslot := hdelivers.holder_eq (by rw [hholder, hsize]; exact hlt)
  have hg := hdelivers.grows
  rw [hholder] at hslot hg
  rw [hnamed] at hslot
  rw [hsize] at hdenotes
  exact ⟨hgrows.trans hg, item, hslot, hdenotes⟩

lemma yields_dict (hready : Ready b.tree b.frames)
    (opener : Marked (.start .dict)) (ms : Members) (closer : Marked (.stop .dict))
    (hms : Yields (opened b .dict opener.1) ms.tokens ms.entries
      (GivesMembers b.tree.nextId [] (opened b .dict opener.1))) :
    Yields b (Phrase.dict opener ms closer).tokens (Phrase.dict opener ms closer).value
      (Gives b) := by
  rw [Phrase.tokens, Phrase.value]
  refine .cons (writes_start opener.2 (by simp) hready) ?_
  refine Yields.bind (f := fun es => .ok (Value.dict (Entries.ofList es))) hms
    fun b' es ⟨hg, more, hget, hall⟩ => ?_
  have hwrite : Writes b' closer.1 { b' with frames := b.frames } :=
    writes_stop_dict closer.2 hg.frames rfl hget rfl
  refine .cons hwrite (.pure (gives_opened hg rfl (fun _ _ => rfl) hget
    fun later depth hslot hchildren => ?_))
  have hmap : (Entries.ofList more).mapM (fun e => (e.1, ·) <$> resolveWithin later depth e.2) =
      .ok (Entries.ofList es) := by
    refine mapM_ok ((forall₂_ofList hall).imp fun p e ⟨hkey, hdenotes⟩ => ?_)
    rw [hchildren p.2 e.2 hdenotes, hkey]
    rfl
  simp only [resolveWithin, hslot]
  show Value.dict <$> (Entries.ofList more).mapM _ = _
  rw [hmap]
  rfl

end Dicts

/-! ### Phrases -/

mutual

/-- **Phrases**: feeding the tokens of a phrase delivers its meaning. -/
theorem Phrase.yields : (p : Phrase) → {b : Builder schema} → Ordered b.tree b.frames →
    Ready b.tree b.frames → Yields b p.tokens p.value (Gives b)
  | .scalar t, _, _, hready => yields_scalar t hready
  | .string opener parts closer, _, hord, hready => yields_string hord hready opener parts closer
  | .data opener chunks closer, _, hord, hready => yields_data hord hready opener chunks closer
  | .array opener es closer, _, hord, hready =>
    yields_array hready opener es closer
      (es.yields rfl rfl (ordered_opened hord) (get?_opened hord))
  | .dict opener ms closer, _, hord, hready =>
    yields_dict hready opener ms closer
      (ms.yields rfl rfl (ordered_opened hord) (get?_opened hord))

theorem Elements.yields : (es : Elements) → {b : Builder schema} → {f : Frame schema} →
    {fs : List (Frame schema)} → {items : List schema.Item} → b.frames = f :: fs →
    f.kind = .array → Ordered b.tree b.frames → b.tree.get? f.id = some (.seq items) →
    Yields b es.tokens es.values (GivesElements f.id items b)
  | .nil, _, _, _, _, _, _, _, hget => .pure ⟨.refl _ _, [], by simpa using hget, .nil⟩
  | .last v, b, f, fs, items, hf, hkind, hord, hget => by
    have hid : f.id ≠ 0 := Nat.ne_of_gt (hord.bounds f (by simp [hf])).1
    refine (v.yields hord (ready_array hf hkind hid hget)).map fun b' x hgives => ?_
    obtain ⟨hg, item, hslot, hdenotes⟩ := hgives.element hf hord hget
    exact ⟨hg, [item], hslot, .cons hdenotes .nil⟩
  | .cons v comma rest, b, f, fs, items, hf, hkind, hord, hget => by
    have hid : f.id ≠ 0 := Nat.ne_of_gt (hord.bounds f (by simp [hf])).1
    have hlt : f.id < b.tree.size := (hord.bounds f (by simp [hf])).2
    rw [Elements.tokens, Elements.values]
    refine (v.yields hord (ready_array hf hkind hid hget)).bind fun b' x hgives => ?_
    obtain ⟨hg, item, hslot, hdenotes⟩ := hgives.element hf hord hget
    simp only [bind_pure_comp]
    refine .cons (writes_skip comma.2.1) ?_
    have hord' : Ordered b'.tree b'.frames := hg.frames ▸ hord.of_size hg.size
    refine (rest.yields (hg.frames.trans hf) hkind hord' hslot).map
      fun b'' xs ⟨hg', more, hslot', hall⟩ => ?_
    refine ⟨hg.trans hg', item :: more, by simpa using hslot', .cons (hdenotes.grows hlt hg') ?_⟩
    exact hall.imp fun y w hyw => hyw.later hg.size (Nat.le_refl _) fun _ _ _ => rfl

theorem Members.yields : (ms : Members) → {b : Builder schema} → {f : Frame schema} →
    {fs : List (Frame schema)} → {entries : Entries schema.Item} → b.frames = f :: fs →
    f.kind = .dict → Ordered b.tree b.frames → b.tree.get? f.id = some (.custom ⟨entries, none⟩) →
    Yields b ms.tokens ms.entries (GivesMembers f.id entries b)
  | .nil, _, _, _, _, _, _, _, hget => .pure ⟨.refl _ _, [], hget, .nil⟩
  | .last key equals v, b, f, fs, entries, hf, hkind, hord, hget => by
    refine (yields_member hf hkind hord hget key equals fun b hord hready =>
      v.yields hord hready).map fun b' x ⟨hg, item, hslot, hdenotes⟩ => ?_
    exact ⟨hg, [(_, item)], hslot, .cons ⟨rfl, hdenotes⟩ .nil⟩
  | .cons key equals v semicolon rest, b, f, fs, entries, hf, hkind, hord, hget => by
    have hlt : f.id < b.tree.size := (hord.bounds f (by simp [hf])).2
    rw [Members.tokens, Members.entries]
    refine (yields_member hf hkind hord hget key equals fun b hord hready =>
      v.yields hord hready).bind fun b' x ⟨hg, item, hslot, hdenotes⟩ => ?_
    simp only [bind_pure_comp]
    refine .cons (writes_skip semicolon.2.1) ?_
    have hord' : Ordered b'.tree b'.frames := hg.frames ▸ hord.of_size hg.size
    refine (rest.yields (hg.frames.trans hf) hkind hord' hslot).map
      fun b'' xs ⟨hg', more, hslot', hall⟩ => ?_
    refine ⟨hg.trans hg', (_, item) :: more, hslot', .cons ⟨rfl, hdenotes.grows hlt hg'⟩ ?_⟩
    exact hall.imp fun y w ⟨hkey, hyw⟩ =>
      ⟨hkey, hyw.later hg.size (Nat.le_refl _) fun _ _ _ => rfl⟩

end

/-- **Meaning**: a fresh builder computes the meaning of a phrase, as the only child of the root. -/
theorem writeAll_phrase (options : Options) (p : Phrase) :
    match p.value with
    | .error e => writeAll { context := options } p.tokens = .error e
    | .ok v => ∃ b item, writeAll { context := options } p.tokens = .ok b ∧ b.frames = [] ∧
        b.tree.top = [item] ∧ resolve b.tree item = .ok v := by
  have h := p.yields (b := { context := options }) (ordered_nil _) (fun _ hf => by cases hf)
  rcases hv : p.value with e | v
  · rwa [hv] at h
  · rw [hv] at h
    obtain ⟨b, hb, item, hdelivers, hdenotes⟩ := h
    have hroot := hdelivers.slots 0 (Nat.succ_pos _)
    have htop : b.tree.top = [item] := by
      simpa [Tree.get?, Tree.root, holder, give] using hroot
    exact ⟨b, item, hb, hdelivers.frames, htop,
      hdenotes b.tree (fun _ _ _ => rfl) b.tree.size (Nat.sub_le _ _)⟩

lemma treeValue_of_top {tree : Tree schema} {item : schema.Item} {v : Value}
    (htop : tree.top = [item]) (hitem : resolve tree item = .ok v) : treeValue tree = .ok v := by
  rw [treeValue, htop]
  simp only [hitem]
  rfl

end ScanTree.PropertyList
