import ScanTree.Proofs.Tree.Frozen

/-!
The tokens of a tree that is built without hooks.

Every token that is neither skipped nor refused for its nesting stands in the tree once. The open
slots are the way from the root down the last children, so what is written next also comes last in
the tree, and what has been closed is left alone. So the tree holds the tokens in the order of the
writes, while slots are open as well as at the end.
-/

namespace ScanTree

variable {S : Schema}

/-- Children in order with all that is in the slots they refer to: a node is the token that opened
it, its children, and the token that closed it. -/
inductive Tree.Flattens (t : Tree S) : List S.Item → List S.Token → Prop
  | nil : t.Flattens [] []
  | token {token : S.Token} {items : List S.Item} {ts : List S.Token} (h : t.Flattens items ts) :
      t.Flattens (.token token :: items) (token :: ts)
  | node {id : Nat} {n : Node S} {items : List S.Item} {us ts : List S.Token}
      (hget : t.get? id = some (.node n)) (hinside : t.Flattens n.content us)
      (h : t.Flattens items ts) :
      t.Flattens (.tree id :: items) (n.opener.toList ++ us ++ n.closer.toList ++ ts)

namespace Tree.Flattens

variable {t : Tree S} {items items' : List S.Item} {ts us : List S.Token}

/-- There is one way to flatten children at most. -/
lemma unique (h : t.Flattens items ts) (h' : t.Flattens items us) : ts = us := by
  induction h generalizing us with
  | nil =>
    cases h'
    rfl
  | token _ ih =>
    cases h' with
    | token h' => rw [ih h']
  | node hget _ _ ihinside ih =>
    cases h' with
    | node hget' hinside' h' =>
      cases hget.symm.trans hget'
      rw [ihinside hinside', ih h']

lemma append (h : t.Flattens items ts) (h' : t.Flattens items' us) :
    t.Flattens (items ++ items') (ts ++ us) := by
  induction h with
  | nil => exact h'
  | token _ ih => exact .token ih
  | node hget hinside _ _ ih =>
    rw [List.append_assoc]
    exact .node hget hinside ih

end Tree.Flattens

/-- The plan of a classification without any hooks. -/
def bare (classify : S.Token → Role × S.Kind) : Plan S := ⟨classify, fun _ => {}⟩

namespace Builder

variable {plan : Plan S} {b b' : Builder S} {token : S.Token} {kind : S.Kind}
  {frames : List (Frame S)} {last last' items : List S.Item} {ts us vs : List S.Token} {id : Nat}

/-! ### Tokens that are kept -/

/-- A token goes into the tree unless it is skipped or ends what is not innermost. -/
def keeps (plan : Plan S) (b : Builder S) (token : S.Token) : Bool :=
  match (plan.classify token).1, (b.write plan token).result with
  | .skip, _ => false
  | .stop, .error (.unbalanced _) => false
  | .stop, .error (.mismatched _ _) => false
  | _, _ => true

/-- The tokens that are kept when all are written, whether or not one is refused. -/
def kept (plan : Plan S) (b : Builder S) : List S.Token → List S.Token
  | [] => []
  | token :: tokens =>
    if b.keeps plan token then token :: (b.write plan token).state.kept plan tokens
    else (b.write plan token).state.kept plan tokens

/-! ### What is closed -/

/-- A tree that may follow on that of a builder: the slots that are not open are as they were. -/
def Precedes (b : Builder S) (t : Tree S) : Prop :=
  ∀ id, id < b.tree.size → id ≠ 0 → (∀ frame ∈ b.frames, frame.id ≠ id) →
    t.get? id = b.tree.get? id

/-- Children that flatten to the tokens in every tree that may follow. -/
def Settled (b : Builder S) (items : List S.Item) (ts : List S.Token) : Prop :=
  ∀ t, b.Precedes t → t.Flattens items ts

lemma settled_nil : b.Settled [] [] := fun _ _ => .nil

lemma Settled.append (h : b.Settled items ts) (h' : b.Settled last us) :
    b.Settled (items ++ last) (ts ++ us) := fun t ht => (h t ht).append (h' t ht)

/-- What is settled stays so with every write. -/
lemma Settled.write (hb : b.Stacked) (h : b.Settled items ts) (token : S.Token) :
    (b.write plan token).state.Settled items ts := by
  have hne : ∀ {id : Nat} (frames : List (Frame S)), id ≠ 0 → (∀ frame ∈ frames, frame.id ≠ id) →
      id ≠ innermost frames := by
    rintro id (_ | ⟨frame, frames⟩) hid hopen
    · exact hid
    · exact (hopen frame List.mem_cons_self).symm
  refine fun t ht => h t fun id hlt hid hopen => ?_
  have htail : ∀ frame ∈ b.frames.tail, frame.id ≠ id := fun frame hf =>
    hopen frame (List.mem_of_mem_tail hf)
  rw [ht id (by rw [size_write]; omega) hid fun frame hf => ?_,
    get?_write hlt (hne _ hid hopen) fun _ => hne _ hid htail]
  rcases mem_frames_write hb hf with hf | hnew
  · exact hopen frame hf
  · omega

/-! ### The way to the innermost slot -/

/-- What an open node holds before its last children: the token that opened it, and what the other
children flatten to. -/
def Holds (b : Builder S) (id : Nat) (last : List S.Item) (ts : List S.Token) : Prop :=
  ∃ n items us, b.tree.get? id = some (.node n) ∧ n.closer = none ∧ n.content = items ++ last ∧
    b.Settled items us ∧ ts = n.opener.toList ++ us

/-- What the root and some open slots hold before the last children of the innermost one. Each slot
is the last child of the one around it. -/
inductive Spine (b : Builder S) : List (Frame S) → List S.Item → List S.Token → Prop
  | root {last : List S.Item} {ts : List S.Token} (h : b.Holds 0 last ts) : Spine b [] last ts
  | slot {frame : Frame S} {frames : List (Frame S)} {last : List S.Item} {ts us : List S.Token}
      (outer : Spine b frames [.tree frame.id] ts) (h : b.Holds frame.id last us) :
      Spine b (frame :: frames) last (ts ++ us)

lemma Holds.flattens (h : b.Holds id last ts) (hlast : b.tree.Flattens last us) :
    b.tree.Flattens [.tree id] (ts ++ us) := by
  obtain ⟨n, items, ws, hget, hcloser, hcontent, hsettled, rfl⟩ := h
  have hinside := (hsettled b.tree fun _ _ _ _ => rfl).append hlast
  rw [← hcontent] at hinside
  have := Tree.Flattens.node hget hinside .nil
  simpa [hcloser] using this

/-- The tokens of the whole tree end with those of the last children. -/
lemma Spine.flattens (h : b.Spine frames last ts) (hlast : b.tree.Flattens last us) :
    b.tree.Flattens [.tree 0] (ts ++ us) := by
  induction h generalizing us with
  | root h => exact h.flattens hlast
  | slot _ h ih =>
    rw [List.append_assoc]
    exact ih (h.flattens hlast)

def Descending (frames : List (Frame S)) : Prop :=
  frames.Pairwise (fun inner outer => outer.id < inner.id) ∧ ∀ frame ∈ frames, 0 < frame.id

lemma Stacked.frames_descending (h : b.Stacked) : Descending b.frames :=
  ⟨h.descending, fun frame hf => (h.bounds frame hf).1⟩

lemma Descending.tail {frame : Frame S} (h : Descending (frame :: frames)) : Descending frames :=
  ⟨h.1.of_cons, fun g hg => h.2 g (List.mem_cons_of_mem _ hg)⟩

lemma Descending.innermost_lt {frame : Frame S} (h : Descending (frame :: frames)) :
    innermost frames < frame.id := by
  rcases frames with _ | ⟨parent, frames⟩
  · exact h.2 frame List.mem_cons_self
  · exact List.rel_of_pairwise_cons h.1 List.mem_cons_self

/-- **Growth**: where only the innermost slot changes, the tokens grow by what it gains. -/
lemma Spine.grow (h : b.Spine frames last ts) (hframes : Descending frames)
    (hsettled : ∀ {items us}, b.Settled items us → b'.Settled items us)
    (hbelow : ∀ id < innermost frames, b'.tree.get? id = b.tree.get? id)
    (hgrow : ∀ us, b.Holds (innermost frames) last us →
      b'.Holds (innermost frames) last' (us ++ vs)) : b'.Spine frames last' (ts ++ vs) := by
  induction h generalizing last' vs with
  | root h => exact .root (hgrow _ h)
  | @slot frame frames last ts us _ h ih =>
    have hlt := hframes.innermost_lt
    rw [List.append_assoc]
    refine .slot ?_ (hgrow _ h)
    rw [← List.append_nil ts]
    refine ih hframes.tail (fun id hid => hbelow id (Nat.lt_trans hid hlt)) fun us' hus' => ?_
    obtain ⟨n, items, ws, hget, hrest⟩ := hus'
    rw [List.append_nil]
    exact ⟨n, items, ws, (hbelow _ hlt).trans hget, hrest.1, hrest.2.1, hsettled hrest.2.2.1,
      hrest.2.2.2⟩

/-! ### Writes without hooks -/

lemma write_start (hclass : plan.classify token = (.start, kind)) :
    b.write plan token = b.openSlot plan kind token := by rw [write, hclass]

lemma write_stop (hclass : plan.classify token = (.stop, kind)) :
    b.write plan token = b.closeSlot plan kind token := by rw [write, hclass]

lemma write_leaf (hclass : plan.classify token = (.leaf, kind)) :
    b.write plan token = b.leaf plan kind token := by rw [write, hclass]

variable {classify : S.Token → Role × S.Kind}

lemma push_bare (hid : ∀ frame ∈ frames, frame.id ≠ 0) {n : Node S}
    (hget : b.tree.get? (innermost frames) = some (.node n)) (kind : S.Kind) (item : S.Item) :
    (b.push (bare classify) frames kind item).state.tree.get? (innermost frames) =
      some (.node { n with content := n.content ++ [item] }) := by
  rcases frames with _ | ⟨parent, rest⟩
  · cases hget
    rfl
  · have hget : b.tree.get? parent.id = some (.node n) := hget
    simp only [push, hget, bare, Shape.append?]
    exact Tree.get?_set_of_get? (hid parent List.mem_cons_self) hget _

lemma Holds.push (h : b.Holds id last us) {item : S.Item}
    (hget : ∀ n, b.tree.get? id = some (.node n) →
      b'.tree.get? id = some (.node { n with content := n.content ++ [item] }))
    (hsettled : ∀ {items us}, b.Settled items us → b'.Settled items us) :
    b'.Holds id (last ++ [item]) us := by
  obtain ⟨n, items, ws, hn, hcloser, hcontent, hitems, rfl⟩ := h
  refine ⟨_, items, ws, hget n hn, hcloser, ?_, hsettled hitems, rfl⟩
  show n.content ++ [item] = _
  rw [hcontent, List.append_assoc]

lemma Holds.settle (h : b.Holds id last us) (hlast : b.Settled last vs) :
    b.Holds id [] (us ++ vs) := by
  obtain ⟨n, items, ws, hget, hcloser, hcontent, hitems, rfl⟩ := h
  exact ⟨n, items ++ last, ws ++ vs, hget, hcloser, by rw [hcontent, List.append_nil],
    hitems.append hlast, List.append_assoc _ _ _⟩

/-- A leaf comes last in the innermost slot. -/
lemma Spine.leaf (hb : b.Stacked) (h : b.Spine b.frames [] ts)
    (hclass : (bare classify).classify token = (.leaf, kind)) :
    (b.write (bare classify) token).state.Spine b.frames [] (ts ++ [token]) := by
  have hwrite : b.write (bare classify) token =
      b.push (bare classify) b.frames kind (.token token) := write_leaf hclass
  have hframes := hb.frames_descending
  refine h.grow hframes (fun h => h.write hb token) (fun id hid => ?_) fun us hus => ?_
  · rw [hwrite]
    exact get?_push _ _ (Nat.ne_of_lt hid)
  · have hpushed : (b.write (bare classify) token).state.Holds (innermost b.frames)
        ([] ++ [.token token]) us := by
      refine hus.push (fun n hn => ?_) fun h => h.write hb token
      rw [hwrite]
      exact push_bare (fun f hf => Nat.ne_of_gt (hframes.2 f hf)) hn _ _
    exact hpushed.settle fun _ _ => .token .nil

/-- A start makes a slot that is the last child of the one that was innermost. -/
lemma Spine.openSlot (hb : b.Stacked) (h : b.Spine b.frames [] ts)
    (hclass : (bare classify).classify token = (.start, kind)) :
    (b.write (bare classify) token).state.Spine (⟨kind, b.tree.nextId⟩ :: b.frames) []
      (ts ++ [token]) := by
  have hwrite : (b.write (bare classify) token).state =
      ((b.opened (bare classify) kind token).push (bare classify) b.frames kind
        (.tree b.tree.nextId)).state := by
    rw [write_start hclass]
    rfl
  have hframes := hb.frames_descending
  have hlt := hb.innermost_lt
  have hopened : ∀ {id}, id < b.tree.size →
      (b.opened (bare classify) kind token).tree.get? id = b.tree.get? id := get?_opened
  have hne : b.tree.nextId ≠ innermost b.frames := Nat.ne_of_gt hlt
  refine .slot ?_ ⟨⟨some kind, some token, [], none⟩, [], [], ?_, rfl, rfl, settled_nil, rfl⟩
  · rw [← List.append_nil ts]
    refine h.grow hframes (fun h => h.write hb token) (fun id hid => ?_) fun us hus => ?_
    · rw [hwrite, get?_push _ _ (Nat.ne_of_lt hid), hopened (Nat.lt_trans hid hlt)]
    · rw [List.append_nil]
      refine hus.push (fun n hn => ?_) fun h => h.write hb token
      rw [hwrite]
      exact push_bare (fun f hf => Nat.ne_of_gt (hframes.2 f hf)) ((hopened hlt).trans hn) _ _
  · rw [hwrite, get?_push _ _ hne]
    simp [opened, bare, Tree.get?_insert, plainNode]

/-- What an end that fits does: the node gets its closing token. -/
lemma write_stop_bare {frame : Frame S} (hf : b.frames = frame :: frames)
    (hclass : (bare classify).classify token = (.stop, frame.kind)) {n : Node S}
    (hget : b.tree.get? frame.id = some (.node n)) :
    (b.write (bare classify) token).result = .ok () ∧
    (b.write (bare classify) token).state =
      ⟨b.context, b.tree.set frame.id (.node { n with closer := some token }), frames⟩ := by
  rw [write_stop hclass]
  simp only [bare, closeSlot, hf, if_true, endSlot, hget, Outcome.bind, evaluate,
    Outcome.result_addRecord, Outcome.state_addRecord, and_self]

/-- A node that has got its closing token is settled. -/
lemma settled_closed {frame : Frame S} (hb : b.Stacked) (hf : b.frames = frame :: frames)
    (h : b.Holds frame.id [] us) (hclass : (bare classify).classify token = (.stop, frame.kind)) :
    (b.write (bare classify) token).state.Settled [.tree frame.id] (us ++ [token]) := by
  obtain ⟨n, items, ws, hget, -, hcontent, hitems, rfl⟩ := h
  have hframes := hb.frames_descending
  have hbounds := hb.bounds frame (by rw [hf]; exact List.mem_cons_self)
  have hne := Nat.ne_of_gt hbounds.1
  rw [hf] at hframes
  obtain ⟨-, hwrite⟩ := write_stop_bare hf hclass hget
  intro t ht
  have hslot : t.get? frame.id = some (.node { n with closer := some token }) := by
    rw [ht frame.id (by rw [hwrite]; simpa using hbounds.2) hne fun g hg => ?_, hwrite]
    · exact Tree.get?_set_of_get? hne hget _
    · rw [hwrite] at hg
      exact Nat.ne_of_lt (List.rel_of_pairwise_cons hframes.1 hg)
  have hinside : t.Flattens items ws := hitems.write hb token t ht
  rw [List.append_nil] at hcontent
  rw [← hcontent] at hinside
  simpa using Tree.Flattens.node hslot hinside .nil

/-- An end that fits makes the innermost slot a settled child of the one around it. -/
lemma Spine.closeSlot {frame : Frame S} (hb : b.Stacked) (hf : b.frames = frame :: frames)
    (h : b.Spine (frame :: frames) [] ts)
    (hclass : (bare classify).classify token = (.stop, frame.kind)) :
    (b.write (bare classify) token).result = .ok () ∧
    (b.write (bare classify) token).state.Spine frames [] (ts ++ [token]) := by
  have hframes := hb.frames_descending
  rw [hf] at hframes
  have hlt := hframes.innermost_lt
  cases h with
  | @slot _ _ _ ts us outer hin =>
    have hclosed := settled_closed hb hf hin hclass
    obtain ⟨n, -, -, hget, -⟩ := hin
    obtain ⟨hresult, hwrite⟩ := write_stop_bare hf hclass hget
    have hother : ∀ {id}, id ≠ frame.id →
        (b.write (bare classify) token).state.tree.get? id = b.tree.get? id := fun hne => by
      rw [hwrite]
      exact Tree.get?_set_of_ne _ _ hne
    refine ⟨hresult, ?_⟩
    rw [List.append_assoc]
    refine outer.grow hframes.tail (fun h => h.write hb token)
      (fun id hid => hother (Nat.ne_of_lt (Nat.lt_trans hid hlt))) fun ws hws => ?_
    obtain ⟨m, items, xs, hget, hcloser, hcontent, hitems, rfl⟩ := hws
    have hparent : (b.write (bare classify) token).state.Holds (innermost frames) [.tree frame.id]
        (m.opener.toList ++ xs) :=
      ⟨m, items, xs, (hother (Nat.ne_of_lt hlt)).trans hget, hcloser, hcontent,
        hitems.write hb token, rfl⟩
    exact hparent.settle hclosed

/-- **Step**: with every write the tokens of the way down grow by the token, if it is kept. -/
lemma Spine.write (hb : b.Stacked) (h : b.Spine b.frames [] ts) (token : S.Token) :
    let b' := (b.write (bare classify) token).state
    b'.Spine b'.frames [] (ts ++ if b.keeps (bare classify) token then [token] else []) := by
  intro b'
  -- A token that changes nothing is not kept.
  have hrefused : b.keeps (bare classify) token = false → b' = b →
      b'.Spine b'.frames [] (ts ++ if b.keeps (bare classify) token then [token] else []) := by
    intro hkeeps hsame
    rw [hkeeps, hsame]
    simpa using h
  rcases hclass : (bare classify).classify token with ⟨_ | _ | _ | _, kind⟩
  · have hframes : b'.frames = ⟨kind, b.tree.nextId⟩ :: b.frames := by
      show (b.write (bare classify) token).state.frames = _
      rw [write_start hclass, frames_openSlot]
    have hkeeps : b.keeps (bare classify) token = true := by simp [keeps, hclass]
    rw [hkeeps, if_pos rfl, hframes]
    exact h.openSlot hb hclass
  · by_cases hfit : b.kinds.head? = some kind
    · rcases hf : b.frames with _ | ⟨frame, frames⟩
      · simp [kinds, hf] at hfit
      · obtain rfl : frame.kind = kind := by simpa [kinds, hf] using hfit
        rw [hf] at h
        obtain ⟨hresult, hspine⟩ := h.closeSlot hb hf hclass
        have hframes : b'.frames = frames := by
          show (b.write (bare classify) token).state.frames = _
          rw [write_stop hclass, frames_closeSlot hf rfl]
        have hkeeps : b.keeps (bare classify) token = true := by simp [keeps, hclass, hresult]
        rw [hkeeps, if_pos rfl, hframes]
        exact hspine
    · have hwrite := write_stop (b := b) hclass
      rw [closeSlot_of_ne hfit] at hwrite
      refine hrefused ?_ (congrArg Outcome.state hwrite)
      rcases hhead : b.kinds.head? with _ | top <;> simp [keeps, hclass, hwrite, hhead]
  · have hsame : b' = b := by
      show (b.write (bare classify) token).state = b
      rw [Builder.write, hclass]
    exact hrefused (by simp [keeps, hclass]) hsame
  · have hframes : b'.frames = b.frames := by
      show (b.write (bare classify) token).state.frames = _
      rw [write_leaf hclass, frames_leaf]
    have hkeeps : b.keeps (bare classify) token = true := by simp [keeps, hclass]
    rw [hkeeps, if_pos rfl, hframes]
    exact h.leaf hb hclass

/-- **Run**: after some writes the way down holds the tokens that were kept. -/
lemma Spine.after (hb : b.Stacked) (h : b.Spine b.frames [] ts) (tokens : List S.Token) :
    let b' := b.after (bare classify) tokens
    b'.Spine b'.frames [] (ts ++ b.kept (bare classify) tokens) := by
  induction tokens generalizing b ts with
  | nil =>
    show b.Spine b.frames [] (ts ++ [])
    rwa [List.append_nil]
  | cons token tokens ih =>
    have hb' : (b.write (bare classify) token).state.Stacked := hb.write token
    have := ih hb' (h.write hb token)
    rw [List.append_assoc] at this
    rw [after_cons, kept]
    cases hkeeps : b.keeps (bare classify) token <;> simpa [hkeeps] using this

/-- **Nothing is lost, doubled or moved**: without hooks, after any writes, refused ones included
and with slots open or not, the tree flattens from its root to the tokens that were kept, in the
order of the writes, and to nothing else. -/
theorem flattens_to_kept (classify : S.Token → Role × S.Kind) (context : S.Context)
    (tokens : List S.Token) (ts : List S.Token) :
    let b : Builder S := { context }
    (b.after (bare classify) tokens).tree.Flattens [.tree 0] ts ↔
      ts = b.kept (bare classify) tokens := by
  intro b
  have hstart : b.Spine b.frames [] [] :=
    .root ⟨⟨none, none, [], none⟩, [], [], rfl, rfl, rfl, settled_nil, rfl⟩
  have hspine : (b.after (bare classify) tokens).Spine _ [] _ :=
    hstart.after (stacked_start context) tokens
  have hflat := hspine.flattens .nil
  rw [List.nil_append, List.append_nil] at hflat
  constructor
  · exact fun h => h.unique hflat
  · rintro rfl
    exact hflat

end Builder

end ScanTree
