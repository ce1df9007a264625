import ScanTree.Proofs.Tree.Frames

/-!
A group of tokens between a start and its end gives one item to its parent.

Open slots have ascending numbers, so what is written inside a group reaches the slot of the group
and newer ones only. The parent changes once: at the start, or at the end for kinds that have an
evaluator.
-/

namespace ScanTree

variable {S : Schema}

/-- The number of the slot that takes the next child. -/
def innermost (frames : List (Frame S)) : Nat := frames.head?.elim 0 Frame.id

/-- What one child makes of the slot that takes it: the work of the push hook of its kind, or else
the child at the end of its children. -/
def Takes (plan : Plan S) (parents : List (Frame S)) (context : S.Context) (kind : S.Kind)
    (item : S.Item) (old new : Shape S) : Prop :=
  match parents.head?.bind fun frame => (plan.handler frame.kind).push with
  | some hook => (hook context old kind item).result = .ok () ∧
      (hook context old kind item).state.2 = new
  | none => old.append? item = some new

lemma Outcome.exists_of_bind {σ α β : Type} {o : Outcome σ α} {next : σ → α → Outcome σ β} {r : β}
    (h : (o.bind next).result = .ok r) :
    ∃ a, o.result = .ok a ∧ (next o.state a).result = .ok r := by
  unfold Outcome.bind at h
  rcases ho : o.result with e | a
  · rw [ho] at h
    cases h
  · rw [ho] at h
    exact ⟨a, rfl, h⟩

namespace Tree

variable {t : Tree S} {id : Nat} {old : Shape S}

lemma lt_size_of_get? (h : t.get? id = some old) : id < t.size := by
  cases id with
  | zero => simp [size]
  | succ id =>
    obtain ⟨hlt, -⟩ := Array.getElem?_eq_some_iff.1 (show t.slots[id]? = some old from h)
    simpa [size] using hlt

lemma get?_set_of_get? (hid : id ≠ 0) (h : t.get? id = some old) (shape : Shape S) :
    (t.set id shape).get? id = some shape := by
  obtain ⟨id, rfl⟩ := Nat.exists_eq_succ_of_ne_zero hid
  have hlt : id < t.slots.size := by simpa [size] using lt_size_of_get? h
  simp [set, get?, hlt]

end Tree

namespace Builder

variable {plan : Plan S} {b b' : Builder S} {kind : S.Kind} {token : S.Token}

/-! ### What a child changes -/

lemma get?_push (parents : List (Frame S)) (item : S.Item) {id : Nat} (h : id ≠ innermost parents) :
    (b.push plan parents kind item).state.tree.get? id = b.tree.get? id := by
  rcases parents with _ | ⟨parent, rest⟩
  · obtain ⟨id, rfl⟩ := Nat.exists_eq_succ_of_ne_zero h
    rfl
  · have h : id ≠ parent.id := h
    unfold push
    dsimp only
    split
    · rfl
    · split
      · exact Tree.get?_set_of_ne _ _ h
      · split
        · exact Tree.get?_set_of_ne _ _ h
        · rfl

@[simp] lemma size_push (parents : List (Frame S)) (item : S.Item) :
    (b.push plan parents kind item).state.tree.size = b.tree.size := by
  rcases parents with _ | ⟨parent, rest⟩
  · rfl
  · unfold push
    dsimp only
    split
    · rfl
    · split
      · exact Tree.size_set _ _ _
      · split
        · exact Tree.size_set _ _ _
        · rfl

/-- A child that is not refused is taken once. -/
lemma takes_of_push {parents : List (Frame S)} {item : S.Item}
    (hid : ∀ frame ∈ parents, frame.id ≠ 0)
    (h : (b.push plan parents kind item).result = .ok ()) :
    ∃ old new, b.tree.get? (innermost parents) = some old ∧
      Takes plan parents b.context kind item old new ∧
      (b.push plan parents kind item).state.tree.get? (innermost parents) = some new := by
  rcases parents with _ | ⟨parent, rest⟩
  · exact ⟨_, _, rfl, rfl, rfl⟩
  · have hne := hid parent List.mem_cons_self
    show ∃ old new, b.tree.get? parent.id = some old ∧
      Takes plan (parent :: rest) b.context kind item old new ∧
      (b.push plan (parent :: rest) kind item).state.tree.get? parent.id = some new
    unfold push at h ⊢
    dsimp only at h ⊢
    rcases hget : b.tree.get? parent.id with _ | old
    · simp [hget] at h
    · rcases hhook : (plan.handler parent.kind).push with _ | hook
      · rcases happend : old.append? item with _ | new
        · simp [hget, hhook, happend] at h
        · refine ⟨old, new, rfl, ?_, ?_⟩
          · simp [Takes, hhook, happend]
          · simp only [happend]
            exact Tree.get?_set_of_get? hne hget new
      · refine ⟨old, (hook b.context old kind item).state.2, rfl, ?_,
          Tree.get?_set_of_get? hne hget _⟩
        simp only [hget, hhook] at h
        simp [Takes, hhook, h]

/-! ### What a write changes -/

/-- Open slots are numbered from the outermost one inwards, and are there. -/
structure Stacked (b : Builder S) : Prop where
  descending : b.frames.Pairwise fun inner outer => outer.id < inner.id
  bounds : ∀ frame ∈ b.frames, 0 < frame.id ∧ frame.id < b.tree.size

lemma Stacked.innermost_lt (h : b.Stacked) : innermost b.frames < b.tree.size := by
  unfold innermost
  rcases hf : b.frames with _ | ⟨frame, frames⟩
  · simp [Tree.size]
  · exact (h.bounds frame (by simp [hf])).2

/-- The parent of an open slot is another one. -/
lemma Stacked.innermost_ne (h : b.Stacked) {frame : Frame S} {frames : List (Frame S)}
    (hf : b.frames = frame :: frames) : innermost frames ≠ frame.id := by
  have hdescending := h.descending
  rw [hf, List.pairwise_cons] at hdescending
  rcases frames with _ | ⟨parent, frames⟩
  · exact (Nat.ne_of_gt (h.bounds frame (by simp [hf])).1).symm
  · exact Nat.ne_of_lt (hdescending.1 parent List.mem_cons_self)

lemma Stacked.of_size (h : b.Stacked) (hframes : b'.frames = b.frames)
    (hsize : b.tree.size ≤ b'.tree.size) : b'.Stacked := by
  refine ⟨by rw [hframes]; exact h.descending, fun frame hf => ?_⟩
  rw [hframes] at hf
  obtain ⟨hpos, hlt⟩ := h.bounds frame hf
  exact ⟨hpos, Nat.lt_of_lt_of_le hlt hsize⟩

lemma size_opened : (b.opened plan kind token).tree.size = b.tree.size + 1 := by
  simp [opened]

lemma get?_opened {id : Nat} (h : id < b.tree.size) :
    (b.opened plan kind token).tree.get? id = b.tree.get? id := by
  have hne : id ≠ b.tree.nextId := Nat.ne_of_lt h
  simp [opened, Tree.get?_insert, hne]

lemma size_openSlot : (b.openSlot plan kind token).state.tree.size = b.tree.size + 1 := by
  obtain ⟨record, h⟩ := openSlot_eq plan b kind token
  rw [h, Outcome.state_addRecord]
  split_ifs
  · exact size_opened
  · rw [size_push, size_opened]

lemma get?_openSlot {id : Nat} (hid : id < b.tree.size) (hne : id ≠ innermost b.frames) :
    (b.openSlot plan kind token).state.tree.get? id = b.tree.get? id := by
  obtain ⟨record, h⟩ := openSlot_eq plan b kind token
  rw [h, Outcome.state_addRecord]
  split_ifs
  · exact get?_opened hid
  · rw [get?_push _ _ hne, get?_opened hid]

lemma Stacked.openSlot (h : b.Stacked) : (b.openSlot plan kind token).state.Stacked := by
  constructor
  · rw [frames_openSlot, List.pairwise_cons]
    exact ⟨fun frame hf => (h.bounds frame hf).2, h.descending⟩
  · intro frame hf
    rw [frames_openSlot, List.mem_cons] at hf
    rw [size_openSlot]
    rcases hf with rfl | hf
    · exact ⟨Nat.succ_pos _, Nat.lt_succ_self _⟩
    · obtain ⟨hpos, hlt⟩ := h.bounds frame hf
      exact ⟨hpos, Nat.lt_succ_of_lt hlt⟩

@[simp] lemma size_endSlot (frame : Frame S) :
    (b.endSlot plan frame token).state.tree.size = b.tree.size := by
  unfold endSlot
  split
  · rfl
  · exact Tree.size_set _ _ _
  · split
    · rfl
    · exact Tree.size_set _ _ _

lemma get?_endSlot (frame : Frame S) {id : Nat} (h : id ≠ frame.id) :
    (b.endSlot plan frame token).state.tree.get? id = b.tree.get? id := by
  unfold endSlot
  split
  · rfl
  · exact Tree.get?_set_of_ne _ _ h
  · split
    · rfl
    · exact Tree.get?_set_of_ne _ _ h

@[simp] lemma size_evaluate (frame : Frame S) :
    (b.evaluate plan frame).state.tree.size = b.tree.size := by
  unfold evaluate
  split
  · rfl
  · rfl
  · rw [Outcome.state_bind]
    split
    · rfl
    · exact size_push _ _

lemma get?_evaluate (frame : Frame S) {id : Nat} (h : id ≠ innermost b.frames) :
    (b.evaluate plan frame).state.tree.get? id = b.tree.get? id := by
  unfold evaluate
  split
  · rfl
  · rfl
  · rw [Outcome.state_bind]
    split
    · rfl
    · exact get?_push _ _ h

lemma size_closeSlot : (b.closeSlot plan kind token).state.tree.size = b.tree.size := by
  unfold closeSlot
  split
  · rfl
  · split_ifs
    · rw [Outcome.state_addRecord, Outcome.state_bind]
      split
      · exact size_endSlot _
      · rw [size_evaluate, size_endSlot]
    · rfl

lemma get?_closeSlot {frame : Frame S} {frames : List (Frame S)} (hf : b.frames = frame :: frames)
    {id : Nat} (hne : id ≠ frame.id) (hne' : id ≠ innermost frames) :
    (b.closeSlot plan kind token).state.tree.get? id = b.tree.get? id := by
  unfold closeSlot
  rw [hf]
  dsimp only
  split_ifs
  · rw [Outcome.state_addRecord, Outcome.state_bind]
    split
    · exact get?_endSlot _ hne
    · rw [get?_evaluate _ (by rwa [frames_endSlot]), get?_endSlot _ hne]
  · rfl

lemma get?_closeSlot_of_eval {frame : Frame S} {frames : List (Frame S)}
    (hf : b.frames = frame :: frames) (heval : (plan.handler frame.kind).eval = none) {id : Nat}
    (hne : id ≠ frame.id) :
    (b.closeSlot plan kind token).state.tree.get? id = b.tree.get? id := by
  unfold closeSlot
  rw [hf]
  dsimp only
  split_ifs
  · rw [Outcome.state_addRecord, Outcome.state_bind]
    split
    · exact get?_endSlot _ hne
    · rw [evaluate, heval, get?_endSlot _ hne]
  · rfl

lemma size_leaf : (b.leaf plan kind token).state.tree.size = b.tree.size := by
  unfold leaf
  split
  · exact size_push _ _
  · rfl
  · rw [Outcome.state_bind]
    split
    · rfl
    · exact size_push _ _

lemma get?_leaf {id : Nat} (h : id ≠ innermost b.frames) :
    (b.leaf plan kind token).state.tree.get? id = b.tree.get? id := by
  unfold leaf
  split
  · exact get?_push _ _ h
  · rfl
  · rw [Outcome.state_bind]
    split
    · rfl
    · exact get?_push _ _ h

lemma Stacked.closeSlot (h : b.Stacked) : (b.closeSlot plan kind token).state.Stacked := by
  by_cases hfit : b.kinds.head? = some kind
  · rcases hf : b.frames with _ | ⟨frame, frames⟩
    · simp [kinds, hf] at hfit
    · have hkind : frame.kind = kind := by simpa [kinds, hf] using hfit
      have hdescending := h.descending
      rw [hf] at hdescending
      refine ⟨?_, fun g hg => ?_⟩
      · rw [frames_closeSlot hf hkind]
        exact hdescending.of_cons
      · rw [frames_closeSlot hf hkind] at hg
        rw [size_closeSlot]
        exact h.bounds g (by rw [hf]; exact List.mem_cons_of_mem _ hg)
  · rw [closeSlot_of_ne hfit]
    exact h

/-- **Step**: open slots stay numbered inwards, whether or not the write is refused. -/
lemma Stacked.write (h : b.Stacked) (token : S.Token) : (b.write plan token).state.Stacked := by
  unfold Builder.write
  rcases plan.classify token with ⟨_ | _ | _ | _, kind⟩
  · exact h.openSlot
  · exact h.closeSlot
  · exact h
  · exact h.of_size frames_leaf (Nat.le_of_eq size_leaf.symm)

lemma Stacked.after (h : b.Stacked) (tokens : List S.Token) : (b.after plan tokens).Stacked := by
  induction tokens generalizing b with
  | nil => exact h
  | cons token tokens ih => exact ih (h.write token)

lemma stacked_start (context : S.Context) : ({ context } : Builder S).Stacked :=
  ⟨.nil, by simp⟩

/-! ### Groups -/

/-- Starts and ends pair up by kind, with leaves and skipped tokens anywhere. -/
inductive Bracketed (plan : Plan S) : List S.Token → Prop
  | nil : Bracketed plan []
  | single {token : S.Token} {tokens : List S.Token}
      (h : (plan.classify token).1 = .skip ∨ (plan.classify token).1 = .leaf)
      (hrest : Bracketed plan tokens) : Bracketed plan (token :: tokens)
  | group {opener closer : S.Token} {kind : S.Kind} {inside rest : List S.Token}
      (hopener : plan.classify opener = (.start, kind))
      (hcloser : plan.classify closer = (.stop, kind)) (hinside : Bracketed plan inside)
      (hrest : Bracketed plan rest) : Bracketed plan (opener :: (inside ++ closer :: rest))

def Accepts (plan : Plan S) : Builder S → List S.Token → Prop
  | _, [] => True
  | b, token :: tokens =>
    (b.write plan token).result = .ok () ∧ Accepts plan (b.write plan token).state tokens

lemma accepts_append {ts us : List S.Token} : b.Accepts plan (ts ++ us) ↔
    b.Accepts plan ts ∧ (b.after plan ts).Accepts plan us := by
  induction ts generalizing b with
  | nil => simp [Accepts]
  | cons t ts ih => simp [Accepts, ih, and_assoc]

/-- What some writes leave alone: the slots that were open stay so, and of those that were there
only the innermost may change. -/
structure Spares (b b' : Builder S) : Prop where
  frames : ∃ inner, b'.frames = inner ++ b.frames
  size : b.tree.size ≤ b'.tree.size
  get? : ∀ id < b.tree.size, id ≠ innermost b.frames → b'.tree.get? id = b.tree.get? id

lemma Spares.refl (b : Builder S) : Spares b b := ⟨⟨[], rfl⟩, Nat.le_refl _, fun _ _ _ => rfl⟩

lemma Spares.trans {b'' : Builder S} (h : Spares b b') (hframes : b'.frames = b.frames)
    (h' : Spares b' b'') : Spares b b'' := by
  refine ⟨by rw [← hframes]; exact h'.frames, Nat.le_trans h.size h'.size, fun id hid hne => ?_⟩
  rw [h'.get? id (Nat.lt_of_lt_of_le hid h.size) (by rwa [hframes]), h.get? id hid hne]

lemma spares_single (h : (plan.classify token).1 = .skip ∨ (plan.classify token).1 = .leaf) :
    Spares b (b.write plan token).state ∧ (b.write plan token).state.frames = b.frames := by
  unfold Builder.write
  rcases hclass : plan.classify token with ⟨role, kind⟩
  rw [hclass] at h
  rcases h with rfl | rfl
  · exact ⟨.refl b, rfl⟩
  · exact ⟨⟨⟨[], frames_leaf⟩, Nat.le_of_eq size_leaf.symm, fun id _ hne => get?_leaf hne⟩,
      frames_leaf⟩

/-- Inside a group even the slot that was innermost before is spared. -/
lemma Spares.inside (h : Spares (b.openSlot plan kind token).state b') :
    (∃ inner, b'.frames = inner ++ ⟨kind, b.tree.nextId⟩ :: b.frames) ∧ b.tree.size ≤ b'.tree.size ∧
      ∀ id < b.tree.size, b'.tree.get? id = (b.openSlot plan kind token).state.tree.get? id := by
  obtain ⟨inner, hframes⟩ := h.frames
  rw [frames_openSlot] at hframes
  have hsize := h.size
  rw [size_openSlot] at hsize
  refine ⟨⟨inner, hframes⟩, Nat.le_of_succ_le hsize, fun id hid => ?_⟩
  have hid' : id < (b.openSlot plan kind token).state.tree.size := by
    rw [size_openSlot]
    exact Nat.lt_succ_of_lt hid
  refine h.get? id hid' ?_
  rw [frames_openSlot]
  exact Nat.ne_of_lt hid

/-- An end that fits closes the slot of its group. -/
lemma spares_group {opener : S.Token} (closer : S.Token) {mid : Builder S}
    (h : Spares (b.openSlot plan kind opener).state mid)
    (hframes : mid.frames = (b.openSlot plan kind opener).state.frames) :
    Spares b (mid.closeSlot plan kind closer).state ∧
      (mid.closeSlot plan kind closer).state.frames = b.frames := by
  rw [frames_openSlot] at hframes
  obtain ⟨-, hsize, hget⟩ := h.inside
  have hclosed : (mid.closeSlot plan kind closer).state.frames = b.frames :=
    frames_closeSlot hframes rfl
  refine ⟨⟨⟨[], hclosed⟩, by rwa [size_closeSlot], fun id hid hne => ?_⟩, hclosed⟩
  rw [get?_closeSlot hframes (Nat.ne_of_lt hid) hne, hget id hid, get?_openSlot hid hne]

/-- The first tokens of a run that begins with a group end before the group, in it or after it. -/
lemma prefix_group {α : Type} {o c : α} {inside rest first : List α}
    (h : first <+: o :: (inside ++ c :: rest)) :
    first = [] ∨ (∃ part, part <+: inside ∧ first = o :: part) ∨
      ∃ more, more <+: rest ∧ first = o :: (inside ++ [c]) ++ more := by
  rcases first with _ | ⟨x, first⟩
  · exact .inl rfl
  · obtain ⟨rfl, h'⟩ := List.cons_prefix_cons.1 h
    rcases List.prefix_or_prefix_of_prefix h' (List.prefix_append _ _) with hin | ⟨more, rfl⟩
    · exact .inr (.inl ⟨first, hin, rfl⟩)
    · rcases more with _ | ⟨y, more⟩
      · exact .inr (.inl ⟨inside, List.prefix_rfl, by rw [List.append_nil]⟩)
      · obtain ⟨rfl, hmore⟩ := List.cons_prefix_cons.1 ((List.prefix_append_right_inj _).1 h')
        exact .inr (.inr ⟨more, hmore, by simp⟩)

/-- **Frame**: from any of the first tokens of a bracketed run on, at most the innermost of the
slots that were there has changed, and after all of them the same slots are open as before. -/
lemma Bracketed.spares {tokens : List S.Token} (h : Bracketed plan tokens) (b : Builder S) :
    (∀ first, first <+: tokens → Spares b (b.after plan first)) ∧
      (b.after plan tokens).frames = b.frames := by
  induction h generalizing b with
  | nil =>
    refine ⟨fun first hfirst => ?_, rfl⟩
    rw [List.prefix_nil.1 hfirst]
    exact .refl b
  | single hrole _ ih =>
    obtain ⟨hspares, hframes⟩ := spares_single (b := b) hrole
    obtain ⟨ihfirst, ihframes⟩ := ih (b.write plan _).state
    refine ⟨fun first hfirst => ?_, ihframes.trans hframes⟩
    rcases first with _ | ⟨token, first⟩
    · exact .refl b
    · obtain ⟨rfl, hfirst'⟩ := List.cons_prefix_cons.1 hfirst
      exact hspares.trans hframes (ihfirst first hfirst')
  | @group opener closer kind inside rest hopener hcloser _ _ ihinside ihrest =>
    have hopen : (b.write plan opener).state = (b.openSlot plan kind opener).state := by
      rw [Builder.write, hopener]
    obtain ⟨hinside, hframes⟩ := ihinside (b.write plan opener).state
    rw [hopen] at hinside hframes
    obtain ⟨hspares, hclosed⟩ := spares_group closer (hinside inside List.prefix_rfl) hframes
    have hclose : (b.after plan (opener :: (inside ++ [closer]))) =
        (((b.openSlot plan kind opener).state.after plan inside).closeSlot plan kind
          closer).state := by
      rw [after_cons, after_append, hopen, after_cons, after_nil, Builder.write, hcloser]
    rw [← hclose] at hspares hclosed
    obtain ⟨ihfirst, ihframes⟩ := ihrest (b.after plan (opener :: (inside ++ [closer])))
    have hsplit : opener :: (inside ++ closer :: rest) =
        opener :: (inside ++ [closer]) ++ rest := by
      simp
    refine ⟨fun first hfirst => ?_, by rw [hsplit, after_append, ihframes, hclosed]⟩
    rcases prefix_group hfirst with rfl | ⟨part, hpart, rfl⟩ | ⟨more, hmore, rfl⟩
    · exact .refl b
    · obtain ⟨⟨inner, hinner⟩, hsize, hget⟩ := (hinside part hpart).inside
      rw [after_cons, hopen]
      refine ⟨⟨inner ++ [_], by rw [hinner, List.append_assoc]; rfl⟩, hsize, fun id hid hne => ?_⟩
      rw [hget id hid, get?_openSlot hid hne]
    · rw [after_append]
      exact hspares.trans hclosed (ihfirst more hmore)

/-- A kind without an evaluator is given to its parent when it opens. -/
lemma takes_of_openSlot (hb : b.Stacked) (heval : (plan.handler kind).eval = none)
    (h : (b.openSlot plan kind token).result = .ok ()) :
    ∃ old new, b.tree.get? (innermost b.frames) = some old ∧
      Takes plan b.frames (b.opened plan kind token).context kind (.tree b.tree.size) old new ∧
      (b.openSlot plan kind token).state.tree.get? (innermost b.frames) = some new := by
  obtain ⟨record, hopen⟩ := openSlot_eq plan b kind token
  have hbuffers : (plan.handler kind).buffers = false := by simp [Handler.buffers, heval]
  rw [hbuffers] at hopen
  rw [hopen] at h ⊢
  obtain ⟨old, new, hold, htakes, hnew⟩ := takes_of_push
    (fun frame hf => Nat.ne_of_gt (hb.bounds frame hf).1) h
  rw [get?_opened hb.innermost_lt] at hold
  exact ⟨old, new, hold, htakes, hnew⟩

/-- A kind with an evaluator for subtrees is given to its parent when it closes, as its value. -/
lemma takes_of_closeSlot (hb : b.Stacked) {frame : Frame S} {frames : List (Frame S)}
    (hf : b.frames = frame :: frames) (hkind : frame.kind = kind)
    {f : S.Context → Tree S → Nat → Outcome S.Context S.Value}
    (heval : (plan.handler kind).eval = some (.subtree f))
    (h : (b.closeSlot plan kind token).result = .ok ()) :
    let ended := (({ b with frames } : Builder S).endSlot plan frame token).state
    let found := f ended.context ended.tree frame.id
    ∃ v old new, found.result = .ok v ∧ b.tree.get? (innermost frames) = some old ∧
      Takes plan frames found.state kind (.value v) old new ∧
      (b.closeSlot plan kind token).state.tree.get? (innermost frames) = some new := by
  intro ended found
  have hclose : ∃ record, b.closeSlot plan kind token = .addRecord record
      ((({ b with frames } : Builder S).endSlot plan frame token).bind
        fun b _ => b.evaluate plan frame) :=
    ⟨⟨.trace, "tree builder: close " ++ S.kindName kind⟩, by
      simp only [closeSlot, hf, hkind, if_true]⟩
  obtain ⟨record, hclose⟩ := hclose
  rw [hclose] at h ⊢
  obtain ⟨_, hend, h⟩ := Outcome.exists_of_bind h
  have hframes : ended.frames = frames := frames_endSlot _
  have hevaluate : ended.evaluate plan frame =
      Outcome.bind ⟨{ ended with context := found.state }, found.result, found.log⟩ fun b v =>
        b.push plan b.frames kind (.value v) := by
    simp only [evaluate, hkind, heval]
    rfl
  rw [Outcome.state_addRecord, Outcome.state_bind, hend]
  show ∃ v old new, _ ∧ _ ∧ _ ∧
    (ended.evaluate plan frame).state.tree.get? (innermost frames) = some new
  rw [hevaluate] at h ⊢
  obtain ⟨v, hv, h⟩ := Outcome.exists_of_bind h
  have hparents : ∀ g ∈ frames, g.id ≠ 0 := fun g hg =>
    Nat.ne_of_gt (hb.bounds g (by rw [hf]; exact List.mem_cons_of_mem _ hg)).1
  have hne : innermost frames ≠ frame.id := hb.innermost_ne hf
  obtain ⟨old, new, hold, htakes, hnew⟩ := takes_of_push (by rwa [hframes]) h
  rw [hframes] at hold htakes hnew
  refine ⟨v, old, new, hv, ?_, htakes, ?_⟩
  · rw [← hold]
    exact (get?_endSlot (b := { b with frames }) frame hne).symm
  · rw [Outcome.state_bind, hv]
    rwa [hframes]

/-- Until a kind with an evaluator closes, its parent does not see it. -/
lemma openSlot_of_subtree {f : S.Context → Tree S → Nat → Outcome S.Context S.Value}
    (heval : (plan.handler kind).eval = some (.subtree f)) :
    (b.openSlot plan kind token).state = b.opened plan kind token := by
  obtain ⟨record, hopen⟩ := openSlot_eq plan b kind token
  have hbuffers : (plan.handler kind).buffers = true := by simp [Handler.buffers, heval]
  rw [hopen, Outcome.state_addRecord, if_pos hbuffers]

/-- A kind with an evaluator for leaves cannot be closed. -/
lemma not_ok_closeSlot_of_leaf {frame : Frame S} {frames : List (Frame S)}
    (hf : b.frames = frame :: frames) (hkind : frame.kind = kind)
    {f : S.Context → S.Token → Outcome S.Context S.Value}
    (heval : (plan.handler kind).eval = some (.leaf f)) :
    (b.closeSlot plan kind token).result ≠ .ok () := by
  intro h
  simp only [closeSlot, hf, hkind, if_true, Outcome.result_addRecord] at h
  obtain ⟨_, -, h⟩ := Outcome.exists_of_bind h
  simp [evaluate, hkind, heval] at h

/-- **One item**: a bracketed run between a start and an end of one kind, none of which is refused,
leaves the same slots open as before, and of the slots that were there changes the innermost only.
That one takes one child: at the start the new slot, if the kind has no evaluator, and at the end
the value of the slot, if the kind has one. At all other times it stays as it is. -/
theorem group_gives_item (plan : Plan S) (context : S.Context) (before : List S.Token)
    {opener closer : S.Token} {kind : S.Kind} {inside : List S.Token}
    (hopener : plan.classify opener = (.start, kind))
    (hcloser : plan.classify closer = (.stop, kind)) (hinside : Bracketed plan inside)
    (hok : (({ context } : Builder S).after plan before).Accepts plan
      (opener :: (inside ++ [closer]))) :
    let b := ({ context } : Builder S).after plan before
    let parent := innermost b.frames
    let started := (b.write plan opener).state
    let last := started.after plan inside
    let done := (last.write plan closer).state
    done.frames = b.frames ∧
    (∀ id < b.tree.size, id ≠ parent → done.tree.get? id = b.tree.get? id) ∧
    ∃ old new, b.tree.get? parent = some old ∧ done.tree.get? parent = some new ∧
      match (plan.handler kind).eval with
      | none =>
        Takes plan b.frames (b.opened plan kind opener).context kind (.tree b.tree.size) old new ∧
        ∀ first, first <+: inside → (started.after plan first).tree.get? parent = some new
      | some (.subtree f) =>
        (∀ first, first <+: inside → (started.after plan first).tree.get? parent = some old) ∧
        let ended := (({ last with frames := b.frames } : Builder S).endSlot plan
          ⟨kind, b.tree.size⟩ closer).state
        let found := f ended.context ended.tree b.tree.size
        ∃ v, found.result = .ok v ∧ Takes plan b.frames found.state kind (.value v) old new
      | some (.leaf _) => False := by
  intro b parent started last done
  have hb : b.Stacked := (stacked_start context).after before
  have hopen : b.write plan opener = b.openSlot plan kind opener := by rw [write, hopener]
  have hclose : last.write plan closer = last.closeSlot plan kind closer := by rw [write, hcloser]
  have hstarted : started = (b.openSlot plan kind opener).state := congrArg Outcome.state hopen
  have hdone : done = (last.closeSlot plan kind closer).state := congrArg Outcome.state hclose
  obtain ⟨hopened, haccepted⟩ := hok
  obtain ⟨-, hclosed, -⟩ := accepts_append.1 haccepted
  change (b.write plan opener).result = .ok () at hopened
  change (last.write plan closer).result = .ok () at hclosed
  rw [hopen] at hopened
  rw [hclose] at hclosed
  obtain ⟨hfirst, hframes⟩ := hinside.spares started
  have hspared : ∀ first, first <+: inside →
      Spares (b.openSlot plan kind opener).state (started.after plan first) := by
    rw [← hstarted]
    exact hfirst
  have hlast : last.frames = ⟨kind, b.tree.size⟩ :: b.frames := by
    rw [hframes, hstarted, frames_openSlot]
    rfl
  obtain ⟨hspares, hsame⟩ := spares_group closer (hspared inside List.prefix_rfl)
    (by rw [hframes, hstarted])
  rw [← hdone] at hspares hsame
  have hinner : ∀ first, first <+: inside →
      (started.after plan first).tree.get? parent = started.tree.get? parent := by
    intro first h
    rw [(hspared first h).inside.2.2 parent hb.innermost_lt, hstarted]
  have hparent : parent ≠ b.tree.size := Nat.ne_of_lt hb.innermost_lt
  refine ⟨hsame, hspares.get?, ?_⟩
  rcases heval : (plan.handler kind).eval with _ | f | f
  · obtain ⟨old, new, hold, htakes, hnew⟩ := takes_of_openSlot hb heval hopened
    rw [← hstarted] at hnew
    refine ⟨old, new, hold, ?_, htakes, fun first h => (hinner first h).trans hnew⟩
    rw [hdone, get?_closeSlot_of_eval hlast heval hparent]
    exact (hinner inside List.prefix_rfl).trans hnew
  · exact (not_ok_closeSlot_of_leaf hlast rfl heval hclosed).elim
  · obtain ⟨v, old, new, hv, hold, htakes, hnew⟩ :=
      takes_of_closeSlot ((hb.write opener).after inside) hlast rfl heval hclosed
    rw [← hdone] at hnew
    have hbefore : b.tree.get? parent = started.tree.get? parent := by
      rw [hstarted, openSlot_of_subtree heval, get?_opened hb.innermost_lt]
    rw [hinner inside List.prefix_rfl] at hold
    refine ⟨old, new, hbefore.trans hold, hnew, fun first h => (hinner first h).trans hold,
      v, hv, htakes⟩

open PropertyList in
/-- A string in an array: the array is as before until the string closes, and then has its value. -/
theorem string_gives_item :
    let inside : List (Token Tag) := [⟨.leaf .chars, "ab", 2, 4⟩]
    let b : Builder schema := ({ context := {} } : Builder schema).after PropertyList.plan
      [⟨.start .array, "(", 0, 1⟩]
    let started := (b.write PropertyList.plan ⟨.start .string, "\"", 1, 2⟩).state
    let done :=
      ((started.after PropertyList.plan inside).write PropertyList.plan
        ⟨.stop .string, "\"", 4, 5⟩).state
    (∀ first, first <+: inside →
      (started.after PropertyList.plan first).tree.get? 1 = some (.seq [])) ∧
    done.tree.get? 1 = some (.seq [.value (.string "ab")]) := by
  intro inside b started done
  have hopener : PropertyList.plan.classify ⟨.start .string, "\"", 1, 2⟩ = (.start, .string) := rfl
  have hcloser : PropertyList.plan.classify ⟨.stop .string, "\"", 4, 5⟩ = (.stop, .string) := rfl
  have hinside : Bracketed PropertyList.plan inside := .single (.inr rfl) .nil
  obtain ⟨-, -, old, new, hold, hnew, hfirst, v, hv, htakes⟩ :=
    group_gives_item PropertyList.plan {} [⟨.start .array, "(", 0, 1⟩] hopener hcloser
      hinside ⟨rfl, rfl, rfl, trivial⟩
  obtain rfl : (.seq [] : Shape schema) = old := Option.some.inj hold
  obtain rfl : (.string "ab" : Value) = v := Except.ok.inj hv
  exact ⟨hfirst, hnew.trans htakes.symm⟩

end Builder

end ScanTree
