import ScanTree.Proofs.Tree.Groups

/-!
What one write does to a tree, case by case.

A write opens a slot, hands its token to the innermost slot, or gives a child to a slot that is open
or to the root. The cases keep what a hook got and what it made of that, refusals included, and what
holds of all trees is proved by going through them.
-/

namespace ScanTree.Builder

variable {S : Schema}

/-- What comes of giving a child to the innermost of some open slots, or to the root. A hook may
change its slot and refuse the child all the same. -/
inductive Given (plan : Plan S) (kind : S.Kind) (item : S.Item) (tree : Tree S) :
    List (Frame S) → Tree S → Except BuildError Unit → Prop
  | root : Given plan kind item tree [] { tree with top := tree.top ++ [item] } (.ok ())
  | refused (parents : List (Frame S)) (e : BuildError) :
      Given plan kind item tree parents tree (.error e)
  | hooked {parent : Frame S} {rest : List (Frame S)} {old : Shape S} {hook}
      (hid : parent.id ≠ 0) (hget : tree.get? parent.id = some old)
      (hhook : (plan.handler parent.kind).push = some hook) (context : S.Context) :
      Given plan kind item tree (parent :: rest)
        (tree.set parent.id (hook context old kind item).state.2)
        (hook context old kind item).result
  | appended {parent : Frame S} {rest : List (Frame S)} {old new : Shape S}
      (hid : parent.id ≠ 0) (hget : tree.get? parent.id = some old)
      (hhook : (plan.handler parent.kind).push = none) (happend : old.append? item = some new) :
      Given plan kind item tree (parent :: rest) (tree.set parent.id new) (.ok ())

/-- What comes of handing a closing token to the slot that it closes. -/
inductive Ended (plan : Plan S) (token : S.Token) (tree : Tree S) (frame : Frame S) :
    Tree S → Except BuildError Unit → Prop
  | kept : Ended plan token tree frame tree (.ok ())
  | closed {n : Node S} (hid : frame.id ≠ 0) (hget : tree.get? frame.id = some (.node n)) :
      Ended plan token tree frame (tree.set frame.id (.node { n with closer := some token }))
        (.ok ())
  | hooked {old : Shape S} {hook} (hid : frame.id ≠ 0) (hget : tree.get? frame.id = some old)
      (hhook : (plan.handler frame.kind).stop = some hook) (context : S.Context) :
      Ended plan token tree frame (tree.set frame.id (hook context old token).state.2)
        (hook context old token).result

def Opens (plan : Plan S) (kind : S.Kind) (token : S.Token) (shape : Shape S) : Prop :=
  match (plan.handler kind).start with
  | none => shape = plainNode kind token
  | some hook => ∃ context, shape = (hook context kind token).1

/-- The tree, the open slots and the result that the write of a token may leave. -/
inductive Written (plan : Plan S) (b : Builder S) (token : S.Token) :
    Tree S → List (Frame S) → Except BuildError Unit → Prop
  | skipped (hclass : (plan.classify token).1 = .skip) :
      Written plan b token b.tree b.frames (.ok ())
  | refused (hclass : (plan.classify token).1 ≠ .start) (e : BuildError) :
      Written plan b token b.tree b.frames (.error e)
  /-- A kind with an evaluator opens. -/
  | detached {kind : S.Kind} {shape : Shape S} (hclass : plan.classify token = (.start, kind))
      (hshape : Opens plan kind token shape) (heval : (plan.handler kind).eval ≠ none) :
      Written plan b token (b.tree.insert shape) (⟨kind, b.tree.nextId⟩ :: b.frames) (.ok ())
  /-- A kind without one opens. -/
  | attached {kind : S.Kind} {shape : Shape S} {tree : Tree S} {result : Except BuildError Unit}
      (hclass : plan.classify token = (.start, kind)) (hshape : Opens plan kind token shape)
      (heval : (plan.handler kind).eval = none)
      (hgiven : Given plan kind (.tree b.tree.nextId) (b.tree.insert shape) b.frames tree result) :
      Written plan b token tree (⟨kind, b.tree.nextId⟩ :: b.frames) result
  /-- A slot closes, and no value of it reaches its parent. -/
  | closed {frame : Frame S} {frames : List (Frame S)} {tree : Tree S}
      {result result' : Except BuildError Unit} (hclass : plan.classify token = (.stop, frame.kind))
      (hframes : b.frames = frame :: frames) (hended : Ended plan token b.tree frame tree result)
      (hresult : result' = .ok () → result = .ok () ∧ (plan.handler frame.kind).eval = none) :
      Written plan b token tree frames result'
  /-- A slot closes, and its value is given to its parent. -/
  | evaluated {frame : Frame S} {frames : List (Frame S)} {mid tree : Tree S}
      {result : Except BuildError Unit} (hclass : plan.classify token = (.stop, frame.kind))
      (hframes : b.frames = frame :: frames) (hended : Ended plan token b.tree frame mid (.ok ()))
      (v : S.Value) (hgiven : Given plan frame.kind (.value v) mid frames tree result) :
      Written plan b token tree frames result
  /-- A leaf, as it came or evaluated. -/
  | leaf {kind : S.Kind} {item : S.Item} {tree : Tree S} {result : Except BuildError Unit}
      (hclass : plan.classify token = (.leaf, kind))
      (hitem : item = .token token ∨ ∃ v, item = .value v)
      (hgiven : Given plan kind item b.tree b.frames tree result) :
      Written plan b token tree b.frames result

variable {plan : Plan S} {b : Builder S} {kind : S.Kind} {token : S.Token}

lemma given_push (plan : Plan S) (b : Builder S) {parents : List (Frame S)}
    (hid : ∀ f ∈ parents, f.id ≠ 0) (kind : S.Kind) (item : S.Item) :
    Given plan kind item b.tree parents (b.push plan parents kind item).state.tree
      (b.push plan parents kind item).result := by
  rcases parents with _ | ⟨parent, rest⟩
  · exact .root
  · have hne := hid parent List.mem_cons_self
    rcases hget : b.tree.get? parent.id with _ | old
    · simp only [push, hget]
      exact .refused _ _
    · rcases hhook : (plan.handler parent.kind).push with _ | hook
      · rcases happend : old.append? item with _ | new
        · simp only [push, hget, hhook, happend]
          exact .refused _ _
        · simp only [push, hget, hhook, happend]
          exact .appended hne hget hhook happend
      · simp only [push, hget, hhook]
        exact .hooked hne hget hhook b.context

lemma ended_endSlot (plan : Plan S) (b : Builder S) {frame : Frame S} (hid : frame.id ≠ 0)
    (token : S.Token) :
    Ended plan token b.tree frame (b.endSlot plan frame token).state.tree
      (b.endSlot plan frame token).result := by
  rcases hget : b.tree.get? frame.id with _ | n | items | a
  · simp only [endSlot, hget]
    exact .kept
  · simp only [endSlot, hget]
    exact .closed hid hget
  all_goals
    rcases hhook : (plan.handler frame.kind).stop with _ | hook
    · simp only [endSlot, hget, hhook]
      exact .kept
    · simp only [endSlot, hget, hhook]
      exact .hooked hid hget hhook b.context

lemma opens_opened (plan : Plan S) (b : Builder S) (kind : S.Kind) (token : S.Token) :
    ∃ shape, Opens plan kind token shape ∧
      (b.opened plan kind token).tree = b.tree.insert shape := by
  unfold Opens opened
  rcases (plan.handler kind).start with _ | hook
  · exact ⟨_, rfl, rfl⟩
  · exact ⟨_, ⟨b.context, rfl⟩, rfl⟩

lemma written_openSlot (h : b.Stacked) (hclass : plan.classify token = (.start, kind)) :
    Written plan b token (b.openSlot plan kind token).state.tree
      (b.openSlot plan kind token).state.frames (b.openSlot plan kind token).result := by
  obtain ⟨record, hopen⟩ := openSlot_eq plan b kind token
  obtain ⟨shape, hshape, htree⟩ := opens_opened plan b kind token
  rw [frames_openSlot, hopen, Outcome.state_addRecord, Outcome.result_addRecord]
  rcases heval : (plan.handler kind).eval with _ | f
  · have hbuffers : (plan.handler kind).buffers = false := by simp [Handler.buffers, heval]
    rw [hbuffers]
    have hgiven := given_push plan (b.opened plan kind token)
      (fun f hf => Nat.ne_of_gt (h.bounds f hf).1) kind (.tree b.tree.nextId)
    rw [htree] at hgiven
    exact .attached hclass hshape heval hgiven
  · have hbuffers : (plan.handler kind).buffers = true := by simp [Handler.buffers, heval]
    rw [hbuffers, if_pos rfl, htree]
    exact .detached hclass hshape (by simp [heval])

/-- An evaluator gives its value to the parent, or leaves the tree alone. -/
lemma given_evaluate (plan : Plan S) (hid : ∀ g ∈ b.frames, g.id ≠ 0) (frame : Frame S) :
    ((b.evaluate plan frame).state.tree = b.tree ∧
      ((b.evaluate plan frame).result = .ok () → (plan.handler frame.kind).eval = none)) ∨
    ∃ v, Given plan frame.kind (.value v) b.tree b.frames (b.evaluate plan frame).state.tree
      (b.evaluate plan frame).result := by
  rcases heval : (plan.handler frame.kind).eval with _ | f | f
  · exact .inl ⟨by rw [evaluate, heval], fun _ => rfl⟩
  · have hresult : (b.evaluate plan frame).result ≠ .ok () := by rw [evaluate, heval]; simp
    exact .inl ⟨by rw [evaluate, heval], fun h => absurd h hresult⟩
  · rcases hv : (f b.context b.tree frame.id).result with e | v
    · have hresult : (b.evaluate plan frame).result = .error e := by
        simp only [evaluate, heval, Outcome.bind, hv]
      exact .inl ⟨by simp only [evaluate, heval, Outcome.bind, hv], by simp [hresult]⟩
    · refine .inr ⟨v, ?_⟩
      simp only [evaluate, heval, Outcome.bind, hv]
      exact given_push plan { b with context := (f b.context b.tree frame.id).state } hid frame.kind
        (.value v)

lemma written_closeSlot (h : b.Stacked) (hclass : plan.classify token = (.stop, kind)) :
    Written plan b token (b.closeSlot plan kind token).state.tree
      (b.closeSlot plan kind token).state.frames (b.closeSlot plan kind token).result := by
  by_cases hfit : b.kinds.head? = some kind
  · rcases hf : b.frames with _ | ⟨frame, frames⟩
    · simp [kinds, hf] at hfit
    · obtain rfl : frame.kind = kind := by simpa [kinds, hf] using hfit
      have hid : ∀ g ∈ b.frames, g.id ≠ 0 := fun g hg => Nat.ne_of_gt (h.bounds g hg).1
      rw [hf] at hid
      have hended := ended_endSlot plan { b with frames } (hid frame List.mem_cons_self) token
      rw [frames_closeSlot hf rfl]
      simp only [closeSlot, hf, if_true, Outcome.state_addRecord, Outcome.result_addRecord,
        Outcome.bind]
      generalize hp : ({ b with frames } : Builder S).endSlot plan frame token = p at hended
      have hframes : p.state.frames = frames := by rw [← hp, frames_endSlot]
      rcases hresult : p.result with e | _
      · rw [hresult] at hended
        exact .closed hclass hf hended (by simp)
      · rw [hresult] at hended
        have hid' : ∀ g ∈ p.state.frames, g.id ≠ 0 := by
          rw [hframes]
          exact fun g hg => hid g (List.mem_cons_of_mem _ hg)
        rcases given_evaluate plan hid' frame with ⟨htree, hnone⟩ | ⟨v, hgiven⟩
        · dsimp only
          rw [htree]
          exact .closed hclass hf hended fun hok => ⟨rfl, hnone hok⟩
        · rw [hframes] at hgiven
          exact .evaluated hclass hf hended v hgiven
  · rw [closeSlot_of_ne hfit]
    exact .refused (by simp [hclass]) _

lemma written_leaf (h : b.Stacked) (hclass : plan.classify token = (.leaf, kind)) :
    Written plan b token (b.leaf plan kind token).state.tree (b.leaf plan kind token).state.frames
      (b.leaf plan kind token).result := by
  have hid : ∀ g ∈ b.frames, g.id ≠ 0 := fun g hg => Nat.ne_of_gt (h.bounds g hg).1
  rw [frames_leaf]
  rcases heval : (plan.handler kind).eval with _ | f | f
  · simp only [leaf, heval]
    exact .leaf hclass (.inl rfl) (given_push plan b hid kind _)
  · rcases hv : (f b.context token).result with e | v
    · simp only [leaf, heval, Outcome.bind, hv]
      exact .refused (by simp [hclass]) e
    · simp only [leaf, heval, Outcome.bind, hv]
      exact .leaf hclass (.inr ⟨v, rfl⟩)
        (given_push plan { b with context := (f b.context token).state } hid kind _)
  · rw [leaf_of_subtree heval]
    exact .refused (by simp [hclass]) _

/-- **Cases**: every write does one of these things. -/
theorem written (plan : Plan S) (h : b.Stacked) (token : S.Token) :
    Written plan b token (b.write plan token).state.tree (b.write plan token).state.frames
      (b.write plan token).result := by
  unfold write
  rcases hclass : plan.classify token with ⟨_ | _ | _ | _, kind⟩
  · exact written_openSlot h hclass
  · exact written_closeSlot h hclass
  · exact .skipped (by rw [hclass])
  · exact written_leaf h hclass

end ScanTree.Builder
