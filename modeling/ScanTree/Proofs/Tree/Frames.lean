import Mathlib.Data.List.Basic
import ScanTree.PropertyList.Plan

/-!
The open slots of a builder mirror the starts and ends of its tokens.

Whatever the hooks do, and whether a write fails or not, a start opens a slot, an end closes the
innermost one if that has its kind, and no other token opens or closes any.
-/

namespace ScanTree

variable {S : Schema}

lemma Outcome.state_bind {σ α β : Type} (o : Outcome σ α) (next : σ → α → Outcome σ β) :
    (o.bind next).state =
      match o.result with
      | .error _ => o.state
      | .ok a => (next o.state a).state := by
  unfold bind
  rcases o.result with e | a <;> rfl

@[simp] lemma Outcome.state_addRecord {σ α : Type} (record : Record) (o : Outcome σ α) :
    (o.addRecord record).state = o.state := rfl

@[simp] lemma Outcome.result_addRecord {σ α : Type} (record : Record) (o : Outcome σ α) :
    (o.addRecord record).result = o.result := rfl

/-- What the kinds of the open slots become with a token of the given role and kind. -/
def nest (stack : List S.Kind) : Role × S.Kind → List S.Kind
  | (.start, kind) => kind :: stack
  | (.stop, kind) => if stack.head? = some kind then stack.tail else stack
  | (.skip, _) | (.leaf, _) => stack

namespace Builder

variable {plan : Plan S} {b : Builder S} {kind : S.Kind} {token : S.Token}

/-- The kinds of the open slots, innermost first. -/
def kinds (b : Builder S) : List S.Kind := b.frames.map Frame.kind

/-- The builder after some tokens, written one after the other whether or not one is refused. -/
def after (plan : Plan S) (b : Builder S) (tokens : List S.Token) : Builder S :=
  tokens.foldl (fun b token => (b.write plan token).state) b

@[simp] lemma after_nil : b.after plan [] = b := rfl

@[simp] lemma after_cons (tokens : List S.Token) :
    b.after plan (token :: tokens) = (b.write plan token).state.after plan tokens := rfl

lemma after_append (ts us : List S.Token) :
    b.after plan (ts ++ us) = (b.after plan ts).after plan us := List.foldl_append

/-! ### Frames -/

@[simp] lemma frames_push (parents : List (Frame S)) (item : S.Item) :
    (b.push plan parents kind item).state.frames = b.frames := by
  rcases parents with _ | ⟨parent, rest⟩
  · rfl
  · unfold push
    dsimp only
    split
    · rfl
    · split
      · rfl
      · split <;> rfl

@[simp] lemma frames_endSlot (frame : Frame S) :
    (b.endSlot plan frame token).state.frames = b.frames := by
  unfold endSlot
  rcases b.tree.get? frame.id with _ | n | items | a
  · rfl
  · rfl
  all_goals rcases (plan.handler frame.kind).stop with _ | hook <;> rfl

@[simp] lemma frames_evaluate (frame : Frame S) :
    (b.evaluate plan frame).state.frames = b.frames := by
  unfold evaluate
  rcases (plan.handler frame.kind).eval with _ | f | f
  · rfl
  · rfl
  · simp only [Outcome.state_bind]
    rcases (f b.context b.tree frame.id).result with e | v
    · rfl
    · exact frames_push _ _

def opened (plan : Plan S) (b : Builder S) (kind : S.Kind) (token : S.Token) : Builder S :=
  let (shape, context) :=
    match (plan.handler kind).start with
    | some hook => hook b.context kind token
    | none => (plainNode kind token, b.context)
  { context, tree := b.tree.insert shape, frames := ⟨kind, b.tree.nextId⟩ :: b.frames }

/-- A start opens a slot, whatever comes of attaching it. -/
lemma openSlot_eq (plan : Plan S) (b : Builder S) (kind : S.Kind) (token : S.Token) : ∃ record,
    b.openSlot plan kind token = .addRecord record
    (if (plan.handler kind).buffers then ⟨b.opened plan kind token, .ok (), []⟩
      else (b.opened plan kind token).push plan b.frames kind (.tree b.tree.nextId)) := by
  exact ⟨_, rfl⟩

lemma frames_openSlot :
    (b.openSlot plan kind token).state.frames = ⟨kind, b.tree.nextId⟩ :: b.frames := by
  obtain ⟨record, h⟩ := openSlot_eq plan b kind token
  rw [h, Outcome.state_addRecord]
  split_ifs
  · rfl
  · exact frames_push _ _

/-- An end that fits closes the innermost slot, whatever comes of its hooks. -/
lemma frames_closeSlot {frame : Frame S} {frames : List (Frame S)} (h : b.frames = frame :: frames)
    (hkind : frame.kind = kind) : (b.closeSlot plan kind token).state.frames = frames := by
  simp only [closeSlot, h, hkind, if_true, Outcome.state_addRecord, Outcome.state_bind]
  split
  · exact frames_endSlot _
  · rw [frames_evaluate, frames_endSlot]

lemma frames_leaf : (b.leaf plan kind token).state.frames = b.frames := by
  unfold leaf
  rcases (plan.handler kind).eval with _ | f | f
  · exact frames_push _ _
  · simp only [Outcome.state_bind]
    rcases (f b.context token).result with e | v
    · rfl
    · exact frames_push _ _
  · rfl

/-- An end that does not fit is refused, and changes nothing. -/
lemma closeSlot_of_ne (h : b.kinds.head? ≠ some kind) :
    b.closeSlot plan kind token =
      ⟨b, .error (match b.kinds.head? with
        | none => .unbalanced (S.kindName kind)
        | some top => .mismatched (S.kindName top) (S.kindName kind)), []⟩ := by
  unfold kinds at h ⊢
  unfold closeSlot
  rcases hf : b.frames with _ | ⟨frame, frames⟩
  · rfl
  · have hne : frame.kind ≠ kind := fun heq => h (by rw [hf, ← heq]; rfl)
    simp [hne]

/-- **Step**: a write opens and closes what its token says. -/
lemma kinds_write : (b.write plan token).state.kinds = nest b.kinds (plan.classify token) := by
  unfold write
  rcases plan.classify token with ⟨_ | _ | _ | _, kind⟩
  · simp only [nest, kinds, frames_openSlot, List.map_cons]
  · by_cases hfit : b.kinds.head? = some kind
    · have hfit' := hfit
      unfold kinds at hfit
      rcases hf : b.frames with _ | ⟨frame, frames⟩
      · rw [hf] at hfit
        cases hfit
      · rw [hf] at hfit
        have hkind : frame.kind = kind := by simpa using hfit
        simp only [nest, if_pos hfit']
        simp only [kinds, frames_closeSlot hf hkind, hf, List.map_cons, List.tail_cons]
    · simp only [nest, if_neg hfit, closeSlot_of_ne hfit]
  · rfl
  · simp only [nest, kinds, frames_leaf]

/-- **Run**: so do all writes together. -/
lemma kinds_after (tokens : List S.Token) :
    (b.after plan tokens).kinds = (tokens.map plan.classify).foldl nest b.kinds := by
  induction tokens generalizing b with
  | nil => rfl
  | cons token tokens ih => rw [after_cons, ih, kinds_write, List.map_cons, List.foldl_cons]

/-- A leaf whose kind has an evaluator for subtrees is refused, and changes nothing. -/
lemma leaf_of_subtree {f : S.Context → Tree S → Nat → Outcome S.Context S.Value}
    (h : (plan.handler kind).eval = some (.subtree f)) :
    b.leaf plan kind token = ⟨b, .error (.misplacedEval (S.kindName kind) "leaf"), []⟩ := by
  rw [leaf, h]

lemma finish_eq : b.finish =
    if b.kinds = [] then .ok b.tree else .error (.unclosed (b.kinds.reverse.map S.kindName)) := by
  unfold finish kinds
  rcases b.frames with _ | ⟨frame, frames⟩
  · rfl
  · simp

/-- **The open slots mirror the nesting of the tokens**: after any tokens, written whether or not
one is refused, the kinds of the open slots are what the starts and the ends leave. The next token
is refused and changes nothing if it ends another kind than the innermost, or is a leaf of a kind
that has an evaluator for subtrees. The build can be finished exactly if nothing is open. -/
theorem mirrors_nesting (plan : Plan S) (context : S.Context) (tokens : List S.Token) :
    let b : Builder S := ({ context } : Builder S).after plan tokens
    let stack := (tokens.map plan.classify).foldl nest []
    b.kinds = stack ∧ b.depth = stack.length ∧
    (∀ token kind, plan.classify token = (.stop, kind) → stack.head? ≠ some kind →
      (b.write plan token).state = b ∧ (b.write plan token).result =
        .error (match stack.head? with
          | none => .unbalanced (S.kindName kind)
          | some top => .mismatched (S.kindName top) (S.kindName kind))) ∧
    (∀ token kind f, plan.classify token = (.leaf, kind) →
      (plan.handler kind).eval = some (.subtree f) →
      (b.write plan token).state = b ∧
        (b.write plan token).result = .error (.misplacedEval (S.kindName kind) "leaf")) ∧
    b.finish = if stack = [] then .ok b.tree
      else .error (.unclosed (stack.reverse.map S.kindName)) := by
  intro b stack
  have hkinds : b.kinds = stack := kinds_after tokens
  refine ⟨hkinds, ?_, fun token kind hclass hne => ?_, fun token kind f hclass hf => ?_, ?_⟩
  · rw [← hkinds, kinds, List.length_map, depth]
  · rw [← hkinds] at hne ⊢
    have hwrite : b.write plan token = b.closeSlot plan kind token := by rw [write, hclass]
    rw [hwrite, closeSlot_of_ne hne]
    exact ⟨rfl, rfl⟩
  · have hwrite : b.write plan token = b.leaf plan kind token := by rw [write, hclass]
    rw [hwrite, leaf_of_subtree hf]
    exact ⟨rfl, rfl⟩
  · rw [finish_eq, hkinds]

open PropertyList in
/-- An array that its dict refuses, for want of a key, is open all the same. -/
theorem mirrors_refused_array :
    let tokens : List (Token Tag) := [⟨.start .dict, "\x7b", 0, 1⟩, ⟨.start .array, "(", 1, 2⟩]
    let closer : Token Tag := ⟨.stop .dict, "\x7d", 2, 3⟩
    let b : Builder schema := ({ context := {} } : Builder schema).after PropertyList.plan tokens
    b.kinds = [.array, .dict] ∧ b.depth = 2 ∧
      (b.write PropertyList.plan closer).state = b ∧
      (b.write PropertyList.plan closer).result = .error (.mismatched "Array" "Dict") ∧
      (b.write PropertyList.plan ⟨.leaf .string, "", 2, 2⟩).result =
        .error (.misplacedEval "String" "leaf") ∧
      b.finish = .error (.unclosed ["Dict", "Array"]) := by
  intro tokens closer b
  obtain ⟨hkinds, hdepth, hstop, hleaf, hfinish⟩ := mirrors_nesting PropertyList.plan {} tokens
  have hclose := hstop closer .dict rfl (by decide)
  have hstring := hleaf ⟨.leaf .string, "", 2, 2⟩ .string _ rfl rfl
  exact ⟨hkinds, hdepth, hclose.1, hclose.2, hstring.2, hfinish⟩

end Builder

end ScanTree
