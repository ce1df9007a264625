import ScanTree.Proofs.Tree.Frozen

/-!
The root among the slots.

A builder can also keep the root in slot zero, with an entry for it at the bottom of its stack. Then
nothing but its steps say that the stack is not empty when it looks for a parent, and that slot zero
holds a node. They are the steps of the builder that keeps the root apart, so both are always true.
-/

namespace ScanTree

variable {S : Schema}

namespace Outcome

variable {σ τ α β : Type}

def map (f : σ → τ) (o : Outcome σ α) : Outcome τ α := ⟨f o.state, o.result, o.log⟩

lemma map_addRecord (f : σ → τ) (record : Record) (o : Outcome σ α) :
    (o.addRecord record).map f = (o.map f).addRecord record := rfl

lemma map_bind {f : σ → τ} {o : Outcome σ α} {o' : Outcome τ α} {next : σ → α → Outcome σ β}
    {next' : τ → α → Outcome τ β} (ho : o' = o.map f)
    (h : ∀ a, next' (f o.state) a = (next o.state a).map f) :
    o'.bind next' = (o.bind next).map f := by
  subst ho
  obtain ⟨s, result, log⟩ := o
  rcases result with e | a
  · rfl
  · simp only [bind, map] at h ⊢
    rw [h]

end Outcome

namespace Tree

/-- All slots, the root in front. -/
def arena (t : Tree S) : List (Shape S) := .node t.root :: t.slots.toList

/-- The tree of the slots, of which the first should hold a node. -/
def ofArena : List (Shape S) → Tree S
  | .node n :: slots => ⟨n.content, slots.toArray⟩
  | _ => {}

@[simp] lemma getElem?_arena (t : Tree S) (id : Nat) : t.arena[id]? = t.get? id := by
  cases id with
  | zero => rfl
  | succ id => simp [arena, get?]

@[simp] lemma length_arena (t : Tree S) : t.arena.length = t.size := by simp [arena, size]

lemma arena_insert (t : Tree S) (shape : Shape S) :
    (t.insert shape).arena = t.arena ++ [shape] := by
  simp [arena, insert, root]

lemma arena_set (t : Tree S) {id : Nat} (h : 0 < id) (shape : Shape S) :
    (t.set id shape).arena = t.arena.set id shape := by
  obtain ⟨id, rfl⟩ := Nat.exists_eq_succ_of_ne_zero (Nat.ne_of_gt h)
  simp [arena, set, root]

end Tree

/-- An entry of a stack: for a slot that is open, or without a kind for the root. -/
structure Held (S : Schema) where
  kind : Option S.Kind
  id : Nat

/-- A builder that keeps the root among its slots. -/
structure Rooted (S : Schema) where
  context : S.Context
  slots : List (Shape S) := [.node ⟨none, none, [], none⟩]
  /-- Innermost first. -/
  stack : List (Held S) := [⟨none, 0⟩]

namespace Rooted

def depth? (r : Rooted S) : Option Nat :=
  match r.stack with
  | [] => none
  | _ :: outer => some outer.length

def push (plan : Plan S) (r : Rooted S) (parent : Held S) (kind : S.Kind) (item : S.Item) :
    Outcome (Rooted S) Unit :=
  match r.slots[parent.id]? with
  | none =>
    let name := parent.kind.elim "None" fun k => "Some(" ++ S.kindName k ++ ")"
    ⟨r, .error (.unabsorbable name (S.kindName kind)), []⟩
  | some shape =>
    match parent.kind.bind fun k => (plan.handler k).push with
    | some hook =>
      let o := hook r.context shape kind item
      ⟨{ r with context := o.state.1, slots := r.slots.set parent.id o.state.2 }, o.result,
        o.log⟩
    | none =>
      match shape.append? item with
      | some shape => ⟨{ r with slots := r.slots.set parent.id shape }, .ok (), []⟩
      | none =>
        ⟨r, .error (.unabsorbable (parent.kind.elim "root" S.kindName) (S.kindName kind)), []⟩

def openSlot (plan : Plan S) (r : Rooted S) (parent : Held S) (kind : S.Kind) (token : S.Token) :
    Outcome (Rooted S) Unit :=
  let h := plan.handler kind
  let (shape, context) :=
    match h.start with
    | some hook => hook r.context kind token
    | none => (Builder.plainNode kind token, r.context)
  let id := r.slots.length
  let opened : Rooted S := ⟨context, r.slots ++ [shape], ⟨some kind, id⟩ :: r.stack⟩
  .addRecord ⟨.trace, "tree builder: open " ++ S.kindName kind ++ " as " ++ shape.name⟩ <|
    if h.buffers then ⟨opened, .ok (), []⟩ else opened.push plan parent kind (.tree id)

def endSlot (plan : Plan S) (r : Rooted S) (id : Nat) (kind : S.Kind) (token : S.Token) :
    Outcome (Rooted S) Unit :=
  match r.slots[id]? with
  | none => ⟨r, .ok (), []⟩
  | some (.node n) =>
    ⟨{ r with slots := r.slots.set id (.node { n with closer := some token }) }, .ok (), []⟩
  | some shape =>
    match (plan.handler kind).stop with
    | none => ⟨r, .ok (), []⟩
    | some hook =>
      let o := hook r.context shape token
      ⟨{ r with context := o.state.1, slots := r.slots.set id o.state.2 }, o.result, o.log⟩

def evaluate (plan : Plan S) (r : Rooted S) (parent : Held S) (id : Nat) (kind : S.Kind) :
    Outcome (Rooted S) Unit :=
  match (plan.handler kind).eval with
  | none => ⟨r, .ok (), []⟩
  | some (.leaf _) => ⟨r, .error (.misplacedEval (S.kindName kind) "subtree"), []⟩
  | some (.subtree f) =>
    let o := f r.context (.ofArena r.slots) id
    Outcome.bind ⟨{ r with context := o.state }, o.result, o.log⟩ fun r v =>
      r.push plan parent kind (.value v)

/-- Closes the innermost slot, unless the stack has nothing above the entry of the root. -/
def closeSlot? (plan : Plan S) (r : Rooted S) (kind : S.Kind) (token : S.Token) :
    Option (Outcome (Rooted S) Unit) :=
  match r.stack with
  | [] => none
  | [_] => some ⟨r, .error (.unbalanced (S.kindName kind)), []⟩
  | held :: parent :: stack =>
    if held.kind = some kind then
      some <| .addRecord ⟨.trace, "tree builder: close " ++ S.kindName kind⟩ <|
        (endSlot plan { r with stack := parent :: stack } held.id kind token).bind fun r _ =>
          r.evaluate plan parent held.id kind
    else some ⟨r, .error (.mismatched (held.kind.elim "" S.kindName) (S.kindName kind)), []⟩

def leaf (plan : Plan S) (r : Rooted S) (parent : Held S) (kind : S.Kind) (token : S.Token) :
    Outcome (Rooted S) Unit :=
  match (plan.handler kind).eval with
  | none => r.push plan parent kind (.token token)
  | some (.subtree _) => ⟨r, .error (.misplacedEval (S.kindName kind) "leaf"), []⟩
  | some (.leaf f) =>
    let o := f r.context token
    Outcome.bind ⟨{ r with context := o.state }, o.result, o.log⟩ fun r v =>
      r.push plan parent kind (.value v)

/-- Takes the next token, if the stack has an entry to take it. -/
def write? (plan : Plan S) (r : Rooted S) (token : S.Token) : Option (Outcome (Rooted S) Unit) :=
  match plan.classify token with
  | (.skip, _) => some ⟨r, .ok (), []⟩
  | (.start, kind) => r.stack.head?.map fun parent => r.openSlot plan parent kind token
  | (.stop, kind) => r.closeSlot? plan kind token
  | (.leaf, kind) => r.stack.head?.map fun parent => r.leaf plan parent kind token

def finish? (r : Rooted S) : Option (Except BuildError (List (Shape S))) :=
  r.depth?.map fun depth =>
    if depth = 0 then .ok r.slots
    else .error (.unclosed ((r.stack.dropLast.reverse.filterMap Held.kind).map S.kindName))

def after? (plan : Plan S) (r : Rooted S) (tokens : List S.Token) : Option (Rooted S) :=
  tokens.foldlM (fun r token => (r.write? plan token).map Outcome.state) r

end Rooted

def Frame.held (frame : Frame S) : Held S := ⟨some frame.kind, frame.id⟩

/-- The entries for the frames of open slots, above that of the root. -/
def stackOf (frames : List (Frame S)) : List (Held S) := frames.map Frame.held ++ [⟨none, 0⟩]

lemma exists_stackOf (frames : List (Frame S)) :
    ∃ parent outer, stackOf frames = parent :: outer :=
  List.exists_cons_of_ne_nil (by simp [stackOf])

namespace Builder

variable {plan : Plan S} {b : Builder S} {kind : S.Kind} {token : S.Token} {parent : Held S}
  {outer : List (Held S)}

def rooted (b : Builder S) : Rooted S := ⟨b.context, b.tree.arena, stackOf b.frames⟩

/-! ### One write -/

lemma push_rooted {parents : List (Frame S)} {item : S.Item}
    (hstack : stackOf parents = parent :: outer)
    (hids : ∀ frame ∈ parents, 0 < frame.id ∧ frame.id < b.tree.size) :
    b.rooted.push plan parent kind item = (b.push plan parents kind item).map rooted := by
  rcases parents with _ | ⟨frame, frames⟩
  · obtain ⟨rfl, -⟩ := List.cons.inj hstack
    rfl
  · obtain ⟨rfl, -⟩ := List.cons.inj hstack
    obtain ⟨hpos, hlt⟩ := hids frame List.mem_cons_self
    obtain ⟨shape, hshape⟩ := Option.isSome_iff_exists.1 ((b.tree.isSome_get? frame.id).2 hlt)
    rcases hhook : (plan.handler frame.kind).push with _ | hook
    · rcases happend : shape.append? item with _ | shape' <;>
        simp [Rooted.push, push, Outcome.map, rooted, Frame.held, hshape, hhook, happend,
          Tree.arena_set _ hpos]
    · simp [Rooted.push, push, Outcome.map, rooted, Frame.held, hshape, hhook,
        Tree.arena_set _ hpos]

lemma openSlot_rooted (hb : b.Stacked) (hstack : stackOf b.frames = parent :: outer) :
    b.rooted.openSlot plan parent kind token = (b.openSlot plan kind token).map rooted := by
  have hid : b.rooted.slots.length = b.tree.nextId := b.tree.length_arena
  have hopened : ∀ context shape,
      (⟨context, b.rooted.slots ++ [shape], ⟨some kind, b.rooted.slots.length⟩ :: b.rooted.stack⟩ :
        Rooted S) =
      rooted ⟨context, b.tree.insert shape, ⟨kind, b.tree.nextId⟩ :: b.frames⟩ :=
    fun context shape => by
      simp [rooted, stackOf, Frame.held, Tree.arena_insert, Tree.nextId, Tree.size]
  have hids : ∀ shape, ∀ frame ∈ b.frames, 0 < frame.id ∧ frame.id < (b.tree.insert shape).size :=
    fun shape frame hframe => by
      obtain ⟨hpos, hlt⟩ := hb.bounds frame hframe
      exact ⟨hpos, by rw [Tree.size_insert]; exact Nat.lt_succ_of_lt hlt⟩
  unfold Rooted.openSlot openSlot
  dsimp only
  rw [hopened, hid, Outcome.map_addRecord, push_rooted hstack (hids _)]
  split_ifs <;> rfl

lemma endSlot_rooted {frame : Frame S} (hpos : 0 < frame.id) :
    b.rooted.endSlot plan frame.id frame.kind token =
      (b.endSlot plan frame token).map rooted := by
  rcases hshape : b.tree.get? frame.id with _ | n | items | a
  · simp [Rooted.endSlot, endSlot, Outcome.map, rooted, hshape]
  · simp [Rooted.endSlot, endSlot, Outcome.map, rooted, hshape, Tree.arena_set _ hpos]
  all_goals
    rcases hstop : (plan.handler frame.kind).stop with _ | hook <;>
      simp [Rooted.endSlot, endSlot, Outcome.map, rooted, hshape, hstop, Tree.arena_set _ hpos]

lemma evaluate_rooted {frame : Frame S} (hstack : stackOf b.frames = parent :: outer)
    (hids : ∀ f ∈ b.frames, 0 < f.id ∧ f.id < b.tree.size) :
    b.rooted.evaluate plan parent frame.id frame.kind = (b.evaluate plan frame).map rooted := by
  unfold Rooted.evaluate evaluate
  rcases (plan.handler frame.kind).eval with _ | f | f
  · rfl
  · rfl
  · exact Outcome.map_bind rfl fun v => push_rooted hstack hids

lemma bind_endSlot_rooted (plan : Plan S) (b : Builder S) (token : S.Token) {frame : Frame S}
    (hpos : 0 < frame.id) (hstack : stackOf b.frames = parent :: outer)
    (hids : ∀ f ∈ b.frames, 0 < f.id ∧ f.id < b.tree.size) :
    ((b.rooted.endSlot plan frame.id frame.kind token).bind fun r _ =>
        r.evaluate plan parent frame.id frame.kind) =
      ((b.endSlot plan frame token).bind fun b _ => b.evaluate plan frame).map rooted := by
  refine Outcome.map_bind (endSlot_rooted hpos) fun _ => ?_
  apply evaluate_rooted
  · rwa [frames_endSlot]
  · rwa [frames_endSlot, size_endSlot]

lemma leaf_rooted (hb : b.Stacked) (hstack : stackOf b.frames = parent :: outer) :
    b.rooted.leaf plan parent kind token = (b.leaf plan kind token).map rooted := by
  unfold Rooted.leaf leaf
  rcases (plan.handler kind).eval with _ | f | f
  · exact push_rooted hstack hb.bounds
  · exact Outcome.map_bind rfl fun v => push_rooted hstack hb.bounds
  · rfl

lemma closeSlot?_rooted (hb : b.Stacked) :
    b.rooted.closeSlot? plan kind token = some ((b.closeSlot plan kind token).map rooted) := by
  rcases hf : b.frames with _ | ⟨frame, frames⟩
  · simp [Rooted.closeSlot?, closeSlot, rooted, stackOf, hf, Outcome.map]
  · obtain ⟨parent, outer, hstack⟩ := exists_stackOf frames
    have hrooted : b.rooted.stack = ⟨some frame.kind, frame.id⟩ :: parent :: outer := by
      rw [← hstack, rooted, hf]
      rfl
    have hids := hb.bounds
    rw [hf] at hids
    unfold Rooted.closeSlot? closeSlot
    simp only [hrooted, hf, Option.some.injEq]
    split_ifs with hkind
    · obtain rfl := hkind
      rw [Outcome.map_addRecord, ← hstack]
      have hended := bind_endSlot_rooted plan { b with frames } token
        (hids frame List.mem_cons_self).1 hstack fun f hmem => hids f (List.mem_cons_of_mem _ hmem)
      rw [← hended]
      rfl
    · rfl

/-- **Step**: a write does the same whether or not the root is among the slots. -/
lemma write?_rooted (hb : b.Stacked) (token : S.Token) :
    b.rooted.write? plan token = some ((b.write plan token).map rooted) := by
  obtain ⟨parent, outer, hstack⟩ := exists_stackOf b.frames
  have hhead : b.rooted.stack.head? = some parent := by
    show (stackOf b.frames).head? = some parent
    rw [hstack]
    rfl
  unfold Rooted.write? write
  rcases plan.classify token with ⟨_ | _ | _ | _, kind⟩
  · simp only [hhead, Option.map_some, openSlot_rooted hb hstack]
  · exact closeSlot?_rooted hb
  · rfl
  · simp only [hhead, Option.map_some, leaf_rooted hb hstack]

/-! ### Runs -/

lemma after?_rooted (hb : b.Stacked) (tokens : List S.Token) :
    b.rooted.after? plan tokens = some (b.after plan tokens).rooted := by
  induction tokens generalizing b with
  | nil => rfl
  | cons token tokens ih =>
    rw [Rooted.after?, List.foldlM_cons, write?_rooted hb]
    exact ih (hb.write token)

lemma depth?_rooted : b.rooted.depth? = some b.depth := by
  rcases hf : b.frames with _ | ⟨frame, frames⟩ <;>
    simp [Rooted.depth?, rooted, stackOf, depth, hf]

lemma finish?_rooted : b.rooted.finish? = some (b.finish.map Tree.arena) := by
  have hkinds : (b.rooted.stack.dropLast.reverse.filterMap Held.kind).map S.kindName =
      b.frames.reverse.map fun frame => S.kindName frame.kind := by
    have hsome : Held.kind ∘ Frame.held = some ∘ Frame.kind (S := S) := rfl
    rw [rooted, stackOf, List.dropLast_concat, ← List.map_reverse, List.filterMap_map, hsome,
      List.filterMap_eq_map, List.map_map]
    rfl
  rw [Rooted.finish?, depth?_rooted, hkinds, finish]
  rcases hf : b.frames with _ | ⟨frame, frames⟩ <;> simp [depth, hf, Except.map, rooted]

/-- **The root stays a plain node, at the bottom of the stack**: a builder that keeps the root among
its slots always finds an entry on its stack. After any tokens, whether or not some were refused,
the entry at the bottom is that of the root, and those above it are for other slots and have a kind.
Slot zero is a node without a kind, an opener and a closer, and whatever comes next its children
stay. The next write and the end of the build give what they give with the root apart. -/
theorem root_stays (plan : Plan S) (context : S.Context) (tokens : List S.Token) :
    let b := ({ context } : Builder S).after plan tokens
    ∃ r children entries, ({ context } : Rooted S).after? plan tokens = some r ∧
      r.stack = entries ++ [⟨none, 0⟩] ∧ r.depth? = some entries.length ∧
      (∀ held ∈ entries, held.kind ≠ none ∧ 0 < held.id ∧ held.id < r.slots.length) ∧
      r.slots[0]? = some (.node ⟨none, none, children, none⟩) ∧
      (∀ more, ∃ r' children', r.after? plan more = some r' ∧
        r'.slots[0]? = some (.node ⟨none, none, children ++ children', none⟩)) ∧
      (∀ token, r.write? plan token = some ((b.write plan token).map rooted)) ∧
      r.finish? = some (b.finish.map Tree.arena) := by
  intro b
  have hb : b.Stacked := (stacked_start context).after tokens
  refine ⟨b.rooted, b.tree.top, b.frames.map Frame.held,
    after?_rooted (stacked_start context) tokens, rfl, ?_, fun held hheld => ?_, rfl,
    fun more => ?_,
    write?_rooted hb, finish?_rooted⟩
  · rw [depth?_rooted, List.length_map, depth]
  · obtain ⟨frame, hframe, rfl⟩ := List.mem_map.1 hheld
    obtain ⟨hpos, hlt⟩ := hb.bounds frame hframe
    exact ⟨Option.some_ne_none _, hpos, by simpa [rooted, Frame.held] using hlt⟩
  · obtain ⟨children', hchildren⟩ := top_after plan hb more
    refine ⟨_, children', after?_rooted hb more, ?_⟩
    rw [hchildren]
    rfl

end Builder

end ScanTree
