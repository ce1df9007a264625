import ScanTree.PropertyList.Resolve
import ScanTree.Proofs.Tree.Forest

/-!
The references in the trees of property lists, and why following them comes to an end.

The hooks of arrays and dicts pass references on and make none, so the trees of all token lists are
forests. Resolving a child goes from slots to later ones, and never comes to its depth bound.
-/

namespace ScanTree.PropertyList

open Builder
open scoped List

def OpenDict.refs (d : OpenDict) : List Nat := d.entries.flatMap fun e => e.2.refs

lemma refs_insert (key : String) (item : schema.Item) (entries : Entries schema.Item) :
    ((entries.insert key item).flatMap fun e => e.2.refs) <+~
      (entries.flatMap fun e => e.2.refs) ++ item.refs := by
  induction entries with
  | nil =>
    simp only [Entries.insert, List.flatMap_cons, List.flatMap_nil, List.append_nil]
    exact .refl _
  | cons e es ih =>
    rw [List.subperm_iff_count] at ih ⊢
    intro id
    have := ih id
    by_cases hkey : e.1 = key
    · simp only [Entries.insert, if_pos hkey, List.flatMap_cons, List.count_append]
      omega
    · simp only [Entries.insert, if_neg hkey, List.flatMap_cons, List.count_append] at this ⊢
      omega

lemma refs_pushEntry (options : Options) (shape : Shape schema) (kind : Kind) (item : schema.Item) :
    (pushEntry options shape kind item).state.2.refs OpenDict.refs <+~
      shape.refs OpenDict.refs ++ item.refs := by
  have hkeep : shape.refs OpenDict.refs <+~ shape.refs OpenDict.refs ++ item.refs :=
    (List.sublist_append_left _ _).subperm
  unfold pushEntry
  rcases shape with n | items | ⟨entries, pending⟩
  · exact hkeep
  · exact hkeep
  · by_cases hkey : kind = .key
    · simp only [hkey, if_true]
      split
      · rcases pending with _ | key
        · exact hkeep
        · dsimp only
          split_ifs <;> exact hkeep
      · exact hkeep
    · simp only [hkey, if_false]
      rcases pending with _ | key
      · exact hkeep
      · exact refs_insert key item entries

lemma refs_endDict (options : Options) (shape : Shape schema) (token : Token Tag) :
    (endDict options shape token).state.2.refs OpenDict.refs = shape.refs OpenDict.refs := by
  unfold endDict
  split
  · dsimp only
    split_ifs <;> rfl
  · rfl

/-- The hooks of property lists neither make references nor copy any. -/
lemma honest_plan : Honest plan OpenDict.refs := by
  constructor
  · intro kind hook hhook context kind' token
    cases kind <;> cases hhook <;> rfl
  · intro kind hook hhook context shape token
    cases kind <;> cases hhook
    rw [refs_endDict]
  · intro kind hook hhook context shape child item
    cases kind <;> cases hhook
    exact refs_pushEntry context shape child item

/-! ### Resolving -/

variable {tree : Tree schema}

/-- A slot refers to another. -/
def Refers (tree : Tree schema) (child parent : Nat) : Prop :=
  ∃ shape, tree.get? parent = some shape ∧ child ∈ shape.refs OpenDict.refs

lemma wellFounded_refers (h : Forest OpenDict.refs tree) : WellFounded (Refers tree) := by
  refine Subrelation.wf (fun {child parent} hrefers => ?_) (measure fun id => tree.size - id).wf
  obtain ⟨shape, hget, hmem⟩ := hrefers
  obtain ⟨hlt, hsize⟩ := h.ascending parent shape hget child hmem
  show tree.size - child < tree.size - parent
  omega

lemma mapM_congr {α β : Type} {f g : α → Except BuildError β} {xs : List α}
    (h : ∀ x ∈ xs, f x = g x) : xs.mapM f = xs.mapM g := by
  induction xs with
  | nil => rfl
  | cons x xs ih =>
    rw [List.mapM_cons, List.mapM_cons, h x List.mem_cons_self,
      ih fun y hy => h y (List.mem_cons_of_mem _ hy)]

lemma resolveWithin_tree (tree : Tree schema) (depth id : Nat) :
    resolveWithin tree (depth + 1) (.tree id) =
      match tree.get? id with
      | none => .error (.rejected "tree" ("dangling node " ++ Describe.id id))
      | some (.seq items) => .array <$> items.mapM (resolveWithin tree depth)
      | some (.custom dict) =>
        .dict <$> dict.entries.mapM fun e => (e.1, ·) <$> resolveWithin tree depth e.2
      | some (.node n) =>
        if n.kind = some .data then .ok (.data (tokenTexts n.content))
        else .error (.rejected (Describe.kind n.kind) "node has no value representation") := by
  rcases hget : tree.get? id with _ | n | items | dict <;> simp only [resolveWithin, hget]

/-- More depth changes nothing where no chain of references is as long. -/
lemma resolveWithin_succ (h : Forest OpenDict.refs tree) (depth : Nat) (item : schema.Item)
    (hdepth : ∀ id ∈ item.refs, tree.size ≤ id + depth) :
    resolveWithin tree (depth + 1) item = resolveWithin tree depth item := by
  induction depth generalizing item with
  | zero =>
    rcases item with t | v | id
    · simp [resolveWithin]
    · simp [resolveWithin]
    · have hsize : tree.size ≤ id := hdepth id (List.mem_singleton_self id)
      have hnone : tree.get? id = none := by
        rw [← Option.not_isSome_iff_eq_none, tree.isSome_get?]
        omega
      rw [resolveWithin_tree, hnone]
      simp [resolveWithin]
  | succ depth ih =>
    rcases item with t | v | id
    · simp [resolveWithin]
    · simp [resolveWithin]
    · have hsize : tree.size ≤ id + (depth + 1) := hdepth id (List.mem_singleton_self id)
      -- The children of the slot have higher numbers, so they need one step less.
      have hchild : ∀ {shape child}, tree.get? id = some shape →
          (∀ c ∈ child.refs, c ∈ shape.refs OpenDict.refs) →
          resolveWithin tree (depth + 1) child = resolveWithin tree depth child := by
        intro shape child hget hsub
        refine ih child fun c hc => ?_
        have := (h.ascending id shape hget c (hsub c hc)).1
        omega
      rw [resolveWithin_tree, resolveWithin_tree]
      rcases hget : tree.get? id with _ | n | items | dict
      · rfl
      · rfl
      · have hitems : items.mapM (resolveWithin tree (depth + 1)) =
            items.mapM (resolveWithin tree depth) := mapM_congr fun child hchild' =>
          hchild hget fun c hc => List.mem_flatMap.2 ⟨child, hchild', hc⟩
        simp only [hitems]
      · have hentries :
            (dict.entries.mapM fun e => (e.1, ·) <$> resolveWithin tree (depth + 1) e.2) =
            dict.entries.mapM fun e => (e.1, ·) <$> resolveWithin tree depth e.2 :=
          mapM_congr fun e he => by
            rw [hchild hget fun c hc => List.mem_flatMap.2 ⟨e, he, hc⟩]
        simp only [hentries]

/-- A tree is never deeper than the bound of its resolution. -/
lemma resolveWithin_eq (h : Forest OpenDict.refs tree) {depth : Nat} (hdepth : tree.size ≤ depth)
    (item : schema.Item) : resolveWithin tree depth item = resolve tree item := by
  induction hdepth with
  | refl => rfl
  | @step depth hle ih =>
    rw [resolveWithin_succ h depth item fun id _ => Nat.le_add_left_of_le hle, ih]

lemma resolve_tree (h : Forest OpenDict.refs tree) (id : Nat) : resolve tree (.tree id) =
    match tree.get? id with
    | none => .error (.rejected "tree" ("dangling node " ++ Describe.id id))
    | some (.seq items) => .array <$> items.mapM (resolve tree)
    | some (.custom dict) => .dict <$> dict.entries.mapM fun e => (e.1, ·) <$> resolve tree e.2
    | some (.node n) =>
      if n.kind = some .data then .ok (.data (tokenTexts n.content))
      else .error (.rejected (Describe.kind n.kind) "node has no value representation") := by
  have hresolve : resolveWithin tree tree.size = resolve tree := rfl
  rw [← resolveWithin_eq h (Nat.le_succ tree.size), resolveWithin_tree, hresolve]

/-- **The references form a forest**: whatever the tokens are, and whether or not some are refused,
hooks that make and copy no references grow a forest. Those of property lists are such hooks. So
the references of their trees are well founded, and resolving a child, which goes along references,
does so without coming to its depth bound. -/
theorem references_grow_forest :
    (∀ (S : Schema) (plan : Plan S) (held : S.Aggregate → List Nat) (context : S.Context)
      (tokens : List S.Token), Honest plan held → Grown plan held context tokens) ∧
    ∀ (options : Options) (tokens : List (Token Tag)),
      let tree := (({ context := options } : Builder schema).after plan tokens).tree
      Grown plan OpenDict.refs options tokens ∧
      WellFounded (Refers tree) ∧
      (∀ item depth, tree.size ≤ depth → resolveWithin tree depth item = resolve tree item) ∧
      ∀ id, resolve tree (.tree id) =
        match tree.get? id with
        | none => .error (.rejected "tree" ("dangling node " ++ Describe.id id))
        | some (.seq items) => .array <$> items.mapM (resolve tree)
        | some (.custom dict) => .dict <$> dict.entries.mapM fun e => (e.1, ·) <$> resolve tree e.2
        | some (.node n) =>
          if n.kind = some .data then .ok (.data (tokenTexts n.content))
          else .error (.rejected (Describe.kind n.kind) "node has no value representation") := by
  refine ⟨fun S plan held context tokens hplan => grown_after hplan context tokens,
    fun options tokens => ?_⟩
  have hgrown : Grown plan OpenDict.refs options tokens := grown_after honest_plan options tokens
  exact ⟨hgrown, wellFounded_refers hgrown.forest,
    fun item depth hdepth => resolveWithin_eq hgrown.forest hdepth item,
    resolve_tree hgrown.forest⟩

/-- The plan of property lists without the hooks of arrays and dicts, which become nodes. -/
def nodePlan : Plan schema := ⟨classify, fun kind => { eval := (handler kind).eval }⟩

lemma honest_nodePlan (held : OpenDict → List Nat) : Honest nodePlan held := by
  constructor <;> intro kind hook hhook <;> cases hhook

lemma unhooked_nodePlan : Unhooked nodePlan := fun _ => ⟨rfl, rfl⟩

/-- An array of a data block and a string: it refers to the block once, and to the string never. -/
theorem forest_of_array :
    let tokens : List (Token Tag) := [⟨.start .array, "(", 0, 1⟩, ⟨.start .data, "<", 1, 2⟩,
      ⟨.stop .data, ">", 2, 3⟩, ⟨.start .string, "\"", 3, 4⟩, ⟨.leaf .chars, "a", 4, 5⟩,
      ⟨.stop .string, "\"", 5, 6⟩, ⟨.stop .array, ")", 6, 7⟩]
    let tree := (({ context := {} } : Builder schema).after nodePlan tokens).tree
    Honest nodePlan OpenDict.refs ∧ Unhooked nodePlan ∧
      ({ context := {} } : Builder schema).Accepts nodePlan tokens ∧
      (tree.refs OpenDict.refs).count 2 = 1 ∧
      (∃ shape, tree.get? 1 = some shape ∧ 2 ∈ shape.refs OpenDict.refs) ∧
      3 ∉ tree.refs OpenDict.refs := by
  intro tokens tree
  have hplan := honest_nodePlan OpenDict.refs
  have haccepts : ({ context := {} } : Builder schema).Accepts nodePlan tokens :=
    ⟨rfl, rfl, rfl, rfl, rfl, rfl, rfl, trivial⟩
  have hgrown := references_grow_forest.1 schema nodePlan OpenDict.refs {} tokens hplan
  obtain ⟨hcount, hshape⟩ := hgrown.attached unhooked_nodePlan haccepts
    [⟨.start .array, "(", 0, 1⟩] ⟨.start .data, "<", 1, 2⟩ _ .data rfl rfl rfl
  have hstring := hgrown.detached
    [⟨.start .array, "(", 0, 1⟩, ⟨.start .data, "<", 1, 2⟩, ⟨.stop .data, ">", 2, 3⟩]
    ⟨.start .string, "\"", 3, 4⟩ _ .string rfl rfl (by simp [nodePlan, handler])
  exact ⟨hplan, unhooked_nodePlan, haccepts, hcount, hshape, hstring⟩

end ScanTree.PropertyList
