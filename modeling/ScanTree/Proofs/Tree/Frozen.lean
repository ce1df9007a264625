import ScanTree.Proofs.Tree.Edits

/-!
Closed slots stay as they are, and the root only gains children.

An open slot has a frame of its own, and only the two innermost frames are within reach of a write.
The number of a frame that is gone is never given out again, so its slot is out of reach for good.
-/

namespace ScanTree

variable {S : Schema}

lemma Tree.isSome_get? (t : Tree S) (id : Nat) : (t.get? id).isSome ↔ id < t.size := by
  cases id with
  | zero => simp [get?, size]
  | succ id => simp [get?, size]

lemma Tree.get?_root (t : Tree S) : t.get? 0 = some (.node ⟨none, none, t.top, none⟩) := rfl

namespace Builder

variable {plan : Plan S} {b : Builder S} {token : S.Token}

/-! ### One write -/

lemma size_write : (b.write plan token).state.tree.size =
    b.tree.size + if (plan.classify token).1 = .start then 1 else 0 := by
  unfold write
  rcases plan.classify token with ⟨_ | _ | _ | _, kind⟩
  · exact size_openSlot
  · exact size_closeSlot
  · rfl
  · exact size_leaf

/-- Of the slots that were there a write changes the innermost open one only, and for an end also
the one that is open around it. -/
lemma get?_write {id : Nat} (hid : id < b.tree.size) (hne : id ≠ innermost b.frames)
    (hstop : (plan.classify token).1 = .stop → id ≠ innermost b.frames.tail) :
    (b.write plan token).state.tree.get? id = b.tree.get? id := by
  unfold write
  rcases hclass : plan.classify token with ⟨_ | _ | _ | _, kind⟩
  · exact get?_openSlot hid hne
  · rw [hclass] at hstop
    rcases hf : b.frames with _ | ⟨frame, frames⟩
    · simp [closeSlot, hf]
    · rw [hf] at hne hstop
      exact get?_closeSlot hf hne (hstop rfl)
  · rfl
  · exact get?_leaf hne

/-- The frames after a write are those before it, less the innermost or with a new one for the slot
that it made. -/
lemma mem_frames_write (h : b.Stacked) {f : Frame S} (hf : f ∈ (b.write plan token).state.frames) :
    f ∈ b.frames ∨ f.id = b.tree.size := by
  have hwritten := written plan h token
  generalize (b.write plan token).state.tree = tree at hwritten
  generalize (b.write plan token).state.frames = frames at hwritten hf
  generalize (b.write plan token).result = result at hwritten
  cases hwritten with
  | skipped | refused | leaf => exact .inl hf
  | detached | attached =>
    rcases List.mem_cons.1 hf with rfl | hf
    · exact .inr rfl
    · exact .inl hf
  | closed hclass hframes | evaluated hclass hframes =>
    rw [hframes]
    exact .inl (List.mem_cons_of_mem _ hf)

/-! ### The root -/

lemma Given.top {kind : S.Kind} {item : S.Item} {t t' : Tree S} {parents : List (Frame S)}
    {result : Except BuildError Unit} (h : Given plan kind item t parents t' result) :
    t.top <+: t'.top := by
  cases h with
  | root => exact List.prefix_append _ _
  | refused => exact List.prefix_rfl
  | hooked | appended => simp

lemma Ended.top {t t' : Tree S} {frame : Frame S} {result : Except BuildError Unit}
    (h : Ended plan token t frame t' result) : t'.top = t.top := by
  cases h with
  | kept => rfl
  | closed | hooked => exact Tree.top_set _ _ _

/-- The children of the root are never changed or dropped. -/
lemma Written.top {tree : Tree S} {frames : List (Frame S)} {result : Except BuildError Unit}
    (h : Written plan b token tree frames result) : b.tree.top <+: tree.top := by
  cases h with
  | skipped | refused | detached => exact List.prefix_rfl
  | attached hclass hshape heval hgiven => exact hgiven.top
  | closed hclass hframes hended => simp [hended.top]
  | evaluated hclass hframes hended v hgiven =>
    rw [← hended.top]
    exact hgiven.top
  | leaf hclass hitem hgiven => exact hgiven.top

/-! ### Runs -/

lemma size_after (tokens : List S.Token) : (b.after plan tokens).tree.size =
    b.tree.size + tokens.countP fun t => (plan.classify t).1 = .start := by
  induction tokens generalizing b with
  | nil => rfl
  | cons t ts ih =>
    rw [after_cons, ih, size_write, List.countP_cons]
    simp only [decide_eq_true_eq]
    omega

lemma top_after (plan : Plan S) (h : b.Stacked) (tokens : List S.Token) :
    b.tree.top <+: (b.after plan tokens).tree.top := by
  induction tokens generalizing b with
  | nil => exact List.prefix_rfl
  | cons t ts ih => exact (written plan h t).top.trans (ih (h.write t))

/-- A slot has been closed: it is there and no frame is for it. -/
structure Shut (b : Builder S) (id : Nat) : Prop where
  pos : 0 < id
  lt : id < b.tree.size
  gone : ∀ f ∈ b.frames, f.id ≠ id

lemma Shut.ne_innermost {id : Nat} (h : b.Shut id) {frames : List (Frame S)}
    (hframes : frames ⊆ b.frames) : id ≠ innermost frames := by
  rcases frames with _ | ⟨f, fs⟩
  · exact Nat.ne_of_gt h.pos
  · exact (h.gone f (hframes List.mem_cons_self)).symm

/-- **Step**: a closed slot is out of reach, and does not open again. -/
lemma Shut.write (plan : Plan S) (hb : b.Stacked) {id : Nat} (h : b.Shut id) (token : S.Token) :
    (b.write plan token).state.Shut id ∧
      (b.write plan token).state.tree.get? id = b.tree.get? id := by
  refine ⟨⟨h.pos, ?_, fun f hf => ?_⟩, ?_⟩
  · rw [size_write]
    exact Nat.lt_of_lt_of_le h.lt (Nat.le_add_right _ _)
  · rcases mem_frames_write hb hf with hold | hnew
    · exact h.gone f hold
    · rw [hnew]
      exact Nat.ne_of_gt h.lt
  · exact get?_write h.lt (h.ne_innermost (List.Subset.refl _))
      fun _ => h.ne_innermost (fun _ => List.mem_of_mem_tail)

/-- **Run**: no number of writes brings it back. -/
lemma Shut.after (hb : b.Stacked) {id : Nat} (h : b.Shut id) (tokens : List S.Token) :
    (b.after plan tokens).Shut id ∧ (b.after plan tokens).tree.get? id = b.tree.get? id := by
  induction tokens generalizing b with
  | nil => exact ⟨h, rfl⟩
  | cons t ts ih =>
    obtain ⟨hshut, hget⟩ := h.write plan hb t
    obtain ⟨hlast, hsame⟩ := ih (hb.write t) hshut
    exact ⟨hlast, hsame.trans hget⟩

/-- **Closed slots are frozen and the root is out of reach**: after any tokens, whether or not some
were refused, there is the root and one slot for each start. The next write does one of a few
things, in which every slot that a hook gets is open and not the root. It changes the innermost of
the open slots only, and for an end also the one around it. A slot that is there and not open never
changes or opens again. The root is a node without a kind, an opener and a closer, and its children
stay. -/
theorem closed_slots_stay (plan : Plan S) (context : S.Context) (tokens : List S.Token) :
    let b := ({ context } : Builder S).after plan tokens
    b.tree.size = 1 + tokens.countP (fun t => (plan.classify t).1 = .start) ∧
    (∀ id, (b.tree.get? id).isSome ↔ id < b.tree.size) ∧
    (∀ f ∈ b.frames, 0 < f.id ∧ f.id < b.tree.size) ∧
    (∀ token, let o := b.write plan token
      Written plan b token o.state.tree o.state.frames o.result ∧
      ∀ id < b.tree.size, id ≠ innermost b.frames →
        ((plan.classify token).1 = .stop → id ≠ innermost b.frames.tail) →
        o.state.tree.get? id = b.tree.get? id) ∧
    (∀ id, b.Shut id → ∀ more, (b.after plan more).Shut id ∧
      (b.after plan more).tree.get? id = b.tree.get? id) ∧
    ∀ more, ∃ children, (b.after plan more).tree.get? 0 =
      some (.node ⟨none, none, b.tree.top ++ children, none⟩) := by
  intro b
  have hb : b.Stacked := (stacked_start context).after tokens
  refine ⟨?_, b.tree.isSome_get?, hb.bounds,
    fun token => ⟨written plan hb token, fun id => get?_write⟩,
    fun id h more => h.after hb more, fun more => ?_⟩
  · exact size_after tokens
  · obtain ⟨children, hchildren⟩ := top_after plan hb more
    exact ⟨children, by rw [Tree.get?_root, hchildren]⟩

open PropertyList in
/-- A dict that has been closed, while the array around it takes and refuses more. -/
theorem closed_dict_stays :
    let b := ({ context := {} } : Builder schema).after PropertyList.plan
      [⟨.start .array, "(", 0, 1⟩, ⟨.start .dict, "\x7b", 1, 2⟩, ⟨.leaf .key, "k", 2, 3⟩,
        ⟨.leaf .int, "1", 4, 5⟩, ⟨.stop .dict, "\x7d", 5, 6⟩]
    let more : List (Token Tag) := [⟨.stop .dict, "\x7d", 6, 7⟩, ⟨.start .dict, "\x7b", 7, 8⟩,
      ⟨.leaf .int, "2", 8, 9⟩, ⟨.stop .dict, "\x7d", 9, 10⟩, ⟨.stop .array, ")", 10, 11⟩]
    b.Shut 2 ∧
      (b.after PropertyList.plan more).tree.get? 2 =
        some (.custom ⟨[("k", .value (.integer 1))], none⟩) ∧
      (b.write PropertyList.plan ⟨.leaf .int, "3", 6, 7⟩).state.tree.get? 2 = b.tree.get? 2 := by
  intro b more
  have hshut : b.Shut 2 := ⟨by decide, by decide, by decide⟩
  obtain ⟨-, -, -, hwrite, hstays, -⟩ := closed_slots_stay PropertyList.plan {}
    [⟨.start .array, "(", 0, 1⟩, ⟨.start .dict, "\x7b", 1, 2⟩, ⟨.leaf .key, "k", 2, 3⟩,
      ⟨.leaf .int, "1", 4, 5⟩, ⟨.stop .dict, "\x7d", 5, 6⟩]
  exact ⟨hshut, (hstays 2 hshut more).2,
    (hwrite ⟨.leaf .int, "3", 6, 7⟩).2 2 (by decide) (by decide) (by decide)⟩

end Builder

end ScanTree
