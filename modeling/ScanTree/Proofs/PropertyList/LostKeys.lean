import ScanTree.Proofs.PropertyList.Policies
import ScanTree.Proofs.PropertyList.Phrases
import ScanTree.Proofs.Tree.Edits

/-!
The keys that a builder loses, and the two policies for them.

A key is lost if it still waits for its value when the next key of its dict comes or the dict
closes. One policy lets that pass and the other refuses it. Up to the first key that is lost the
builders of both policies do the same, whatever other tokens they refuse, and keep all their keys.
-/

namespace ScanTree

namespace Builder

variable {S : Schema} {plan : Plan S} {b : Builder S}

def results (plan : Plan S) (b : Builder S) : List S.Token → List (Except BuildError Unit)
  | [] => []
  | token :: tokens =>
    (b.write plan token).result :: (b.write plan token).state.results plan tokens

lemma accepts_iff {ts : List S.Token} :
    b.Accepts plan ts ↔ ∀ result ∈ b.results plan ts, result = .ok () := by
  induction ts generalizing b with
  | nil => simp [Accepts, results]
  | cons t ts ih => simp [Accepts, results, ih]

/-- Every one of some writes, whether or not one is refused, starts from a builder and a token with
the given property. -/
def Throughout (plan : Plan S) (P : Builder S → S.Token → Prop) :
    Builder S → List S.Token → Prop
  | _, [] => True
  | b, token :: tokens => P b token ∧ Throughout plan P (b.write plan token).state tokens

variable {P : Builder S → S.Token → Prop}

lemma throughout_append {ts us : List S.Token} : Throughout plan P b (ts ++ us) ↔
    Throughout plan P b ts ∧ Throughout plan P (b.after plan ts) us := by
  induction ts generalizing b with
  | nil => simp [Throughout]
  | cons t ts ih => simp [Throughout, ih, and_assoc]

lemma exists_throughout (plan : Plan S) (P : Builder S → S.Token → Prop) (b : Builder S)
    (tokens : List S.Token) : ∃ taken rest, tokens = taken ++ rest ∧ Throughout plan P b taken ∧
      ∀ t ∈ rest.head?, ¬ P (b.after plan taken) t := by
  induction tokens generalizing b with
  | nil => exact ⟨[], [], rfl, trivial, by simp⟩
  | cons t ts ih =>
    by_cases h : P b t
    · obtain ⟨taken, rest, rfl, htaken, hrest⟩ := ih (b.write plan t).state
      exact ⟨t :: taken, rest, rfl, ⟨h, htaken⟩, hrest⟩
    · exact ⟨[], t :: ts, rfl, trivial, by simpa using h⟩

end Builder

namespace PropertyList

open Builder

variable {o : Options} {b : Builder schema} {t : Token Tag}

/-! ### Tokens that lose a key -/

/-- The token loses the key that waits in the innermost open dict, because another key takes its
place or because the dict closes. The message says which. -/
inductive Loses (b : Builder schema) (t : Token Tag) : String → Prop
  | replaced {f : Frame schema} {fs : List (Frame schema)} {d : OpenDict} {pending key : String}
      (hframes : b.frames = f :: fs) (hkind : f.kind = .dict)
      (hget : b.tree.get? f.id = some (.custom d)) (hpending : d.pending = some pending)
      (ht : t.tag = .leaf .key) (hkey : keyValue t.text = .ok (.string key)) :
      Loses b t ("key " ++ Text.quoted pending ++ " has no value before key " ++ Text.quoted key)
  | dropped {f : Frame schema} {fs : List (Frame schema)} {d : OpenDict} {pending : String}
      (hframes : b.frames = f :: fs) (hkind : f.kind = .dict)
      (hget : b.tree.get? f.id = some (.custom d)) (hpending : d.pending = some pending)
      (ht : t.tag = .stop .dict) :
      Loses b t ("key " ++ Text.quoted pending ++ " has no value before the dict closes")

lemma Loses.asks {message : String} (h : Loses b t message) : Asks b t := by
  cases h with
  | replaced hframes hkind hget hpending ht =>
    exact ⟨.inl ht, by rw [hframes]; exact waits_of_pending hkind hget hpending⟩
  | dropped hframes hkind hget hpending ht =>
    exact ⟨.inr ht, by rw [hframes]; exact waits_of_pending hkind hget hpending⟩

/-- The tokens that ask for the options are those that lose a key. -/
lemma Asks.loses (h : Asks b t) : ∃ message, Loses b t message := by
  obtain ⟨htag, f, hf, hkind, d, hget, hpending⟩ := h
  obtain ⟨fs, hframes⟩ : ∃ fs, b.frames = f :: fs := List.head?_eq_some_iff.1 hf
  obtain ⟨pending, hpending⟩ := Option.isSome_iff_exists.1 hpending
  rcases htag with ht | ht
  · exact ⟨_, .replaced hframes hkind hget hpending ht (keyValue_eq t.text)⟩
  · exact ⟨_, .dropped hframes hkind hget hpending ht⟩

/-- Which key is lost does not depend on the options. -/
lemma Loses.withContext {message : String} (h : Loses b t message) :
    Loses (b.withContext o) t message := by
  cases h with
  | replaced hframes hkind hget hpending ht hkey =>
    exact .replaced hframes hkind hget hpending ht hkey
  | dropped hframes hkind hget hpending ht => exact .dropped hframes hkind hget hpending ht

/-- Such a token is refused by one policy and taken by the other. -/
lemma Loses.result {message : String} (h : Loses b t message) :
    (b.write plan t).result =
      if b.context.keyPolicy = .reject then .error (rejected .dict message) else .ok () := by
  cases h with
  | @replaced f fs d pending key hframes hkind hget hpending ht hkey =>
    have hitem : leafItem t = .ok (.value (.string key)) := by
      rw [leafItem, ht]
      simp [evaluator?, Tag.leaf, hkey]
    rw [write_leaf ht, leaf_ok ht (by decide) hitem, hframes]
    simp only [push, hget, plan, handler, hkind, pushEntry, hpending, if_true]
    split <;> rfl
  | @dropped f fs d pending hframes hkind hget hpending ht =>
    obtain ⟨entries, _⟩ := d
    obtain rfl : _ = some pending := hpending
    rw [write_stop ht]
    by_cases hpolicy : b.context.keyPolicy = .reject
    all_goals
      simp [closeSlot, hframes, hkind, endSlot, hget, evaluate, plan, handler, endDict, hpolicy,
        Outcome.bind]

/-! ### Keys that are kept -/

/-- What a dict may become without losing a key. -/
inductive OpenDict.Advances : OpenDict → OpenDict → Prop
  | same (d : OpenDict) : Advances d d
  | key (entries : Entries schema.Item) (key : String) :
      Advances ⟨entries, none⟩ ⟨entries, some key⟩
  | value (entries : Entries schema.Item) (key : String) (item : schema.Item) :
      Advances ⟨entries, some key⟩ ⟨entries.insert key item, none⟩

/-- No dict of a tree loses a key on the way to another tree. -/
def KeepsKeys (tree tree' : Tree schema) : Prop :=
  ∀ id d, tree.get? id = some (.custom d) →
    ∃ d', tree'.get? id = some (.custom d') ∧ d.Advances d'

lemma KeepsKeys.refl (tree : Tree schema) : KeepsKeys tree tree :=
  fun _ d h => ⟨d, h, .same d⟩

lemma get?_insert_of_get? {tree : Tree schema} {id : Nat} {old : Shape schema}
    (h : tree.get? id = some old) (shape : Shape schema) :
    (tree.insert shape).get? id = some old := by
  have hne : id ≠ tree.nextId := Nat.ne_of_lt (Tree.lt_size_of_get? h)
  rw [Tree.get?_insert, if_neg hne, h]

lemma keepsKeys_set {tree : Tree schema} {id : Nat} {old new : Shape schema} (hid : id ≠ 0)
    (hget : tree.get? id = some old)
    (h : ∀ d, old = .custom d → ∃ d', new = .custom d' ∧ d.Advances d') :
    KeepsKeys tree (tree.set id new) := by
  intro other d hother
  by_cases heq : other = id
  · subst heq
    rw [hget] at hother
    obtain ⟨d', hnew, hd⟩ := h d (Option.some.inj hother)
    exact ⟨d', by rw [Tree.get?_set_of_get? hid hget, hnew], hd⟩
  · exact ⟨d, by rw [Tree.get?_set_of_ne _ _ heq, hother], .same d⟩

/-- A dict that refuses a child is left as it was. Only a key can take the place of a key. -/
lemma advances_pushEntry (context : Options) (d : OpenDict) (kind : Kind) (item : schema.Item)
    (h : kind = .key → (pushEntry context (.custom d) kind item).result = .ok () →
      d.pending = none) :
    ∃ d', (pushEntry context (.custom d) kind item).state.2 = .custom d' ∧ d.Advances d' := by
  obtain ⟨entries, pending⟩ := d
  by_cases hkey : kind = .key
  · replace h := h hkey
    unfold pushEntry at h ⊢
    simp only [hkey, if_true] at h ⊢
    split
    · rcases pending with _ | pending
      · exact ⟨_, rfl, .key entries _⟩
      · by_cases hpolicy : context.keyPolicy = .reject
        · simp only [hpolicy, if_true]
          exact ⟨_, rfl, .same _⟩
        · simp [hpolicy] at h
    · exact ⟨_, rfl, .same _⟩
  · unfold pushEntry
    simp only [hkey, if_false]
    rcases pending with _ | pending
    · exact ⟨_, rfl, .same _⟩
    · exact ⟨_, rfl, .value entries pending item⟩

/-- A child loses no key, unless it is one that its dict takes while another waits. -/
lemma keepsKeys_given {kind : Kind} {item : schema.Item} {tree tree' : Tree schema}
    {parents : List (Frame schema)} {result : Except BuildError Unit}
    (h : Given plan kind item tree parents tree' result)
    (hkey : kind = .key → result = .ok () → ¬ Waits tree parents) : KeepsKeys tree tree' := by
  cases h with
  | root =>
    rintro (_ | id) d hget
    · cases hget
    · exact ⟨d, hget, .same d⟩
  | refused => exact .refl tree
  | @hooked f fs old hook hid hget hhook context =>
    obtain ⟨hdict, rfl⟩ : f.kind = .dict ∧ hook = pushEntry := by
      rcases f with ⟨_ | _, _⟩ <;> simp_all [plan, handler]
    refine keepsKeys_set hid hget fun d hold => ?_
    subst hold
    refine advances_pushEntry context d kind item fun hkind hok => ?_
    rcases hd : d.pending with _ | pending
    · rfl
    · exact absurd (waits_of_pending hdict hget hd) (hkey hkind hok)
  | appended hid hget hhook happend =>
    refine keepsKeys_set hid hget fun d hold => ?_
    subst hold
    cases happend

/-- A dict that closes while no key waits is left as it was. -/
lemma get?_ended {tree tree' : Tree schema} {f : Frame schema} {result : Except BuildError Unit}
    {id : Nat} {d : OpenDict} (h : Ended plan t tree f tree' result) (hwaits : ¬ Waits tree [f])
    (hget : tree.get? id = some (.custom d)) : tree'.get? id = some (.custom d) := by
  cases h with
  | kept => exact hget
  | closed hid hnode =>
    have hne : id ≠ f.id := by
      rintro rfl
      rw [hnode] at hget
      cases hget
    rw [Tree.get?_set_of_ne _ _ hne, hget]
  | @hooked old hook hid hold hhook context =>
    obtain ⟨hdict, rfl⟩ : f.kind = .dict ∧ hook = endDict := by
      rcases f with ⟨_ | _, _⟩ <;> simp_all [plan, handler]
    have hsame : (endDict context old t).state.2 = old := by
      rcases old with n | items | ⟨entries, _ | pending⟩
      · rfl
      · rfl
      · rfl
      · exact absurd (waits_of_pending hdict hold rfl) hwaits
    rw [hsame, set_eq_self hold, hget]

/-- The end of a key is refused, because keys are leaves. -/
lemma not_ok_stop_key (ht : t.tag = .stop .key) : (b.write plan t).result ≠ .ok () := by
  rw [write_stop ht]
  by_cases hfit : b.kinds.head? = some .key
  · obtain ⟨f, hf, hkind⟩ : ∃ f, b.frames.head? = some f ∧ f.kind = .key := by
      simpa [kinds] using hfit
    obtain ⟨fs, hframes⟩ : ∃ fs, b.frames = f :: fs := List.head?_eq_some_iff.1 hf
    exact not_ok_closeSlot_of_leaf hframes hkind rfl
  · rw [closeSlot_of_ne hfit]
    simp

/-- **Step**: a write that does not ask for the options loses no key. -/
lemma keepsKeys_write (hb : b.Stacked) (h : ¬ Asks b t) :
    KeepsKeys b.tree (b.write plan t).state.tree := by
  have hend : t.tag = .stop .key → (b.write plan t).result ≠ .ok () := not_ok_stop_key
  have hwritten := written plan hb t
  generalize (b.write plan t).state.tree = tree at hwritten ⊢
  generalize (b.write plan t).state.frames = frames at hwritten
  generalize (b.write plan t).result = result at hwritten hend
  have htag {role : Role} {kind : Kind} (hclass : plan.classify t = (role, kind)) :
      t.tag = ⟨role, kind⟩ := by
    rcases ht : t.tag with ⟨role', kind'⟩
    simpa [plan, classify, ht] using hclass
  have hopen {f : Frame schema} {fs : List (Frame schema)} (hframes : b.frames = f :: fs)
      (hclass : plan.classify t = (.stop, f.kind)) : ¬ Waits b.tree [f] := by
    rintro ⟨g, hg, hdict, hwaits⟩
    obtain rfl : f = g := Option.some.inj hg
    refine h ⟨.inr ?_, f, by rw [hframes]; rfl, hdict, hwaits⟩
    rw [htag hclass, hdict]
    rfl
  cases hwritten with
  | skipped | refused => exact .refl _
  | detached => exact fun id d hget => ⟨d, get?_insert_of_get? hget _, .same d⟩
  | @attached kind shape _ _ hclass hshape heval hgiven =>
    have hkey : kind ≠ .key := by
      rintro rfl
      cases heval
    have hkept : KeepsKeys (b.tree.insert shape) tree :=
      keepsKeys_given hgiven fun hkind => absurd hkind hkey
    exact fun id d hget => hkept id d (get?_insert_of_get? hget shape)
  | closed hclass hframes hended =>
    exact fun id d hget => ⟨d, get?_ended hended (hopen hframes hclass) hget, .same d⟩
  | @evaluated f fs mid _ _ hclass hframes hended v hgiven =>
    have hkept : KeepsKeys mid tree := keepsKeys_given hgiven fun hkey hok =>
      absurd hok (hend (by rw [htag hclass, hkey]; rfl))
    exact fun id d hget => hkept id d (get?_ended hended (hopen hframes hclass) hget)
  | leaf hclass hitem hgiven =>
    refine keepsKeys_given hgiven fun hkey _ hwaits => h ⟨.inl ?_, hwaits⟩
    rw [htag hclass, hkey]
    rfl

/-! ### Runs -/

/-- No token asks for the options when its turn comes. -/
abbrev NoneAsks (b : Builder schema) (ts : List schema.Token) : Prop :=
  Throughout plan (fun b t => ¬ Asks b t) b ts

/-- **Run**: under other options the same is made of tokens that do not ask. -/
lemma noneAsks_run {ts : List schema.Token} (h : NoneAsks b ts) :
    NoneAsks (b.withContext o) ts ∧ (b.withContext o).results plan ts = b.results plan ts ∧
      (b.withContext o).after plan ts = (b.after plan ts).withContext o := by
  induction ts generalizing b with
  | nil => exact ⟨trivial, rfl, rfl⟩
  | cons t ts ih =>
    obtain ⟨hresult, hstate⟩ := sameBut_write (o := o) h.1
    obtain ⟨hnone, hresults, hafter⟩ := ih h.2
    rw [← hstate] at hnone hresults hafter
    exact ⟨⟨h.1, hnone⟩, congrArg₂ List.cons hresult hresults, hafter⟩

lemma after_withContext {ts : List schema.Token} (h : NoneAsks b ts) (o : Options) :
    (b.withContext o).after plan ts = (b.after plan ts).withContext o :=
  (noneAsks_run h).2.2

lemma context_after {ts : List schema.Token} (h : NoneAsks b ts) :
    (b.after plan ts).context = b.context := by
  have hafter : b.after plan ts = (b.after plan ts).withContext b.context :=
    after_withContext h b.context
  rw [hafter]
  rfl

lemma noneAsks_of_accepts {ts : List schema.Token} (hpolicy : b.context.keyPolicy = .reject)
    (h : b.Accepts plan ts) : NoneAsks b ts := by
  obtain ⟨taken, rest, rfl, htaken, hrest⟩ := exists_throughout plan (fun b t => ¬ Asks b t) b ts
  rcases rest with _ | ⟨t, more⟩
  · rwa [List.append_nil]
  · obtain ⟨message, hloses⟩ := (not_not.1 (hrest t rfl)).loses
    have hok : ((b.after plan taken).write plan t).result = .ok () := (accepts_append.1 h).2.1
    rw [hloses.result, context_after htaken, if_pos hpolicy] at hok
    cases hok

/-- Two builders make the same of some tokens, and lose no key with any of them. -/
structure InStep (b b' : Builder schema) (ts : List (Token Tag)) : Prop where
  results : b'.results plan ts = b.results plan ts
  same : ∀ first, first <+: ts → (b'.after plan first).tree = (b.after plan first).tree ∧
    (b'.after plan first).frames = (b.after plan first).frames
  kept : ∀ first t, first ++ [t] <+: ts → (∀ message, ¬ Loses (b.after plan first) t message) ∧
    KeepsKeys (b.after plan first).tree (b.after plan (first ++ [t])).tree

lemma inStep_of_noneAsks (hb : b.Stacked) {ts : List (Token Tag)} (h : NoneAsks b ts) :
    InStep b (b.withContext o) ts where
  results := (noneAsks_run h).2.1
  same first hfirst := by
    obtain ⟨rest, rfl⟩ := hfirst
    rw [after_withContext (throughout_append.1 h).1]
    exact ⟨rfl, rfl⟩
  kept first t hfirst := by
    obtain ⟨rest, rfl⟩ := hfirst
    rw [List.append_assoc] at h
    have hasks : ¬ Asks (b.after plan first) t := (throughout_append.1 h).2.1
    refine ⟨fun message hloses => hasks hloses.asks, ?_⟩
    rw [after_append]
    exact keepsKeys_write (hb.after first) hasks

/-- **Strictness is about lost keys only**: of any tokens, with any texts, two builders that differ
in their policy for keys make the same until a token loses a key, whether or not some were refused.
The lax builder takes that token and the strict one refuses it. What the strict builder takes as a
whole, the lax one takes too, and neither loses a key. -/
theorem strict_until_key_lost (o : Options) (tokens : List (Token Tag)) :
    let lax : Builder schema := { context := { o with keyPolicy := .overwrite } }
    let strict : Builder schema := { context := { o with keyPolicy := .reject } }
    (∃ taken rest, tokens = taken ++ rest ∧ InStep lax strict taken ∧
      ∀ t ∈ rest.head?, ∃ message, Loses (lax.after plan taken) t message ∧
        ((lax.after plan taken).write plan t).result = .ok () ∧
        ((strict.after plan taken).write plan t).result = .error (rejected .dict message)) ∧
    (strict.Accepts plan tokens → lax.Accepts plan tokens ∧ InStep lax strict tokens) := by
  intro lax strict
  have hlax : lax.Stacked := stacked_start _
  refine ⟨?_, fun haccepts => ?_⟩
  · obtain ⟨taken, rest, hsplit, htaken, hrest⟩ :=
      exists_throughout plan (fun b t => ¬ Asks b t) lax tokens
    refine ⟨taken, rest, hsplit, inStep_of_noneAsks hlax htaken, fun t ht => ?_⟩
    obtain ⟨message, hloses⟩ := (not_not.1 (hrest t ht)).loses
    have hafter : strict.after plan taken = (lax.after plan taken).withContext strict.context :=
      after_withContext htaken strict.context
    refine ⟨message, hloses, ?_, ?_⟩
    · rw [hloses.result, context_after htaken]
      rfl
    · rw [hafter, hloses.withContext.result]
      rfl
  · have hnone : NoneAsks lax tokens := (noneAsks_run (noneAsks_of_accepts rfl haccepts)).1
    have hstep : InStep lax strict tokens := inStep_of_noneAsks hlax hnone
    refine ⟨accepts_iff.2 fun result hresult => accepts_iff.1 haccepts result ?_, hstep⟩
    rwa [hstep.results]

/-- A key that has its value before the dict closes, for which the policies are the same. -/
theorem strict_takes_paired_key :
    let tokens : List (Token Tag) := [⟨.start .dict, "\x7b", 0, 1⟩, ⟨.leaf .key, "k", 1, 2⟩,
      ⟨.leaf .int, "1", 3, 4⟩, ⟨.stop .dict, "\x7d", 4, 5⟩]
    let lax : Builder schema := { context := { keyPolicy := .overwrite } }
    let strict : Builder schema := { context := { keyPolicy := .reject } }
    strict.Accepts plan tokens ∧ lax.Accepts plan tokens ∧ InStep lax strict tokens := by
  intro tokens lax strict
  have haccepts : strict.Accepts plan tokens := accepts_iff.2 (by decide)
  exact ⟨haccepts, (strict_until_key_lost {} tokens).2 haccepts⟩

/-- An end that closes nothing is refused by both policies, and the second key only by the strict
one. -/
example :
    let tokens : List (Token Tag) := [⟨.stop .dict, "\x7d", 0, 1⟩, ⟨.start .dict, "\x7b", 1, 2⟩,
      ⟨.leaf .key, "a", 2, 3⟩, ⟨.leaf .key, "b", 4, 5⟩]
    let lax : Builder schema := { context := { keyPolicy := .overwrite } }
    let strict : Builder schema := { context := { keyPolicy := .reject } }
    lax.results plan tokens = [.error (.unbalanced "Dict"), .ok (), .ok (), .ok ()] ∧
      strict.results plan tokens = [.error (.unbalanced "Dict"), .ok (), .ok (),
        .error (rejected .dict "key \"a\" has no value before key \"b\"")] := by
  decide

end PropertyList

end ScanTree
