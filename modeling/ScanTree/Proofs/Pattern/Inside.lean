import ScanTree.Proofs.Pattern.Closing
import ScanTree.Proofs.Pattern.Renumbering

/-!
Reading a text inside a group.

There the levels of the reader lie inside those of its host, and its groups come after the groups
that the host has seen. Apart from that it goes through the text as it does alone, step by step.
Only a name that the host has taken can stop it.
-/

namespace ScanTree.Pattern

section Renumber

variable {f : Nat → Nat}

def Part.renumber (f : Nat → Nat) (p : Part) : Part := { p with pattern := p.pattern.renumber f }

def Level.renumber (f : Nat → Nat) (l : Level) : Level :=
  ⟨l.earlier.map (Part.renumber f), l.items.map (Part.renumber f)⟩

def Enclosing.renumber (f : Nat → Nat) (e : Enclosing) : Enclosing :=
  { e with level := e.level.renumber f, index := e.index.map f }

lemma Part.depthOf_renumber (ps : List Part) : depthOf (ps.map (Part.renumber f)) = depthOf ps := by
  simp only [depthOf, List.map_map, List.length_map, Function.comp_def, Part.renumber]

lemma Part.patterns_renumber (ps : List Part) :
    (ps.map (Part.renumber f)).map Part.pattern =
      (ps.map Part.pattern).map (Pattern.renumber f) := by
  simp only [List.map_map, Function.comp_def, Part.renumber]

lemma Part.row_renumber (ps : List Part) :
    Part.row (ps.map (Part.renumber f)) = (Part.row ps).renumber f := by
  simp only [Part.row, depthOf_renumber, patterns_renumber, concat_renumber]
  rfl

lemma Part.fork_renumber (hf : Function.Injective f) (ps : List Part) :
    Part.fork (ps.map (Part.renumber f)) = (Part.fork ps).renumber f := by
  simp only [Part.fork, depthOf_renumber, patterns_renumber, choice_renumber hf]
  rfl

namespace Level

lemma current_renumber (l : Level) : (l.renumber f).current = l.current.renumber f := by
  rw [current, current, ← Part.row_renumber, List.map_reverse]
  rfl

lemma whole_renumber (hf : Function.Injective f) (l : Level) :
    (l.renumber f).whole = l.whole.renumber f := by
  rw [whole, whole, ← Part.fork_renumber hf, List.map_reverse, List.map_cons, current_renumber]
  rfl

lemma bar_renumber (l : Level) : l.bar.renumber f = (l.renumber f).bar := by
  simp only [bar, current_renumber]
  rfl

lemma repeat?_renumber (l : Level) (min : Nat) (max : Option Nat) (greedy : Bool) :
    (l.renumber f).repeat? min max greedy = (l.repeat? min max greedy).map (renumber f) := by
  obtain ⟨earlier, _ | ⟨p, items⟩⟩ := l
  · rfl
  · simp only [repeat?, renumber, List.map_cons, Part.renumber, repeated_renumber]
    split_ifs <;> rfl

end Level

end Renumber

namespace Reader

/-- The reader of a text inside the innermost group of a host. -/
def inside (r host : Reader) : Reader where
  level := r.level.renumber (· + host.groups)
  outer := r.outer.map (Enclosing.renumber (· + host.groups)) ++ host.outer
  flags := r.flags
  groups := r.groups + host.groups
  names := r.names ++ host.names

variable {r r' host : Reader} {cs rest : List Char}

lemma add_injective (k : Nat) : Function.Injective (· + k) := fun _ _ h => Nat.add_right_cancel h

lemma push_inside (r host : Reader) (p : Part) :
    (r.push p).inside host = (r.inside host).push (p.renumber (· + host.groups)) := rfl

lemma pushItem_inside (r host : Reader) {p : Pattern} (hp : p.renumber (· + host.groups) = p) :
    (r.pushItem p).inside host = (r.inside host).pushItem p := by
  rw [pushItem, push_inside, Part.renumber, hp]
  rfl

lemma capture_inside (r host : Reader) : r.capture.inside host = (r.inside host).capture := by
  have hgroups : r.groups + 1 + host.groups = r.groups + host.groups + 1 := Nat.add_right_comm ..
  simp [capture, descend, inside, Level.renumber, Enclosing.renumber, hgroups]

lemma close?_inside (h : r.close? = some r') (host : Reader) :
    (r.inside host).close? = some (r'.inside host) := by
  unfold close? at h ⊢
  rcases hout : r.outer with _ | ⟨e, outer⟩
  · rw [hout] at h
    cases h
  · rw [hout] at h
    cases h
    simp only [inside, hout, List.map_cons, List.cons_append, Enclosing.renumber,
      Level.whole_renumber (add_injective _)]
    rcases e.index with _ | i <;> rfl

lemma named_inside (h : r.named cs = some (r', rest)) (host : Reader) :
    (r.inside host).named cs = some (r'.inside host, rest) ∨ (r.inside host).named cs = none := by
  unfold named at h ⊢
  rw [List.span_eq_takeWhile_dropWhile] at h ⊢
  rcases hdrop : cs.dropWhile (· ≠ '>') with _ | ⟨mark, after⟩
  · rw [hdrop] at h
    cases h
  · simp only [hdrop] at h ⊢
    split_ifs at h with hname
    cases h
    split_ifs
    · refine .inl ?_
      rw [← capture_inside]
      rfl
    · exact .inr rfl

lemma enter?_inside {head : Heading} (h : r.enter? head = some (r', rest)) (host : Reader) :
    (r.inside host).enter? head = some (r'.inside host, rest) ∨
      (r.inside host).enter? head = none := by
  rcases head with cs | cs | cs
  · exact named_inside h host
  · obtain ⟨⟨flags, stop, after⟩, hread, heq⟩ := Option.map_eq_some_iff.1 h
    have hread : (r.inside host).flags.read [] cs = some (flags, stop, after) := hread
    refine .inl ?_
    simp only [enter?, hread, Option.map_some]
    simp only at heq
    split_ifs at heq ⊢ <;> cases heq <;> rfl
  · cases h
    exact .inl (by rw [capture_inside]; rfl)

lemma repetition_inside {min : Nat} {max : Option Nat}
    (h : r.repetition min max cs = some (r', rest)) (host : Reader) :
    (r.inside host).repetition min max cs = some (r'.inside host, rest) := by
  rw [repetition_eq] at h ⊢
  obtain ⟨level, hlevel, heq⟩ := Option.map_eq_some_iff.1 h
  cases heq
  simp only [inside, Level.repeat?_renumber, hlevel, Option.map_some]

lemma escaped_inside (r host : Reader) (e : Escape) :
    (r.escaped e).inside host = (r.inside host).escaped e := by
  cases e <;> rfl

/-- **Steps inside a group**: an item is read as it is alone, or its name is taken. -/
lemma step_inside {props : Properties} {c : Char} (h : r.step props c cs = some (r', rest))
    (host : Reader) :
    (r.inside host).step props c cs = some (r'.inside host, rest) ∨
      (r.inside host).step props c cs = none := by
  have hflags : (r.inside host).flags = r.flags := rfl
  unfold step at h
  split at h
  · rw [opening_eq] at h
    have hinside := enter?_inside h host
    rw [← hflags, ← opening_eq] at hinside
    exact hinside
  · obtain ⟨closed, hclosed, heq⟩ := Option.map_eq_some_iff.1 h
    cases heq
    exact .inl (by simp [step, close?_inside hclosed])
  · cases h
    exact .inl (by simp [step, inside, Level.bar_renumber])
  · obtain ⟨⟨set, after⟩, hread, heq⟩ := Option.map_eq_some_iff.1 h
    cases heq
    exact .inl (by simp only [step, hflags, hread, Option.map_some]; rfl)
  · exact .inl (repetition_inside h host)
  · exact .inl (repetition_inside h host)
  · exact .inl (repetition_inside h host)
  · obtain ⟨⟨min, max, after⟩, hread, h⟩ := Option.bind_eq_some_iff.1 h
    refine .inl ?_
    simp only [step, hflags, hread, Option.bind_eq_bind, Option.bind_some]
    exact repetition_inside h host
  · obtain ⟨⟨e, after⟩, hread, heq⟩ := Option.map_eq_some_iff.1 h
    cases heq
    exact .inl (by simp only [step, hflags, hread, Option.map_some, escaped_inside])
  · obtain ⟨p, hdot, heq⟩ := Option.map_eq_some_iff.1 h
    cases heq
    have hp : p.renumber (· + host.groups) = p := by
      unfold Flags.dot? at hdot
      split_ifs at hdot <;> cases hdot <;> rfl
    exact .inl (by simp only [step, hflags, hdot, Option.map_some, pushItem_inside r host hp])
  · cases h
    exact .inl rfl
  · cases h
    exact .inl rfl
  · cases h
    refine .inl ?_
    unfold step
    split <;> first | rfl | simp_all

end Reader

end ScanTree.Pattern
