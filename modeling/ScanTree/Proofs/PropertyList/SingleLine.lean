import Mathlib.Algebra.BigOperators.Group.List.Basic
import ScanTree.Proofs.PropertyList.Reformatting

/-!
The line feeds in the text of a value that is written on a single line.

Strings are written with escapes, so a line feed in a string leaves the line whole. Keys in quotes,
dates and chunks of data stand in the text as they are, and so do their line feeds. Dates and chunks
that are read from a text have none, but a key may have one: the escapes of keys are for the quote
and the backslash only.
-/

namespace ScanTree

namespace Text

lemma lineFeeds_digits {cs : List Char} (h : RealText.AllDigits cs) : lineFeeds cs = 0 :=
  lineFeeds_eq_zero.2 fun hmem => absurd (h _ hmem) (by decide)

lemma lineFeeds_flatMap {α : Type} (f : α → List Char) (xs : List α) :
    lineFeeds (xs.flatMap f) = (xs.map fun x => lineFeeds (f x)).sum := List.count_flatMap

def breaks (texts : List String) : Nat := lineFeeds (texts.flatMap String.toList)

@[simp] lemma breaks_nil : breaks [] = 0 := rfl

@[simp] lemma breaks_cons (text : String) (texts : List String) :
    breaks (text :: texts) = lineFeeds text.toList + breaks texts := by
  rw [breaks, List.flatMap_cons, lineFeeds_append, breaks]

lemma breaks_append (xs ys : List String) : breaks (xs ++ ys) = breaks xs + breaks ys := by
  rw [breaks, List.flatMap_append, lineFeeds_append, breaks, breaks]

lemma breaks_flatMap {α : Type} (f : α → List String) (xs : List α) :
    breaks (xs.flatMap f) = (xs.map fun x => breaks (f x)).sum := by
  rw [breaks, List.flatMap_assoc, lineFeeds_flatMap]
  rfl

lemma breaks_pos {texts : List String} :
    0 < breaks texts ↔ ∃ text ∈ texts, '\n' ∈ text.toList := by
  rw [breaks, lineFeeds, List.count_pos_iff, List.mem_flatMap]

end Text

namespace PropertyList

open Text

/-! ### Scalars and keys -/

lemma lineFeeds_stringChar (c : Char) : lineFeeds (stringChar c) = 0 := by
  unfold stringChar
  split_ifs <;> simp [*]

lemma lineFeeds_stringText (s : List Char) : lineFeeds (stringText s) = 0 := by
  simp [stringText, lineFeeds_flatMap, lineFeeds_stringChar]

lemma lineFeeds_keyChar (c : Char) : lineFeeds (keyChar c) = lineFeeds [c] := by
  unfold keyChar
  split_ifs <;> simp

lemma lineFeeds_keyText (key : List Char) : lineFeeds (keyText key) = lineFeeds key := by
  have hinside : lineFeeds (key.flatMap keyChar) = lineFeeds key := by
    calc lineFeeds (key.flatMap keyChar)
        = (key.map fun c => lineFeeds [c]).sum := by
          simp only [lineFeeds_flatMap, lineFeeds_keyChar]
      _ = lineFeeds key := by rw [← lineFeeds_flatMap, List.flatMap_singleton']
  unfold keyText
  split_ifs
  · rfl
  · simp [hinside]

lemma lineFeeds_dataText (chunks : List String) : lineFeeds (dataText chunks) = breaks chunks := by
  induction chunks with
  | nil => rfl
  | cons chunk chunks ih =>
    rcases chunks with _ | ⟨next, chunks⟩
    · simp [dataText]
    · simp [dataText, ih]

lemma lineFeeds_sign {s : List Char} (hs : s = [] ∨ s = ['-']) : lineFeeds s = 0 := by
  rcases hs with rfl | rfl <;> rfl

lemma lineFeeds_write (n : Int64) : lineFeeds (Integer.write n) = 0 := by
  obtain ⟨s, hs, hwrite⟩ := Integer.write_eq n
  rw [hwrite, lineFeeds_append, lineFeeds_sign hs, lineFeeds_digits Integer.isDigit_toDigits]

lemma lineFeeds_realText (x : Binary64) : lineFeeds (realText x) = 0 := by
  rcases x with _ | negative | ⟨negative, rank⟩
  · rfl
  · cases negative <;> rfl
  · obtain ⟨s, ds, es, hs, hds, -, hes, -, htext, -⟩ :=
      RealFormat.read_finite realFormat (fun _ => rfl) negative rank
    rw [realText, htext, lineFeeds_append, lineFeeds_append, lineFeeds_cons, lineFeeds_sign hs,
      lineFeeds_digits hds, lineFeeds_digits hes]
    rfl

/-! ### Values -/

namespace Value

def ownKeys : Value → List String
  | dict entries => entries.map Prod.fst
  | _ => []

def ownLiterals : Value → List String
  | date text => [text]
  | data chunks => chunks
  | _ => []

/-- The keys of all dicts in a value. -/
def keys (v : Value) : List String := v.parts.flatMap ownKeys

/-- The texts of all dates and the chunks of all data blocks in a value. -/
def literals (v : Value) : List String := v.parts.flatMap ownLiterals

lemma breaks_parts (own : Value → List String) (v : Value) :
    breaks (v.parts.flatMap own) =
      breaks (own v) + (v.children.map fun w => breaks (w.parts.flatMap own)).sum := by
  rw [parts_eq, List.flatMap_cons, List.flatMap_assoc, breaks_append, breaks_flatMap]

end Value

open Value

lemma lineFeeds_renderItems (items : List Value) :
    lineFeeds (renderItems items) = (items.map fun w => lineFeeds (w.render none)).sum := by
  induction items with
  | nil => rfl
  | cons v items ih =>
    -- The last item has no comma behind it.
    rcases items with _ | ⟨next, items⟩
    · simp [renderItems]
    · simp [renderItems, ih]

lemma lineFeeds_renderEntries (entries : List (String × Value)) :
    lineFeeds (renderEntries none entries) = breaks (entries.map Prod.fst) +
      (entries.map fun e => lineFeeds (e.2.render none)).sum := by
  induction entries with
  | nil => rfl
  | cons e entries ih =>
    obtain ⟨key, v⟩ := e
    have hkey : lineFeeds (lineBreak none ++ keyText key.toList ++ [' ', '=', ' ']) =
        lineFeeds key.toList := by
      simp [lineBreak, lineFeeds_keyText]
    have hrest : lineFeeds (';' :: renderEntries none entries) =
        lineFeeds (renderEntries none entries) := by simp
    rw [renderEntries, lineFeeds_append, lineFeeds_append, hkey, hrest, ih, List.map_cons,
      breaks_cons, List.map_cons, List.sum_cons]
    exact Nat.add_add_add_comm _ _ _ _

/-- **One value**: its text has the line feeds of its own keys and literals, and those of the texts
of the values directly inside it. -/
lemma lineFeeds_render (v : Value) : lineFeeds (v.render none) =
    breaks v.ownKeys + breaks v.ownLiterals +
      (v.children.map fun w => lineFeeds (w.render none)).sum := by
  cases v with
  | dict entries =>
    rcases entries with _ | ⟨e, entries⟩
    · rfl
    · have hentries := lineFeeds_renderEntries (e :: entries)
      simp [render, lineBreak, hentries, ownKeys, ownLiterals, children, Function.comp_def]
  | array items =>
    rcases items with _ | ⟨v, items⟩
    · rfl
    · simp [render, lineFeeds_renderItems, ownKeys, ownLiterals, children]
  | string s => exact lineFeeds_stringText s.toList
  | integer n => exact lineFeeds_write n
  | real x => exact lineFeeds_realText x
  | boolean b => cases b <;> rfl
  | date text => simp [render, ownKeys, ownLiterals, children]
  | data chunks => simp [render, lineFeeds_dataText, ownKeys, ownLiterals, children]

/-- **All values**: the line feeds in the text of a value are those of its keys, dates and chunks of
data, at any depth. -/
theorem lineFeeds_inline (v : Value) :
    lineFeeds v.inline.toList = breaks v.keys + breaks v.literals := by
  rw [Value.inline, String.toList_ofList]
  -- The texts of a value are its own and those of its children, which the hypothesis is about.
  induction v using Value.induction with
  | step v ih =>
    calc lineFeeds (v.render none)
        = breaks v.ownKeys + breaks v.ownLiterals +
            (v.children.map fun w => lineFeeds (w.render none)).sum := lineFeeds_render v
      _ = breaks v.ownKeys + breaks v.ownLiterals +
            ((v.children.map fun w => breaks w.keys).sum +
              (v.children.map fun w => breaks w.literals).sum) := by
          rw [List.map_congr_left ih, List.sum_map_add]
      _ = breaks v.keys + breaks v.literals := by
          rw [keys, literals, breaks_parts, breaks_parts]
          exact Nat.add_add_add_comm _ _ _ _

lemma literals_of_parse {input : String} {v : Value} (h : parse input = .ok v) :
    ∀ text ∈ v.literals, '\n' ∉ text.toList := by
  intro text htext
  obtain ⟨w, hw, htext⟩ := List.mem_flatMap.1 htext
  have hfit : Fit input w := fit_of_parse h w hw
  cases w with
  | date literal =>
    obtain rfl := List.mem_singleton.1 htext
    exact Pattern.not_mem_of_spells (by decide) (spells_of_isDate hfit)
  | data chunks =>
    obtain ⟨hdigits, -⟩ := isChunk_iff.1 (hfit.1 text htext)
    exact fun hmem => absurd (hdigits _ hmem) (by decide)
  | _ => cases htext

/-- **A single line**: where dates and chunks of data have no line feed, as in every value that is
read from a text, the text of the value has one just when one of its keys has one. -/
theorem inline_single_line (v : Value) :
    ((∀ text ∈ v.literals, '\n' ∉ text.toList) →
      ('\n' ∈ v.inline.toList ↔ ∃ key ∈ v.keys, '\n' ∈ key.toList)) ∧
    ∀ input, parse input = .ok v → ∀ text ∈ v.literals, '\n' ∉ text.toList := by
  refine ⟨fun hliterals => ?_, fun input h => literals_of_parse h⟩
  have hnone : ¬ 0 < breaks v.literals := by
    rw [breaks_pos]
    exact fun ⟨text, htext, hmem⟩ => hliterals text htext hmem
  have hcount : lineFeeds v.inline.toList = breaks v.keys := by
    rw [lineFeeds_inline, Nat.eq_zero_of_not_pos hnone, Nat.add_zero]
  calc '\n' ∈ v.inline.toList
      ↔ 0 < lineFeeds v.inline.toList := List.count_pos_iff.symm
    _ ↔ 0 < breaks v.keys := by rw [hcount]
    _ ↔ ∃ key ∈ v.keys, '\n' ∈ key.toList := breaks_pos

def foldedString : Value := dict [("a b", array [string "c\nd"]), ("e", data ["0F", "1"])]

set_option maxRecDepth 4000 in
/-- Read from a text of two lines, it is written on one. -/
theorem inline_single_line_escaped :
    parse "\x7b \"a b\" = (\"c\nd\"); e = <0F 1>; \x7d" = .ok foldedString ∧
      '\n' ∉ foldedString.inline.toList := by
  have hparse : parse "\x7b \"a b\" = (\"c\nd\"); e = <0F 1>; \x7d" = .ok foldedString := by
    rw [parse_eq_drain]
    rfl
  have hkeys : ∀ key ∈ foldedString.keys, '\n' ∉ key.toList := by decide
  obtain ⟨hline, hread⟩ := inline_single_line foldedString
  refine ⟨hparse, fun hmem => ?_⟩
  obtain ⟨key, hkey, hbreak⟩ := (hline (hread _ hparse)).1 hmem
  exact hkeys key hkey hbreak

set_option maxRecDepth 4000 in
/-- A key on two lines is written on two lines. -/
theorem key_breaks_line : ∃ v, parse "\x7b\"a\nb\"=1\x7d" = .ok v ∧
    (∀ text ∈ v.literals, '\n' ∉ text.toList) ∧ v.inline = "\x7b \"a\nb\" = 1; \x7d" ∧
    '\n' ∈ v.inline.toList := by
  have hparse : parse "\x7b\"a\nb\"=1\x7d" = .ok (dict [("a\nb", integer 1)]) := by
    rw [parse_eq_drain]
    rfl
  exact ⟨_, hparse, by decide, by decide +kernel, by decide +kernel⟩

end PropertyList

end ScanTree
