import Mathlib.Data.List.Induction
import Mathlib.Data.Nat.Digits.Defs
import ScanTree.Proofs.Coverage
import ScanTree.Proofs.PropertyList.RoundTrip

/-!
Texts that are one integer.

A decimal or hexadecimal numeral with at most one sign before it is read as the number it stands
for, however many digits it has, if that number fits in 64 bits. Otherwise it is refused where it
begins.
-/

namespace ScanTree

namespace Integer

/-- The value of a decimal or hexadecimal digit of either case, which is its place among them. -/
def digitOf (c : Char) : Nat := "0123456789abcdef".toList.idxOf c.toLower

/-- The number that some digits stand for, the first of which counts most. -/
def positional (base : Nat) (ds : List Char) : Nat := Nat.ofDigits base (ds.map digitOf).reverse

/-- The number that a sign and some digits stand for. -/
def signed (sign : List Char) (n : Nat) : Int := if sign = ['-'] then -(n : Int) else n

variable {radix : Nat} {ds : List Char}

lemma positional_append (base : Nat) (ds : List Char) (c : Char) :
    positional base (ds ++ [c]) = positional base ds * base + digitOf c := by
  simp [positional, Nat.ofDigits_cons, Nat.mul_comm, Nat.add_comm]

lemma magnitude_append (radix : Nat) (ds : List Char) (c : Char) :
    magnitude radix (ds ++ [c]) = magnitude radix ds * radix + (digitValue? radix c).getD 0 := by
  simp [magnitude, magnitudeFrom]

lemma magnitude_eq (h : ∀ c ∈ ds, digitValue? radix c = some (digitOf c)) :
    magnitude radix ds = positional radix ds := by
  induction ds using List.reverseRecOn with
  | nil => rfl
  | append_singleton ds c ih =>
    have hds : ∀ x ∈ ds, digitValue? radix x = some (digitOf x) := fun x hx =>
      h x (List.mem_append_left _ hx)
    have hc := h c (by simp)
    rw [magnitude_append, positional_append, ih hds, hc, Option.getD_some]

end Integer

namespace PropertyList

open Integer (digitOf positional signed)

/-! ### Digits -/

lemma digitValue?_of_hex {c : Char} (h : isHexDigit c = true) :
    Integer.digitValue? 16 c = some (digitOf c) :=
  forall_low (P := fun c => isHexDigit c = true → Integer.digitValue? 16 c = some (digitOf c))
    (by decide) (low_of_isHexDigit h) h

lemma digitValue?_of_decimal {c : Char} (h : c.isDigit = true) :
    Integer.digitValue? 10 c = some (digitOf c) :=
  forall_digit (P := fun c => Integer.digitValue? 10 c = some (digitOf c)) (by decide) h

lemma isDigits_of_digitValue? {radix : Nat} {ds : List Char}
    (h : ∀ c ∈ ds, Integer.digitValue? radix c = some (digitOf c)) : Integer.IsDigits radix ds :=
  fun c hc => by rw [h c hc]; rfl

lemma signedValue_eq {radix : Nat} {sign ds : List Char} (hsign : IsSign sign) (hne : ds ≠ [])
    (hds : ∀ c ∈ ds, Integer.digitValue? radix c = some (digitOf c)) :
    Integer.signedValue radix (sign ++ ds) = signed sign (positional radix ds) := by
  rw [← Integer.magnitude_eq hds]
  obtain ⟨c, rest, rfl⟩ := List.exists_cons_of_ne_nil hne
  rcases hsign with rfl | rfl | rfl
  · exact Integer.signedValue_of_isDigits (isDigits_of_digitValue? hds)
  · rfl
  · rfl

/-! ### Texts of one token -/

lemma location_scan (input : String) (excerptLength : Nat) :
    Location.ofContext input (scan input excerptLength).context = ⟨1, 1⟩ := by
  have hslice : Text.slice? 0 0 input.toList = some [] := Text.slice?_append [] [] input.toList
  show (⟨1, ((Text.slice? 0 0 input.toList).map List.length).getD 0 + 1⟩ : Location) = ⟨1, 1⟩
  rw [hslice]
  rfl

lemma leafItem_of_scalarValue {t : Token Tag} {e : BuildError} (h : scalarValue t = .error e) :
    leafItem t = .error e := by
  unfold scalarValue at h
  unfold leafItem
  rcases hf : evaluator? t.tag.kind with _ | f
  · rw [hf] at h
    cases h
  · rw [hf] at h
    have h : f t.text = .error e := h
    simp only [h]
    rfl

lemma before_of_pulls {s s' : Scan Tag Nesting} {e : Scan.Entry Tag Nesting}
    {es : List (Scan.Entry Tag Nesting)} (h : Pulls s (e :: es) s') : e.before = s.context := by
  cases h
  rfl

variable {i : Nat} {r : Rule Tag Nesting} {kind : Kind} {text : List Char}

/-- A text that is one scalar is read as its value, or refused where it begins. -/
lemma parse_of_picks (h : Picks (spaceRules ++ mainRules) i r text []) (htag : tagOf r = .leaf kind)
    (hkind : isScalar kind = true) (hland : landing r "main" [] = ("end", []))
    {result : Except BuildError Value}
    (hvalue : ∀ t : Token Tag, t.tag = .leaf kind → t.text = String.ofList text →
      scalarValue t = result) :
    parse (String.ofList text) = result.mapError (.invalid ⟨1, 1⟩) := by
  have hstands : Stands (scan (String.ofList text) (Options.excerptLength {}))
      ⟨"main", [], text ++ []⟩ := by
    rw [List.append_nil]
    have := stands_scan (String.ofList text) (Options.excerptLength {})
    rwa [String.toList_ofList] at this
  obtain ⟨e, s', hpulls, hetag, hetext, hs'⟩ := h.pulls mem_main hstands
  rw [hland] at hs'
  obtain ⟨last, log, hn⟩ := next_of_end hs'
  have htokens := tokens_eq hpulls hn rfl
  have htag' : e.token.tag = .leaf kind := hetag.trans htag
  have hscalar : scalarValue e.token = result := hvalue e.token htag' hetext
  have hrole : e.token.tag.role = .leaf ∧ isScalar e.token.tag.kind = true := by
    rw [htag']
    exact ⟨rfl, hkind⟩
  rcases result with err | v
  · have hbefore := before_of_pulls hpulls
    have hstring : kind ≠ .string := by
      rintro rfl
      cases hkind
    have hfeed : (feed (String.ofList text) { context := {} } [e]).1 =
        .error (.invalid ⟨1, 1⟩ err) := by
      rw [feed, write_leaf htag', leaf_error htag' hstring (leafItem_of_scalarValue hscalar),
        hbefore, location_scan]
    rw [parse, parseWith_eq, htokens, hfeed]
    rfl
  · have hblank : isBlankToken e.token = false := by
      simp [isBlankToken, htag', Tag.leaf, Tag.skip]
    refine parseWith_of_phrase (p := .scalar ⟨e.token, hrole⟩) ?_ hscalar (by rw [htokens])
    rw [htokens, skeleton_of_not_blank hblank]
    rfl

/-- A text for a number is read as that number if it fits in 64 bits, and is otherwise refused where
it begins. -/
def Exact (kind : Kind) (text : List Char) (n : Int) : Prop :=
  (-2 ^ 63 ≤ n ∧ n ≤ 2 ^ 63 - 1 →
    ∃ m : Int64, m.toInt = n ∧ parse (String.ofList text) = .ok (.integer m)) ∧
  (¬ (-2 ^ 63 ≤ n ∧ n ≤ 2 ^ 63 - 1) → parse (String.ofList text) =
    .error (.invalid ⟨1, 1⟩ (unreadable kind (String.ofList text) (Integer.outside n).message)))

lemma exact_of_read {radix : Nat} {numeral : List Char} (hradix : 1 ≤ radix)
    (hnumeral : Integer.IsNumeral radix numeral)
    (h : parse (String.ofList text) = Except.mapError (.invalid ⟨1, 1⟩)
      (match Integer.read radix numeral with
        | .ok n => .ok (.integer n)
        | .error e => .error (unreadable kind (String.ofList text) e.message))) :
    Exact kind text (Integer.signedValue radix numeral) := by
  obtain ⟨hok, herror⟩ := Integer.read_numeral hradix hnumeral
  refine ⟨fun hfits => ⟨_, Int64.toInt_ofInt_of_le hfits.1 (by omega), ?_⟩, fun hfits => ?_⟩
  · rw [h, hok hfits]
    rfl
  · rw [h, herror hfits]
    rfl

lemma hexDigits_eq {sign : List Char} (hsign : IsSign sign) (ds : List Char) :
    hexDigits (sign ++ '0' :: 'x' :: ds) = (if sign = ['-'] then ['-'] else []) ++ ds := by
  rcases hsign with rfl | rfl | rfl <;> rfl

/-- **Integers are exact** over the whole range of 64 bits, and outside of it they are refused: with
any sign or none, in decimal and in hexadecimal digits of either case, with any number of leading
zeros. -/
theorem integers_exact {sign ds : List Char} (hsign : IsSign sign) (hne : ds ≠ []) :
    ((∀ c ∈ ds, c.isDigit = true) →
      Exact .int (sign ++ ds) (signed sign (positional 10 ds))) ∧
    ((∀ c ∈ ds, isHexDigit c = true) →
      Exact .hexInt (sign ++ '0' :: 'x' :: ds) (signed sign (positional 16 ds))) := by
  refine ⟨fun hds => ?_, fun hds => ?_⟩
  · have hvalues : ∀ c ∈ ds, Integer.digitValue? 10 c = some (digitOf c) := fun c hc =>
      digitValue?_of_decimal (hds c hc)
    have hend : Delimited [] := by simp [Delimited]
    have hpicks := picks_int hsign hds hne hend
    rw [← signedValue_eq hsign hne hvalues]
    refine exact_of_read (by omega) ⟨sign, ds, hsign, isDigits_of_digitValue? hvalues, hne, rfl⟩
      (parse_of_picks hpicks rfl (by decide) rfl fun t ht htext => ?_)
    have hkind : t.tag.kind = .int := by rw [ht]; rfl
    rcases hread : Integer.read 10 (sign ++ ds) with e | n <;>
      simp only [scalarValue, hkind, evaluator?, htext, intValue, String.toList_ofList, hread]
  · have hvalues : ∀ c ∈ ds, Integer.digitValue? 16 c = some (digitOf c) := fun c hc =>
      digitValue?_of_hex (hds c hc)
    have hend : ∀ c ∈ ([] : List Char).head?, isHexDigit c = false := by simp
    have hpicks := picks_hex hsign hds hne hend
    -- The numeral of a hexadecimal literal has no plus.
    have hminus : IsSign (if sign = ['-'] then ['-'] else []) := by
      split_ifs
      · exact .inr (.inr rfl)
      · exact .inl rfl
    have hsigned (n : Nat) : signed sign n = signed (if sign = ['-'] then ['-'] else []) n := by
      unfold signed
      split_ifs <;> simp_all
    rw [hsigned, ← signedValue_eq hminus hne hvalues]
    refine exact_of_read (by omega) ⟨_, ds, hminus, isDigits_of_digitValue? hvalues, hne, rfl⟩
      (parse_of_picks hpicks rfl (by decide) rfl fun t ht htext => ?_)
    have hkind : t.tag.kind = .hexInt := by rw [ht]; rfl
    rcases hread : Integer.read 16 ((if sign = ['-'] then ['-'] else []) ++ ds) with e | n <;>
      simp only [scalarValue, hkind, evaluator?, htext, hexIntValue, String.toList_ofList,
        hexDigits_eq hsign, hread]

/-- The least number in hexadecimal digits, and the first beyond the greatest in decimal ones. -/
theorem integers_exact_at_ends :
    (∃ m : Int64, m.toInt = -2 ^ 63 ∧ parse "-0x8000000000000000" = .ok (.integer m)) ∧
    parse "+09223372036854775808" = .error (.invalid ⟨1, 1⟩ (rejected .int
      "\"+09223372036854775808\": number too large to fit in target type")) := by
  have hmin : signed ['-'] (positional 16 "8000000000000000".toList) = -2 ^ 63 := by decide +kernel
  have hmax : signed ['+'] (positional 10 "09223372036854775808".toList) = 2 ^ 63 := by
    decide +kernel
  have hminus : IsSign ['-'] := .inr (.inr rfl)
  have hplus : IsSign ['+'] := .inr (.inl rfl)
  have hhex : ∀ c ∈ "8000000000000000".toList, isHexDigit c = true := by simp [isHexDigit]
  have hdigits : ∀ c ∈ "09223372036854775808".toList, c.isDigit = true := by simp
  have hleast := (integers_exact hminus (by simp)).2 hhex
  have hbeyond := (integers_exact hplus (by simp)).1 hdigits
  rw [hmin] at hleast
  rw [hmax] at hbeyond
  exact ⟨hleast.1 (by decide), hbeyond.2 (by decide)⟩

end PropertyList

end ScanTree
