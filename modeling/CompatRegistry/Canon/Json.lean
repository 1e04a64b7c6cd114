import CompatRegistry.Foundation.DoubleText
import CompatRegistry.Foundation.Json
import CompatRegistry.Canon.Value
import CompatRegistry.Sha256

/-! Canonical values as JSON. Every value is rendered as one JSON text, whose arrays,
objects, keys and strings are those of the value. -/

namespace CompatRegistry

open Foundation
open DoubleText (doubleText)

/-- `std::hex << std::setw(width) << std::setfill('0') << n`, for a number of that many digits. -/
def hexPadded (width n : ℕ) : Bytes :=
  (List.range width).map fun i => Uuid.hexl ((n >>> (4 * (width - 1 - i))) % 16)

def jsonEscapeChar (uc : UInt8) : Bytes :=
  if uc = 0x22 then [0x5C, 0x22]
  else if uc = 0x5C then [0x5C, 0x5C]
  else if uc = 0x0A then 0x5C :: ascii "n"
  else if uc = 0x0D then 0x5C :: ascii "r"
  else if uc = 0x09 then 0x5C :: ascii "t"
  else if uc < 0x20 then 0x5C :: (ascii "u" ++ hexPadded 4 uc.toNat)
  else [uc]

def jsonEscape (s : Bytes) : Bytes := s.flatMap jsonEscapeChar

def quote (s : Bytes) : Bytes := [0x22] ++ jsonEscape s ++ [0x22]

namespace Canon

mutual
def canonicalToJson : Canon → Bytes
  | .null => ascii "null"
  | .uint v => decimal v.toNat
  | .int v => decimalInt v.toInt
  | .bool v => if v then ascii "true" else ascii "false"
  | .str s => quote s
  | .bytes s => quote (ascii "hex:" ++ Sha256.hexBytes s)
  | .uuid u => quote u.toString
  | .float x => doubleText x.toBinary64
  | .record r => ascii "\x7b" ++ jsonEntries 0 r ++ ascii "\x7d"
  | .sequence q => ascii "[" ++ jsonItems 0 q ++ ascii "]"

/-- The entries from index `i` on, each but the first of the record behind a comma. -/
def jsonEntries : ℕ → Record → Bytes
  | _, [] => []
  | i, (tag, c) :: r =>
    (if i ≠ 0 then ascii "," else []) ++
      ([0x22] ++ decimal tag.toNat ++ [0x22] ++ ascii ":" ++ canonicalToJson c) ++ jsonEntries (i + 1) r

def jsonItems : ℕ → Seq → Bytes
  | _, [] => []
  | i, c :: q => (if i ≠ 0 then ascii "," else []) ++ canonicalToJson c ++ jsonItems (i + 1) q
end

/-! ### The value of the text -/

mutual
/-- Records become objects whose keys are the tags, sequences become arrays, and
Str, Bytes and Uuid become strings. -/
def mirror : Canon → Json.Value
  | .null => .null
  | .uint v => .number (decimal v.toNat)
  | .int v => .number (decimalInt v.toInt)
  | .bool v => .bool v
  | .str s => .string s
  | .bytes s => .string (ascii "hex:" ++ Sha256.hexBytes s)
  | .uuid u => .string u.toString
  | .float x => .number (doubleText x.toBinary64)
  | .record r => .object (mirrorEntries r)
  | .sequence q => .array (mirrorItems q)

def mirrorEntries : Record → List (Bytes × Json.Value)
  | [] => []
  | (tag, c) :: r => (decimal tag.toNat, mirror c) :: mirrorEntries r

def mirrorItems : Seq → List Json.Value
  | [] => []
  | c :: q => mirror c :: mirrorItems q
end

/-! ### Strings -/

theorem unescapes_control : ∀ n < 32, hexPadded 4 n = [48, 48, Uuid.hexl (n / 16), Uuid.hexl (n % 16)] ∧
    Json.codeUnit 48 48 (Uuid.hexl (n / 16)) (Uuid.hexl (n % 16)) = some n := by
  decide

/-- What the escaper makes of a byte means that byte. -/
theorem unescapes_escapeChar (c : UInt8) {body s : Bytes} (h : Json.Unescapes body s) :
    Json.Unescapes (jsonEscapeChar c ++ body) (c :: s) := by
  rw [jsonEscapeChar]
  by_cases hquote : c = 0x22
  · subst hquote
    exact .short (by decide) h
  by_cases hbackslash : c = 0x5C
  · subst hbackslash
    exact .short (by decide) h
  by_cases hn : c = 0x0A
  · subst hn
    exact .short (by decide) h
  by_cases hr : c = 0x0D
  · subst hr
    exact .short (by decide) h
  by_cases ht : c = 0x09
  · subst ht
    exact .short (by decide) h
  rw [if_neg hquote, if_neg hbackslash, if_neg hn, if_neg hr, if_neg ht]
  by_cases hcontrol : c < 0x20
  · have hlt : c.toNat < 32 := UInt8.lt_iff_toNat_lt.mp hcontrol
    obtain ⟨hdigits, hunit⟩ := unescapes_control c.toNat hlt
    have hutf8 : Json.utf8 c.toNat = [c] := by
      rw [Json.utf8, if_pos (by omega), UInt8.ofNat_toNat]
    rw [if_pos hcontrol, hdigits]
    have htext := Json.Unescapes.unicode hunit
      ⟨by simp [Json.highSurrogate]; omega, by simp [Json.lowSurrogate]; omega⟩ h
    rw [hutf8] at htext
    exact htext
  · rw [if_neg hcontrol]
    exact .plain ⟨not_lt.mp hcontrol, hquote, hbackslash⟩ h

theorem unescapes_escape (s : Bytes) : Json.Unescapes (jsonEscape s) s := by
  induction s with
  | nil => exact .nil
  | cons c s ih => exact unescapes_escapeChar c ih

theorem literal_quote (s : Bytes) : Json.Literal s (quote s) := ⟨jsonEscape s, rfl, unescapes_escape s⟩

/-! ### Numbers -/

theorem digit_of_isDigit {c : Char} (h : c.isDigit = true) : Json.Digit (UInt8.ofNat c.toNat) := by
  have hrange : 48 ≤ c.toNat ∧ c.toNat ≤ 57 := by
    simpa [Char.isDigit, UInt32.le_iff_toNat_le] using h
  rw [Json.Digit, UInt8.le_iff_toNat_le, UInt8.le_iff_toNat_le, UInt8.toNat_ofNat']
  simp only [UInt8.reduceToNat]
  omega

theorem head_toDigits {n : ℕ} (hn : 0 < n) : (Nat.toDigits 10 n).head? ≠ some '0' := by
  induction n using Nat.strong_induction_on with
  | _ n ih =>
    by_cases hlt : n < 10
    · rw [Nat.toDigits_of_lt_base hlt]
      interval_cases n <;> decide
    · rw [Nat.toDigits_of_base_le (by norm_num) (by omega), List.head?_append_of_ne_nil _ Nat.toDigits_ne_nil]
      exact ih (n / 10) (by omega) (by omega)

theorem integer_decimal (n : ℕ) : Json.Integer (decimal n) := by
  have hdigit : ∀ c ∈ Nat.toDigits 10 n, c.isDigit = true :=
    fun c hc => Nat.isDigit_of_mem_toDigits (by norm_num) le_rfl hc
  rw [decimal, ascii, Nat.toList_repr]
  refine ⟨⟨by simp [Nat.toDigits_ne_nil], ?_⟩, fun hzero => ?_⟩
  · intro c hc
    obtain ⟨d, hd, rfl⟩ := List.mem_map.mp hc
    exact digit_of_isDigit (hdigit d hd)
  · rcases Nat.eq_zero_or_pos n with rfl | hn
    · rfl
    · cases hlist : Nat.toDigits 10 n with
      | nil => exact absurd hlist Nat.toDigits_ne_nil
      | cons d ds =>
        have hhead := head_toDigits hn
        rw [hlist, List.head?_cons] at hhead
        have hd : 48 ≤ d.toNat ∧ d.toNat ≤ 57 := by
          have := hdigit d (hlist ▸ List.mem_cons_self)
          simpa [Char.isDigit, UInt32.le_iff_toNat_le] using this
        have hcode : d.toNat = 48 := by
          rw [hlist, List.map_cons, List.head?_cons, Option.some.injEq, ← UInt8.toNat_inj, UInt8.toNat_ofNat'] at hzero
          simp only [UInt8.reduceToNat] at hzero
          omega
        exact absurd (congrArg some (Char.toNat_inj.mp hcode)) hhead

theorem number_of_integer {sign int frac exp : Bytes} (hsign : sign = [] ∨ sign = [45]) (hint : Json.Integer int)
    (hfrac : Json.Fraction frac) (hexp : Json.Exponent exp) : Json.Number (sign ++ int ++ frac ++ exp) :=
  ⟨sign, int, frac, exp, rfl, hsign, hint, hfrac, hexp⟩

theorem number_decimal (n : ℕ) : Json.Number (decimal n) := by
  have h := number_of_integer (.inl rfl) (integer_decimal n) (.inl rfl) (.inl rfl)
  simpa using h

theorem number_decimalInt (i : ℤ) : Json.Number (decimalInt i) := by
  rw [decimalInt]
  split_ifs
  · have h := number_of_integer (.inr rfl) (integer_decimal i.natAbs) (.inl rfl) (.inl rfl)
    simp only [List.append_nil] at h
    exact h
  · exact number_decimal _

/-! ### Doubles -/

theorem digits_paddedDecimal {width n : ℕ} (hw : 0 < width) : Json.Digits (DoubleText.paddedDecimal width n) := by
  constructor
  · simp [DoubleText.paddedDecimal]
    omega
  · intro c hc
    obtain ⟨i, -, rfl⟩ := List.mem_map.mp hc
    have hlt : n / 10 ^ (width - 1 - i) % 10 < 10 := Nat.mod_lt _ (by norm_num)
    rw [Json.Digit, UInt8.le_iff_toNat_le, UInt8.le_iff_toNat_le, UInt8.toNat_ofNat']
    simp only [UInt8.reduceToNat]
    omega

theorem fraction_fractionText {ds : Bytes} (h : ∀ c ∈ ds, Json.Digit c) :
    Json.Fraction (DoubleText.fractionText ds) := by
  rw [DoubleText.fractionText]
  split_ifs with hkept
  · exact .inl rfl
  · refine .inr ⟨_, rfl, hkept, fun c hc => h c ?_⟩
    exact List.mem_reverse.mp ((List.dropWhile_sublist _).subset (List.mem_reverse.mp hc))

theorem exponent_exponentText (e : ℤ) : Json.Exponent (DoubleText.exponentText e) := by
  refine .inr ⟨101, _, _, rfl, .inl rfl, ?_, ?_⟩
  · split_ifs <;> simp
  · split_ifs
    · exact digits_paddedDecimal (by norm_num)
    · exact (integer_decimal e.natAbs).toDigits

theorem number_doubleText (x : Binary64) : Json.Number (doubleText x) := by
  have hsign : ((if x.negative then [45] else []) : Bytes) = [] ∨
      ((if x.negative then [45] else []) : Bytes) = [45] := by
    split_ifs <;> simp
  have hpoint : ∀ width q : ℕ, ∃ int frac, DoubleText.pointText width q = int ++ frac ∧ Json.Integer int ∧
      Json.Fraction frac := by
    intro width q
    refine ⟨_, _, rfl, integer_decimal _, fraction_fractionText fun c hc => ?_⟩
    by_cases hw : 0 < width
    · exact (digits_paddedDecimal hw).digit c hc
    · obtain rfl : width = 0 := by omega
      simp [DoubleText.paddedDecimal] at hc
  rw [doubleText, DoubleText.magnitudeText]
  generalize (if x.negative then [45] else [] : Bytes) = sign at *
  split_ifs with hzero
  · have h := number_of_integer hsign (integer_decimal 0) (.inl rfl) (.inl rfl)
    simp only [List.append_nil] at h
    exact h
  · cases DoubleText.significand x.scaled.natAbs (2 ^ 1074) with
    | mk q e =>
      simp only
      split_ifs
      · obtain ⟨int, frac, heq, hint, hfrac⟩ := hpoint (16 - e).toNat q
        have h := number_of_integer hsign hint hfrac (.inl rfl)
        rwa [List.append_nil, List.append_assoc, ← heq] at h
      · obtain ⟨int, frac, heq, hint, hfrac⟩ := hpoint 16 q
        have h := number_of_integer hsign hint hfrac (exponent_exponentText e)
        rwa [List.append_assoc sign, ← heq, List.append_assoc] at h

/-! ### Texts -/

theorem unescapes_of_digits {ds : Bytes} (h : ∀ c ∈ ds, Json.Digit c) : Json.Unescapes ds ds := by
  induction ds with
  | nil => exact .nil
  | cons c ds ih =>
    obtain ⟨hc, hds⟩ := List.forall_mem_cons.mp h
    refine .plain ⟨(show (0x20 : UInt8) ≤ 48 by decide).trans hc.1, ?_, ?_⟩ (ih hds)
    · rintro rfl
      exact absurd hc.1 (by decide)
    · rintro rfl
      exact absurd hc.2 (by decide)

/-- The key of a tag. -/
theorem literal_decimal (n : ℕ) : Json.Literal (decimal n) ([0x22] ++ decimal n ++ [0x22]) :=
  ⟨decimal n, rfl, unescapes_of_digits (integer_decimal n).digit⟩

/-- Behind the first entry the index does not matter. -/
theorem jsonEntries_succ (i : ℕ) (e : UInt32 × Canon) (r : Record) :
    jsonEntries (i + 1) (e :: r) = 44 :: jsonEntries 0 (e :: r) := by
  induction r generalizing i e with
  | nil =>
    obtain ⟨tag, c⟩ := e
    rfl
  | cons e' r ih =>
    obtain ⟨tag, c⟩ := e
    conv_lhs => rw [jsonEntries, if_pos (Nat.succ_ne_zero i), ih (i + 1) e']
    conv_rhs => rw [jsonEntries, if_neg (not_not.mpr rfl), ih 0 e']
    rfl

theorem jsonItems_succ (i : ℕ) (c : Canon) (q : Seq) : jsonItems (i + 1) (c :: q) = 44 :: jsonItems 0 (c :: q) := by
  induction q generalizing i c with
  | nil => rfl
  | cons d q ih =>
    conv_lhs => rw [jsonItems, if_pos (Nat.succ_ne_zero i), ih (i + 1) d]
    conv_rhs => rw [jsonItems, if_neg (not_not.mpr rfl), ih 0 d]
    rfl

/-- The first entry, and the others behind a comma. -/
theorem jsonEntries_cons (tag : UInt32) (c : Canon) (e : UInt32 × Canon) (r : Record) :
    jsonEntries 0 ((tag, c) :: e :: r) =
      ([0x22] ++ decimal tag.toNat ++ [0x22]) ++ 58 :: (canonicalToJson c ++ 44 :: jsonEntries 0 (e :: r)) := by
  rw [jsonEntries, jsonEntries_succ, if_neg (not_not.mpr rfl)]
  simp only [List.nil_append, List.append_assoc, List.cons_append]
  rfl

theorem jsonItems_cons (c d : Canon) (q : Seq) :
    jsonItems 0 (c :: d :: q) = canonicalToJson c ++ 44 :: jsonItems 0 (d :: q) := by
  rw [jsonItems, jsonItems_succ, if_neg (not_not.mpr rfl), List.nil_append]

mutual
theorem text_canonicalToJson : ∀ c : Canon, Json.Text (mirror c) (canonicalToJson c)
  | .null => .null
  | .uint v => .number (number_decimal v.toNat)
  | .int v => .number (number_decimalInt v.toInt)
  | .bool true => .true
  | .bool false => .false
  | .str s => .string (literal_quote s)
  | .bytes s => .string (literal_quote _)
  | .uuid u => .string (literal_quote _)
  | .float x => .number (number_doubleText x.toBinary64)
  | .record [] => .emptyObject
  | .record (e :: r) => by
    rw [mirror, canonicalToJson]
    exact .object (members_jsonEntries (e :: r) (List.cons_ne_nil e r))
  | .sequence [] => .emptyArray
  | .sequence (c :: q) => by
    rw [mirror, canonicalToJson]
    exact .array (items_jsonItems (c :: q) (List.cons_ne_nil c q))

theorem members_jsonEntries : ∀ r : Record, r ≠ [] → Json.Members (mirrorEntries r) (jsonEntries 0 r)
  | [], h => absurd rfl h
  | [(tag, c)], _ => by
    have h := Json.Members.one (literal_decimal tag.toNat) (text_canonicalToJson c)
    rw [jsonEntries, jsonEntries, if_neg (not_not.mpr rfl), List.append_nil, List.nil_append]
    simp only [List.append_assoc] at h ⊢
    exact h
  | (tag, c) :: e :: r, _ => by
    rw [jsonEntries_cons, mirrorEntries]
    exact .cons (literal_decimal tag.toNat) (text_canonicalToJson c)
      (members_jsonEntries (e :: r) (List.cons_ne_nil e r))

theorem items_jsonItems : ∀ q : Seq, q ≠ [] → Json.Items (mirrorItems q) (jsonItems 0 q)
  | [], h => absurd rfl h
  | [c], _ => by
    rw [jsonItems, jsonItems, if_neg (not_not.mpr rfl), List.append_nil, List.nil_append]
    exact .one (text_canonicalToJson c)
  | c :: d :: q, _ => by
    rw [jsonItems_cons, mirrorItems]
    exact .cons (text_canonicalToJson c) (items_jsonItems (d :: q) (List.cons_ne_nil d q))
end

/-- Every value is rendered as a JSON text that is read in one way: its objects and
arrays are the records and sequences of the value with the same keys in the same order,
and the literal of a string means the bytes of that string and no others. -/
theorem canonicalToJson_jsonText (c : Canon) :
    (∀ v, Json.Text v (canonicalToJson c) ↔ v = mirror c) ∧
      ∀ s, ∃ body, canonicalToJson (.str s) = 0x22 :: (body ++ [0x22]) ∧ ∀ s', Json.Unescapes body s' ↔ s' = s := by
  refine ⟨fun v => ⟨fun h => h.unique (text_canonicalToJson c), ?_⟩,
    fun s => ⟨jsonEscape s, rfl, fun s' => ⟨fun h => ?_, ?_⟩⟩⟩
  · rintro rfl
    exact text_canonicalToJson c
  · have heq : jsonEscape s ++ 34 :: [] = jsonEscape s ++ 34 :: [] := rfl
    exact (h.unique_prefix (unescapes_escape s) heq).1
  · rintro rfl
    exact unescapes_escape s'

end Canon

end CompatRegistry
