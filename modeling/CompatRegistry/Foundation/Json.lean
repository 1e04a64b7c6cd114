import Mathlib.Tactic

/-! JSON texts as byte strings, by the grammar of the format without white space
between tokens. A derivation gives the value of the text, with the contents of its
strings and keys unescaped, and no text has two values. Bytes of 0x80 and above are
ordinary characters of a string. -/

namespace Foundation.Json

/-- A number is kept as it is written. -/
inductive Value where
  | null
  | bool (b : Bool)
  | number (literal : List UInt8)
  | string (s : List UInt8)
  | array (items : List Value)
  | object (members : List (List UInt8 × Value))

/-! ### Numbers -/

def Digit (c : UInt8) : Prop := 48 ≤ c ∧ c ≤ 57

instance (c : UInt8) : Decidable (Digit c) := inferInstanceAs (Decidable (_ ∧ _))

/-- One or more digits. -/
structure Digits (ds : List UInt8) : Prop where
  ne : ds ≠ []
  digit : ∀ c ∈ ds, Digit c

/-- Digits without a superfluous zero in front. -/
structure Integer (ds : List UInt8) : Prop extends Digits ds where
  zero : ds.head? = some 48 → ds = [48]

/-- A point and digits, or nothing. -/
def Fraction (l : List UInt8) : Prop := l = [] ∨ ∃ ds, l = 46 :: ds ∧ Digits ds

/-- `e` or `E`, a sign, and digits, or nothing. -/
def Exponent (l : List UInt8) : Prop :=
  l = [] ∨ ∃ e sign ds, l = e :: (sign ++ ds) ∧ (e = 101 ∨ e = 69) ∧
    (sign = [] ∨ sign = [43] ∨ sign = [45]) ∧ Digits ds

def Number (l : List UInt8) : Prop :=
  ∃ sign int frac exp, l = sign ++ int ++ frac ++ exp ∧ (sign = [] ∨ sign = [45]) ∧ Integer int ∧
    Fraction frac ∧ Exponent exp

/-! ### Strings -/

/-- The characters that have an escape of two characters. -/
def shortEscape (e : UInt8) : Option UInt8 :=
  if e = 34 then some 34            -- quotation mark
  else if e = 92 then some 92       -- backslash
  else if e = 47 then some 47       -- slash
  else if e = 98 then some 8        -- b
  else if e = 102 then some 12      -- f
  else if e = 110 then some 10      -- n
  else if e = 114 then some 13      -- r
  else if e = 116 then some 9       -- t
  else none

def hexValue (c : UInt8) : Option ℕ :=
  if 48 ≤ c ∧ c ≤ 57 then some (c.toNat - 48)
  else if 97 ≤ c ∧ c ≤ 102 then some (c.toNat - 87)
  else if 65 ≤ c ∧ c ≤ 70 then some (c.toNat - 55)
  else none

/-- The code unit of four hexadecimal digits. -/
def codeUnit (a b c d : UInt8) : Option ℕ := do
  let a ← hexValue a
  let b ← hexValue b
  let c ← hexValue c
  let d ← hexValue d
  some (((a * 16 + b) * 16 + c) * 16 + d)

/-- The bytes of a code point. -/
def utf8 (n : ℕ) : List UInt8 :=
  if n < 0x80 then [UInt8.ofNat n]
  else if n < 0x800 then [UInt8.ofNat (0xC0 + n / 64), UInt8.ofNat (0x80 + n % 64)]
  else if n < 0x10000 then
    [UInt8.ofNat (0xE0 + n / 4096), UInt8.ofNat (0x80 + n / 64 % 64), UInt8.ofNat (0x80 + n % 64)]
  else [UInt8.ofNat (0xF0 + n / 262144), UInt8.ofNat (0x80 + n / 4096 % 64), UInt8.ofNat (0x80 + n / 64 % 64),
    UInt8.ofNat (0x80 + n % 64)]

def highSurrogate (n : ℕ) : Prop := 0xD800 ≤ n ∧ n < 0xDC00

def lowSurrogate (n : ℕ) : Prop := 0xDC00 ≤ n ∧ n < 0xE000

/-- What stands between the quotation marks, and the bytes that it means. -/
inductive Unescapes : List UInt8 → List UInt8 → Prop
  | nil : Unescapes [] []
  | plain {c : UInt8} {body s : List UInt8} (hc : 0x20 ≤ c ∧ c ≠ 34 ∧ c ≠ 92) (h : Unescapes body s) :
      Unescapes (c :: body) (c :: s)
  | short {e x : UInt8} {body s : List UInt8} (he : shortEscape e = some x) (h : Unescapes body s) :
      Unescapes (92 :: e :: body) (x :: s)
  | unicode {a b c d : UInt8} {n : ℕ} {body s : List UInt8} (hn : codeUnit a b c d = some n)
      (hchar : ¬ highSurrogate n ∧ ¬ lowSurrogate n) (h : Unescapes body s) :
      Unescapes (92 :: 117 :: a :: b :: c :: d :: body) (utf8 n ++ s)
  | pair {a b c d a' b' c' d' : UInt8} {n n' : ℕ} {body s : List UInt8} (hn : codeUnit a b c d = some n)
      (hn' : codeUnit a' b' c' d' = some n') (hhigh : highSurrogate n) (hlow : lowSurrogate n')
      (h : Unescapes body s) :
      Unescapes (92 :: 117 :: a :: b :: c :: d :: 92 :: 117 :: a' :: b' :: c' :: d' :: body)
        (utf8 (0x10000 + (n - 0xD800) * 1024 + (n' - 0xDC00)) ++ s)

/-- A string in quotation marks with its contents. -/
def Literal (s l : List UInt8) : Prop := ∃ body, l = 34 :: (body ++ [34]) ∧ Unescapes body s

/-! ### Texts -/

mutual
inductive Text : Value → List UInt8 → Prop
  | null : Text .null [110, 117, 108, 108]
  | true : Text (.bool true) [116, 114, 117, 101]
  | false : Text (.bool false) [102, 97, 108, 115, 101]
  | number {l : List UInt8} (h : Number l) : Text (.number l) l
  | string {s l : List UInt8} (h : Literal s l) : Text (.string s) l
  | emptyArray : Text (.array []) [91, 93]
  | array {vs : List Value} {l : List UInt8} (h : Items vs l) : Text (.array vs) (91 :: (l ++ [93]))
  | emptyObject : Text (.object []) [123, 125]
  | object {ms : List (List UInt8 × Value)} {l : List UInt8} (h : Members ms l) :
      Text (.object ms) (123 :: (l ++ [125]))

/-- One or more values with commas between them. -/
inductive Items : List Value → List UInt8 → Prop
  | one {v : Value} {l : List UInt8} (h : Text v l) : Items [v] l
  | cons {v : Value} {vs : List Value} {l ls : List UInt8} (h : Text v l) (hs : Items vs ls) :
      Items (v :: vs) (l ++ 44 :: ls)

/-- One or more keys with their values. -/
inductive Members : List (List UInt8 × Value) → List UInt8 → Prop
  | one {k lk l : List UInt8} {v : Value} (hk : Literal k lk) (h : Text v l) : Members [(k, v)] (lk ++ 58 :: l)
  | cons {k lk l ls : List UInt8} {v : Value} {ms : List (List UInt8 × Value)} (hk : Literal k lk) (h : Text v l)
      (hs : Members ms ls) : Members ((k, v) :: ms) (lk ++ 58 :: (l ++ 44 :: ls))
end

/-! ### Contents are determined -/

/-- A string literal means one byte string, and ends at one place. -/
theorem Unescapes.unique_prefix {body body' s s' r r' : List UInt8} (h : Unescapes body s) (h' : Unescapes body' s')
    (heq : body ++ 34 :: r = body' ++ 34 :: r') : s = s' ∧ r = r' := by
  induction h generalizing body' s' with
  | nil =>
    cases h' with
    | nil => exact ⟨rfl, (List.cons.inj heq).2⟩
    | plain hc => exact absurd (List.cons.inj heq).1.symm hc.2.1
    | short => exact absurd (List.cons.inj heq).1 (by decide)
    | unicode => exact absurd (List.cons.inj heq).1 (by decide)
    | pair => exact absurd (List.cons.inj heq).1 (by decide)
  | plain hc _ ih =>
    obtain ⟨hrange, hquote, hbackslash⟩ := hc
    cases h' with
    | nil => exact absurd (List.cons.inj heq).1 hquote
    | plain _ h' =>
      obtain ⟨rfl, hrest⟩ := List.cons.inj heq
      obtain ⟨rfl, hr⟩ := ih h' hrest
      exact ⟨rfl, hr⟩
    | short => exact absurd (List.cons.inj heq).1 hbackslash
    | unicode => exact absurd (List.cons.inj heq).1 hbackslash
    | pair => exact absurd (List.cons.inj heq).1 hbackslash
  | short he _ ih =>
    cases h' with
    | nil => exact absurd (List.cons.inj heq).1 (by decide)
    | plain hc => exact absurd (List.cons.inj heq).1.symm hc.2.2
    | short he' h' =>
      simp only [List.cons_append, List.cons.injEq, true_and] at heq
      obtain ⟨rfl, hrest⟩ := heq
      obtain ⟨rfl, hr⟩ := ih h' hrest
      rw [he] at he'
      exact ⟨by rw [Option.some.inj he'], hr⟩
    | unicode =>
      simp only [List.cons_append, List.cons.injEq, true_and] at heq
      rw [heq.1] at he
      cases he
    | pair =>
      simp only [List.cons_append, List.cons.injEq, true_and] at heq
      rw [heq.1] at he
      cases he
  | unicode hn hchar _ ih =>
    cases h' with
    | nil => exact absurd (List.cons.inj heq).1 (by decide)
    | plain hc => exact absurd (List.cons.inj heq).1.symm hc.2.2
    | short he =>
      simp only [List.cons_append, List.cons.injEq, true_and] at heq
      rw [← heq.1] at he
      cases he
    | unicode hn' _ h' =>
      simp only [List.cons_append, List.cons.injEq, true_and] at heq
      obtain ⟨rfl, rfl, rfl, rfl, hrest⟩ := heq
      obtain ⟨rfl, hr⟩ := ih h' hrest
      rw [hn] at hn'
      exact ⟨by rw [Option.some.inj hn'], hr⟩
    | pair hn' _ hhigh =>
      simp only [List.cons_append, List.cons.injEq, true_and] at heq
      obtain ⟨rfl, rfl, rfl, rfl, -⟩ := heq
      rw [hn] at hn'
      exact absurd (Option.some.inj hn' ▸ hhigh) hchar.1
  | pair hn hn₂ hhigh hlow _ ih =>
    cases h' with
    | nil => exact absurd (List.cons.inj heq).1 (by decide)
    | plain hc => exact absurd (List.cons.inj heq).1.symm hc.2.2
    | short he =>
      simp only [List.cons_append, List.cons.injEq, true_and] at heq
      rw [← heq.1] at he
      cases he
    | unicode hn' hchar =>
      simp only [List.cons_append, List.cons.injEq, true_and] at heq
      obtain ⟨rfl, rfl, rfl, rfl, -⟩ := heq
      rw [hn] at hn'
      exact absurd (Option.some.inj hn' ▸ hhigh) hchar.1
    | pair hn' hn₂' _ _ h' =>
      simp only [List.cons_append, List.cons.injEq, true_and] at heq
      obtain ⟨rfl, rfl, rfl, rfl, rfl, rfl, rfl, rfl, hrest⟩ := heq
      obtain ⟨rfl, hr⟩ := ih h' hrest
      rw [hn] at hn'
      rw [hn₂] at hn₂'
      exact ⟨by rw [Option.some.inj hn', Option.some.inj hn₂'], hr⟩

theorem Literal.unique_prefix {s s' l l' r r' : List UInt8} (h : Literal s l) (h' : Literal s' l')
    (heq : l ++ r = l' ++ r') : s = s' ∧ r = r' := by
  obtain ⟨body, rfl, h⟩ := h
  obtain ⟨body', rfl, h'⟩ := h'
  simp only [List.cons_append, List.append_assoc, List.nil_append, List.cons.injEq, true_and] at heq
  exact h.unique_prefix h' heq

/-- Two decompositions agree whose parts on the left hold only what `p` admits, and whose
parts on the right begin with what it does not. -/
theorem append_unique {α : Type*} {p : α → Prop} {l l' r r' : List α} (hl : ∀ c ∈ l, p c) (hl' : ∀ c ∈ l', p c)
    (hr : ∀ c ∈ r.head?, ¬ p c) (hr' : ∀ c ∈ r'.head?, ¬ p c) (h : l ++ r = l' ++ r') : l = l' ∧ r = r' := by
  rcases List.append_eq_append_iff.mp h with ⟨as, rfl, rfl⟩ | ⟨as, rfl, rfl⟩
  · cases as with
    | nil => simp
    | cons a as => exact absurd (hl' a (by simp)) (hr a (by simp))
  · cases as with
    | nil => simp
    | cons a as => exact absurd (hl a (by simp)) (hr' a (by simp))

/-- The characters of a number. -/
def NumberChar (c : UInt8) : Prop := Digit c ∨ c = 43 ∨ c = 45 ∨ c = 46 ∨ c = 69 ∨ c = 101

theorem Number.numberChar {l : List UInt8} (h : Number l) : ∀ c ∈ l, NumberChar c := by
  obtain ⟨sign, int, frac, exp, rfl, hsign, hint, hfrac, hexp⟩ := h
  intro c hc
  simp only [List.mem_append] at hc
  rcases hc with ((hc | hc) | hc) | hc
  · rcases hsign with rfl | rfl
    · simp at hc
    · exact .inr (.inr (.inl (List.mem_singleton.mp hc)))
  · exact .inl (hint.digit c hc)
  · rcases hfrac with rfl | ⟨ds, rfl, hds⟩
    · simp at hc
    · rcases List.mem_cons.mp hc with rfl | hc
      · exact .inr (.inr (.inr (.inl rfl)))
      · exact .inl (hds.digit c hc)
  · rcases hexp with rfl | ⟨e, esign, ds, rfl, he, hesign, hds⟩
    · simp at hc
    · simp only [List.mem_cons, List.mem_append] at hc
      rcases hc with rfl | hc | hc
      · rcases he with rfl | rfl <;> simp [NumberChar]
      · rcases hesign with rfl | rfl | rfl
        · simp at hc
        · exact .inr (.inl (List.mem_singleton.mp hc))
        · exact .inr (.inr (.inl (List.mem_singleton.mp hc)))
      · exact .inl (hds.digit c hc)

/-- What may stand behind a value: nothing, a comma or a closing bracket. -/
def Delimited (r : List UInt8) : Prop := ∀ c ∈ r.head?, c = 44 ∨ c = 93 ∨ c = 125

theorem Delimited.not_numberChar {r : List UInt8} (h : Delimited r) : ∀ c ∈ r.head?, ¬ NumberChar c := by
  intro c hc
  rcases h c hc with rfl | rfl | rfl <;> simp [NumberChar, Digit]

/-- The kinds of value by the first character of their texts. -/
inductive Kind where
  | null | true | false | number | string | array | object

def Value.kind : Value → Kind
  | .null => .null
  | .bool true => .true
  | .bool false => .false
  | .number _ => .number
  | .string _ => .string
  | .array _ => .array
  | .object _ => .object

def kindOf (c : UInt8) : Kind :=
  if c = 110 then .null
  else if c = 116 then .true
  else if c = 102 then .false
  else if c = 34 then .string
  else if c = 91 then .array
  else if c = 123 then .object
  else .number

theorem Number.kindOf_head {l : List UInt8} (h : Number l) : ∃ c t, l = c :: t ∧ kindOf c = .number := by
  obtain ⟨sign, int, frac, exp, rfl, hsign, hint, -, -⟩ := h
  rcases hsign with rfl | rfl
  · cases int with
    | nil => exact absurd rfl hint.ne
    | cons c ds =>
      refine ⟨c, _, rfl, ?_⟩
      have hc := hint.digit c List.mem_cons_self
      rw [kindOf]
      split_ifs with h₁ h₂ h₃ h₄ h₅ h₆
      all_goals first | rfl | (subst_vars; exact absurd hc (by decide))
  · exact ⟨45, _, rfl, rfl⟩

/-- The first character of a text announces the kind of its value. -/
theorem Text.kindOf_head {v : Value} {l : List UInt8} (h : Text v l) : ∃ c t, l = c :: t ∧ kindOf c = v.kind := by
  cases h with
  | null => exact ⟨_, _, rfl, rfl⟩
  | true => exact ⟨_, _, rfl, rfl⟩
  | false => exact ⟨_, _, rfl, rfl⟩
  | number h => exact h.kindOf_head
  | string h =>
    obtain ⟨body, rfl, -⟩ := h
    exact ⟨_, _, rfl, rfl⟩
  | emptyArray => exact ⟨_, _, rfl, rfl⟩
  | array => exact ⟨_, _, rfl, rfl⟩
  | emptyObject => exact ⟨_, _, rfl, rfl⟩
  | object => exact ⟨_, _, rfl, rfl⟩

theorem Text.kind_eq {v v' : Value} {l l' r r' : List UInt8} (h : Text v l) (h' : Text v' l')
    (heq : l ++ r = l' ++ r') : v.kind = v'.kind := by
  obtain ⟨c, t, rfl, hkind⟩ := h.kindOf_head
  obtain ⟨c', t', rfl, hkind'⟩ := h'.kindOf_head
  rw [← hkind, ← hkind', (List.cons.inj heq).1]

theorem delimited_comma (r : List UInt8) : Delimited (44 :: r) := by simp [Delimited]

theorem delimited_bracket (r : List UInt8) : Delimited (93 :: r) := by simp [Delimited]

theorem delimited_brace (r : List UInt8) : Delimited (125 :: r) := by simp [Delimited]

/-- No value begins with a closing bracket. -/
theorem Text.append_ne {v : Value} {l r r' : List UInt8} (h : Text v l) : l ++ r ≠ 93 :: r' := by
  intro heq
  have hkind : v.kind = .number := by
    obtain ⟨c, t, rfl, hkind⟩ := h.kindOf_head
    rw [← hkind, (List.cons.inj heq).1]
    rfl
  cases h with
  | number h =>
    obtain ⟨c, t, rfl, -⟩ := h.kindOf_head
    have hchar := h.numberChar c List.mem_cons_self
    rw [(List.cons.inj heq).1] at hchar
    revert hchar
    simp [NumberChar, Digit]
  | _ => exact absurd hkind (by simp [Value.kind])

theorem Items.append_ne {vs : List Value} {l r r' : List UInt8} (h : Items vs l) : l ++ r ≠ 93 :: r' := by
  cases h with
  | one h => exact h.append_ne
  | cons h hs =>
    rw [List.append_assoc]
    exact h.append_ne

theorem Members.append_ne {ms : List (List UInt8 × Value)} {l r r' : List UInt8} (h : Members ms l) :
    l ++ r ≠ 125 :: r' := by
  intro heq
  cases h with
  | one hk =>
    obtain ⟨body, rfl, -⟩ := hk
    exact absurd (List.cons.inj heq).1 (by decide)
  | cons hk =>
    obtain ⟨body, rfl, -⟩ := hk
    exact absurd (List.cons.inj heq).1 (by decide)

mutual
/-- A text has one value, and ends at one place. -/
theorem Text.unique_prefix : ∀ {v v' : Value} {l l' r r' : List UInt8}, Text v l → Text v' l' →
    l ++ r = l' ++ r' → Delimited r → Delimited r' → v = v' ∧ r = r'
  | _, v', _, l', r, r', .null, h', heq, _, _ => by
    have hkind := Text.null.kind_eq h' heq
    cases h' with
    | null => exact ⟨rfl, by simpa using heq⟩
    | _ => exact absurd hkind (by simp [Value.kind])
  | _, v', _, l', r, r', .true, h', heq, _, _ => by
    have hkind := Text.true.kind_eq h' heq
    cases h' with
    | true => exact ⟨rfl, by simpa using heq⟩
    | _ => exact absurd hkind (by simp [Value.kind])
  | _, v', _, l', r, r', .false, h', heq, _, _ => by
    have hkind := Text.false.kind_eq h' heq
    cases h' with
    | false => exact ⟨rfl, by simpa using heq⟩
    | _ => exact absurd hkind (by simp [Value.kind])
  | _, v', _, l', r, r', .number h, h', heq, hr, hr' => by
    have hkind := (Text.number h).kind_eq h' heq
    cases h' with
    | number h' =>
      obtain ⟨rfl, hrest⟩ := append_unique h.numberChar h'.numberChar hr.not_numberChar hr'.not_numberChar heq
      exact ⟨rfl, hrest⟩
    | _ => exact absurd hkind (by simp [Value.kind])
  | _, v', _, l', r, r', .string h, h', heq, _, _ => by
    have hkind := (Text.string h).kind_eq h' heq
    cases h' with
    | string h' =>
      obtain ⟨rfl, hrest⟩ := h.unique_prefix h' heq
      exact ⟨rfl, hrest⟩
    | _ => exact absurd hkind (by simp [Value.kind])
  | _, v', _, l', r, r', .emptyArray, h', heq, _, _ => by
    have hkind := Text.emptyArray.kind_eq h' heq
    cases h' with
    | emptyArray => exact ⟨rfl, by simpa using heq⟩
    | array h' =>
      simp only [List.cons_append, List.append_assoc, List.nil_append, List.cons.injEq, true_and] at heq
      exact absurd heq.symm h'.append_ne
    | _ => exact absurd hkind (by simp [Value.kind])
  | _, v', _, l', r, r', .array h, h', heq, _, _ => by
    have hkind := (Text.array h).kind_eq h' heq
    cases h' with
    | emptyArray =>
      simp only [List.cons_append, List.append_assoc, List.nil_append, List.cons.injEq, true_and] at heq
      exact absurd heq h.append_ne
    | array h' =>
      simp only [List.cons_append, List.append_assoc, List.nil_append, List.cons.injEq, true_and] at heq
      obtain ⟨rfl, hrest⟩ := Items.unique_prefix h h' heq
      exact ⟨rfl, hrest⟩
    | _ => exact absurd hkind (by simp [Value.kind])
  | _, v', _, l', r, r', .emptyObject, h', heq, _, _ => by
    have hkind := Text.emptyObject.kind_eq h' heq
    cases h' with
    | emptyObject => exact ⟨rfl, by simpa using heq⟩
    | object h' =>
      simp only [List.cons_append, List.append_assoc, List.nil_append, List.cons.injEq, true_and] at heq
      exact absurd heq.symm h'.append_ne
    | _ => exact absurd hkind (by simp [Value.kind])
  | _, v', _, l', r, r', .object h, h', heq, _, _ => by
    have hkind := (Text.object h).kind_eq h' heq
    cases h' with
    | emptyObject =>
      simp only [List.cons_append, List.append_assoc, List.nil_append, List.cons.injEq, true_and] at heq
      exact absurd heq h.append_ne
    | object h' =>
      simp only [List.cons_append, List.append_assoc, List.nil_append, List.cons.injEq, true_and] at heq
      obtain ⟨rfl, hrest⟩ := Members.unique_prefix h h' heq
      exact ⟨rfl, hrest⟩
    | _ => exact absurd hkind (by simp [Value.kind])

theorem Items.unique_prefix : ∀ {vs vs' : List Value} {l l' r r' : List UInt8}, Items vs l → Items vs' l' →
    l ++ 93 :: r = l' ++ 93 :: r' → vs = vs' ∧ r = r'
  | _, _, _, _, r, r', .one h, h', heq => by
    cases h' with
    | one h' =>
      obtain ⟨rfl, hrest⟩ := Text.unique_prefix h h' heq (delimited_bracket r) (delimited_bracket r')
      exact ⟨rfl, (List.cons.inj hrest).2⟩
    | cons h' hs' =>
      rw [List.append_assoc] at heq
      obtain ⟨-, hrest⟩ := Text.unique_prefix h h' heq (delimited_bracket r) (delimited_comma _)
      exact absurd (List.cons.inj hrest).1 (by decide)
  | _, _, _, _, r, r', .cons h hs, h', heq => by
    cases h' with
    | one h' =>
      rw [List.append_assoc] at heq
      obtain ⟨-, hrest⟩ := Text.unique_prefix h h' heq (delimited_comma _) (delimited_bracket r')
      exact absurd (List.cons.inj hrest).1 (by decide)
    | cons h' hs' =>
      rw [List.append_assoc, List.append_assoc] at heq
      obtain ⟨rfl, hrest⟩ := Text.unique_prefix h h' heq (delimited_comma _) (delimited_comma _)
      obtain ⟨rfl, hrest⟩ := Items.unique_prefix hs hs' (List.cons.inj hrest).2
      exact ⟨rfl, hrest⟩

theorem Members.unique_prefix : ∀ {ms ms' : List (List UInt8 × Value)} {l l' r r' : List UInt8}, Members ms l →
    Members ms' l' → l ++ 125 :: r = l' ++ 125 :: r' → ms = ms' ∧ r = r'
  | _, _, _, _, r, r', .one hk h, h', heq => by
    cases h' with
    | one hk' h' =>
      rw [List.append_assoc, List.append_assoc] at heq
      obtain ⟨rfl, hv⟩ := hk.unique_prefix hk' heq
      obtain ⟨rfl, hrest⟩ := Text.unique_prefix h h' (List.cons.inj hv).2 (delimited_brace r) (delimited_brace r')
      exact ⟨rfl, (List.cons.inj hrest).2⟩
    | cons hk' h' hs' =>
      rw [List.append_assoc, List.append_assoc] at heq
      obtain ⟨rfl, hv⟩ := hk.unique_prefix hk' heq
      rw [List.cons_append, List.cons_append, List.append_assoc] at hv
      obtain ⟨-, hrest⟩ := Text.unique_prefix h h' (List.cons.inj hv).2 (delimited_brace r) (delimited_comma _)
      exact absurd (List.cons.inj hrest).1 (by decide)
  | _, _, _, _, r, r', .cons hk h hs, h', heq => by
    cases h' with
    | one hk' h' =>
      rw [List.append_assoc, List.append_assoc] at heq
      obtain ⟨rfl, hv⟩ := hk.unique_prefix hk' heq
      rw [List.cons_append, List.cons_append, List.append_assoc] at hv
      obtain ⟨-, hrest⟩ := Text.unique_prefix h h' (List.cons.inj hv).2 (delimited_comma _) (delimited_brace r')
      exact absurd (List.cons.inj hrest).1 (by decide)
    | cons hk' h' hs' =>
      rw [List.append_assoc, List.append_assoc] at heq
      obtain ⟨rfl, hv⟩ := hk.unique_prefix hk' heq
      rw [List.cons_append, List.cons_append, List.append_assoc, List.append_assoc] at hv
      obtain ⟨rfl, hrest⟩ := Text.unique_prefix h h' (List.cons.inj hv).2 (delimited_comma _) (delimited_comma _)
      obtain ⟨rfl, hrest⟩ := Members.unique_prefix hs hs' (List.cons.inj hrest).2
      exact ⟨rfl, hrest⟩
end

/-- A text is read in one way. -/
theorem Text.unique {v v' : Value} {l : List UInt8} (h : Text v l) (h' : Text v' l) : v = v' := by
  have hend : Delimited [] := by simp [Delimited]
  have heq : l ++ [] = l ++ [] := rfl
  exact (h.unique_prefix h' heq hend hend).1

end Foundation.Json
