import Mathlib.Data.List.Basic
import Mathlib.Tactic.Common

/-!
# Percent-encoding and base64

How bytes are written as text. Percent-encoding leaves the writer a choice, so it is a relation
between bytes and text, with the characters that may stand for a byte as a parameter. Base64 leaves
none and is a function.

## Main results

* `Percent.encodes_encode` — every run of bytes has an encoding.
* `Percent.Encodes.forall_mem` — the characters an encoding is made of.
* `Percent.decode?_eq_some_iff` — decoding undoes encoding, where the literal characters are read by
  a function.
* `Percent.isSome_decode?` — a text is decoded exactly if its escapes are complete.
* `Base64.length_encode` — the length of the text, from the length of the bytes.
-/

namespace Percent

/-- The value of a hexadecimal digit, of either case. -/
def digit? (c : UInt8) : Option Nat :=
  if 48 ≤ c ∧ c ≤ 57 then some (c.toNat - 48)
  else if 97 ≤ c ∧ c ≤ 102 then some (c.toNat - 97 + 10)
  else if 65 ≤ c ∧ c ≤ 70 then some (c.toNat - 65 + 10)
  else none

theorem digit?_lt {c : UInt8} {n : Nat} (h : digit? c = some n) : n < 16 := by
  unfold digit? at h
  split_ifs at h with h1 h2 h3 <;> obtain rfl := Option.some.inj h
  · have := UInt8.le_iff_toNat_le.mp h1.2
    simp at this
    omega
  · have := UInt8.le_iff_toNat_le.mp h2.2
    simp at this
    omega
  · have := UInt8.le_iff_toNat_le.mp h3.2
    simp at this
    omega

/-- `text` stands for `bytes`: each byte is either a character that `literal` allows for it, or a
percent sign and two hexadecimal digits. -/
inductive Encodes (literal : UInt8 → UInt8 → Prop) : List UInt8 → List UInt8 → Prop
  | nil : Encodes literal [] []
  | plain {b c : UInt8} {bytes text : List UInt8} (hc : literal b c)
      (rest : Encodes literal bytes text) : Encodes literal (b :: bytes) (c :: text)
  | escaped {b h l : UInt8} {hi lo : Nat} {bytes text : List UInt8} (hh : digit? h = some hi)
      (hl : digit? l = some lo) (hb : b.toNat = 16 * hi + lo) (rest : Encodes literal bytes text) :
      Encodes literal (b :: bytes) (37 :: h :: l :: text)

section Encodes

variable {literal : UInt8 → UInt8 → Prop} {bytes text : List UInt8}

theorem Encodes.length_le (h : Encodes literal bytes text) : bytes.length ≤ text.length := by
  induction h with
  | nil => exact Nat.le_refl 0
  | plain => simpa
  | escaped _ _ _ _ ih =>
    simp only [List.length_cons]
    omega

/-- What holds of the literal characters, the percent sign and the digits holds throughout. -/
theorem Encodes.forall_mem {P : UInt8 → Prop} (h : Encodes literal bytes text)
    (hliteral : ∀ b c, literal b c → P c) (hpercent : P 37)
    (hdigit : ∀ c n, digit? c = some n → P c) : ∀ c ∈ text, P c := by
  induction h with
  | nil => simp
  | plain hc _ ih => simpa using ⟨hliteral _ _ hc, ih⟩
  | escaped hh hl _ _ ih => simpa using ⟨hpercent, hdigit _ _ hh, hdigit _ _ hl, ih⟩

theorem Encodes.mono {literal' : UInt8 → UInt8 → Prop} (h : Encodes literal bytes text)
    (himp : ∀ b c, literal b c → literal' b c) : Encodes literal' bytes text := by
  induction h with
  | nil => exact .nil
  | plain hc _ ih => exact .plain (himp _ _ hc) ih
  | escaped hh hl hb _ ih => exact .escaped hh hl hb ih

end Encodes

/-- The characters that never need an escape: letters, digits and `-._~`. -/
def isUnreserved (c : UInt8) : Bool :=
  (48 ≤ c && c ≤ 57) || (65 ≤ c && c ≤ 90) || (97 ≤ c && c ≤ 122) || c == 45 || c == 46 ||
    c == 95 || c == 126

theorem isUnreserved_of_digit {c : UInt8} {n : Nat} (h : digit? c = some n) :
    isUnreserved c = true := by
  grind [digit?, isUnreserved]

/-- The upper-case hexadecimal digit of a value. -/
def digit (n : Nat) : UInt8 := if n < 10 then 48 + n.toUInt8 else 55 + n.toUInt8

theorem digit?_digit : ∀ n < 16, digit? (digit n) = some n := by decide

/-- The encoding that escapes each byte `literal?` has no character for. -/
def encode (literal? : UInt8 → Option UInt8) (bytes : List UInt8) : List UInt8 :=
  bytes.flatMap fun b =>
    match literal? b with
    | some c => [c]
    | none => [37, digit (b.toNat / 16), digit (b.toNat % 16)]

theorem encodes_encode (literal? : UInt8 → Option UInt8) (bytes : List UInt8) :
    Encodes (fun b c => literal? b = some c) bytes (encode literal? bytes) := by
  induction bytes with
  | nil => exact .nil
  | cons b bytes ih =>
    rw [encode, List.flatMap_cons]
    cases hb : literal? b with
    | some c => exact .plain hb ih
    | none =>
      have hlt := b.toNat_lt
      exact .escaped (digit?_digit _ (by omega)) (digit?_digit _ (by omega)) (by omega) ih

/-- The bytes a text stands for, each character outside the escapes read by `literal`; `none` where
a percent sign is not followed by two digits. -/
def decode? (literal : UInt8 → UInt8) : List UInt8 → Option (List UInt8)
  | [] => some []
  | c :: text =>
    if c = 37 then
      match text with
      | h :: l :: text =>
        match digit? h, digit? l with
        | some hi, some lo => (decode? literal text).map (UInt8.ofNat (16 * hi + lo) :: ·)
        | _, _ => none
      | _ => none
    else (decode? literal text).map (literal c :: ·)

/-- Two digits follow every percent sign. -/
def EscapesComplete (text : List UInt8) : Prop :=
  ∀ i : Nat, text[i]? = some 37 →
    (text[i + 1]?.bind digit?).isSome ∧ (text[i + 2]?.bind digit?).isSome

section Decode

variable {literal : UInt8 → UInt8} {bytes text : List UInt8} {c h l : UInt8}

theorem decode?_literal (hc : c ≠ 37) :
    decode? literal (c :: text) = (decode? literal text).map (literal c :: ·) := by
  conv_lhs => unfold decode?
  rw [if_neg hc]

theorem decode?_escape {hi lo : Nat} (hh : digit? h = some hi) (hl : digit? l = some lo) :
    decode? literal (37 :: h :: l :: text) =
      (decode? literal text).map (UInt8.ofNat (16 * hi + lo) :: ·) := by
  rw [decode?, if_pos rfl]
  simp only [hh, hl]

theorem decode?_broken (hbroken : ∀ h l rest, text = h :: l :: rest →
    digit? h = none ∨ digit? l = none) : decode? literal (37 :: text) = none := by
  unfold decode?
  rw [if_pos rfl]
  split
  next h l rest =>
    split
    next hi lo hh hl => simpa [hh, hl] using hbroken h l rest rfl
    next => rfl
  next => rfl

/-- A text by its first character: literal, an escape, or an escape that is not complete. -/
theorem text_cases (c : UInt8) (text : List UInt8) :
    c ≠ 37 ∨
    (∃ h l hi lo rest, c = 37 ∧ text = h :: l :: rest ∧ digit? h = some hi ∧ digit? l = some lo) ∨
    c = 37 ∧ ∀ h l rest, text = h :: l :: rest → digit? h = none ∨ digit? l = none := by
  by_cases hc : c = 37
  · match text with
    | [] | [_] => simp [hc]
    | h :: l :: rest =>
      cases hh : digit? h <;> cases hl : digit? l <;> simp [hc, hh, hl]
  · exact .inl hc

/-- Induction along a text, one literal character or one escape after the other. -/
theorem text_induction {P : List UInt8 → Prop} (hnil : P [])
    (hliteral : ∀ c text, c ≠ 37 → P text → P (c :: text))
    (hescape : ∀ h l hi lo text, digit? h = some hi → digit? l = some lo → P text →
      P (37 :: h :: l :: text))
    (hbroken : ∀ text, (∀ h l rest, text = h :: l :: rest → digit? h = none ∨ digit? l = none) →
      P (37 :: text)) (text : List UInt8) : P text := by
  induction hn : text.length using Nat.strongRecOn generalizing text with
  | ind n ih =>
    cases text with
    | nil => exact hnil
    | cons c text =>
      simp only [List.length_cons] at hn
      rcases text_cases c text with hc | ⟨h, l, hi, lo, rest, rfl, rfl, hh, hl⟩ | ⟨rfl, hb⟩
      · exact hliteral c text hc (ih text.length (by omega) text rfl)
      · simp only [List.length_cons] at hn
        exact hescape h l hi lo rest hh hl (ih rest.length (by omega) rest rfl)
      · exact hbroken text hb

/-- Decoding undoes every encoding whose literal characters `literal` reads back. -/
theorem decode?_eq_some_iff :
    decode? literal text = some bytes ↔
      Encodes (fun b c => c ≠ 37 ∧ b = literal c) bytes text := by
  induction text using text_induction generalizing bytes with
  | hnil =>
    rw [decode?, Option.some.injEq]
    exact ⟨by rintro rfl; exact .nil, by rintro ⟨⟩; rfl⟩
  | hliteral c text hc ih =>
    rw [decode?_literal hc, Option.map_eq_some_iff]
    constructor
    · rintro ⟨rest, hrest, rfl⟩
      exact .plain ⟨hc, rfl⟩ (ih.mp hrest)
    · intro hencodes
      cases hencodes with
      | plain hb hrest =>
        obtain ⟨-, rfl⟩ := hb
        exact ⟨_, ih.mpr hrest, rfl⟩
      | escaped => exact absurd rfl hc
  | hescape h l hi lo text hh hl ih =>
    have hlt := digit?_lt hh
    have hlt' := digit?_lt hl
    rw [decode?_escape hh hl, Option.map_eq_some_iff]
    constructor
    · rintro ⟨rest, hrest, rfl⟩
      refine .escaped hh hl ?_ (ih.mp hrest)
      rw [UInt8.toNat_ofNat', Nat.mod_eq_of_lt (by omega)]
    · intro hencodes
      cases hencodes with
      | plain hb => exact absurd rfl hb.1
      | escaped hh' hl' hb hrest =>
        obtain rfl := Option.some.inj (hh.symm.trans hh')
        obtain rfl := Option.some.inj (hl.symm.trans hl')
        exact ⟨_, ih.mpr hrest, by rw [← hb, UInt8.ofNat_toNat]⟩
  | hbroken text hb =>
    rw [decode?_broken hb]
    constructor
    · intro h
      cases h
    · intro hencodes
      cases hencodes with
      | plain hb => exact absurd rfl hb.1
      | escaped hh hl => simpa [hh, hl] using hb _ _ _ rfl

/-- A literal character in front does not matter. -/
theorem escapesComplete_literal (hc : c ≠ 37) :
    EscapesComplete (c :: text) ↔ EscapesComplete text := by
  constructor
  · intro h i hi
    exact h (i + 1) hi
  · rintro h (_ | i) hi
    · exact absurd (Option.some.inj hi) hc
    · exact h i hi

theorem digit?_percent : digit? 37 = none := by decide

theorem ne_percent_of_digit {n : Nat} (h : digit? c = some n) : c ≠ 37 := by
  rintro rfl
  rw [digit?_percent] at h
  cases h

/-- A text is decoded exactly if its escapes are complete. -/
theorem isSome_decode? : (decode? literal text).isSome ↔ EscapesComplete text := by
  induction text using text_induction with
  | hnil => simp [decode?, EscapesComplete]
  | hliteral c text hc ih =>
    rw [decode?_literal hc, Option.isSome_map, escapesComplete_literal hc, ih]
  | hescape h l hi lo text hh hl ih =>
    rw [decode?_escape hh hl, Option.isSome_map, ih,
      ← escapesComplete_literal (ne_percent_of_digit hl),
      ← escapesComplete_literal (ne_percent_of_digit hh)]
    refine ⟨fun hrest => ?_, fun hall i hi => hall (i + 1) hi⟩
    rintro (_ | i) hi
    · simp [hh, hl]
    · exact hrest i hi
  | hbroken text hb =>
    rw [decode?_broken hb]
    constructor
    · intro h
      cases h
    · intro hall
      have hfirst := hall 0 rfl
      match text with
      | [] | [_] => simp at hfirst
      | h :: l :: rest =>
        rcases hb h l rest rfl with hnone | hnone
        · simp [hnone] at hfirst
        · simp [hnone] at hfirst

end Decode

end Percent

namespace Base64

/-- The character of a six-bit value. -/
def char (n : Nat) : UInt8 :=
  if n < 26 then 65 + n.toUInt8
  else if n < 52 then 71 + n.toUInt8
  else if n < 62 then n.toUInt8 - 4
  else if n = 62 then 43
  else 47

/-- Three bytes at a time as four characters; a short last group is padded with `=`. -/
def encode : List UInt8 → List UInt8
  | [] => []
  | [a] => [char (a.toNat / 4), char (a.toNat % 4 * 16), 61, 61]
  | [a, b] =>
    [char (a.toNat / 4), char (a.toNat % 4 * 16 + b.toNat / 16), char (b.toNat % 16 * 4), 61]
  | a :: b :: c :: rest =>
    char (a.toNat / 4) :: char (a.toNat % 4 * 16 + b.toNat / 16) ::
      char (b.toNat % 16 * 4 + c.toNat / 64) :: char (c.toNat % 64) :: encode rest

theorem length_encode (bytes : List UInt8) :
    (encode bytes).length = 4 * ((bytes.length + 2) / 3) := by
  fun_induction encode bytes with
  | case1 | case2 | case3 => simp
  | case4 a b c rest ih =>
    simp only [List.length_cons, ih]
    omega

example : encode [102, 111, 111, 98] = [90, 109, 57, 118, 89, 103, 61, 61] := by decide

end Base64
