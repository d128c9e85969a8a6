import Mathlib.Data.List.Basic
import Mathlib.Data.List.Infix
import Mathlib.Tactic.Common

/-!
# Occurrences of one list in another

Leftmost and rightmost occurrence, the cut at the leftmost occurrence, and the
pieces between separators. Everything is stated through `OccursAt`, so a caller
that knows where a pattern may occur never unfolds a search.

## Main results

* `find?_eq_some`, `rfind?_eq_some` — what the two searches return.
* `find?_append_right` — an occurrence found in a prefix is found in every extension.
* `find?_append_sep` — the first separator after a separator-free list.
* `find?_double` — the first doubled separator, one line at a time.
-/

namespace ListSearch

variable {α : Type*}

/-- `pat` stands in `l` at offset `i`. -/
def OccursAt (pat l : List α) (i : Nat) : Prop := i ≤ l.length ∧ pat <+: l.drop i

instance [DecidableEq α] (pat l : List α) (i : Nat) : Decidable (OccursAt pat l i) :=
  inferInstanceAs (Decidable (_ ∧ _))

theorem occursAt_iff {pat l : List α} {i : Nat} :
    OccursAt pat l i ↔ ∃ x y, l = x ++ (pat ++ y) ∧ x.length = i := by
  constructor
  · rintro ⟨hi, y, hy⟩
    refine ⟨l.take i, y, ?_, by simp [hi]⟩
    rw [hy, List.take_append_drop]
  · rintro ⟨x, y, rfl, rfl⟩
    exact ⟨by simp, by simp⟩

theorem OccursAt.length_le {pat l : List α} {i : Nat} (h : OccursAt pat l i) :
    i + pat.length ≤ l.length := by
  obtain ⟨x, y, rfl, rfl⟩ := occursAt_iff.mp h
  simp

theorem OccursAt.append_right {pat l : List α} {i : Nat} (h : OccursAt pat l i) (r : List α) :
    OccursAt pat (l ++ r) i := by
  obtain ⟨x, y, rfl, rfl⟩ := occursAt_iff.mp h
  exact occursAt_iff.mpr ⟨x, y ++ r, by simp, rfl⟩

theorem OccursAt.of_append {pat l r : List α} {i : Nat} (h : OccursAt pat (l ++ r) i)
    (hi : i + pat.length ≤ l.length) : OccursAt pat l i := by
  refine ⟨by omega, ?_⟩
  have hp : pat <+: l.drop i ++ r := by
    have := h.2
    rwa [List.drop_append_of_le_length (by omega)] at this
  exact List.prefix_of_prefix_length_le hp (List.prefix_append _ _) (by simp; omega)

theorem OccursAt.append_left {pat l : List α} {i : Nat} (h : OccursAt pat l i) (x : List α) :
    OccursAt pat (x ++ l) (x.length + i) := by
  obtain ⟨y, z, rfl, rfl⟩ := occursAt_iff.mp h
  exact occursAt_iff.mpr ⟨x ++ y, z, by simp, by simp⟩

theorem OccursAt.of_append_left {pat x l : List α} {i : Nat}
    (h : OccursAt pat (x ++ l) (x.length + i)) : OccursAt pat l i := by
  refine ⟨by have := h.1; simp at this; omega, ?_⟩
  have := h.2
  rwa [List.drop_append, List.drop_eq_nil_of_le (by omega), List.nil_append,
    Nat.add_sub_cancel_left] at this

@[simp] theorem occursAt_cons_succ {pat l : List α} {a : α} {i : Nat} :
    OccursAt pat (a :: l) (i + 1) ↔ OccursAt pat l i := by simp [OccursAt]

@[simp] theorem occursAt_zero {pat l : List α} : OccursAt pat l 0 ↔ pat <+: l := by
  simp [OccursAt]

theorem occursAt_self_append (x pat y : List α) : OccursAt pat (x ++ (pat ++ y)) x.length :=
  occursAt_iff.mpr ⟨x, y, rfl, rfl⟩

theorem infix_iff_occursAt {pat l : List α} : pat <:+: l ↔ ∃ i, OccursAt pat l i := by
  constructor
  · rintro ⟨x, y, rfl⟩
    exact ⟨x.length, occursAt_iff.mpr ⟨x, y, by simp, rfl⟩⟩
  · rintro ⟨i, h⟩
    obtain ⟨x, y, rfl, -⟩ := occursAt_iff.mp h
    exact ⟨x, y, by simp⟩

/-- Nothing that lacks `a` stands across an `a`. -/
theorem infix_append_cons {pat x y : List α} {a : α} (ha : a ∉ pat) (h : pat <:+: x ++ a :: y) :
    pat <:+: x ∨ pat <:+: y := by
  obtain ⟨u, v, huv⟩ := h
  rcases List.append_eq_append_iff.mp huv with ⟨w, rfl, -⟩ | ⟨w, hw, hv⟩
  · exact .inl ⟨u, w, rfl⟩
  · cases w with
    | nil =>
      rw [List.append_nil] at hw
      exact .inl ⟨u, [], by rw [List.append_nil, hw]⟩
    | cons b w =>
      obtain ⟨rfl, rfl⟩ := List.cons.inj hv
      rcases List.append_eq_append_iff.mp hw with ⟨t, rfl, ht⟩ | ⟨t, rfl, ht⟩
      · exact absurd (by rw [ht]; simp) ha
      · cases t with
        | nil => exact absurd (by rw [List.nil_append] at ht; rw [← ht]; simp) ha
        | cons c t =>
          obtain ⟨rfl, rfl⟩ := List.cons.inj ht
          exact .inr ⟨t, v, rfl⟩

/-! ## Searching -/

variable [DecidableEq α]

/-- Offset of the leftmost occurrence of `pat`. -/
def find? (pat : List α) : List α → Option Nat
  | [] => if pat = [] then some 0 else none
  | a :: l => if pat <+: a :: l then some 0 else (find? pat l).map (· + 1)

/-- Offset of the rightmost occurrence of `pat`. -/
def rfind? (pat : List α) : List α → Option Nat
  | [] => if pat = [] then some 0 else none
  | a :: l =>
    match rfind? pat l with
    | some i => some (i + 1)
    | none => if pat <+: a :: l then some 0 else none

theorem find?_eq_none {pat l : List α} : find? pat l = none ↔ ∀ i, ¬ OccursAt pat l i := by
  induction l with
  | nil => by_cases h : pat = [] <;> simp [find?, OccursAt, h]
  | cons a l ih =>
    by_cases h : pat <+: a :: l
    · simp only [find?, h, if_true, reduceCtorEq, false_iff, not_forall, not_not]
      exact ⟨0, occursAt_zero.mpr h⟩
    · simp only [find?, h, if_false, Option.map_eq_none_iff, ih]
      constructor
      · rintro hn (_ | i)
        · simpa using h
        · simpa using hn i
      · intro hn i
        simpa using hn (i + 1)

theorem find?_eq_some {pat l : List α} {i : Nat} :
    find? pat l = some i ↔ OccursAt pat l i ∧ ∀ j < i, ¬ OccursAt pat l j := by
  induction l generalizing i with
  | nil =>
    by_cases h : pat = []
    · simp only [find?, h, if_true, Option.some.injEq, OccursAt, List.drop_nil, List.length_nil]
      constructor
      · rintro rfl
        simp
      · rintro ⟨⟨hi, -⟩, -⟩
        omega
    · simp [find?, OccursAt, h]
  | cons a l ih =>
    by_cases h : pat <+: a :: l
    · simp only [find?, h, if_true, Option.some.injEq]
      constructor
      · rintro rfl
        simpa using h
      · rintro ⟨-, hfirst⟩
        by_contra hne
        exact hfirst 0 (by omega) (occursAt_zero.mpr h)
    · simp only [find?, h, if_false, Option.map_eq_some_iff]
      constructor
      · rintro ⟨k, hk, rfl⟩
        obtain ⟨hocc, hfirst⟩ := ih.mp hk
        refine ⟨by simpa using hocc, ?_⟩
        rintro (_ | j) hj
        · simpa using h
        · simpa using hfirst j (by omega)
      · rintro ⟨hocc, hfirst⟩
        cases i with
        | zero => exact absurd (occursAt_zero.mp hocc) h
        | succ i =>
          refine ⟨i, ih.mpr ⟨by simpa using hocc, fun j hj => ?_⟩, rfl⟩
          simpa using hfirst (j + 1) (by omega)

theorem rfind?_eq_none {pat l : List α} : rfind? pat l = none ↔ ∀ i, ¬ OccursAt pat l i := by
  induction l with
  | nil => by_cases h : pat = [] <;> simp [rfind?, OccursAt, h]
  | cons a l ih =>
    cases hr : rfind? pat l with
    | some i =>
      have hex : ∃ j, OccursAt pat l j := by
        by_contra hn
        rw [ih.mpr (by simpa using hn)] at hr
        exact absurd hr (by simp)
      obtain ⟨j, hj⟩ := hex
      simp only [rfind?, hr, reduceCtorEq, false_iff, not_forall, not_not]
      exact ⟨j + 1, by simpa using hj⟩
    | none =>
      have hn := ih.mp hr
      by_cases h : pat <+: a :: l
      · simp only [rfind?, hr, h, if_true, reduceCtorEq, false_iff, not_forall, not_not]
        exact ⟨0, occursAt_zero.mpr h⟩
      · simp only [rfind?, hr, h, if_false, true_iff]
        rintro (_ | i)
        · simpa using h
        · simpa using hn i

theorem rfind?_eq_some {pat l : List α} {i : Nat} :
    rfind? pat l = some i ↔ OccursAt pat l i ∧ ∀ j, i < j → ¬ OccursAt pat l j := by
  induction l generalizing i with
  | nil =>
    by_cases h : pat = []
    · simp only [rfind?, h, if_true, Option.some.injEq, OccursAt, List.drop_nil, List.length_nil]
      constructor
      · rintro rfl
        exact ⟨by simp, fun j hj => by omega⟩
      · rintro ⟨⟨hi, -⟩, -⟩
        omega
    · simp [rfind?, OccursAt, h]
  | cons a l ih =>
    cases hr : rfind? pat l with
    | some k =>
      obtain ⟨hocc, hlast⟩ := ih.mp hr
      simp only [rfind?, hr, Option.some.injEq]
      constructor
      · rintro rfl
        refine ⟨by simpa using hocc, ?_⟩
        rintro (_ | j) hj
        · omega
        · simpa using hlast j (by omega)
      · rintro ⟨hi, hmax⟩
        rcases Nat.lt_trichotomy i (k + 1) with hlt | rfl | hgt
        · exact absurd (by simpa using hocc) (hmax (k + 1) hlt)
        · rfl
        · cases i with
          | zero => omega
          | succ i => exact absurd (by simpa using hi) (hlast i (by omega))
    | none =>
      have hn := rfind?_eq_none.mp hr
      by_cases h : pat <+: a :: l
      · simp only [rfind?, hr, h, if_true, Option.some.injEq]
        constructor
        · rintro rfl
          refine ⟨by simpa using h, ?_⟩
          rintro (_ | j) hj
          · omega
          · simpa using hn j
        · rintro ⟨hocc, -⟩
          cases i with
          | zero => rfl
          | succ i => exact absurd (by simpa using hocc) (hn i)
      · simp only [rfind?, hr, h, if_false, reduceCtorEq, false_iff, not_and]
        intro hocc
        cases i with
        | zero => exact absurd (occursAt_zero.mp hocc) h
        | succ i => exact absurd (by simpa using hocc) (hn i)

/-- The rightmost occurrence of an element that does not come again. -/
theorem rfind?_singleton {a : α} {x y : List α} (hy : a ∉ y) :
    rfind? [a] (x ++ a :: y) = some x.length := by
  refine rfind?_eq_some.mpr ⟨occursAt_self_append x [a] y, fun j hj hocc => ?_⟩
  obtain ⟨k, rfl⟩ := Nat.exists_eq_add_of_lt hj
  rw [Nat.add_assoc] at hocc
  have hin : OccursAt [a] y k := occursAt_cons_succ.mp hocc.of_append_left
  exact hy ((infix_iff_occursAt.mpr ⟨k, hin⟩).subset (List.mem_singleton_self a))

theorem rfind?_singleton_none {a : α} {l : List α} (h : a ∉ l) : rfind? [a] l = none :=
  rfind?_eq_none.mpr fun i hocc =>
    h ((infix_iff_occursAt.mpr ⟨i, hocc⟩).subset (List.mem_singleton_self a))

theorem find?_length_le {pat l : List α} {i : Nat} (h : find? pat l = some i) :
    i + pat.length ≤ l.length := (find?_eq_some.mp h).1.length_le

/-- An occurrence found in a prefix is the one found in every extension. -/
theorem find?_append_right {pat l : List α} {i : Nat} (h : find? pat l = some i) (r : List α) :
    find? pat (l ++ r) = some i := by
  obtain ⟨hocc, hfirst⟩ := find?_eq_some.mp h
  have hlen := hocc.length_le
  exact find?_eq_some.mpr ⟨hocc.append_right r,
    fun j hj hj' => hfirst j hj (hj'.of_append (by omega))⟩

/-- An occurrence that lies inside a prefix is already found in that prefix. -/
theorem find?_of_append {pat l r : List α} {i : Nat} (h : find? pat (l ++ r) = some i)
    (hi : i + pat.length ≤ l.length) : find? pat l = some i := by
  obtain ⟨hocc, hfirst⟩ := find?_eq_some.mp h
  exact find?_eq_some.mpr ⟨hocc.of_append hi, fun j hj hj' => hfirst j hj (hj'.append_right r)⟩

/-! ## Separators that do not overlap themselves -/

omit [DecidableEq α] in
/-- No proper nonempty prefix of `sep` is a suffix of it. -/
def Unbordered (sep : List α) : Prop :=
  sep ≠ [] ∧ ∀ k, 0 < k → k < sep.length → sep.take k ≠ sep.drop (sep.length - k)

omit [DecidableEq α] in
theorem unbordered_singleton (a : α) : Unbordered [a] :=
  ⟨by simp, fun k h0 h1 => by simp at h1; omega⟩

omit [DecidableEq α] in
theorem unbordered_pair {a b : α} (h : a ≠ b) : Unbordered [a, b] := by
  refine ⟨by simp, fun k h0 h1 => ?_⟩
  have hk : k = 1 := by simp at h1; omega
  subst hk
  simpa using h

omit [DecidableEq α] in
/-- An occurrence that starts before the end of `x` and reaches past it overlaps the
separator that follows `x`; an unbordered separator has no such overlap. -/
theorem Unbordered.not_occursAt {sep x y : List α} (hs : Unbordered sep) (hx : ¬ sep <:+: x)
    {j : Nat} (hj : j < x.length) : ¬ OccursAt sep (x ++ (sep ++ y)) j := by
  intro hocc
  by_cases hin : j + sep.length ≤ x.length
  · exact hx (infix_iff_occursAt.mpr ⟨j, hocc.of_append hin⟩)
  · -- the overlap: the last `k` elements of this occurrence are the first `k` of the next
    have hk : j + sep.length - x.length < sep.length := by omega
    apply hs.2 (j + sep.length - x.length) (by omega) hk
    have hpre := hocc.2
    rw [List.drop_append_of_le_length (by omega)] at hpre
    have htake : sep = (x.drop j ++ (sep ++ y)).take sep.length :=
      (List.prefix_iff_eq_take.mp hpre)
    have hdrop : sep.drop (x.length - j) = sep.take (j + sep.length - x.length) := by
      conv_lhs => rw [htake]
      rw [List.drop_take, List.drop_append, List.drop_eq_nil_of_le (by simp),
        List.nil_append, List.length_drop]
      simp only [Nat.sub_self, List.drop_zero]
      rw [List.take_append_of_le_length (by omega)]
      congr 1
      omega
    rw [← hdrop]
    congr 1
    omega

/-- The first separator after a list that contains none. -/
theorem find?_append_sep {sep x : List α} (hs : Unbordered sep) (hx : ¬ sep <:+: x)
    (y : List α) : find? sep (x ++ (sep ++ y)) = some x.length :=
  find?_eq_some.mpr ⟨occursAt_self_append x sep y, fun _ hj => hs.not_occursAt hx hj⟩

/-- The leftmost occurrence of an element. -/
theorem find?_singleton {a : α} {x : List α} (hx : a ∉ x) (y : List α) :
    find? [a] (x ++ a :: y) = some x.length :=
  find?_append_sep (unbordered_singleton a) (mt (List.singleton_infix_iff a x).mp hx) y

theorem find?_singleton_none {a : α} {l : List α} (h : a ∉ l) : find? [a] l = none :=
  find?_eq_none.mpr fun i hocc =>
    h ((infix_iff_occursAt.mpr ⟨i, hocc⟩).subset (List.mem_singleton_self a))

omit [DecidableEq α] in
theorem Unbordered.occursAt_cons_sep {sep y : List α} (hs : Unbordered sep) {j : Nat}
    (h0 : 0 < j) (hj : j < sep.length) : ¬ OccursAt sep (sep ++ y) j := by
  intro hocc
  apply hs.2 (sep.length - j) (by omega) (by omega)
  have hpre := hocc.2
  rw [List.drop_append_of_le_length (by omega)] at hpre
  have htake := List.prefix_iff_eq_take.mp hpre
  have hcut : sep.take (sep.length - j) = sep.drop j := by
    have := congrArg (List.take (sep.length - j)) htake
    rwa [List.take_take, Nat.min_eq_left (by omega), List.take_append_of_le_length (by simp),
      List.take_of_length_le (l := sep.drop j) (by simp)] at this
  rw [hcut]
  congr 1
  omega

/-- The first doubled separator, found one separator-free line at a time. -/
theorem find?_double {sep line : List α} (hs : Unbordered sep) (hline : ¬ sep <:+: line)
    (rest : List α) :
    find? (sep ++ sep) (line ++ (sep ++ rest)) =
      if sep <+: rest then some line.length
      else (find? (sep ++ sep) rest).map (· + (line.length + sep.length)) := by
  -- a doubled separator starts with a separator, and none starts inside `line`
  have hsingle : ∀ {l : List α} {j}, OccursAt (sep ++ sep) l j → OccursAt sep l j := by
    intro l j h
    exact ⟨h.1, (List.prefix_append sep sep).trans h.2⟩
  split_ifs with hrest
  · obtain ⟨r, rfl⟩ := hrest
    refine find?_eq_some.mpr ⟨?_, fun j hj hocc => hs.not_occursAt hline hj (hsingle hocc)⟩
    exact occursAt_iff.mpr ⟨line, r, by simp, rfl⟩
  · have hshift : ∀ i, OccursAt (sep ++ sep) (line ++ (sep ++ rest)) i →
        ∃ k, i = line.length + (sep.length + k) ∧ OccursAt (sep ++ sep) rest k := by
      intro i hocc
      have h1 : line.length ≤ i := by
        by_contra hlt
        exact hs.not_occursAt hline (by omega) (hsingle hocc)
      obtain ⟨i', rfl⟩ := Nat.exists_eq_add_of_le h1
      have hocc' := hocc.of_append_left
      have h2 : sep.length ≤ i' := by
        by_contra hlt
        rcases Nat.eq_zero_or_pos i' with rfl | hpos
        · exact hrest (by simpa using hocc')
        · exact hs.occursAt_cons_sep hpos (by omega) (hsingle hocc')
      obtain ⟨k, rfl⟩ := Nat.exists_eq_add_of_le h2
      exact ⟨k, rfl, hocc'.of_append_left⟩
    cases hr : find? (sep ++ sep) rest with
    | none =>
      refine find?_eq_none.mpr fun i hocc => ?_
      obtain ⟨k, -, hk⟩ := hshift i hocc
      exact find?_eq_none.mp hr k hk
    | some k =>
      obtain ⟨hk, hfirst⟩ := find?_eq_some.mp hr
      refine find?_eq_some.mpr ⟨?_, fun j hj hocc => ?_⟩
      · have hline := (hk.append_left sep).append_left line
        rwa [← Nat.add_assoc, Nat.add_comm (line.length + sep.length) k] at hline
      · obtain ⟨k', rfl, hk'⟩ := hshift j hocc
        exact hfirst k' (by simp only at hj; omega) hk'

/-- The first doubled separator behind nonempty lines stands at their end. -/
theorem find?_double_lines {sep line : List α} (hs : Unbordered sep) (hline : ¬ sep <:+: line)
    {lines : List (List α)} (hlines : ∀ l ∈ lines, l ≠ [] ∧ ¬ sep <:+: l) (rest : List α) :
    find? (sep ++ sep) (line ++ (sep ++ (lines.flatMap (· ++ sep) ++ (sep ++ rest)))) =
      some (line.length + (lines.flatMap (· ++ sep)).length) := by
  induction lines generalizing line with
  | nil =>
    simp only [List.flatMap_nil, List.nil_append]
    rw [find?_double hs hline, if_pos (List.prefix_append _ _)]
    rfl
  | cons l lines ih =>
    obtain ⟨hne, hl⟩ := hlines l List.mem_cons_self
    have hnot : ¬ sep <+: l ++ (sep ++ (lines.flatMap (· ++ sep) ++ (sep ++ rest))) := fun hpre =>
      hs.not_occursAt hl (List.length_pos_iff.mpr hne) (occursAt_zero.mpr hpre)
    rw [find?_double hs hline]
    simp only [List.flatMap_cons, List.append_assoc]
    rw [if_neg hnot, ih hl fun m hm => hlines m (List.mem_cons_of_mem _ hm)]
    simp only [Option.map_some, List.length_append]
    congr 1
    omega

/-- The searches from either end agree on whether there is an occurrence. -/
theorem rfind?_isSome_iff {pat l : List α} :
    (rfind? pat l).isSome = true ↔ ∃ i, OccursAt pat l i := by
  rw [← not_iff_not, Bool.not_eq_true, Option.isSome_eq_false_iff, Option.isNone_iff_eq_none,
    rfind?_eq_none, not_exists]

/-! ## Cutting at the leftmost occurrence -/

/-- What stands before and after the leftmost occurrence of `pat`. -/
def cut? (pat l : List α) : Option (List α × List α) :=
  (find? pat l).map fun i => (l.take i, l.drop (i + pat.length))

theorem cut?_eq_some {pat l x y : List α} :
    cut? pat l = some (x, y) ↔ l = x ++ (pat ++ y) ∧ find? pat l = some x.length := by
  simp only [cut?, Option.map_eq_some_iff, Prod.mk.injEq]
  constructor
  · rintro ⟨i, hi, rfl, rfl⟩
    obtain ⟨u, v, rfl, rfl⟩ := occursAt_iff.mp (find?_eq_some.mp hi).1
    have hd : (u ++ (pat ++ v)).drop (u.length + pat.length) = v := by
      rw [← List.append_assoc, ← List.length_append, List.drop_left]
    rw [hd, List.take_left]
    exact ⟨rfl, hi⟩
  · rintro ⟨rfl, hi⟩
    refine ⟨_, hi, by simp, ?_⟩
    rw [← List.append_assoc, ← List.length_append, List.drop_left]

theorem cut?_eq_none {pat l : List α} : cut? pat l = none ↔ ∀ i, ¬ OccursAt pat l i := by
  simp [cut?, find?_eq_none]

theorem cut?_append_sep {sep x : List α} (hs : Unbordered sep) (hx : ¬ sep <:+: x)
    (y : List α) : cut? sep (x ++ (sep ++ y)) = some (x, y) :=
  cut?_eq_some.mpr ⟨rfl, find?_append_sep hs hx y⟩

/-- The cut of a prefix survives every extension; only the right part grows. -/
theorem cut?_append_right {pat l x y : List α} (h : cut? pat l = some (x, y)) (r : List α) :
    cut? pat (l ++ r) = some (x, y ++ r) := by
  obtain ⟨rfl, hf⟩ := cut?_eq_some.mp h
  exact cut?_eq_some.mpr ⟨by simp, find?_append_right hf r⟩

theorem not_infix_of_cut?_left {sep l x y : List α} (hs : sep ≠ [])
    (h : cut? sep l = some (x, y)) : ¬ sep <:+: x := by
  obtain ⟨rfl, hf⟩ := cut?_eq_some.mp h
  intro hx
  obtain ⟨j, hj⟩ := infix_iff_occursAt.mp hx
  have hpos : 0 < sep.length := List.length_pos_iff.mpr hs
  have hlen := hj.length_le
  exact (find?_eq_some.mp hf).2 j (by omega) (hj.append_right _)

/-! ## Scanning forward -/

omit [DecidableEq α] in
/-- The first position from `i` on whose element fails `p`, or the end of the list. -/
def scan (p : α → Bool) (l : List α) (i : Nat) : Nat := i + ((l.drop i).takeWhile p).length

omit [DecidableEq α] in
/-- A scan runs over a stretch that satisfies `p` and stops at what follows. -/
theorem scan_eq {p : α → Bool} {l x y : List α} {i : Nat} (hl : l.drop i = x ++ y)
    (hx : ∀ a ∈ x, p a = true) (hy : ∀ a ∈ y.head?, p a = false) :
    scan p l i = i + x.length := by
  have hnil : y.takeWhile p = [] := by
    cases y with
    | nil => rfl
    | cons a y => exact List.takeWhile_cons_of_neg (by simpa using hy a)
  rw [scan, hl, List.takeWhile_append_of_pos hx, hnil, List.append_nil]

/-! ## Pieces between separators -/

/-- The pieces of `l`, at most `n` of them: nothing follows a final separator. -/
def piecesAux (sep : List α) : Nat → List α → List (List α)
  | 0, _ => []
  | n + 1, l =>
    if l = [] then []
    else match cut? sep l with
      | none => [l]
      | some (x, y) => x :: piecesAux sep n y

/-- The pieces of `l` between occurrences of `sep`. -/
def pieces (sep l : List α) : List (List α) := piecesAux sep l.length l

theorem cut?_length_lt {sep l x y : List α} (hs : sep ≠ []) (h : cut? sep l = some (x, y)) :
    y.length < l.length := by
  obtain ⟨rfl, -⟩ := cut?_eq_some.mp h
  have := List.length_pos_iff.mpr hs
  simp
  omega

theorem piecesAux_eq {sep : List α} (hs : sep ≠ []) {l : List α} {n m : Nat}
    (hn : l.length ≤ n) (hm : l.length ≤ m) : piecesAux sep n l = piecesAux sep m l := by
  induction n generalizing l m with
  | zero =>
    have : l = [] := List.length_eq_zero_iff.mp (by omega)
    cases m <;> simp [piecesAux, this]
  | succ n ih =>
    by_cases hl : l = []
    · cases m <;> simp [piecesAux, hl]
    · cases m with
      | zero => exact absurd (List.length_eq_zero_iff.mp (by omega)) hl
      | succ m =>
        simp only [piecesAux, hl, if_false]
        cases hc : cut? sep l with
        | none => rfl
        | some p =>
          have hlt := cut?_length_lt hs (x := p.1) (y := p.2) hc
          simp only
          rw [ih (m := m) (by omega) (by omega)]

@[simp] theorem pieces_nil (sep : List α) : pieces sep [] = [] := rfl

theorem pieces_of_cut {sep l x y : List α} (hs : sep ≠ []) (h : cut? sep l = some (x, y)) :
    pieces sep l = x :: pieces sep y := by
  have hlt := cut?_length_lt hs h
  obtain ⟨n, hn⟩ : ∃ n, l.length = n + 1 := ⟨l.length - 1, by omega⟩
  have hl : l ≠ [] := by rintro rfl; simp at hn
  rw [pieces, hn, piecesAux, if_neg hl, h, pieces]
  simp only
  rw [piecesAux_eq hs (by omega) (le_refl _)]

theorem pieces_of_no_cut {sep l : List α} (hl : l ≠ []) (h : cut? sep l = none) :
    pieces sep l = [l] := by
  obtain ⟨n, hn⟩ : ∃ n, l.length = n + 1 :=
    ⟨l.length - 1, by have := List.length_pos_iff.mpr hl; omega⟩
  rw [pieces, hn, piecesAux, if_neg hl, h]

theorem not_infix_of_mem_piecesAux {sep : List α} (hs : sep ≠ []) {n : Nat} {l piece : List α}
    (h : piece ∈ piecesAux sep n l) : ¬ sep <:+: piece := by
  induction n generalizing l with
  | zero => simp [piecesAux] at h
  | succ n ih =>
    rw [piecesAux] at h
    split_ifs at h with hl
    · simp at h
    · cases hc : cut? sep l with
      | none =>
        rw [hc] at h
        obtain rfl := List.mem_singleton.mp h
        rw [infix_iff_occursAt, not_exists]
        exact cut?_eq_none.mp hc
      | some p =>
        rw [hc] at h
        rcases List.mem_cons.mp h with rfl | h
        · exact not_infix_of_cut?_left (y := p.2) hs hc
        · exact ih h

/-- No separator stands in a piece. -/
theorem not_infix_of_mem_pieces {sep l piece : List α} (hs : sep ≠ [])
    (h : piece ∈ pieces sep l) : ¬ sep <:+: piece :=
  not_infix_of_mem_piecesAux hs h

/-- Joining separator-free lines and taking the pieces gives the lines back. -/
theorem pieces_flatMap {sep : List α} (hs : Unbordered sep) {lines : List (List α)}
    (hl : ∀ line ∈ lines, ¬ sep <:+: line) :
    pieces sep (lines.flatMap (· ++ sep)) = lines := by
  induction lines with
  | nil => rfl
  | cons line lines ih =>
    have hcut : cut? sep ((line :: lines).flatMap (· ++ sep)) =
        some (line, lines.flatMap (· ++ sep)) := by
      rw [List.flatMap_cons, List.append_assoc]
      exact cut?_append_sep hs (hl line (by simp)) _
    rw [pieces_of_cut hs.1 hcut, ih fun l h => hl l (by simp [h])]

/-- Ending every piece of a list that ends in the separator gives the list back. -/
theorem flatMap_pieces {sep : List α} (hs : Unbordered sep) (l : List α) :
    (pieces sep (l ++ sep)).flatMap (· ++ sep) = l ++ sep := by
  induction hn : l.length using Nat.strong_induction_on generalizing l with
  | _ n ih =>
    by_cases hl : sep <:+: l
    · cases hc : cut? sep l with
      | none =>
        obtain ⟨i, hi⟩ := infix_iff_occursAt.mp hl
        exact absurd hi (cut?_eq_none.mp hc i)
      | some p =>
        obtain ⟨x, y⟩ := p
        have hlt := cut?_length_lt hs.1 hc
        rw [pieces_of_cut hs.1 (cut?_append_right hc sep), List.flatMap_cons,
          ih y.length (by omega) y rfl, (cut?_eq_some.mp hc).1]
        simp only [List.append_assoc]
    · have hcut := cut?_append_sep hs hl []
      rw [List.append_nil] at hcut
      rw [pieces_of_cut hs.1 hcut]
      simp

end ListSearch
