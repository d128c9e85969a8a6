import HttpC.Multipart
import Mathlib.Algebra.Group.Nat.Even
import Mathlib.Data.List.DropRight

/-!
# Where the boundary is found

`find_boundary` tries the pairs of dashes from left to right and goes on behind a pair that the
boundary does not follow. A delimiter that starts inside such a pair is passed over.

## Main results

* `dashScan_find` — the scan stops at the first delimiter exactly if an even number of dashes stands
  right in front of it.
* `findBoundary_first_iff` — when the search is a search for the first delimiter.
-/

namespace HttpC

open ListSearch

/-- `find_boundary` with its return type, the position as an `int` or `-1`. -/
def findBoundaryInt (lib : CommonLib) (cursor : Span) (offset : Nat) (boundary : Span) : Int :=
  match findBoundary lib cursor offset boundary with
  | some absPos => Int.bmod absPos (2 ^ 32)
  | none => -1

/-- The positions that `mp_iterator_next` takes are the results that are not negative. -/
theorem boundaryPosition_eq_some_iff (lib : CommonLib) {cursor boundary : Span} {offset p : Nat}
    (hsize : cursor.size < 2 ^ 32) (h : offset ≤ cursor.size) :
    boundaryPosition lib cursor offset boundary = some p ↔
      findBoundaryInt lib cursor offset boundary = p := by
  rw [boundaryPosition, findBoundaryInt]
  cases hfound : findBoundary lib cursor offset boundary with
  | none =>
    dsimp only
    rw [Option.filter_none]
    exact iff_of_false (by simp) (by omega)
  | some q =>
    obtain ⟨k, hk, rfl⟩ := findBoundary_scan lib h hfound
    have hlt := dashScan_lt hk
    rw [List.length_drop] at hlt
    simp only [Span.size] at hsize h
    rw [Option.filter_some, Option.ite_none_right_eq_some, Option.some.injEq,
      fitsInt_iff (by omega)]
    dsimp only
    rw [Int.bmod_def]
    split <;> omega

/-! ## Runs of dashes -/

/-- The number of dashes at the end. -/
def dashRun (l : Bytes) : Nat := (l.rtakeWhile (· == 45)).length

theorem dashRun_cons (a : UInt8) (l : Bytes) :
    dashRun (a :: l) =
      if dashRun l = l.length then (if a = 45 then l.length + 1 else l.length) else dashRun l := by
  simp only [dashRun, List.rtakeWhile, List.length_reverse, List.reverse_cons,
    List.takeWhile_append]
  split_ifs with hall ha
  · simp [ha]
  · simp [ha]
  · rfl

theorem dashRun_le (l : Bytes) : dashRun l ≤ l.length := by
  rw [dashRun]
  exact (List.rtakeWhile_suffix _ l).length_le

theorem dashRun_cons_of_ne {a : UInt8} (ha : a ≠ 45) (l : Bytes) :
    dashRun (a :: l) = dashRun l := by
  rw [dashRun_cons, if_neg ha]
  split_ifs with hall
  · exact hall.symm
  · rfl

/-- A run does not reach over a byte that is no dash. -/
theorem dashRun_cons_cons_of_ne {b : UInt8} (hb : b ≠ 45) (a : UInt8) (l : Bytes) :
    dashRun (a :: b :: l) = dashRun (b :: l) := by
  have hle := dashRun_le l
  rw [dashRun_cons a, if_neg]
  rw [dashRun_cons_of_ne hb, List.length_cons]
  omega

/-- A pair of dashes in front does not change the parity. -/
theorem even_dashRun_pair (l : Bytes) : Even (dashRun (45 :: 45 :: l)) ↔ Even (dashRun l) := by
  have hle := dashRun_le l
  by_cases hall : dashRun l = l.length
  · have hone : dashRun (45 :: l) = l.length + 1 := by rw [dashRun_cons, if_pos hall, if_pos rfl]
    rw [dashRun_cons, hone, List.length_cons, if_pos rfl, if_pos rfl, hall, Nat.even_add_one,
      Nat.even_add_one, not_not]
  · have hone : dashRun (45 :: l) = dashRun l := by rw [dashRun_cons, if_neg hall]
    rw [dashRun_cons, hone, List.length_cons, if_neg (by omega)]

/-! ## The scan -/

/-- The scan stops at the first delimiter exactly if the pairs of the run in front of it end where
it starts. -/
theorem dashScan_find {boundary l : Bytes} {i : Nat}
    (h : find? (dashDash.bytes ++ boundary) l = some i) :
    dashScan boundary l = some i ↔ Even (dashRun (l.take i)) := by
  fun_induction dashScan boundary l generalizing i with
  | case1 => simp [find?, dashDash_bytes] at h
  | case2 a => simp [find?, dashDash_bytes] at h
  | case3 a b rest hdashes hpre =>
    obtain ⟨rfl, rfl⟩ := hdashes
    have hzero : find? (dashDash.bytes ++ boundary) (45 :: 45 :: rest) = some 0 :=
      if_pos (by simpa [dashDash_bytes] using hpre)
    obtain rfl := Option.some.inj (hzero.symm.trans h)
    simp [dashRun]
  | case4 a b rest hdashes hpre ih =>
    obtain ⟨rfl, rfl⟩ := hdashes
    have hskip : find? (dashDash.bytes ++ boundary) (45 :: 45 :: rest) =
        (find? (dashDash.bytes ++ boundary) (45 :: rest)).map (· + 1) :=
      if_neg (by simpa [dashDash_bytes] using hpre)
    rw [hskip] at h
    obtain ⟨j, hj, rfl⟩ := Option.map_eq_some_iff.mp h
    cases j with
    | zero =>
      -- the delimiter starts with the second dash of the pair
      have hone : dashRun [45] = 1 := by decide
      simp [hone]
    | succ k =>
      have hk : find? (dashDash.bytes ++ boundary) rest = some k := by
        rw [find?] at hj
        split_ifs at hj
        · cases hj
        · simpa using hj
      rw [List.take_succ_cons, List.take_succ_cons, even_dashRun_pair, ← ih hk]
      simp
  | case5 a b rest hdashes ih =>
    have hskip : find? (dashDash.bytes ++ boundary) (a :: b :: rest) =
        (find? (dashDash.bytes ++ boundary) (b :: rest)).map (· + 1) := by
      refine if_neg fun hpre => hdashes ?_
      rw [dashDash_bytes] at hpre
      simpa [eq_comm] using And.intro (List.cons_prefix_cons.mp hpre).1
        (List.cons_prefix_cons.mp (List.cons_prefix_cons.mp hpre).2).1
    rw [hskip] at h
    obtain ⟨j, hj, rfl⟩ := Option.map_eq_some_iff.mp h
    have hrun : dashRun (a :: (b :: rest).take j) = dashRun ((b :: rest).take j) := by
      by_cases ha : a = 45
      · have hb : b ≠ 45 := fun hb => hdashes ⟨ha, hb⟩
        cases j with
        | zero =>
          have hpre := (find?_eq_some.mp hj).1.2
          rw [dashDash_bytes] at hpre
          exact absurd (List.cons_prefix_cons.mp hpre).1.symm hb
        | succ k => exact dashRun_cons_cons_of_ne hb a _
      · exact dashRun_cons_of_ne ha _
    rw [List.take_succ_cons, hrun, ← ih hj]
    simp

/-! ## The search -/

/-- `p` is the smallest position from `offset` on at which two dashes and the boundary stand. -/
def FirstDelimiter (bytes boundary : Bytes) (offset p : Nat) : Prop :=
  offset ≤ p ∧ OccursAt (dashDash.bytes ++ boundary) bytes p ∧
    ∀ j, offset ≤ j → j < p → ¬ OccursAt (dashDash.bytes ++ boundary) bytes j

/-- What a search for the first delimiter returns. -/
def ReturnsFirst (bytes boundary : Bytes) (offset : Nat) (result : Int) : Prop :=
  (∀ p, FirstDelimiter bytes boundary offset p → result = p) ∧
    ((∀ p, offset ≤ p → ¬ OccursAt (dashDash.bytes ++ boundary) bytes p) → result = -1)

theorem occursAt_drop {pat l : Bytes} {offset : Nat} (h : offset ≤ l.length) (i : Nat) :
    OccursAt pat (l.drop offset) i ↔ OccursAt pat l (offset + i) := by
  rw [OccursAt, OccursAt, List.drop_drop, List.length_drop]
  refine and_congr_left fun _ => ?_
  omega

theorem firstDelimiter_iff {bytes boundary : Bytes} {offset : Nat} (h : offset ≤ bytes.length)
    (i : Nat) : find? (dashDash.bytes ++ boundary) (bytes.drop offset) = some i ↔
      FirstDelimiter bytes boundary offset (offset + i) := by
  rw [find?_eq_some, FirstDelimiter, occursAt_drop h]
  constructor
  · rintro ⟨hat, hfirst⟩
    refine ⟨Nat.le_add_right _ _, hat, fun j hj hlt hoccurs => ?_⟩
    refine hfirst (j - offset) (by omega) ((occursAt_drop h _).mpr ?_)
    rwa [Nat.add_sub_cancel' hj]
  · rintro ⟨-, hat, hfirst⟩
    refine ⟨hat, fun j hlt hoccurs => ?_⟩
    exact hfirst (offset + j) (Nat.le_add_right _ _) (by omega) ((occursAt_drop h j).mp hoccurs)

theorem FirstDelimiter.unique {bytes boundary : Bytes} {offset p q : Nat}
    (hp : FirstDelimiter bytes boundary offset p) (hq : FirstDelimiter bytes boundary offset q) :
    p = q := by
  rcases Nat.lt_trichotomy p q with hlt | heq | hlt
  · exact absurd hp.2.1 (hq.2.2 p hp.1 hlt)
  · exact heq
  · exact absurd hq.2.1 (hp.2.2 q hq.1 hlt)

theorem FirstDelimiter.returnsFirst_iff {bytes boundary : Bytes} {offset p : Nat} {result : Int}
    (h : FirstDelimiter bytes boundary offset p) :
    ReturnsFirst bytes boundary offset result ↔ result = p := by
  refine ⟨fun hr => hr.1 _ h, fun hr => ⟨fun q hq => ?_, fun hnone => ?_⟩⟩
  · rw [hq.unique h, hr]
  · exact absurd h.2.1 (hnone _ h.1)

/-- The condition on the first delimiter, as the scan has it. -/
theorem FirstDelimiter.condition_iff {bytes boundary : Bytes} {offset i : Nat}
    (h : FirstDelimiter bytes boundary offset (offset + i))
    (hfind : find? (dashDash.bytes ++ boundary) (bytes.drop offset) = some i) :
    (∀ p, FirstDelimiter bytes boundary offset p →
      p < 2 ^ 31 ∧ Even (dashRun ((bytes.take p).drop offset))) ↔
      offset + i < 2 ^ 31 ∧ dashScan boundary (bytes.drop offset) = some i := by
  have hrun : (bytes.take (offset + i)).drop offset = (bytes.drop offset).take i := by
    rw [List.drop_take, Nat.add_sub_cancel_left]
  rw [dashScan_find hfind, ← hrun]
  refine ⟨fun hall => hall _ h, fun hi p hp => ?_⟩
  rwa [hp.unique h]

/-- Without a delimiter the scan finds nothing. -/
theorem dashScan_eq_none {boundary l : Bytes} (h : find? (dashDash.bytes ++ boundary) l = none) :
    dashScan boundary l = none := by
  cases hscan : dashScan boundary l with
  | none => rfl
  | some i =>
    have hlt := dashScan_lt hscan
    exact absurd ⟨by omega, dashScan_starts hscan⟩ (find?_eq_none.mp h i)

/-- The loop ends, and it returns the first delimiter exactly if an even number of dashes stands in
front of that delimiter and its position is an `int`. -/
theorem findBoundary_first_iff (lib : CommonLib) (cursor boundary : Span) {offset : Nat}
    (hsize : cursor.size < 2 ^ 32) (h : offset ≤ cursor.size) :
    (∀ fuel, cursor.size - offset < fuel →
      findBoundaryLoop lib cursor boundary fuel (lib.spanSliceToEnd cursor offset) =
        findBoundary lib cursor offset boundary) ∧
    (ReturnsFirst cursor.bytes boundary.bytes offset
        (findBoundaryInt lib cursor offset boundary) ↔
      ∀ p, FirstDelimiter cursor.bytes boundary.bytes offset p →
        p < 2 ^ 31 ∧ Even (dashRun ((cursor.bytes.take p).drop offset))) := by
  have hfuel : ∀ fuel, cursor.size - offset < fuel →
      findBoundaryLoop lib cursor boundary fuel (lib.spanSliceToEnd cursor offset) =
        findBoundary lib cursor offset boundary := by
    intro fuel hfuel
    rw [findBoundary, lib.spanSliceToEnd_eq _ _ h]
    exact findBoundaryLoop_congr lib lib cursor boundary rfl rfl h
      (by simpa [Span.size] using hfuel) (Nat.lt_succ_self _)
  refine ⟨hfuel, ?_⟩
  cases hfind : find? (dashDash.bytes ++ boundary.bytes) (cursor.bytes.drop offset) with
  | none =>
    have hnone : ∀ p, ¬ FirstDelimiter cursor.bytes boundary.bytes offset p := by
      intro p hp
      obtain ⟨i, rfl⟩ := Nat.exists_eq_add_of_le hp.1
      rw [(firstDelimiter_iff h i).mpr hp] at hfind
      cases hfind
    have hlost : findBoundaryInt lib cursor offset boundary = -1 := by
      rw [findBoundaryInt]
      cases hfound : findBoundary lib cursor offset boundary with
      | none => rfl
      | some p =>
        obtain ⟨k, hk, -⟩ := findBoundary_scan lib h hfound
        rw [dashScan_eq_none hfind] at hk
        cases hk
    exact ⟨fun _ p hp => absurd hp (hnone p),
      fun _ => ⟨fun p hp => absurd hp (hnone p), fun _ => hlost⟩⟩
  | some i =>
    have hfirst := (firstDelimiter_iff h i).mp hfind
    have hlen := hfirst.2.1.length_le
    rw [List.length_append, dashDash_length, ← Span.size] at hlen
    rw [hfirst.returnsFirst_iff, hfirst.condition_iff hfind]
    rw [← boundaryPosition_eq_some_iff lib hsize h]
    constructor
    · intro hresult
      obtain ⟨hfound, hint⟩ := Option.mem_filter_iff.mp hresult
      obtain ⟨k, hk, hki⟩ := findBoundary_scan lib h hfound
      obtain rfl : i = k := by omega
      rw [Span.size] at hsize
      exact ⟨(fitsInt_iff (by omega)).mp hint, hk⟩
    · rintro ⟨hint, hscan⟩
      exact boundaryPosition_eq lib h hscan hint

/-- Two pairs of dashes in front of a delimiter, and an offset behind the first byte. -/
theorem findBoundary_first_dashes :
    let cursor : Span := ⟨1000, ascii "x------xy"⟩
    (∀ fuel, 8 < fuel →
      findBoundaryLoop .reference cursor (.lit "xy") fuel
        (CommonLib.reference.spanSliceToEnd cursor 1) =
        findBoundary .reference cursor 1 (.lit "xy")) ∧
    (ReturnsFirst cursor.bytes (ascii "xy") 1 (findBoundaryInt .reference cursor 1 (.lit "xy")) ↔
      ∀ p, FirstDelimiter cursor.bytes (ascii "xy") 1 p →
        p < 2 ^ 31 ∧ Even (dashRun ((cursor.bytes.take p).drop 1))) :=
  @findBoundary_first_iff .reference ⟨1000, ascii "x------xy"⟩ (.lit "xy") 1 (by decide)
    (by decide)

/-- A third dash in front of the boundary hides the delimiter. -/
theorem findBoundary_first_hidden :
    ¬ ∀ (lib : CommonLib) (cursor boundary : Span) (offset : Nat), cursor.size < 2 ^ 32 →
      offset ≤ cursor.size → boundary.bytes ≠ [] →
        ReturnsFirst cursor.bytes boundary.bytes offset
          (findBoundaryInt lib cursor offset boundary) := by
  intro h
  have hfirst := (h .reference ⟨1000, ascii "---xy--"⟩ (.lit "xy") 0 (by decide) (by decide)
    (by decide)).1 1
  have hone : FirstDelimiter (ascii "---xy--") (ascii "xy") 0 1 := by
    refine ⟨by decide, by decide, fun j _ hj => ?_⟩
    obtain rfl := Nat.lt_one_iff.mp hj
    decide
  have hlost : findBoundaryInt .reference ⟨1000, ascii "---xy--"⟩ 0 (.lit "xy") = -1 := by rfl
  exact absurd (hlost.symm.trans (hfirst hone)) (by decide)

end HttpC
