import HttpC.Library.Search
import Mathlib.Algebra.Order.Ring.Nat

/-!
# The string library underneath

`span_t`, `result_t` and the functions of `common-lib-c` that http-c calls. The library
is a separate repository, so its functions are the fields of `CommonLib` and the laws
beside them say what http-c relies on: slices inside the span, leftmost and rightmost
search, comparison with and without letter case, decimal conversion, bounded copy.
A span is an address together with the bytes it covers when it is taken.
-/

namespace HttpC

abbrev Bytes := List UInt8

/-- The bytes of a string literal. -/
def ascii (s : String) : Bytes := s.toList.map fun c => c.toNat.toUInt8

/-- `result_t`, as far as http-c uses it. -/
inductive Result where
  | ok | error | invalidArgument | insufficientSize | notFound | tryAgain
  | endOfData | endOfFile | unexpectedChar
  deriving DecidableEq, Repr

/-- `span_t`. The null pointer is address `0`. -/
structure Span where
  ptr : Nat
  bytes : Bytes
  deriving DecidableEq, Repr

namespace Span

/-- `SPAN_EMPTY`. -/
def empty : Span := ⟨0, []⟩

/-- A span over a string literal; where the literal is stored is of no interest. -/
def lit (s : String) : Span := ⟨0, ascii s⟩

def size (s : Span) : Nat := s.bytes.length

def isEmpty (s : Span) : Bool := s.size == 0

/-- The `n` bytes from offset `i` on. -/
def sub (s : Span) (i n : Nat) : Span := ⟨s.ptr + i, (s.bytes.drop i).take n⟩

/-- Everything from offset `i` on. -/
def tail (s : Span) (i : Nat) : Span := ⟨s.ptr + i, s.bytes.drop i⟩

@[simp] theorem bytes_empty : empty.bytes = [] := rfl
@[simp] theorem bytes_lit (s : String) : (lit s).bytes = ascii s := rfl
@[simp] theorem bytes_sub (s : Span) (i n : Nat) :
    (s.sub i n).bytes = (s.bytes.drop i).take n := rfl
@[simp] theorem ptr_sub (s : Span) (i n : Nat) : (s.sub i n).ptr = s.ptr + i := rfl
@[simp] theorem bytes_tail (s : Span) (i : Nat) : (s.tail i).bytes = s.bytes.drop i := rfl
@[simp] theorem ptr_tail (s : Span) (i : Nat) : (s.tail i).ptr = s.ptr + i := rfl

theorem isEmpty_iff {s : Span} : s.isEmpty = true ↔ s.bytes = [] := by
  simp [isEmpty, size]

theorem isEmpty_eq_false_iff {s : Span} : s.isEmpty = false ↔ s.bytes ≠ [] := by
  rw [← Bool.not_eq_true, isEmpty_iff]

end Span

/-- `uint32_t` arithmetic. -/
def wrap32 (n : Nat) : Nat := n % 2 ^ 32

/-- A position comes back as an `int` below half the range only. -/
theorem bmod_eq_iff {p q : Nat} (hp : p < 2 ^ 32) (hq : q < 2 ^ 32) :
    Int.bmod p (2 ^ 32) = q ↔ p = q ∧ p < 2 ^ 31 := by
  rw [Int.bmod_def]
  split <;> omega

theorem bmod_nonneg_iff {p : Nat} (hp : p < 2 ^ 32) : 0 ≤ Int.bmod p (2 ^ 32) ↔ p < 2 ^ 31 := by
  rw [Int.bmod_def]
  split <;> omega

/-- A position is not negative as an `int`. Where the code tests a search for a negative result, a
position from half the range on counts as a failure. -/
def fitsInt (p : Nat) : Bool := 0 ≤ Int.bmod p (2 ^ 32)

theorem fitsInt_iff {p : Nat} (hp : p < 2 ^ 32) : fitsInt p = true ↔ p < 2 ^ 31 :=
  decide_eq_true_iff.trans (bmod_nonneg_iff hp)

theorem fitsInt_of_lt {p : Nat} (hp : p < 2 ^ 31) : fitsInt p = true :=
  (fitsInt_iff (by omega)).mpr hp

/-! ## Letters and numerals -/

/-- ASCII letter case removed from one byte. -/
def lowerByte (b : UInt8) : UInt8 := if 65 ≤ b ∧ b ≤ 90 then b + 32 else b

def lower (bs : Bytes) : Bytes := bs.map lowerByte

def isDigit (b : UInt8) : Bool := 48 ≤ b && b ≤ 57

/-- The number a string of decimal digits denotes. -/
def decimalValue (bs : Bytes) : Nat := bs.foldl (fun n b => 10 * n + (b.toNat - 48)) 0

/-- A nonempty string of decimal digits. -/
def IsNumeral (bs : Bytes) : Prop := bs ≠ [] ∧ ∀ b ∈ bs, isDigit b = true

instance (bs : Bytes) : Decidable (IsNumeral bs) := inferInstanceAs (Decidable (_ ∧ _))

/-! ## The library -/

/-- The functions http-c takes from `common-lib-c`, and what it relies on. Searches start
at the beginning (`span_find`, `span_split`) or at the end (`span_find_reverse` with `-1`);
`none` is their failure result, `-1` or a nonzero code. A position is a natural number; where
http-c tests its `int` for a negative value, `spanFindInt` stands, and where it compares it
with `-1` the sizes are below `2 ^ 32 - 1`. `spanICompare` is `span_icompare` with its third
argument `true`. -/
structure CommonLib where
  isError : Result → Bool
  failed : Result → Bool
  spanSlice : Span → Nat → Nat → Span
  spanSliceToEnd : Span → Nat → Span
  spanFind : Span → Span → Option (Nat × Span)
  spanFindReverse : Span → Span → Option Nat
  spanSplit : Span → Span → Option (Span × Span)
  spanIterate : Span → Span → Option (Span × Span)
  spanCompare : Span → Span → Int
  spanICompare : Span → Span → Int
  spanToUInt32 : Span → Option Nat
  /-- The written part of the destination and what is left of it. -/
  spanCopy : Span → Span → Span × Span
  isError_eq : ∀ r, isError r = !(r matches .ok | .tryAgain | .endOfData | .endOfFile)
  failed_eq : ∀ r, failed r = isError r
  spanSlice_eq : ∀ s i n, i + n ≤ s.size → spanSlice s i n = s.sub i n
  spanSliceToEnd_eq : ∀ s i, i ≤ s.size → spanSliceToEnd s i = s.tail i
  spanFind_eq : ∀ s p, p.bytes ≠ [] → spanFind s p =
    (ListSearch.find? p.bytes s.bytes).map fun i => (i, s.tail (i + p.size))
  spanFindReverse_eq : ∀ s p, p.bytes ≠ [] →
    spanFindReverse s p = ListSearch.rfind? p.bytes s.bytes
  spanSplit_eq : ∀ s d, d.bytes ≠ [] → spanSplit s d =
    (ListSearch.find? d.bytes s.bytes).map fun i => (s.sub 0 i, s.tail (i + d.size))
  spanIterate_nil : ∀ s d, s.bytes = [] → spanIterate s d = none
  spanIterate_eq : ∀ s d, s.bytes ≠ [] → d.bytes ≠ [] → spanIterate s d =
    match ListSearch.find? d.bytes s.bytes with
    | some i => some (s.sub 0 i, s.tail (i + d.size))
    | none => some (s, Span.empty)
  spanCompare_eq : ∀ s t, spanCompare s t = 0 ↔ s.bytes = t.bytes
  spanICompare_eq : ∀ s t, spanICompare s t = 0 ↔ lower s.bytes = lower t.bytes
  spanToUInt32_congr : ∀ s t, s.bytes = t.bytes → spanToUInt32 s = spanToUInt32 t
  spanToUInt32_lt : ∀ s n, spanToUInt32 s = some n → n < 2 ^ 32
  spanToUInt32_numeral : ∀ s, IsNumeral s.bytes → decimalValue s.bytes < 2 ^ 32 →
    spanToUInt32 s = some (decimalValue s.bytes)
  spanCopy_eq : ∀ d s, s.size ≤ d.size → spanCopy d s = (⟨d.ptr, s.bytes⟩, d.tail s.size)
  spanCopy_overflow : ∀ d s, d.size < s.size → (spanCopy d s).1.bytes = []

namespace CommonLib

/-- The library read literally off its laws, for evaluation. -/
def reference : CommonLib where
  isError r := !(r matches .ok | .tryAgain | .endOfData | .endOfFile)
  failed r := !(r matches .ok | .tryAgain | .endOfData | .endOfFile)
  spanSlice s i n := s.sub i n
  spanSliceToEnd s i := s.tail i
  spanFind s p := (ListSearch.find? p.bytes s.bytes).map fun i => (i, s.tail (i + p.size))
  spanFindReverse s p := ListSearch.rfind? p.bytes s.bytes
  spanSplit s d :=
    (ListSearch.find? d.bytes s.bytes).map fun i => (s.sub 0 i, s.tail (i + d.size))
  spanIterate s d :=
    if s.bytes = [] then none
    else match ListSearch.find? d.bytes s.bytes with
      | some i => some (s.sub 0 i, s.tail (i + d.size))
      | none => some (s, Span.empty)
  spanCompare s t := if s.bytes = t.bytes then 0 else 1
  spanICompare s t := if lower s.bytes = lower t.bytes then 0 else 1
  spanToUInt32 s :=
    if IsNumeral s.bytes ∧ decimalValue s.bytes < 2 ^ 32 then some (decimalValue s.bytes) else none
  spanCopy d s := if s.size ≤ d.size then (⟨d.ptr, s.bytes⟩, d.tail s.size) else (.empty, .empty)
  isError_eq _ := rfl
  failed_eq _ := rfl
  spanSlice_eq _ _ _ _ := rfl
  spanSliceToEnd_eq _ _ _ := rfl
  spanFind_eq _ _ _ := rfl
  spanFindReverse_eq _ _ _ := rfl
  spanSplit_eq _ _ _ := rfl
  spanIterate_nil s d h := by simp [h]
  spanIterate_eq s d h _ := by simp [h]
  spanCompare_eq s t := by split_ifs with h <;> simp [h]
  spanICompare_eq s t := by split_ifs with h <;> simp [h]
  spanToUInt32_congr s t h := by simp only [h]
  spanToUInt32_lt s n h := by
    split_ifs at h with hs
    obtain rfl := Option.some.inj h
    exact hs.2
  spanToUInt32_numeral _ h hlt := if_pos ⟨h, hlt⟩
  spanCopy_eq d s h := by simp [h]
  spanCopy_overflow d s h := by simp [Nat.not_le.mpr h]

variable (lib : CommonLib)

@[simp] theorem isError_ok : lib.isError .ok = false := by rw [lib.isError_eq]; rfl
@[simp] theorem isError_tryAgain : lib.isError .tryAgain = false := by rw [lib.isError_eq]; rfl
@[simp] theorem isError_endOfData : lib.isError .endOfData = false := by rw [lib.isError_eq]; rfl
@[simp] theorem isError_endOfFile : lib.isError .endOfFile = false := by rw [lib.isError_eq]; rfl
@[simp] theorem isError_error : lib.isError .error = true := by rw [lib.isError_eq]; rfl
@[simp] theorem isError_insufficientSize : lib.isError .insufficientSize = true := by
  rw [lib.isError_eq]; rfl
@[simp] theorem isError_invalidArgument : lib.isError .invalidArgument = true := by
  rw [lib.isError_eq]; rfl
@[simp] theorem failed_ok : lib.failed .ok = false := by rw [lib.failed_eq, isError_ok]
@[simp] theorem failed_error : lib.failed .error = true := by rw [lib.failed_eq, isError_error]

/-- `span_find` where its result is tested for a negative `int`. -/
def spanFindInt (s p : Span) : Option (Nat × Span) :=
  (lib.spanFind s p).filter fun found => fitsInt found.1

theorem spanFindInt_eq (s : Span) {p : Span} (h : p.bytes ≠ []) : lib.spanFindInt s p =
    ((ListSearch.find? p.bytes s.bytes).filter fitsInt).map fun i => (i, s.tail (i + p.size)) := by
  rw [spanFindInt, lib.spanFind_eq _ _ h]
  cases ListSearch.find? p.bytes s.bytes with
  | none => rfl
  | some i =>
    simp only [Option.map_some, Option.filter_some]
    split_ifs <;> rfl

/-- A position below half the range is found. -/
theorem spanFindInt_of_lt (s : Span) {p : Span} {i : Nat} (h : p.bytes ≠ [])
    (hfind : ListSearch.find? p.bytes s.bytes = some i) (hi : i < 2 ^ 31) :
    lib.spanFindInt s p = some (i, s.tail (i + p.size)) := by
  rw [spanFindInt_eq lib s h, hfind, Option.filter_some, if_pos (fitsInt_of_lt hi),
    Option.map_some]

/-- The slice over a stretch that is known to stand at its offset. -/
theorem bytes_spanSlice {s : Span} {i : Nat} {x y : Bytes} (h : s.bytes.drop i = x ++ y)
    (hi : i ≤ s.size) : (lib.spanSlice s i x.length).bytes = x := by
  have hlen := congrArg List.length h
  rw [List.length_drop, List.length_append, ← Span.size] at hlen
  rw [lib.spanSlice_eq s i x.length (by omega), Span.bytes_sub, h, List.take_left]

/-- The slice behind a stretch that the span starts with. -/
theorem bytes_spanSliceToEnd {s : Span} {x y : Bytes} (h : s.bytes = x ++ y) :
    (lib.spanSliceToEnd s x.length).bytes = y := by
  have hlen : x.length ≤ s.size := by simp [Span.size, h]
  rw [lib.spanSliceToEnd_eq s _ hlen, Span.bytes_tail, h, List.drop_left]

end CommonLib

end HttpC
