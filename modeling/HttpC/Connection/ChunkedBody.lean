import HttpC.Headers
import Mathlib.Data.List.TakeWhile

/-!
# Chunked bodies

The chunked encoding, as both decoders of `http_connection.c` read it: size lines in
hexadecimal with an optional extension, and data closed by a CRLF. The value of a hex digit
and the size of a run of digits are the tests in the digit loops of the decoders.

## Main results

* `hexNumber_mul_le` — every further digit multiplies the number by sixteen.
-/

namespace HttpC

/-! ## Hexadecimal sizes -/

/-- The three digit ranges of the size loops. -/
def hexValue? (c : UInt8) : Option Nat :=
  if 48 ≤ c ∧ c ≤ 57 then some (c.toNat - 48)
  else if 97 ≤ c ∧ c ≤ 102 then some (c.toNat - 97 + 10)
  else if 65 ≤ c ∧ c ≤ 70 then some (c.toNat - 65 + 10)
  else none

/-- The number a run of hex digits denotes. -/
def hexNumber (digits : Bytes) : Nat :=
  digits.foldl (fun n c => n * 16 + (hexValue? c).getD 0) 0

def IsHex (digits : Bytes) : Prop := ∀ c ∈ digits, (hexValue? c).isSome = true

instance (digits : Bytes) : Decidable (IsHex digits) := inferInstanceAs (Decidable (∀ c ∈ _, _))

/-- A run of digits that something else than a digit follows. -/
def StopsHex (after : Bytes) : Prop := ∀ c ∈ after.head?, hexValue? c = none

instance (after : Bytes) : Decidable (StopsHex after) := inferInstanceAs (Decidable (∀ c ∈ _, _))

theorem StopsHex.take {after : Bytes} (h : StopsHex after) (n : Nat) : StopsHex (after.take n) := by
  intro c hc
  rw [List.head?_take] at hc
  split_ifs at hc
  · simp at hc
  · exact h c hc

theorem IsHex.not_mem {digits : Bytes} (h : IsHex digits) : 10 ∉ digits :=
  fun hin => absurd (h 10 hin) (by decide)

theorem hexNumber_append (x y : Bytes) :
    hexNumber (x ++ y) = y.foldl (fun n c => n * 16 + (hexValue? c).getD 0) (hexNumber x) := by
  rw [hexNumber, List.foldl_append, hexNumber]

theorem le_foldl_hex (n : Nat) (digits : Bytes) :
    n ≤ digits.foldl (fun n c => n * 16 + (hexValue? c).getD 0) n := by
  induction digits generalizing n with
  | nil => exact Nat.le_refl _
  | cons c digits ih =>
    have hle := ih (n * 16 + (hexValue? c).getD 0)
    rw [List.foldl_cons]
    omega

/-- Every further digit multiplies the number by sixteen. -/
theorem hexNumber_mul_le {x y : Bytes} (hy : y ≠ []) :
    hexNumber x * 16 ≤ hexNumber (x ++ y) := by
  obtain ⟨c, y, rfl⟩ := List.exists_cons_of_ne_nil hy
  have hle := le_foldl_hex (hexNumber x * 16 + (hexValue? c).getD 0) y
  rw [hexNumber_append, List.foldl_cons]
  omega

theorem hexNumber_prefix_le (x y : Bytes) : hexNumber x ≤ hexNumber (x ++ y) := by
  rw [hexNumber_append]
  exact le_foldl_hex _ _

/-- The digits at the start. -/
def hexRun (s : Bytes) : Bytes := s.takeWhile fun c => (hexValue? c).isSome

theorem hexRun_append_dropWhile (s : Bytes) :
    hexRun s ++ s.dropWhile (fun c => (hexValue? c).isSome) = s :=
  List.takeWhile_append_dropWhile

theorem isHex_hexRun (s : Bytes) : IsHex (hexRun s) := by
  intro c hc
  exact List.mem_takeWhile_imp (p := fun c => (hexValue? c).isSome) hc

theorem stopsHex_dropWhile (s : Bytes) : StopsHex (s.dropWhile fun c => (hexValue? c).isSome) := by
  intro c hc
  have hhead := List.head?_dropWhile_not (fun c => (hexValue? c).isSome) s
  rw [Option.mem_def.mp hc] at hhead
  simpa using hhead

theorem hexValue_lt {c : UInt8} {v : Nat} (h : hexValue? c = some v) : v < 16 := by
  unfold hexValue? at h
  split_ifs at h with hdigit hlower hupper
  all_goals
    rw [Option.some.injEq] at h
    simp only [UInt8.le_iff_toNat_le, UInt8.toNat_ofNat] at *
    omega

/-! ## The encoding -/

/-- A size line without its CRLF: the digits and what stands behind them. -/
structure ChunkLine where
  digits : Bytes
  extension : Bytes
  deriving DecidableEq, Repr

namespace ChunkLine

def size (l : ChunkLine) : Nat := hexNumber l.digits

def encode (l : ChunkLine) : Bytes := l.digits ++ (l.extension ++ crlf.bytes)

/-- The extension keeps to its line and does not go on with digits. -/
structure WellFormed (l : ChunkLine) : Prop where
  digits : IsHex l.digits
  extension : 10 ∉ l.extension
  stops : StopsHex l.extension

theorem length_encode (l : ChunkLine) :
    l.encode.length = l.digits.length + l.extension.length + 2 := by
  simp [encode]
  omega

theorem WellFormed.stops_encode {l : ChunkLine} (h : l.WellFormed) (x : Bytes) :
    StopsHex (l.extension ++ (crlf.bytes ++ x)) := by
  cases he : l.extension with
  | nil =>
    intro c hc
    rw [crlf_bytes] at hc
    obtain rfl : (13 : UInt8) = c := by simpa using hc
    rfl
  | cons c rest =>
    have hstops := h.stops
    rw [he] at hstops
    intro d hd
    exact hstops d (by simpa using hd)

end ChunkLine

structure Chunk where
  line : ChunkLine
  data : Bytes
  deriving DecidableEq, Repr

namespace Chunk

def encode (c : Chunk) : Bytes := c.line.encode ++ (c.data ++ crlf.bytes)

structure WellFormed (c : Chunk) : Prop where
  line : c.line.WellFormed
  data : c.data ≠ []
  size : c.line.size = c.data.length

theorem length_encode (c : Chunk) :
    c.encode.length = c.line.digits.length + c.line.extension.length + c.data.length + 4 := by
  simp [encode, ChunkLine.length_encode]
  omega

end Chunk

/-- Chunks and the zero-size line that closes them. -/
structure ChunkedBody where
  chunks : List Chunk
  last : ChunkLine
  deriving DecidableEq, Repr

namespace ChunkedBody

def encode (b : ChunkedBody) : Bytes := b.chunks.flatMap Chunk.encode ++ b.last.encode

/-- The concatenation of the chunks. -/
def payload (b : ChunkedBody) : Bytes := b.chunks.flatMap Chunk.data

theorem length_chunks_le (chunks : List Chunk) :
    chunks.length ≤ (chunks.flatMap Chunk.encode).length := by
  induction chunks with
  | nil => simp
  | cons c chunks ih =>
    have hlen := c.length_encode
    rw [List.flatMap_cons, List.length_append, List.length_cons]
    omega

structure WellFormed (b : ChunkedBody) : Prop where
  chunks : ∀ c ∈ b.chunks, c.WellFormed
  last : b.last.WellFormed
  digits : b.last.digits ≠ []
  size : b.last.size = 0

end ChunkedBody

end HttpC
