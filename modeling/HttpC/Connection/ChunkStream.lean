import HttpC.Connection.ResponseReader
import Mathlib.Algebra.Order.BigOperators.Group.List

/-!
# The chunked grammar of responses

The streams that `response_body_reader_chunked` takes for a chunked body. A line ends in a line
feed, with an optional carriage return before it; a size line may go on after its digits with
`;`, a space or a tab; trailer lines are discarded up to an empty one.

## Main results

* `parseChunkSize_sizeLine`, `sizeLine_of_parseChunkSize` — the size lines that are accepted, and
  what they say.
-/

namespace HttpC

/-! ## Lines -/

structure Line where
  content : Bytes
  /-- A carriage return before the line feed. -/
  cr : Bool
  deriving DecidableEq, Repr

namespace Line

/-- The line without its line feed. -/
def text (l : Line) : Bytes := l.content ++ if l.cr then [13] else []

def encode (l : Line) : Bytes := l.text ++ [10]

def empty (cr : Bool) : Line := ⟨[], cr⟩

/-- The line feed ends the line, and a carriage return before it is no content. -/
structure WellFormed (l : Line) : Prop where
  feed : 10 ∉ l.content
  cr : l.cr = false → l.content.getLast? ≠ some 13

theorem length_encode (l : Line) : l.encode.length = l.text.length + 1 := by simp [encode]

theorem encode_append (l : Line) (rest : Bytes) : l.encode ++ rest = l.text ++ 10 :: rest := by
  simp [encode]

theorem wellFormed_empty (cr : Bool) : (empty cr).WellFormed := ⟨by simp [empty], by simp [empty]⟩

theorem WellFormed.feed_text {l : Line} (h : l.WellFormed) : 10 ∉ l.text := by
  have hfeed := h.feed
  rw [text]
  split_ifs <;> simp [hfeed]

theorem WellFormed.stripCr_text {l : Line} (h : l.WellFormed) : stripCr l.text = l.content := by
  have hcr := h.cr
  rw [stripCr, text]
  cases hl : l.cr with
  | true => simp
  | false => simpa using fun hlast => absurd hlast (hcr hl)

/-- Every line without a line feed is of this form. -/
theorem exists_of_text {text : Bytes} (h : 10 ∉ text) :
    ∃ l : Line, l.WellFormed ∧ l.text = text ∧ l.content = stripCr text := by
  by_cases hcr : text.getLast? = some 13
  · obtain ⟨content, rfl⟩ := List.getLast?_eq_some_iff.mp hcr
    refine ⟨⟨content, true⟩, ⟨fun hmem => h (by simp [hmem]), by simp⟩, by simp [Line.text], ?_⟩
    simp [stripCr]
  · exact ⟨⟨text, false⟩, ⟨h, fun _ => hcr⟩, by simp [Line.text], by simp [stripCr, hcr]⟩

end Line

/-! ## Size lines -/

structure SizeLine where
  digits : Bytes
  /-- What stands behind the digits. -/
  extension : Bytes
  cr : Bool
  deriving DecidableEq, Repr

/-- Nothing, or something that `;`, a space or a tab separates from the digits. -/
def Separated (extension : Bytes) : Prop :=
  extension.headD 59 = 59 ∨ extension.headD 59 = 32 ∨ extension.headD 59 = 9

instance (extension : Bytes) : Decidable (Separated extension) :=
  inferInstanceAs (Decidable (_ ∨ _))

namespace SizeLine

def line (l : SizeLine) : Line := ⟨l.digits ++ l.extension, l.cr⟩

def size (l : SizeLine) : Nat := hexNumber l.digits

structure WellFormed (l : SizeLine) : Prop where
  line : l.line.WellFormed
  digits : IsHex l.digits
  nonempty : l.digits ≠ []
  size : l.size < 2 ^ 32
  extension : Separated l.extension

end SizeLine

theorem Separated.stopsHex {extension : Bytes} (h : Separated extension) : StopsHex extension := by
  intro c hc
  cases extension with
  | nil => simp at hc
  | cons a extension =>
    obtain rfl : a = c := by simpa using hc
    rcases h with h | h | h <;> obtain rfl : a = _ := h <;> rfl

/-- The digit loop takes the digits, and stops early only when the size overflows. -/
theorem scanChunkSize_digits {digits after : Bytes} (hdigits : IsHex digits)
    (hafter : StopsHex after) {chunkSize : Nat} (hsize : chunkSize < 2 ^ 32) (count : Nat) :
    scanChunkSize (digits ++ after) chunkSize count =
      if digits.foldl (fun n c => n * 16 + (hexValue? c).getD 0) chunkSize < 2 ^ 32 then
        some (digits.foldl (fun n c => n * 16 + (hexValue? c).getD 0) chunkSize,
          count + digits.length, after)
      else none := by
  induction digits generalizing chunkSize count with
  | nil =>
    rw [List.foldl_nil, List.nil_append, if_pos hsize]
    cases after with
    | nil => rfl
    | cons c after => simp [scanChunkSize, hafter c rfl]
  | cons c digits ih =>
    obtain ⟨v, hv⟩ := Option.isSome_iff_exists.mp (hdigits c List.mem_cons_self)
    have hlt := hexValue_lt hv
    rw [List.cons_append, scanChunkSize, hv, List.foldl_cons, hv, Option.getD_some]
    dsimp only
    by_cases hguard : (2 ^ 32 - 1) / 2 ^ 4 < chunkSize
    · have hle := le_foldl_hex (chunkSize * 16 + v) digits
      rw [if_pos hguard, if_neg (by omega)]
    · rw [if_neg hguard, ih (fun d hd => hdigits d (List.mem_cons_of_mem _ hd)) (by omega),
        List.length_cons, Nat.add_assoc, Nat.add_comm 1, show (2 : Nat) ^ 4 = 16 from rfl]

/-- A size line of the grammar says its number. -/
theorem parseChunkSize_sizeLine {digits extension : Bytes} (hdigits : IsHex digits)
    (hne : digits ≠ []) (hsize : hexNumber digits < 2 ^ 32) (hext : Separated extension) :
    parseChunkSize (digits ++ extension) = some (hexNumber digits) := by
  have hlen := List.length_pos_iff.mpr hne
  have hscan := scanChunkSize_digits hdigits hext.stopsHex (show 0 < 2 ^ 32 by decide) 0
  rw [← hexNumber, if_pos hsize] at hscan
  rw [parseChunkSize, hscan]
  dsimp only
  rw [if_neg]
  rintro (hzero | ⟨h, h', h''⟩)
  · omega
  · exact hext.elim h fun hext => hext.elim h' h''

/-- Only the size lines of the grammar are accepted. -/
theorem sizeLine_of_parseChunkSize {line : Bytes} {size : Nat}
    (h : parseChunkSize line = some size) :
    ∃ digits extension, line = digits ++ extension ∧ IsHex digits ∧ digits ≠ [] ∧
      hexNumber digits = size ∧ size < 2 ^ 32 ∧ Separated extension := by
  have hsplit := hexRun_append_dropWhile line
  rw [parseChunkSize, ← hsplit,
    scanChunkSize_digits (isHex_hexRun line) (stopsHex_dropWhile line) (by decide)] at h
  refine ⟨hexRun line, _, hsplit.symm, isHex_hexRun line, ?_⟩
  split_ifs at h with hnumber
  dsimp only at h
  split_ifs at h with hbad
  rw [not_or, not_and_or, not_and_or, not_not, not_not, not_not, Nat.zero_add] at hbad
  exact ⟨fun hnil => hbad.1 (by rw [hnil]; rfl), Option.some.inj h, Option.some.inj h ▸ hnumber,
    hbad.2⟩

/-! ## Streams -/

structure DataChunk where
  size : SizeLine
  data : Bytes
  /-- A carriage return in the empty line behind the data. -/
  cr : Bool
  deriving DecidableEq, Repr

namespace DataChunk

def encode (c : DataChunk) : Bytes := c.size.line.encode ++ (c.data ++ (Line.empty c.cr).encode)

structure WellFormed (c : DataChunk) : Prop where
  size : c.size.WellFormed
  data : c.data ≠ []
  length : c.size.size = c.data.length

end DataChunk

/-- Chunks, a zero-size line, and trailer lines up to an empty one. -/
structure ChunkStream where
  chunks : List DataChunk
  last : SizeLine
  trailers : List Line
  cr : Bool
  deriving DecidableEq, Repr

/-- Trailer lines and the empty line behind them. -/
def encodeTrailers (trailers : List Line) (cr : Bool) : Bytes :=
  trailers.flatMap Line.encode ++ (Line.empty cr).encode

namespace ChunkStream

def encode (s : ChunkStream) : Bytes :=
  s.chunks.flatMap DataChunk.encode ++ (s.last.line.encode ++ encodeTrailers s.trailers s.cr)

/-- The concatenation of the chunks. -/
def payload (s : ChunkStream) : Bytes := s.chunks.flatMap DataChunk.data

/-- The framing lines. -/
def lines (s : ChunkStream) : List Line :=
  s.chunks.flatMap (fun c => [c.size.line, .empty c.cr]) ++
    s.last.line :: (s.trailers ++ [.empty s.cr])

structure WellFormed (s : ChunkStream) : Prop where
  chunks : ∀ c ∈ s.chunks, c.WellFormed
  last : s.last.WellFormed
  size : s.last.size = 0
  trailers : ∀ l ∈ s.trailers, l.WellFormed ∧ l.content ≠ []

theorem length_encode (s : ChunkStream) :
    s.encode.length = s.payload.length + (s.lines.map fun l => l.encode.length).sum := by
  have hchunks : ∀ chunks : List DataChunk, (chunks.flatMap DataChunk.encode).length =
      (chunks.flatMap DataChunk.data).length +
        ((chunks.flatMap fun c => [c.size.line, .empty c.cr]).map fun l =>
          l.encode.length).sum := by
    intro chunks
    induction chunks with
    | nil => rfl
    | cons c chunks ih =>
      simp only [List.flatMap_cons, List.length_append, ih, DataChunk.encode, List.map_append,
        List.sum_append, List.map_cons, List.map_nil, List.sum_cons, List.sum_nil]
      omega
  have htrailers : (s.trailers.flatMap Line.encode).length =
      (s.trailers.map fun l => l.encode.length).sum := List.length_flatMap
  simp only [encode, encodeTrailers, payload, lines, List.length_append, hchunks, htrailers,
    List.map_append, List.sum_append, List.map_cons, List.map_nil, List.sum_cons, List.sum_nil]
  omega

/-- A line is a part of the stream outside its payload. -/
theorem length_line_le {s : ChunkStream} {l : Line} (h : l ∈ s.lines) :
    s.payload.length + l.encode.length ≤ s.encode.length := by
  have hle : l.encode.length ≤ (s.lines.map fun l => l.encode.length).sum :=
    List.le_sum_of_mem (List.mem_map.mpr ⟨l, h, rfl⟩)
  rw [length_encode]
  omega

end ChunkStream

end HttpC
