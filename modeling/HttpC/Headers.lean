import HttpC.CommonLib
import HttpC.Library.Overwrite

/-!
# Header blocks

`http_headers.c`. A header block is a span with a used size; the reader splits it at CRLF,
each line at its first colon, and trims blanks around the value.

## Main results

* `httpHeadersFind_bytes` — the lookup is the first field line with that name.
* `block_httpHeadersParse_blank`, `block_httpHeadersParse_lines` — what the trimmer keeps of a
  block with its blank line.
-/

namespace HttpC

open ListSearch

/-! ## Constants of `common.h` and `http_headers.h` -/

def crlf : Span := .lit "\r\n"
def nameValueSeparator : Span := .lit ": "
def space : Span := .lit " "
def headersTerminator : Span := .lit "\r\n\r\n"
/-- `header_name_terminator`: fields are written with `": "` but read at the colon. -/
def headerNameTerminator : Span := .lit ":"

def HTTP_HEADER_CONTENT_LENGTH : Span := .lit "Content-Length"
def HTTP_HEADER_TRANSFER_ENCODING : Span := .lit "Transfer-Encoding"

theorem crlf_bytes : crlf.bytes = [13, 10] := by decide
theorem space_bytes : space.bytes = [32] := by decide
theorem headerNameTerminator_bytes : headerNameTerminator.bytes = [58] := by decide
theorem headersTerminator_bytes : headersTerminator.bytes = crlf.bytes ++ crlf.bytes := by decide
@[simp] theorem crlf_length : crlf.bytes.length = 2 := by decide
@[simp] theorem crlf_size : crlf.size = 2 := by decide
@[simp] theorem space_length : space.bytes.length = 1 := by decide
@[simp] theorem space_size : space.size = 1 := by decide
@[simp] theorem headersTerminator_size : headersTerminator.size = 4 := by decide
@[simp] theorem headerNameTerminator_size : headerNameTerminator.size = 1 := by decide
@[simp] theorem crlf_ne_nil : crlf.bytes ≠ [] := by decide
@[simp] theorem space_ne_nil : space.bytes ≠ [] := by decide
@[simp] theorem headersTerminator_ne_nil : headersTerminator.bytes ≠ [] := by decide
@[simp] theorem headerNameTerminator_ne_nil : headerNameTerminator.bytes ≠ [] := by decide

theorem crlf_unbordered : Unbordered crlf.bytes := by
  rw [crlf_bytes]
  exact unbordered_pair (by decide)

/-! ## The model -/

/-- `HL_RESULT`. -/
inductive HlResult where
  | ok | invalidArg | eof | notFound | error | bufferOverflow
  deriving DecidableEq, Repr

/-- `http_headers_t`. -/
structure HttpHeaders where
  buffer : Span
  usedSize : Nat
  iterator : Span
  deriving DecidableEq, Repr

def isBlank (b : UInt8) : Bool := b == 32 || b == 9

variable (lib : CommonLib)

/-- `trim_optional_whitespace`: two scans inwards, then the slice between them. -/
def trimOptionalWhitespace (value : Span) : Span :=
  if value.ptr = 0 ∨ value.size = 0 then value
  else
    let start := (value.bytes.takeWhile isBlank).length
    let stop := value.size - ((value.bytes.drop start).reverse.takeWhile isBlank).length
    lib.spanSlice value start (stop - start)

def httpHeadersInit (buffer : Span) : HttpHeaders := ⟨buffer, 0, .empty⟩

def httpHeadersParse (raw : Span) : HttpHeaders :=
  let headersSize :=
    match lib.spanFindReverse raw headersTerminator with
    | none =>
      match lib.spanFindReverse raw crlf with
      | none => raw.size
      | some single => single + crlf.size
    -- keep the CRLF of the last field, drop the one that ends the block
    | some termPos => termPos + crlf.size
  ⟨raw, headersSize, lib.spanSlice raw 0 headersSize⟩

/-- `http_headers_get_next`; the pass starts over after `EOF`. -/
def httpHeadersGetNext (headers : HttpHeaders) : Except HlResult (Span × Span) × HttpHeaders :=
  if headers.usedSize = 0 then (.error .eof, headers)
  else if headers.iterator.isEmpty ∨ lib.spanCompare headers.iterator crlf = 0 then
    (.error .eof,
      { headers with iterator := lib.spanSlice headers.buffer 0 headers.usedSize })
  else
    match lib.spanSplit headers.iterator crlf with
    | none => (.error .error, headers)
    | some (currentHeader, rest) =>
      let headers := { headers with iterator := rest }
      match lib.spanSplit currentHeader nameValueSeparator with
      | none => (.error .error, headers)
      | some (name, value) => (.ok (name, value), headers)

/-- The `while` loop of `http_headers_find` over the remaining lines. Each pass drops a
line, so the block's size is fuel enough. -/
def findLoop (name : Span) : Nat → Span → Except HlResult Span
  | 0, _ => .error .notFound
  | fuel + 1, remainingHeaders =>
    match lib.spanIterate remainingHeaders crlf with
    | none => .error .notFound
    | some (currentHeader, remainingHeaders) =>
      match lib.spanSplit currentHeader headerNameTerminator with
      -- no colon, so not a header: skip the line rather than fail the lookup
      | none => findLoop name fuel remainingHeaders
      | some (currentName, currentValue) =>
        if lib.spanICompare currentName name = 0 then
          .ok (trimOptionalWhitespace lib currentValue)
        else findLoop name fuel remainingHeaders

def httpHeadersFind (headers : HttpHeaders) (name : Span) : Except HlResult Span :=
  if name.isEmpty then .error .invalidArg
  else if headers.usedSize = 0 then .error .notFound
  else findLoop lib name (headers.usedSize + 1) (lib.spanSlice headers.buffer 0 headers.usedSize)

/-- The buffer after a `span_copy` into it. -/
def HttpHeaders.store (headers : HttpHeaders) (written : Span) : HttpHeaders :=
  { headers with
    buffer := ⟨headers.buffer.ptr, Block.overwrite headers.buffer.bytes
      (written.ptr - headers.buffer.ptr) written.bytes⟩ }

/-- `http_headers_add`: four copies, each tested for overflow by an empty result. -/
def httpHeadersAdd (headers : HttpHeaders) (name value : Span) : HlResult × HttpHeaders :=
  let freeBuffer := lib.spanSliceToEnd headers.buffer headers.usedSize
  let (written, freeBuffer) := lib.spanCopy freeBuffer name
  if written.isEmpty then (.bufferOverflow, headers)
  else
    let headers := headers.store written
    let (written, freeBuffer) := lib.spanCopy freeBuffer nameValueSeparator
    if written.isEmpty then (.bufferOverflow, headers)
    else
      let headers := headers.store written
      let (written, freeBuffer) := lib.spanCopy freeBuffer value
      if written.isEmpty then (.bufferOverflow, headers)
      else
        let headers := headers.store written
        let (written, freeBuffer) := lib.spanCopy freeBuffer crlf
        if written.isEmpty then (.bufferOverflow, headers)
        else
          let headers := headers.store written
          (.ok, { headers with usedSize := headers.buffer.size - freeBuffer.size })

/-- `http_headers_serialize_to`: an empty block writes nothing, not even a CRLF. -/
def httpHeadersSerializeTo {σ : Type} (headers : HttpHeaders) (write : σ → Span → Result × σ)
    (stream : σ) : Result × σ :=
  if headers.usedSize = 0 then (.ok, stream)
  else write stream (lib.spanSlice headers.buffer 0 headers.usedSize)

/-! ## Field lines -/

/-- The field lines of a header block. -/
def fieldLines (block : Bytes) : List Bytes := pieces crlf.bytes block

def trimBlanks (bs : Bytes) : Bytes :=
  ((bs.dropWhile isBlank).reverse.dropWhile isBlank).reverse

/-- The value of a line whose name, up to the first colon, is `name` in any letter case. -/
def fieldValue (name line : Bytes) : Option Bytes :=
  match cut? headerNameTerminator.bytes line with
  | none => none
  | some (n, v) => if lower n = lower name then some (trimBlanks v) else none

/-- The value of the first field line named `name`. -/
def lookup (lines : List Bytes) (name : Bytes) : Option Bytes := lines.findSome? (fieldValue name)

@[simp] theorem lookup_nil (name : Bytes) : lookup [] name = none := rfl

theorem lookup_cons (line : Bytes) (lines : List Bytes) (name : Bytes) :
    lookup (line :: lines) name = (fieldValue name line).or (lookup lines name) := by
  rw [lookup, List.findSome?_cons, lookup]
  cases fieldValue name line <;> rfl

theorem lookup_eq_none {lines : List Bytes} {name : Bytes} :
    lookup lines name = none ↔ ∀ line ∈ lines, fieldValue name line = none := by
  simp [lookup, List.findSome?_eq_none_iff]

/-- The two scans of `trim_optional_whitespace` stop around what `trimBlanks` keeps. -/
theorem trimOptionalWhitespace_eq {value : Span} (h : value.ptr ≠ 0) :
    trimOptionalWhitespace lib value =
      value.sub (value.bytes.takeWhile isBlank).length (trimBlanks value.bytes).length := by
  unfold trimOptionalWhitespace
  by_cases hs : value.size = 0
  · obtain ⟨ptr, bytes⟩ := value
    obtain rfl : bytes = [] := List.length_eq_zero_iff.mp hs
    simp [hs, Span.sub]
  · simp only [h, hs, or_self, if_false]
    set pre := value.bytes.takeWhile isBlank with hpre
    set mid := value.bytes.dropWhile isBlank with hmid
    have hsplit : value.bytes = pre ++ mid := List.takeWhile_append_dropWhile.symm
    have hdrop : value.bytes.drop pre.length = mid := by rw [hsplit, List.drop_left]
    have hsize : value.size = pre.length + mid.length := by rw [Span.size, hsplit]; simp
    set suf := mid.reverse.takeWhile isBlank with hsuf
    have hsufle : suf.length ≤ mid.length := by
      have := (List.takeWhile_prefix (l := mid.reverse) isBlank).length_le
      simpa using this
    have hcount : value.size - suf.length - pre.length = mid.length - suf.length := by omega
    have hrev : mid.reverse = suf ++ mid.reverse.dropWhile isBlank :=
      List.takeWhile_append_dropWhile.symm
    have hmidsplit : mid = trimBlanks value.bytes ++ suf.reverse := by
      have := congrArg List.reverse hrev
      simpa [trimBlanks, ← hmid] using this
    have hlen : mid.length - suf.length = (trimBlanks value.bytes).length := by
      have := congrArg List.length hmidsplit
      simp at this
      omega
    rw [hdrop, ← hsuf, hcount, lib.spanSlice_eq _ _ _ (by omega), hlen]

theorem bytes_trimOptionalWhitespace {value : Span} (h : value.ptr ≠ 0) :
    (trimOptionalWhitespace lib value).bytes = trimBlanks value.bytes := by
  have hsplit : value.bytes.takeWhile isBlank ++ value.bytes.dropWhile isBlank = value.bytes :=
    List.takeWhile_append_dropWhile
  have hdrop : (value.bytes.takeWhile isBlank ++ value.bytes.dropWhile isBlank).drop
      (value.bytes.takeWhile isBlank).length = value.bytes.dropWhile isBlank := List.drop_left
  rw [hsplit] at hdrop
  have hkept : trimBlanks value.bytes <+: value.bytes.dropWhile isBlank := by
    rw [trimBlanks, ← List.reverse_suffix, List.reverse_reverse]
    exact List.dropWhile_suffix _
  rw [trimOptionalWhitespace_eq lib h, Span.bytes_sub, hdrop]
  exact (List.prefix_iff_eq_take.mp hkept).symm

/-- Consecutive lines in memory, the first of them at `ptr`. -/
def lineSpans : Nat → List Bytes → List Span
  | _, [] => []
  | ptr, line :: lines => ⟨ptr, line⟩ :: lineSpans (ptr + line.length + crlf.size) lines

@[simp] theorem map_bytes_lineSpans (ptr : Nat) (lines : List Bytes) :
    (lineSpans ptr lines).map Span.bytes = lines := by
  induction lines generalizing ptr with
  | nil => rfl
  | cons line lines ih => rw [lineSpans, List.map_cons, ih]

/-- What a line answers to a lookup, as `http_headers_find` takes it. -/
def lineValue (name line : Span) : Option Span :=
  match lib.spanSplit line headerNameTerminator with
  | none => none
  | some (currentName, currentValue) =>
    if lib.spanICompare currentName name = 0 then some (trimOptionalWhitespace lib currentValue)
    else none

theorem lineValue_bytes (name line : Span) :
    (lineValue lib name line).map Span.bytes = fieldValue name.bytes line.bytes := by
  rw [lineValue, lib.spanSplit_eq _ _ headerNameTerminator_ne_nil, fieldValue, cut?]
  cases find? headerNameTerminator.bytes line.bytes with
  | none => rfl
  | some i =>
    have hcmp : lib.spanICompare (line.sub 0 i) name = 0 ↔
        lower (line.bytes.take i) = lower name.bytes := by
      rw [lib.spanICompare_eq]
      simp
    have hptr : (line.tail (i + headerNameTerminator.size)).ptr ≠ 0 := by simp
    simp only [Option.map_some]
    by_cases hn : lower (line.bytes.take i) = lower name.bytes
    · rw [if_pos (hcmp.mpr hn), if_pos hn, Option.map_some, bytes_trimOptionalWhitespace lib hptr]
      rfl
    · rw [if_neg fun h => hn (hcmp.mp h), if_neg hn]
      rfl

/-- The lookup loop returns what the first line of the remaining block that has an answer says. -/
theorem findLoop_lines (name : Span) (fuel : Nat) (rest : Span) (h : rest.size < fuel) :
    findLoop lib name fuel rest =
      ((lineSpans rest.ptr (fieldLines rest.bytes)).findSome? (lineValue lib name)).elim
        (.error .notFound) .ok := by
  induction fuel generalizing rest with
  | zero => omega
  | succ fuel ih =>
    -- what the loop does with the current line, whatever follows it
    have hline : ∀ line after : Span, after.size < fuel →
        (match lib.spanSplit line headerNameTerminator with
          | none => findLoop lib name fuel after
          | some (n, v) =>
            if lib.spanICompare n name = 0 then .ok (trimOptionalWhitespace lib v)
            else findLoop lib name fuel after) =
        ((lineValue lib name line).or
          ((lineSpans after.ptr (fieldLines after.bytes)).findSome? (lineValue lib name))).elim
            (.error .notFound) .ok := by
      intro line after hafter
      rw [lineValue]
      cases lib.spanSplit line headerNameTerminator with
      | none => simpa using ih after hafter
      | some parts =>
        dsimp only
        split_ifs
        · rfl
        · simpa using ih after hafter
    have hcons : ∀ (line : Span) (lines : List Span),
        (line :: lines).findSome? (lineValue lib name) =
          (lineValue lib name line).or (lines.findSome? (lineValue lib name)) := by
      intro line lines
      rw [List.findSome?_cons]
      cases lineValue lib name line <;> rfl
    rw [findLoop]
    by_cases hnil : rest.bytes = []
    · rw [lib.spanIterate_nil _ _ hnil]
      simp [fieldLines, hnil, lineSpans]
    · rw [lib.spanIterate_eq _ _ hnil crlf_ne_nil, fieldLines]
      have hpos : 0 < rest.bytes.length := List.length_pos_iff.mpr hnil
      rw [Span.size] at h
      cases hf : find? crlf.bytes rest.bytes with
      | none =>
        have hcut : cut? crlf.bytes rest.bytes = none := by simp [cut?, hf]
        rw [pieces_of_no_cut hnil hcut, lineSpans, hcons]
        exact hline rest .empty (by simp [Span.size, Span.empty]; omega)
      | some i =>
        have hcut : cut? crlf.bytes rest.bytes =
            some (rest.bytes.take i, rest.bytes.drop (i + crlf.bytes.length)) := by
          simp [cut?, hf]
        have hlen := find?_length_le hf
        rw [crlf_length] at hlen
        have htake : (rest.bytes.take i).length = i := by
          rw [List.length_take]
          omega
        rw [pieces_of_cut crlf_ne_nil hcut, lineSpans, hcons, htake]
        exact hline (rest.sub 0 i) (rest.tail (i + crlf.size)) (by
          rw [Span.size, Span.bytes_tail, crlf_size, List.length_drop]
          omega)

/-- A lookup answers with the first field line of that name. -/
theorem findLoop_bytes (name : Span) (fuel : Nat) (rest : Span) (h : rest.size < fuel) :
    (findLoop lib name fuel rest).map Span.bytes =
      (lookup (fieldLines rest.bytes) name.bytes).elim (.error .notFound) .ok := by
  have hlines : ∀ lines : List Span, (lines.findSome? (lineValue lib name)).map Span.bytes =
      lookup (lines.map Span.bytes) name.bytes := by
    intro lines
    rw [List.map_findSome?, lookup, List.findSome?_map]
    congr 1
    funext line
    exact lineValue_bytes lib name line
  have hlookup := hlines (lineSpans rest.ptr (fieldLines rest.bytes))
  rw [map_bytes_lineSpans] at hlookup
  rw [findLoop_lines lib name fuel rest h, ← hlookup]
  cases (lineSpans rest.ptr (fieldLines rest.bytes)).findSome? (lineValue lib name) <;> rfl

/-- A lookup answers with the first field line of that name. -/
theorem httpHeadersFind_bytes {headers : HttpHeaders} {name : Span}
    (hused : headers.usedSize ≤ headers.buffer.size) (hname : name.bytes ≠ []) :
    (httpHeadersFind lib headers name).map Span.bytes =
      (lookup (fieldLines (headers.buffer.bytes.take headers.usedSize)) name.bytes).elim
        (.error .notFound) .ok := by
  unfold httpHeadersFind
  rw [if_neg (by rw [Span.isEmpty_iff]; exact hname)]
  split_ifs with hz
  · simp [hz, fieldLines, Except.map]
  · have hslice : (lib.spanSlice headers.buffer 0 headers.usedSize).bytes =
        headers.buffer.bytes.take headers.usedSize := by
      rw [lib.spanSlice_eq _ _ _ (by omega)]
      simp
    rw [findLoop_bytes lib name _ _ (by rw [Span.size, hslice]; simp), hslice]

/-! ## The block kept by `http_headers_parse` -/

/-- The bytes of the block that a parsed header set reads. -/
def HttpHeaders.block (headers : HttpHeaders) : Bytes :=
  headers.buffer.bytes.take headers.usedSize

/-- The lookup of a parsed set, by content. -/
theorem httpHeadersFind_block {headers : HttpHeaders} {name : Span}
    (hused : headers.usedSize ≤ headers.buffer.size) (hname : name.bytes ≠ []) :
    (httpHeadersFind lib headers name).map Span.bytes =
      (lookup (fieldLines headers.block) name.bytes).elim (.error .notFound) .ok :=
  httpHeadersFind_bytes lib hused hname

/-- The first lines of a block, up to a line end, and the lines after it. -/
theorem fieldLines_append_crlf (b rest : Bytes) :
    fieldLines (b ++ (crlf.bytes ++ rest)) = fieldLines (b ++ crlf.bytes) ++ fieldLines rest := by
  induction hn : b.length using Nat.strong_induction_on generalizing b with
  | _ n ih =>
    by_cases hb : crlf.bytes <:+: b
    · cases hc : cut? crlf.bytes b with
      | none =>
        obtain ⟨i, hi⟩ := infix_iff_occursAt.mp hb
        exact absurd hi (cut?_eq_none.mp hc i)
      | some c =>
        obtain ⟨x, y⟩ := c
        have hlt := cut?_length_lt crlf_ne_nil hc
        have h1 := pieces_of_cut crlf_ne_nil (cut?_append_right hc (crlf.bytes ++ rest))
        have h2 := pieces_of_cut crlf_ne_nil (cut?_append_right hc crlf.bytes)
        have hy := ih y.length (by omega) y rfl
        simp only [fieldLines] at hy ⊢
        rw [h1, h2, hy, List.cons_append]
    · have h1 := pieces_of_cut crlf_ne_nil (cut?_append_sep crlf_unbordered hb rest)
      have h2 : pieces crlf.bytes (b ++ crlf.bytes) = [b] := by
        simpa using pieces_of_cut crlf_ne_nil (cut?_append_sep crlf_unbordered hb [])
      simp only [fieldLines]
      rw [h1, h2, List.singleton_append]

theorem fieldLines_flatMap {lines : List Bytes} (h : ∀ line ∈ lines, ¬ crlf.bytes <:+: line) :
    fieldLines (lines.flatMap (· ++ crlf.bytes)) = lines :=
  pieces_flatMap crlf_unbordered h

theorem fieldLines_ne_nil {block : Bytes} (h : block ≠ []) : fieldLines block ≠ [] := by
  rw [fieldLines]
  cases hc : cut? crlf.bytes block with
  | none => simp [pieces_of_no_cut h hc]
  | some c => simp [pieces_of_cut (x := c.1) (y := c.2) crlf_ne_nil hc]

@[simp] theorem fieldLines_crlf : fieldLines crlf.bytes = [[]] := by decide

@[simp] theorem fieldValue_nil (name : Bytes) : fieldValue name [] = none := by
  simp [fieldValue, headerNameTerminator_bytes, cut?, find?]

@[simp] theorem buffer_httpHeadersParse (raw : Span) :
    (httpHeadersParse lib raw).buffer = raw := rfl

theorem block_httpHeadersParse_of_usedSize {raw : Span} {b rest : Bytes}
    (h : raw.bytes = b ++ (crlf.bytes ++ rest))
    (hused : (httpHeadersParse lib raw).usedSize = b.length + 2) :
    (httpHeadersParse lib raw).block = b ++ crlf.bytes ∧
      (httpHeadersParse lib raw).usedSize ≤ raw.size := by
  refine ⟨?_, ?_⟩
  · rw [HttpHeaders.block, hused, buffer_httpHeadersParse, h, ← List.append_assoc,
      List.take_append_of_le_length (by simp), List.take_of_length_le (by simp)]
  · rw [hused, Span.size, h]
    simp

/-- A block that ends in a blank line is kept up to the CRLF of its last field. -/
theorem block_httpHeadersParse_blank {raw : Span} {b : Bytes}
    (h : raw.bytes = b ++ (crlf.bytes ++ crlf.bytes)) :
    (httpHeadersParse lib raw).block = b ++ crlf.bytes ∧
      (httpHeadersParse lib raw).usedSize ≤ raw.size := by
  have hlast : rfind? headersTerminator.bytes raw.bytes = some b.length := by
    rw [headersTerminator_bytes]
    refine rfind?_eq_some.mpr ⟨?_, fun j hj hocc => ?_⟩
    · exact occursAt_iff.mpr ⟨b, [], by simp [h], rfl⟩
    · have := hocc.length_le
      rw [h] at this
      simp at this
      omega
  have hused : (httpHeadersParse lib raw).usedSize = b.length + 2 := by
    simp [httpHeadersParse, lib.spanFindReverse_eq _ _ headersTerminator_ne_nil, hlast]
  exact block_httpHeadersParse_of_usedSize lib h hused

/-- A block without a blank line is kept up to its last CRLF. -/
theorem block_httpHeadersParse_lines {raw : Span} {b rest : Bytes}
    (h : raw.bytes = b ++ (crlf.bytes ++ rest)) (hrest : ¬ crlf.bytes <:+: rest)
    (hlast : ∀ j, ¬ OccursAt headersTerminator.bytes raw.bytes j) :
    (httpHeadersParse lib raw).block = b ++ crlf.bytes ∧
      (httpHeadersParse lib raw).usedSize ≤ raw.size := by
  have hterm : rfind? headersTerminator.bytes raw.bytes = none := rfind?_eq_none.mpr hlast
  have hcrlf : rfind? crlf.bytes raw.bytes = some b.length := by
    refine rfind?_eq_some.mpr ⟨occursAt_iff.mpr ⟨b, rest, h, rfl⟩, fun j hj hocc => ?_⟩
    obtain ⟨k, rfl⟩ := Nat.exists_eq_add_of_lt hj
    rw [h, Nat.add_assoc] at hocc
    have hocc := hocc.of_append_left
    by_cases hk : k + 1 < crlf.bytes.length
    · exact crlf_unbordered.occursAt_cons_sep (by omega) hk hocc
    · obtain ⟨m, hm⟩ := Nat.exists_eq_add_of_le (Nat.not_lt.mp hk)
      rw [hm] at hocc
      exact hrest (infix_iff_occursAt.mpr ⟨m, hocc.of_append_left⟩)
  have hused : (httpHeadersParse lib raw).usedSize = b.length + 2 := by
    simp [httpHeadersParse, lib.spanFindReverse_eq _ _ headersTerminator_ne_nil,
      lib.spanFindReverse_eq _ _ crlf_ne_nil, hterm, hcrlf]
  exact block_httpHeadersParse_of_usedSize lib h hused

end HttpC
