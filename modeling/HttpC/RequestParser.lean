import HttpC.Messages

/-!
# The incremental request parser

`http_request_parser.c`: the caller feeds ever longer prefixes of one buffer. The first
phase waits for the blank line and parses the head, the second waits for the body that
Content-Length declares. `headStatus` says the same about the bytes alone, and the parser
is shown to follow it.

## Main results

* `feed_missing`, `feed_refused`, `feed_accepted` — a fresh parser on any buffer.
* `feed_step` — feeding growing prefixes ends where feeding the last one alone does.
-/

namespace HttpC

open ListSearch

/-! ## The model -/

/-- `http_request_parser_state_t`. -/
inductive RequestParserState where
  | requestLine | headers | body | complete | error
  deriving DecidableEq, Repr

/-- `http_request_parser_t`. -/
structure HttpRequestParser where
  state : RequestParserState
  request : HttpRequest
  /-- Offset past the blank line, `0` until the head is complete. -/
  headersEnd : Nat
  contentLength : Nat
  hasContentLength : Bool
  deriving DecidableEq, Repr

def httpRequestParserInit : HttpRequestParser := ⟨.requestLine, .zero, 0, 0, false⟩

variable (lib : CommonLib)

/-- `find_headers_end`. Its result and that of `span_find` are compared with `-1` as `int`s, which
no position is in a buffer of less than `2 ^ 32 - 1` bytes. -/
def findHeadersEnd (buffer : Span) : Option Nat :=
  match lib.spanFind buffer headersTerminator with
  | none => none
  | some (term, _) => some (term + headersTerminator.size)

/-- The end of `parse_head`: a request with a Transfer-Encoding is refused. -/
def parseHeadEncoding (parser : HttpRequestParser) (headersEnd : Nat) :
    Result × HttpRequestParser :=
  match httpHeadersFind lib parser.request.headers HTTP_HEADER_TRANSFER_ENCODING with
  | .ok _ => (.error, parser)
  | .error _ => (.ok, { parser with headersEnd })

def parseHead (parser : HttpRequestParser) (buffer : Span) (headersEnd : Nat) :
    Result × HttpRequestParser :=
  let head := lib.spanSlice buffer 0 headersEnd
  match lib.spanSplit head space with
  | none => (.error, parser)
  | some (method, rest) =>
    match lib.spanSplit rest space with
    | none => (.error, parser)
    | some (path, rest) =>
      match lib.spanSplit rest crlf with
      | none => (.error, parser)
      | some (httpVersion, rest) =>
        let parser := { parser with
          request := ⟨method, path, httpVersion, httpHeadersParse lib rest, .empty⟩ }
        match httpHeadersFind lib parser.request.headers HTTP_HEADER_CONTENT_LENGTH with
        | .error _ => parseHeadEncoding lib parser headersEnd
        | .ok clValue =>
          match lib.spanToUInt32 clValue with
          | none => (.error, parser)
          | some cl =>
            parseHeadEncoding lib { parser with contentLength := cl, hasContentLength := true }
              headersEnd

/-- Phase 2 of `http_request_parser_feed`. -/
def feedBody (parser : HttpRequestParser) (buffer : Span) : Result × HttpRequestParser :=
  let needed := wrap32 (parser.headersEnd + parser.contentLength)
  if buffer.size < needed then (.tryAgain, { parser with state := .body })
  else
    let body :=
      if parser.contentLength > 0 then
        lib.spanSlice buffer parser.headersEnd parser.contentLength
      else .empty
    (.ok, { parser with request := { parser.request with body }, state := .complete })

def httpRequestParserFeed (parser : HttpRequestParser) (buffer : Span) :
    Result × HttpRequestParser :=
  match parser.state with
  | .complete => (.ok, parser)
  | .error => (.error, parser)
  | _ =>
    if parser.headersEnd = 0 then
      match findHeadersEnd lib buffer with
      | none =>
        (.tryAgain, { parser with state := if buffer.size = 0 then .requestLine else .headers })
      | some stop =>
        let (pr, parser) := parseHead lib parser buffer stop
        if lib.failed pr then (.error, { parser with state := .error })
        else feedBody lib { parser with state := .body } buffer
    else feedBody lib parser buffer

def httpRequestParserGetConsumed (parser : HttpRequestParser) : Nat :=
  if parser.state ≠ .complete then 0 else wrap32 (parser.headersEnd + parser.contentLength)

/-! ## Heads -/

/-- A request head that the parser accepts, by content. -/
structure RequestHead where
  method : Bytes
  path : Bytes
  version : Bytes
  /-- The field lines, each with its CRLF. -/
  block : Bytes
  /-- Length of the head with its blank line. -/
  length : Nat
  contentLength : Nat
  deriving DecidableEq, Repr

namespace RequestHead

def fields (h : RequestHead) : List Bytes := fieldLines h.block

end RequestHead

/-- What the trimmer keeps of the bytes after the start line: the blank line's CRLF goes,
unless there is nothing else. -/
def headBlock (rest : Bytes) : Bytes := rest.take (max 2 (rest.length - 2))

/-- The body length that the field lines declare; `none` if they declare no number. -/
def declaredLength (lines : List Bytes) : Option Nat :=
  match lookup lines HTTP_HEADER_CONTENT_LENGTH.bytes with
  | none => some 0
  | some value => lib.spanToUInt32 ⟨0, value⟩

/-- The reading of a complete head, `none` if it is refused. -/
def RequestHead.parse? (head : Bytes) : Option RequestHead :=
  match splitStartLine head with
  | none => none
  | some (method, path, version, rest) =>
    let block := headBlock rest
    if lookup (fieldLines block) HTTP_HEADER_TRANSFER_ENCODING.bytes = none then
      (declaredLength lib (fieldLines block)).map fun n =>
        ⟨method, path, version, block, head.length, n⟩
    else none

/-- The head of a buffer: not there yet, refused, or accepted. -/
inductive HeadStatus where
  | missing
  | refused
  | accepted (head : RequestHead)
  deriving DecidableEq, Repr

def headStatus (buffer : Bytes) : HeadStatus :=
  match find? headersTerminator.bytes buffer with
  | none => .missing
  | some term =>
    match RequestHead.parse? lib (buffer.take (term + 4)) with
    | none => .refused
    | some h => .accepted h

theorem headStatus_missing {buffer : Bytes} :
    headStatus lib buffer = .missing ↔ find? headersTerminator.bytes buffer = none := by
  unfold headStatus
  cases find? headersTerminator.bytes buffer with
  | none => simp
  | some term =>
    dsimp only
    cases RequestHead.parse? lib (buffer.take (term + 4)) <;> simp

/-- What an accepted head consists of. -/
theorem parse?_eq_some {head : Bytes} {h : RequestHead} :
    RequestHead.parse? lib head = some h ↔
      ∃ rest, splitStartLine head = some (h.method, h.path, h.version, rest) ∧
        h.block = headBlock rest ∧ h.length = head.length ∧
        lookup h.fields HTTP_HEADER_TRANSFER_ENCODING.bytes = none ∧
        declaredLength lib h.fields = some h.contentLength := by
  unfold RequestHead.parse?
  cases hs : splitStartLine head with
  | none => simp
  | some t =>
    obtain ⟨method, path, version, rest⟩ := t
    dsimp only
    split_ifs with hte
    · rw [Option.map_eq_some_iff]
      constructor
      · rintro ⟨n, hn, rfl⟩
        exact ⟨rest, rfl, rfl, rfl, hte, hn⟩
      · rintro ⟨_, heq, hb, hl, -, hn⟩
        simp only [Option.some.injEq, Prod.mk.injEq] at heq
        obtain ⟨rfl, rfl, rfl, rfl⟩ := heq
        refine ⟨h.contentLength, ?_, ?_⟩
        · rwa [← hb]
        · rw [← hb, ← hl]
    · simp only [false_iff, not_exists, not_and]
      rintro _ heq hb - hte'
      simp only [Option.some.injEq, Prod.mk.injEq] at heq
      obtain ⟨-, -, -, rfl⟩ := heq
      rw [RequestHead.fields, hb] at hte'
      exact absurd hte' hte

theorem parse?_length {head : Bytes} {h : RequestHead}
    (hp : RequestHead.parse? lib head = some h) : h.length = head.length := by
  obtain ⟨-, -, -, hl, -⟩ := (parse?_eq_some lib).mp hp
  exact hl

/-- A declared length is a 32-bit number. -/
theorem declaredLength_lt {lines : List Bytes} {n : Nat} (h : declaredLength lib lines = some n) :
    n < 2 ^ 32 := by
  unfold declaredLength at h
  split at h
  · obtain rfl := Option.some.inj h
    decide
  · exact lib.spanToUInt32_lt _ _ h

/-- An accepted head is what stands up to the first blank line. -/
theorem headStatus_accepted {buffer : Bytes} {h : RequestHead} :
    headStatus lib buffer = .accepted h ↔
      ∃ term, find? headersTerminator.bytes buffer = some term ∧ h.length = term + 4 ∧
        RequestHead.parse? lib (buffer.take h.length) = some h := by
  unfold headStatus
  cases hf : find? headersTerminator.bytes buffer with
  | none => simp
  | some term =>
    have hlen := find?_length_le hf
    have hT : headersTerminator.bytes.length = 4 := by decide
    dsimp only
    cases hp : RequestHead.parse? lib (buffer.take (term + 4)) with
    | none =>
      simp only [reduceCtorEq, Option.some.injEq, false_iff, not_exists, not_and]
      rintro _ rfl hl
      rw [hl, hp]
      simp
    | some h' =>
      have hl' := parse?_length lib hp
      rw [List.length_take] at hl'
      simp only [HeadStatus.accepted.injEq, Option.some.injEq]
      constructor
      · rintro rfl
        exact ⟨term, rfl, by omega, by rwa [show h'.length = term + 4 by omega]⟩
      · rintro ⟨_, rfl, hl, hp'⟩
        rw [hl, hp] at hp'
        exact Option.some.inj hp'

theorem headStatus_refused {buffer : Bytes} :
    headStatus lib buffer = .refused ↔
      ∃ term, find? headersTerminator.bytes buffer = some term ∧
        RequestHead.parse? lib (buffer.take (term + 4)) = none := by
  unfold headStatus
  cases hf : find? headersTerminator.bytes buffer with
  | none => simp
  | some term =>
    dsimp only
    cases hp : RequestHead.parse? lib (buffer.take (term + 4)) <;> simp [hp]

/-- Once the blank line is there, later bytes do not change the reading of the head. -/
theorem headStatus_append {buffer : Bytes} (h : headStatus lib buffer ≠ .missing) (r : Bytes) :
    headStatus lib (buffer ++ r) = headStatus lib buffer := by
  rw [ne_eq, headStatus_missing] at h
  obtain ⟨term, hf⟩ := Option.ne_none_iff_exists'.mp h
  have hlen := find?_length_le hf
  have hT : headersTerminator.bytes.length = 4 := by decide
  simp only [headStatus, hf, find?_append_right hf r]
  rw [List.take_append_of_le_length (by omega)]

theorem accepted_length_le {buffer : Bytes} {h : RequestHead}
    (hs : headStatus lib buffer = .accepted h) : 4 ≤ h.length ∧ h.length ≤ buffer.length := by
  obtain ⟨term, hf, hl, -⟩ := (headStatus_accepted lib).mp hs
  have hlen := find?_length_le hf
  have hT : headersTerminator.bytes.length = 4 := by decide
  omega

theorem accepted_contentLength_lt {buffer : Bytes} {h : RequestHead}
    (hs : headStatus lib buffer = .accepted h) : h.contentLength < 2 ^ 32 := by
  obtain ⟨-, -, -, hp⟩ := (headStatus_accepted lib).mp hs
  obtain ⟨-, -, -, -, -, hcl⟩ := (parse?_eq_some lib).mp hp
  exact declaredLength_lt lib hcl

/-! ## The end of a head -/

/-- A list that ends in `t` still does after a cut at an element that `t` does not contain. -/
theorem suffix_of_cut {x y p t : Bytes} {a : UInt8} (h : x ++ a :: y = p ++ t) (ha : a ∉ t) :
    ∃ z, y = z ++ t := by
  rcases List.append_eq_append_iff.mp h with ⟨q, rfl, hq⟩ | ⟨q, rfl, rfl⟩
  · cases q with
    | nil =>
      rw [List.nil_append] at hq
      exact absurd (by rw [← hq]; simp) ha
    | cons b q =>
      simp only [List.cons_append, List.cons.injEq] at hq
      exact ⟨q, hq.2⟩
  · exact absurd (by simp) ha

/-- After the start line of a head there is the blank line alone, or field lines and it. -/
theorem rest_of_head {head a b c rest p : Bytes}
    (hhead : head = p ++ (crlf.bytes ++ crlf.bytes))
    (h : splitStartLine head = some (a, b, c, rest)) :
    rest = crlf.bytes ∨ ∃ x, rest = x ++ (crlf.bytes ++ crlf.bytes) := by
  obtain ⟨-, -, h3⟩ := splitStartLine_eq_some.mp h
  have hc : ¬ crlf.bytes <:+: c := not_infix_of_cut?_left crlf_ne_nil h3
  have hsp : (32 : UInt8) ∉ crlf.bytes ++ crlf.bytes := by decide
  have hraw := (splitStartLine_bytes h).symm.trans hhead
  simp only [space_bytes, List.singleton_append] at hraw
  obtain ⟨z, hz⟩ := suffix_of_cut hraw hsp
  obtain ⟨y, hy⟩ := suffix_of_cut hz hsp
  rw [crlf_bytes] at hy hc ⊢
  -- the first CRLF of `c CRLF rest = y CRLF CRLF` stands at the end of `c`
  rcases List.append_eq_append_iff.mp hy with ⟨q, rfl, hq⟩ | ⟨q, rfl, hq⟩
  · match q with
    | [] => simp at hq; exact .inl hq
    | [d] => simp at hq
    | d :: e :: q =>
      simp only [List.cons_append, List.nil_append, List.cons.injEq] at hq
      exact .inr ⟨q, by simp [hq.2.2]⟩
  · match q with
    | [] => simp at hq; exact .inl hq.symm
    | [d] => simp at hq
    | d :: e :: q =>
      simp only [List.cons_append, List.nil_append, List.cons.injEq] at hq
      exact absurd ⟨y, q, by simp [hq.1, hq.2.1]⟩ hc

/-- The header trimmer on what follows the start line of a head. -/
theorem block_httpHeadersParse_head {raw : Span}
    (h : raw.bytes = crlf.bytes ∨ ∃ x, raw.bytes = x ++ (crlf.bytes ++ crlf.bytes)) :
    (httpHeadersParse lib raw).block = headBlock raw.bytes ∧
      (httpHeadersParse lib raw).usedSize ≤ raw.size := by
  rcases h with h | ⟨x, h⟩
  · have hno : ∀ j, ¬ OccursAt headersTerminator.bytes raw.bytes j := by
      intro j hj
      have := hj.length_le
      rw [h, headersTerminator_bytes] at this
      simp at this
    have hb := @block_httpHeadersParse_lines lib raw [] []
      (by simpa using h) (by simp) hno
    rw [h]
    exact ⟨by simpa [headBlock, crlf_bytes] using hb.1, hb.2⟩
  · have hb := block_httpHeadersParse_blank lib h
    refine ⟨?_, hb.2⟩
    rw [hb.1, headBlock, h]
    have hmax :
        max 2 ((x ++ (crlf.bytes ++ crlf.bytes)).length - 2) = (x ++ crlf.bytes).length := by
      simp
    rw [hmax, ← List.append_assoc, List.take_left]

/-! ## The parser follows the head -/

/-- The request of a parsed head, by offset into it. -/
def headRequest (head : Span) (h : RequestHead) : HttpRequest where
  method := head.sub 0 h.method.length
  path := head.sub (h.method.length + 1) h.path.length
  httpVersion := head.sub (h.method.length + 1 + (h.path.length + 1)) h.version.length
  headers := httpHeadersParse lib (head.tail (startLineLength h.method h.path h.version))
  body := .empty

/-- The parser after the head of `buffer`. -/
def parserAfterHead (buffer : Span) (h : RequestHead) : HttpRequestParser where
  state := .body
  request := headRequest lib (buffer.sub 0 h.length) h
  headersEnd := h.length
  contentLength := h.contentLength
  hasContentLength := (lookup h.fields HTTP_HEADER_CONTENT_LENGTH.bytes).isSome

/-- A lookup in a parsed head, as the code tests it. -/
theorem httpHeadersFind_head {raw name : Span}
    (h : raw.bytes = crlf.bytes ∨ ∃ x, raw.bytes = x ++ (crlf.bytes ++ crlf.bytes))
    (hname : name.bytes ≠ []) :
    (httpHeadersFind lib (httpHeadersParse lib raw) name).map Span.bytes =
      (lookup (fieldLines (headBlock raw.bytes)) name.bytes).elim (.error .notFound) .ok := by
  obtain ⟨hb, hu⟩ := block_httpHeadersParse_head lib h
  rw [httpHeadersFind_block lib hu hname, hb]

/-- A parser that has not seen the head yet. -/
def HttpRequestParser.Fresh (p : HttpRequestParser) : Prop :=
  p = { httpRequestParserInit with state := .requestLine } ∨
    p = { httpRequestParserInit with state := .headers }

theorem fresh_init : httpRequestParserInit.Fresh := .inl rfl

section Head

variable {lib}

theorem except_map_elim_some {x : Except HlResult Span} {o : Option Bytes} {v : Bytes}
    (h : x.map Span.bytes = o.elim (.error .notFound) .ok) (ho : o = some v) :
    ∃ s, x = .ok s ∧ s.bytes = v := by
  subst ho
  cases x with
  | error e => simp [Except.map] at h
  | ok s => exact ⟨s, rfl, by simpa [Except.map] using h⟩

theorem except_map_elim_none {x : Except HlResult Span} {o : Option Bytes}
    (h : x.map Span.bytes = o.elim (.error .notFound) .ok) (ho : o = none) :
    x = .error .notFound := by
  subst ho
  cases x with
  | error e => simpa [Except.map] using h
  | ok s => simp [Except.map] at h

theorem parseHeadEncoding_eq {parser : HttpRequestParser} {lines : List Bytes} {n : Nat}
    (hte : (httpHeadersFind lib parser.request.headers HTTP_HEADER_TRANSFER_ENCODING).map
      Span.bytes = (lookup lines HTTP_HEADER_TRANSFER_ENCODING.bytes).elim (.error .notFound) .ok) :
    (lookup lines HTTP_HEADER_TRANSFER_ENCODING.bytes = none →
      parseHeadEncoding lib parser n = (.ok, { parser with headersEnd := n })) ∧
    (lookup lines HTTP_HEADER_TRANSFER_ENCODING.bytes ≠ none →
      (parseHeadEncoding lib parser n).1 = .error) := by
  constructor
  · intro h
    rw [parseHeadEncoding, except_map_elim_none hte h]
  · intro h
    obtain ⟨v, hv⟩ := Option.ne_none_iff_exists'.mp h
    obtain ⟨s, hs, -⟩ := except_map_elim_some hte hv
    rw [parseHeadEncoding, hs]

/-- `parse_head` reads a head as `RequestHead.parse?` does. -/
theorem parseHead_eq {p : HttpRequestParser} (hp : p.Fresh) {buffer : Span} {term : Nat}
    (hf : find? headersTerminator.bytes buffer.bytes = some term) :
    match RequestHead.parse? lib (buffer.bytes.take (term + 4)) with
    | none => (parseHead lib p buffer (term + 4)).1 = .error
    | some h => parseHead lib p buffer (term + 4) =
        (.ok, { parserAfterHead lib buffer h with state := p.state }) := by
  have hT : headersTerminator.bytes.length = 4 := by decide
  have hlen := find?_length_le hf
  have hslice : lib.spanSlice buffer 0 (term + 4) = buffer.sub 0 (term + 4) :=
    lib.spanSlice_eq _ _ _ (by rw [Span.size]; omega)
  have hbytes : (buffer.sub 0 (term + 4)).bytes = buffer.bytes.take (term + 4) := by simp
  -- the head ends in the blank line
  have hend : buffer.bytes.take (term + 4) =
      buffer.bytes.take term ++ (crlf.bytes ++ crlf.bytes) := by
    have hocc := (find?_eq_some.mp hf).1.2
    rw [headersTerminator_bytes] at hocc
    rw [List.take_add, List.prefix_iff_eq_take.mp hocc]
    simp
  unfold RequestHead.parse?
  cases hs : splitStartLine (buffer.bytes.take (term + 4)) with
  | none =>
    rw [← hbytes] at hs
    simp only [parseHead, hslice]
    rcases spanSplit_startLine_none lib hs with h1 | ⟨x, r, h1, h2 | ⟨y, r', h2, h3⟩⟩
    · simp only [h1]
    · simp only [h1, h2]
    · simp only [h1, h2, h3]
  | some t =>
    obtain ⟨method, path, version, rest⟩ := t
    have hrest := rest_of_head hend hs
    rw [← hbytes] at hs
    obtain ⟨h1, h2, h3⟩ := spanSplit_startLine lib hs
    have htail : ((buffer.sub 0 (term + 4)).tail (startLineLength method path version)).bytes =
        rest := bytes_tail_startLine hs
    set raw := (buffer.sub 0 (term + 4)).tail (startLineLength method path version) with hraw
    change lib.spanSplit _ crlf = some (_, raw) at h3
    have hcl := @httpHeadersFind_head lib raw HTTP_HEADER_CONTENT_LENGTH
      (by rwa [htail]) (by decide)
    have hte := @httpHeadersFind_head lib raw HTTP_HEADER_TRANSFER_ENCODING
      (by rwa [htail]) (by decide)
    rw [htail] at hcl hte
    set lines := fieldLines (headBlock rest) with hlines
    have hlength : (buffer.bytes.take (term + 4)).length = term + 4 := by simp; omega
    simp only [declaredLength]
    cases hlc : lookup lines HTTP_HEADER_CONTENT_LENGTH.bytes with
    | none =>
      have hfind := except_map_elim_none hcl hlc
      have henc := @parseHeadEncoding_eq lib { p with
          request := headRequest lib (buffer.sub 0 (term + 4))
            ⟨method, path, version, headBlock rest, term + 4, 0⟩ } lines (term + 4) hte
      have heq : parseHead lib p buffer (term + 4) = parseHeadEncoding lib
          { p with
            request := headRequest lib (buffer.sub 0 (term + 4))
              ⟨method, path, version, headBlock rest, term + 4, 0⟩ } (term + 4) := by
        simp only [parseHead, hslice, h1, h2, h3, ← hraw, hfind, headRequest]
      split_ifs with hlt
      · simp only [Option.map_some, hlength]
        rw [heq, henc.1 hlt]
        rcases hp with rfl | rfl <;>
          simp [parserAfterHead, RequestHead.fields, ← hlines, hlc, httpRequestParserInit]
      · simp only
        rw [heq]
        exact henc.2 hlt
    | some value =>
      obtain ⟨v, hfind, hv⟩ := except_map_elim_some hcl hlc
      have hnum : lib.spanToUInt32 v = lib.spanToUInt32 ⟨0, value⟩ :=
        lib.spanToUInt32_congr _ _ hv
      dsimp only
      cases hn : lib.spanToUInt32 ⟨0, value⟩ with
      | none =>
        rw [hn] at hnum
        have heq : (parseHead lib p buffer (term + 4)).1 = .error := by
          simp only [parseHead, hslice, h1, h2, h3, hfind, hnum]
        split_ifs <;> simpa using heq
      | some cl =>
        rw [hn] at hnum
        have henc := @parseHeadEncoding_eq lib { p with
            request := headRequest lib (buffer.sub 0 (term + 4))
              ⟨method, path, version, headBlock rest, term + 4, cl⟩
            contentLength := cl
            hasContentLength := true } lines (term + 4) hte
        have heq : parseHead lib p buffer (term + 4) = parseHeadEncoding lib
            { p with
              request := headRequest lib (buffer.sub 0 (term + 4))
                ⟨method, path, version, headBlock rest, term + 4, cl⟩
              contentLength := cl
              hasContentLength := true } (term + 4) := by
          simp only [parseHead, hslice, h1, h2, h3, ← hraw, hfind, hnum,
            headRequest]
        split_ifs with hlt
        · simp only [Option.map_some, hlength]
          rw [heq, henc.1 hlt]
          rcases hp with rfl | rfl <;> simp [parserAfterHead, RequestHead.fields, ← hlines, hlc]
        · simp only
          rw [heq]
          exact henc.2 hlt

end Head

/-! ## Feeding a fresh parser -/

theorem findHeadersEnd_eq (buffer : Span) :
    findHeadersEnd lib buffer =
      (find? headersTerminator.bytes buffer.bytes).map (· + 4) := by
  rw [findHeadersEnd, lib.spanFind_eq _ _ headersTerminator_ne_nil]
  cases find? headersTerminator.bytes buffer.bytes <;> simp

section Feed

variable {lib} {p : HttpRequestParser} {buffer : Span}

/-- The first phase of a parser that has not seen the head. -/
theorem feed_fresh (hp : p.Fresh) :
    httpRequestParserFeed lib p buffer =
      match findHeadersEnd lib buffer with
      | none =>
        (.tryAgain, { p with state := if buffer.size = 0 then .requestLine else .headers })
      | some stop =>
        let (pr, parser) := parseHead lib p buffer stop
        if lib.failed pr then (.error, { parser with state := .error })
        else feedBody lib { parser with state := .body } buffer := by
  rcases hp with rfl | rfl <;> simp [httpRequestParserFeed, httpRequestParserInit]

theorem feed_missing (hp : p.Fresh) (h : headStatus lib buffer.bytes = .missing) :
    (httpRequestParserFeed lib p buffer).1 = .tryAgain ∧
      (httpRequestParserFeed lib p buffer).2 = { httpRequestParserInit with
        state := if buffer.size = 0 then .requestLine else .headers } := by
  rw [headStatus_missing] at h
  rw [feed_fresh hp, findHeadersEnd_eq, h]
  rcases hp with rfl | rfl <;> exact ⟨rfl, rfl⟩

theorem feed_refused (hp : p.Fresh) (h : headStatus lib buffer.bytes = .refused) :
    (httpRequestParserFeed lib p buffer).1 = .error ∧
      (httpRequestParserFeed lib p buffer).2.state = .error := by
  obtain ⟨term, hf, hnone⟩ := (headStatus_refused lib).mp h
  have hparse := @parseHead_eq lib _ hp _ _ hf
  rw [hnone] at hparse
  rw [feed_fresh hp, findHeadersEnd_eq, hf]
  simp [hparse]

theorem feed_accepted (hp : p.Fresh) {h : RequestHead}
    (hs : headStatus lib buffer.bytes = .accepted h) :
    httpRequestParserFeed lib p buffer = feedBody lib (parserAfterHead lib buffer h) buffer := by
  obtain ⟨term, hf, hl, hsome⟩ := (headStatus_accepted lib).mp hs
  have hparse := @parseHead_eq lib _ hp _ _ hf
  rw [← hl, hsome] at hparse
  rw [feed_fresh hp, findHeadersEnd_eq, hf, Option.map_some, ← hl]
  simp only at hparse ⊢
  rw [hparse]
  simp [parserAfterHead]

end Feed

/-! ## Feeding growing prefixes -/

/-- The body of an accepted request, by offset into its buffer. -/
def bodySpan (buffer : Span) (h : RequestHead) : Span :=
  if h.contentLength > 0 then buffer.sub h.length h.contentLength else .empty

/-- What a parser has made of the bytes it was last fed. -/
inductive Fed (s : Span) : HttpRequestParser → Prop
  | missing {p : HttpRequestParser} (hs : headStatus lib s.bytes = .missing) (hp : p.Fresh) :
    Fed s p
  | refused {p : HttpRequestParser} (hs : headStatus lib s.bytes = .refused)
    (hp : p.state = .error) : Fed s p
  | waiting {h : RequestHead} (hs : headStatus lib s.bytes = .accepted h)
    (hsize : s.size < wrap32 (h.length + h.contentLength)) : Fed s (parserAfterHead lib s h)
  | complete {h : RequestHead} {body : Span} (hs : headStatus lib s.bytes = .accepted h)
    (hsize : wrap32 (h.length + h.contentLength) ≤ s.size)
    -- the body is out of the buffer when the sum wraps
    (hbody : h.length + h.contentLength < 2 ^ 32 → body = bodySpan s h) :
    Fed s { parserAfterHead lib s h with
      request := { headRequest lib (s.sub 0 h.length) h with body }
      state := .complete }

/-- The result that goes with the state a feed leaves. -/
def RequestParserState.result : RequestParserState → Result
  | .complete => .ok
  | .error => .error
  | _ => .tryAgain

section Growing

variable {lib} {p : HttpRequestParser} {s t : Span}

theorem Span.sub_of_extends (hptr : s.ptr = t.ptr) (hbytes : s.bytes <+: t.bytes) {i n : Nat}
    (h : i + n ≤ s.size) : s.sub i n = t.sub i n := by
  obtain ⟨r, hr⟩ := hbytes
  rw [Span.size] at h
  simp only [Span.sub, hptr, ← hr, Span.mk.injEq, true_and]
  rw [List.drop_append_of_le_length (by omega), List.take_append_of_le_length (by simp; omega)]

theorem headStatus_of_extends (hbytes : s.bytes <+: t.bytes)
    (h : headStatus lib s.bytes ≠ .missing) : headStatus lib t.bytes = headStatus lib s.bytes := by
  obtain ⟨r, hr⟩ := hbytes
  rw [← hr, headStatus_append lib h]

theorem parserAfterHead_of_extends (hptr : s.ptr = t.ptr) (hbytes : s.bytes <+: t.bytes)
    {h : RequestHead} (hs : headStatus lib s.bytes = .accepted h) :
    parserAfterHead lib s h = parserAfterHead lib t h := by
  have hle := accepted_length_le lib hs
  have hsub := Span.sub_of_extends hptr hbytes (i := 0) (n := h.length) (by rw [Span.size]; omega)
  rw [parserAfterHead, parserAfterHead, hsub]

/-- The body phase, when the head has been read. -/
theorem feedBody_fed {h : RequestHead} (hs : headStatus lib s.bytes = .accepted h) :
    Fed lib s (feedBody lib (parserAfterHead lib s h) s).2 ∧
      (feedBody lib (parserAfterHead lib s h) s).1 =
        (feedBody lib (parserAfterHead lib s h) s).2.state.result := by
  have hle := accepted_length_le lib hs
  by_cases hlt : s.size < wrap32 (h.length + h.contentLength)
  · have hfeed : feedBody lib (parserAfterHead lib s h) s = (.tryAgain, parserAfterHead lib s h) :=
      if_pos hlt
    rw [hfeed]
    exact ⟨.waiting hs hlt, rfl⟩
  · have hfeed : feedBody lib (parserAfterHead lib s h) s = (.ok, { parserAfterHead lib s h with
        request := { headRequest lib (s.sub 0 h.length) h with
          body := if h.contentLength > 0 then lib.spanSlice s h.length h.contentLength else .empty }
        state := .complete }) := if_neg hlt
    rw [hfeed]
    refine ⟨.complete hs (Nat.not_lt.mp hlt) fun hfit => ?_, rfl⟩
    rw [wrap32, Nat.mod_eq_of_lt hfit] at hlt
    rw [bodySpan, lib.spanSlice_eq _ _ _ (Nat.not_lt.mp hlt)]

theorem feed_of_fresh (hp : p.Fresh) :
    Fed lib s (httpRequestParserFeed lib p s).2 ∧
      (httpRequestParserFeed lib p s).1 = (httpRequestParserFeed lib p s).2.state.result := by
  cases hs : headStatus lib s.bytes with
  | missing =>
    obtain ⟨h1, h2⟩ := feed_missing hp hs
    rw [h1, h2]
    split_ifs
    · exact ⟨.missing hs (.inl rfl), rfl⟩
    · exact ⟨.missing hs (.inr rfl), rfl⟩
  | refused =>
    obtain ⟨h1, h2⟩ := feed_refused hp hs
    exact ⟨.refused hs h2, by rw [h1, h2]; rfl⟩
  | accepted h =>
    rw [feed_accepted hp hs]
    exact feedBody_fed hs

/-- One feed of a longer prefix of the same buffer. -/
theorem feed_step (h : Fed lib s p) (hptr : s.ptr = t.ptr) (hbytes : s.bytes <+: t.bytes) :
    Fed lib t (httpRequestParserFeed lib p t).2 ∧
      (httpRequestParserFeed lib p t).1 = (httpRequestParserFeed lib p t).2.state.result := by
  have hsize : s.size ≤ t.size := hbytes.length_le
  cases h with
  | missing hs hp => exact feed_of_fresh hp
  | refused hs hp =>
    have ht := (headStatus_of_extends hbytes (by simp [hs])).trans hs
    simp only [httpRequestParserFeed, hp]
    exact ⟨.refused ht hp, by simp [RequestParserState.result]⟩
  | @waiting h hs hlt =>
    have ht := (headStatus_of_extends hbytes (by simp [hs])).trans hs
    have hle := accepted_length_le lib hs
    have hfeed : httpRequestParserFeed lib (parserAfterHead lib t h) t =
        feedBody lib (parserAfterHead lib t h) t := if_neg (show h.length ≠ 0 by omega)
    rw [parserAfterHead_of_extends hptr hbytes hs, hfeed]
    exact feedBody_fed ht
  | @complete h body hs hle' hbody =>
    have ht := (headStatus_of_extends hbytes (by simp [hs])).trans hs
    have hle := accepted_length_le lib hs
    have hsub := Span.sub_of_extends hptr hbytes (i := 0) (n := h.length) (by rw [Span.size]; omega)
    rw [parserAfterHead_of_extends hptr hbytes hs, hsub]
    refine ⟨.complete ht (by omega) fun hfit => ?_, rfl⟩
    rw [hbody hfit, bodySpan, bodySpan]
    rw [wrap32, Nat.mod_eq_of_lt hfit] at hle'
    rw [Span.sub_of_extends hptr hbytes hle']

end Growing

end HttpC
