import HttpC.Connection.RequestReceiver
import HttpC.Connection.ResponseDechunking

/-!
# Receiving a response

`determine_response_body_framing` and `receive_response` of `http_connection.c`. The head reader
may read on into the body, and the body goes on in a window that starts with what was read;
the parser of the head says where. Without a field line it does not find the blank line
behind the start line, and takes what follows for header lines.

## Main results

* `ResponseMessage.WellFormed.stages` — a response is received as it was sent, if it has a field
  line or a read ends behind its head.
* `receiveResponse_bare` — otherwise its body comes back shorter.
* `response_split_iff` — two ways of splitting a response into reads give the same exactly then.
-/

namespace HttpC

open Block ListSearch

/-! ## The model -/

/-- What `receive_response` uses of `http_connection_t`. -/
structure HttpConnection where
  wire : Wire
  awaitingResponseToHead : Bool
  deriving DecidableEq, Repr

/-- `response_body_framing_t`, with the content length. -/
inductive ResponseBodyFraming where
  | none
  | contentLength (length : Nat)
  | chunked
  | untilClose
  deriving DecidableEq, Repr

def HttpResponse.reread (r : HttpResponse) (ptr : Nat) (mem : Bytes) : HttpResponse :=
  { r with
    httpVersion := r.httpVersion.reread ptr mem
    code := r.code.reread ptr mem
    reasonPhrase := r.reasonPhrase.reread ptr mem
    headers := r.headers.reread ptr mem
    body := r.body.reread ptr mem }

/-- What a call returns, and the connection behind it. The remainder is set with `ok` only. -/
structure ResponseReceipt where
  result : Result
  response : HttpResponse
  remainder : Option Span
  connection : HttpConnection
  deriving DecidableEq, Repr

section

variable (lib : CommonLib) (bodyHandler : Option BodyHandler) (ptr : Nat)

/-- `determine_response_body_framing`; `none` is its error. -/
def determineResponseBodyFraming (c : HttpConnection) (response : HttpResponse) :
    Option ResponseBodyFraming :=
  if response.code.size ≠ 3 then none
  else
    match lib.spanToUInt32 response.code with
    | none => none
    | some status =>
      if (100 ≤ status ∧ status ≤ 199) ∨ status = 204 ∨ status = 304 ∨ c.awaitingResponseToHead then
        some .none
      else
        match httpHeadersFind lib response.headers HTTP_HEADER_CONTENT_LENGTH with
        | .ok value =>
          match lib.spanToUInt32 value with
          | none => none
          | some contentLength =>
            some (if contentLength = 0 then .none else .contentLength contentLength)
        | .error _ =>
          match httpHeadersFind lib response.headers HTTP_HEADER_TRANSFER_ENCODING with
          | .ok value =>
            some (if transferEncodingIsChunked value.bytes then .chunked else .untilClose)
          | .error _ => some .untilClose

/-- The `switch` over the framing. -/
def readResponseBody (buffer capacity : Nat) (r : BodyReader) :
    ResponseBodyFraming → Option (Result × BodyReader)
  | .contentLength length => responseBodyReaderPassThrough lib bodyHandler buffer capacity r length
  | .chunked => responseBodyReaderChunked lib bodyHandler buffer capacity r
  | .untilClose => responseBodyReaderUntilClose lib bodyHandler buffer capacity r
  | .none => some (.ok, r)

/-- `receive_response` into the buffer `mem` at `ptr`. Without a handler the body is stored. -/
def receiveResponse (mem : Bytes) (c : HttpConnection) (response : HttpResponse) :
    Option ResponseReceipt :=
  match readUntilHeadersComplete lib ptr mem c.wire with
  | none => none
  | some (result, w) =>
    let c := { c with wire := w.wire }
    if lib.isError result then some ⟨result, response, none, c⟩
    else if result = .endOfData ∨ result = .endOfFile then some ⟨.error, response, none, c⟩
    else
      let (result, response) := httpResponseParse lib response ⟨ptr, w.received⟩
      if lib.isError result then some ⟨result, response, none, c⟩
      else
        let prefetched := response.body
        let response := { response with body := .empty }
        let buffer := if prefetched.isEmpty then w.filled else prefetched.ptr - ptr
        let capacity := prefetched.size + (mem.length - w.filled)
        match determineResponseBodyFraming lib c response with
        | none => some ⟨.error, response, none, c⟩
        | some framing =>
          -- an interim response is followed by the real one
          let c :=
            if response.code.bytes.head? ≠ some 49 then { c with awaitingResponseToHead := false }
            else c
          match readResponseBody lib bodyHandler buffer capacity
              (.opened w.mem w.wire prefetched.size) framing with
          | none => none
          | some (result, r) =>
            let c := { c with wire := r.wire }
            if lib.isError result then some ⟨result, response.reread ptr r.mem, none, c⟩
            else
              let body := if bodyHandler.isNone ∧ 0 < r.storedLength
                then spanAt ptr r.mem buffer r.storedLength else .empty
              let remainder := if r.storedLength < capacity
                then spanAt ptr r.mem (buffer + r.storedLength) (capacity - r.storedLength)
                else .empty
              some ⟨.ok, { response with body }.reread ptr r.mem, some remainder, c⟩

end

/-! ## Responses -/

/-- The body of a response, as it is encoded. -/
inductive ResponseBody where
  | empty
  | counted (bytes : Bytes)
  | chunked (stream : ChunkStream)
  | untilClose (bytes : Bytes)
  deriving DecidableEq, Repr

namespace ResponseBody

def encode : ResponseBody → Bytes
  | .empty => []
  | .counted bytes | .untilClose bytes => bytes
  | .chunked stream => stream.encode

def decoded : ResponseBody → Bytes
  | .empty => []
  | .counted bytes | .untilClose bytes => bytes
  | .chunked stream => stream.payload

def HasFraming : ResponseBody → ResponseBodyFraming → Prop
  | .empty, .none => True
  | .counted bytes, .contentLength length => bytes.length = length
  | .chunked stream, .chunked => stream.WellFormed
  | .untilClose _, .untilClose => True
  | _, _ => False

end ResponseBody

/-- How a head says that its body is framed. -/
def declaredFraming (lib : CommonLib) (awaitingResponseToHead : Bool) (head : MessageHead) :
    Option ResponseBodyFraming :=
  if head.second.length ≠ 3 then none
  else
    match lib.spanToUInt32 ⟨0, head.second⟩ with
    | none => none
    | some status =>
      if (100 ≤ status ∧ status ≤ 199) ∨ status = 204 ∨ status = 304 ∨ awaitingResponseToHead then
        some .none
      else
        match lookup head.fields HTTP_HEADER_CONTENT_LENGTH.bytes with
        | some value =>
          (lib.spanToUInt32 ⟨0, value⟩).map fun contentLength =>
            if contentLength = 0 then .none else .contentLength contentLength
        | none =>
          match lookup head.fields HTTP_HEADER_TRANSFER_ENCODING.bytes with
          | some value => some (if transferEncodingIsChunked value then .chunked else .untilClose)
          | none => some .untilClose

structure ResponseMessage where
  head : MessageHead
  body : ResponseBody
  deriving DecidableEq, Repr

namespace ResponseMessage

def encode (m : ResponseMessage) : Bytes := m.head.encode ++ m.body.encode

/-- The body is framed as the head says. -/
structure WellFormed (lib : CommonLib) (awaitingResponseToHead : Bool) (m : ResponseMessage) :
    Prop where
  head : m.head.WellFormed
  framed : ∃ framing, declaredFraming lib awaitingResponseToHead m.head = some framing ∧
    m.body.HasFraming framing

/-- What `http_headers_find` has to answer. -/
def answer (m : ResponseMessage) (name : Span) : Except HlResult Bytes :=
  if name.isEmpty then .error .invalidArg
  else (lookup m.head.fields name.bytes).elim (.error .notFound) .ok

/-- A call returned this response. -/
structure ReceivedBy (lib : CommonLib) (m : ResponseMessage) (o : ResponseReceipt) : Prop where
  result : o.result = .ok
  httpVersion : o.response.httpVersion.bytes = m.head.first
  code : o.response.code.bytes = m.head.second
  reasonPhrase : o.response.reasonPhrase.bytes = m.head.third
  headers : ∀ name, (httpHeadersFind lib o.response.headers name).map Span.bytes = m.answer name
  body : o.response.body.bytes = m.body.decoded

end ResponseMessage

/-! ## The head -/

/-- What `http_response_parse` makes of a head with `rest` behind it. -/
structure HeadParsed (lib : CommonLib) (head : MessageHead) (received : Span) (rest : Bytes)
    (parsed : HttpResponse) : Prop where
  httpVersion : parsed.httpVersion.bytes = head.first
  code : parsed.code.bytes = head.second
  reasonPhrase : parsed.reasonPhrase.bytes = head.third
  answers : ∀ name, (httpHeadersFind lib parsed.headers name).map Span.bytes =
    if name.isEmpty then .error .invalidArg else (lookup head.fields name.bytes).elim
      (.error .notFound) .ok
  within : ∀ s ∈ [parsed.httpVersion, parsed.code, parsed.reasonPhrase, parsed.headers.buffer],
    ∃ i k, s = received.sub i k ∧ i + k ≤ head.encode.length
  body : parsed.body.bytes = rest
  bodyPtr : rest ≠ [] → parsed.body.ptr = received.ptr + head.encode.length

section

variable (lib : CommonLib) {head : MessageHead} {rest : Bytes}

/-- The headers and the body of a response behind its start line. Without a field line the
parser sees no blank line, so nothing may follow. -/
theorem splitHeadersAndBody_received (hwf : head.WellFormed) (hbare : head.fields = [] → rest = [])
    {raw : Span} (hraw : raw.bytes = head.fieldBlock ++ (crlf.bytes ++ rest)) :
    let parts := splitHeadersAndBody lib raw
    (∀ name : Span, name.bytes ≠ [] →
      (httpHeadersFind lib (httpHeadersParse lib parts.1) name).map Span.bytes =
        (lookup head.fields name.bytes).elim (.error .notFound) .ok) ∧
    (∃ k, parts.1 = raw.sub 0 k ∧ k ≤ head.fieldBlock.length + 2) ∧
    parts.2.bytes = rest ∧
    (rest ≠ [] → parts.2.ptr = raw.ptr + (head.fieldBlock.length + 2)) := by
  by_cases hfields : head.fields = []
  · obtain rfl := hbare hfields
    have hblock : head.fieldBlock = [] := by simp [MessageHead.fieldBlock, hfields]
    rw [hblock, List.nil_append, List.append_nil] at hraw
    rw [MessageHead.splitHeadersAndBody_bare lib hraw]
    refine ⟨fun name hname => ?_, ⟨2, ?_, by simp⟩, rfl, by simp⟩
    · obtain ⟨hkept, hused⟩ := block_httpHeadersParse_head lib (.inl hraw)
      have hcrlf : headBlock crlf.bytes = crlf.bytes := by decide
      rw [httpHeadersFind_block lib hused hname, hkept, hraw, hcrlf, fieldLines_crlf, lookup_cons,
        fieldValue_nil, hfields]
      rfl
    · rw [Span.sub, Nat.add_zero, List.drop_zero,
        List.take_of_length_le (by rw [hraw, crlf_length])]
  · rw [hwf.splitHeadersAndBody_fields lib hfields hraw]
    refine ⟨fun name hname => ?_, ⟨_, rfl, by omega⟩, ?_, fun _ => rfl⟩
    · refine hwf.httpHeadersFind_fields lib hfields ?_ hname
      rw [Span.bytes_sub, hraw, List.drop_zero, List.take_left]
    · rw [Span.bytes_tail, hraw, ← List.append_assoc]
      exact List.drop_left' (by simp)

/-- The response parser on what was read along with the head. -/
theorem httpResponseParse_received (hwf : head.WellFormed) (hbare : head.fields = [] → rest = [])
    (response : HttpResponse) {received : Span} (hreceived : received.bytes = head.encode ++ rest) :
    ∃ parsed, httpResponseParse lib response received = (.ok, parsed) ∧
      HeadParsed lib head received rest parsed := by
  have hsplit := hreceived ▸ hwf.splitStartLine_eq rest
  obtain ⟨h1, h2, h3⟩ := bytes_startLine hsplit
  have hlen := head.length_encode
  have hstart : startLineLength head.first head.second head.third =
      head.first.length + 1 + (head.second.length + 1) + (head.third.length + 2) := rfl
  obtain ⟨hfind, ⟨k, hk, hle⟩, hbody, hptr⟩ :=
    splitHeadersAndBody_received lib hwf hbare (bytes_tail_startLine hsplit)
  refine ⟨_, httpResponseParse_eq lib response hsplit, h1, h2, h3, fun name => ?_, fun s hs => ?_,
    hbody, fun hne => ?_⟩
  · dsimp only
    by_cases hname : name.isEmpty = true
    · simp [httpHeadersFind, hname, Except.map]
    · rw [if_neg hname]
      exact hfind name (Span.isEmpty_eq_false_iff.mp (by simpa using hname))
  · dsimp only at hs
    rw [buffer_httpHeadersParse, hk, Span.sub_tail] at hs
    simp only [List.mem_cons, List.not_mem_nil, or_false] at hs
    rcases hs with rfl | rfl | rfl | rfl <;> exact ⟨_, _, rfl, by omega⟩
  · rw [hptr hne, Span.ptr_tail]
    omega

variable {lib} {received : Span} {parsed : HttpResponse} {ptr n : Nat} {mem mem' : Bytes}

/-- The framing is read off the code and what the lookups answer. -/
theorem determineResponseBodyFraming_eq {response : HttpResponse}
    (hcode : response.code.bytes = head.second)
    (hfind : ∀ name : Span, name.bytes ≠ [] →
      (httpHeadersFind lib response.headers name).map Span.bytes =
        (lookup head.fields name.bytes).elim (.error .notFound) .ok) (c : HttpConnection) :
    determineResponseBodyFraming lib c response =
      declaredFraming lib c.awaitingResponseToHead head := by
  have hcl := hfind HTTP_HEADER_CONTENT_LENGTH (by decide)
  have hte := hfind HTTP_HEADER_TRANSFER_ENCODING (by decide)
  have hsize : response.code.size = head.second.length := congrArg List.length hcode
  rw [HttpC.determineResponseBodyFraming, declaredFraming, hsize,
    lib.spanToUInt32_congr response.code ⟨0, head.second⟩ hcode]
  split_ifs
  · rfl
  · cases lib.spanToUInt32 ⟨0, head.second⟩ with
    | none => rfl
    | some status =>
      dsimp only
      split_ifs
      · rfl
      · cases hlookup : lookup head.fields HTTP_HEADER_CONTENT_LENGTH.bytes with
        | some v =>
          obtain ⟨value, hvalue, hbytes⟩ := except_map_elim_some hcl hlookup
          rw [hvalue]
          dsimp only
          rw [lib.spanToUInt32_congr value ⟨0, v⟩ hbytes]
          cases lib.spanToUInt32 ⟨0, v⟩ <;> rfl
        | none =>
          rw [except_map_elim_none hcl hlookup]
          dsimp only
          cases hlookup' : lookup head.fields HTTP_HEADER_TRANSFER_ENCODING.bytes with
          | some v =>
            obtain ⟨value, hvalue, hbytes⟩ := except_map_elim_some hte hlookup'
            rw [hvalue]
            dsimp only
            rw [hbytes]
          | none => rw [except_map_elim_none hte hlookup']

theorem HeadParsed.determineResponseBodyFraming (h : HeadParsed lib head received rest parsed)
    (c : HttpConnection) (body : Span) :
    determineResponseBodyFraming lib c { parsed with body } =
      declaredFraming lib c.awaitingResponseToHead head := by
  refine determineResponseBodyFraming_eq h.code (fun name hname => ?_) c
  rw [h.answers name, if_neg (by simpa using Span.isEmpty_eq_false_iff.mpr hname)]

theorem httpHeadersFind_reread {headers : HttpHeaders}
    (h : headers.buffer.reread ptr mem = headers.buffer) (name : Span) :
    httpHeadersFind lib (headers.reread ptr mem) name = httpHeadersFind lib headers name := by
  rw [httpHeadersFind, httpHeadersFind, HttpHeaders.reread, h]

/-- What the body is stored behind, the head keeps. -/
theorem HeadParsed.reread (h : HeadParsed lib head ⟨ptr, mem.take n⟩ rest parsed)
    (hn : head.encode.length ≤ n) (hmem : n ≤ mem.length)
    (hbelow : mem'.take head.encode.length = mem.take head.encode.length) :
    parsed.httpVersion.reread ptr mem' = parsed.httpVersion ∧
      parsed.code.reread ptr mem' = parsed.code ∧
      parsed.reasonPhrase.reread ptr mem' = parsed.reasonPhrase ∧
      parsed.headers.buffer.reread ptr mem' = parsed.headers.buffer := by
  have hkeeps : ∀ s ∈ [parsed.httpVersion, parsed.code, parsed.reasonPhrase, parsed.headers.buffer],
      s.reread ptr mem' = s := by
    intro s hs
    obtain ⟨i, k, rfl, hle⟩ := h.within s hs
    exact (Span.below_sub hle hn hmem).reread_eq hbelow
  exact ⟨hkeeps _ (by simp), hkeeps _ (by simp), hkeeps _ (by simp), hkeeps _ (by simp)⟩

end

/-- The stored body, after the last store into it. -/
theorem bytes_reread_stored (ptr : Nat) (mem : Bytes) (i n : Nat) :
    ((if 0 < n then spanAt ptr mem i n else .empty : Span).reread ptr mem).bytes =
      window mem i n := by
  split_ifs with hpos
  · rw [Span.reread, spanAt, Nat.add_sub_cancel_left]
    simp only [window, Span.size, List.length_take, List.take_eq_take_iff, List.length_drop]
    omega
  · obtain rfl : n = 0 := by omega
    simp [Span.reread, Span.empty, Span.size]

/-! ## The stages of a call that succeeds -/

section

variable (lib : CommonLib) (bodyHandler : Option BodyHandler) (ptr : Nat)

/-- A response whose body has been taken out. -/
def HttpResponse.headOnly (response : HttpResponse) : HttpResponse :=
  { response with body := .empty }

/-- Where the window of the body begins. -/
def windowStart (prefetched : Span) (w : Receiver) : Nat :=
  if prefetched.isEmpty then w.filled else prefetched.ptr - ptr

/-- How a call comes to its end without an error. -/
structure Stages (mem : Bytes) (c : HttpConnection) (response : HttpResponse) (w : Receiver)
    (parsed : HttpResponse) (framing : ResponseBodyFraming) (r : BodyReader) : Prop where
  head : readUntilHeadersComplete lib ptr mem c.wire = some (.ok, w)
  parse : httpResponseParse lib response ⟨ptr, w.received⟩ = (.ok, parsed)
  declared :
    determineResponseBodyFraming lib { c with wire := w.wire } parsed.headOnly = some framing
  body : readResponseBody lib bodyHandler (windowStart ptr parsed.body w)
    (parsed.body.size + (mem.length - w.filled)) (.opened w.mem w.wire parsed.body.size) framing =
      some (.ok, r)

/-- What the call returns then. -/
theorem Stages.receiveResponse_eq {lib : CommonLib} {bodyHandler : Option BodyHandler} {ptr : Nat}
    {mem : Bytes} {c : HttpConnection} {response : HttpResponse} {w : Receiver}
    {parsed : HttpResponse} {framing : ResponseBodyFraming} {r : BodyReader}
    (h : Stages lib bodyHandler ptr mem c response w parsed framing r) :
    ∃ o, receiveResponse lib bodyHandler ptr mem c response = some o ∧ o.result = .ok ∧
      o.response = ({ parsed with
        body := if bodyHandler.isNone ∧ 0 < r.storedLength
          then spanAt ptr r.mem (windowStart ptr parsed.body w) r.storedLength
          else .empty } : HttpResponse).reread ptr r.mem ∧
      o.connection = ⟨r.wire,
        if parsed.code.bytes.head? ≠ some 49 then false else c.awaitingResponseToHead⟩ := by
  have hbody := h.body
  have hdeclared := h.declared
  rw [windowStart] at hbody
  rw [HttpResponse.headOnly] at hdeclared
  rw [receiveResponse, h.head]
  simp only [CommonLib.isError_ok, Bool.false_eq_true, if_false, reduceCtorEq, or_self, h.parse,
    hdeclared, hbody]
  refine ⟨_, rfl, rfl, rfl, ?_⟩
  split_ifs <;> rfl

end

/-! ## A response that is received -/

section

variable (lib : CommonLib) {buffer capacity : Nat} {below rest : Bytes} {orderly : Bool}
  {body : ResponseBody} {framing : ResponseBodyFraming} {r : BodyReader}

/-- A body that fits the window is decoded. Only the end of the stream ends a body without a
length, and it is seen only with room for more. -/
theorem Reading.responseBody (h : Reading buffer capacity below orderly (body.encode ++ rest) r)
    (hframed : body.HasFraming framing) (hroom : r.storedLength + body.encode.length ≤ capacity)
    (hend : framing = .untilClose →
      orderly = true ∧ rest = [] ∧ r.storedLength + body.encode.length < capacity) :
    ∃ r', readResponseBody lib none buffer capacity r framing = some (.ok, r') ∧
      r'.mem.take buffer = below ∧ Passed none buffer capacity body.decoded r r' ∧
      (framing ≠ .untilClose → Reading buffer capacity below orderly rest r') := by
  have hok : ∀ handler ∈ (none : Option BodyHandler), ∀ pieces,
      lib.isError (handler pieces) = false := by simp
  cases body with
  | empty =>
    cases framing <;> try exact hframed.elim
    exact ⟨r, rfl, h.below, Kept.refl.passed, fun _ => h⟩
  | counted bytes =>
    cases framing <;> try exact hframed.elim
    obtain rfl := hframed
    simp only [ResponseBody.encode] at h hroom
    obtain ⟨result, r', hrun, ⟨-, rfl, hr', hpassed⟩ | ⟨-, hstuck⟩⟩ :=
      h.passThrough_cases lib hok bytes.length
    · rw [List.take_left] at hpassed
      rw [List.drop_left] at hr'
      exact ⟨r', hrun, hr'.below, hpassed, fun _ => hr'⟩
    · rw [List.length_append] at hstuck
      simp only [storedBy] at hstuck
      omega
  | chunked stream =>
    cases framing <;> try exact hframed.elim
    simp only [ResponseBody.encode] at h hroom
    obtain ⟨r', hrun, hr', hpassed⟩ := h.chunked lib hok hframed fun l hl => by
      have hle := ChunkStream.length_line_le hl
      simp only [storedBy]
      omega
    exact ⟨r', hrun, hr'.below, hpassed, fun _ => hr'⟩
  | untilClose bytes =>
    cases framing <;> try exact hframed.elim
    obtain ⟨horderly, rfl, hmore⟩ := hend rfl
    simp only [ResponseBody.encode, List.append_nil] at h hmore
    obtain ⟨result, r', hrun, ⟨rfl, -, hbelow, hpassed, -⟩ | ⟨-, hstuck⟩⟩ :=
      h.untilClose_cases lib hok
    · exact ⟨r', hrun, hbelow, hpassed, fun hne => absurd rfl hne⟩
    · rw [horderly] at hstuck
      simp only [storedBy, Bool.true_eq_false, false_or] at hstuck
      omega

end

section

variable {lib : CommonLib} {ptr : Nat} {mem : Bytes} {c : HttpConnection} {response : HttpResponse}
  {head : MessageHead} {m : ResponseMessage} {rest : Bytes} {w : Receiver}

/-- The window may begin anywhere in what has been received. -/
theorem Receiver.opened (hw : w.filled ≤ w.mem.length) {start : Nat} (hstart : start ≤ w.filled) :
    Reading start (w.mem.length - start) (w.mem.take start) (endsOrderly w.wire)
      (w.image.drop start) (.opened w.mem w.wire (w.filled - start)) := by
  have hopened := @Reading.opened start (w.mem.length - start) w.mem w.wire (w.filled - start)
    (by omega) (by omega)
  have hahead : Block.window w.mem start (w.filled - start) ++ arriving w.wire =
      w.image.drop start := by
    rw [Receiver.image, List.drop_append_of_le_length
      (by rw [Receiver.length_received hw]; exact hstart), Receiver.received, List.drop_take]
    rfl
  rwa [hahead] at hopened

/-- How much of what is behind a start line the parser takes for the header block, with its blank
line. -/
def blockLength (behind : Bytes) : Nat :=
  match cut? headersTerminator.bytes behind with
  | some (before, _) => before.length + 4
  | none => behind.length

/-- It begins behind the blank line that the parser finds, or behind everything. -/
theorem windowStart_parts (lib : CommonLib) (ptr : Nat) (hw : w.filled ≤ w.mem.length) {n : Nat}
    (hn : n ≤ w.filled) :
    let parts := splitHeadersAndBody lib ((⟨ptr, w.received⟩ : Span).tail n)
    ∃ start, start = n + blockLength (w.received.drop n) ∧ (start = w.filled ∨ n + 4 ≤ start) ∧
      start ≤ w.filled ∧ windowStart ptr parts.2 w = start ∧ parts.2.size = w.filled - start ∧
      ∃ k, parts.1 = (⟨ptr, w.received⟩ : Span).sub n k ∧ n + k ≤ start := by
  have hsize : w.received.length = w.filled := Receiver.length_received hw
  cases hcut : cut? headersTerminator.bytes ((⟨ptr, w.received⟩ : Span).tail n).bytes with
  | none =>
    rw [splitHeadersAndBody_no_blank lib hcut]
    refine ⟨w.filled, ?_, .inl rfl, Nat.le_refl _, rfl, (Nat.sub_self _).symm, w.filled - n, ?_,
      by omega⟩
    · rw [Span.bytes_tail] at hcut
      rw [blockLength, hcut]
      dsimp only
      rw [List.length_drop, hsize]
      omega
    rw [Span.tail, Span.sub, List.take_of_length_le (by rw [List.length_drop, hsize])]
  | some parts =>
    obtain ⟨before, after⟩ := parts
    have hoccurs := congrArg List.length (cut?_eq_some.mp hcut).1
    have hterminator : headersTerminator.bytes.length = 4 := by decide
    rw [splitHeadersAndBody_blank lib hcut, Span.tail_tail]
    rw [Span.bytes_tail, List.length_drop, List.length_append, List.length_append, hterminator,
      hsize] at hoccurs
    rw [Span.bytes_tail] at hcut
    refine ⟨n + (before.length + 4), by rw [blockLength, hcut], .inr (by omega), by omega, ?_, ?_,
      before.length + 2, by rw [Span.sub_tail, Nat.add_zero], by omega⟩
    · dsimp only
      rw [windowStart, Span.ptr_tail, Nat.add_sub_cancel_left]
      split_ifs with hempty
      · have hzero := congrArg List.length (Span.isEmpty_iff.mp hempty)
        rw [Span.bytes_tail, List.length_drop, List.length_nil, hsize] at hzero
        omega
      · rfl
    · rw [Span.size, Span.bytes_tail, List.length_drop, hsize]

/-- Where the head ends, the window begins. -/
theorem HeadRead.bodyWindow (h : HeadRead mem c.wire head w) (hwf : head.WellFormed)
    (hstream : arriving c.wire = head.encode ++ rest)
    (hcut : head.fields = [] → head.encode.length ∈ cutsFrom 0 c.wire) (response : HttpResponse) :
    ∃ parsed, httpResponseParse lib response ⟨ptr, w.received⟩ = (.ok, parsed) ∧
      (∃ behind, HeadParsed lib head ⟨ptr, w.received⟩ behind parsed) ∧
      windowStart ptr parsed.body w = head.encode.length ∧
      parsed.body.size + (mem.length - w.filled) = mem.length - head.encode.length ∧
      Reading head.encode.length (mem.length - head.encode.length) (w.mem.take head.encode.length)
        (endsOrderly c.wire) rest (.opened w.mem w.wire parsed.body.size) := by
  have hle := h.le
  have hle_mem := h.le_mem
  have hmem := h.length_mem
  have hfilled := h.filled_le
  rw [hstream, List.length_append] at hfilled
  have hreceived := h.received_eq
  rw [hstream, List.take_append, List.take_of_length_le hle] at hreceived
  have hbare : head.fields = [] → rest.take (w.filled - head.encode.length) = [] := by
    intro hfields
    have hnot : ¬ head.encode.length < w.filled := fun hlt =>
      absurd (h.first _ (hcut hfields) hlt) (Nat.lt_irrefl _)
    rw [Nat.sub_eq_zero_of_le (Nat.not_lt.mp hnot), List.take_zero]
  obtain ⟨parsed, hparse, hparsed⟩ := @httpResponseParse_received lib head _ hwf hbare response
    ⟨ptr, w.received⟩ hreceived
  have hbody := hparsed.body
  have hsize : parsed.body.size = w.filled - head.encode.length := by
    rw [Span.size, hbody, List.length_take]
    omega
  refine ⟨parsed, hparse, ⟨_, hparsed⟩, ?_, by omega, ?_⟩
  · rw [windowStart]
    split_ifs with hempty
    · have hzero : parsed.body.size = 0 := by simpa [Span.isEmpty] using hempty
      omega
    · rw [hparsed.bodyPtr fun hnil => hempty (Span.isEmpty_iff.mpr (hbody.trans hnil)),
        Nat.add_sub_cancel_left]
  · have hopened := Receiver.opened (w := w) (by omega) hle
    rwa [h.image, h.orderly, hmem, hstream, List.drop_left, ← hsize] at hopened

/-- A response is received as it was sent, if it has a field line or a read ends behind its
head. -/
theorem ResponseMessage.WellFormed.stages (hwf : m.WellFormed lib c.awaitingResponseToHead)
    (hstream : arriving c.wire = m.encode ++ rest) (hroom : m.encode.length ≤ mem.length)
    (hend : declaredFraming lib c.awaitingResponseToHead m.head = some .untilClose →
      endsOrderly c.wire = true ∧ rest = [] ∧ m.encode.length < mem.length)
    (hcut : m.head.fields = [] → m.head.encode.length ∈ cutsFrom 0 c.wire)
    (response : HttpResponse) :
    ∃ w parsed framing r, Stages lib none ptr mem c response w parsed framing r ∧
      declaredFraming lib c.awaitingResponseToHead m.head = some framing ∧
      parsed.code.bytes = m.head.second ∧
      (framing ≠ .untilClose → Reading m.head.encode.length (mem.length - m.head.encode.length)
        (w.mem.take m.head.encode.length) (endsOrderly c.wire) rest r) ∧
      ∀ o, receiveResponse lib none ptr mem c response = some o → m.ReceivedBy lib o := by
  obtain ⟨framing, hdeclared, hframed⟩ := hwf.framed
  have hlength : m.encode.length = m.head.encode.length + m.body.encode.length := by
    rw [ResponseMessage.encode, List.length_append]
  rw [ResponseMessage.encode, List.append_assoc] at hstream
  obtain ⟨hsmall, -⟩ | ⟨w, hhead, hread⟩ :=
    readUntilHeadersComplete_spec lib ptr mem hwf.head hstream
  · omega
  obtain ⟨parsed, hparse, ⟨behind, hparsed⟩, hstart, hcapacity, hreading⟩ :=
    @HeadRead.bodyWindow lib ptr mem c m.head _ w hread hwf.head hstream hcut response
  obtain ⟨r, hbody, hbelow, hpassed, hrest⟩ := hreading.responseBody lib hframed
    (by simp only [BodyReader.opened]; omega) fun huntil => by
      obtain ⟨horderly, hrest, hlt⟩ := hend (huntil ▸ hdeclared)
      exact ⟨horderly, hrest, by simp only [BodyReader.opened]; omega⟩
  have hstages : Stages lib none ptr mem c response w parsed framing r :=
    ⟨hhead, hparse, (hparsed.determineResponseBodyFraming _ _).trans hdeclared, by
      rw [hstart, hcapacity]; exact hbody⟩
  refine ⟨w, parsed, framing, r, hstages, hdeclared, hparsed.code, hrest, fun o ho => ?_⟩
  obtain ⟨o', ho', hresult, hresponse, -⟩ := hstages.receiveResponse_eq
  obtain rfl := Option.some.inj (ho'.symm.trans ho)
  obtain ⟨h1, h2, h3, h4⟩ := hparsed.reread hread.le (hread.length_mem ▸ hread.le_mem) hbelow
  have hstored := hpassed.storedLength
  have hdecoded := hpassed.body
  simp only [BodyReader.opened, storedBy, Nat.zero_add] at hstored
  simp only [BodyReader.body, BodyReader.stored, BodyReader.opened, window_zero_length,
    List.nil_append] at hdecoded
  rw [hstart] at hresponse
  refine ⟨hresult, ?_, ?_, ?_, fun name => ?_, ?_⟩
  · rw [hresponse]
    exact (congrArg Span.bytes h1).trans hparsed.httpVersion
  · rw [hresponse]
    exact (congrArg Span.bytes h2).trans hparsed.code
  · rw [hresponse]
    exact (congrArg Span.bytes h3).trans hparsed.reasonPhrase
  · rw [hresponse, ResponseMessage.answer, ← hparsed.answers name]
    exact congrArg _ (httpHeadersFind_reread h4 name)
  · rw [hresponse, ← hdecoded]
    simp only [HttpResponse.reread, Option.isNone_none, true_and]
    exact bytes_reread_stored _ _ _ _

/-! ## A head without a field line -/

variable (lib) in
/-- Whatever the framing, the body is no longer than what is left of the stream, and what is
before the window stays. -/
theorem Reading.responseBody_le {buffer capacity : Nat} {below input : Bytes} {orderly : Bool}
    {r : BodyReader} (h : Reading buffer capacity below orderly input r)
    (framing : ResponseBodyFraming) :
    ∃ result r', readResponseBody lib none buffer capacity r framing = some (result, r') ∧
      (lib.isError result = true ∨ result = .ok ∧ r'.mem.take buffer = below ∧
        ∃ bytes : Bytes, bytes.length ≤ input.length ∧ Passed none buffer capacity bytes r r') := by
  have hok : ∀ handler ∈ (none : Option BodyHandler), ∀ pieces,
      lib.isError (handler pieces) = false := by simp
  cases framing with
  | none => exact ⟨.ok, r, rfl, .inr ⟨rfl, h.below, [], Nat.zero_le _, Kept.refl.passed⟩⟩
  | contentLength n =>
    obtain ⟨result, r', hrun, ⟨-, rfl, hr', hpassed⟩ | ⟨rfl, -⟩⟩ := h.passThrough_cases lib hok n
    · exact ⟨.ok, r', hrun, .inr ⟨rfl, hr'.below, _, by rw [List.length_take]; omega, hpassed⟩⟩
    · exact ⟨_, r', hrun, .inl (isError_shortage lib _ _)⟩
  | chunked =>
    obtain ⟨result, r', hrun, herror | ⟨rfl, stream, rest, -, rfl, -, hr', hpassed⟩⟩ :=
      h.chunked_cases lib hok
    · exact ⟨result, r', hrun, .inl herror⟩
    · have hlen := stream.length_encode
      exact ⟨.ok, r', hrun, .inr ⟨rfl, hr'.below, _, by rw [List.length_append]; omega, hpassed⟩⟩
  | untilClose =>
    obtain ⟨result, r', hrun, ⟨rfl, -, hbelow, hpassed, -⟩ | ⟨herror, -⟩⟩ :=
      h.untilClose_cases lib hok
    · exact ⟨.ok, r', hrun, .inr ⟨rfl, hbelow, _, Nat.le_refl _, hpassed⟩⟩
    · exact ⟨result, r', hrun, .inl herror⟩

/-- A call that has found a start line fails, or goes through all its stages. The body is taken
from behind the blank line that the parser finds, or from behind everything. -/
theorem receiveResponse_startLine {first second third fields : Bytes}
    (hhead : readUntilHeadersComplete lib ptr mem c.wire = some (.ok, w))
    (hmem : w.mem.length = mem.length) (hfilled : w.filled ≤ mem.length)
    (hsplit : splitStartLine w.received = some (first, second, third, fields))
    {o : ResponseReceipt} (ho : receiveResponse lib none ptr mem c response = some o) :
    ∃ parsed start, httpResponseParse lib response ⟨ptr, w.received⟩ = (.ok, parsed) ∧
      (start = w.filled ∨ startLineLength first second third + 4 ≤ start) ∧ start ≤ w.filled ∧
      (lib.isError o.result = true ∧ o.response.body.bytes = [] ∨
        ∃ framing r, Stages lib none ptr mem c response w parsed framing r ∧
          r.mem.take start = w.mem.take start ∧
          o.response.body.bytes.length ≤ (w.image.drop start).length) := by
  have hlength := length_splitStartLine hsplit
  rw [Receiver.length_received (hmem ▸ hfilled)] at hlength
  obtain ⟨start, -, hbehind, hstart, hwindow, hsize, -⟩ := windowStart_parts lib ptr
    (hmem ▸ hfilled) (show startLineLength first second third ≤ w.filled by omega)
  have hnone : ∀ mem', (Span.empty.reread ptr mem').bytes = [] := by
    simp [Span.reread, Span.empty, Span.size]
  obtain ⟨parsed, hparse, hbody⟩ : ∃ parsed,
      httpResponseParse lib response ⟨ptr, w.received⟩ = (.ok, parsed) ∧
      parsed.body = (splitHeadersAndBody lib ((⟨ptr, w.received⟩ : Span).tail
        (startLineLength first second third))).2 :=
    ⟨_, httpResponseParse_eq lib response hsplit, rfl⟩
  rw [← hbody] at hwindow hsize
  refine ⟨parsed, start, hparse, hbehind, hstart, ?_⟩
  have hwhole := ho
  rw [receiveResponse, hhead] at ho
  simp only [CommonLib.isError_ok, Bool.false_eq_true, if_false, reduceCtorEq, or_self,
    hparse] at ho
  cases hframing : determineResponseBodyFraming lib { c with wire := w.wire } parsed.headOnly with
  | none =>
    rw [HttpResponse.headOnly] at hframing
    simp only [hframing, Option.some.injEq] at ho
    exact .inl (by simp [← ho, Span.empty])
  | some framing =>
    obtain ⟨result, r, hrun, hcases⟩ :=
      (Receiver.opened (hmem ▸ hfilled) hstart).responseBody_le lib framing
    have hcapacity : parsed.body.size + (mem.length - w.filled) = w.mem.length - start := by omega
    have hstage : readResponseBody lib none (windowStart ptr parsed.body w)
        (parsed.body.size + (mem.length - w.filled))
        (.opened w.mem w.wire parsed.body.size) framing = some (result, r) := by
      rw [hcapacity, hwindow, hsize]
      exact hrun
    rcases hcases with herror | ⟨rfl, hbelow, bytes, hbytes, hpassed⟩
    · rw [HttpResponse.headOnly] at hframing
      rw [windowStart] at hstage
      simp only [hframing, hstage, herror, if_true, Option.some.injEq] at ho
      rw [← ho]
      exact .inl ⟨herror, hnone r.mem⟩
    · have hstages : Stages lib none ptr mem c response w parsed framing r :=
        ⟨hhead, hparse, hframing, hstage⟩
      obtain ⟨o', ho', -, hresponse, -⟩ := hstages.receiveResponse_eq
      obtain rfl := Option.some.inj (ho'.symm.trans hwhole)
      refine .inr ⟨framing, r, hstages, hbelow, ?_⟩
      have hstored := hpassed.body
      simp only [BodyReader.body, BodyReader.stored, BodyReader.opened, window_zero_length,
        List.nil_append] at hstored
      rw [hresponse, hwindow]
      simp only [HttpResponse.reread, Option.isNone_none, true_and, bytes_reread_stored, hstored]
      exact hbytes

/-- The body of a response without a field line loses what was read along with the head. -/
theorem receiveResponse_bare (hwf : head.WellFormed) (hfields : head.fields = [])
    (hstream : arriving c.wire = head.encode ++ rest) (hroom : head.encode.length < mem.length)
    (hcut : head.encode.length ∉ cutsFrom 0 c.wire) {o : ResponseReceipt}
    (ho : receiveResponse lib none ptr mem c response = some o) :
    o.response.body.bytes.length < rest.length := by
  obtain ⟨hsmall, -⟩ | ⟨w, hhead, hread⟩ := readUntilHeadersComplete_spec lib ptr mem hwf hstream
  · omega
  have hlt : head.encode.length < w.filled := by
    refine lt_of_le_of_ne hread.le fun heq => ?_
    rcases hread.cuts _ (mem_cutsFrom w.filled w.wire) with hmem | hmem
    · exact hcut (heq ▸ hmem)
    · omega
  have hreceived := hread.received_eq
  rw [hstream, List.take_append, List.take_of_length_le hread.le] at hreceived
  have hsplit := hwf.splitStartLine_eq (rest.take (w.filled - head.encode.length))
  rw [← hreceived] at hsplit
  have hlen := head.length_encode
  have hblock : head.fieldBlock = [] := by simp [MessageHead.fieldBlock, hfields]
  rw [hblock, List.length_nil] at hlen
  have hfilled := hread.filled_le
  rw [hstream, List.length_append] at hfilled
  obtain ⟨-, start, -, hbehind, -, ⟨-, hempty⟩ | ⟨-, -, -, -, hle⟩⟩ :=
    receiveResponse_startLine hhead hread.length_mem hread.le_mem hsplit ho
  · rw [hempty, List.length_nil]
    omega
  · rw [hread.image, hstream, List.length_drop, List.length_append] at hle
    omega

end

/-! ## Splitting a response into reads -/

/-- The same result, start line, lookups and body. -/
structure SameReceipt (lib : CommonLib) (o o' : ResponseReceipt) : Prop where
  result : o.result = o'.result
  httpVersion : o.response.httpVersion.bytes = o'.response.httpVersion.bytes
  code : o.response.code.bytes = o'.response.code.bytes
  reasonPhrase : o.response.reasonPhrase.bytes = o'.response.reasonPhrase.bytes
  headers : ∀ name, (httpHeadersFind lib o.response.headers name).map Span.bytes =
    (httpHeadersFind lib o'.response.headers name).map Span.bytes
  body : o.response.body.bytes = o'.response.body.bytes

namespace ResponseMessage

variable {lib : CommonLib} {awaiting : Bool} {m : ResponseMessage} {o o' : ResponseReceipt}

theorem ReceivedBy.same (h : m.ReceivedBy lib o) (h' : m.ReceivedBy lib o') :
    SameReceipt lib o o' where
  result := h.result.trans h'.result.symm
  httpVersion := h.httpVersion.trans h'.httpVersion.symm
  code := h.code.trans h'.code.symm
  reasonPhrase := h.reasonPhrase.trans h'.reasonPhrase.symm
  headers name := (h.headers name).trans (h'.headers name).symm
  body := h.body.trans h'.body.symm

/-- Without a field line, a length or chunks are not declared. -/
theorem declaredFraming_bare {head : MessageHead} {framing : ResponseBodyFraming}
    (h : declaredFraming lib awaiting head = some framing) (hfields : head.fields = []) :
    framing = .none ∨ framing = .untilClose := by
  rw [declaredFraming, hfields] at h
  simp only [lookup_nil] at h
  split at h
  · cases h
  · split at h
    · cases h
    · split at h
      · exact .inl (Option.some.inj h).symm
      · exact .inr (Option.some.inj h).symm

theorem WellFormed.encode_body (hwf : m.WellFormed lib awaiting) (hfields : m.head.fields = []) :
    m.body.encode = m.body.decoded := by
  obtain ⟨framing, hdeclared, hframed⟩ := hwf.framed
  cases hbody : m.body with
  | empty | counted bytes | untilClose bytes => rfl
  | chunked stream =>
    rw [hbody] at hframed
    rcases declaredFraming_bare hdeclared hfields with rfl | rfl <;> exact hframed.elim

/-- A head without a field line is the whole response, unless the stream ends it. -/
theorem WellFormed.encode_bare (hwf : m.WellFormed lib awaiting) (hfields : m.head.fields = [])
    (hself : declaredFraming lib awaiting m.head ≠ some .untilClose) :
    m.encode = m.head.encode := by
  obtain ⟨framing, hdeclared, hframed⟩ := hwf.framed
  rcases declaredFraming_bare hdeclared hfields with rfl | rfl
  · cases hbody : m.body with
    | empty => rw [ResponseMessage.encode, hbody, ResponseBody.encode, List.append_nil]
    | counted _ | chunked _ | untilClose _ =>
      rw [hbody] at hframed
      exact hframed.elim
  · exact absurd hdeclared hself

end ResponseMessage

/-- Two ways of splitting a response into reads give the same, and the body that was sent,
exactly if the response has a field line or in both a read ends behind its head. -/
theorem response_split_iff (lib : CommonLib) (ptr : Nat) {mem : Bytes} (response : HttpResponse)
    {awaiting : Bool} {m : ResponseMessage} (hwf : m.WellFormed lib awaiting) {wire wire' : Wire}
    (hstream : arriving wire = m.encode) (hstream' : arriving wire' = m.encode)
    (hend : declaredFraming lib awaiting m.head = some .untilClose →
      endsOrderly wire = true ∧ endsOrderly wire' = true)
    (hroom : m.encode.length < mem.length) :
    (∃ o o', receiveResponse lib none ptr mem ⟨wire, awaiting⟩ response = some o ∧
      receiveResponse lib none ptr mem ⟨wire', awaiting⟩ response = some o' ∧
      SameReceipt lib o o' ∧ o.response.body.bytes = m.body.decoded) ↔
    (m.head.fields = [] →
      m.head.encode.length ∈ cutsFrom 0 wire ∧ m.head.encode.length ∈ cutsFrom 0 wire') := by
  constructor
  · rintro ⟨o, o', ho, ho', hsame, hdecoded⟩ hfields
    have hsmall : m.head.encode.length < mem.length := by
      rw [ResponseMessage.encode, List.length_append] at hroom
      omega
    have hlost : ∀ wire o, arriving wire = m.encode →
        receiveResponse lib none ptr mem ⟨wire, awaiting⟩ response = some o →
        o.response.body.bytes = m.body.decoded → m.head.encode.length ∈ cutsFrom 0 wire := by
      intro wire o hstream ho hbody
      by_contra hcut
      have hlt := @receiveResponse_bare lib ptr mem ⟨wire, awaiting⟩ response m.head m.body.encode
        hwf.head hfields hstream hsmall hcut o ho
      rw [hbody, hwf.encode_body hfields] at hlt
      exact Nat.lt_irrefl _ hlt
    exact ⟨hlost wire o hstream ho hdecoded, hlost wire' o' hstream' ho' (hsame.body ▸ hdecoded)⟩
  · intro hcut
    have hreceived : ∀ wire, arriving wire = m.encode →
        (declaredFraming lib awaiting m.head = some .untilClose → endsOrderly wire = true) →
        (m.head.fields = [] → m.head.encode.length ∈ cutsFrom 0 wire) →
        ∃ o, receiveResponse lib none ptr mem ⟨wire, awaiting⟩ response = some o ∧
          m.ReceivedBy lib o := by
      intro wire hstream hend hcut
      obtain ⟨w, parsed, framing, r, hstages, -, -, -, hall⟩ :=
        @ResponseMessage.WellFormed.stages lib ptr mem ⟨wire, awaiting⟩ m [] hwf
          (hstream.trans (List.append_nil _).symm) hroom.le
          (fun huntil => ⟨hend huntil, rfl, hroom⟩) hcut
          response
      obtain ⟨o, ho, -⟩ := hstages.receiveResponse_eq
      exact ⟨o, ho, hall o ho⟩
    obtain ⟨o, ho, hby⟩ := hreceived wire hstream (fun huntil => (hend huntil).1)
      fun hfields => (hcut hfields).1
    obtain ⟨o', ho', hby'⟩ := hreceived wire' hstream' (fun huntil => (hend huntil).2)
      fun hfields => (hcut hfields).2
    exact ⟨o, o', ho, ho', hby.same hby', hby.body⟩

/-- A response with a field line and a body. -/
def threeBytes : ResponseMessage :=
  ⟨⟨ascii "HTTP/1.1", ascii "200", ascii "OK", [ascii "Content-Length: 3"]⟩, .counted (ascii "abc")⟩

theorem threeBytes_wellFormed : threeBytes.WellFormed .reference false where
  head :=
    { first := by decide +kernel
      second := by decide +kernel
      startLine := by decide +kernel
      fields := by decide +kernel }
  framed := ⟨.contentLength 3, by decide +kernel, rfl⟩

/-- In one read, and with the blank line and the body in two. -/
theorem response_split_twice :
    let wire : Wire := [.data threeBytes.encode]
    let wire' : Wire := [.data (threeBytes.encode.take 37), .tryAgain false,
      .data (threeBytes.encode.drop 37)]
    ∃ o o',
      receiveResponse .reference none 1000 (List.replicate 64 0) ⟨wire, false⟩ .zero = some o ∧
      receiveResponse .reference none 1000 (List.replicate 64 0) ⟨wire', false⟩ .zero = some o' ∧
      SameReceipt .reference o o' ∧ o.response.body.bytes = ascii "abc" :=
  (response_split_iff .reference 1000 .zero threeBytes_wellFormed (by decide +kernel)
    (by decide +kernel) (by decide +kernel) (by decide +kernel)).mpr (by decide)

/-- A response without a field line, up to the end of the stream. -/
def bareResponse : ResponseMessage :=
  ⟨⟨ascii "HTTP/1.1", ascii "200", ascii "OK", []⟩, .untilClose (ascii "abc")⟩

theorem bareResponse_wellFormed : bareResponse.WellFormed .reference false where
  head :=
    { first := by decide +kernel
      second := by decide +kernel
      startLine := by decide +kernel
      fields := by decide +kernel }
  framed := ⟨.untilClose, by decide +kernel, trivial⟩

/-- In one read its body is lost. -/
theorem response_split_loses :
    ¬ ∀ (lib : CommonLib) (ptr : Nat) (mem : Bytes) (response : HttpResponse) (awaiting : Bool)
      (m : ResponseMessage) (wire wire' : Wire), m.WellFormed lib awaiting →
      arriving wire = m.encode → arriving wire' = m.encode →
      (declaredFraming lib awaiting m.head = some .untilClose →
        endsOrderly wire = true ∧ endsOrderly wire' = true) →
      m.encode.length < mem.length →
      ∃ o o', receiveResponse lib none ptr mem ⟨wire, awaiting⟩ response = some o ∧
        receiveResponse lib none ptr mem ⟨wire', awaiting⟩ response = some o' ∧
        SameReceipt lib o o' ∧ o.response.body.bytes = m.body.decoded := by
  intro h
  obtain ⟨o, -, ho, -, -, hbody⟩ := h .reference 1000 (List.replicate 64 0) .zero false bareResponse
    [.data bareResponse.encode] [.data bareResponse.head.encode, .data (ascii "abc")]
    bareResponse_wellFormed (by decide +kernel) (by decide +kernel) (by decide +kernel)
    (by decide +kernel)
  have hlost : (receiveResponse .reference none 1000 (List.replicate 64 0)
      ⟨[.data bareResponse.encode], false⟩ .zero).map (fun o => o.response.body.bytes) =
        some [] := by decide +kernel
  rw [ho, Option.map_some, hbody] at hlost
  exact absurd hlost (by decide)

end HttpC
