import HttpC.MessageHead
import HttpC.RequestSequence
import HttpC.HeaderBuilding

/-!
# Messages that were serialised

A header block is built by `http_headers_add` calls, a message is written by
`http_request_serialize_to` or `http_response_serialize_to`. The bytes are a `MessageHead`
and the body, which both the message parsers and the server's parser are given to read.

## Main results

* `serializedRequest_eq`, `serializedResponse_eq` — the bytes of a message.
* `parse_serialized_iff` — when the message parsers undo the serialisers.
* `feed_serialized` — the server's parser reads what the request serialiser writes.
-/

namespace HttpC

open ListSearch Block

variable (lib : CommonLib)

/-! ## The bytes of a message -/

def serializedRequest (request : HttpRequest) : Bytes :=
  (httpRequestSerializeTo lib request record []).2

def serializedResponse (response : HttpResponse) : Bytes :=
  (httpResponseSerializeTo lib response record []).2

/-- Free of both separators of a start line. -/
def IsToken (s : Span) : Prop := ¬ space.bytes <:+: s.bytes ∧ ¬ crlf.bytes <:+: s.bytes

/-- The head of a message with these tokens and fields. -/
def sentHead (first second third : Span) (fields : List (Span × Span)) : MessageHead :=
  ⟨first.bytes, second.bytes, third.bytes, fields.map fieldLine⟩

section

variable {lib} {headers : HttpHeaders} {fields : List (Span × Span)}

theorem BuiltHeaders.wellFormed (h : BuiltHeaders lib headers fields) {first second third : Span}
    (hfirst : IsToken first) (hsecond : IsToken second) (hthird : ¬ crlf.bytes <:+: third.bytes) :
    (sentHead first second third fields).WellFormed where
  first := hfirst.1
  second := hsecond.1
  startLine hin := by
    have hblank : (32 : UInt8) ∉ crlf.bytes := by decide
    simp only [sentHead, MessageHead.startLine, space_bytes, List.singleton_append] at hin
    rcases infix_append_cons hblank hin with hin | hin
    · exact hfirst.2 hin
    · rcases infix_append_cons hblank hin with hin | hin
      · exact hsecond.2 hin
      · exact hthird hin
  fields := h.fieldLine

/-- What both serialisers write last: the body, if there is one. -/
theorem write_body (body : Span) (written : Bytes) :
    (if body.isEmpty then (Result.ok, written) else record written body) =
      (.ok, written ++ body.bytes) := by
  split_ifs with h
  · rw [Span.isEmpty_iff.mp h, List.append_nil]
  · rfl

/-- A chain of writes that all succeed leaves their bytes, in order. -/
theorem writeChain_record {steps : List (Bytes → Result × Bytes)} {bytes : List Bytes}
    (h : List.Forall₂ (fun step b => ∀ written, step written = (.ok, written ++ b)) steps bytes)
    (written : Bytes) : writeChain lib steps written = (.ok, written ++ bytes.flatten) := by
  induction h generalizing written with
  | nil => simp [writeChain]
  | cons hstep _ ih => simp [writeChain, hstep, ih]

/-- Both serialisers write a start line of three tokens, the fields, a blank line and the body. -/
theorem writeChain_message (first second third : Span) (headers : HttpHeaders) (body : Span) :
    writeChain lib
      [(record · first), (record · space), (record · second), (record · space), (record · third),
        (record · crlf), httpHeadersSerializeTo lib headers record, (record · crlf),
        fun st => if body.isEmpty then (.ok, st) else record st body] [] =
      (.ok, [first.bytes, space.bytes, second.bytes, space.bytes, third.bytes, crlf.bytes,
        writtenHeaders lib headers, crlf.bytes, body.bytes].flatten) :=
  writeChain_record (.cons (fun _ => rfl) (.cons (fun _ => rfl) (.cons (fun _ => rfl)
    (.cons (fun _ => rfl) (.cons (fun _ => rfl) (.cons (fun _ => rfl)
      (.cons (httpHeadersSerializeTo_record headers)
        (.cons (fun _ => rfl) (.cons (write_body body) .nil))))))))) []

theorem flatten_message (h : BuiltHeaders lib headers fields) (first second third body : Span) :
    [first.bytes, space.bytes, second.bytes, space.bytes, third.bytes, crlf.bytes,
      writtenHeaders lib headers, crlf.bytes, body.bytes].flatten =
      (sentHead first second third fields).encode ++ body.bytes := by
  obtain ⟨hused, hblock⟩ := h.block
  rw [writtenHeaders_eq hused, hblock]
  simp [sentHead, MessageHead.encode, MessageHead.startLine, MessageHead.fieldBlock]

theorem serializedRequest_eq {request : HttpRequest} (h : BuiltHeaders lib request.headers fields) :
    serializedRequest lib request =
      (sentHead request.method request.path request.httpVersion fields).encode ++
        request.body.bytes := by
  rw [serializedRequest, httpRequestSerializeTo, writeChain_message]
  exact flatten_message h request.method request.path request.httpVersion request.body

theorem serializedResponse_eq {response : HttpResponse}
    (h : BuiltHeaders lib response.headers fields) :
    serializedResponse lib response =
      (sentHead response.httpVersion response.code response.reasonPhrase fields).encode ++
        response.body.bytes := by
  rw [serializedResponse, httpResponseSerializeTo, writeChain_message]
  exact flatten_message h response.httpVersion response.code response.reasonPhrase response.body

end

/-! ## Parsing what was serialised -/

/-- The same start line, lookups and body. -/
def SameRequest (parsed request : HttpRequest) : Prop :=
  parsed.method.bytes = request.method.bytes ∧ parsed.path.bytes = request.path.bytes ∧
    parsed.httpVersion.bytes = request.httpVersion.bytes ∧
    (∀ name, answer lib parsed.headers name = answer lib request.headers name) ∧
    parsed.body.bytes = request.body.bytes

/-- `http_request_parse` of the bytes of a request gives it back. -/
def RequestReturns (request initial : HttpRequest) (raw : Span) : Prop :=
  let parsed := httpRequestParse lib initial raw
  parsed.1 = .ok ∧ SameRequest lib parsed.2 request

/-- `http_response_parse` of the bytes of a response gives it back. -/
def ResponseReturns (response initial : HttpResponse) (raw : Span) : Prop :=
  let parsed := httpResponseParse lib initial raw
  parsed.1 = .ok ∧ parsed.2.httpVersion.bytes = response.httpVersion.bytes ∧
    parsed.2.code.bytes = response.code.bytes ∧
    parsed.2.reasonPhrase.bytes = response.reasonPhrase.bytes ∧
    (∀ name, answer lib parsed.2.headers name = answer lib response.headers name) ∧
    parsed.2.body.bytes = response.body.bytes

section

variable {lib} {headers : HttpHeaders} {fields : List (Span × Span)}

theorem usedSize_httpHeadersParse_le (raw : Span) :
    (httpHeadersParse lib raw).usedSize ≤ raw.size := by
  simp only [httpHeadersParse, lib.spanFindReverse_eq _ _ headersTerminator_ne_nil,
    lib.spanFindReverse_eq _ _ crlf_ne_nil]
  have hT : headersTerminator.bytes.length = 4 := by decide
  cases hterm : rfind? headersTerminator.bytes raw.bytes with
  | some term =>
    have hle := (rfind?_eq_some.mp hterm).1.length_le
    simp only [Span.size, crlf_length]
    omega
  | none =>
    cases hsingle : rfind? crlf.bytes raw.bytes with
    | some single =>
      have hle := (rfind?_eq_some.mp hsingle).1.length_le
      simp only [crlf_length, Span.size] at hle ⊢
      omega
    | none => exact Nat.le_refl _

/-- A lookup in built headers answers with their lines. -/
theorem BuiltHeaders.answer_eq (h : BuiltHeaders lib headers fields) {raw : Span}
    (hlookup : ∀ name, lookup (fieldLines (httpHeadersParse lib raw).block) name =
      lookup (fields.map HttpC.fieldLine) name) (name : Span) :
    answer lib (httpHeadersParse lib raw) name = answer lib headers name := by
  obtain ⟨hused, hblock⟩ := h.block
  by_cases hname : name.bytes = []
  · have hempty : name.isEmpty = true := Span.isEmpty_iff.mpr hname
    simp [answer, httpHeadersFind, hempty]
  · rw [answer, answer, httpHeadersFind_block lib (usedSize_httpHeadersParse_le raw) hname,
      httpHeadersFind_block lib hused hname, hlookup, hblock,
      fieldLines_flatMap fun line hline => (h.fieldLine line hline).2]

/-- The parsers find the headers and the body of a message again, unless it has a body and no
field lines. -/
theorem BuiltHeaders.parts_iff (h : BuiltHeaders lib headers fields) {first second third : Span}
    (hwf : (sentHead first second third fields).WellFormed) {raw : Span} {body : Bytes}
    (hraw : raw.bytes = (sentHead first second third fields).fieldBlock ++ (crlf.bytes ++ body)) :
    ((∀ name, answer lib (httpHeadersParse lib (splitHeadersAndBody lib raw).1) name =
        answer lib headers name) ∧ (splitHeadersAndBody lib raw).2.bytes = body) ↔
      (fields = [] → body = []) := by
  set head := sentHead first second third fields with hhead
  by_cases hfields : fields = []
  · have hblock : head.fieldBlock = [] := by simp [hhead, hfields, sentHead, MessageHead.fieldBlock]
    rw [hblock, List.nil_append] at hraw
    simp only [hfields, true_implies]
    by_cases hbody : body = []
    · rw [hbody, List.append_nil] at hraw
      rw [MessageHead.splitHeadersAndBody_bare lib hraw]
      obtain ⟨hkept, -⟩ := block_httpHeadersParse_head lib (.inl hraw)
      refine iff_of_true ⟨h.answer_eq fun name => ?_, hbody.symm⟩ hbody
      have hcrlf : headBlock crlf.bytes = crlf.bytes := by decide
      rw [hkept, hraw, hcrlf, fieldLines_crlf, hfields, List.map_nil, lookup_nil, lookup_cons,
        fieldValue_nil]
      rfl
    · -- the blank line's CRLF went with the start line, so what the parser takes is shorter
      refine iff_of_false (fun hparts => ?_) hbody
      have hlen := congrArg List.length hparts.2
      have hpos := List.length_pos_iff.mpr hbody
      cases hcut : cut? headersTerminator.bytes raw.bytes with
      | none =>
        rw [splitHeadersAndBody_no_blank lib hcut] at hlen
        simp at hlen
        omega
      | some c =>
        obtain ⟨b, rest⟩ := c
        rw [splitHeadersAndBody_blank lib hcut] at hlen
        simp only [Span.bytes_tail, hraw, List.length_drop, List.length_append, crlf_length] at hlen
        omega
  · have hne : head.fields ≠ [] := by simpa [hhead, sentHead] using hfields
    rw [hwf.splitHeadersAndBody_fields lib hne hraw]
    refine iff_of_true ⟨h.answer_eq fun name => ?_, ?_⟩ (fun hnil => absurd hnil hfields)
    · have hsub : (raw.sub 0 head.fieldBlock.length).bytes = head.fieldBlock := by
        rw [Span.bytes_sub, List.drop_zero, hraw, List.take_left]
      rw [(hwf.block_fields lib hne hsub).1, MessageHead.fieldBlock,
        fieldLines_flatMap fun line hline => (hwf.fields line hline).2]
      rfl
    · rw [Span.bytes_tail, hraw, ← List.append_assoc]
      exact List.drop_left' (by simp)

end

/-- The message parsers undo the serialisers exactly on the messages with a field line or
without a body. -/
theorem parse_serialized_iff {request initial : HttpRequest} {fields : List (Span × Span)}
    (hrequest : BuiltHeaders lib request.headers fields) (hmethod : IsToken request.method)
    (hpath : IsToken request.path) (hversion : ¬ crlf.bytes <:+: request.httpVersion.bytes)
    {response initial' : HttpResponse} {fields' : List (Span × Span)}
    (hresponse : BuiltHeaders lib response.headers fields')
    (hversion' : IsToken response.httpVersion)
    (hcode : IsToken response.code) (hreason : ¬ crlf.bytes <:+: response.reasonPhrase.bytes)
    (address address' : Nat) :
    (RequestReturns lib request initial ⟨address, serializedRequest lib request⟩ ↔
      (fields = [] → request.body.bytes = [])) ∧
    (ResponseReturns lib response initial' ⟨address', serializedResponse lib response⟩ ↔
      (fields' = [] → response.body.bytes = [])) := by
  constructor
  · have hwf := hrequest.wellFormed hmethod hpath hversion
    set raw : Span := ⟨address, serializedRequest lib request⟩ with hraw
    have hsplit := hwf.splitStartLine_eq request.body.bytes
    rw [← serializedRequest_eq hrequest, ← show raw.bytes = serializedRequest lib request from rfl]
      at hsplit
    have htail := bytes_tail_startLine hsplit
    rw [← hrequest.parts_iff hwf htail]
    obtain ⟨h1, h2, h3⟩ := bytes_startLine hsplit
    simp only [RequestReturns, SameRequest, httpRequestParse_eq lib initial hsplit, h1, h2, h3]
    simp [sentHead]
  · have hwf := hresponse.wellFormed hversion' hcode hreason
    set raw : Span := ⟨address', serializedResponse lib response⟩ with hraw
    have hsplit := hwf.splitStartLine_eq response.body.bytes
    rw [← serializedResponse_eq hresponse,
      ← show raw.bytes = serializedResponse lib response from rfl]
      at hsplit
    have htail := bytes_tail_startLine hsplit
    rw [← hresponse.parts_iff hwf htail]
    obtain ⟨h1, h2, h3⟩ := bytes_startLine hsplit
    simp only [ResponseReturns, httpResponseParse_eq lib initial' hsplit, h1, h2, h3]
    simp [sentHead]

/-- A request with a blank line in its body, and a response with neither fields nor body. -/
theorem parse_serialized_messages :
    let fields : List (Span × Span) := [(.lit "Host", .lit "a")]
    let headers := (addFields .reference (httpHeadersInit ⟨500, List.replicate 9 0⟩) fields).2
    let request : HttpRequest :=
      ⟨.lit "POST", .lit "/", .lit "HTTP/1.1", headers, .lit "a\r\n\r\nb"⟩
    let response : HttpResponse := { HttpResponse.zero with
      httpVersion := .lit "HTTP/1.1", code := .lit "204", reasonPhrase := .lit "No Content" }
    BuiltHeaders .reference request.headers fields ∧
      BuiltHeaders .reference response.headers [] ∧
      IsToken request.method ∧ IsToken request.path ∧ IsToken response.httpVersion ∧
      IsToken response.code ∧
      (RequestReturns .reference request .zero ⟨1000, serializedRequest .reference request⟩ ↔
        (fields = [] → request.body.bytes = [])) ∧
      (ResponseReturns .reference response .zero ⟨1000, serializedResponse .reference response⟩ ↔
        (([] : List (Span × Span)) = [] → response.body.bytes = [])) := by
  intro fields headers request response
  have hrequest : BuiltHeaders .reference request.headers fields :=
    ⟨⟨⟨500, List.replicate 9 0⟩, by decide +kernel⟩, by decide⟩
  have hresponse : BuiltHeaders .reference response.headers [] := ⟨⟨.empty, rfl⟩, by simp⟩
  have hmethod : IsToken request.method := ⟨by decide, by decide⟩
  have hpath : IsToken request.path := ⟨by decide, by decide⟩
  have hversion : IsToken response.httpVersion := ⟨by decide, by decide⟩
  have hcode : IsToken response.code := ⟨by decide, by decide⟩
  obtain ⟨h1, h2⟩ := @parse_serialized_iff .reference request .zero fields hrequest hmethod hpath
    (by decide) response .zero [] hresponse hversion hcode (by decide) 1000 1000
  exact ⟨hrequest, hresponse, hmethod, hpath, hversion, hcode, h1, h2⟩

/-- Without a field line the body is lost. -/
theorem parse_loses_body :
    ¬ ∀ (response : HttpResponse) (fields : List (Span × Span)),
      BuiltHeaders .reference response.headers fields → IsToken response.httpVersion →
      IsToken response.code → ¬ crlf.bytes <:+: response.reasonPhrase.bytes →
        ResponseReturns .reference response .zero
          ⟨1000, serializedResponse .reference response⟩ := by
  intro h
  have hbad := h { HttpResponse.zero with
    httpVersion := .lit "HTTP/1.1", code := .lit "200", reasonPhrase := .lit "OK"
    body := .lit "abc" } [] ⟨⟨.empty, rfl⟩, by simp⟩ ⟨by decide, by decide⟩ ⟨by decide, by decide⟩
    (by decide)
  exact absurd hbad.2.2.2.2.2 (by decide +kernel)

/-! ## The server's parser on what a client serialised -/

/-- The fields a client may send: names that end at their colon, no Transfer-Encoding, and
Content-Length fields that all give the length of the body, one at least if there is one. -/
structure SendableFields (fields : List (Span × Span)) (body : Span) : Prop where
  names : ∀ f ∈ fields, ¬ headerNameTerminator.bytes <:+: f.1.bytes
  noTransferEncoding : ∀ f ∈ fields, lower f.1.bytes ≠ lower HTTP_HEADER_TRANSFER_ENCODING.bytes
  contentLength : ∀ f ∈ fields, lower f.1.bytes = lower HTTP_HEADER_CONTENT_LENGTH.bytes →
    IsNumeral f.2.bytes ∧ decimalValue f.2.bytes = body.size
  declared : body.bytes ≠ [] →
    ∃ f ∈ fields, lower f.1.bytes = lower HTTP_HEADER_CONTENT_LENGTH.bytes

section

variable {lib} {fields : List (Span × Span)}

/-- A numeral has no blanks around it. -/
theorem trimBlanks_numeral {v : Bytes} (h : IsNumeral v) : trimBlanks (32 :: v) = v := by
  have hdigit : ∀ b ∈ v, isBlank b = false := by
    intro b hb
    have hd := h.2 b hb
    simp only [isDigit, Bool.and_eq_true, decide_eq_true_eq, UInt8.le_iff_toNat_le] at hd
    simp only [isBlank, Bool.or_eq_false_iff, beq_eq_false_iff_ne, ne_eq]
    constructor <;> rintro rfl <;> simp at hd
  have hkeep : ∀ l : Bytes, (∀ b ∈ l, isBlank b = false) → l.dropWhile isBlank = l := by
    intro l hl
    cases l with
    | nil => rfl
    | cons b l => simp [hl b List.mem_cons_self]
  have hfirst : (32 :: v).dropWhile isBlank = v := by
    rw [List.dropWhile_cons_of_pos (by decide), hkeep v hdigit]
  rw [trimBlanks, hfirst, hkeep _ fun b hb => hdigit b (List.mem_reverse.mp hb),
    List.reverse_reverse]

/-- The body length that the lines of sendable fields declare is that of the body. -/
theorem SendableFields.declaredLength_eq {body : Span} (h : SendableFields fields body)
    (hlen : body.size < 2 ^ 32) : declaredLength lib (fields.map fieldLine) = some body.size := by
  have hvalue : ∀ f ∈ fields, fieldValue HTTP_HEADER_CONTENT_LENGTH.bytes (fieldLine f) =
      if lower f.1.bytes = lower HTTP_HEADER_CONTENT_LENGTH.bytes then some f.2.bytes
      else none := by
    intro f hf
    rw [fieldValue_fieldLine (h.names f hf)]
    split_ifs with hname
    · rw [trimBlanks_numeral (h.contentLength f hf hname).1]
    · rfl
  rw [declaredLength]
  cases hlookup : lookup (fields.map fieldLine) HTTP_HEADER_CONTENT_LENGTH.bytes with
  | none =>
    have hnil : body.bytes = [] := by
      by_contra hne
      obtain ⟨f, hf, hname⟩ := h.declared hne
      have hnone := lookup_eq_none.mp hlookup _ (List.mem_map_of_mem hf)
      rw [hvalue f hf, if_pos hname] at hnone
      cases hnone
    simp [Span.size, hnil]
  | some value =>
    obtain ⟨line, hline, hsome⟩ := List.exists_of_findSome?_eq_some hlookup
    obtain ⟨f, hf, rfl⟩ := List.mem_map.mp hline
    rw [hvalue f hf] at hsome
    split_ifs at hsome with hname
    obtain rfl := Option.some.inj hsome
    obtain ⟨hnum, hdec⟩ := h.contentLength f hf hname
    dsimp only
    rw [← hdec, lib.spanToUInt32_numeral ⟨0, f.2.bytes⟩ hnum (by rw [hdec]; exact hlen)]

/-- The head of a sent message, as the server's parser reads it. -/
def readHead (head : MessageHead) (contentLength : Nat) : RequestHead :=
  ⟨head.first, head.second, head.third, headBlock (head.fieldBlock ++ crlf.bytes),
    head.encode.length, contentLength⟩

/-- The lines the parser keeps answer like the field lines of the head. -/
theorem lookup_headBlock {head : MessageHead} (hwf : head.WellFormed) (name : Bytes) :
    lookup (fieldLines (headBlock (head.fieldBlock ++ crlf.bytes))) name =
      lookup head.fields name := by
  by_cases hne : head.fields = []
  · have hblock : headBlock (head.fieldBlock ++ crlf.bytes) = crlf.bytes := by
      rw [MessageHead.fieldBlock, hne]
      decide
    rw [hblock, fieldLines_crlf, hne, lookup_cons, fieldValue_nil]
    rfl
  · obtain ⟨b, hb⟩ := MessageHead.exists_fieldBlock hne
    have hmax : max 2 ((head.fieldBlock ++ crlf.bytes).length - 2) = head.fieldBlock.length := by
      rw [hb]
      simp
    rw [headBlock, hmax, List.take_left, MessageHead.fieldBlock,
      fieldLines_flatMap fun line hline => (hwf.fields line hline).2]

theorem headStatus_sent {head : MessageHead} (hwf : head.WellFormed) {n : Nat}
    (hte : lookup head.fields HTTP_HEADER_TRANSFER_ENCODING.bytes = none)
    (hcl : declaredLength lib head.fields = some n) (rest : Bytes) :
    headStatus lib (head.encode ++ rest) = .accepted (readHead head n) := by
  have hlen : head.encode.length = head.startLine.length + head.fieldBlock.length + 4 := by
    simp [MessageHead.encode]
    omega
  refine (headStatus_accepted lib).mpr ⟨_, hwf.find?_terminator rest, hlen, ?_⟩
  have hsplit := hwf.splitStartLine_eq []
  rw [List.append_nil, List.append_nil] at hsplit
  rw [readHead, List.take_left]
  refine (parse?_eq_some lib).mpr ⟨_, hsplit, rfl, rfl, ?_, ?_⟩
  · rw [RequestHead.fields, lookup_headBlock hwf, hte]
  · rw [declaredLength, RequestHead.fields, lookup_headBlock hwf, ← declaredLength, hcl]

theorem Fed.headers_eq {s : Span} {p : HttpRequestParser} (h : Fed lib s p)
    (hp : p.state = .complete) : ∃ raw, p.request.headers = httpHeadersParse lib raw := by
  cases h with
  | missing hs hfresh => rcases hfresh with rfl | rfl <;> simp at hp
  | refused hs herr => simp [herr] at hp
  | waiting hs hlt => simp [parserAfterHead] at hp
  | complete hs hle hbody => exact ⟨_, rfl⟩

/-- A sent request is the first request of every stream that starts with it. -/
theorem firstRequest_sent {head : MessageHead} (hwf : head.WellFormed) {body : Bytes}
    (hte : lookup head.fields HTTP_HEADER_TRANSFER_ENCODING.bytes = none)
    (hcl : declaredLength lib head.fields = some body.length) (rest : Bytes) :
    firstRequest lib (head.encode ++ (body ++ rest)) =
      some ⟨⟨head.first, head.second, head.third, headBlock (head.fieldBlock ++ crlf.bytes), body⟩,
        head.encode.length + body.length⟩ := by
  refine (firstRequest_eq_some lib).mpr ⟨_, headStatus_sent hwf hte hcl _, ?_, ?_⟩
  · simp [readHead]
  · simp [RequestHead.content, readHead]

end

/-- Growing feeds of a serialised request, whatever follows it, wait for its last byte and then
give the request back. -/
theorem feed_serialized {initial built : HttpRequest} {method path httpVersion body : Span}
    {headers : HttpHeaders} {fields : List (Span × Span)}
    (hinit : httpRequestInitialize initial method path httpVersion headers = (.ok, built))
    (hbuilt : BuiltHeaders lib headers fields) (hmethod : IsToken method) (hpath : IsToken path)
    (hversion : ¬ crlf.bytes <:+: httpVersion.bytes) (hfields : SendableFields fields body)
    (hsize : (serializedRequest lib { built with body }).length < 2 ^ 31) (stream : Span)
    (hstream : serializedRequest lib { built with body } <+: stream.bytes) (ns : List Nat) (n : Nat)
    (hg : GrowingPrefixes stream (ns ++ [n])) :
    (n < (serializedRequest lib { built with body }).length →
      (feedAfter lib stream ns n).1 = .tryAgain) ∧
    ((serializedRequest lib { built with body }).length ≤ n →
      (feedAfter lib stream ns n).1 = .ok ∧
      SameRequest lib (feedAfter lib stream ns n).2.request { built with body } ∧
      httpRequestParserGetConsumed (feedAfter lib stream ns n).2 =
        (serializedRequest lib { built with body }).length) := by
  obtain rfl : built = ⟨method, path, httpVersion, headers, .empty⟩ := by
    unfold httpRequestInitialize at hinit
    split_ifs at hinit
    · simp at hinit
    · exact (Prod.mk.inj hinit).2.symm
  have hsent := @serializedRequest_eq lib _ ⟨method, path, httpVersion, headers, body⟩ hbuilt
  have hwf := hbuilt.wellFormed hmethod hpath hversion
  dsimp only at hsent hsize hstream ⊢
  set head := sentHead method path httpVersion fields with hhead
  have hlen := congrArg List.length hsent
  rw [List.length_append] at hlen
  rw [hsent] at hstream
  rw [hlen] at hsize ⊢
  obtain ⟨rest, hrest⟩ := hstream
  rw [List.append_assoc] at hrest
  have hte : lookup head.fields HTTP_HEADER_TRANSFER_ENCODING.bytes = none := by
    refine lookup_eq_none.mpr fun line hline => ?_
    obtain ⟨f, hf, rfl⟩ := List.mem_map.mp hline
    rw [fieldValue_fieldLine (hfields.names f hf), if_neg (hfields.noTransferEncoding f hf)]
  have hcl : declaredLength lib head.fields = some body.bytes.length :=
    hfields.declaredLength_eq (by rw [Span.size]; omega)
  have hstatus := headStatus_sent hwf hte hcl (body.bytes ++ rest)
  have hfirst := firstRequest_sent hwf hte hcl rest
  rw [hrest] at hstatus hfirst
  -- what the feed has seen, and the rest of the stream
  obtain ⟨hfed, hres⟩ := feedAfter_fed lib hg
  have hsplit : (stream.sub 0 n).bytes ++ stream.bytes.drop n = stream.bytes := by simp
  have hn : (stream.sub 0 n).size = n := by
    simpa [Span.size] using hg.le_size n (by simp)
  have hpre : (stream.sub 0 n).bytes <+: stream.bytes := ⟨_, hsplit⟩
  have hfits : LengthFits lib (stream.sub 0 n).bytes := by
    intro h hs
    have hwhole := (headStatus_of_extends hpre (by rw [hs]; simp)).trans hs
    obtain rfl := HeadStatus.accepted.inj (hstatus.symm.trans hwhole)
    simp only [readHead]
    omega
  rw [hres]
  generalize (feedAfter lib stream ns n).2 = p at hfed ⊢
  rw [← hsplit] at hfirst
  obtain ⟨hwaits, hcompletes⟩ := hfed.of_firstRequest hfits hfirst
  dsimp only at hwaits hcompletes
  rw [hn] at hwaits hcompletes
  refine ⟨hwaits, fun hle => ?_⟩
  obtain ⟨hp, hcontent, hconsumed⟩ := hcompletes hle
  simp only [HttpRequest.content, RequestContent.mk.injEq] at hcontent
  obtain ⟨h1, h2, h3, h4, h5⟩ := hcontent
  refine ⟨by rw [hp]; rfl, ⟨h1, h2, h3, fun name => ?_, h5⟩, hconsumed⟩
  obtain ⟨raw, hraw⟩ := hfed.headers_eq hp
  rw [hraw] at h4 ⊢
  exact hbuilt.answer_eq (fun name => by rw [h4, lookup_headBlock hwf]; rfl) name

/-- A request with a body, fed in four parts. -/
theorem feed_serialized_post :
    let fields : List (Span × Span) :=
      [(.lit "Host", .lit "a\r"), (.lit "content-length", .lit "3")]
    let headers := (addFields .reference (httpHeadersInit ⟨500, List.replicate 64 0⟩) fields).2
    let built : HttpRequest := ⟨.lit "POST", .lit "/", .lit "HTTP/1.1", headers, .empty⟩
    let stream : Span := ⟨1000,
      ascii "POST / HTTP/1.1\r\nHost: a\r\r\ncontent-length: 3\r\n\r\na\r\nGET /"⟩
    httpRequestInitialize .zero (.lit "POST") (.lit "/") (.lit "HTTP/1.1") headers = (.ok, built) ∧
      GrowingPrefixes stream ([5, 27, 49] ++ [51]) ∧
      (feedAfter .reference stream [5, 27, 49] 51).1 = .ok ∧
      SameRequest .reference (feedAfter .reference stream [5, 27, 49] 51).2.request
        { built with body := .lit "a\r\n" } := by
  intro fields headers built stream
  have hinit : httpRequestInitialize .zero (.lit "POST") (.lit "/") (.lit "HTTP/1.1") headers =
      (.ok, built) := by decide +kernel
  have hgrow : GrowingPrefixes stream ([5, 27, 49] ++ [51]) := by decide
  have hbuilt : BuiltHeaders .reference headers fields :=
    ⟨⟨⟨500, List.replicate 64 0⟩, by decide +kernel⟩, by decide⟩
  have hfields : SendableFields fields (.lit "a\r\n") :=
    ⟨by decide +kernel, by decide +kernel, by decide +kernel, by decide +kernel⟩
  have hread := (@feed_serialized .reference .zero built (.lit "POST") (.lit "/") (.lit "HTTP/1.1")
    (.lit "a\r\n") headers fields hinit hbuilt ⟨by decide, by decide⟩ ⟨by decide, by decide⟩
    (by decide) hfields (by decide +kernel) stream (by decide +kernel) [5, 27, 49] 51 hgrow).2
    (by decide +kernel)
  exact ⟨hinit, hgrow, hread.1, hread.2.1⟩

end HttpC
