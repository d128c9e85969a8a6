import HttpC.Connection.RequestReceiver
import HttpC.Connection.ResponseSequence
import HttpC.Serializing

/-!
# Messages sent and received

`http_connection_send_request` and `http_connection_send_response` serialise a message onto the
stream, and the receive functions at the other end read it back. A response can be read back if
its head says where its body ends.

## Main results

* `sent_response_received` — a client receives a response that declares its body.
* `sent_request_received` — a server receives a request that declares its body.
-/

namespace HttpC

/-! ## Sending -/

def HTTP_METHOD_HEAD : Span := .lit "HEAD"

section

variable (lib : CommonLib) {σ : Type} (write : σ → Span → Result × σ)

def httpConnectionSendResponse (stream : σ) (response : HttpResponse) : Result × σ :=
  httpResponseSerializeTo lib response write stream

def httpConnectionSendRequest (stream : σ) (c : HttpConnection) (request : HttpRequest) :
    Result × σ × HttpConnection :=
  let (result, stream) := httpRequestSerializeTo lib request write stream
  (result, stream, { c with
    awaitingResponseToHead := decide (lib.spanCompare request.method HTTP_METHOD_HEAD = 0) })

end

/-- Whether the response to this request has no body. -/
def HttpRequest.asksForHead (request : HttpRequest) : Bool :=
  decide (request.method.bytes = HTTP_METHOD_HEAD.bytes)

/-- Over a stream that takes everything, the request is on the wire as a whole. -/
theorem httpConnectionSendRequest_record (lib : CommonLib) (c : HttpConnection)
    (request : HttpRequest) (written : Bytes) :
    httpConnectionSendRequest lib record written c request =
      (.ok, written ++ serializedRequest lib request,
        { c with awaitingResponseToHead := request.asksForHead }) := by
  have hhead : decide (lib.spanCompare request.method HTTP_METHOD_HEAD = 0) =
      request.asksForHead := by
    simp only [HttpRequest.asksForHead, lib.spanCompare_eq]
  have hwritten : ∀ l, httpRequestSerializeTo lib request record l =
      (.ok, l ++ serializedRequest lib request) := by
    intro l
    rw [serializedRequest, httpRequestSerializeTo, httpRequestSerializeTo, writeChain_message]
    exact writeChain_record (.cons (fun _ => rfl) (.cons (fun _ => rfl) (.cons (fun _ => rfl)
      (.cons (fun _ => rfl) (.cons (fun _ => rfl) (.cons (fun _ => rfl)
        (.cons (httpHeadersSerializeTo_record request.headers)
          (.cons (fun _ => rfl) (.cons (write_body request.body) .nil))))))))) l
  simp only [httpConnectionSendRequest, hhead, hwritten]

/-- A lookup in built headers. -/
theorem BuiltHeaders.answer_lookup {lib : CommonLib} {headers : HttpHeaders}
    {fields : List (Span × Span)} (h : BuiltHeaders lib headers fields) (name : Span) :
    answer lib headers name = if name.isEmpty then .error .invalidArg
      else (lookup (fields.map HttpC.fieldLine) name.bytes).elim (.error .notFound) .ok := by
  obtain ⟨hused, hblock⟩ := h.block
  have hlines : fieldLines headers.block = fields.map HttpC.fieldLine := by
    rw [hblock, fieldLines_flatMap fun line hline => (h.fieldLine line hline).2]
  rw [answer]
  split_ifs with hempty
  · simp [httpHeadersFind, hempty, Except.map]
  · rw [httpHeadersFind_block lib hused (Span.isEmpty_eq_false_iff.mp (by simpa using hempty)),
      hlines]

/-! ## Responses that declare their bodies -/

/-- The same start line, lookups and body. -/
structure SameResponse (lib : CommonLib) (parsed response : HttpResponse) : Prop where
  httpVersion : parsed.httpVersion.bytes = response.httpVersion.bytes
  code : parsed.code.bytes = response.code.bytes
  reasonPhrase : parsed.reasonPhrase.bytes = response.reasonPhrase.bytes
  headers : ∀ name, answer lib parsed.headers name = answer lib response.headers name
  body : parsed.body.bytes = response.body.bytes

namespace HttpResponse

def head (response : HttpResponse) (fields : List (Span × Span)) : MessageHead :=
  sentHead response.httpVersion response.code response.reasonPhrase fields

/-- A response whose head says where its body ends; in answer to HEAD it has none. -/
structure Declared (lib : CommonLib) (forHead : Bool) (response : HttpResponse)
    (fields : List (Span × Span)) : Prop where
  headers : BuiltHeaders lib response.headers fields
  version : IsToken response.httpVersion
  code : IsToken response.code
  reason : ¬ crlf.bytes <:+: response.reasonPhrase.bytes
  framed : declaredFraming lib forHead (response.head fields) =
    some (if response.body.bytes = [] then .none else .contentLength response.body.bytes.length)

/-- The response as a message. -/
def message (response : HttpResponse) (fields : List (Span × Span)) : ResponseMessage :=
  ⟨response.head fields,
    if response.body.bytes = [] then .empty else .counted response.body.bytes⟩

namespace Declared

variable {lib : CommonLib} {forHead : Bool} {response : HttpResponse} {fields : List (Span × Span)}

theorem wellFormed (h : response.Declared lib forHead fields) :
    (response.message fields).WellFormed lib forHead where
  head := h.headers.wellFormed h.version h.code h.reason
  framed := by
    refine ⟨_, h.framed, ?_⟩
    by_cases hbody : response.body.bytes = []
    · simp only [message, if_pos hbody]
      trivial
    · simp only [message, if_neg hbody]
      rfl

theorem ends (h : response.Declared lib forHead fields) :
    declaredFraming lib forHead (response.message fields).head ≠ some .untilClose := by
  change declaredFraming lib forHead (response.head fields) ≠ _
  rw [h.framed]
  split_ifs <;> simp

theorem encode_eq (h : response.Declared lib forHead fields) :
    (response.message fields).encode = serializedResponse lib response := by
  rw [serializedResponse_eq h.headers]
  by_cases hbody : response.body.bytes = []
  · simp only [message, ResponseMessage.encode, hbody]
    rfl
  · simp only [message, ResponseMessage.encode, if_neg hbody]
    rfl

/-- What the client receives is the response. -/
theorem same (h : response.Declared lib forHead fields) {o : ResponseReceipt}
    (ho : (response.message fields).ReceivedBy lib o) : SameResponse lib o.response response where
  httpVersion := ho.httpVersion
  code := ho.code
  reasonPhrase := ho.reasonPhrase
  headers name := by
    rw [answer, ho.headers name, h.headers.answer_lookup]
    rfl
  body := by
    rw [ho.body]
    by_cases hbody : response.body.bytes = []
    · simp only [message, hbody]
      rfl
    · simp only [message, if_neg hbody]
      rfl

/-- The next call returns the response, if a read ends with it. -/
theorem receive_next (h : response.Declared lib forHead fields) {wire : Wire} {rest : Bytes}
    (hstream : arriving wire = serializedResponse lib response ++ rest)
    (hcut : (serializedResponse lib response).length ∈ cutsFrom 0 wire) (ptr : Nat) {mem : Bytes}
    (hroom : (serializedResponse lib response).length < mem.length) (initial : HttpResponse) :
    ∃ o, receiveResponse lib none ptr mem ⟨wire, forHead⟩ initial = some o ∧ o.result = .ok ∧
      SameResponse lib o.response response ∧ arriving o.connection.wire = rest := by
  rw [← h.encode_eq] at hstream hcut hroom
  obtain ⟨o, ho, hreceived, hrest, -⟩ :=
    @ResponseMessage.WellFormed.receive_next lib ptr mem ⟨wire, forHead⟩ _ rest h.wellFormed h.ends
      hstream hcut hroom initial
  exact ⟨o, ho, hreceived.result, h.same hreceived, hrest⟩

end Declared

end HttpResponse

/-- **A client receives what was sent to it.** However the bytes are split, a call with room for a
response that declares its body returns it, if a read ends with it, and leaves what is behind. -/
theorem sent_response_received (lib : CommonLib) {awaiting : Bool} {response : HttpResponse}
    {fields : List (Span × Span)} (h : response.Declared lib awaiting fields) {wire : Wire}
    {rest : Bytes} (hstream : arriving wire =
      (httpConnectionSendResponse lib record [] response).2 ++ rest)
    (hcut : (httpConnectionSendResponse lib record [] response).2.length ∈ cutsFrom 0 wire)
    (ptr : Nat) {mem : Bytes}
    (hroom : (httpConnectionSendResponse lib record [] response).2.length < mem.length)
    (initial : HttpResponse) :
    ∃ o, receiveResponse lib none ptr mem ⟨wire, awaiting⟩ initial = some o ∧ o.result = .ok ∧
      SameResponse lib o.response response ∧ arriving o.connection.wire = rest :=
  h.receive_next hstream hcut ptr hroom initial

/-- A response with a body, and one byte behind it. -/
theorem sent_response_received_ok : ∃ response : HttpResponse, ∃ o,
    receiveResponse .reference none 1000 (List.replicate 64 0)
      ⟨[.data (ascii "HTTP/1.1 200 OK\r\nContent-Length: 3\r\n"), .tryAgain false,
        .data (ascii "\r\nabc"), .data (ascii "H")], false⟩ .zero = some o ∧ o.result = .ok ∧
    SameResponse .reference o.response response ∧ arriving o.connection.wire = ascii "H" := by
  set response : HttpResponse := { HttpResponse.zero with
    httpVersion := .lit "HTTP/1.1", code := .lit "200", reasonPhrase := .lit "OK",
    headers := (addFields .reference (httpHeadersInit ⟨3000, List.replicate 32 0⟩)
      [(.lit "Content-Length", .lit "3")]).2,
    body := .lit "abc" } with hresponse
  have hdeclared : response.Declared .reference false [(.lit "Content-Length", .lit "3")] :=
    { headers := ⟨⟨⟨3000, List.replicate 32 0⟩, by decide +kernel⟩, by decide +kernel⟩
      version := ⟨by decide +kernel, by decide +kernel⟩
      code := ⟨by decide +kernel, by decide +kernel⟩
      reason := by decide +kernel
      framed := by decide +kernel }
  exact ⟨response, @sent_response_received .reference false response _ hdeclared
    [.data (ascii "HTTP/1.1 200 OK\r\nContent-Length: 3\r\n"), .tryAgain false,
      .data (ascii "\r\nabc"), .data (ascii "H")] (ascii "H") (by decide +kernel)
    (by decide +kernel) 1000 (List.replicate 64 0) (by decide +kernel) .zero⟩

/-! ## Requests that declare their bodies -/

/-- A request that can be read back. -/
structure Sendable (lib : CommonLib) (request : HttpRequest) : Prop where
  fields : ∃ fields, BuiltHeaders lib request.headers fields ∧ SendableFields fields request.body
  method : IsToken request.method
  path : IsToken request.path
  version : ¬ crlf.bytes <:+: request.httpVersion.bytes
  size : (serializedRequest lib request).length < 2 ^ 31

section

variable {lib : CommonLib} {ptr n : Nat} {mem mem' : Bytes} {head : MessageHead} {rest : Bytes}
  {received : Span} {parsed request : HttpRequest}

/-- What `http_request_parse` makes of a head with `rest` behind it. -/
structure RequestParsed (lib : CommonLib) (head : MessageHead) (received : Span)
    (parsed : HttpRequest) : Prop where
  method : parsed.method.bytes = head.first
  path : parsed.path.bytes = head.second
  httpVersion : parsed.httpVersion.bytes = head.third
  answers : ∀ name : Span, name.bytes ≠ [] →
    (httpHeadersFind lib parsed.headers name).map Span.bytes =
      (lookup head.fields name.bytes).elim (.error .notFound) .ok
  within : ∀ s ∈ [parsed.method, parsed.path, parsed.httpVersion, parsed.headers.buffer],
    ∃ i k, s = received.sub i k ∧ i + k ≤ head.encode.length
  body : parsed.body = received.tail head.encode.length

theorem requestParsed (hwf : head.WellFormed) (hfields : head.fields ≠ []) (initial : HttpRequest)
    (hreceived : received.bytes = head.encode ++ rest) :
    ∃ parsed, httpRequestParse lib initial received = (.ok, parsed) ∧
      RequestParsed lib head received parsed := by
  have hsplit := hreceived ▸ hwf.splitStartLine_eq rest
  obtain ⟨h1, h2, h3⟩ := bytes_startLine hsplit
  have hlen := head.length_encode
  have hstart : startLineLength head.first head.second head.third =
      head.first.length + 1 + (head.second.length + 1) + (head.third.length + 2) := rfl
  have htail := bytes_tail_startLine hsplit
  refine ⟨_, httpRequestParse_eq lib initial hsplit, h1, h2, h3, fun name hname => ?_,
    fun s hs => ?_, ?_⟩
  · dsimp only
    rw [hwf.splitHeadersAndBody_fields lib hfields htail]
    refine hwf.httpHeadersFind_fields lib hfields ?_ hname
    rw [Span.bytes_sub, htail, List.drop_zero, List.take_left]
  · dsimp only at hs
    rw [hwf.splitHeadersAndBody_fields lib hfields htail, buffer_httpHeadersParse,
      Span.sub_tail] at hs
    simp only [List.mem_cons, List.not_mem_nil, or_false] at hs
    rcases hs with rfl | rfl | rfl | rfl <;> exact ⟨_, _, rfl, by omega⟩
  · dsimp only
    rw [hwf.splitHeadersAndBody_fields lib hfields htail, Span.tail_tail, hlen, Nat.add_assoc]

/-- What the body is stored behind, the head keeps. -/
theorem RequestParsed.reread (h : RequestParsed lib head ⟨ptr, mem.take n⟩ parsed)
    (hn : head.encode.length ≤ n) (hmem : n ≤ mem.length)
    (hbelow : mem'.take head.encode.length = mem.take head.encode.length) :
    parsed.method.reread ptr mem' = parsed.method ∧ parsed.path.reread ptr mem' = parsed.path ∧
      parsed.httpVersion.reread ptr mem' = parsed.httpVersion ∧
      parsed.headers.buffer.reread ptr mem' = parsed.headers.buffer := by
  have hkeeps : ∀ s ∈ [parsed.method, parsed.path, parsed.httpVersion, parsed.headers.buffer],
      s.reread ptr mem' = s := by
    intro s hs
    obtain ⟨i, k, rfl, hle⟩ := h.within s hs
    exact (Span.below_sub hle hn hmem).reread_eq hbelow
  exact ⟨hkeeps _ (by simp), hkeeps _ (by simp), hkeeps _ (by simp), hkeeps _ (by simp)⟩

/-- **A server receives what was sent to it.** However the bytes are split, a call with room for a
request with a field line returns it, if no read runs past its end. -/
theorem sent_request_received (h : Sendable lib request) (hlines : request.headers.block ≠ [])
    {wire : Wire} (hstream : arriving wire = serializedRequest lib request ++ rest)
    (hstops : StopsAt mem.length (serializedRequest lib request).length wire)
    (hroom : (serializedRequest lib request).length ≤ mem.length) (ptr : Nat)
    (initial : HttpRequest) :
    ∃ received remainder, receiveRequest lib ptr mem wire initial =
        some (.returned .ok received remainder) ∧ SameRequest lib received request := by
  obtain ⟨fields, hbuilt, hfields⟩ := h.fields
  have hsent := serializedRequest_eq hbuilt
  have hwf := hbuilt.wellFormed h.method h.path h.version
  obtain ⟨hused, hblock⟩ := hbuilt.block
  set head := sentHead request.method request.path request.httpVersion fields with hhead
  have hsome : head.fields ≠ [] := by
    intro hnone
    have hnil : fields = [] := by simpa [hhead, sentHead] using hnone
    exact hlines (by rw [hblock, hnil]; rfl)
  have hte : lookup head.fields HTTP_HEADER_TRANSFER_ENCODING.bytes = none := by
    refine lookup_eq_none.mpr fun line hline => ?_
    obtain ⟨f, hf, rfl⟩ := List.mem_map.mp hline
    rw [fieldValue_fieldLine (hfields.names f hf), if_neg (hfields.noTransferEncoding f hf)]
  have hlength := congrArg List.length hsent
  rw [List.length_append] at hlength
  have hsize := h.size
  have hcl : declaredLength lib head.fields = some request.body.bytes.length :=
    hfields.declaredLength_eq (by rw [Span.size]; omega)
  rw [hsent, List.append_assoc] at hstream
  have hle : (serializedRequest lib request).length ≤ (arriving wire).length := by
    rw [hstream, hlength, ← List.append_assoc, List.length_append, List.length_append]
    omega
  rcases readUntilHeadersComplete_spec lib ptr mem hwf hstream with
    ⟨hsmall, -⟩ | ⟨w, hrun, hread⟩
  · omega
  have hreceived := hread.received_eq
  rw [hstream, List.take_append, List.take_of_length_le hread.le] at hreceived
  obtain ⟨parsed, hparse, hparsed⟩ := @requestParsed lib head _ ⟨ptr, w.received⟩ hwf hsome initial
    hreceived
  obtain ⟨result, body, w', hmaybe, hbytes, hend⟩ :=
    @HeadRead.bodyStage lib ptr mem wire head w hread _ _ hparsed.answers (fun _ => hte) hcl
  rw [← hparsed.body] at hmaybe
  obtain ⟨remainder, hreturns⟩ := receiveRequest_eq lib ptr hrun hparse hmaybe
  rw [hlength] at hstops hle hroom
  cases hend with
  | full hlt hle' => omega
  | ended hlt hroom' hread' hend => omega
  | complete hdone hcap hread' hall hexact =>
    rw [CommonLib.isError_ok, if_neg Bool.false_ne_true] at hreturns
    rw [StopsAt, if_pos hle] at hstops
    have hfilled := hexact.mpr hstops
    -- the head is where it was when it was parsed
    have hbelow : w'.mem.take head.encode.length = w.mem.take head.encode.length := by
      have hafter := congrArg (List.take head.encode.length) hread'
      have hbefore := congrArg (List.take head.encode.length) hread.received_eq
      rw [Receiver.received, List.take_take, List.take_take] at hafter hbefore
      have hhere := hread.le
      rw [Nat.min_eq_left (by omega)] at hafter hbefore
      exact hafter.trans hbefore.symm
    obtain ⟨hmethod, hpath, hversion, hheaders⟩ :=
      hparsed.reread hread.le (hread.length_mem ▸ hread.le_mem) hbelow
    refine ⟨_, _, hreturns, ?_, ?_, ?_, fun name => ?_, ?_⟩
    · exact (congrArg Span.bytes hmethod).trans hparsed.method
    · exact (congrArg Span.bytes hpath).trans hparsed.path
    · exact (congrArg Span.bytes hversion).trans hparsed.httpVersion
    · rw [hbuilt.answer_lookup, answer]
      dsimp only [HttpRequest.reread]
      rw [httpHeadersFind_reread hheaders]
      split_ifs with hempty
      · simp [httpHeadersFind, hempty, Except.map]
      · exact hparsed.answers name (Span.isEmpty_eq_false_iff.mp (by simpa using hempty))
    · refine hbytes.trans ?_
      rw [hread', hfilled, hstream, List.drop_take, List.drop_left, Nat.add_sub_cancel_left,
        List.take_left]

end

/-- A request with a body, and one byte behind it in a read of its own. -/
theorem sent_request_received_ok : ∃ request received : HttpRequest, ∃ remainder,
    receiveRequest .reference 1000 (List.replicate 64 0)
      [.data (ascii "POST / HTTP/1.1\r\nContent-Length: 3\r"), .data (ascii "\n\r\na"),
        .data (ascii "bc"), .data (ascii "P")] .zero = some (.returned .ok received remainder) ∧
    SameRequest .reference received request := by
  set request : HttpRequest := { HttpRequest.zero with
    method := .lit "POST", path := .lit "/", httpVersion := .lit "HTTP/1.1",
    headers := (addFields .reference (httpHeadersInit ⟨3000, List.replicate 32 0⟩)
      [(.lit "Content-Length", .lit "3")]).2,
    body := .lit "abc" } with hrequest
  have hsendable : Sendable .reference request :=
    { fields := ⟨[(.lit "Content-Length", .lit "3")],
        ⟨⟨⟨3000, List.replicate 32 0⟩, by decide +kernel⟩, by decide +kernel⟩,
        ⟨by decide +kernel, by decide +kernel, by decide +kernel, by decide +kernel⟩⟩
      method := ⟨by decide +kernel, by decide +kernel⟩
      path := ⟨by decide +kernel, by decide +kernel⟩
      version := by decide +kernel
      size := by decide +kernel }
  exact ⟨request, @sent_request_received .reference (List.replicate 64 0) (ascii "P") request
    hsendable (by decide +kernel)
    [.data (ascii "POST / HTTP/1.1\r\nContent-Length: 3\r"), .data (ascii "\n\r\na"),
      .data (ascii "bc"), .data (ascii "P")] (by decide +kernel) (by decide +kernel)
    (by decide +kernel) 1000 .zero⟩

end HttpC
