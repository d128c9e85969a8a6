import HttpC.Serializing
import HttpC.RequestReading

/-!
# Messages that were parsed and are serialised again

The parsers keep the field lines with their CRLFs and the serialisers write the blank line behind
them. Without field lines the CRLF that ends the start line is half of the blank line: the message
parsers do not find it, the server's parser keeps the other half as its block.

## Main results

* `written_parts_iff` — when the parts behind the start line are written as they were read.
* `reserialized_iff` — which messages come back as they were.
-/

namespace HttpC

open ListSearch Block

variable (lib : CommonLib)

/-- The bytes of a message with these parts; the block ends in its own CRLF. -/
def messageBytes (first second third block body : Bytes) : Bytes :=
  first ++ (space.bytes ++ (second ++ (space.bytes ++ (third ++ (crlf.bytes ++
    (block ++ (crlf.bytes ++ body)))))))

/-- A blank line behind the start line, not counting the CRLF that ends it: there is a field line,
or the body brings one. -/
def BlankBehindStartLine (message : Bytes) : Prop :=
  ∀ first second third rest, splitStartLine message = some (first, second, third, rest) →
    headersTerminator.bytes <:+: rest

/-- The head does not end with its start line. -/
def HasFieldLine (message : Bytes) : Prop :=
  ∀ first second third rest, splitStartLine message = some (first, second, third, rest) →
    ¬ crlf.bytes <+: rest

section

variable {lib}

theorem flatten_parts {headers : HttpHeaders} (hused : headers.usedSize ≤ headers.buffer.size)
    (first second third body : Span) :
    [first.bytes, space.bytes, second.bytes, space.bytes, third.bytes, crlf.bytes,
      writtenHeaders lib headers, crlf.bytes, body.bytes].flatten =
      messageBytes first.bytes second.bytes third.bytes headers.block body.bytes := by
  rw [writtenHeaders_eq hused]
  simp [messageBytes]

theorem httpRequestSerializeTo_parts {request : HttpRequest}
    (hused : request.headers.usedSize ≤ request.headers.buffer.size) :
    httpRequestSerializeTo lib request record [] = (.ok, messageBytes request.method.bytes
      request.path.bytes request.httpVersion.bytes request.headers.block request.body.bytes) := by
  rw [httpRequestSerializeTo, writeChain_message, flatten_parts hused]

theorem httpResponseSerializeTo_parts {response : HttpResponse}
    (hused : response.headers.usedSize ≤ response.headers.buffer.size) :
    httpResponseSerializeTo lib response record [] = (.ok, messageBytes response.httpVersion.bytes
      response.code.bytes response.reasonPhrase.bytes response.headers.block
      response.body.bytes) := by
  rw [httpResponseSerializeTo, writeChain_message, flatten_parts hused]

variable (lib) in
/-- The header lines that are kept, a blank line and the body are what was there exactly if there
is a blank line. -/
theorem written_parts_iff (raw : Span) :
    (httpHeadersParse lib (splitHeadersAndBody lib raw).1).block ++
      (crlf.bytes ++ (splitHeadersAndBody lib raw).2.bytes) = raw.bytes ↔
    headersTerminator.bytes <:+: raw.bytes := by
  rw [(block_splitHeadersAndBody lib raw).1, infix_iff_occursAt]
  cases hcut : cut? headersTerminator.bytes raw.bytes with
  | some parts =>
    obtain ⟨b, body⟩ := parts
    obtain ⟨hraw, hfind⟩ := cut?_eq_some.mp hcut
    refine iff_of_true ?_ ⟨b.length, (find?_eq_some.mp hfind).1⟩
    rw [headersTerminator_bytes] at hraw
    have hjoin : raw.bytes = (b ++ crlf.bytes) ++ (crlf.bytes ++ body) := by
      rw [hraw]
      simp only [List.append_assoc]
    have htake : raw.bytes.take (b.length + 2) = b ++ crlf.bytes := by
      rw [hjoin]
      exact List.take_left' (by simp)
    have hdrop : raw.bytes.drop (b.length + 4) = body := by
      rw [hjoin, ← List.append_assoc]
      exact List.drop_left' (by simp)
    rw [splitHeadersAndBody_blank lib hcut, keptBlock, hfind]
    dsimp only
    rw [htake, Span.bytes_tail, hdrop]
    exact hjoin.symm
  | none =>
    have hnone := cut?_eq_none.mp hcut
    refine iff_of_false (fun hjoin => ?_) (not_exists.mpr hnone)
    rw [splitHeadersAndBody_no_blank lib hcut, keptBlock, find?_eq_none.mpr hnone] at hjoin
    simp only [Span.bytes_empty, List.append_nil] at hjoin
    cases hlast : rfind? crlf.bytes raw.bytes with
    | none =>
      rw [hlast] at hjoin
      have hlen := congrArg List.length hjoin
      simp at hlen
    | some single =>
      -- what is kept ends in a CRLF, and with the one behind it is a blank line
      obtain ⟨x, y, hraw, rfl⟩ := occursAt_iff.mp (rfind?_eq_some.mp hlast).1
      have htake : raw.bytes.take (x.length + 2) = x ++ crlf.bytes := by
        rw [hraw, ← List.append_assoc]
        exact List.take_left' (by simp)
      rw [hlast] at hjoin
      dsimp only at hjoin
      rw [htake] at hjoin
      refine hnone x.length (occursAt_iff.mpr ⟨x, [], ?_, rfl⟩)
      rw [← hjoin, headersTerminator_bytes]
      simp only [List.append_assoc, List.append_nil]

theorem messageBytes_eq_iff {raw : Span} {a b c rest block body : Bytes}
    (hsplit : splitStartLine raw.bytes = some (a, b, c, rest)) :
    messageBytes a b c block body = raw.bytes ↔ block ++ (crlf.bytes ++ body) = rest := by
  rw [splitStartLine_bytes hsplit, messageBytes]
  simp only [List.append_cancel_left_eq]

theorem blankBehindStartLine_iff {message a b c rest : Bytes}
    (hsplit : splitStartLine message = some (a, b, c, rest)) :
    BlankBehindStartLine message ↔ headersTerminator.bytes <:+: rest := by
  constructor
  · intro h
    exact h a b c rest hsplit
  · intro h a' b' c' rest' hsplit'
    obtain ⟨rfl, rfl, rfl, rfl⟩ : a = a' ∧ b = b' ∧ c = c' ∧ rest = rest' := by
      simpa using hsplit.symm.trans hsplit'
    exact h

theorem httpRequestParse_reserialized {initial parsed : HttpRequest} {raw : Span}
    (h : httpRequestParse lib initial raw = (.ok, parsed)) :
    httpRequestSerializeTo lib parsed record [] = (.ok, raw.bytes) ↔
      BlankBehindStartLine raw.bytes := by
  obtain ⟨a, b, c, rest, hsplit⟩ := httpRequestParse_ok h
  obtain ⟨h1, h2, h3⟩ := bytes_startLine hsplit
  have hrest := bytes_tail_startLine hsplit
  have hparts := written_parts_iff lib (raw.tail (startLineLength a b c))
  rw [hrest] at hparts
  rw [httpRequestParse_eq lib initial hsplit] at h
  obtain rfl := (Prod.mk.inj h).2
  rw [httpRequestSerializeTo_parts (usedSize_httpHeadersParse_le _), h1, h2, h3,
    blankBehindStartLine_iff hsplit, ← hparts, ← messageBytes_eq_iff hsplit]
  simp

theorem httpResponseParse_reserialized {initial parsed : HttpResponse} {raw : Span}
    (h : httpResponseParse lib initial raw = (.ok, parsed)) :
    httpResponseSerializeTo lib parsed record [] = (.ok, raw.bytes) ↔
      BlankBehindStartLine raw.bytes := by
  obtain ⟨a, b, c, rest, hsplit⟩ := httpResponseParse_ok h
  obtain ⟨h1, h2, h3⟩ := bytes_startLine hsplit
  have hrest := bytes_tail_startLine hsplit
  have hparts := written_parts_iff lib (raw.tail (startLineLength a b c))
  rw [hrest] at hparts
  rw [httpResponseParse_eq lib initial hsplit] at h
  obtain rfl := (Prod.mk.inj h).2
  rw [httpResponseSerializeTo_parts (usedSize_httpHeadersParse_le _), h1, h2, h3,
    blankBehindStartLine_iff hsplit, ← hparts, ← messageBytes_eq_iff hsplit]
  simp

/-- What the server's parser holds of a head, and its body, as they are serialised. -/
theorem messageBytes_head {buffer : Bytes} {h : RequestHead}
    (hs : headStatus lib buffer = .accepted h) (body : Bytes) :
    (HasFieldLine buffer ∧
      messageBytes h.method h.path h.version h.block body = buffer.take h.length ++ body) ∨
    (¬ HasFieldLine buffer ∧
      messageBytes h.method h.path h.version h.block body =
        buffer.take h.length ++ (crlf.bytes ++ body)) := by
  obtain ⟨rest, more, hbuffer, hsplit, hblock, hrest⟩ := headStatus_accepted_cases hs
  have hwhole := splitStartLine_append hsplit more
  rw [← hbuffer] at hwhole
  rw [splitStartLine_bytes hsplit, messageBytes, hblock]
  rcases hrest with rfl | ⟨x, hx, hfield, -⟩
  · refine .inr ⟨fun hline => hline _ _ _ _ hwhole (List.prefix_append _ _), ?_⟩
    have hcrlf : headBlock crlf.bytes = crlf.bytes := by decide
    simp only [hcrlf, List.append_assoc]
  · refine .inl ⟨fun a b c r hr => ?_, ?_⟩
    · obtain ⟨-, -, -, rfl⟩ : h.method = a ∧ h.path = b ∧ h.version = c ∧ rest ++ more = r := by
        simpa using hwhole.symm.trans hr
      exact hfield
    · have hmax : max 2 (rest.length - 2) = (x ++ crlf.bytes).length := by
        rw [hx]
        simp
      have htake : headBlock rest = x ++ crlf.bytes := by
        rw [headBlock, hmax, hx, ← List.append_assoc, List.take_left]
      rw [htake, hx]
      simp only [List.append_assoc]

/-- A head and its body come back as they were fed if there was a field line, unless the sum of
their lengths wraps. -/
theorem messageBytes_eq_take_iff {s : Span} {h : RequestHead} {body : Bytes}
    (hs : headStatus lib s.bytes = .accepted h)
    (hbody : h.length + h.contentLength < 2 ^ 32 →
      body = (s.bytes.drop h.length).take h.contentLength) :
    messageBytes h.method h.path h.version h.block body =
        s.bytes.take (wrap32 (h.length + h.contentLength)) ↔
      HasFieldLine s.bytes ∧ h.length + h.contentLength < 2 ^ 32 := by
  have hlen := accepted_length_le lib hs
  have hcl := accepted_contentLength_lt lib hs
  have htaken : (s.bytes.take h.length).length = h.length := by
    rw [List.length_take]
    omega
  by_cases hlt : h.length + h.contentLength < 2 ^ 32
  · rw [wrap32, Nat.mod_eq_of_lt hlt, List.take_add, ← hbody hlt]
    rcases messageBytes_head hs body with ⟨hfield, hmessage⟩ | ⟨hfield, hmessage⟩
    · exact iff_of_true hmessage ⟨hfield, hlt⟩
    · -- one CRLF too many
      refine iff_of_false (fun heq => ?_) fun hboth => hfield hboth.1
      have hcount := congrArg List.length (hmessage.symm.trans heq)
      simp at hcount
  · -- the sum has wrapped to less than the head
    refine iff_of_false (fun heq => ?_) fun hboth => hlt hboth.2
    have hshort : (s.bytes.take (wrap32 (h.length + h.contentLength))).length < h.length := by
      rw [List.length_take, wrap32]
      omega
    rcases messageBytes_head hs body with ⟨-, hmessage⟩ | ⟨-, hmessage⟩
    · rw [← heq, hmessage, List.length_append] at hshort
      omega
    · rw [← heq, hmessage, List.length_append] at hshort
      omega

/-- The bytes that a complete parser has consumed, and the request that it holds. -/
theorem feed_reserialized {buffer : Span} {ns : List Nat} {n : Nat}
    (hg : GrowingPrefixes buffer (ns ++ [n])) (hok : (feedAfter lib buffer ns n).1 = .ok) :
    httpRequestSerializeTo lib (feedAfter lib buffer ns n).2.request record [] =
      (.ok, buffer.bytes.take (httpRequestParserGetConsumed (feedAfter lib buffer ns n).2)) ↔
    HasFieldLine (buffer.bytes.take n) ∧ LengthFits lib (buffer.bytes.take n) := by
  obtain ⟨hfed, hres⟩ := feedAfter_fed lib hg
  rw [hok] at hres
  have hbytes : (buffer.sub 0 n).bytes = buffer.bytes.take n := by simp
  have hn : n ≤ buffer.bytes.length := hg.le_size n (by simp)
  have hsize : (buffer.sub 0 n).size = n := by
    simpa [Span.size] using hn
  rw [← hbytes]
  generalize (feedAfter lib buffer ns n).2 = p at hfed hres ⊢
  cases hfed with
  | missing hs hp => rcases hp with rfl | rfl <;> cases hres
  | refused hs hp =>
    rw [hp] at hres
    cases hres
  | waiting hs hlt => cases hres
  | @complete h body hs hle hbody =>
    set s := buffer.sub 0 n with hsub
    have hfits_iff : LengthFits lib s.bytes ↔ h.length + h.contentLength < 2 ^ 32 := by
      constructor
      · intro hfits
        exact hfits h hs
      · intro hlt h' hs'
        rw [hs] at hs'
        obtain rfl := HeadStatus.accepted.inj hs'
        exact hlt
    have hcontent := content_headRequest hs body
    simp only [HttpRequest.content, RequestContent.mk.injEq] at hcontent
    obtain ⟨hmethod, hpath, hversion, hblock, -⟩ := hcontent
    have hwritten : httpRequestSerializeTo lib
        { headRequest lib (s.sub 0 h.length) h with body } record [] =
        (.ok, messageBytes h.method h.path h.version h.block body.bytes) := by
      have hparts := @httpRequestSerializeTo_parts lib
        { headRequest lib (s.sub 0 h.length) h with body } (usedSize_httpHeadersParse_le _)
      rw [hparts]
      exact congrArg (fun m => (Result.ok, m)) (by rw [← hmethod, ← hpath, ← hversion, ← hblock])
    have hconsumed : httpRequestParserGetConsumed { parserAfterHead lib s h with
        request := { headRequest lib (s.sub 0 h.length) h with body }
        state := .complete } = wrap32 (h.length + h.contentLength) := rfl
    have hkept : buffer.bytes.take (wrap32 (h.length + h.contentLength)) =
        s.bytes.take (wrap32 (h.length + h.contentLength)) := by
      rw [hbytes, List.take_take, Nat.min_eq_left (hsize ▸ hle)]
    have hbodybytes : h.length + h.contentLength < 2 ^ 32 →
        body.bytes = (s.bytes.drop h.length).take h.contentLength := by
      intro hlt
      rw [hbody hlt, bodySpan]
      split_ifs with hpos
      · rfl
      · simp [Nat.eq_zero_of_not_pos hpos]
    rw [hwritten, hconsumed, hfits_iff, hkept]
    simp only [Prod.mk.injEq, true_and]
    exact messageBytes_eq_take_iff hs hbodybytes

end

/-- The messages that come back as they were: to the message parsers those with a blank line behind
the start line, to the server's parser those with a field line whose length does not wrap. -/
theorem reserialized_iff :
    (∀ (initial parsed : HttpRequest) (raw : Span),
      httpRequestParse lib initial raw = (.ok, parsed) →
        (httpRequestSerializeTo lib parsed record [] = (.ok, raw.bytes) ↔
          BlankBehindStartLine raw.bytes)) ∧
    (∀ (initial parsed : HttpResponse) (raw : Span),
      httpResponseParse lib initial raw = (.ok, parsed) →
        (httpResponseSerializeTo lib parsed record [] = (.ok, raw.bytes) ↔
          BlankBehindStartLine raw.bytes)) ∧
    (∀ (buffer : Span) (ns : List Nat) (n : Nat), GrowingPrefixes buffer (ns ++ [n]) →
      (feedAfter lib buffer ns n).1 = .ok →
        (httpRequestSerializeTo lib (feedAfter lib buffer ns n).2.request record [] =
          (.ok, buffer.bytes.take (httpRequestParserGetConsumed (feedAfter lib buffer ns n).2)) ↔
          HasFieldLine (buffer.bytes.take n) ∧ LengthFits lib (buffer.bytes.take n))) :=
  ⟨fun _ _ _ h => httpRequestParse_reserialized h, fun _ _ _ h => httpResponseParse_reserialized h,
    fun _ _ _ hg hok => feed_reserialized hg hok⟩

/-- A response with a field line and a body, and a request fed in two parts with more behind it. -/
theorem reserialized_iff_messages :
    let raw : Span := ⟨500, ascii "HTTP/1.1 200 OK\r\nA: b\r\n\r\nc"⟩
    let buffer : Span := ⟨500, ascii "GET / HTTP/1.1\r\nHost: a\r\n\r\nGET"⟩
    let parsed := httpResponseParse .reference .zero raw
    let parser := feedAfter .reference buffer [5] 30
    parsed.1 = .ok ∧ parser.1 = .ok ∧
      (httpResponseSerializeTo .reference parsed.2 record [] = (.ok, raw.bytes) ↔
        BlankBehindStartLine raw.bytes) ∧
      (httpRequestSerializeTo .reference parser.2.request record [] =
          (.ok, buffer.bytes.take (httpRequestParserGetConsumed parser.2)) ↔
        HasFieldLine (buffer.bytes.take 30) ∧ LengthFits .reference (buffer.bytes.take 30)) := by
  intro raw buffer parsed parser
  have hparsed : httpResponseParse .reference .zero raw = (.ok, parsed.2) := by decide +kernel
  have hparser : parser.1 = .ok := by decide +kernel
  exact ⟨by rw [show parsed = _ from hparsed], hparser,
    (reserialized_iff .reference).2.1 .zero parsed.2 raw hparsed,
    (reserialized_iff .reference).2.2 buffer [5] 30 (by decide) hparser⟩

/-- A head without field lines comes back with one CRLF too many. -/
theorem reserialized_bare :
    ¬ ∀ (initial parsed : HttpRequest) (raw : Span),
      httpRequestParse .reference initial raw = (.ok, parsed) →
        httpRequestSerializeTo .reference parsed record [] = (.ok, raw.bytes) := by
  intro h
  have hbad := h .zero (httpRequestParse .reference .zero
    ⟨500, ascii "GET / HTTP/1.1\r\n\r\n"⟩).2 ⟨500, ascii "GET / HTTP/1.1\r\n\r\n"⟩
    (by decide +kernel)
  exact absurd hbad (by decide +kernel)

end HttpC
