import HttpC.Connection.Truncation

/-!
# What a request leaves of its buffer

`http_connection_receive_request` hands back the part of the buffer that the request does not take.
It counts the body from the end of what was read along with the head, also where the body begins
before that.

## Main results

* `maybeReadBody_read`, `maybeReadBody_dechunked` — where the body lies on every stream.
* `receiveRequest_remainder_iff` — when the remainder starts right behind the message.
-/

namespace HttpC

open Block

/-! ## What was read along with the head -/

/-- Where the head ends in the bytes that have been read: behind the first blank line. -/
def headEnd (received : Bytes) : Nat :=
  match ListSearch.find? headersTerminator.bytes received with
  | none => received.length
  | some term => term + 4

/-- What the parser takes for the body: the bytes behind the first blank line that begins below the
start line. -/
def prefetchedBody (received : Bytes) : Bytes :=
  match splitStartLine received with
  | none => []
  | some (_, _, _, rest) => ((ListSearch.cut? headersTerminator.bytes rest).map Prod.snd).getD []

/-- No body begins before the end of the head. -/
theorem headEnd_add_prefetchedBody (received : Bytes) :
    headEnd received + (prefetchedBody received).length ≤ received.length := by
  have hfour : headersTerminator.bytes.length = 4 := by decide
  have hle : headEnd received ≤ received.length := by
    rw [headEnd]
    split
    · exact Nat.le_refl _
    · next term hterm =>
      have hlength := ListSearch.find?_length_le hterm
      omega
  rw [prefetchedBody]
  split
  · simpa using hle
  · next a b c rest hsplit =>
    cases hcut : ListSearch.cut? headersTerminator.bytes rest with
    | none => simpa using hle
    | some parts =>
      obtain ⟨before, body⟩ := parts
      obtain ⟨start, hstart⟩ : ∃ start, received = start ++ rest :=
        ⟨a ++ space.bytes ++ b ++ space.bytes ++ c ++ crlf.bytes, by
          simpa using splitStartLine_bytes hsplit⟩
      have hbytes := (ListSearch.cut?_eq_some.mp hcut).1
      have hlength : received.length = start.length + before.length + 4 + body.length := by
        rw [hstart, hbytes]
        simp only [List.length_append, hfour]
        omega
      have hat : ListSearch.OccursAt headersTerminator.bytes received
          (start.length + before.length) := by
        refine ⟨by omega, ?_⟩
        rw [hstart, hbytes, ← List.drop_drop, List.drop_left, List.drop_left]
        exact List.prefix_append _ _
      simp only [Option.map_some, Option.getD_some]
      rw [headEnd]
      cases hterm : ListSearch.find? headersTerminator.bytes received with
      | none => exact absurd hat (ListSearch.find?_eq_none.mp hterm _)
      | some term =>
        have hfirst : term ≤ start.length + before.length := by
          by_contra hlt
          exact (ListSearch.find?_eq_some.mp hterm).2 _ (by omega) hat
        dsimp only
        omega

/-- An end of the received bytes, or nothing. -/
structure ReceivedEnd (ptr : Nat) (w : Receiver) (body : Span) : Prop where
  size_le : body.size ≤ w.filled
  before : body.ptr - ptr + body.size ≤ w.filled
  start : 0 < body.size → body.ptr = ptr + (w.filled - body.size)
  bytes : window w.mem (body.ptr - ptr) body.size = body.bytes

section

variable {lib : CommonLib} {ptr : Nat} {w : Receiver}

theorem receivedEnd_empty : ReceivedEnd ptr w .empty where
  size_le := Nat.zero_le _
  before := by simp [Span.empty, Span.size]
  start h := absurd h (Nat.lt_irrefl 0)
  bytes := window_zero_length _ _

theorem receivedEnd_tail (hfit : w.filled ≤ w.mem.length) {k : Nat} (hk : k ≤ w.filled) :
    ReceivedEnd ptr w ((Span.mk ptr w.received).tail k) := by
  have hsize : ((Span.mk ptr w.received).tail k).size = w.filled - k := by
    rw [Span.size, Span.bytes_tail, List.length_drop, Receiver.length_received hfit]
  have hptr : ((Span.mk ptr w.received).tail k).ptr - ptr = k := Nat.add_sub_cancel_left _ _
  refine ⟨by omega, by omega, fun _ => ?_, ?_⟩
  · rw [hsize, Span.ptr_tail]
    dsimp only
    omega
  · rw [hptr, hsize, Span.bytes_tail, Receiver.received, window, List.drop_take]

/-- The parser takes an end of the received bytes for the body. -/
theorem httpRequestParse_body {request parsed : HttpRequest} (hfit : w.filled ≤ w.mem.length)
    (h : httpRequestParse lib request ⟨ptr, w.received⟩ = (.ok, parsed)) :
    ReceivedEnd ptr w parsed.body ∧ parsed.body.bytes = prefetchedBody w.received := by
  obtain ⟨a, b, c, rest, hsplit⟩ := httpRequestParse_ok h
  rw [httpRequestParse_eq lib request hsplit, Prod.mk.injEq] at h
  obtain ⟨-, rfl⟩ := h
  have hlength := length_splitStartLine hsplit
  rw [Receiver.length_received hfit] at hlength
  have htail := bytes_tail_startLine hsplit
  dsimp only at hsplit ⊢
  rw [prefetchedBody, hsplit]
  dsimp only
  rw [← htail]
  cases hcut : ListSearch.cut? headersTerminator.bytes
      ((Span.mk ptr w.received).tail (startLineLength a b c)).bytes with
  | none =>
    rw [splitHeadersAndBody_no_blank lib hcut]
    exact ⟨receivedEnd_empty, rfl⟩
  | some parts =>
    obtain ⟨before, body⟩ := parts
    have hcontent := (ListSearch.cut?_eq_some.mp hcut).1
    have hbytes := congrArg List.length hcontent
    rw [htail, headersTerminator_bytes, List.length_append, List.length_append] at hbytes
    rw [splitHeadersAndBody_blank lib hcut]
    refine ⟨?_, ?_⟩
    · rw [Span.tail_tail]
      exact receivedEnd_tail hfit (by simp at hbytes; omega)
    · have hfour : headersTerminator.bytes.length = 4 := by decide
      rw [Span.bytes_tail, hcontent, ← List.drop_drop, List.drop_left, List.drop_left' hfour]
      rfl

/-! ## The body stage on any stream -/

/-- The length a Content-Length declares, `0` without one. -/
def declaredBody (lib : CommonLib) (headers : HttpHeaders) : Nat :=
  match httpHeadersFind lib headers HTTP_HEADER_CONTENT_LENGTH with
  | .ok value => (lib.spanToUInt32 value).getD 0
  | .error _ => 0

/-- The body is dechunked. -/
def IsChunked (lib : CommonLib) (headers : HttpHeaders) : Prop :=
  (∃ e, httpHeadersFind lib headers HTTP_HEADER_CONTENT_LENGTH = .error e) ∧
    ∃ teValue, httpHeadersFind lib headers HTTP_HEADER_TRANSFER_ENCODING = .ok teValue ∧
      transferEncodingIsChunked teValue.bytes = true

/-- The reads for a body that ends at offset `t` of the buffer fill it to its end. -/
def FillsBuffer (w : Receiver) (t : Nat) : Prop :=
  w.mem.length ≤ w.image.length ∧ ∀ b ∈ cutsFrom w.filled w.wire, t ≤ b → w.mem.length ≤ b

/-- A body that lies at the end of what has been read. -/
structure BodyAtEnd (ptr : Nat) (w w' : Receiver) (body body' : Span) : Prop where
  length_mem : w'.mem.length = w.mem.length
  le : w.filled ≤ w'.filled
  le_mem : w'.filled ≤ w.mem.length
  size : body'.size = body.size + (w'.filled - w.filled)
  start : 0 < body'.size → body'.ptr = ptr + (w'.filled - body'.size)

/-- Nothing is read. -/
theorem ReceivedEnd.unread {body : Span} (h : ReceivedEnd ptr w body)
    (hfit : w.filled ≤ w.mem.length) :
    BodyAtEnd ptr w w body body ∧
      (w.filled = w.mem.length ↔ FillsBuffer w (w.filled - body.size + 0)) := by
  have hlength : w.filled ≤ w.image.length := by
    rw [Receiver.image, List.length_append, Receiver.length_received hfit]
    exact Nat.le_add_right _ _
  refine ⟨⟨rfl, Nat.le_refl _, hfit, by omega, h.start⟩, fun hfull => ⟨by omega, fun b hb _ => ?_⟩,
    fun hfills => ?_⟩
  · have hle := le_of_mem_cutsFrom hb
    omega
  · have hle := hfills.2 w.filled (mem_cutsFrom _ _) (by omega)
    omega

/-- What is read is appended to the body. -/
theorem ReceivedEnd.appended {body : Span} {w' : Receiver} (h : ReceivedEnd ptr w body)
    (hlength : w'.mem.length = w.mem.length) (hge : w.filled ≤ w'.filled)
    (hle : w'.filled ≤ w.mem.length) :
    BodyAtEnd ptr w w' body
      (if w'.filled - w.filled = 0 then body
        else spanAt ptr w'.mem (if body.isEmpty then w.filled else body.ptr - ptr)
          (body.size + (w'.filled - w.filled))) := by
  have hsize := h.size_le
  by_cases hgot : w'.filled - w.filled = 0
  · rw [if_pos hgot]
    refine ⟨hlength, hge, hle, by omega, fun hpos => ?_⟩
    rw [h.start hpos, show w'.filled = w.filled by omega]
  · rw [if_neg hgot]
    set start := if body.isEmpty then w.filled else body.ptr - ptr with hstart
    have hend : start + body.size = w.filled := by
      rw [hstart]
      split_ifs with hempty
      · have hzero : body.size = 0 := by simpa [Span.isEmpty] using hempty
        omega
      · have hpos : 0 < body.size := by simpa [Span.isEmpty, Nat.pos_iff_ne_zero] using hempty
        rw [h.start hpos]
        omega
    have hcount : (spanAt ptr w'.mem start (body.size + (w'.filled - w.filled))).size =
        body.size + (w'.filled - w.filled) := length_window (by omega)
    refine ⟨hlength, hge, hle, hcount, fun _ => ?_⟩
    rw [hcount, spanAt]
    dsimp only
    omega

/-- Reads that stop with as much as is needed end with the buffer if every read that could be the
last one does. -/
theorem fillsBuffer_iff {enough : Bytes → Bool} {t : Nat} {w₁ w' : Receiver} {result : Result}
    (hflow : Flow w.mem.length enough w w₁) (hstop : Stopped w.mem.length enough w₁ result w')
    (hok : lib.isError result = false)
    (henough : ∀ k, w.filled ≤ k → k ≤ w.image.length → (enough (w.image.take k) = true ↔ t ≤ k)) :
    w₁.filled = w.mem.length ↔ FillsBuffer w t := by
  have hle := hflow.le_limit
  have hlength : w₁.received.length = w₁.filled :=
    Receiver.length_received (by rw [hflow.length_mem]; exact hle)
  have hstream : w₁.filled ≤ w.image.length := by
    rw [← hflow.image, Receiver.image, List.length_append, hlength]
    exact Nat.le_add_right _ _
  constructor
  · intro hfull
    refine ⟨by omega, fun b hb hlate => ?_⟩
    by_contra hlt
    have hfew := hflow.tooLittle b hb (by omega)
    have hlow := le_of_mem_cutsFrom hb
    rw [Bool.eq_false_iff, ne_eq, henough b hlow (by omega)] at hfew
    exact hfew hlate
  · rintro ⟨hlong, hlater⟩
    cases hstop with
    | enough hdone =>
      rw [hflow.received (Nat.le_refl _), henough _ hflow.le hstream] at hdone
      rcases hflow.cuts _ (mem_cutsFrom _ _) with hcut | hcap
      · have hcap := hlater _ hcut hdone
        omega
      · exact hcap
    | full => simp at hok
    | ended hfew hroom hover hend =>
      have himage := congrArg List.length hflow.image
      rw [Receiver.image, hover, List.append_nil, hlength] at himage
      omega

/-- The rest of a declared body is read. -/
theorem ReceivedEnd.readRemainingBody {body body' : Span} {w' : Receiver} {result : Result}
    {n : Nat} (h : ReceivedEnd ptr w body) (hfit : w.filled ≤ w.mem.length)
    (hrun : readRemainingBody ptr body w n = some (result, body', w'))
    (hok : lib.isError result = false) :
    BodyAtEnd ptr w w' body body' ∧
      (w'.filled = w.mem.length ↔ FillsBuffer w (w.filled - body.size + n)) ∧
      (body.size = 0 → 0 < n → (w'.filled = w.filled ↔ arriving w.wire = [])) := by
  obtain ⟨r, w₂, w₁, hreceive, hflow, hstop⟩ := @receive_spec w.mem.length
    (fun received => n ≤ body.size + (received.length - w.filled)) w (Nat.le_refl _) hfit
  rw [HttpC.readRemainingBody, hreceive, Option.map_some, Option.some.injEq, Prod.mk.injEq,
    Prod.mk.injEq] at hrun
  obtain ⟨rfl, rfl, rfl⟩ := hrun
  have hmem : w₂.mem = w₁.mem ∧ w₂.filled = w₁.filled := by
    cases hstop <;> exact ⟨rfl, rfl⟩
  have hlength : w₂.mem.length = w.mem.length := by rw [hmem.1, hflow.length_mem]
  refine ⟨h.appended hlength (hmem.2 ▸ hflow.le) (hmem.2 ▸ hflow.le_limit), ?_, ?_⟩
  · rw [hmem.2]
    refine fillsBuffer_iff hflow hstop hok fun k hk hk' => ?_
    rw [decide_eq_true_iff, List.length_take, Nat.min_eq_left hk']
    have hsize := h.size_le
    omega
  · intro hempty hpos
    rw [hmem.2, ← List.length_eq_zero_iff]
    have hcount : w₁.received.length = w₁.filled :=
      Receiver.length_received (by rw [hflow.length_mem]; exact hflow.le_limit)
    have himage := congrArg List.length hflow.image
    rw [Receiver.image, Receiver.image, List.length_append, List.length_append, hcount,
      Receiver.length_received hfit] at himage
    cases hstop with
    | enough hdone =>
      rw [decide_eq_true_iff, hcount] at hdone
      omega
    | full => simp at hok
    | ended hfew hroom hover hend =>
      rw [hover, List.length_nil] at himage
      omega

/-- Without chunks the body ends where the reads end. -/
theorem maybeReadBody_read {headers : HttpHeaders} {body body' : Span} {w' : Receiver}
    {result : Result} (hbody : ReceivedEnd ptr w body) (hfit : w.filled ≤ w.mem.length)
    (hrun : maybeReadBody lib ptr headers body w = some (result, body', w'))
    (hok : lib.isError result = false) (hplain : ¬ IsChunked lib headers) :
    BodyAtEnd ptr w w' body body' ∧
      (w'.filled = w.mem.length ↔
        FillsBuffer w (w.filled - body.size + declaredBody lib headers)) ∧
      (body.size = 0 →
        (body'.size = 0 ↔ declaredBody lib headers = 0 ∨ arriving w.wire = [])) := by
  rw [maybeReadBody] at hrun
  rw [declaredBody]
  cases hlength : httpHeadersFind lib headers HTTP_HEADER_CONTENT_LENGTH with
  | ok value =>
    rw [hlength] at hrun
    dsimp only at hrun ⊢
    cases hvalue : lib.spanToUInt32 value with
    | none =>
      rw [hvalue] at hrun
      obtain ⟨rfl, -⟩ := Prod.mk.inj (Option.some.inj hrun)
      simp at hok
    | some n =>
      rw [hvalue] at hrun
      dsimp only at hrun
      split_ifs at hrun with hzero
      · obtain ⟨-, hrun⟩ := Prod.mk.inj (Option.some.inj hrun)
        obtain ⟨rfl, rfl⟩ := Prod.mk.inj hrun
        rw [Option.getD_some, hzero]
        obtain ⟨hend, hfull⟩ := hbody.unread hfit
        exact ⟨hend, hfull, fun hempty => iff_of_true hempty (.inl rfl)⟩
      · obtain ⟨hend, hfull, hnothing⟩ := hbody.readRemainingBody hfit hrun hok
        refine ⟨hend, hfull, fun hempty => ?_⟩
        rw [Option.getD_some, or_iff_right hzero,
          ← hnothing hempty (Nat.pos_of_ne_zero hzero), hend.size, hempty]
        have hge := hend.le
        omega
  | error e =>
    rw [hlength] at hrun
    dsimp only at hrun ⊢
    have hunread : (Result.ok, body, w) = (result, body', w') →
        BodyAtEnd ptr w w' body body' ∧
          (w'.filled = w.mem.length ↔ FillsBuffer w (w.filled - body.size + 0)) ∧
          (body.size = 0 → (body'.size = 0 ↔ 0 = 0 ∨ arriving w.wire = [])) := by
      intro heq
      obtain ⟨-, heq⟩ := Prod.mk.inj heq
      obtain ⟨rfl, rfl⟩ := Prod.mk.inj heq
      obtain ⟨hend, hfull⟩ := hbody.unread hfit
      exact ⟨hend, hfull, fun hempty => iff_of_true hempty (.inl rfl)⟩
    cases hte : httpHeadersFind lib headers HTTP_HEADER_TRANSFER_ENCODING with
    | error e' =>
      rw [hte] at hrun
      exact hunread (Option.some.inj hrun)
    | ok teValue =>
      have hidentity : transferEncodingIsChunked teValue.bytes ≠ true := fun hchunked =>
        hplain ⟨⟨e, hlength⟩, teValue, hte, hchunked⟩
      rw [hte] at hrun
      dsimp only at hrun
      rw [if_neg hidentity] at hrun
      exact hunread (Option.some.inj hrun)

/-- The first chunk size: the number in the hex digits that have been read by the time that a first
byte behind the head is needed, from what came with the head and fits the free part on. -/
def firstChunkSize (w : Receiver) : Nat :=
  let prefetched := prefetchedBody w.received
  let cap := w.mem.length - w.filled
  sizeAt (stopAt (cutsFrom (min prefetched.length cap) w.wire) cap)
    ((prefetched ++ arriving w.wire).take cap) 0 prefetched.length

/-- A dechunked body starts behind what was read along with the head. It is empty exactly if the
first size that is read is zero. -/
theorem maybeReadBody_dechunked {headers : HttpHeaders} {body body' : Span} {w' : Receiver}
    {result : Result} (hbody : ReceivedEnd ptr w body) (hfit : w.filled ≤ w.mem.length)
    (hprefetched : body.bytes = prefetchedBody w.received)
    (hrun : maybeReadBody lib ptr headers body w = some (result, body', w'))
    (hok : lib.isError result = false) (hchunked : IsChunked lib headers) :
    w.mem.length ≤ w'.mem.length ∧ body'.ptr = ptr + w.filled ∧
      w.filled + body'.size ≤ w.mem.length ∧ (body'.size = 0 ↔ firstChunkSize w = 0) := by
  obtain ⟨⟨e, hlength⟩, teValue, hte, hchunked⟩ := hchunked
  rw [maybeReadBody, hlength, hte] at hrun
  dsimp only at hrun
  rw [if_pos hchunked] at hrun
  set k := chunkedCall ptr body w with hk
  obtain ⟨r, s, hcall, -, herror, hspec⟩ := k.run_ok_iff lib hbody.before
    (show w.filled + (w.mem.length - w.filled) ≤ w.mem.length by omega)
  have hread : readChunkedBody lib w.filled (w.mem.length - w.filled) w.filled
      (w.mem.length - w.filled) w.mem w.wire (body.ptr - ptr) body.size = some (r, s) := hcall
  rw [hread] at hrun
  dsimp only at hrun
  cases hr : lib.isError r with
  | true =>
    rw [hr, if_pos rfl] at hrun
    obtain ⟨rfl, -⟩ := Prod.mk.inj (Option.some.inj hrun)
    simp [hr] at hok
  | false =>
    rw [hr, if_neg (by decide)] at hrun
    obtain ⟨-, hrun⟩ := Prod.mk.inj (Option.some.inj hrun)
    obtain ⟨rfl, rfl⟩ := Prod.mk.inj hrun
    have hspec := hspec (herror.resolve_right (by simp [hr]))
    have hfit' : w.filled + (w.mem.length - w.filled) ≤ s.mem.length := hspec.1
    have holen : s.olen ≤ w.mem.length - w.filled := hspec.2.1
    have hsize : (spanAt ptr s.mem w.filled s.olen).size = s.olen := length_window (by omega)
    refine ⟨by dsimp only; omega, rfl, by omega, ?_⟩
    have hbytes : k.prefetched = prefetchedBody w.received := hbody.bytes.trans hprefetched
    have hlen : k.rlen = (prefetchedBody w.received).length := congrArg List.length hprefetched
    rw [hsize, hspec.2.2, hbytes, hlen, firstChunkSize]
    exact Iff.rfl

end

/-! ## The remainder -/

/-- The remainder is what is behind the body, or behind the head without one, up to the end of a
buffer of `cap` bytes at `ptr`. -/
def StartsBehind (ptr cap headEnd : Nat) (body remainder : Span) : Prop :=
  let messageEnd := if body.isEmpty then headEnd else body.ptr - ptr + body.size
  remainder.size = cap - messageEnd ∧ (0 < remainder.size → remainder.ptr = ptr + messageEnd)

instance (ptr cap headEnd : Nat) (body remainder : Span) :
    Decidable (StartsBehind ptr cap headEnd body remainder) := inferInstanceAs (Decidable (_ ∧ _))

/-- The reads for the head stop where it ends; or the body is dechunked behind what they took and is
not empty; or it is read as it stands, and there is some of it but none came with the head, or it
ends with the buffer. -/
def CountsFromHead (lib : CommonLib) (w : Receiver) (headers : HttpHeaders) : Prop :=
  let prefetched := prefetchedBody w.received
  w.filled = headEnd w.received ∨
    (IsChunked lib headers ∧ firstChunkSize w ≠ 0) ∨
    (¬ IsChunked lib headers ∧
      if prefetched = [] then declaredBody lib headers ≠ 0 ∧ arriving w.wire ≠ []
      else FillsBuffer w (w.filled - prefetched.length + declaredBody lib headers))

section

variable {lib : CommonLib} {ptr : Nat} {mem : Bytes} {wire : Wire} {w : Receiver}

theorem httpRequestParse_result (request : HttpRequest) (raw : Span) :
    (httpRequestParse lib request raw).1 = .ok ∨ (httpRequestParse lib request raw).1 = .error := by
  rw [httpRequestParse]
  split
  · exact .inr rfl
  · dsimp only
    split
    · exact .inr rfl
    · split
      · exact .inr rfl
      · exact .inl rfl

theorem readUntilHeadersComplete_fit {result : Result}
    (h : readUntilHeadersComplete lib ptr mem wire = some (result, w)) :
    w.mem.length = mem.length ∧ w.filled ≤ mem.length := by
  obtain ⟨r, w', w₁, hrun, hflow, hstop⟩ := @receive_spec mem.length
    (fun received => (lib.spanFindReverse ⟨ptr, received⟩ headersTerminator).isSome)
    ⟨mem, 0, wire⟩ (Nat.le_refl _) (Nat.zero_le _)
  rw [readUntilHeadersComplete, hrun] at h
  obtain ⟨-, rfl⟩ := Prod.mk.inj (Option.some.inj h)
  cases hstop <;> exact ⟨hflow.length_mem, hflow.le_limit⟩

/-- On a stream that starts with a head, `headEnd` is where that ends, and the reads for the head
end there if one of them does. -/
theorem headEnd_wellFormed {head : MessageHead} {rest : Bytes} (hwf : head.WellFormed)
    (hstream : arriving wire = head.encode ++ rest)
    (hhead : readUntilHeadersComplete lib ptr mem wire = some (.ok, w)) :
    headEnd w.received = head.encode.length ∧
      (w.filled = headEnd w.received ↔ StopsAt mem.length head.encode.length wire) := by
  have hread : HeadRead mem wire head w := by
    rcases readUntilHeadersComplete_spec lib ptr mem hwf hstream with ⟨-, w', hrun⟩ | ⟨w', hrun, h⟩
    · rw [hhead] at hrun
      cases hrun
    · obtain rfl := (Prod.mk.inj (Option.some.inj (hhead.symm.trans hrun))).2
      exact h
  have hle := hread.le
  have hreceived := hread.received_eq
  rw [hstream, List.take_append, List.take_of_length_le hle] at hreceived
  have hend : headEnd w.received = head.encode.length := by
    rw [headEnd, hreceived, hwf.find?_terminator]
    have hlength := head.length_encode
    simp only [MessageHead.encode, List.length_append, crlf_length]
    omega
  have hlength := hread.filled_le
  refine ⟨hend, ?_⟩
  rw [hend, StopsAt, if_pos (hle.trans hlength)]
  cases hread.bodyRead with
  | complete _ _ _ _ hexact => exact hexact
  | ended hlt => omega

/-- The stages of a call that hands back a remainder. -/
theorem receiveRequest_stages {request message : HttpRequest} {remainder : Span}
    (h : receiveRequest lib ptr mem wire request = some (.returned .ok message (some remainder))) :
    ∃ w parsed result body w', readUntilHeadersComplete lib ptr mem wire = some (.ok, w) ∧
      httpRequestParse lib request ⟨ptr, w.received⟩ = (.ok, parsed) ∧
      maybeReadBody lib ptr parsed.headers parsed.body w = some (result, body, w') ∧
      lib.isError result = false ∧ message.body = body.reread ptr w'.mem ∧
      remainder =
        let free := spanAt ptr w'.mem w.filled (mem.length - w.filled)
        if body.size ≤ free.size then lib.spanSliceToEnd free body.size else .empty := by
  rw [receiveRequest] at h
  cases hhead : readUntilHeadersComplete lib ptr mem wire with
  | none => simp [hhead] at h
  | some out =>
    obtain ⟨result, w⟩ := out
    simp only [hhead] at h
    by_cases herror : lib.isError result = true
    · rw [if_pos herror] at h
      cases h
    rw [if_neg herror] at h
    by_cases hresult : result ≠ .ok
    · rw [if_pos hresult] at h
      cases h
    rw [if_neg hresult] at h
    obtain rfl := not_not.mp hresult
    rcases hparse : httpRequestParse lib request ⟨ptr, w.received⟩ with ⟨result, parsed⟩
    have hcases := @httpRequestParse_result lib request ⟨ptr, w.received⟩
    simp only [hparse] at h hcases
    rcases hcases with rfl | rfl
    swap
    · simp at h
    rw [if_neg herror] at h
    refine ⟨w, parsed, ?_⟩
    cases hbody : maybeReadBody lib ptr parsed.headers parsed.body w with
    | none => simp [hbody] at h
    | some out =>
      obtain ⟨result, body, w'⟩ := out
      simp only [hbody] at h
      cases hresult' : lib.isError result with
      | true =>
        rw [hresult', if_pos rfl] at h
        cases h
      | false =>
        rw [hresult', if_neg (by decide)] at h
        obtain ⟨-, rfl, hremainder⟩ := ReceiveOutcome.returned.inj (Option.some.inj h)
        exact ⟨result, body, w', rfl, hparse, rfl, hresult', rfl, (Option.some.inj hremainder).symm⟩

/-- The remainder is what the free buffer holds behind as many bytes as the body has. -/
theorem remainder_layout {cap filled : Nat} {body remainder : Span} {mem : Bytes}
    (hfilled : filled ≤ cap) (hmem : cap ≤ mem.length)
    (h : remainder =
      let free := spanAt ptr mem filled (cap - filled)
      if body.size ≤ free.size then lib.spanSliceToEnd free body.size else .empty) :
    remainder.size = cap - (filled + body.size) ∧
      (0 < remainder.size → remainder.ptr = ptr + (filled + body.size)) := by
  have hfree : (spanAt ptr mem filled (cap - filled)).size = cap - filled :=
    length_window (by omega)
  dsimp only at h
  split_ifs at h with hfits
  · rw [h, lib.spanSliceToEnd_eq _ _ hfits, Span.size, Span.bytes_tail, List.length_drop,
      ← Span.size, hfree]
    exact ⟨(Nat.sub_add_eq _ _ _).symm, fun _ => Nat.add_assoc _ _ _⟩
  · have hzero : remainder.size = 0 := by
      rw [h]
      rfl
    exact ⟨by omega, fun hpos => by omega⟩

/-- The property of a body that is inside the buffer, in numbers. -/
theorem startsBehind_iff {cap headEnd filled : Nat} {body remainder : Span} {mem : Bytes}
    (hmem : cap ≤ mem.length) (hhead : headEnd ≤ cap)
    (hin : 0 < body.size → body.ptr - ptr + body.size ≤ cap)
    (hsize : remainder.size = cap - (filled + body.size))
    (hptr : 0 < remainder.size → remainder.ptr = ptr + (filled + body.size)) :
    StartsBehind ptr cap headEnd (body.reread ptr mem) remainder ↔
      (if body.size = 0 then headEnd else body.ptr - ptr + body.size) =
        min cap (filled + body.size) := by
  have hreread : (body.reread ptr mem).size = body.size := by
    rcases Nat.eq_zero_or_pos body.size with hzero | hpos
    · rw [Span.size, Span.reread, hzero, window_zero_length]
      rfl
    · exact length_window ((hin hpos).trans hmem)
  have hend : (if (body.reread ptr mem).isEmpty then headEnd
      else (body.reread ptr mem).ptr - ptr + (body.reread ptr mem).size) =
        if body.size = 0 then headEnd else body.ptr - ptr + body.size := by
    rw [Span.isEmpty, hreread]
    simp only [beq_iff_eq]
    rfl
  have hle : (if body.size = 0 then headEnd else body.ptr - ptr + body.size) ≤ cap := by
    split_ifs with hzero
    · exact hhead
    · exact hin (Nat.pos_of_ne_zero hzero)
  rw [StartsBehind, hend]
  generalize (if body.size = 0 then headEnd else body.ptr - ptr + body.size) = messageEnd at hle ⊢
  rw [hsize] at hptr ⊢
  constructor
  · rintro ⟨hbehind, -⟩
    omega
  · intro hbehind
    exact ⟨by omega, fun hpos => by rw [hptr hpos]; omega⟩

/-- The remainder starts right behind the message exactly if nothing was read behind the head along
with it, if there are chunks to be moved behind what was, or if the reads for the body start where
it does or end with the buffer. -/
theorem receiveRequest_remainder_iff {request message : HttpRequest} {remainder : Span}
    (h : receiveRequest lib ptr mem wire request = some (.returned .ok message (some remainder))) :
    ∃ w parsed, readUntilHeadersComplete lib ptr mem wire = some (.ok, w) ∧
      httpRequestParse lib request ⟨ptr, w.received⟩ = (.ok, parsed) ∧
      (StartsBehind ptr mem.length (headEnd w.received) message.body remainder ↔
        CountsFromHead lib w parsed.headers) := by
  obtain ⟨w, parsed, result, body, w', hhead, hparse, hrun, hok, hmessage, hremainder⟩ :=
    receiveRequest_stages h
  refine ⟨w, parsed, hhead, hparse, ?_⟩
  obtain ⟨hmem, hfit⟩ := readUntilHeadersComplete_fit hhead
  rw [← hmem] at hfit hremainder ⊢
  obtain ⟨hend, hbytes⟩ := httpRequestParse_body hfit hparse
  have hprefetched : parsed.body.size = (prefetchedBody w.received).length :=
    congrArg List.length hbytes
  have hbefore := headEnd_add_prefetchedBody w.received
  rw [Receiver.length_received hfit] at hbefore
  rw [hmessage, CountsFromHead]
  by_cases hchunked : IsChunked lib parsed.headers
  · obtain ⟨hlength, hstart, hinside, hfirst⟩ :=
      maybeReadBody_dechunked hend hfit hbytes hrun hok hchunked
    obtain ⟨hsize, hptr⟩ := remainder_layout hfit hlength hremainder
    rw [startsBehind_iff hlength (by omega) (fun _ => by omega) hsize hptr]
    simp only [hchunked, true_and, not_true_eq_false, false_and, or_false, ne_eq, ← hfirst]
    -- a body that is decoded starts behind what came with the head, so only an empty one can fail
    split_ifs with hzero
    · simp only [hzero, not_true_eq_false, or_false]
      omega
    · exact iff_of_true (by omega) (.inr hzero)
  · obtain ⟨hread, hfull, hnothing⟩ := maybeReadBody_read hend hfit hrun hok hchunked
    have hle := hread.le
    have hle_mem := hread.le_mem
    have hcount := hread.size
    have hstart := hread.start
    obtain ⟨hsize, hptr⟩ := remainder_layout hfit hread.length_mem.ge hremainder
    rw [startsBehind_iff hread.length_mem.ge (by omega)
      (fun hpos => by rw [hstart hpos]; omega) hsize hptr]
    simp only [hchunked, false_and, not_false_eq_true, true_and, false_or]
    rw [← hprefetched, ← hfull]
    by_cases hnone : prefetchedBody w.received = []
    · -- the reads for the body start where it does
      have hempty : parsed.body.size = 0 := by rw [hprefetched, hnone, List.length_nil]
      rw [if_pos hnone, ← not_or, ← hnothing hempty]
      split_ifs with hzero
      · simp only [hzero, not_true_eq_false, or_false]
        omega
      · rw [hstart (Nat.pos_of_ne_zero hzero)]
        exact iff_of_true (by omega) (.inr hzero)
    · -- the prefetched part of the body is counted twice
      have hpos := List.length_pos_iff.mpr hnone
      rw [if_neg hnone, if_neg (by omega), hstart (by omega)]
      omega

end

/-- Where the body is, its length and the length of the remainder. -/
def ReceiveOutcome.extent : ReceiveOutcome HttpRequest → Nat × Nat × Nat
  | .returned _ message (some remainder) => (message.body.ptr, message.body.size, remainder.size)
  | _ => (0, 0, 0)

theorem exists_returned {outcome : Option (ReceiveOutcome HttpRequest)}
    (h : outcome.map (fun out => out matches .returned .ok _ (some _)) = some true) :
    ∃ message remainder, outcome = some (.returned .ok message (some remainder)) := by
  match outcome, h with
  | some (.returned .ok message (some remainder)), _ => exact ⟨message, remainder, rfl⟩

/-- The byte that is declared arrives in a read of its own, and the remainder is behind it. -/
theorem receiveRequest_remainder_own_read :
    let wire : Wire := [.data oneByteHead.encode, .data (ascii "a")]
    ∃ message remainder,
      receiveRequest .reference 1000 (List.replicate 64 0) wire .zero =
          some (.returned .ok message (some remainder)) ∧
        ∃ w parsed, readUntilHeadersComplete .reference 1000 (List.replicate 64 0) wire =
            some (.ok, w) ∧ httpRequestParse .reference .zero ⟨1000, w.received⟩ = (.ok, parsed) ∧
          StartsBehind 1000 64 (headEnd w.received) message.body remainder := by
  intro wire
  obtain ⟨message, remainder, hcall⟩ := @exists_returned
    (receiveRequest .reference 1000 (List.replicate 64 0) wire .zero) (by decide +kernel)
  obtain ⟨w, parsed, hhead, hparse, hiff⟩ := receiveRequest_remainder_iff hcall
  have hstream : arriving wire = oneByteHead.encode ++ ascii "a" := by decide +kernel
  have hstops := (headEnd_wellFormed oneByteHead_wellFormed hstream hhead).2
  exact ⟨message, remainder, hcall, w, parsed, hhead, hparse,
    hiff.mpr (.inl (hstops.mpr (by decide +kernel)))⟩

/-- The byte that is declared comes with the head. The remainder leaves out the first free byte. -/
theorem receiveRequest_remainder_skips :
    ¬ ∀ (lib : CommonLib) (ptr : Nat) (mem : Bytes) (wire : Wire) (request message : HttpRequest)
      (remainder : Span) (w : Receiver),
      receiveRequest lib ptr mem wire request = some (.returned .ok message (some remainder)) →
      readUntilHeadersComplete lib ptr mem wire = some (.ok, w) →
      StartsBehind ptr mem.length (headEnd w.received) message.body remainder := by
  intro h
  set wire : Wire := [.data (oneByteHead.encode ++ ascii "a")] with hwire
  obtain ⟨message, remainder, hcall⟩ := @exists_returned
    (receiveRequest .reference 1000 (List.replicate 64 0) wire .zero) (by decide +kernel)
  obtain ⟨w, -, -, -, -, hhead, -⟩ := receiveRequest_stages hcall
  have hbehind := h _ _ _ _ _ _ _ _ hcall hhead
  -- the message ends at offset 39 of 64
  have hsizes : (receiveRequest .reference 1000 (List.replicate 64 0) wire .zero).map
      ReceiveOutcome.extent = some (1038, 1, 24) := by decide +kernel
  rw [hcall, Option.map_some, Option.some.injEq, ReceiveOutcome.extent, Prod.mk.injEq,
    Prod.mk.injEq] at hsizes
  obtain ⟨hptr, hsize, hremainder⟩ := hsizes
  have hcounts := hbehind.1
  rw [Span.isEmpty, hsize, if_neg (by decide), hptr, hremainder] at hcounts
  exact absurd hcounts (by decide)

end HttpC
