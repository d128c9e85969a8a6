import HttpC.Connection.Dechunking
import HttpC.Connection.HeadReader
import HttpC.RequestParser

/-!
# Receiving a request

`read_remaining_body`, `maybe_read_body` and `http_connection_receive_request` of
`http_connection.c`. The body of a request begins with what was read along with the head; with
a Content-Length the rest is read behind it, each read into all of the free buffer.

## Main results

* `body_framed_iff` — the body is what the head declares exactly when no read runs past its end
  and the stream does not end inside it.
-/

namespace HttpC

open Block

/-! ## The model -/

def HttpRequest.reread (r : HttpRequest) (ptr : Nat) (mem : Bytes) : HttpRequest where
  method := r.method.reread ptr mem
  path := r.path.reread ptr mem
  httpVersion := r.httpVersion.reread ptr mem
  headers := r.headers.reread ptr mem
  body := r.body.reread ptr mem

section

variable (lib : CommonLib) (ptr : Nat)

/-- `read_remaining_body`. An empty body is anchored at the first bytes read. -/
def readRemainingBody (body : Span) (w : Receiver) (needed : Nat) :
    Option (Result × Span × Receiver) :=
  (receive w.mem.length (fun received => needed ≤ body.size + (received.length - w.filled)) w).map
    fun (result, w') =>
      let start := if body.isEmpty then w.filled else body.ptr - ptr
      let got := w'.filled - w.filled
      (result, if got = 0 then body else spanAt ptr w'.mem start (body.size + got), w')

/-- `transfer_encoding_is_chunked`: "chunked" anywhere in the value, in any letter case. -/
def transferEncodingIsChunked (teValue : Bytes) : Bool :=
  (List.range (teValue.length + 1 - 7)).any fun i =>
    lower ((teValue.drop i).take 7) == ascii "chunked"

/-- `maybe_read_body`, with the free buffer behind what is filled. -/
def maybeReadBody (headers : HttpHeaders) (body : Span) (w : Receiver) :
    Option (Result × Span × Receiver) :=
  match httpHeadersFind lib headers HTTP_HEADER_CONTENT_LENGTH with
  | .ok value =>
    match lib.spanToUInt32 value with
    | none => some (.error, body, w)
    | some contentLength =>
      if contentLength = 0 then some (.ok, body, w)
      else readRemainingBody ptr body w contentLength
  | .error _ =>
    match httpHeadersFind lib headers HTTP_HEADER_TRANSFER_ENCODING with
    | .error _ => some (.ok, body, w)
    | .ok teValue =>
      if transferEncodingIsChunked teValue.bytes then
        -- dechunked in place: output and raw buffer are the free buffer
        let raw := w.filled
        let cap := w.mem.length - w.filled
        match readChunkedBody lib raw cap raw cap w.mem w.wire (body.ptr - ptr) body.size with
        | none => none
        | some (result, s) =>
          let w' := ⟨s.mem, raw + s.rawLen, s.wire⟩
          if lib.isError result then some (result, body, w')
          else some (.ok, spanAt ptr s.mem raw s.olen, w')
      else some (.ok, body, w)

/-- How a receive function ends. The remainder is set with `ok` only. -/
inductive ReceiveOutcome (α : Type) where
  | returned (result : Result) (message : α) (remainder : Option Span)
  /-- It went on with spans that were never assigned. -/
  | unassigned
  deriving DecidableEq, Repr

/-- The result and the message of a function that returned. -/
def ReceiveOutcome.answer {α : Type} : ReceiveOutcome α → Option (Result × α)
  | .returned result message _ => some (result, message)
  | .unassigned => none

/-- `http_connection_receive_request` into the buffer `mem` at `ptr`. The end of the stream is
not an error to `is_error`. -/
def receiveRequest (mem : Bytes) (wire : Wire) (request : HttpRequest) :
    Option (ReceiveOutcome HttpRequest) :=
  match readUntilHeadersComplete lib ptr mem wire with
  | none => none
  | some (result, w) =>
    if lib.isError result then some (.returned result request none)
    else if result ≠ .ok then some .unassigned
    else
      let (result, request) := httpRequestParse lib request ⟨ptr, w.received⟩
      if lib.isError result then some (.returned result request none)
      else
        match maybeReadBody lib ptr request.headers request.body w with
        | none => none
        | some (result, body, w') =>
          let request := { request with body }.reread ptr w'.mem
          if lib.isError result then some (.returned result request none)
          else
            let remainder := spanAt ptr w'.mem w.filled (mem.length - w.filled)
            some (.returned .ok request (some
              (if body.size ≤ remainder.size then lib.spanSliceToEnd remainder body.size
              else .empty)))

end

/-! ## The head and the declared length -/

section

variable (lib : CommonLib) (ptr : Nat) {head : MessageHead} {rest : Bytes} {w : Receiver}

/-- The request parser on what was read along with the head. -/
theorem httpRequestParse_received (hwf : head.WellFormed) (hfields : head.fields ≠ [])
    (request : HttpRequest) {received : Span} (hreceived : received.bytes = head.encode ++ rest) :
    ∃ request', httpRequestParse lib request received = (.ok, request') ∧
      request'.body = received.tail head.encode.length ∧
      ∀ name : Span, name.bytes ≠ [] → (httpHeadersFind lib request'.headers name).map Span.bytes =
        (lookup head.fields name.bytes).elim (.error .notFound) .ok := by
  have hsplit := hreceived ▸ hwf.splitStartLine_eq rest
  have htail := bytes_tail_startLine hsplit
  refine ⟨_, httpRequestParse_eq lib request hsplit, ?_, ?_⟩
  · dsimp only
    rw [hwf.splitHeadersAndBody_fields lib hfields htail, Span.tail_tail, head.length_encode,
      Nat.add_assoc]
  · intro name hname
    dsimp only
    rw [hwf.splitHeadersAndBody_fields lib hfields htail]
    refine hwf.httpHeadersFind_fields lib hfields ?_ hname
    rw [Span.bytes_sub, htail, List.drop_zero, List.take_left]

/-- A Content-Length, or no Transfer-Encoding: the declared length decides what is read. -/
theorem maybeReadBody_declared {headers : HttpHeaders} {fields : List Bytes} (body : Span)
    (hfind : ∀ name : Span, name.bytes ≠ [] → (httpHeadersFind lib headers name).map Span.bytes =
      (lookup fields name.bytes).elim (.error .notFound) .ok)
    (hte : lookup fields HTTP_HEADER_CONTENT_LENGTH.bytes = none →
      lookup fields HTTP_HEADER_TRANSFER_ENCODING.bytes = none) :
    maybeReadBody lib ptr headers body w =
      match declaredLength lib fields with
      | none => some (.error, body, w)
      | some n => if n = 0 then some (.ok, body, w) else readRemainingBody ptr body w n := by
  have hcl := hfind HTTP_HEADER_CONTENT_LENGTH (by decide)
  have htransfer := hfind HTTP_HEADER_TRANSFER_ENCODING (by decide)
  rw [maybeReadBody, declaredLength]
  cases hlookup : lookup fields HTTP_HEADER_CONTENT_LENGTH.bytes with
  | none =>
    rw [except_map_elim_none hcl hlookup, except_map_elim_none htransfer (hte hlookup)]
    rfl
  | some v =>
    obtain ⟨value, hvalue, hbytes⟩ := except_map_elim_some hcl hlookup
    rw [hvalue]
    dsimp only
    rw [lib.spanToUInt32_congr value ⟨0, v⟩ hbytes]

/-- What the request receiver makes of the body stage. -/
theorem receiveRequest_eq {mem : Bytes} {wire : Wire} {request parsed : HttpRequest}
    {w w' : Receiver}
    {result : Result} {body : Span}
    (hrun : readUntilHeadersComplete lib ptr mem wire = some (.ok, w))
    (hparse : httpRequestParse lib request ⟨ptr, w.received⟩ = (.ok, parsed))
    (hbody : maybeReadBody lib ptr parsed.headers parsed.body w = some (result, body, w')) :
    ∃ remainder, receiveRequest lib ptr mem wire request =
      some (if lib.isError result
        then .returned result ({ parsed with body }.reread ptr w'.mem) none
        else .returned .ok ({ parsed with body }.reread ptr w'.mem) (some remainder)) := by
  rw [receiveRequest, hrun]
  simp only [CommonLib.isError_ok, hparse, hbody]
  cases lib.isError result with
  | true => exact ⟨.empty, rfl⟩
  | false => exact ⟨_, rfl⟩

/-- The call that a chunked request body makes of `read_chunked_body`. -/
def chunkedCall (ptr : Nat) (body : Span) (w : Receiver) : DechunkCall :=
  ⟨w.mem, w.wire, body.ptr - ptr, body.size, w.filled, w.mem.length - w.filled⟩

/-- A chunked body whose sizes are not cut is decoded into the free buffer. -/
theorem maybeReadBody_chunked {headers : HttpHeaders} {teValue body : Span} {e : HlResult}
    (hcl : httpHeadersFind lib headers HTTP_HEADER_CONTENT_LENGTH = .error e)
    (hte : httpHeadersFind lib headers HTTP_HEADER_TRANSFER_ENCODING = .ok teValue)
    (hchunked : transferEncodingIsChunked teValue.bytes = true) {chunks : ChunkedBody}
    (hcarries : (chunkedCall ptr body w).Carries chunks)
    (hcut : chunks.UncutSizes (chunkedCall ptr body w).boundaries) :
    ∃ body' w', maybeReadBody lib ptr headers body w = some (.ok, body', w') ∧
      body'.bytes = chunks.payload := by
  obtain ⟨s, hrun, hout, -⟩ := readChunkedBody_decodes lib hcarries hcut
  have hcall : readChunkedBody lib w.filled (w.mem.length - w.filled) w.filled
      (w.mem.length - w.filled) w.mem w.wire (body.ptr - ptr) body.size = some (.ok, s) := hrun
  refine ⟨spanAt ptr s.mem w.filled s.olen, ⟨s.mem, w.filled + s.rawLen, s.wire⟩, ?_, hout⟩
  rw [maybeReadBody, hcl, hte]
  dsimp only
  rw [if_pos hchunked, hcall]
  simp only [CommonLib.isError_ok, Bool.false_eq_true, if_false]

end

/-! ## The body -/

/-- How the body stage ends, for a body that ends at offset `t` of the stream. -/
inductive BodyRead (cap t : Nat) (wire : Wire) : Result → Receiver → Prop where
  | complete {w : Receiver} (hle : t ≤ w.filled) (hle_cap : w.filled ≤ cap)
    (hreceived : w.received = (arriving wire).take w.filled)
    (hle_length : w.filled ≤ (arriving wire).length)
    (hexact : w.filled = t ↔ cap ≤ t ∨ t ∈ cutsFrom 0 wire) : BodyRead cap t wire .ok w
  | full {w : Receiver} (hlt : cap < t) (hle : cap ≤ (arriving wire).length) :
    BodyRead cap t wire .insufficientSize w
  | ended {result : Result} {w : Receiver} (hlt : (arriving wire).length < t)
    (hroom : (arriving wire).length < cap) (hreceived : w.received = arriving wire)
    (hend : (result = .error ∧ endsOrderly wire = false) ∨
      ((result = .endOfData ∨ result = .endOfFile) ∧ endsOrderly wire = true)) :
    BodyRead cap t wire result w

section

variable {lib : CommonLib} {ptr : Nat} {mem : Bytes} {wire : Wire} {head : MessageHead}
  {w : Receiver}

theorem HeadRead.received_eq (h : HeadRead mem wire head w) :
    w.received = (arriving wire).take w.filled := by
  rw [← h.image, Receiver.take_image (h.length_mem ▸ h.le_mem)]

theorem HeadRead.filled_le (h : HeadRead mem wire head w) : w.filled ≤ (arriving wire).length := by
  have hlen := congrArg List.length h.image
  rw [Receiver.image, List.length_append,
    Receiver.length_received (h.length_mem ▸ h.le_mem)] at hlen
  omega

/-- The bytes of a span that goes on to the end of what has been received. -/
theorem Receiver.reread_tail {s : Span} {n : Nat} (hptr : s.ptr = ptr + n)
    (hsize : s.size = w.filled - n) : (s.reread ptr w.mem).bytes = w.received.drop n := by
  rw [Span.reread, hptr, hsize, Nat.add_sub_cancel_left, Receiver.received, List.drop_take]
  rfl

/-- A head without a body. -/
theorem HeadRead.bodyRead (h : HeadRead mem wire head w) :
    BodyRead mem.length head.encode.length wire .ok w := by
  refine .complete h.le h.le_mem h.received_eq h.filled_le ⟨fun heq => ?_, ?_⟩
  · have hcut := h.cuts w.filled (mem_cutsFrom _ _)
    rw [heq] at hcut
    exact hcut.symm.imp (fun hcap => by omega) id
  · have hle := h.le
    have hle_mem := h.le_mem
    rintro (hcap | hcut)
    · omega
    · by_contra hne
      exact absurd (h.first _ hcut (by omega)) (by omega)

/-- A body with `n` bytes declared, from what was read along with the head on. -/
theorem HeadRead.readRemainingBody (h : HeadRead mem wire head w) (n : Nat) :
    ∃ result body w', readRemainingBody ptr ((Span.mk ptr w.received).tail head.encode.length) w n =
        some (result, body, w') ∧
      (body.reread ptr w'.mem).bytes = w'.received.drop head.encode.length ∧
      BodyRead mem.length (head.encode.length + n) wire result w' := by
  have hle := h.le
  have hmem := h.length_mem
  have hle_mem := h.le_mem
  set body := (Span.mk ptr w.received).tail head.encode.length with hbody
  have hsize : body.size = w.filled - head.encode.length := by
    rw [hbody, Span.size, Span.bytes_tail, List.length_drop,
      Receiver.length_received (by omega)]
  obtain ⟨result, w', w₁, hrun, hflow, hstop⟩ := @receive_spec w.mem.length
    (fun received => n ≤ body.size + (received.length - w.filled)) w (Nat.le_refl _) (by omega)
  have hge := hflow.le
  have hle₁ := hflow.le_limit
  have hreceived := hflow.received (Nat.le_refl _)
  rw [h.image] at hreceived
  have hlength : w₁.filled ≤ (arriving wire).length := by
    have himage := congrArg List.length (hflow.image.trans h.image)
    rw [Receiver.image, List.length_append, Receiver.length_received (by
      rw [hflow.length_mem]; exact hle₁)] at himage
    omega
  have henough : ∀ k, w.filled ≤ k → k ≤ (arriving wire).length →
      (decide (n ≤ body.size + (((arriving wire).take k).length - w.filled)) = true ↔
        head.encode.length + n ≤ k) := by
    intro k hk hk'
    rw [decide_eq_true_iff, List.length_take, Nat.min_eq_left hk', hsize]
    omega
  -- the body runs from the end of the head to the end of what has been read
  have hmem' : w'.mem = w₁.mem ∧ w'.filled = w₁.filled := by
    cases hstop <;> exact ⟨rfl, rfl⟩
  have hlength' : w'.mem.length = mem.length := by rw [hmem'.1, hflow.length_mem, hmem]
  refine ⟨result, _, w', by rw [HttpC.readRemainingBody, hrun]; rfl, ?_, ?_⟩
  · by_cases hgot : w'.filled - w.filled = 0
    · rw [if_pos hgot]
      exact Receiver.reread_tail rfl (by omega)
    · rw [if_neg hgot]
      have hstart : (if body.isEmpty = true then w.filled else body.ptr - ptr) =
          head.encode.length := by
        split_ifs with hempty
        · have hzero : body.size = 0 := by simpa [Span.isEmpty] using hempty
          omega
        · rw [hbody, Span.ptr_tail, Nat.add_sub_cancel_left]
      rw [hstart]
      refine Receiver.reread_tail rfl ?_
      rw [spanAt, Span.size, length_window (by omega)]
      omega
  · rw [← hmem] at hle_mem ⊢
    cases hstop with
    | enough hdone =>
      rw [hreceived, henough _ hge hlength] at hdone
      refine .complete hdone hle₁ hreceived hlength ⟨fun heq => ?_, ?_⟩
      · rcases hflow.cuts _ (mem_cutsFrom _ _) with hcut | hcap
        · rw [heq] at hcut
          exact (h.cuts _ hcut).symm.imp (fun hcap => by omega) id
        · exact .inl (by omega)
      · rintro (hcap | hcut)
        · omega
        · by_contra hne
          by_cases hbefore : head.encode.length + n < w.filled
          · exact absurd (h.first _ hcut hbefore) (by omega)
          · have hfew := hflow.tooLittle _ (h.later _ hcut (by omega)) (by omega)
            rw [h.image, Bool.eq_false_iff, ne_eq, henough _ (by omega) (by omega)] at hfew
            exact hfew (Nat.le_refl _)
    | full hfew hfull =>
      rw [hreceived, Bool.eq_false_iff, ne_eq, henough _ hge hlength] at hfew
      exact .full (by omega) (by omega)
    | ended hfew hroom hover hend =>
      rw [hreceived, Bool.eq_false_iff, ne_eq, henough _ hge hlength] at hfew
      have hall := hflow.image.trans h.image
      rw [Receiver.image, hover, List.append_nil] at hall
      have hfilled := congrArg List.length hall
      rw [Receiver.length_received (by rw [hflow.length_mem]; exact hle₁)] at hfilled
      have horderly := hflow.orderly.trans h.orderly
      rw [horderly] at hend
      exact .ended (by omega) (by omega) hall hend

/-- No read runs past offset `t` of the stream, into a buffer of `cap` bytes, and the stream
does not end before it. -/
def StopsAt (cap t : Nat) (wire : Wire) : Prop :=
  if t ≤ (arriving wire).length then cap ≤ t ∨ t ∈ cutsFrom 0 wire
  else cap ≤ (arriving wire).length ∨ endsOrderly wire = false

instance (cap t : Nat) (wire : Wire) : Decidable (StopsAt cap t wire) := by
  unfold StopsAt
  infer_instance

/-- The body of `ok` is the `n` bytes after the blank line, `n` as declared. -/
def FramesBody (lib : CommonLib) (fields : List Bytes) (rest : Bytes) (result : Result)
    (request : HttpRequest) : Prop :=
  result = .ok → ∃ n, declaredLength lib fields = some n ∧ n ≤ rest.length ∧
    request.body.bytes = rest.take n

/-- The body stage with `n` bytes declared. -/
theorem HeadRead.bodyStage (h : HeadRead mem wire head w) {headers : HttpHeaders} {n : Nat}
    (hfind : ∀ name : Span, name.bytes ≠ [] → (httpHeadersFind lib headers name).map Span.bytes =
      (lookup head.fields name.bytes).elim (.error .notFound) .ok)
    (hte : lookup head.fields HTTP_HEADER_CONTENT_LENGTH.bytes = none →
      lookup head.fields HTTP_HEADER_TRANSFER_ENCODING.bytes = none)
    (hn : declaredLength lib head.fields = some n) :
    ∃ result body w', maybeReadBody lib ptr headers
        ((Span.mk ptr w.received).tail head.encode.length) w = some (result, body, w') ∧
      (body.reread ptr w'.mem).bytes = w'.received.drop head.encode.length ∧
      BodyRead mem.length (head.encode.length + n) wire result w' := by
  have hdeclared := @maybeReadBody_declared lib ptr w _ _
    ((Span.mk ptr w.received).tail head.encode.length) hfind hte
  rw [hn] at hdeclared
  dsimp only at hdeclared
  by_cases hzero : n = 0
  · rw [if_pos hzero] at hdeclared
    refine ⟨_, _, _, hdeclared, ?_, hzero ▸ h.bodyRead⟩
    refine Receiver.reread_tail rfl ?_
    rw [Span.size, Span.bytes_tail, List.length_drop,
      Receiver.length_received (h.length_mem ▸ h.le_mem)]
  · rw [if_neg hzero] at hdeclared
    obtain ⟨result, body, w', hremaining, hspec⟩ :=
      @HeadRead.readRemainingBody ptr _ _ _ _ h n
    exact ⟨result, body, w', hdeclared.trans hremaining, hspec⟩

/-- What a read of the body brings is the declared bytes, exactly if the reads stop there. -/
theorem BodyRead.framed_iff {rest : Bytes} {n cap : Nat} {result : Result}
    (h : BodyRead cap (head.encode.length + n) wire result w)
    (hstream : arriving wire = head.encode ++ rest) :
    ((if lib.isError result then result else .ok) = .ok →
        n ≤ rest.length ∧ w.received.drop head.encode.length = rest.take n) ↔
      StopsAt cap (head.encode.length + n) wire := by
  have hlen : (arriving wire).length = head.encode.length + rest.length := by
    rw [hstream, List.length_append]
  rw [StopsAt]
  cases h with
  | complete hle hcap hreceived hle_length hexact =>
    rw [if_pos (hle.trans hle_length), ← hexact, hreceived, hstream, List.drop_take,
      List.drop_left]
    simp only [CommonLib.isError_ok, Bool.false_eq_true, if_false, forall_const]
    constructor
    · rintro ⟨-, htake⟩
      have hcount := congrArg List.length htake
      rw [List.length_take, List.length_take] at hcount
      omega
    · intro heq
      refine ⟨by omega, ?_⟩
      rw [heq, Nat.add_sub_cancel_left]
  | full hlt hle =>
    refine iff_of_true (by simp) ?_
    split_ifs
    · exact .inl (Nat.le_of_lt hlt)
    · exact .inl hle
  | ended hlt hroom hreceived hend =>
    rw [if_neg (Nat.not_le.mpr hlt)]
    rcases hend with ⟨rfl, hfails⟩ | ⟨hresult, horderly⟩
    · exact iff_of_true (by simp) (.inr hfails)
    · have hok : (if lib.isError result then result else .ok) = .ok := by
        rcases hresult with rfl | rfl <;> simp
      rw [hok, horderly]
      simp only [forall_const, reduceCtorEq, or_false]
      exact iff_of_false (fun h => by omega) (by omega)

/-- The body is what the head declares exactly when no read runs past its end and the stream
does not end inside it. -/
theorem body_framed_iff (lib : CommonLib) (ptr : Nat) (mem : Bytes) (request : HttpRequest)
    {rest : Bytes} (hwf : head.WellFormed) (hfields : head.fields ≠ [])
    (hte : lookup head.fields HTTP_HEADER_TRANSFER_ENCODING.bytes = none)
    (hstream : arriving wire = head.encode ++ rest) :
    (∃ result request' remainder,
      receiveRequest lib ptr mem wire request = some (.returned result request' remainder) ∧
        FramesBody lib head.fields rest result request') ↔
      ∀ n, declaredLength lib head.fields = some n →
        StopsAt mem.length (head.encode.length + n) wire := by
  have hlen : (arriving wire).length = head.encode.length + rest.length := by
    rw [hstream, List.length_append]
  rcases readUntilHeadersComplete_spec lib ptr mem hwf hstream with
    ⟨hsmall, w, hrun⟩ | ⟨w, hrun, hread⟩
  · -- the head does not fit the buffer
    refine iff_of_true ⟨.insufficientSize, request, none, ?_, by simp [FramesBody]⟩ fun n _ => ?_
    · rw [receiveRequest, hrun]
      simp
    · unfold StopsAt
      split_ifs <;> omega
  · have hreceived := hread.received_eq
    rw [hstream, List.take_append, List.take_of_length_le hread.le] at hreceived
    obtain ⟨parsed, hparse, hbody, hfind⟩ := @httpRequestParse_received lib _ _ hwf hfields
      request ⟨ptr, w.received⟩ hreceived
    have hcall : ∀ result body w', maybeReadBody lib ptr parsed.headers parsed.body w =
        some (result, body, w') → ∃ remainder, receiveRequest lib ptr mem wire request =
          some (.returned (if lib.isError result then result else .ok)
            ({ parsed with body }.reread ptr w'.mem) remainder) := by
      intro result body w' hmaybe
      obtain ⟨remainder, hcall⟩ := receiveRequest_eq lib ptr hrun hparse hmaybe
      rw [hcall]
      split_ifs
      · exact ⟨none, rfl⟩
      · exact ⟨some remainder, rfl⟩
    cases hn : declaredLength lib head.fields with
    | none =>
      have hdeclared := @maybeReadBody_declared lib ptr w _ _ parsed.body hfind fun _ => hte
      rw [hn] at hdeclared
      obtain ⟨remainder, hreturns⟩ := hcall _ _ _ hdeclared
      refine iff_of_true ⟨_, _, _, hreturns, ?_⟩ (by simp)
      simp [FramesBody]
    | some n =>
      obtain ⟨result, body, w', hmaybe, hbytes, hend⟩ :=
        @HeadRead.bodyStage lib ptr mem wire head w hread _ n hfind (fun _ => hte) hn
      rw [← hbody] at hmaybe
      obtain ⟨remainder, hreturns⟩ := hcall _ _ _ hmaybe
      have hleft : (∃ result request' remainder,
          receiveRequest lib ptr mem wire request = some (.returned result request' remainder) ∧
            FramesBody lib head.fields rest result request') ↔
          ((if lib.isError result then result else .ok) = .ok →
            n ≤ rest.length ∧ w'.received.drop head.encode.length = rest.take n) := by
        rw [hreturns, ← hbytes]
        simp [FramesBody, hn, HttpRequest.reread]
      rw [hleft, hend.framed_iff hstream]
      simp

end

/-! ## One byte of body -/

/-- A request head that declares one byte of body. -/
def oneByteHead : MessageHead :=
  ⟨ascii "POST", ascii "/", ascii "HTTP/1.1", [ascii "Content-Length: 1"]⟩

theorem oneByteHead_wellFormed : oneByteHead.WellFormed where
  first := by decide +kernel
  second := by decide +kernel
  startLine := by decide +kernel
  fields := by decide +kernel

/-- The body arrives in a read of its own, before the next request. -/
theorem body_framed_own_read :
    let wire := [.data oneByteHead.encode, .data (ascii "a"), .data (ascii "GET")]
    ∃ result request' remainder,
      receiveRequest .reference 1000 (List.replicate 64 0) wire .zero =
          some (.returned result request' remainder) ∧
        FramesBody .reference oneByteHead.fields (ascii "aGET") result request' := by
  intro wire
  refine (body_framed_iff .reference 1000 (List.replicate 64 0) .zero oneByteHead_wellFormed
    (by decide) (by decide +kernel) (by decide +kernel)).mpr fun n hn => ?_
  have hone : declaredLength .reference oneByteHead.fields = some 1 := by decide +kernel
  obtain rfl : 1 = n := Option.some.inj (hone.symm.trans hn)
  decide +kernel

/-- The body and the start of the next request arrive in one read, and both are the body. -/
theorem body_not_framed :
    ¬ ∀ (lib : CommonLib) (ptr : Nat) (mem : Bytes) (wire : Wire) (request : HttpRequest)
      (head : MessageHead) (rest : Bytes), head.WellFormed → head.fields ≠ [] →
      lookup head.fields HTTP_HEADER_TRANSFER_ENCODING.bytes = none →
      arriving wire = head.encode ++ rest →
      ∃ result request' remainder,
        receiveRequest lib ptr mem wire request = some (.returned result request' remainder) ∧
          FramesBody lib head.fields rest result request' := by
  intro h
  obtain ⟨result, request', remainder, hcall, hframes⟩ := h .reference 1000 (List.replicate 64 0)
    [.data (oneByteHead.encode ++ ascii "aGET")] .zero oneByteHead (ascii "aGET")
    oneByteHead_wellFormed (by decide) (by decide +kernel) (by decide +kernel)
  have hanswer : ((receiveRequest .reference 1000 (List.replicate 64 0)
      [.data (oneByteHead.encode ++ ascii "aGET")] .zero).bind ReceiveOutcome.answer).map
        (fun a => (a.1, a.2.body.bytes)) = some (.ok, ascii "aGET") := by decide +kernel
  rw [hcall] at hanswer
  obtain ⟨hok, hbody⟩ : result = .ok ∧ request'.body.bytes = ascii "aGET" := by
    simpa [ReceiveOutcome.answer] using hanswer
  obtain ⟨n, hn, -, htake⟩ := hframes hok
  have hone : declaredLength .reference oneByteHead.fields = some 1 := by decide +kernel
  obtain rfl : 1 = n := Option.some.inj (hone.symm.trans hn)
  rw [hbody] at htake
  exact absurd htake (by decide)

end HttpC
