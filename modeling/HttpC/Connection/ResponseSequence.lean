import HttpC.Connection.ResponseReceiver

/-!
# Responses one after the other

A connection keeps nothing between two calls of `receive_response`: what a call has read beyond
its response is in the caller's buffer, and the next call does not know of it. So a call leaves
the next response alone only if a read ends behind its own.

## Main results

* `Stages.followedBy` — a call that comes to its end does the same whatever follows on the wire.
* `responses_received_iff` — consecutive responses are received if and only if a read ends behind
  each of them.
-/

namespace HttpC

open Block ListSearch Loop

/-! ## More behind the end of the wire -/

def Receiver.followedBy (w : Receiver) (more : Wire) : Receiver := { w with wire := w.wire ++ more }

def BodyReader.followedBy (r : BodyReader) (more : Wire) : BodyReader :=
  { r with wire := r.wire ++ more }

section

variable {more : Wire} {r : BodyReader}

@[simp] theorem Receiver.mem_followedBy (w : Receiver) (more : Wire) :
    (w.followedBy more).mem = w.mem := rfl

@[simp] theorem Receiver.filled_followedBy (w : Receiver) (more : Wire) :
    (w.followedBy more).filled = w.filled := rfl

@[simp] theorem Receiver.wire_followedBy (w : Receiver) (more : Wire) :
    (w.followedBy more).wire = w.wire ++ more := rfl

@[simp] theorem Receiver.received_followedBy (w : Receiver) (more : Wire) :
    (w.followedBy more).received = w.received := rfl

theorem weight_append (wire more : Wire) : weight (wire ++ more) = weight wire + weight more := by
  induction wire with
  | nil => simp [weight]
  | cons event wire ih => cases event <;> simp only [List.cons_append, weight, ih] <;> omega

/-- Only at the end of the wire does a read see what follows. -/
theorem streamRead_append {capacity : Nat} {wire rest : Wire} {e : StreamEvent}
    (h : streamRead capacity wire = (e, rest)) (he : e ≠ .endOfFile) :
    streamRead capacity (wire ++ more) = (e, rest ++ more) := by
  match wire with
  | [] => exact absurd (Prod.mk.inj h).1.symm he
  | .data bytes :: tail =>
    simp only [streamRead, List.cons_append] at h ⊢
    split_ifs at h ⊢ <;> obtain ⟨rfl, rfl⟩ := Prod.mk.inj h <;> rfl
  | .tryAgain _ :: _ | .endOfData :: _ | .endOfFile :: _ | .failed :: _ =>
    obtain ⟨rfl, rfl⟩ := Prod.mk.inj h
    rfl

variable {limit : Nat} {enough : Bytes → Bool} {w w' : Receiver} {result : Result}

theorem receivePass_followedBy {p : Pass Receiver (Result × Receiver)}
    (h : receivePass limit enough w = p) (hp : p.Leaves fun out => out.1 ≠ .endOfFile) :
    receivePass limit enough (w.followedBy more) =
      p.map (·.followedBy more) fun out => (out.1, out.2.followedBy more) := by
  subst h
  by_cases henough : enough w.received = true
  · simp [receivePass, henough, Pass.map]
  by_cases hfull : limit ≤ w.filled
  · simp [receivePass, henough, hfull, Pass.map]
  rcases hread : streamRead (limit - w.filled) w.wire with ⟨e, rest⟩
  by_cases he : e = .endOfFile
  · simp [receivePass, henough, hfull, hread, he, Pass.Leaves] at hp
  · have hread' := @streamRead_append more _ _ _ _ hread he
    cases e with
    | tryAgain expired =>
      simp only [receivePass, Receiver.received_followedBy, Receiver.filled_followedBy,
        Receiver.wire_followedBy, henough, hfull, hread, hread', if_false]
      split_ifs <;> rfl
    | data _ | endOfData | endOfFile | failed =>
      simp only [receivePass, Receiver.received_followedBy, Receiver.filled_followedBy,
        Receiver.wire_followedBy, henough, hfull, hread, hread', if_false]
      rfl

theorem receive_followedBy (h : receive limit enough w = some (result, w'))
    (hresult : result ≠ .endOfFile) :
    receive limit enough (w.followedBy more) = some (result, w'.followedBy more) := by
  have hpass : ∀ s p, some (receivePass limit enough s) = some p →
      p.Leaves (fun out : Result × Receiver => out.1 ≠ .endOfFile) →
      some (receivePass limit enough (s.followedBy more)) =
        some (p.map (·.followedBy more) fun out => (out.1, out.2.followedBy more)) :=
    fun s p hp hleaves => congrArg some (receivePass_followedBy (Option.some.inj hp) hleaves)
  refine run_map (f := (Receiver.followedBy · more))
    (g := fun out : Result × Receiver => (out.1, out.2.followedBy more)) _ hpass ?_ h hresult
  simp only [Receiver.wire_followedBy, weight_append]
  omega

end

section

variable (more : Wire) {buffer capacity : Nat} {r r' : BodyReader} {result : Result}

@[simp] theorem BodyReader.wire_followedBy (r : BodyReader) :
    (r.followedBy more).wire = r.wire ++ more := rfl

theorem makeRoom_followedBy (r : BodyReader) :
    (r.followedBy more).makeRoom buffer capacity =
      (r.makeRoom buffer capacity).followedBy more := by
  by_cases hempty : r.start = r.stop
  · simp only [BodyReader.makeRoom, BodyReader.followedBy, hempty, if_true]
  by_cases hfull : r.stop = capacity ∧ r.storedLength < r.start
  · simp only [BodyReader.makeRoom, BodyReader.followedBy, hempty, if_false, eq_true hfull, if_true]
  · simp only [BodyReader.makeRoom, BodyReader.followedBy, hempty, if_false, hfull]

theorem responseBodyReaderFill_followedBy
    (h : responseBodyReaderFill buffer capacity r = some (result, r'))
    (hresult : result ≠ .endOfData) :
    responseBodyReaderFill buffer capacity (r.followedBy more) =
      some (result, r'.followedBy more) := by
  rw [responseBodyReaderFill] at h ⊢
  rw [makeRoom_followedBy]
  set s := r.makeRoom buffer capacity
  have hstop : (s.followedBy more).stop = s.stop := rfl
  dsimp only at h ⊢
  rw [hstop]
  split_ifs at h ⊢ with hfull
  · obtain ⟨rfl, rfl⟩ := Prod.mk.inj (Option.some.inj h)
    rfl
  · obtain ⟨⟨got, w⟩, hrun, hout⟩ := Option.map_eq_some_iff.mp h
    obtain ⟨rfl, rfl⟩ := Prod.mk.inj hout
    have hgot : got ≠ .endOfFile := fun heof => hresult (if_pos heof)
    have hrun' := @receive_followedBy more _ _ _ _ _ hrun hgot
    exact congrArg (Option.map _) hrun' 

theorem fillUnlessClosed_followedBy (h : fillUnlessClosed buffer capacity r = some (result, r'))
    (hresult : result ≠ .error) :
    fillUnlessClosed buffer capacity (r.followedBy more) = some (result, r'.followedBy more) := by
  obtain ⟨⟨got, s⟩, hrun, hout⟩ := Option.map_eq_some_iff.mp h
  obtain ⟨rfl, rfl⟩ := Prod.mk.inj hout
  have hgot : got ≠ .endOfData := fun hend => hresult (if_pos hend)
  rw [fillUnlessClosed, responseBodyReaderFill_followedBy more hrun hgot]
  rfl

theorem deliver_followedBy (lib : CommonLib) (bodyHandler : Option BodyHandler) (r : BodyReader)
    (n : Nat) : responseBodyReaderDeliver lib bodyHandler buffer (r.followedBy more) n =
      ((responseBodyReaderDeliver lib bodyHandler buffer r n).1,
        (responseBodyReaderDeliver lib bodyHandler buffer r n).2.followedBy more) := by
  cases bodyHandler <;> rfl

end

section

variable (more : Wire) (lib : CommonLib) (bodyHandler : Option BodyHandler) {buffer capacity : Nat}
  {r r' : BodyReader} {result : Result}

/-- Without an error. -/
def Succeeds {τ : Type} (out : Result × τ) : Prop := lib.isError out.1 = false

variable {lib}

theorem ne_error (h : lib.isError result = false) : result ≠ .error := by
  rintro rfl
  simp at h

/-- `unlessError` around a step that does the same. -/
theorem unlessError_map {σ σ' τ τ' : Type} {x : Option (Result × τ)} {y : Option (Result × τ')}
    {next : τ → Option (Pass σ (Result × τ))} {next' : τ' → Option (Pass σ' (Result × τ'))}
    {f : σ → σ'} {g : τ → τ'}
    (hstep : ∀ result t, x = some (result, t) → lib.isError result = false → y = some (result, g t))
    (hnext : ∀ t p, next t = some p → p.Leaves (Succeeds lib) →
      next' (g t) = some (p.map f fun out => (out.1, g out.2)))
    {p : Pass σ (Result × τ)} (h : unlessError lib x next = some p) (hp : p.Leaves (Succeeds lib)) :
    unlessError lib y next' = some (p.map f fun out => (out.1, g out.2)) := by
  rcases x with _ | ⟨result, t⟩
  · simp [unlessError] at h
  cases herror : lib.isError result with
  | true =>
    simp only [unlessError, herror, if_true, Option.some.injEq] at h
    subst h
    exact absurd (herror.symm.trans hp) (by simp)
  | false =>
    simp only [unlessError, herror, Bool.false_eq_true, if_false] at h
    rw [hstep result t rfl herror]
    simpa only [unlessError, herror, Bool.false_eq_true, if_false] using hnext t p h hp

theorem passThroughPass_followedBy {n : Nat} {p : Pass (Nat × BodyReader) (Result × BodyReader)}
    (h : passThroughPass lib bodyHandler buffer capacity (n, r) = some p)
    (hp : p.Leaves (Succeeds lib)) :
    passThroughPass lib bodyHandler buffer capacity (n, r.followedBy more) =
      some (p.map (fun s => (s.1, s.2.followedBy more))
        fun out => (out.1, out.2.followedBy more)) := by
  simp only [passThroughPass] at h ⊢
  by_cases hzero : n = 0
  · rw [if_pos hzero, Option.some.injEq] at h
    rw [if_pos hzero, ← h]
    rfl
  rw [if_neg hzero] at h ⊢
  refine unlessError_map (f := fun s : Nat × BodyReader => (s.1, s.2.followedBy more))
    (g := (BodyReader.followedBy · more)) (fun result t ht herror => ?_) (fun t p h hp => ?_) h hp
  · by_cases hempty : r.start = r.stop
    · rw [if_pos hempty] at ht
      exact (if_pos hempty).trans (fillUnlessClosed_followedBy more ht (ne_error herror))
    · rw [if_neg hempty] at ht
      obtain ⟨rfl, rfl⟩ := Prod.mk.inj (Option.some.inj ht)
      exact if_neg hempty
  · refine unlessError_map (f := fun s : Nat × BodyReader => (s.1, s.2.followedBy more))
      (g := (BodyReader.followedBy · more)) (fun result s hs _ => ?_) (fun s p h _ => ?_) h hp
    · rw [deliver_followedBy]
      exact congrArg some (congrArg (fun out => (out.1, out.2.followedBy more))
        (Option.some.inj hs))
    · obtain rfl := Option.some.inj h
      rfl

theorem responseBodyReaderPassThrough_followedBy {n : Nat}
    (h : responseBodyReaderPassThrough lib bodyHandler buffer capacity r n = some (result, r'))
    (hresult : lib.isError result = false) :
    responseBodyReaderPassThrough lib bodyHandler buffer capacity (r.followedBy more) n =
      some (result, r'.followedBy more) :=
  run_map (f := fun s : Nat × BodyReader => (s.1, s.2.followedBy more))
    (g := fun out : Result × BodyReader => (out.1, out.2.followedBy more)) _
    (fun _ _ => passThroughPass_followedBy more bodyHandler) (Nat.le_refl _) h hresult

theorem readLinePass_followedBy {scanned : Nat}
    {p : Pass (Nat × BodyReader) (Result × Bytes × BodyReader)}
    (h : readLinePass lib buffer capacity (scanned, r) = some p) (hp : p.Leaves (Succeeds lib)) :
    readLinePass lib buffer capacity (scanned, r.followedBy more) =
      some (p.map (fun s => (s.1, s.2.followedBy more))
        fun out => (out.1, out.2.1, out.2.2.followedBy more)) := by
  simp only [readLinePass] at h ⊢
  rw [show (r.followedBy more).mem = r.mem from rfl,
    show (r.followedBy more).start = r.start from rfl,
    show (r.followedBy more).stop = r.stop from rfl]
  cases hfeed :
      (window r.mem (buffer + (r.start + scanned)) (r.stop - (r.start + scanned))).findIdx?
      (· == 10) with
  | some i =>
    rw [hfeed] at h
    obtain rfl := Option.some.inj h
    rfl
  | none =>
    rw [hfeed] at h
    refine unlessError_map (f := fun s : Nat × BodyReader => (s.1, s.2.followedBy more))
      (g := fun out : Bytes × BodyReader => (out.1, out.2.followedBy more))
      (fun result t ht herror => ?_)
      (fun t p h _ => ?_) h hp
    · obtain ⟨⟨got, s⟩, hfill, hout⟩ := Option.map_eq_some_iff.mp ht
      obtain ⟨rfl, rfl⟩ := Prod.mk.inj hout
      rw [fillUnlessClosed_followedBy more hfill (ne_error herror)]
      rfl
    · obtain rfl := Option.some.inj h
      rfl

theorem responseBodyReaderReadLine_followedBy {line : Bytes}
    (h : responseBodyReaderReadLine lib buffer capacity r = some (result, line, r'))
    (hresult : lib.isError result = false) :
    responseBodyReaderReadLine lib buffer capacity (r.followedBy more) =
      some (result, line, r'.followedBy more) :=
  run_map (f := fun s : Nat × BodyReader => (s.1, s.2.followedBy more))
    (g := fun out : Result × Bytes × BodyReader => (out.1, out.2.1, out.2.2.followedBy more)) _
    (fun _ _ => readLinePass_followedBy more) (Nat.le_refl _) h hresult

theorem trailerPass_followedBy {p : Pass BodyReader (Result × BodyReader)}
    (h : trailerPass lib buffer capacity r = some p) (hp : p.Leaves (Succeeds lib)) :
    trailerPass lib buffer capacity (r.followedBy more) =
      some (p.map (·.followedBy more) fun out => (out.1, out.2.followedBy more)) := by
  rcases hread : responseBodyReaderReadLine lib buffer capacity r with _ | ⟨result, line, s⟩
  · simp [trailerPass, hread] at h
  cases herror : lib.isError result with
  | true =>
    simp only [trailerPass, hread, herror, if_true, Option.some.injEq] at h
    subst h
    exact absurd (herror.symm.trans hp) (by simp)
  | false =>
    have hread' := responseBodyReaderReadLine_followedBy more hread herror
    simp only [trailerPass, hread, herror, Bool.false_eq_true, if_false] at h
    simp only [trailerPass, hread', herror, Bool.false_eq_true, if_false]
    split_ifs at h ⊢ <;> obtain rfl := Option.some.inj h <;> rfl

theorem trailers_followedBy {n m : Nat} (hnm : n ≤ m)
    (h : run (trailerPass lib buffer capacity) n r = some (result, r'))
    (hresult : lib.isError result = false) :
    run (trailerPass lib buffer capacity) m (r.followedBy more) =
      some (result, r'.followedBy more) :=
  run_map (f := (BodyReader.followedBy · more))
    (g := fun out : Result × BodyReader => (out.1, out.2.followedBy more)) _
    (fun _ _ => trailerPass_followedBy more) hnm h hresult

theorem chunkedPass_followedBy {p : Pass BodyReader (Result × BodyReader)}
    (h : chunkedPass lib bodyHandler buffer capacity r = some p) (hp : p.Leaves (Succeeds lib)) :
    chunkedPass lib bodyHandler buffer capacity (r.followedBy more) =
      some (p.map (·.followedBy more) fun out => (out.1, out.2.followedBy more)) := by
  rcases hread : responseBodyReaderReadLine lib buffer capacity r with _ | ⟨result, line, s⟩
  · simp [chunkedPass, hread] at h
  cases herror : lib.isError result with
  | true =>
    simp only [chunkedPass, hread, herror, if_true, Option.some.injEq] at h
    subst h
    exact absurd (herror.symm.trans hp) (by simp)
  | false =>
    have hread' := responseBodyReaderReadLine_followedBy more hread herror
    simp only [chunkedPass, hread, herror, Bool.false_eq_true, if_false] at h
    simp only [chunkedPass, hread', herror, Bool.false_eq_true, if_false]
    cases hparse : parseChunkSize line with
    | none =>
      simp only [hparse, Option.some.injEq] at h
      subst h
      rfl
    | some chunkSize =>
      simp only [hparse] at h
      dsimp only
      by_cases hzero : chunkSize = 0
      · rw [if_pos hzero] at h ⊢
        obtain ⟨⟨got, t⟩, hrun, rfl⟩ := Option.map_eq_some_iff.mp h
        rw [trailers_followedBy more _ hrun hp]
        · rfl
        · simp only [BodyReader.wire_followedBy, weight_append]
          omega
      · rw [if_neg hzero] at h ⊢
        refine unlessError_map (f := (BodyReader.followedBy · more))
          (g := (BodyReader.followedBy · more))
          (fun result t ht herror =>
            responseBodyReaderPassThrough_followedBy more bodyHandler ht herror)
          (fun t p h hp => ?_) h hp
        rcases hlast : responseBodyReaderReadLine lib buffer capacity t with _ | ⟨result, line, u⟩
        · simp [hlast] at h
        cases herror : lib.isError result with
        | true =>
          simp only [hlast, herror, if_true, Option.some.injEq] at h
          subst h
          exact absurd (herror.symm.trans hp) (by simp)
        | false =>
          have hlast' := responseBodyReaderReadLine_followedBy more hlast herror
          simp only [hlast, herror, Bool.false_eq_true, if_false] at h
          simp only [hlast', herror, Bool.false_eq_true, if_false]
          split_ifs at h ⊢ <;> obtain rfl := Option.some.inj h <;> rfl

/-- A body that is not ended by the end of the stream is read the same whatever follows. -/
theorem readResponseBody_followedBy {framing : ResponseBodyFraming}
    (hframing : framing ≠ .untilClose)
    (h : readResponseBody lib bodyHandler buffer capacity r framing = some (result, r'))
    (hresult : lib.isError result = false) :
    readResponseBody lib bodyHandler buffer capacity (r.followedBy more) framing =
      some (result, r'.followedBy more) := by
  cases framing with
  | none =>
    obtain ⟨rfl, rfl⟩ := Prod.mk.inj (Option.some.inj h)
    rfl
  | contentLength n => exact responseBodyReaderPassThrough_followedBy more bodyHandler h hresult
  | chunked =>
    refine run_map (f := (BodyReader.followedBy · more))
      (g := fun out : Result × BodyReader => (out.1, out.2.followedBy more)) _
      (fun _ _ => chunkedPass_followedBy more bodyHandler) ?_ h hresult
    simp only [BodyReader.wire_followedBy, weight_append]
    omega
  | untilClose => exact absurd rfl hframing

end

/-- A call that comes to its end does the same whatever follows on the wire. -/
theorem Stages.followedBy {lib : CommonLib} {bodyHandler : Option BodyHandler} {ptr : Nat}
    {mem : Bytes} {c : HttpConnection} {response parsed : HttpResponse} {w : Receiver}
    {framing : ResponseBodyFraming} {r : BodyReader}
    (h : Stages lib bodyHandler ptr mem c response w parsed framing r)
    (hframing : framing ≠ .untilClose) (more : Wire) :
    Stages lib bodyHandler ptr mem { c with wire := c.wire ++ more } response (w.followedBy more)
      parsed framing (r.followedBy more) where
  head := receive_followedBy h.head (by simp)
  parse := h.parse
  declared := h.declared
  body := readResponseBody_followedBy more bodyHandler hframing h.body (by simp)

/-! ## What a call takes off the wire -/

section

variable {lib : CommonLib} {ptr : Nat} {mem : Bytes} {c : HttpConnection} {response : HttpResponse}
  {o : ResponseReceipt}

/-- The stages of a call that returned `ok`. -/
theorem Stages.of_receiveResponse (ho : receiveResponse lib none ptr mem c response = some o)
    (hok : o.result = .ok) :
    ∃ w first second third rest parsed framing r,
      Stages lib none ptr mem c response w parsed framing r ∧
      Flow mem.length
        (fun received => (lib.spanFindReverse ⟨ptr, received⟩ headersTerminator).isSome)
        ⟨mem, 0, c.wire⟩ w ∧
      (lib.spanFindReverse ⟨ptr, w.received⟩ headersTerminator).isSome = true ∧
      splitStartLine w.received = some (first, second, third, rest) ∧
      parsed.code.bytes = second ∧
      o.response.httpVersion.bytes = first ∧ o.response.code.bytes = second ∧
      o.response.reasonPhrase.bytes = third ∧ o.connection.wire = r.wire := by
  obtain ⟨result, w, w₁, hrun, hflow, hstop⟩ := @receive_spec mem.length
    (fun received => (lib.spanFindReverse ⟨ptr, received⟩ headersTerminator).isSome)
    ⟨mem, 0, c.wire⟩ (Nat.le_refl _) (Nat.zero_le _)
  have hhead : readUntilHeadersComplete lib ptr mem c.wire = some (result, w) := hrun
  have hwhole := ho
  rw [receiveResponse, hhead] at ho
  cases hstop with
  | full _ _ =>
    simp at ho
    simp [← ho] at hok
  | ended _ _ _ hend =>
    rcases hend with ⟨rfl, -⟩ | ⟨rfl | rfl, -⟩ <;> simp at ho <;> simp [← ho] at hok
  | enough hfound =>
    have hmem : w.mem.length = mem.length := hflow.length_mem
    have hle := hflow.le_limit
    cases hsplit : splitStartLine w.received with
    | none =>
      have herror := @httpResponseParse_none lib response ⟨ptr, w.received⟩ hsplit
      simp only [CommonLib.isError_ok, Bool.false_eq_true, if_false, reduceCtorEq, or_self, herror,
        if_true, Option.some.injEq] at ho
      rw [← ho] at hok
      simp [show (httpResponseParse lib response ⟨ptr, w.received⟩).1 = .ok from hok] at herror
    | some parts =>
      obtain ⟨first, second, third, rest⟩ := parts
      obtain ⟨parsed, start, hparse, hbehind, hstart,
          ⟨herror, -⟩ | ⟨framing, r, hstages, hbelow, -⟩⟩ :=
        receiveResponse_startLine hhead hmem hle hsplit hwhole
      · simp [hok] at herror
      obtain ⟨hfirst, hsecond, hthird⟩ := @bytes_startLine ⟨ptr, w.received⟩ _ _ _ _ hsplit
      obtain ⟨o', ho', -, hresponse, hconnection⟩ := hstages.receiveResponse_eq
      obtain rfl := Option.some.inj (ho'.symm.trans hwhole)
      obtain ⟨-, rfl⟩ := Prod.mk.inj (hparse.symm.trans (httpResponseParse_eq lib response hsplit))
      have hlength := length_splitStartLine hsplit
      rw [Receiver.length_received (by omega)] at hlength
      -- the three tokens are in front of the window
      have hkeeps : ∀ i k, i + k + 2 ≤ startLineLength first second third →
          ((⟨ptr, w.received⟩ : Span).sub i k).reread ptr r.mem =
            (⟨ptr, w.received⟩ : Span).sub i k := fun i k hik =>
        (Span.below_sub (by omega) hstart (by omega)).reread_eq hbelow
      refine ⟨w, first, second, third, rest, _, framing, r, hstages, hflow, hfound, hsplit, hsecond,
        ?_, ?_, ?_, congrArg HttpConnection.wire hconnection⟩
      · rw [hresponse]
        exact (congrArg Span.bytes (hkeeps _ _ (by rw [startLineLength]; omega))).trans hfirst
      · rw [hresponse]
        exact (congrArg Span.bytes (hkeeps _ _ (by rw [startLineLength]; omega))).trans hsecond
      · rw [hresponse]
        exact (congrArg Span.bytes (hkeeps _ _ (by rw [startLineLength]; omega))).trans hthird

end

/-! ## Calls one after the other -/

/-- The arguments of a call: the buffer and where it is, and the response to fill in. -/
structure ResponseCall where
  ptr : Nat
  mem : Bytes
  response : HttpResponse
  deriving DecidableEq, Repr

/-- One `http_connection_receive_response` after the other on a connection. -/
def receiveResponses (lib : CommonLib) :
    List ResponseCall → HttpConnection → Option (List ResponseReceipt)
  | [], _ => some []
  | call :: calls, c =>
    match receiveResponse lib none call.ptr call.mem c call.response with
    | none => none
    | some o => (receiveResponses lib calls o.connection).map (o :: ·)

/-- The calls return these responses, in order. -/
def ReceivesAll (lib : CommonLib) (calls : List ResponseCall) (c : HttpConnection)
    (msgs : List ResponseMessage) : Prop :=
  ∃ receipts, receiveResponses lib calls c = some receipts ∧
    List.Forall₂ (ResponseMessage.ReceivedBy lib) msgs receipts

/-- Whether a response to HEAD is still awaited behind this one. -/
def ResponseMessage.stillAwaiting (awaiting : Bool) (m : ResponseMessage) : Bool :=
  if m.head.second.head? ≠ some 49 then false else awaiting

/-- Responses that end where their heads say. -/
def SelfDelimited (lib : CommonLib) : Bool → List ResponseMessage → Prop
  | _, [] => True
  | awaiting, m :: msgs =>
    m.WellFormed lib awaiting ∧ declaredFraming lib awaiting m.head ≠ some .untilClose ∧
      SelfDelimited lib (m.stillAwaiting awaiting) msgs

def encodeAll (msgs : List ResponseMessage) : Bytes := msgs.flatMap ResponseMessage.encode

/-- A read ends behind each of the responses. -/
def EndsWithReads (msgs : List ResponseMessage) (wire : Wire) : Prop :=
  ∀ k, (encodeAll (msgs.take k)).length ∈ cutsFrom 0 wire

section

variable {lib : CommonLib} {ptr : Nat} {mem : Bytes} {c : HttpConnection} {response : HttpResponse}
  {awaiting : Bool} {m : ResponseMessage} {msgs : List ResponseMessage} {calls : List ResponseCall}
  {wire : Wire}

theorem receivesAll_cons {call : ResponseCall} :
    ReceivesAll lib (call :: calls) c (m :: msgs) ↔
      ∃ o, receiveResponse lib none call.ptr call.mem c call.response = some o ∧
        m.ReceivedBy lib o ∧ ReceivesAll lib calls o.connection msgs := by
  rw [ReceivesAll, receiveResponses]
  cases receiveResponse lib none call.ptr call.mem c call.response with
  | none => simp
  | some o =>
    simp only [Option.some.injEq, exists_eq_left']
    constructor
    · rintro ⟨receipts, hrun, hall⟩
      obtain ⟨rest, hrest, rfl⟩ := Option.map_eq_some_iff.mp hrun
      obtain ⟨hm, hmsgs⟩ := List.forall₂_cons.mp hall
      exact ⟨hm, rest, hrest, hmsgs⟩
    · rintro ⟨hm, rest, hrest, hmsgs⟩
      exact ⟨o :: rest, by rw [hrest]; rfl, .cons hm hmsgs⟩

/-- What the start of a stream of responses is. -/
@[simp] theorem encodeAll_cons (m : ResponseMessage) (msgs : List ResponseMessage) :
    encodeAll (m :: msgs) = m.encode ++ encodeAll msgs := by
  simp [encodeAll]

theorem length_encodeAll_take_le (msgs : List ResponseMessage) (k : Nat) :
    (encodeAll (msgs.take k)).length ≤ (encodeAll msgs).length := by
  conv_rhs => rw [← List.take_append_drop k msgs, encodeAll, List.flatMap_append]
  rw [List.length_append]
  exact Nat.le_add_right _ _

/-! ## Wires cut at the end of a read -/

/-- Up to its end a wire brings bytes, however late. -/
def Flowing (wire : Wire) : Prop := ∀ e ∈ wire, (∃ bytes, e = .data bytes) ∨ e = .tryAgain false

theorem cut_split {n b : Nat} (h : b ∈ cutsFrom n wire) :
    ∃ before after, wire = before ++ after ∧ Flowing before ∧ b = n + (arriving before).length := by
  induction wire generalizing n with
  | nil =>
    obtain rfl : b = n := by simpa [cutsFrom] using h
    exact ⟨[], [], rfl, by simp [Flowing], rfl⟩
  | cons event wire ih =>
    have hhere : b = n → ∃ before after, event :: wire = before ++ after ∧ Flowing before ∧
        b = n + (arriving before).length := fun hb => ⟨[], _, rfl, by simp [Flowing], hb⟩
    cases event with
    | data bytes =>
      rcases List.mem_cons.mp h with hb | h
      · exact hhere hb
      · obtain ⟨before, after, rfl, hflow, hb⟩ := ih h
        refine ⟨.data bytes :: before, after, rfl, ?_, ?_⟩
        · simpa [Flowing] using hflow
        · simp only [arriving, List.length_append]
          omega
    | tryAgain expired =>
      cases expired with
      | false =>
        obtain ⟨before, after, rfl, hflow, hb⟩ := ih h
        exact ⟨.tryAgain false :: before, after, rfl, by simpa [Flowing] using hflow, hb⟩
      | true => exact hhere (by simpa [cutsFrom] using h)
    | endOfData | endOfFile | failed => exact hhere (by simpa [cutsFrom] using h)

theorem Flowing.arriving_append {before : Wire} (h : Flowing before) (after : Wire) :
    arriving (before ++ after) = arriving before ++ arriving after := by
  induction before with
  | nil => rfl
  | cons event before ih =>
    have hrest := ih fun e he => h e (List.mem_cons_of_mem _ he)
    rcases h event List.mem_cons_self with ⟨bytes, rfl⟩ | rfl
    · simp [arriving, hrest]
    · exact hrest

/-- The boundaries behind the cut. -/
theorem Flowing.mem_cutsFrom {before : Wire} (h : Flowing before) {n b : Nat} {after : Wire}
    (hb : b ∈ cutsFrom n (before ++ after)) (hle : n + (arriving before).length ≤ b) :
    b ∈ cutsFrom (n + (arriving before).length) after := by
  induction before generalizing n with
  | nil => exact hb
  | cons event before ih =>
    have hflow : Flowing before := fun e he => h e (List.mem_cons_of_mem _ he)
    rcases h event List.mem_cons_self with ⟨bytes, rfl⟩ | rfl
    · simp only [arriving, List.length_append, ← Nat.add_assoc] at hle ⊢
      rcases List.mem_cons.mp hb with hn | hb
      · rw [show n + bytes.length + (arriving before).length = b by omega]
        exact HttpC.mem_cutsFrom b after
      · exact ih hflow hb hle
    · exact ih hflow hb hle

theorem length_arriving_mem_cutsFrom (n : Nat) (wire : Wire) :
    n + (arriving wire).length ∈ cutsFrom n wire := by
  induction wire generalizing n with
  | nil => simp [arriving, cutsFrom]
  | cons event wire ih =>
    cases event with
    | data bytes =>
      simp only [arriving, List.length_append, ← Nat.add_assoc]
      exact List.mem_cons_of_mem _ (ih _)
    | tryAgain expired =>
      cases expired with
      | false => exact ih n
      | true => simp [arriving, cutsFrom]
    | endOfData | endOfFile | failed => simp [arriving, cutsFrom]

/-- What brings nothing does not move the boundaries behind it. -/
theorem mem_cutsFrom_append {before after : Wire} (hnothing : arriving before = [])
    (hsome : arriving (before ++ after) ≠ []) {n b : Nat} (hb : b ∈ cutsFrom n after) :
    b ∈ cutsFrom n (before ++ after) := by
  induction before with
  | nil => exact hb
  | cons event before ih =>
    match event with
    | .data bytes =>
      obtain ⟨rfl, hrest⟩ := List.append_eq_nil_iff.mp hnothing
      exact List.mem_cons_of_mem _ (ih hrest hsome)
    | .tryAgain false => exact ih hnothing hsome
    | .tryAgain true | .endOfData | .endOfFile | .failed => exact absurd rfl hsome

end

/-! ## Responses that end with reads -/

section

variable {lib : CommonLib} {ptr : Nat} {mem : Bytes} {c : HttpConnection}
  {msgs : List ResponseMessage}
  {calls : List ResponseCall} {m : ResponseMessage} {rest : Bytes}

theorem Stages.unique {bodyHandler : Option BodyHandler} {response parsed parsed' : HttpResponse}
    {w w' : Receiver} {framing framing' : ResponseBodyFraming} {r r' : BodyReader}
    (h : Stages lib bodyHandler ptr mem c response w parsed framing r)
    (h' : Stages lib bodyHandler ptr mem c response w' parsed' framing' r') : r = r' := by
  obtain ⟨-, rfl⟩ := Prod.mk.inj (Option.some.inj (h.head.symm.trans h'.head))
  obtain ⟨-, rfl⟩ := Prod.mk.inj (h.parse.symm.trans h'.parse)
  obtain rfl := Option.some.inj (h.declared.symm.trans h'.declared)
  exact (Prod.mk.inj (Option.some.inj (h.body.symm.trans h'.body))).2

/-- A call takes a response off the wire and no more, if a read ends behind it. -/
theorem ResponseMessage.WellFormed.receive_next (hwf : m.WellFormed lib c.awaitingResponseToHead)
    (hself : declaredFraming lib c.awaitingResponseToHead m.head ≠ some .untilClose)
    (hstream : arriving c.wire = m.encode ++ rest) (hcut : m.encode.length ∈ cutsFrom 0 c.wire)
    (hroom : m.encode.length < mem.length) (response : HttpResponse) :
    ∃ o, receiveResponse lib none ptr mem c response = some o ∧ m.ReceivedBy lib o ∧
      arriving o.connection.wire = rest ∧
      o.connection.awaitingResponseToHead = m.stillAwaiting c.awaitingResponseToHead ∧
      ∀ b, m.encode.length + b ∈ cutsFrom 0 c.wire → b ≤ rest.length →
        b ∈ cutsFrom 0 o.connection.wire := by
  obtain ⟨wire, awaiting⟩ := c
  dsimp only at hwf hself hstream hcut ⊢
  obtain ⟨before, after, rfl, hflow, hlength⟩ := cut_split hcut
  rw [Nat.zero_add] at hlength
  have hsplit := hflow.arriving_append after
  obtain ⟨hbefore, hafter⟩ := List.append_inj (hsplit.symm.trans hstream) hlength.symm
  have hbare : ∀ wire, (arriving wire).length = m.encode.length → m.head.fields = [] →
      m.head.encode.length ∈ cutsFrom 0 wire := by
    intro wire hwire hfields
    have hmem := length_arriving_mem_cutsFrom 0 wire
    rwa [Nat.zero_add, hwire, hwf.encode_bare hfields hself] at hmem
  -- the call with nothing behind the response
  obtain ⟨w, parsed, framing, r, hstages, hdeclared, hcode, hreading, -⟩ :=
    @ResponseMessage.WellFormed.stages lib ptr mem ⟨before, awaiting⟩ m [] hwf
      (by simpa using hbefore)
      hroom.le (fun huntil => absurd huntil hself) (hbare before hlength.symm) response
  have hframing : framing ≠ .untilClose := fun huntil => hself (huntil ▸ hdeclared)
  obtain ⟨hpending, hnothing⟩ := List.append_eq_nil_iff.mp (hreading hframing).ahead
  have hwhole := hstages.followedBy hframing after
  -- and with everything
  obtain ⟨w', parsed', framing', r', hstages', hdeclared', -, hreading', hall⟩ :=
    @ResponseMessage.WellFormed.stages lib ptr mem ⟨before ++ after, awaiting⟩ m rest hwf hstream
      hroom.le (fun huntil => absurd huntil hself)
      (fun hfields => hwf.encode_bare hfields hself ▸ hcut) response
  obtain rfl := hwhole.unique hstages'
  have hframing' : framing' ≠ .untilClose := fun huntil => hself (huntil ▸ hdeclared')
  obtain ⟨o, ho, -, -, hconnection⟩ := hwhole.receiveResponse_eq
  have hahead : arriving (r.wire ++ after) = rest := by
    have hahead := (hreading' hframing').ahead
    rwa [show (r.followedBy after).pending m.head.encode.length = [] from hpending] at hahead
  rw [hcode] at hconnection
  refine ⟨o, ho, hall o ho, by rw [hconnection]; exact hahead, by rw [hconnection]; rfl, ?_⟩
  rw [hconnection]
  intro b hb hle
  have hcuts := hflow.mem_cutsFrom hb (by omega)
  rw [Nat.zero_add, ← hlength] at hcuts
  have hbehind := (@add_mem_cutsFrom m.encode.length 0 b after).mp hcuts
  by_cases hend : rest = []
  · rw [hend, List.length_nil, Nat.le_zero] at hle
    exact hle ▸ mem_cutsFrom 0 _
  · exact mem_cutsFrom_append hnothing (hahead ▸ hend) hbehind

/-- Responses that end with reads are all received. -/
theorem SelfDelimited.receivesAll (hself : SelfDelimited lib c.awaitingResponseToHead msgs)
    (hstream : arriving c.wire = encodeAll msgs) (hcalls : calls.length = msgs.length)
    (hroom : ∀ call ∈ calls, (encodeAll msgs).length < call.mem.length)
    (hends : EndsWithReads msgs c.wire) : ReceivesAll lib calls c msgs := by
  induction msgs generalizing calls c with
  | nil =>
    obtain rfl := List.length_eq_zero_iff.mp hcalls
    exact ⟨[], rfl, .nil⟩
  | cons m msgs ih =>
    obtain ⟨call, calls, rfl⟩ := List.exists_cons_of_length_eq_add_one hcalls
    obtain ⟨hwf, hdelimited, hself⟩ := hself
    rw [encodeAll_cons] at hstream hroom
    have hcut := hends 1
    rw [List.take_succ_cons, List.take_zero, encodeAll_cons] at hcut
    have hfits := hroom call List.mem_cons_self
    rw [List.length_append] at hfits
    obtain ⟨o, ho, hby, hrest, hawaiting, hcuts⟩ := @ResponseMessage.WellFormed.receive_next lib
      call.ptr call.mem c m _ hwf hdelimited hstream (by simpa [encodeAll] using hcut) (by omega)
      call.response
    refine receivesAll_cons.mpr ⟨o, ho, hby, ih (hawaiting ▸ hself) hrest (by simpa using hcalls)
      (fun call hcall => ?_) fun k => ?_⟩
    · have hfits := hroom call (List.mem_cons_of_mem _ hcall)
      rw [List.length_append] at hfits
      omega
    · have hnext := hends (k + 1)
      rw [List.take_succ_cons, encodeAll_cons, List.length_append] at hnext
      exact hcuts _ hnext (length_encodeAll_take_le msgs k)

/-! ## Responses that do not -/

/-- A response of `n` bytes that has neither fields nor a body. -/
def plainResponse (n : Nat) : ResponseMessage :=
  ⟨⟨List.replicate (n - 9) 97, ascii "204", [], []⟩, .empty⟩

theorem length_plainResponse {n : Nat} (h : 9 ≤ n) : (plainResponse n).encode.length = n := by
  have hcode : (ascii "204").length = 3 := by decide
  simp [plainResponse, ResponseMessage.encode, MessageHead.encode, MessageHead.startLine,
    MessageHead.fieldBlock, ResponseBody.encode, hcode]
  omega

theorem not_infix_of_not_mem {pat l : Bytes} {a : UInt8} (ha : a ∈ pat) (hl : a ∉ l) :
    ¬ pat <:+: l := fun h => hl (h.subset ha)

theorem wellFormed_head_plainResponse (n : Nat) : (plainResponse n).head.WellFormed where
  first := not_infix_of_not_mem (a := 32) (by decide) (by simp [plainResponse])
  second := by
    rw [show (plainResponse n).head.second = ascii "204" from rfl]
    decide
  startLine := by
    refine not_infix_of_not_mem (a := 13) (by decide) ?_
    have hcode : 13 ∉ space.bytes ++ (ascii "204" ++ space.bytes) := by decide
    simpa [plainResponse, MessageHead.startLine] using hcode
  fields := by simp [plainResponse]

theorem spanToUInt32_204 (lib : CommonLib) (s : Span) (h : s.bytes = ascii "204") :
    lib.spanToUInt32 s = some 204 := by
  have hvalue : decimalValue s.bytes = 204 := by
    rw [h]
    decide
  rw [lib.spanToUInt32_numeral s (by rw [h]; decide +kernel) (by rw [hvalue]; decide), hvalue]

theorem wellFormed_plainResponse (lib : CommonLib) (awaiting : Bool) (n : Nat) :
    (plainResponse n).WellFormed lib awaiting ∧
      declaredFraming lib awaiting (plainResponse n).head = some .none := by
  have hdeclared : declaredFraming lib awaiting (plainResponse n).head = some .none := by
    rw [declaredFraming, if_neg (by rw [not_not]; exact rfl),
      spanToUInt32_204 lib ⟨0, (plainResponse n).head.second⟩ rfl]
    simp
  exact ⟨⟨wellFormed_head_plainResponse n, .none, hdeclared, trivial⟩, hdeclared⟩

/-- A blank line is behind the start line. -/
theorem length_le_of_terminator {line rest l : Bytes} (hline : ¬ crlf.bytes <:+: line)
    (hl : l = line ++ (crlf.bytes ++ rest))
    (hfound : (rfind? headersTerminator.bytes l).isSome = true) : line.length + 4 ≤ l.length := by
  obtain ⟨i, hi⟩ := rfind?_isSome_iff.mp hfound
  have hle := hi.length_le
  have hfour : headersTerminator.bytes.length = 4 := by decide
  have hfirst : OccursAt crlf.bytes l i := by
    rw [headersTerminator_bytes] at hi
    exact ⟨hi.1, (List.prefix_append _ _).trans hi.2⟩
  have hbehind : ¬ i < line.length := fun hlt =>
    crlf_unbordered.not_occursAt hline hlt (hl ▸ hfirst)
  omega

/-- A call that returns such a response has read as much as it takes, and reads on from there. -/
theorem receiveResponse_plain {n : Nat} {response : HttpResponse} {o : ResponseReceipt}
    (ho : receiveResponse lib none ptr mem c response = some o)
    (hby : (plainResponse n).ReceivedBy lib o) :
    ∃ w enough, Flow mem.length enough ⟨mem, 0, c.wire⟩ w ∧ n ≤ w.filled ∧
      w.received = (arriving c.wire).take w.filled ∧
      w.filled + (arriving w.wire).length = (arriving c.wire).length ∧
      o.connection.wire = w.wire := by
  obtain ⟨w, first, second, third, rest, parsed, framing, r, hstages, hflow, hfound, hsplit, hcode,
    h1,
    h2, h3, hwire⟩ := Stages.of_receiveResponse ho hby.result
  have hfirst := h1.symm.trans hby.httpVersion
  have hsecond := h2.symm.trans hby.code
  have hthird := h3.symm.trans hby.reasonPhrase
  have hdeclared := hstages.declared
  have hmem := hflow.length_mem
  have hle := hflow.le_limit
  dsimp only at hmem
  refine ⟨w, _, hflow, ?_, hflow.received (Nat.le_refl _), ?_, ?_⟩
  · have hline : w.received = (plainResponse n).head.startLine ++ (crlf.bytes ++ rest) := by
      rw [splitStartLine_bytes hsplit, hfirst, hsecond, hthird]
      simp [MessageHead.startLine]
    rw [lib.spanFindReverse_eq _ _ headersTerminator_ne_nil] at hfound
    have hlength := length_le_of_terminator (wellFormed_head_plainResponse n).startLine hline hfound
    rw [Receiver.length_received (by omega)] at hlength
    have hthree : (ascii "204").length = 3 := by decide
    simp [plainResponse, MessageHead.startLine, hthree] at hlength
    omega
  · have hlength := congrArg List.length hflow.image
    rwa [Receiver.image, List.length_append, Receiver.length_received (by omega)] at hlength
  · have hnone : determineResponseBodyFraming lib { c with wire := w.wire } parsed.headOnly =
        some .none := by
      have hbytes : parsed.headOnly.code.bytes = ascii "204" := hcode.trans hsecond
      rw [determineResponseBodyFraming, if_neg (by rw [not_not, Span.size, hbytes]; decide),
        spanToUInt32_204 lib _ hbytes]
      simp
    obtain rfl := Option.some.inj (hnone.symm.trans hdeclared)
    obtain ⟨-, rfl⟩ := Prod.mk.inj (Option.some.inj hstages.body)
    exact hwire

theorem length_encodeAll (msgs : List ResponseMessage) :
    (encodeAll msgs).length = (msgs.map fun m => m.encode.length).sum := List.length_flatMap

theorem map_length_plainResponse {lens : List Nat} (h : ∀ n ∈ lens, 9 ≤ n) :
    (lens.map plainResponse).map (fun m => m.encode.length) = lens := by
  rw [List.map_map]
  exact (List.map_congr_left fun n hn => length_plainResponse (h n hn)).trans (List.map_id _)

theorem selfDelimited_plainResponse (lib : CommonLib) (awaiting : Bool) (lens : List Nat) :
    SelfDelimited lib awaiting (lens.map plainResponse) := by
  induction lens generalizing awaiting with
  | nil => trivial
  | cons n lens ih =>
    obtain ⟨hwf, hdeclared⟩ := wellFormed_plainResponse lib awaiting n
    exact ⟨hwf, by simp [hdeclared], ih _⟩

/-- There has to be a call for each response. -/
theorem receivesAll_cons_call (h : ReceivesAll lib calls c (m :: msgs)) :
    ∃ call rest, calls = call :: rest := by
  cases calls with
  | nil =>
    obtain ⟨receipts, hrun, hall⟩ := h
    obtain rfl := Option.some.inj hrun
    cases hall
  | cons call rest => exact ⟨call, rest, rfl⟩

/-- The calls read at least as many bytes as the responses take. -/
theorem sum_le_of_receivesAll {lens : List Nat}
    (h : ReceivesAll lib calls c (lens.map plainResponse)) :
    lens.sum ≤ (arriving c.wire).length := by
  induction lens generalizing calls c with
  | nil => exact Nat.zero_le _
  | cons n lens ih =>
    obtain ⟨call, calls, rfl⟩ := receivesAll_cons_call h
    obtain ⟨o, ho, hby, hrest⟩ := receivesAll_cons.mp h
    obtain ⟨w, -, -, hle, -, hlength, hwire⟩ := receiveResponse_plain ho hby
    have hafter := ih hrest
    rw [hwire] at hafter
    rw [List.sum_cons]
    omega

/-- If nothing is left over for them, each call has read exactly its response. -/
theorem endsWithReads_of_receivesAll {lens : List Nat} (hlens : ∀ n ∈ lens, 9 ≤ n)
    (hstream : arriving c.wire = encodeAll (lens.map plainResponse))
    (hroom : ∀ call ∈ calls, (arriving c.wire).length < call.mem.length)
    (h : ReceivesAll lib calls c (lens.map plainResponse)) :
    EndsWithReads (lens.map plainResponse) c.wire := by
  induction lens generalizing calls c with
  | nil =>
    intro k
    simpa [encodeAll] using mem_cutsFrom 0 c.wire
  | cons n lens ih =>
    obtain ⟨call, calls, rfl⟩ := receivesAll_cons_call h
    obtain ⟨o, ho, hby, hrest⟩ := receivesAll_cons.mp h
    obtain ⟨w, enough, hflow, hle, hreceived, hlength, hwire⟩ := receiveResponse_plain ho hby
    have hafter := sum_le_of_receivesAll hrest
    rw [hwire] at hafter
    have hn := hlens n List.mem_cons_self
    have hlens' : ∀ n ∈ lens, 9 ≤ n := fun n hn => hlens n (List.mem_cons_of_mem _ hn)
    have htotal := congrArg List.length hstream
    rw [length_encodeAll, map_length_plainResponse hlens, List.sum_cons] at htotal
    have hexact : w.filled = n := by omega
    have hrestStream : arriving o.connection.wire = encodeAll (lens.map plainResponse) := by
      have himage := hflow.image
      change w.received ++ arriving w.wire = arriving c.wire at himage
      rw [hwire]
      rw [hstream, List.map_cons, encodeAll_cons] at himage
      refine (List.append_inj himage ?_).2
      rw [length_plainResponse hn, hreceived, List.length_take]
      omega
    have hends := ih hlens' hrestStream (fun call hcall => by
      have hfits := hroom call (List.mem_cons_of_mem _ hcall)
      rw [hwire]
      omega) hrest
    rintro (_ | k)
    · simpa [encodeAll] using mem_cutsFrom 0 c.wire
    · have hnext := hends k
      have hbound := length_encodeAll_take_le (lens.map plainResponse) k
      rw [length_encodeAll (lens.map plainResponse), map_length_plainResponse hlens'] at hbound
      have hfits := hroom call List.mem_cons_self
      rw [List.map_cons, List.take_succ_cons, encodeAll_cons, List.length_append,
        length_plainResponse hn]
      rw [hwire] at hnext
      have hshift := (@add_mem_cutsFrom n 0 _ w.wire).mpr hnext
      rcases hflow.cuts _ (by rw [hexact]; exact hshift) with hmem | hmem
      · exact hmem
      · omega

/-- A status of three digits and the punctuation of a head are nine bytes. -/
theorem ResponseMessage.WellFormed.nine_le {awaiting : Bool} (hwf : m.WellFormed lib awaiting) :
    9 ≤ m.encode.length := by
  obtain ⟨framing, hdeclared, -⟩ := hwf.framed
  have hthree : m.head.second.length = 3 := by
    by_contra hne
    simp [declaredFraming, hne] at hdeclared
  rw [ResponseMessage.encode, List.length_append, MessageHead.length_encode, startLineLength]
  omega

theorem SelfDelimited.nine_le {awaiting : Bool} (h : SelfDelimited lib awaiting msgs) :
    ∀ n ∈ msgs.map (fun m => m.encode.length), 9 ≤ n := by
  induction msgs generalizing awaiting with
  | nil => simp
  | cons m msgs ih =>
    obtain ⟨hwf, -, hself⟩ := h
    intro n hn
    rcases List.mem_cons.mp hn with rfl | hn
    · exact hwf.nine_le
    · exact ih hself n hn

end

/-! ## Consecutive responses -/

/-- Other responses of the same lengths, in the same reads. -/
structure SameReads (lib : CommonLib) (awaiting : Bool) (msgs msgs' : List ResponseMessage)
    (wire wire' : Wire) : Prop where
  lengths : msgs'.map (fun m => m.encode.length) = msgs.map fun m => m.encode.length
  reads : wire'.map StreamEvent.shape = wire.map StreamEvent.shape
  self : SelfDelimited lib awaiting msgs'
  stream : arriving wire' = encodeAll msgs'

section

variable {lib : CommonLib} {awaiting : Bool} {msgs msgs' : List ResponseMessage} {wire wire' : Wire}

theorem SameReads.endsWithReads_iff (h : SameReads lib awaiting msgs msgs' wire wire') :
    EndsWithReads msgs' wire' ↔ EndsWithReads msgs wire := by
  have hlength : ∀ k, (encodeAll (msgs'.take k)).length = (encodeAll (msgs.take k)).length := by
    intro k
    rw [length_encodeAll, length_encodeAll, List.map_take, h.lengths, List.map_take]
  have hcuts : cutsFrom 0 wire' = cutsFrom 0 wire := by
    rw [← cutsFrom_shape, h.reads, cutsFrom_shape]
  simp only [EndsWithReads, hlength, hcuts]

theorem SameReads.length_eq (h : SameReads lib awaiting msgs msgs' wire wire')
    (hstream : arriving wire = encodeAll msgs) :
    (arriving wire').length = (arriving wire).length := by
  rw [h.stream, hstream, length_encodeAll, length_encodeAll, h.lengths]

/-- There are plain responses in the same reads. -/
theorem exists_plain_reads (hself : SelfDelimited lib awaiting msgs)
    (hstream : arriving wire = encodeAll msgs) :
    let lens := msgs.map fun m => m.encode.length
    ∃ wire', SameReads lib awaiting msgs (lens.map plainResponse) wire wire' := by
  intro lens
  have hlens := map_length_plainResponse hself.nine_le
  have hlength : (encodeAll (lens.map plainResponse)).length = (arriving wire).length := by
    rw [hstream, length_encodeAll, hlens, length_encodeAll]
  exact ⟨refill wire (encodeAll (lens.map plainResponse)), hlens, shape_refill hlength,
    selfDelimited_plainResponse lib awaiting lens, arriving_refill hlength⟩

end

/-- Consecutive responses in these reads are all received, whatever they are, if and only if a
read ends behind each of them. -/
theorem responses_received_iff (lib : CommonLib) {awaiting : Bool} {msgs : List ResponseMessage}
    {wire : Wire} {calls : List ResponseCall} (hself : SelfDelimited lib awaiting msgs)
    (hstream : arriving wire = encodeAll msgs) (hcalls : calls.length = msgs.length)
    (hroom : ∀ call ∈ calls, (arriving wire).length < call.mem.length) :
    (∀ msgs' wire', SameReads lib awaiting msgs msgs' wire wire' →
      ReceivesAll lib calls ⟨wire', awaiting⟩ msgs') ↔ EndsWithReads msgs wire := by
  constructor
  · intro hall
    obtain ⟨wire', hsame⟩ := exists_plain_reads hself hstream
    refine hsame.endsWithReads_iff.mp ?_
    refine endsWithReads_of_receivesAll hself.nine_le hsame.stream (c := ⟨wire', awaiting⟩)
      (fun call hcall => ?_) (hall _ wire' hsame)
    rw [hsame.length_eq hstream]
    exact hroom call hcall
  · intro hends msgs' wire' hsame
    have hcount := congrArg List.length hsame.lengths
    rw [List.length_map, List.length_map] at hcount
    refine SelfDelimited.receivesAll (c := ⟨wire', awaiting⟩) hsame.self hsame.stream
      (hcalls.trans hcount.symm) (fun call hcall => ?_) (hsame.endsWithReads_iff.mpr hends)
    rw [← hsame.stream, hsame.length_eq hstream]
    exact hroom call hcall

/-- An interim response and the final one. -/
def interimAndFinal : List ResponseMessage :=
  [⟨⟨ascii "HTTP/1.1", ascii "100", ascii "Continue", []⟩, .empty⟩,
    ⟨⟨ascii "HTTP/1.1", ascii "200", ascii "OK", [ascii "Content-Length: 1"]⟩,
      .counted (ascii "a")⟩]

theorem interimAndFinal_selfDelimited : SelfDelimited .reference false interimAndFinal := by
  refine ⟨⟨⟨by decide +kernel, by decide +kernel, by decide +kernel, by decide +kernel⟩, .none,
    by decide +kernel, trivial⟩, by decide +kernel, ⟨⟨by decide +kernel, by decide +kernel,
    by decide +kernel, by decide +kernel⟩, .contentLength 1, by decide +kernel, rfl⟩,
    by decide +kernel, trivial⟩

def twoCalls : List ResponseCall := List.replicate 2 ⟨1000, List.replicate 80 0, .zero⟩

/-- Each in a read of its own. -/
theorem responses_received_apart :
    let wire : Wire := interimAndFinal.map fun m => .data m.encode
    ReceivesAll .reference twoCalls ⟨wire, false⟩ interimAndFinal := by
  intro wire
  have hstream : arriving wire = encodeAll interimAndFinal := by decide +kernel
  have hends : EndsWithReads interimAndFinal wire := by
    rintro (_ | _ | k)
    · decide +kernel
    · decide +kernel
    · rw [List.take_of_length_le (by simp [interimAndFinal])]
      decide +kernel
  exact (@responses_received_iff .reference false interimAndFinal wire twoCalls
    interimAndFinal_selfDelimited hstream rfl (by decide +kernel)).mpr hends _ _
    ⟨rfl, rfl, interimAndFinal_selfDelimited, hstream⟩

/-- In one read, the final one is lost. -/
theorem responses_lost :
    ¬ ∀ (lib : CommonLib) (awaiting : Bool) (msgs : List ResponseMessage) (wire : Wire)
      (calls : List ResponseCall), SelfDelimited lib awaiting msgs →
      arriving wire = encodeAll msgs →
      calls.length = msgs.length → (∀ call ∈ calls, (arriving wire).length < call.mem.length) →
      ReceivesAll lib calls ⟨wire, awaiting⟩ msgs := by
  intro h
  obtain ⟨receipts, hrun, hall⟩ := h .reference false interimAndFinal
    [.data (encodeAll interimAndFinal)]
    twoCalls interimAndFinal_selfDelimited (by decide +kernel) rfl (by decide +kernel)
  have hlost : (receiveResponses .reference twoCalls
      ⟨[.data (encodeAll interimAndFinal)], false⟩).map (List.map ResponseReceipt.result) =
        some [.ok, .error] := by decide +kernel
  rw [hrun, Option.map_some, Option.some.injEq] at hlost
  cases hall with
  | cons hfirst hrest =>
    cases hrest with
    | cons hsecond hnil =>
      simp [hsecond.result] at hlost

end HttpC
