import HttpC.Connection.ResponseSequence
import HttpC.RequestReading

/-!
# Stored and streamed responses

Both flavours of `receive_response` run the same body reader. In stored mode the body accumulates
at the front of the window and the reader has the rest of it; in streaming mode it has all of the
window. So what can be stored can be streamed, and in both modes the reader only moves bytes down,
between the end of the stored body and what it has not consumed.

## Main results

* `receiveResponse_streams` — a response that is received into a buffer is streamed through one of
  that size.
* `reader_discipline` — what the operations of the reader leave alone, in either mode.
-/

namespace HttpC

open Block ListSearch Transition

/-! ## The same head -/

section

variable {limit : Nat} {enough enough' : Bytes → Bool} {w w' s s' : Receiver}

/-- A receive loop that has got enough stops there again, if the reads up to there are the same. -/
theorem receive_same_reads (hfit : limit ≤ s.mem.length) (hfit' : limit ≤ s'.mem.length)
    (hle : s.filled ≤ limit) (hstart : s'.filled = s.filled) (himage : s'.image = s.image)
    (hsame : ∀ n, enough' (s.image.take n) = enough (s.image.take n))
    (hrun : receive limit enough s = some (.ok, w))
    (hreads : ∀ b ≤ w.filled, b ∈ cutsFrom s'.filled s'.wire ↔ b ∈ cutsFrom s.filled s.wire) :
    ∃ w', receive limit enough' s' = some (.ok, w') ∧ Flow limit enough s w ∧
      Flow limit enough' s' w' ∧ w'.filled = w.filled := by
  obtain ⟨result, v, v₁, hrun₁, hflow, hstop⟩ := @receive_spec limit enough s hfit hle
  obtain ⟨rfl, rfl⟩ := Prod.mk.inj (Option.some.inj (hrun.symm.trans hrun₁))
  obtain ⟨result', v', v₁', hrun', hflow', hstop'⟩ :=
    @receive_spec limit enough' s' hfit' (hstart ▸ hle)
  obtain ⟨rfl, henough⟩ : v₁ = w ∧ enough w.received = true := by
    cases hstop with
    | enough h => exact ⟨rfl, h⟩
    | ended _ _ _ hend => simp at hend
  have hreceived := hflow.received hfit
  have hreceived' := hflow'.received hfit'
  rw [himage] at hreceived'
  rw [hreceived] at henough
  have hbound := hflow.le_limit
  have hbound' := hflow'.le_limit
  -- neither stops before the other
  have hnot : ¬ v₁.filled < v₁'.filled := by
    intro hlt
    have hcut : v₁.filled ∈ cutsFrom s.filled s.wire :=
      (hflow.cuts _ (mem_cutsFrom _ _)).resolve_right (by omega)
    have hfew := hflow'.tooLittle _ ((hreads _ (Nat.le_refl _)).mpr hcut) hlt
    rw [himage, hsame, henough] at hfew
    cases hfew
  have hnot' : ¬ v₁'.filled < v₁.filled := by
    intro hlt
    have hcut : v₁'.filled ∈ cutsFrom s'.filled s'.wire :=
      (hflow'.cuts _ (mem_cutsFrom _ _)).resolve_right (by omega)
    have hfew := hflow.tooLittle _ ((hreads _ hlt.le).mp hcut) hlt
    cases hstop' with
    | enough h =>
      rw [hreceived', hsame, hfew] at h
      cases h
    | full _ hfull => omega
    | ended _ _ hover _ =>
      -- everything has arrived, and that is as much as the first loop has read
      have hall := congrArg List.length hflow'.image
      have hall' := congrArg List.length hreceived
      rw [Receiver.image, hover, List.append_nil, hreceived', himage, List.length_take] at hall
      rw [Receiver.length_received (by rw [hflow.length_mem]; omega), List.length_take] at hall'
      omega
  have hfilled : v₁'.filled = v₁.filled := by omega
  cases hstop' with
  | enough h => exact ⟨_, hrun', hflow, hflow', hfilled⟩
  | full h _ | ended h =>
    rw [hreceived', hsame, hfilled, henough] at h
    cases h

end

section

variable {lib : CommonLib} {ptr ptr' : Nat} {mem mem' : Bytes} {c c' : HttpConnection}
  {w w' : Receiver} {response response' : HttpResponse}

/-- What the head reader leaves, however the bytes behind are split into reads. -/
structure SameHead (mem mem' : Bytes) (w w' : Receiver) : Prop where
  length_mem : w.mem.length = mem.length
  length_mem' : w'.mem.length = mem'.length
  filled_le : w.filled ≤ mem.length
  filled : w'.filled = w.filled
  image : w'.image = w.image
  orderly : endsOrderly w'.wire = endsOrderly w.wire

theorem readUntilHeadersComplete_same (hmem : mem'.length = mem.length)
    (hstream : arriving c'.wire = arriving c.wire)
    (hend : endsOrderly c'.wire = endsOrderly c.wire)
    (hhead : readUntilHeadersComplete lib ptr mem c.wire = some (.ok, w))
    (hreads : ∀ b ≤ w.filled, b ∈ cutsFrom 0 c'.wire ↔ b ∈ cutsFrom 0 c.wire) :
    ∃ w', readUntilHeadersComplete lib ptr' mem' c'.wire = some (.ok, w') ∧
      SameHead mem mem' w w' := by
  have himage : (Receiver.mk mem' 0 c'.wire).image = (Receiver.mk mem 0 c.wire).image := by
    simp [Receiver.image, Receiver.received, hstream]
  obtain ⟨w', hhead', hflow, hflow', hfilled⟩ := @receive_same_reads mem.length _
    (fun received => (lib.spanFindReverse ⟨ptr', received⟩ headersTerminator).isSome) w
    ⟨mem, 0, c.wire⟩ ⟨mem', 0, c'.wire⟩ (Nat.le_refl _) hmem.ge (Nat.zero_le _) rfl himage
    (fun n => by simp only [lib.spanFindReverse_eq _ _ headersTerminator_ne_nil]) hhead hreads
  refine ⟨w', by rw [readUntilHeadersComplete, hmem, hhead'], hflow.length_mem, hflow'.length_mem,
    hflow.le_limit, hfilled, ?_, ?_⟩
  · rw [hflow'.image, hflow.image, himage]
  · exact hflow'.orderly.trans (hend.trans hflow.orderly.symm)

theorem SameHead.received (h : SameHead mem mem' w w') (hmem : mem'.length = mem.length) :
    w'.received = w.received := by
  have hlen := h.length_mem
  have hlen' := h.length_mem'
  have hle := h.filled_le
  have hfilled := h.filled
  rw [← Receiver.take_image (w := w) (by omega), ← Receiver.take_image (w := w') (by omega),
    h.image, hfilled]

/-- What the parser takes the head to be. -/
theorem httpResponseParse_parts (lib : CommonLib) (response : HttpResponse) {raw : Span}
    {first second third fields : Bytes}
    (hsplit : splitStartLine raw.bytes = some (first, second, third, fields)) :
    ∃ parsed, httpResponseParse lib response raw = (.ok, parsed) ∧
      parsed.body = (splitHeadersAndBody lib (raw.tail (startLineLength first second third))).2 ∧
      ∀ (c : HttpConnection) (body : Span),
        determineResponseBodyFraming lib c { parsed with body } =
          declaredFraming lib c.awaitingResponseToHead
            ⟨first, second, third, fieldLines (keptBlock fields)⟩ := by
  obtain ⟨hblock, hused, -⟩ :=
    block_splitHeadersAndBody lib (raw.tail (startLineLength first second third))
  rw [bytes_tail_startLine hsplit] at hblock
  refine ⟨_, httpResponseParse_eq lib response hsplit, rfl, fun c body => ?_⟩
  refine determineResponseBodyFraming_eq (bytes_startLine hsplit).2.1 (fun name hname => ?_) c
  dsimp only
  rw [httpHeadersFind_block lib hused hname, hblock]

theorem size_splitHeadersAndBody (lib : CommonLib) {raw raw' : Span} (h : raw'.bytes = raw.bytes) :
    (splitHeadersAndBody lib raw').2.size = (splitHeadersAndBody lib raw).2.size := by
  cases hcut : cut? headersTerminator.bytes raw.bytes with
  | none =>
    rw [splitHeadersAndBody_no_blank lib hcut, splitHeadersAndBody_no_blank lib (h ▸ hcut)]
  | some parts =>
    rw [splitHeadersAndBody_blank lib hcut, splitHeadersAndBody_blank lib (h ▸ hcut), Span.size,
      Span.size, Span.bytes_tail, Span.bytes_tail, h]

end

/-! ## The same body -/

section

variable (lib : CommonLib) {buffer buffer' capacity : Nat} {below below' input : Bytes}
  {orderly : Bool} {handler : BodyHandler} {r r' s : BodyReader} {framing : ResponseBodyFraming}

/-- Whatever can be stored can be handed on. -/
theorem Reading.streams (h : Reading buffer capacity below orderly input r)
    (h' : Reading buffer' capacity below' orderly input r') (hstored : r.storedLength = 0)
    (hstored' : r'.storedLength = 0) (hpieces : r'.pieces = [])
    (hhandler : ∀ pieces, lib.isError (handler pieces) = false)
    (hrun : readResponseBody lib none buffer capacity r framing = some (.ok, s)) :
    ∃ s', readResponseBody lib (some handler) buffer' capacity r' framing = some (.ok, s') ∧
      s'.pieces.flatten = s.stored buffer := by
  have hnone : ∀ handler ∈ (none : Option BodyHandler), ∀ pieces,
      lib.isError (handler pieces) = false := by simp
  have hsome : ∀ handler' ∈ some handler, ∀ pieces, lib.isError (handler' pieces) = false := by
    rintro _ ⟨⟩
    exact hhandler
  -- the bytes that one mode stores are those that the other hands on
  have hbody : ∀ {bytes : Bytes} {s' : BodyReader}, Passed none buffer capacity bytes r s →
      Passed (some handler) buffer' capacity bytes r' s' →
        s'.pieces.flatten = s.stored buffer := by
    intro bytes s' hpassed hpassed'
    have hstore := hpassed.body
    have hhand := hpassed'.body
    simp only [BodyReader.body] at hstore hhand
    rw [hhand, hstore, hpieces, BodyReader.stored, hstored, window_zero_length]
    rfl
  cases framing with
  | none =>
    obtain rfl : r = s := by simpa [readResponseBody] using hrun
    exact ⟨r', rfl, by rw [hpieces, BodyReader.stored, hstored, window_zero_length]; rfl⟩
  | contentLength n =>
    simp only [readResponseBody] at hrun ⊢
    obtain ⟨result, t, hrun₁, ⟨hle, -, ht, hpassed⟩ | ⟨hshort, -⟩⟩ :=
      h.passThrough_cases lib hnone n
    swap
    · obtain ⟨rfl, -⟩ := Prod.mk.inj (Option.some.inj (hrun₁.symm.trans hrun))
      exact absurd (hshort ▸ isError_shortage lib _ _) (by simp)
    obtain ⟨-, rfl⟩ := Prod.mk.inj (Option.some.inj (hrun₁.symm.trans hrun))
    have hfits : n ≤ capacity := by
      have htotal := hpassed.storedLength
      have hbound := ht.stored_le
      have hbound' := ht.start_le
      have hbound'' := ht.stop_le
      rw [List.length_take, Nat.min_eq_left hle] at htotal
      simp only [storedBy] at htotal
      omega
    obtain ⟨result', t', hrun', ⟨-, rfl, -, hpassed'⟩ | ⟨-, hstuck⟩⟩ :=
      h'.passThrough_cases lib hsome n
    · exact ⟨t', hrun', hbody hpassed hpassed'⟩
    · simp only [storedBy] at hstuck
      omega
  | chunked =>
    simp only [readResponseBody] at hrun ⊢
    obtain ⟨result, t, hrun₁, herror | ⟨-, stream, rest, hwf, rfl, hfits, -, hpassed⟩⟩ :=
      h.chunked_cases lib hnone
    · obtain ⟨rfl, -⟩ := Prod.mk.inj (Option.some.inj (hrun₁.symm.trans hrun))
      simp at herror
    obtain ⟨-, rfl⟩ := Prod.mk.inj (Option.some.inj (hrun₁.symm.trans hrun))
    obtain ⟨t', hrun', -, hpassed'⟩ := h'.chunked lib hsome hwf fun l hl => by
      simpa [hstored', storedBy] using hfits l hl
    exact ⟨t', hrun', hbody hpassed hpassed'⟩
  | untilClose =>
    simp only [readResponseBody] at hrun ⊢
    obtain ⟨result, t, hrun₁, ⟨-, horderly, -, hpassed, hroom⟩ | ⟨herror, -⟩⟩ :=
      h.untilClose_cases lib hnone
    swap
    · obtain ⟨rfl, -⟩ := Prod.mk.inj (Option.some.inj (hrun₁.symm.trans hrun))
      simp at herror
    obtain ⟨-, rfl⟩ := Prod.mk.inj (Option.some.inj (hrun₁.symm.trans hrun))
    obtain ⟨result', t', hrun', ⟨rfl, -, -, hpassed', -⟩ | ⟨-, hstuck⟩⟩ :=
      h'.untilClose_cases lib hsome
    · exact ⟨t', hrun', hbody hpassed hpassed'⟩
    · simp only [horderly, storedBy] at hstuck
      simp at hstuck
      omega

end

section

variable {lib : CommonLib} {ptr ptr' : Nat} {mem mem' : Bytes} {c c' : HttpConnection}
  {response response' : HttpResponse} {handler : BodyHandler}

/-- The stored body of a call. -/
theorem Stages.body_bytes {w : Receiver} {parsed : HttpResponse} {framing : ResponseBodyFraming}
    {r : BodyReader} (h : Stages lib none ptr mem c response w parsed framing r)
    {o : ResponseReceipt} (ho : receiveResponse lib none ptr mem c response = some o) :
    o.response.body.bytes = r.stored (windowStart ptr parsed.body w) := by
  obtain ⟨o', ho', -, hresponse, -⟩ := h.receiveResponse_eq
  obtain rfl := Option.some.inj (ho'.symm.trans ho)
  rw [hresponse]
  simp only [HttpResponse.reread, Option.isNone_none, true_and, bytes_reread_stored]
  rfl

/-- A response that is received into a buffer is streamed through a buffer of that size, if the
head arrives in the same reads: the pieces make up the stored body. -/
theorem receiveResponse_streams (hmem : mem'.length = mem.length)
    (hawaiting : c'.awaitingResponseToHead = c.awaitingResponseToHead)
    (hstream : arriving c'.wire = arriving c.wire)
    (hend : endsOrderly c'.wire = endsOrderly c.wire)
    (hreads : ∀ w, readUntilHeadersComplete lib ptr mem c.wire = some (.ok, w) →
      ∀ b ≤ w.filled, b ∈ cutsFrom 0 c'.wire ↔ b ∈ cutsFrom 0 c.wire)
    (hhandler : ∀ pieces, lib.isError (handler pieces) = false)
    {o : ResponseReceipt} (ho : receiveResponse lib none ptr mem c response = some o)
    (hok : o.result = .ok) :
    ∃ w' parsed' framing r', Stages lib (some handler) ptr' mem' c' response' w' parsed' framing r' ∧
      r'.pieces.flatten = o.response.body.bytes := by
  obtain ⟨w, first, second, third, fields, parsed, framing, r, hstages, -, -, hsplit, -⟩ :=
    Stages.of_receiveResponse ho hok
  rw [hstages.body_bytes ho]
  have hsame := hreads w hstages.head
  obtain ⟨w', hhead', hw⟩ := @readUntilHeadersComplete_same lib ptr ptr' mem mem' c c' w hmem
    hstream hend hstages.head hsame
  have hreceived := hw.received hmem
  have hsplit' := hreceived ▸ hsplit
  obtain ⟨parsed₁, hparse₁, hbody, hframing⟩ := @httpResponseParse_parts lib response
    ⟨ptr, w.received⟩ _ _ _ _ hsplit
  obtain rfl : parsed₁ = parsed := (Prod.mk.inj (hparse₁.symm.trans hstages.parse)).2
  obtain ⟨parsed', hparse', hbody', hframing'⟩ := @httpResponseParse_parts lib response'
    ⟨ptr', w'.received⟩ _ _ _ _ hsplit'
  have hlen := hw.length_mem
  have hlen' := hw.length_mem'
  have hle := hw.filled_le
  have hfilled := hw.filled
  have hlength := length_splitStartLine hsplit
  rw [Receiver.length_received (by omega)] at hlength
  have hstartLine : startLineLength first second third ≤ w.filled := by omega
  obtain ⟨start, -, -, hstart, hwindow, hsize, -⟩ := windowStart_parts lib ptr (w := w) (by omega)
    hstartLine
  obtain ⟨start', -, -, hstart', hwindow', hsize', -⟩ := windowStart_parts lib ptr' (w := w')
    (by omega) (hfilled ▸ hstartLine)
  rw [← hbody] at hwindow hsize
  rw [← hbody'] at hwindow' hsize'
  have hprefetched : parsed'.body.size = parsed₁.body.size := by
    rw [hbody, hbody']
    exact size_splitHeadersAndBody lib
      ((bytes_tail_startLine hsplit').trans (bytes_tail_startLine hsplit).symm)
  -- both windows begin at the same place, and the same bytes are ahead of them
  obtain rfl : start' = start := by omega
  have hopened := Receiver.opened (w := w) (by omega) hstart
  have hopened' := Receiver.opened (w := w') (by omega) hstart'
  have hrun := hstages.body
  rw [hwindow, show parsed₁.body.size + (mem.length - w.filled) = w.mem.length - start' by omega,
    hsize] at hrun
  rw [hw.image, hw.orderly, show w'.mem.length - start' = w.mem.length - start' by omega]
    at hopened'
  obtain ⟨r', hrun', hpieces⟩ := hopened.streams lib hopened' rfl rfl rfl hhandler hrun
  refine ⟨w', parsed', framing, r', ⟨hhead', hparse', ?_, ?_⟩, hwindow ▸ hpieces⟩
  · have hdeclared := hstages.declared
    rw [HttpResponse.headOnly] at hdeclared ⊢
    rw [hframing] at hdeclared
    rw [hframing', ← hdeclared]
    exact congrArg (declaredFraming lib · _) hawaiting
  · rw [hwindow', show parsed'.body.size + (mem'.length - w'.filled) = w.mem.length - start' by
      omega, hsize']
    exact hrun'

end

/-! ## The discipline of the window -/

section

variable {lib : CommonLib} {bodyHandler : Option BodyHandler} {ptr : Nat} {mem mem' : Bytes}
  {w : Receiver} {response parsed : HttpResponse}

/-- The loops of the reader are sequences of its operations. -/
theorem leads_readResponseBody {buffer capacity : Nat} {opened r : BodyReader}
    {framing : ResponseBodyFraming} {result : Result}
    (h : readResponseBody lib bodyHandler buffer capacity opened framing = some (result, r)) :
    (readerMachine lib bodyHandler buffer capacity opened).Leads opened r := by
  cases framing with
  | none =>
    obtain ⟨-, rfl⟩ := Prod.mk.inj (Option.some.inj h)
    exact .refl _
  | contentLength n => exact respects_leads.passThrough deliver_leads n _ h
  | chunked => exact respects_leads.chunked deliver_leads _ h
  | untilClose => exact respects_leads.untilClose deliver_leads _ h

theorem iterator_httpHeadersParse (lib : CommonLib) (raw : Span) :
    (httpHeadersParse lib raw).iterator =
      lib.spanSlice raw 0 (httpHeadersParse lib raw).usedSize := rfl

/-- The parsed head lies before the window, and says the same as long as that stays. -/
theorem headOnly_reread (hw : w.filled ≤ w.mem.length)
    (hparse : httpResponseParse lib response ⟨ptr, w.received⟩ = (.ok, parsed))
    (hbelow : mem'.take (windowStart ptr parsed.body w) =
      w.mem.take (windowStart ptr parsed.body w)) :
    windowStart ptr parsed.body w ≤ w.filled ∧
      parsed.body.size = w.filled - windowStart ptr parsed.body w ∧
      parsed.headOnly.reread ptr mem' = parsed.headOnly := by
  cases hsplit : splitStartLine w.received with
  | none =>
    have hfails := @httpResponseParse_none lib response ⟨ptr, w.received⟩ hsplit
    rw [hparse] at hfails
    simp at hfails
  | some parts =>
    obtain ⟨first, second, third, fields⟩ := parts
    have hlength := length_splitStartLine hsplit
    rw [Receiver.length_received hw] at hlength
    have hstartLine : startLineLength first second third =
      first.length + 1 + (second.length + 1) + (third.length + 2) := rfl
    obtain ⟨start, -, hbehind, hstart, hwindow, hsize, k, hpart, hle⟩ :=
      windowStart_parts lib ptr hw (n := startLineLength first second third) (by omega)
    have hused := (block_splitHeadersAndBody lib ((⟨ptr, w.received⟩ : Span).tail
      (startLineLength first second third))).2.1
    rw [httpResponseParse_eq lib response hsplit] at hparse
    obtain rfl := (Prod.mk.inj hparse).2
    dsimp only at hwindow hsize hused hbelow ⊢
    rw [hwindow] at hbelow ⊢
    refine ⟨hstart, hsize, ?_⟩
    have hkeeps : ∀ i n, i + n ≤ start →
        ((⟨ptr, w.received⟩ : Span).sub i n).reread ptr mem' = (⟨ptr, w.received⟩ : Span).sub i n :=
      fun i n hin => (Span.below_sub hin hstart hw).reread_eq hbelow
    have hfirst := hkeeps 0 first.length (by omega)
    have hsecond := hkeeps (first.length + 1) second.length (by omega)
    have hthird := hkeeps (first.length + 1 + (second.length + 1)) third.length (by omega)
    have hheaders : ∀ headers : HttpHeaders, headers.buffer.reread ptr mem' = headers.buffer →
        headers.iterator.reread ptr mem' = headers.iterator →
          headers.reread ptr mem' = headers := by
      rintro ⟨buffer, used, iterator⟩ hbuffer hiterator
      rw [HttpHeaders.reread, hbuffer, hiterator]
    have hempty : Span.empty.reread ptr mem' = .empty := by
      rw [Span.reread, Span.size, Span.empty, List.length_nil, window_zero_length]
    rw [HttpResponse.headOnly, HttpResponse.reread]
    dsimp only
    rw [hfirst, hsecond, hthird, hempty, hheaders]
    · rw [buffer_httpHeadersParse, hpart]
      exact hkeeps _ _ hle
    · have hfits : ((⟨ptr, w.received⟩ : Span).sub (startLineLength first second third) k).size ≤
          k := by simp [Span.size]
      rw [iterator_httpHeadersParse, lib.spanSlice_eq _ _ _ (by rwa [Nat.zero_add])]
      rw [hpart] at hused ⊢
      rw [Span.sub_sub _ (by omega)]
      exact hkeeps _ _ (by omega)

end

/-- `stored_length <= start <= end <= capacity` -/
structure BodyReader.Disciplined (capacity : Nat) (r : BodyReader) : Prop where
  stored_le : r.storedLength ≤ r.start
  start_le : r.start ≤ r.stop
  stop_le : r.stop ≤ capacity

section

variable (lib : CommonLib) (bodyHandler : Option BodyHandler) (ptr : Nat) (mem : Bytes)
  (w : Receiver) (parsed : HttpResponse)

/-- The reader of a call, behind the head. -/
def bodyMachine : Machine BodyReader ReaderOperation Copy :=
  readerMachine lib bodyHandler (windowStart ptr parsed.body w)
    (parsed.body.size + (mem.length - w.filled)) (.opened w.mem w.wire parsed.body.size)

/-- The discipline of the window, from one operation to the next. -/
structure KeepsDiscipline : Prop where
  operations : ∀ framing result r,
    readResponseBody lib bodyHandler (windowStart ptr parsed.body w)
      (parsed.body.size + (mem.length - w.filled)) (.opened w.mem w.wire parsed.body.size)
        framing = some (result, r) →
      ∃ copies, Run (bodyMachine lib bodyHandler ptr mem w parsed) copies r
  window : ∀ copies r, Run (bodyMachine lib bodyHandler ptr mem w parsed) copies r →
    r.Disciplined (parsed.body.size + (mem.length - w.filled))
  copies : ∀ copies r, Run (bodyMachine lib bodyHandler ptr mem w parsed) copies r →
    ∀ operation more s,
      (bodyMachine lib bodyHandler ptr mem w parsed).step r operation = some (s, more) →
        Careful (windowStart ptr parsed.body w) operation more r s
  head : ∀ copies r, Run (bodyMachine lib bodyHandler ptr mem w parsed) copies r →
    r.mem.take (windowStart ptr parsed.body w) = w.mem.take (windowStart ptr parsed.body w) ∧
      parsed.headOnly.reread ptr r.mem = parsed.headOnly

end

section

variable {lib : CommonLib} {bodyHandler : Option BodyHandler} {ptr : Nat} {mem : Bytes}
  {wire : Wire} {w : Receiver} {response parsed : HttpResponse}

theorem keepsDiscipline (hhead : readUntilHeadersComplete lib ptr mem wire = some (.ok, w))
    (hparse : httpResponseParse lib response ⟨ptr, w.received⟩ = (.ok, parsed)) :
    KeepsDiscipline lib bodyHandler ptr mem w parsed := by
  obtain ⟨result, v, v₁, hrun, hflow, hstop⟩ := @receive_spec mem.length
    (fun received => (lib.spanFindReverse ⟨ptr, received⟩ headersTerminator).isSome)
    ⟨mem, 0, wire⟩ (Nat.le_refl _) (Nat.zero_le _)
  obtain ⟨rfl, rfl⟩ := Prod.mk.inj (Option.some.inj (hhead.symm.trans hrun))
  obtain ⟨hlen, hfilled⟩ : w.mem.length = mem.length ∧ w.filled ≤ mem.length := by
    cases hstop <;> exact ⟨hflow.length_mem, hflow.le_limit⟩
  obtain ⟨hstart, hsize, -⟩ := headOnly_reread (hlen ▸ hfilled) hparse rfl
  have hopened := Receiver.opened (hlen ▸ hfilled) hstart
  rw [← hsize, show w.mem.length - windowStart ptr parsed.body w =
    parsed.body.size + (mem.length - w.filled) by omega] at hopened
  have hreached : ∀ copies r, Run (bodyMachine lib bodyHandler ptr mem w parsed) copies r →
      ∃ orderly input, Reading (windowStart ptr parsed.body w)
        (parsed.body.size + (mem.length - w.filled)) (w.mem.take (windowStart ptr parsed.body w))
        orderly input r := fun copies r hrun => hopened.reached hrun
  refine ⟨fun framing result r hbody => ?_, fun copies r hrun => ?_,
    fun copies r hrun operation more s hstep => ?_, fun copies r hrun => ?_⟩
  · obtain ⟨operations, copies, hexec⟩ := leads_readResponseBody hbody
    exact ⟨_, Run.execute (.start rfl) hexec⟩
  · obtain ⟨_, _, hr⟩ := hreached copies r hrun
    exact ⟨hr.stored_le, hr.start_le, hr.stop_le⟩
  · obtain ⟨_, _, hr⟩ := hreached copies r hrun
    exact (hr.step hstep).1
  · obtain ⟨_, _, hr⟩ := hreached copies r hrun
    exact ⟨hr.below, (headOnly_reread (hlen ▸ hfilled) hparse hr.below).2.2⟩

end

/-- What can be received into a buffer can be streamed through one of that size, with the same
body, and in both modes the reader keeps to its window. -/
theorem stored_and_streamed (lib : CommonLib) :
    (∀ {ptr ptr' : Nat} {mem mem' : Bytes} {c c' : HttpConnection}
      {response response' : HttpResponse} {handler : BodyHandler} {o : ResponseReceipt},
      mem'.length = mem.length →
      c'.awaitingResponseToHead = c.awaitingResponseToHead →
      arriving c'.wire = arriving c.wire → endsOrderly c'.wire = endsOrderly c.wire →
      (∀ w, readUntilHeadersComplete lib ptr mem c.wire = some (.ok, w) →
        ∀ b ≤ w.filled, b ∈ cutsFrom 0 c'.wire ↔ b ∈ cutsFrom 0 c.wire) →
      (∀ pieces, lib.isError (handler pieces) = false) →
      receiveResponse lib none ptr mem c response = some o → o.result = .ok →
      ∃ o' w parsed framing r,
        receiveResponse lib (some handler) ptr' mem' c' response' = some o' ∧ o'.result = .ok ∧
        Stages lib (some handler) ptr' mem' c' response' w parsed framing r ∧
        r.pieces.flatten = o.response.body.bytes) ∧
    ∀ (bodyHandler : Option BodyHandler) {ptr : Nat} {mem : Bytes} {c : HttpConnection}
      {response parsed : HttpResponse} {w : Receiver},
      readUntilHeadersComplete lib ptr mem c.wire = some (.ok, w) →
      httpResponseParse lib response ⟨ptr, w.received⟩ = (.ok, parsed) →
      KeepsDiscipline lib bodyHandler ptr mem w parsed := by
  refine ⟨fun hmem hawaiting hstream hend hreads hhandler ho hok => ?_,
    fun bodyHandler => keepsDiscipline⟩
  obtain ⟨w, parsed, framing, r, hstages, hpieces⟩ :=
    receiveResponse_streams hmem hawaiting hstream hend hreads hhandler ho hok
  obtain ⟨o', ho', hok', -⟩ := hstages.receiveResponse_eq
  exact ⟨o', w, parsed, framing, r, ho', hok', hstages, hpieces⟩

/-- Into a buffer that the response fills, in two ways of splitting its body. -/
theorem stored_and_streamed_full :
    let wire : Wire := [.data (threeBytes.encode.take 39), .data (threeBytes.encode.drop 39)]
    let wire' : Wire := [.data (threeBytes.encode.take 39), .data (ascii "b"), .tryAgain false,
      .data (ascii "c")]
    (∃ o' w parsed framing r,
      receiveResponse .reference (some takesAll) 5000 (List.replicate 41 7) ⟨wire', false⟩ .zero =
        some o' ∧ o'.result = .ok ∧
      Stages .reference (some takesAll) 5000 (List.replicate 41 7) ⟨wire', false⟩ .zero w parsed
        framing r ∧ r.pieces.flatten = ascii "abc") ∧
    ∃ w parsed, readUntilHeadersComplete .reference 1000 (List.replicate 41 0) wire =
        some (.ok, w) ∧
      KeepsDiscipline .reference none 1000 (List.replicate 41 0) w parsed := by
  intro wire wire'
  have hstored : (receiveResponse .reference none 1000 (List.replicate 41 0) ⟨wire, false⟩
      .zero).map (fun o => (o.result, o.response.body.bytes)) = some (.ok, ascii "abc") := by
    decide +kernel
  have hread : (readUntilHeadersComplete .reference 1000 (List.replicate 41 0) wire).map
      (fun out => (out.1, out.2.filled, out.2.received)) =
        some (.ok, 39, threeBytes.encode.take 39) := by decide +kernel
  have hparsed :
      (httpResponseParse .reference .zero ⟨1000, threeBytes.encode.take 39⟩).1 = .ok := by
    decide +kernel
  obtain ⟨o, ho, hbody⟩ := Option.map_eq_some_iff.mp hstored
  obtain ⟨hok, hbytes⟩ := Prod.mk.inj hbody
  obtain ⟨⟨result, w⟩, hhead, heq⟩ := Option.map_eq_some_iff.mp hread
  obtain ⟨rfl, hrest⟩ := Prod.mk.inj heq
  obtain ⟨hfilled, hreceived⟩ := Prod.mk.inj hrest
  obtain ⟨hstreams, hkeeps⟩ := stored_and_streamed .reference
  have hreads : ∀ v, readUntilHeadersComplete .reference 1000 (List.replicate 41 0) wire =
      some (.ok, v) → ∀ b ≤ v.filled, b ∈ cutsFrom 0 wire' ↔ b ∈ cutsFrom 0 wire := by
    intro v hv
    obtain rfl := (Prod.mk.inj (Option.some.inj (hhead.symm.trans hv))).2
    rw [show w.filled = 39 from hfilled]
    decide +kernel
  constructor
  · rw [← hbytes]
    exact @hstreams 1000 5000 _ (List.replicate 41 7) ⟨wire, false⟩ ⟨wire', false⟩ .zero .zero
      takesAll o (by simp) rfl (by decide +kernel) (by decide +kernel) hreads
      (fun _ => CommonLib.reference.isError_ok) ho hok
  · refine ⟨w, _, hhead, @hkeeps none 1000 _ ⟨wire, false⟩ .zero _ w hhead (Prod.ext ?_ rfl)⟩
    rw [show w.received = threeBytes.encode.take 39 from hreceived]
    exact hparsed

end HttpC
