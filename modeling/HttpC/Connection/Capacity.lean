import HttpC.Connection.Streaming
import HttpC.Connection.Truncation

/-!
# Responses that fill the buffer

Where the body of a response has to be stored, the reader tests for room before it receives. What
it returns is a function of the bytes that are left and of the room for them, however they are
split into reads: `bodyResult`. A body that the end of the stream ends is complete only when a read
finds the end, and for that read there has to be room.

## Main results

* `Reading.bodyResult` — the body reader computes `bodyResult`.
* `receiveResponse_capacity_iff` — when a response is received exactly if it fits the buffer.
-/

namespace HttpC

open Block ListSearch

/-! ## The body reader on bytes -/

/-- The first line of `input`, if it fits behind `stored` bytes, and what is behind it. -/
def fittingLine (capacity stored : Nat) (input : Bytes) : Option (Bytes × Bytes) :=
  match input.findIdx? (· == 10) with
  | some i =>
    if stored + i < capacity then some (stripCr (input.take i), input.drop (i + 1)) else none
  | none => none

/-- Trailer lines up to the empty one. -/
def trailersResult (capacity stored : Nat) : Nat → Bytes → Result
  | 0, _ => .error
  | fuel + 1, input =>
    match fittingLine capacity stored input with
    | none => shortage capacity (stored + input.length)
    | some (line, rest) =>
      if line.isEmpty then .ok else trailersResult capacity stored fuel rest

/-- A chunked body behind `stored` bytes. -/
def chunkedResult (capacity : Nat) : Nat → Nat → Bytes → Result
  | 0, _, _ => .error
  | fuel + 1, stored, input =>
    match fittingLine capacity stored input with
    | none => shortage capacity (stored + input.length)
    | some (line, rest) =>
      match parseChunkSize line with
      | none => .error
      | some size =>
        if size = 0 then trailersResult capacity stored (rest.length + 1) rest
        else if rest.length < size ∨ capacity < stored + size then
          shortage capacity (stored + rest.length)
        else
          match fittingLine capacity (stored + size) (rest.drop size) with
          | none => shortage capacity (stored + rest.length)
          | some (after, rest) =>
            if after.isEmpty then chunkedResult capacity fuel (stored + size) rest else .error

/-- What storing a body gives, by its framing. Nothing is stored before. -/
def bodyResult (capacity : Nat) (input : Bytes) : ResponseBodyFraming → Result
  | .none => .ok
  | .contentLength length =>
    if input.length < length ∨ capacity < length then shortage capacity input.length else .ok
  | .chunked => chunkedResult capacity (input.length + 1) 0 input
  | .untilClose => if input.length < capacity then .ok else .insufficientSize

section

variable {capacity stored : Nat} {input line rest : Bytes}

theorem findIdx?_line (hline : 10 ∉ line) :
    (line ++ 10 :: rest).findIdx? (· == 10) = some line.length := by
  refine List.findIdx?_eq_some_iff_getElem.mpr ⟨by simp, by simp, fun j hj => ?_⟩
  rw [List.getElem_append_left hj, Bool.not_eq_true, beq_eq_false_iff_ne]
  exact fun heq => hline (heq ▸ List.getElem_mem hj)

theorem fittingLine_length (h : fittingLine capacity stored input = some (line, rest)) :
    rest.length < input.length := by
  rw [fittingLine] at h
  cases hfind : input.findIdx? (· == 10) with
  | none => simp [hfind] at h
  | some i =>
    have hlt := (List.findIdx?_eq_some_iff_getElem.mp hfind).1
    simp only [hfind] at h
    split_ifs at h
    rw [← (Prod.mk.inj (Option.some.inj h)).2, List.length_drop]
    omega

end

section

variable (lib : CommonLib) {buffer capacity : Nat} {below input : Bytes} {orderly : Bool}
  {r : BodyReader}

theorem Reading.readLine_fitting (h : Reading buffer capacity below orderly input r) :
    (∃ line rest r', fittingLine capacity r.storedLength input = some (line, rest) ∧
      responseBodyReaderReadLine lib buffer capacity r = some (.ok, line, r') ∧
      Reading buffer capacity below orderly rest r' ∧ Kept buffer r r') ∨
    (fittingLine capacity r.storedLength input = none ∧
      ∃ line r', responseBodyReaderReadLine lib buffer capacity r =
        some (shortage capacity (r.storedLength + input.length), line, r')) := by
  rcases h.readLine_cases lib with
    ⟨line, rest, r', rfl, hline, hroom, hread, hr', hkept⟩ | ⟨hnone, line, r', hread⟩
  · refine .inl ⟨_, rest, r', ?_, hread, hr', hkept⟩
    simp [fittingLine, findIdx?_line hline, hroom]
  · refine .inr ⟨?_, line, r', hread⟩
    rw [fittingLine]
    cases hfind : input.findIdx? (· == 10) with
    | none => rfl
    | some i =>
      obtain ⟨text, rest, hsplit, htext, rfl⟩ := split_of_findIdx? hfind
      have hfull := hnone text rest hsplit htext
      exact if_neg (by omega)

theorem Reading.trailersResult (h : Reading buffer capacity below orderly input r)
    {fuel fuel' : Nat} (hfuel : input.length < fuel) (hfuel' : input.length < fuel') :
    ∃ r', Loop.run (trailerPass lib buffer capacity) fuel r =
      some (trailersResult capacity r.storedLength fuel' input, r') := by
  induction fuel generalizing fuel' input r with
  | zero => omega
  | succ fuel ih =>
    obtain ⟨fuel', rfl⟩ : ∃ n, fuel' = n + 1 := ⟨fuel' - 1, by omega⟩
    rw [HttpC.trailersResult]
    rcases h.readLine_fitting lib with
      ⟨line, rest, s, hline, hread, hs, hkept⟩ | ⟨hline, line, s, hread⟩
    · have hlt := fittingLine_length hline
      rw [hline]
      dsimp only
      by_cases hempty : line.isEmpty = true
      · exact ⟨s, by rw [if_pos hempty, Loop.run_done]; simp [trailerPass, hread, hempty]⟩
      · rw [if_neg hempty, Loop.run_again (t := s) (by simp [trailerPass, hread, hempty]),
          ← hkept.storedLength]
        exact ih hs (by omega) (by omega)
    · rw [hline]
      exact ⟨s, Loop.run_done (by simp [trailerPass, hread]) _⟩

theorem Reading.chunkedResult (h : Reading buffer capacity below orderly input r)
    {fuel fuel' : Nat} (hfuel : input.length < fuel) (hfuel' : input.length < fuel') :
    ∃ r', Loop.run (chunkedPass lib none buffer capacity) fuel r =
      some (chunkedResult capacity fuel' r.storedLength input, r') := by
  have hok : ∀ handler ∈ (none : Option BodyHandler), ∀ pieces,
      lib.isError (handler pieces) = false := by simp
  induction fuel generalizing fuel' input r with
  | zero => omega
  | succ fuel ih =>
    obtain ⟨fuel', rfl⟩ : ∃ n, fuel' = n + 1 := ⟨fuel' - 1, by omega⟩
    rw [HttpC.chunkedResult]
    rcases h.readLine_fitting lib with
      ⟨line, rest, s, hline, hread, hs, hkept⟩ | ⟨hline, line, s, hread⟩
    swap
    · rw [hline]
      exact ⟨s, Loop.run_done (by simp [chunkedPass, hread]) _⟩
    have hlt := fittingLine_length hline
    rw [hline, ← hkept.storedLength]
    dsimp only
    cases hparse : parseChunkSize line with
    | none => exact ⟨s, Loop.run_done (by simp [chunkedPass, hread, hparse]) _⟩
    | some size =>
      dsimp only
      by_cases hzero : size = 0
      · obtain ⟨t, hrun⟩ := hs.trailersResult lib hs.length_lt (Nat.lt_add_one _)
        refine ⟨t, Loop.run_done ?_ _⟩
        simp [chunkedPass, hread, hparse, hzero, hrun]
      rw [if_neg hzero]
      obtain ⟨result, t, hpass, ⟨hle, rfl, ht, hpassed⟩ | ⟨rfl, hstuck⟩⟩ :=
        hs.passThrough_cases lib hok size
      swap
      · simp only [storedBy] at hpass hstuck
        refine ⟨t, Loop.run_done ?_ _⟩
        rw [if_pos (by omega)]
        simp [chunkedPass, hread, hparse, hzero, hpass, unlessError]
      have hstored := hpassed.storedLength
      have hwindow := ht.stored_le.trans (ht.start_le.trans ht.stop_le)
      rw [List.length_take, Nat.min_eq_left hle] at hstored
      simp only [storedBy] at hstored
      have hheld : t.storedLength + (rest.drop size).length = s.storedLength + rest.length := by
        rw [List.length_drop]
        omega
      rw [if_neg (by omega), ← hstored]
      rcases ht.readLine_fitting lib with
        ⟨after, rest', u, hafter, hread', hu, hkept'⟩ | ⟨hafter, after, u, hread'⟩
      · have hlt' := fittingLine_length hafter
        rw [List.length_drop] at hlt'
        rw [hafter]
        dsimp only
        by_cases hempty : after.isEmpty = true
        · have hpass' : chunkedPass lib none buffer capacity r = some (.again u) := by
            simp [chunkedPass, hread, hparse, hzero, hpass, hread', List.isEmpty_iff.mp hempty]
          rw [if_pos hempty, Loop.run_again hpass', ← hkept'.storedLength]
          exact ih hu (by omega) (by omega)
        · have hne : after ≠ [] := fun hnil => hempty (List.isEmpty_iff.mpr hnil)
          rw [if_neg hempty]
          exact ⟨u, Loop.run_done (by simp [chunkedPass, hread, hparse, hzero, hpass, hread',
            hne]) _⟩
      · rw [hafter, ← hheld]
        exact ⟨u, Loop.run_done (by simp [chunkedPass, hread, hparse, hzero, hpass, hread']) _⟩

/-- What the body reader returns, however the bytes are split into reads. -/
theorem Reading.bodyResult (h : Reading buffer capacity below orderly input r)
    (hstored : r.storedLength = 0) {framing : ResponseBodyFraming}
    (hend : framing = .untilClose → orderly = true) :
    ∃ r', readResponseBody lib none buffer capacity r framing =
      some (bodyResult capacity input framing, r') := by
  have hok : ∀ handler ∈ (none : Option BodyHandler), ∀ pieces,
      lib.isError (handler pieces) = false := by simp
  cases framing with
  | none => exact ⟨r, rfl⟩
  | contentLength n =>
    rw [readResponseBody, HttpC.bodyResult]
    obtain ⟨result, r', hrun, ⟨hle, rfl, hr', hpassed⟩ | ⟨rfl, hstuck⟩⟩ :=
      h.passThrough_cases lib hok n
    · have htotal := hpassed.storedLength
      have hwindow := hr'.stored_le.trans (hr'.start_le.trans hr'.stop_le)
      rw [List.length_take, Nat.min_eq_left hle, hstored] at htotal
      simp only [storedBy] at htotal
      exact ⟨r', by rw [hrun, if_neg (by omega)]⟩
    · simp only [storedBy, hstored, Nat.zero_add] at hrun hstuck
      exact ⟨r', by rw [hrun, if_pos (by omega)]⟩
  | chunked =>
    obtain ⟨r', hrun⟩ := h.chunkedResult lib h.length_lt (Nat.lt_add_one _)
    exact ⟨r', by rw [readResponseBody, responseBodyReaderChunked, hrun, hstored]; rfl⟩
  | untilClose =>
    rw [readResponseBody, HttpC.bodyResult]
    obtain ⟨result, r', hrun, ⟨rfl, -, -, -, hroom⟩ | ⟨-, horderly | ⟨rfl, hfull⟩⟩⟩ :=
      h.untilClose_cases lib hok
    · simp only [storedBy, hstored, Nat.zero_add] at hroom
      exact ⟨r', by rw [hrun, if_pos hroom]⟩
    · simp [hend rfl] at horderly
    · simp only [storedBy, hstored, Nat.zero_add] at hfull
      exact ⟨r', by rw [hrun, if_neg (Nat.not_lt.mpr hfull)]⟩

end

/-! ## The call -/

section

variable {lib : CommonLib} {ptr : Nat} {mem : Bytes} {c : HttpConnection}
  {response : HttpResponse} {w : Receiver} {first second third fields : Bytes}

/-- The framing that the parser reads off the lines behind a start line. -/
def parsedFraming (lib : CommonLib) (awaitingResponseToHead : Bool)
    (first second third fields : Bytes) : Option ResponseBodyFraming :=
  declaredFraming lib awaitingResponseToHead ⟨first, second, third, fieldLines (keptBlock fields)⟩

/-- A call that comes to the body returns what the body reader does. -/
theorem receiveResponse_of_body {parsed : HttpResponse} {framing : ResponseBodyFraming}
    {result : Result} {r : BodyReader}
    (hhead : readUntilHeadersComplete lib ptr mem c.wire = some (.ok, w))
    (hparse : httpResponseParse lib response ⟨ptr, w.received⟩ = (.ok, parsed))
    (hdeclared :
      determineResponseBodyFraming lib { c with wire := w.wire } parsed.headOnly = some framing)
    (hbody : readResponseBody lib none (windowStart ptr parsed.body w)
      (parsed.body.size + (mem.length - w.filled)) (.opened w.mem w.wire parsed.body.size) framing =
        some (result, r)) (hresult : lib.isError result = true ∨ result = .ok) :
    ∃ o, receiveResponse lib none ptr mem c response = some o ∧ o.result = result := by
  rw [windowStart] at hbody
  rw [HttpResponse.headOnly] at hdeclared
  rw [receiveResponse, hhead]
  simp only [CommonLib.isError_ok, Bool.false_eq_true, if_false, reduceCtorEq, or_self, hparse,
    hdeclared, hbody]
  rcases hresult with herror | rfl
  · rw [if_pos herror]
    exact ⟨_, rfl, rfl⟩
  · rw [CommonLib.isError_ok]
    exact ⟨_, rfl, rfl⟩

/-- What a call returns that has found a start line. -/
theorem receiveResponse_result
    (hhead : readUntilHeadersComplete lib ptr mem c.wire = some (.ok, w))
    (hmem : w.mem.length = mem.length) (hfilled : w.filled ≤ mem.length)
    (hsplit : splitStartLine w.received = some (first, second, third, fields))
    (hend : parsedFraming lib c.awaitingResponseToHead first second third fields =
      some .untilClose → endsOrderly w.wire = true) :
    let start := startLineLength first second third + blockLength fields
    start ≤ w.filled ∧ ∃ o, receiveResponse lib none ptr mem c response = some o ∧
      o.result = ((parsedFraming lib c.awaitingResponseToHead first second third fields).elim
        .error (bodyResult (mem.length - start) (w.image.drop start))) := by
  intro start
  have hlength := length_splitStartLine hsplit
  rw [Receiver.length_received (hmem ▸ hfilled)] at hlength
  have hfields : w.received.drop (startLineLength first second third) = fields :=
    @bytes_tail_startLine ⟨ptr, w.received⟩ _ _ _ _ hsplit
  obtain ⟨start', hexact, -, hstart, hwindow, hsize, -⟩ := windowStart_parts lib ptr
    (hmem ▸ hfilled) (show startLineLength first second third ≤ w.filled by omega)
  obtain rfl : start' = start := by rw [hexact, hfields]
  obtain ⟨parsed, hparse, hbody, hframing⟩ := @httpResponseParse_parts lib response
    ⟨ptr, w.received⟩ _ _ _ _ hsplit
  rw [← hbody] at hwindow hsize
  refine ⟨hstart, ?_⟩
  rw [parsedFraming] at hend ⊢
  cases hdeclared : declaredFraming lib c.awaitingResponseToHead
      ⟨first, second, third, fieldLines (keptBlock fields)⟩ with
  | none =>
    rw [receiveResponse, hhead]
    simp only [CommonLib.isError_ok, Bool.false_eq_true, if_false, reduceCtorEq, or_self, hparse,
      hframing, hdeclared]
    exact ⟨_, rfl, rfl⟩
  | some framing =>
    have hopened := Receiver.opened (hmem ▸ hfilled) hstart
    have hcapacity : parsed.body.size + (mem.length - w.filled) = w.mem.length - start := by omega
    rw [← hsize, ← hcapacity] at hopened
    obtain ⟨r, hrun⟩ := hopened.bodyResult lib rfl fun huntil => hend (huntil ▸ hdeclared)
    obtain ⟨result, r', hrun', hcases⟩ := hopened.responseBody_le lib framing
    obtain ⟨rfl, rfl⟩ := Prod.mk.inj (Option.some.inj (hrun'.symm.trans hrun))
    rw [show mem.length - start = parsed.body.size + (mem.length - w.filled) by omega]
    exact receiveResponse_of_body hhead hparse ((hframing _ _).trans hdeclared)
      (by rw [hwindow]; exact hrun) (hcases.imp id And.left)

end

/-! ## The boundary -/

/-- The body is longer than the room for it, whatever else ends it. -/
def Overfull (capacity : Nat) (input : Bytes) : ResponseBodyFraming → Prop
  | .none => False
  | .contentLength length => capacity < length
  | .chunked => chunkedResult capacity (input.length + 1) 0 input = .insufficientSize
  | .untilClose => True

theorem bodyResult_eq_insufficientSize {capacity : Nat} {input : Bytes}
    {framing : ResponseBodyFraming} (h : capacity < input.length) :
    bodyResult capacity input framing = .insufficientSize ↔ Overfull capacity input framing := by
  cases framing with
  | none => simp [bodyResult, Overfull]
  | contentLength n =>
    rw [bodyResult, Overfull, shortage_full h.le]
    split_ifs with hlong
    · exact iff_of_true rfl (by omega)
    · exact iff_of_false (by simp) (by omega)
  | chunked => rfl
  | untilClose => simp [bodyResult, Overfull, Nat.not_lt.mpr h.le]

/-- A head without a field line, read along with bytes of the body: the parser takes them for field
lines, and what these declare does not fit, either. -/
def StillOverfull (lib : CommonLib) (awaitingResponseToHead : Bool) (size : Nat)
    (m : ResponseMessage) (swallowed : Bytes) : Prop :=
  let fields := crlf.bytes ++ swallowed
  let start := startLineLength m.head.first m.head.second m.head.third + blockLength fields
  ∃ framing, parsedFraming lib awaitingResponseToHead m.head.first m.head.second m.head.third
    fields = some framing ∧ Overfull (size - start) (m.encode.drop start) framing

/-- Head and body fit the buffer and are received, or they do not and are reported. -/
structure MeetsCapacity (lib : CommonLib) (ptr : Nat) (mem : Bytes) (c : HttpConnection)
    (response : HttpResponse) (m : ResponseMessage) : Prop where
  fits : m.encode.length ≤ mem.length → ∃ o, receiveResponse lib none ptr mem c response = some o ∧
    o.result = .ok ∧ o.response.body.bytes = m.body.decoded
  overflows : mem.length < m.encode.length →
    ∃ o, receiveResponse lib none ptr mem c response = some o ∧ o.result = .insufficientSize

section

variable {lib : CommonLib} {ptr : Nat} {mem : Bytes} {c : HttpConnection} {response : HttpResponse}
  {m : ResponseMessage} {rest : Bytes} {framing : ResponseBodyFraming} {w : Receiver}

/-- Behind a head that is read as it was sent. -/
theorem ResponseMessage.WellFormed.result (hwf : m.WellFormed lib c.awaitingResponseToHead)
    (hdeclared : declaredFraming lib c.awaitingResponseToHead m.head = some framing)
    (hstream : arriving c.wire = m.encode ++ rest) (hsmall : m.head.encode.length ≤ mem.length)
    (hend : framing = .untilClose → endsOrderly c.wire = true)
    (hcut : m.head.fields = [] → m.head.encode.length ∈ cutsFrom 0 c.wire) :
    ∃ o, receiveResponse lib none ptr mem c response = some o ∧
      o.result = bodyResult (mem.length - m.head.encode.length) (m.body.encode ++ rest) framing := by
  rw [ResponseMessage.encode, List.append_assoc] at hstream
  obtain ⟨hsmall', -⟩ | ⟨w, hhead, hread⟩ :=
    readUntilHeadersComplete_spec lib ptr mem hwf.head hstream
  · omega
  obtain ⟨parsed, hparse, ⟨behind, hparsed⟩, hstart, hcapacity, hreading⟩ :=
    @HeadRead.bodyWindow lib ptr mem c m.head _ w hread hwf.head hstream hcut response
  obtain ⟨r, hrun⟩ := hreading.bodyResult lib rfl hend
  obtain ⟨result, r', hrun', hcases⟩ := hreading.responseBody_le lib framing
  obtain ⟨rfl, rfl⟩ := Prod.mk.inj (Option.some.inj (hrun'.symm.trans hrun))
  exact receiveResponse_of_body hhead hparse
    ((hparsed.determineResponseBodyFraming _ _).trans hdeclared)
    (by rw [hstart, hcapacity]; exact hrun) (hcases.imp id And.left)

/-- A head that is read as it was sent leaves only the end of the stream without room. -/
theorem ResponseMessage.WellFormed.meetsCapacity_iff
    (hwf : m.WellFormed lib c.awaitingResponseToHead)
    (hplain : ∀ stream, m.body ≠ .chunked stream)
    (hstream : arriving c.wire = m.encode ++ rest) (hsmall : m.head.encode.length ≤ mem.length)
    (hend : declaredFraming lib c.awaitingResponseToHead m.head = some .untilClose →
      endsOrderly c.wire = true ∧ rest = [])
    (hcut : m.head.fields = [] → m.head.encode.length ∈ cutsFrom 0 c.wire) :
    MeetsCapacity lib ptr mem c response m ↔
      (declaredFraming lib c.awaitingResponseToHead m.head = some .untilClose →
        m.encode.length ≠ mem.length) := by
  obtain ⟨framing, hdeclared, hframed⟩ := hwf.framed
  have hlength : m.encode.length = m.head.encode.length + m.body.encode.length := by
    rw [ResponseMessage.encode, List.length_append]
  obtain ⟨o, ho, hresult⟩ := @ResponseMessage.WellFormed.result lib ptr mem c response m rest _ hwf
    hdeclared hstream hsmall (fun huntil => (hend (huntil ▸ hdeclared)).1) hcut
  constructor
  · intro h huntil heq
    obtain ⟨o', ho', hok, -⟩ := h.fits heq.le
    obtain rfl := Option.some.inj (ho'.symm.trans ho)
    obtain rfl := Option.some.inj (hdeclared.symm.trans huntil)
    rw [hok, (hend huntil).2, List.append_nil, bodyResult, if_neg (by omega)] at hresult
    cases hresult
  · intro hne
    refine ⟨fun hfits => ?_, fun hover => ⟨o, ho, ?_⟩⟩
    · obtain ⟨w, parsed, framing', r, hstages, -, -, -, hall⟩ :=
        @ResponseMessage.WellFormed.stages lib ptr mem c m rest hwf hstream hfits
          (fun huntil => ⟨(hend huntil).1, (hend huntil).2,
            lt_of_le_of_ne hfits (hne huntil)⟩) hcut response
      exact ⟨o, ho, (hall o ho).result, (hall o ho).body⟩
    · rw [hresult]
      cases hbody : m.body with
      | chunked stream => exact absurd hbody (hplain stream)
      | empty =>
        rw [hbody, ResponseBody.encode, List.length_nil] at hlength
        omega
      | counted bytes =>
        rw [hbody] at hframed hlength
        cases framing <;> try exact hframed.elim
        simp only [ResponseBody.HasFraming, ResponseBody.encode] at hframed hlength ⊢
        rw [bodyResult, if_pos (by omega), shortage_full]
        rw [List.length_append]
        omega
      | untilClose bytes =>
        rw [hbody] at hframed hlength
        cases framing <;> try exact hframed.elim
        simp only [ResponseBody.encode] at hlength ⊢
        rw [bodyResult, if_neg]
        rw [List.length_append]
        omega

/-- Without a field line the framing is declared by the status alone, or by nothing. -/
theorem parsedFraming_bare {fields : Bytes} (hbare : m.head.fields = [])
    (h : declaredFraming lib c.awaitingResponseToHead m.head = some .none) :
    parsedFraming lib c.awaitingResponseToHead m.head.first m.head.second m.head.third fields =
      some .none := by
  rw [declaredFraming, hbare] at h
  rw [parsedFraming, declaredFraming]
  dsimp only
  split at h
  · cases h
  · next hsize =>
    rw [if_neg hsize]
    split at h
    · cases h
    · split at h
      · next hnone => exact if_pos hnone
      · simp at h

/-- The head and what was read along with it. -/
theorem HeadRead.splitStartLine_bare (h : HeadRead mem c.wire m.head w) (hwf : m.head.WellFormed)
    (hbare : m.head.fields = []) (hstream : arriving c.wire = m.head.encode ++ rest) :
    splitStartLine w.received = some (m.head.first, m.head.second, m.head.third,
      crlf.bytes ++ rest.take (w.filled - m.head.encode.length)) := by
  have hreceived := h.received_eq
  rw [hstream, List.take_append, List.take_of_length_le h.le] at hreceived
  rw [hreceived, hwf.splitStartLine_eq, MessageHead.fieldBlock, hbare]
  rfl

/-- Nothing is declared, so nothing is stored. -/
theorem ResponseMessage.WellFormed.meetsCapacity_none
    (hwf : m.WellFormed lib c.awaitingResponseToHead) (hbare : m.head.fields = [])
    (hdeclared : declaredFraming lib c.awaitingResponseToHead m.head = some .none)
    (hstream : arriving c.wire = m.encode ++ rest) (hsmall : m.head.encode.length ≤ mem.length) :
    MeetsCapacity lib ptr mem c response m := by
  obtain ⟨framing, hdeclared', hframed⟩ := hwf.framed
  obtain rfl := Option.some.inj (hdeclared.symm.trans hdeclared')
  have hempty : m.body = .empty := by
    cases hbody : m.body with
    | empty => rfl
    | counted _ | chunked _ | untilClose _ =>
      rw [hbody] at hframed
      exact hframed.elim
  have hencode : m.encode = m.head.encode := by
    rw [ResponseMessage.encode, hempty, ResponseBody.encode, List.append_nil]
  rw [hencode] at hstream
  obtain ⟨hsmall', -⟩ | ⟨w, hhead, hread⟩ :=
    readUntilHeadersComplete_spec lib ptr mem hwf.head hstream
  · omega
  refine ⟨fun _ => ?_, fun hover => by rw [hencode] at hover; omega⟩
  have hsplit := hread.splitStartLine_bare hwf.head hbare hstream
  have hparsed := @parsedFraming_bare lib c m (crlf.bytes ++ rest.take (w.filled -
    m.head.encode.length)) hbare hdeclared
  obtain ⟨-, o, ho, hresult⟩ := @receiveResponse_result lib ptr mem c response w _ _ _ _ hhead
    hread.length_mem hread.le_mem hsplit (by rw [hparsed]; simp)
  rw [hparsed] at hresult
  refine ⟨o, ho, hresult, ?_⟩
  obtain ⟨w', _, _, _, _, parsed, framing, r, hstages, -⟩ :=
    Stages.of_receiveResponse ho hresult
  obtain rfl := (Prod.mk.inj (Option.some.inj (hhead.symm.trans hstages.head))).2
  obtain ⟨parsed', hparse, -, hframing⟩ := @httpResponseParse_parts lib response
    ⟨ptr, w.received⟩ _ _ _ _ hsplit
  obtain rfl : parsed' = parsed := (Prod.mk.inj (hparse.symm.trans hstages.parse)).2
  obtain rfl := Option.some.inj (((hframing _ _).trans hparsed).symm.trans hstages.declared)
  obtain rfl := (Prod.mk.inj (Option.some.inj hstages.body)).2
  rw [hstages.body_bytes ho, hempty, BodyReader.stored, BodyReader.opened, window_zero_length]
  rfl

/-- The end of the stream ends the body, but the head was read along with some of it. -/
theorem ResponseMessage.WellFormed.meetsCapacity_swallowed
    (hwf : m.WellFormed lib c.awaitingResponseToHead) (hbare : m.head.fields = [])
    (hstream : arriving c.wire = m.encode) (horderly : endsOrderly c.wire = true)
    (hsmall : m.head.encode.length ≤ mem.length)
    (hcut : m.head.encode.length ∉ cutsFrom 0 c.wire) :
    MeetsCapacity lib ptr mem c response m ↔ mem.length < m.encode.length ∧
      StillOverfull lib c.awaitingResponseToHead mem.length m (m.body.encode.take
        (stopAt (cutsFrom 0 c.wire) mem.length m.head.encode.length - m.head.encode.length)) := by
  have hlength : m.encode.length = m.head.encode.length + m.body.encode.length := by
    rw [ResponseMessage.encode, List.length_append]
  have hstream' := hstream
  rw [ResponseMessage.encode] at hstream
  have hmore : m.head.encode.length < m.encode.length := by
    rcases Nat.lt_or_ge m.head.encode.length m.encode.length with hlt | hge
    · exact hlt
    · have hall := length_arriving_mem_cutsFrom 0 c.wire
      rw [hstream', Nat.zero_add, show m.encode.length = m.head.encode.length by omega] at hall
      exact absurd hall hcut
  obtain ⟨hsmall', -⟩ | ⟨w, hhead, hread⟩ :=
    readUntilHeadersComplete_spec lib ptr mem hwf.head hstream
  · omega
  have hsplit := hread.splitStartLine_bare hwf.head hbare hstream
  obtain ⟨hstart, o, ho, hresult⟩ := @receiveResponse_result lib ptr mem c response w _ _ _ _ hhead
    hread.length_mem hread.le_mem hsplit fun _ => hread.orderly.trans horderly
  have hstart := hstart.trans hread.le_mem
  rw [hread.filled_eq] at hstart
  rw [hread.image, hstream', hread.filled_eq] at hresult
  have hshort : mem.length < m.encode.length → (o.result = .insufficientSize ↔
      StillOverfull lib c.awaitingResponseToHead mem.length m (m.body.encode.take
        (stopAt (cutsFrom 0 c.wire) mem.length m.head.encode.length - m.head.encode.length))) := by
    intro hover
    rw [hresult, StillOverfull]
    cases parsedFraming lib c.awaitingResponseToHead m.head.first m.head.second m.head.third
        (crlf.bytes ++ m.body.encode.take (stopAt (cutsFrom 0 c.wire) mem.length
          m.head.encode.length - m.head.encode.length)) with
    | none => simp
    | some framing =>
      simp only [Option.elim_some, Option.some.injEq, exists_eq_left']
      exact bodyResult_eq_insufficientSize (by rw [List.length_drop]; omega)
  constructor
  · intro h
    rcases Nat.lt_or_ge mem.length m.encode.length with hover | hfits
    · obtain ⟨o', ho', hfull⟩ := h.overflows hover
      obtain rfl := Option.some.inj (ho'.symm.trans ho)
      exact ⟨hover, (hshort hover).mp hfull⟩
    · obtain ⟨o', ho', -, hbody⟩ := h.fits hfits
      have hlost := receiveResponse_bare hwf.head hbare hstream (by omega) hcut ho'
      rw [hbody, hwf.encode_body hbare] at hlost
      exact absurd hlost (Nat.lt_irrefl _)
  · rintro ⟨hover, hstill⟩
    exact ⟨fun hfits => absurd hover (by omega), fun _ => ⟨o, ho, (hshort hover).mpr hstill⟩⟩

end

/-- A response with a plain body is received exactly if it fits the buffer, unless the end of the
stream ends the body. Then it does not fit a buffer that it fills, and a head without a field line
has to be read as it was sent, or what was read along with it has to overfill the buffer as well. -/
theorem receiveResponse_capacity_iff (lib : CommonLib) (ptr : Nat) (mem : Bytes)
    (response : HttpResponse) {c : HttpConnection} {m : ResponseMessage} {rest : Bytes}
    (hwf : m.WellFormed lib c.awaitingResponseToHead) (hplain : ∀ stream, m.body ≠ .chunked stream)
    (hstream : arriving c.wire = m.encode ++ rest)
    (hend : declaredFraming lib c.awaitingResponseToHead m.head = some .untilClose →
      endsOrderly c.wire = true ∧ rest = [])
    (hsmall : m.head.encode.length ≤ mem.length) :
    MeetsCapacity lib ptr mem c response m ↔
      (declaredFraming lib c.awaitingResponseToHead m.head = some .untilClose →
        m.encode.length ≠ mem.length ∧
          (m.head.fields ≠ [] ∨ m.head.encode.length ∈ cutsFrom 0 c.wire ∨
            mem.length < m.encode.length ∧
              StillOverfull lib c.awaitingResponseToHead mem.length m (m.body.encode.take
                (stopAt (cutsFrom 0 c.wire) mem.length m.head.encode.length -
                  m.head.encode.length)))) := by
  by_cases hcut : m.head.fields = [] → m.head.encode.length ∈ cutsFrom 0 c.wire
  · rw [hwf.meetsCapacity_iff hplain hstream hsmall hend hcut]
    refine forall_congr' fun _ => (and_iff_left ?_).symm
    by_cases hbare : m.head.fields = []
    · exact .inr (.inl (hcut hbare))
    · exact .inl hbare
  · obtain ⟨hbare, hcut⟩ := Classical.not_imp.mp hcut
    obtain ⟨framing, hdeclared, -⟩ := hwf.framed
    rcases ResponseMessage.declaredFraming_bare hdeclared hbare with rfl | rfl
    · exact iff_of_true (hwf.meetsCapacity_none hbare hdeclared hstream hsmall)
        fun huntil => by simp [hdeclared] at huntil
    · obtain ⟨horderly, rfl⟩ := hend hdeclared
      rw [List.append_nil] at hstream
      rw [hwf.meetsCapacity_swallowed hbare hstream horderly hsmall hcut]
      constructor
      · rintro ⟨hover, hstill⟩ -
        exact ⟨by omega, .inr (.inr ⟨hover, hstill⟩)⟩
      · intro h
        obtain ⟨-, hfields | hmem | hstill⟩ := h hdeclared
        · exact absurd hbare hfields
        · exact absurd hmem hcut
        · exact hstill

/-- A body of declared length that fills the buffer. -/
theorem receiveResponse_capacity_full :
    MeetsCapacity .reference 1000 (List.replicate 41 0)
      ⟨[.data (threeBytes.encode.take 37), .tryAgain false, .data (threeBytes.encode.drop 37)],
        false⟩ .zero threeBytes := by
  have hdeclared : declaredFraming .reference false threeBytes.head = some (.contentLength 3) := by
    decide +kernel
  refine (@receiveResponse_capacity_iff .reference 1000 (List.replicate 41 0) .zero
    ⟨[.data (threeBytes.encode.take 37), .tryAgain false, .data (threeBytes.encode.drop 37)], false⟩
    threeBytes [] threeBytes_wellFormed (by simp [threeBytes]) (by decide +kernel)
    (fun huntil => ?_) (by decide +kernel)).mpr fun huntil => ?_
  all_goals
    rw [hdeclared] at huntil
    simp at huntil

/-- A response that the end of the stream ends, with a field line. -/
def closedResponse : ResponseMessage :=
  ⟨⟨ascii "HTTP/1.1", ascii "200", ascii "OK", [ascii "Server: x"]⟩, .untilClose (ascii "abc")⟩

theorem closedResponse_wellFormed : closedResponse.WellFormed .reference false where
  head :=
    { first := by decide +kernel
      second := by decide +kernel
      startLine := by decide +kernel
      fields := by decide +kernel }
  framed := ⟨.untilClose, by decide +kernel, trivial⟩

/-- It is not received into a buffer that it fills. -/
theorem receiveResponse_capacity_closed :
    ¬ ∀ (lib : CommonLib) (ptr : Nat) (mem : Bytes) (response : HttpResponse) (c : HttpConnection)
      (m : ResponseMessage) (rest : Bytes), m.WellFormed lib c.awaitingResponseToHead →
      (∀ stream, m.body ≠ .chunked stream) → arriving c.wire = m.encode ++ rest →
      (declaredFraming lib c.awaitingResponseToHead m.head = some .untilClose →
        endsOrderly c.wire = true ∧ rest = []) →
      m.head.encode.length ≤ mem.length → MeetsCapacity lib ptr mem c response m := by
  intro h
  have hmeets := h .reference 1000 (List.replicate 33 0) .zero
    ⟨[.data closedResponse.encode], false⟩ closedResponse [] closedResponse_wellFormed
    (by simp [closedResponse]) (by decide +kernel) (fun _ => ⟨by decide +kernel, rfl⟩)
    (by decide +kernel)
  obtain ⟨o, ho, hok, -⟩ := hmeets.fits (by decide +kernel)
  have hfull : (receiveResponse .reference none 1000 (List.replicate 33 0)
      ⟨[.data closedResponse.encode], false⟩ .zero).map (·.result) = some .insufficientSize := by
    decide +kernel
  rw [ho, Option.map_some, hok] at hfull
  cases hfull

end HttpC
