import HttpC.RequestParser

/-!
# Connection slots

The slot functions of `http_server.c`. Each takes a slot and what the platform answers
(clock, sockets, event loop, application) and returns the slot with the events it logs.
A loop that reads or writes a socket is one pass here; `HttpC.Server.Machine` runs the
passes, so that other threads get in between them.

## Main results

* `slotClose_slot`, `slotClose_events` — what closing leaves behind.
* `serializeAndSend_cases` — a response is in the send buffer, or the slot is closed.
-/

namespace HttpC

/-! ## Constants -/

def HTTP_VERSION_1_1 : Span := .lit "HTTP/1.1"
def HTTP_CODE_200 : Span := .lit "200"
def HTTP_CODE_404 : Span := .lit "404"
def HTTP_CODE_405 : Span := .lit "405"
def HTTP_CODE_413 : Span := .lit "413"
def HTTP_CODE_503 : Span := .lit "503"
def HTTP_CODE_504 : Span := .lit "504"
def HTTP_REASON_PHRASE_200 : Span := .lit "OK"
def HTTP_REASON_PHRASE_404 : Span := .lit "Not Found"
def HTTP_REASON_PHRASE_405 : Span := .lit "Method Not Allowed"
def HTTP_REASON_PHRASE_413 : Span := .lit "Payload Too Large"
def HTTP_REASON_PHRASE_503 : Span := .lit "Service Unavailable"
def HTTP_REASON_PHRASE_504 : Span := .lit "Gateway Timeout"
def HTTP_SERVER_RECLAIM_MIN_IDLE_MS : Nat := 1000
def HDR_CONNECTION : Span := .lit "Connection"
def HDR_VAL_CLOSE : Span := .lit "close"
def HDR_VAL_ZERO : Span := .lit "0"

/-! ## Data -/

/-- A mask of read and write interest; `none` is `0`. -/
structure EventMask where
  read : Bool
  write : Bool
  deriving DecidableEq, Repr

namespace EventMask

def none : EventMask := ⟨false, false⟩
def forRead : EventMask := ⟨true, false⟩
def forWrite : EventMask := ⟨false, true⟩

end EventMask

/-- `http_slot_state_t`. -/
inductive SlotState where
  | idle | handshaking | receiving | pending | sending | closing
  deriving DecidableEq, Repr

/-- `http_handler_outcome_t`. -/
inductive HandlerOutcome where
  | respond | defer | close
  deriving DecidableEq, Repr

/-- A streaming body: provider, finalizer and the context both are called with. -/
structure Stream where
  provider : Option Nat
  finalizer : Option Nat
  ctx : Nat
  deriving DecidableEq, Repr

/-- The streaming body of a response. -/
def HttpResponse.stream (r : HttpResponse) : Stream :=
  ⟨r.bodyProvider, r.bodyFinalizer, r.bodyProviderContext⟩

/-- `http_server_connection_slot_t`. The sizes of the two buffers are kept beside their
memory, which grows under a write past the end. -/
structure Slot where
  inUse : Bool
  /-- Descriptor of the accepted socket, `connection.socket.sd`. -/
  sd : Int
  recvBufferPtr : Nat
  recvBuffer : Bytes
  recvBufferSize : Nat
  sendBuffer : Bytes
  sendBufferSize : Nat
  state : SlotState
  parser : HttpRequestParser
  recvUsed : Nat
  sendUsed : Nat
  sendOffset : Nat
  registeredEvents : EventMask
  clientWantsClose : Bool
  defaultHeaders : Span
  streamActive : Bool
  streamEof : Bool
  streamProvider : Option Nat
  streamFinalizer : Option Nat
  streamCtx : Nat
  generation : Nat
  lastActivityMs : Nat
  pendingDeadlineMs : Nat
  pendingReady : Bool
  pendingCancelled : Bool
  pendingResponse : HttpResponse
  deriving DecidableEq, Repr

/-- `http_route_t`; the compiled pattern is identified with the pattern. -/
structure Route where
  method : Span
  path : Span
  handler : Nat
  userContext : Nat
  deriving DecidableEq, Repr

/-- What a slot reaches through `slot->server` and never changes, with the two libraries. -/
structure ServerEnv where
  lib : CommonLib
  spanRegexMatch : Span → Span → Bool
  routes : List Route
  pendingTimeoutMs : Nat
  idleTimeoutMs : Nat

/-- Who a serialised response comes from. -/
inductive Answer where
  | handler
  /-- 404, 405 and 413. -/
  | refused
  | completed
  /-- 503 for a cancelled deferral. -/
  | cancelled
  /-- 504 for an expired deferral. -/
  | expired
  deriving DecidableEq, Repr

/-- What a worker hands to `deferral_post`. -/
inductive Post where
  | complete (response : HttpResponse)
  | cancel
  deriving DecidableEq, Repr

/-- What happens at a slot, as seen from outside. -/
inductive SlotEvent where
  | accepted
  | received (bytes : Bytes)
  /-- A request goes to the routing step. -/
  | dispatched (request : HttpRequest)
  /-- The handler of a route has returned. -/
  | handled (route : Nat) (outcome : HandlerOutcome) (response : HttpResponse)
  /-- `http_exchange_defer` returned a ticket with this generation. -/
  | ticketTaken (generation : Nat)
  | parked
  | posted (ticket : Nat) (post : Post) (result : Result)
  /-- A response goes to `serialize_and_send`. -/
  | answered (answer : Answer) (response : HttpResponse)
  | wrote (bytes : Bytes)
  | provided (stream : Stream) (bytes : Bytes)
  | finalized (stream : Stream)
  /-- The response has been sent whole: `slot_finish_send`. -/
  | finished
  | released
  deriving DecidableEq, Repr

/-- The clock and the event loop during one step. -/
structure Platform where
  now : Nat
  /-- Whether `event_loop_register` or `event_loop_modify` succeeds on the connection. -/
  armed : Bool
  deriving DecidableEq, Repr

/-- A non-blocking socket call without data. -/
inductive IoResult where
  | ok
  | tryAgain (want : EventMask)
  | failed
  deriving DecidableEq, Repr

/-- `socket_read_nb`: bytes, nothing yet, or the end or an error. -/
inductive ReadResult where
  | ok (bytes : Bytes)
  | tryAgain (want : EventMask)
  | failed
  deriving DecidableEq, Repr

/-- How many bytes a read reports. -/
def ReadResult.got : ReadResult → Nat
  | .ok bytes => bytes.length
  | _ => 0

namespace Slot

/-- The bytes received and not yet consumed. -/
def received (slot : Slot) : Span := ⟨slot.recvBufferPtr, slot.recvBuffer.take slot.recvUsed⟩

/-- The streaming body installed on the slot. -/
def stream (slot : Slot) : Stream := ⟨slot.streamProvider, slot.streamFinalizer, slot.streamCtx⟩

end Slot

/-! ## Slot lifecycle -/

def slotArm (w : Platform) (slot : Slot) (events : EventMask) : Slot :=
  { slot with
    registeredEvents :=
      if slot.sd < 0 then slot.registeredEvents
      else if slot.registeredEvents ≠ events ∧ w.armed then events
      else slot.registeredEvents }

/-- `acquire_slot`, once a free slot is found. The generation is kept. -/
def slotAcquire (now : Nat) (slot : Slot) : Slot :=
  { slot with
    inUse := true, state := .idle, recvUsed := 0, sendUsed := 0, sendOffset := 0,
    registeredEvents := .none, clientWantsClose := false, streamActive := false,
    streamEof := false, streamProvider := none, streamFinalizer := none, streamCtx := 0,
    pendingReady := false, pendingCancelled := false, pendingDeadlineMs := 0,
    lastActivityMs := now, sd := 0 }

/-- `release_slot`, up to the listener. -/
def releaseSlot (slot : Slot) : Slot × List SlotEvent :=
  ({ slot with
      inUse := false, state := .idle, pendingReady := false, pendingCancelled := false,
      generation := wrap32 (slot.generation + 1), recvUsed := 0, sendUsed := 0, sendOffset := 0,
      registeredEvents := .none }, [.released])

/-- The slot after `stream_finalize`. -/
def streamCleared (slot : Slot) : Slot :=
  if slot.streamActive then
    { slot with
      streamActive := false, streamEof := false, streamProvider := none, streamFinalizer := none,
      streamCtx := 0 }
  else slot

/-- The call `stream_finalize` makes. -/
def finalizerCall (slot : Slot) : List SlotEvent :=
  if slot.streamActive ∧ slot.streamFinalizer.isSome then [.finalized slot.stream] else []

def streamFinalize (slot : Slot) : Slot × List SlotEvent := (streamCleared slot, finalizerCall slot)

def slotClose (slot : Slot) : Slot × List SlotEvent :=
  let (slot, finalized) := streamFinalize slot
  let slot :=
    if slot.registeredEvents ≠ .none ∧ 0 ≤ slot.sd then { slot with registeredEvents := .none }
    else slot
  let (slot, released) := releaseSlot slot
  (slot, finalized ++ released)

/-- The teardown of one slot at the end of `http_server_run`; its state is left alone. -/
def slotTeardown (slot : Slot) : Slot × List SlotEvent :=
  let (slot, finalized) := streamFinalize slot
  let slot :=
    if slot.registeredEvents ≠ .none ∧ 0 ≤ slot.sd then { slot with registeredEvents := .none }
    else slot
  ({ slot with
      pendingReady := false, pendingCancelled := false, generation := wrap32 (slot.generation + 1),
      inUse := false }, finalized ++ [.released])

def wantToEvents (want : EventMask) : EventMask := if want = .none then .forRead else want

/-! ## Responses -/

def prepareDefaultResponse (code reason : Span) : HttpResponse :=
  { HttpResponse.zero with httpVersion := HTTP_VERSION_1_1, code, reasonPhrase := reason }

def clientWantsClose (lib : CommonLib) (request : HttpRequest) : Bool :=
  let version11 := lib.spanCompare request.httpVersion HTTP_VERSION_1_1 = 0
  match httpHeadersFind lib request.headers HDR_CONNECTION with
  | .ok value => if lib.spanICompare value HDR_VAL_CLOSE = 0 then true else !version11
  | .error _ => !version11

/-- `buffer_stream_t` over the send buffer. -/
structure BufferStream where
  memory : Bytes
  capacity : Nat
  used : Nat
  overflowed : Bool
  deriving DecidableEq, Repr

/-- `bs_write`; the sum of the sizes is a `uint32_t`. -/
def bsWrite (bs : BufferStream) (data : Span) : Result × BufferStream :=
  if wrap32 (bs.used + data.size) > bs.capacity then (.error, { bs with overflowed := true })
  else
    (.ok, { bs with
      memory := Block.overwrite bs.memory bs.used data.bytes
      used := wrap32 (bs.used + data.size) })

/-- The slot with the streaming body of a response installed. -/
def installStream (slot : Slot) (response : HttpResponse) : Slot :=
  if response.bodyProvider.isSome then
    { slot with
      streamActive := true, streamEof := false, streamProvider := response.bodyProvider,
      streamFinalizer := response.bodyFinalizer, streamCtx := response.bodyProviderContext }
  else slot

/-- What is serialised of a response: a streaming body is left out. -/
def serializedPart (response : HttpResponse) : HttpResponse :=
  if response.bodyProvider.isSome then { response with body := .empty } else response

def serializeAndSend (lib : CommonLib) (w : Platform) (slot : Slot) (response : HttpResponse) :
    Slot × List SlotEvent :=
  let slot := installStream slot response
  let (result, bs) := httpResponseSerializeTo lib (serializedPart response) bsWrite
    ⟨slot.sendBuffer, slot.sendBufferSize, 0, false⟩
  let slot := { slot with sendBuffer := bs.memory }
  if lib.isError result ∨ bs.overflowed then slotClose slot
  else
    (slotArm w
      { slot with
        sendUsed := bs.used, sendOffset := 0, state := .sending, lastActivityMs := w.now }
      .forWrite, [])

/-- The response with Content-Length 0 in the slot's default header buffer. -/
def withDefaultHeaders (lib : CommonLib) (slot : Slot) (response : HttpResponse) :
    Slot × HttpResponse :=
  let added := httpHeadersAdd lib (httpHeadersInit slot.defaultHeaders) HTTP_HEADER_CONTENT_LENGTH
    HDR_VAL_ZERO
  ({ slot with defaultHeaders := added.2.buffer }, { response with headers := added.2 })

def respondWithStatus (lib : CommonLib) (w : Platform) (slot : Slot) (answer : Answer)
    (code reason : Span) : Slot × List SlotEvent :=
  let (slot, response) := withDefaultHeaders lib slot (prepareDefaultResponse code reason)
  let (slot, events) := serializeAndSend lib w slot response
  (slot, .answered answer response :: events)

/-! ## Deferrals -/

/-- `http_deferral_t` without the server. -/
structure Deferral where
  generation : Nat
  deriving DecidableEq, Repr

def httpExchangeDefer (slot : Slot) : Deferral := ⟨slot.generation⟩

/-- The critical section of `deferral_post`. -/
def deferralPost (slot : Slot) (deferral : Deferral) (post : Post) : Result × Slot :=
  if slot.inUse = false ∨ slot.state ≠ .pending ∨ slot.generation ≠ deferral.generation then
    (.notFound, slot)
  else if slot.pendingReady = true ∨ slot.pendingCancelled = true then (.error, slot)
  else
    match post with
    | .complete response =>
      (.ok, { slot with pendingResponse := response, pendingReady := true })
    | .cancel => (.ok, { slot with pendingCancelled := true })

/-- The critical section of `run_handler_and_serialize` that parks the connection. -/
def slotPark (pendingTimeoutMs now : Nat) (slot : Slot) : Slot :=
  { slot with
    pendingReady := false, pendingCancelled := false,
    pendingDeadlineMs := now + pendingTimeoutMs, state := .pending }

/-! ## What closing leaves behind -/

/-- Besides a release, all that is logged. -/
theorem finalized_of_mem_finalizerCall {slot : Slot} {e : SlotEvent} (h : e ∈ finalizerCall slot) :
    e = .finalized slot.stream := by
  unfold finalizerCall at h
  split_ifs at h
  · exact List.mem_singleton.mp h
  · cases h

/-- The slot `slot_close` leaves. -/
theorem slotClose_slot (slot : Slot) : (slotClose slot).1 =
    { streamCleared slot with
      inUse := false, state := .idle, pendingReady := false, pendingCancelled := false,
      generation := wrap32 (slot.generation + 1), recvUsed := 0, sendUsed := 0, sendOffset := 0,
      registeredEvents := .none } := by
  simp only [slotClose, streamFinalize, releaseSlot, streamCleared]
  split_ifs <;> rfl

@[simp] theorem slotClose_events (slot : Slot) :
    (slotClose slot).2 = finalizerCall slot ++ [.released] := rfl

theorem slotTeardown_slot (slot : Slot) (hsd : slot.registeredEvents ≠ .none → 0 ≤ slot.sd) :
    (slotTeardown slot).1 = { streamCleared slot with
      inUse := false, pendingReady := false, pendingCancelled := false,
      generation := wrap32 (slot.generation + 1), registeredEvents := .none } := by
  have hkeep : (streamCleared slot).registeredEvents = slot.registeredEvents ∧
      (streamCleared slot).sd = slot.sd ∧
      (streamCleared slot).generation = slot.generation := by
    unfold streamCleared
    split_ifs <;> simp
  simp only [slotTeardown, streamFinalize, hkeep]
  split_ifs with h
  · simp
  · have hnone : slot.registeredEvents = .none := by
      by_contra hne
      exact h ⟨hne, hsd hne⟩
    rw [← hnone, ← hkeep.1]
    simp [hkeep]

@[simp] theorem slotTeardown_events (slot : Slot) :
    (slotTeardown slot).2 = finalizerCall slot ++ [.released] := rfl

@[simp] theorem streamActive_streamCleared (slot : Slot) :
    (streamCleared slot).streamActive = false := by
  unfold streamCleared
  split_ifs with h
  · rfl
  · simpa using h

/-- A response ends up in the send buffer, or the slot is closed. -/
theorem serializeAndSend_cases (lib : CommonLib) (w : Platform) (slot : Slot)
    (response : HttpResponse) :
    ∃ memory, serializeAndSend lib w slot response =
        slotClose { installStream slot response with sendBuffer := memory } ∨
      ∃ used, serializeAndSend lib w slot response =
        (slotArm w { installStream slot response with
          sendBuffer := memory, sendUsed := used, sendOffset := 0, state := .sending,
          lastActivityMs := w.now } .forWrite, []) := by
  unfold serializeAndSend
  dsimp only
  split_ifs
  · exact ⟨_, .inl rfl⟩
  · exact ⟨_, .inr ⟨_, rfl⟩⟩

end HttpC
