import HttpC.Server.Slot
import HttpC.Library.Transition

/-!
# One slot as a machine

A slot with the place the loop thread has reached in it and the tickets its handlers took.
The actions are the pieces of `http_server.c` between which another thread can run: one
socket call of a loop, one call of a handler into the server, one critical section of
`pending_mutex` with the loop thread's work up to the next one. A worker may post between any two
of them.
-/

namespace HttpC

/-- Where the loop thread stands in a slot. -/
inductive Focus where
  /-- Not in a callback of this slot. -/
  | away
  /-- In `slot_advance`, at the top of the loop for the slot's state. -/
  | advance
  /-- At the start of `run_handler_and_serialize`. -/
  | route
  /-- In the handler of this route. -/
  | handling (route : Nat) (methodMatched : Bool)
  /-- Behind the route loop, with its local variables. -/
  | returned (outcome : Option HandlerOutcome) (methodMatched : Bool) (response : HttpResponse)
  /-- In `slot_drive_send`, behind the inner loop. -/
  | drained
  deriving DecidableEq, Repr

structure SlotView where
  slot : Slot
  focus : Focus
  /-- The tickets taken on this slot, oldest first. -/
  tickets : List Deferral
  deriving DecidableEq, Repr

inductive SlotAction where
  /-- `on_listen_readable` on this free slot; `none` is a failed accept. -/
  | accept (w : Platform) (sd : Option Int)
  /-- `on_connection_io`. -/
  | event (error : Bool)
  | handshake (w : Platform) (r : IoResult)
  /-- The receive loop with a full buffer. -/
  | tooLarge (w : Platform)
  | read (w : Platform) (r : ReadResult)
  | route
  /-- The handler calls `http_exchange_defer`. -/
  | defer
  /-- The handler returns. -/
  | handler (outcome : HandlerOutcome) (response : HttpResponse)
  /-- What follows the route loop. -/
  | conclude (w : Platform)
  | probe (r : ReadResult)
  | write (w : Platform) (written : Nat) (r : IoResult)
  /-- The inner loop of `slot_drive_send` with nothing left to write. -/
  | drain
  | provide (bytes : Bytes)
  | finish (w : Platform)
  /-- `slot_advance` in a state that has no driver. -/
  | stray
  | flush (w : Platform)
  | sweepPending (now : Nat) (w : Platform)
  | sweepIdle (now : Nat)
  | reclaim
  | teardown
  /-- `http_deferral_complete` or `http_deferral_cancel` with the ticket of this number. -/
  | post (ticket : Nat) (post : Post)
  deriving DecidableEq, Repr

variable (env : ServerEnv)

/-! ## The drivers, one pass each -/

def slotDriveHandshake (w : Platform) (slot : Slot) (r : IoResult) : Slot × List SlotEvent :=
  match r with
  | .ok =>
    (slotArm w { slot with
      state := .receiving, lastActivityMs := w.now, parser := httpRequestParserInit } .forRead, [])
  | .tryAgain want => (slotArm w slot (wantToEvents want), [])
  | .failed => slotClose slot

/-- The receive buffer after a read of `bytes`. -/
def slotStore (slot : Slot) (bytes : Bytes) : Slot :=
  { slot with
    recvBuffer := Block.overwrite slot.recvBuffer slot.recvUsed bytes
    recvUsed := slot.recvUsed + bytes.length }

/-- The receive buffer and the idle clock after a read. -/
def slotGot (w : Platform) (slot : Slot) (bytes : Bytes) : Slot :=
  { slotStore slot bytes with
    lastActivityMs := if bytes.length > 0 then w.now else slot.lastActivityMs }

/-- The parser fed with what the receive buffer holds. -/
def slotFeed (slot : Slot) : Result × Slot :=
  let (pr, parser) := httpRequestParserFeed env.lib slot.parser slot.received
  (pr, { slot with parser })

/-- The slot when the parser has a whole request. -/
def slotArrived (slot : Slot) : Slot :=
  { slot with clientWantsClose := clientWantsClose env.lib slot.parser.request }

/-- A pass of `slot_drive_receive` that reads. -/
def slotDriveReceive (w : Platform) (slot : Slot) (r : ReadResult) :
    Slot × List SlotEvent × Focus :=
  match r with
  | .tryAgain want => (slotArm w slot (if want.write then .forWrite else .forRead), [], .away)
  | .failed =>
    let (slot, events) := slotClose slot
    (slot, events, .away)
  | .ok bytes =>
    let (pr, slot) := slotFeed env (slotGot w slot bytes)
    if pr = .ok then (slotArrived env slot, [.received bytes], .route)
    else if pr = .tryAgain then (slot, [.received bytes], .advance)
    else
      let (slot, events) := slotClose slot
      (slot, .received bytes :: events, .away)

/-- A receive buffer that is full before the request is complete. -/
def slotTooLarge (w : Platform) (slot : Slot) : Slot × List SlotEvent :=
  respondWithStatus env.lib w { slot with clientWantsClose := true } .refused HTTP_CODE_413
    HTTP_REASON_PHRASE_413

/-- The route loop of `run_handler_and_serialize`: whether a route had the method, and the
route that matched. -/
def routeLoop (request : HttpRequest) : Nat → List Route → Bool → Bool × Option Nat
  | _, [], methodMatched => (methodMatched, none)
  | i, route :: routes, methodMatched =>
    if env.lib.spanCompare route.method request.method ≠ 0 then
      routeLoop request (i + 1) routes methodMatched
    else if env.spanRegexMatch route.path request.path then (true, some i)
    else routeLoop request (i + 1) routes true

/-- The response behind the route loop when no route matched. -/
def unroutedResponse (methodMatched : Bool) : HttpResponse :=
  if !methodMatched && env.routes.length > 0 then
    prepareDefaultResponse HTTP_CODE_405 HTTP_REASON_PHRASE_405
  else prepareDefaultResponse HTTP_CODE_404 HTTP_REASON_PHRASE_404

/-- The end of `run_handler_and_serialize`. -/
def concludeRequest (w : Platform) (slot : Slot) (outcome : Option HandlerOutcome)
    (methodMatched : Bool) (response : HttpResponse) : Slot × List SlotEvent :=
  match outcome with
  | some .close => slotClose slot
  | some .defer => (slotArm w (slotPark env.pendingTimeoutMs w.now slot) .forRead, [.parked])
  | some .respond =>
    let (slot, events) := serializeAndSend env.lib w slot response
    (slot, .answered .handler response :: events)
  | none =>
    let (slot, response) := withDefaultHeaders env.lib slot (unroutedResponse env methodMatched)
    let (slot, events) := serializeAndSend env.lib w slot response
    (slot, .answered .refused response :: events)

/-- Pipelined bytes behind the answered request, moved down to offset `0`. -/
def slotNextRequest (now : Nat) (slot : Slot) : Slot :=
  let consumed := min (httpRequestParserGetConsumed slot.parser) slot.recvUsed
  let leftover := slot.recvUsed - consumed
  { slot with
    recvBuffer :=
      if leftover > 0 ∧ consumed > 0 then Block.move slot.recvBuffer 0 consumed leftover
      else slot.recvBuffer
    recvUsed := leftover, sendUsed := 0, sendOffset := 0, state := .receiving,
    lastActivityMs := now, parser := httpRequestParserInit }

def slotFinishSend (w : Platform) (slot : Slot) : Slot × List SlotEvent × Focus :=
  if slot.clientWantsClose then
    let (slot, events) := slotClose slot
    (slot, .finished :: events, .away)
  else
    let slot := slotNextRequest w.now slot
    if slot.recvUsed > 0 then
      let (pr, slot) := slotFeed env slot
      if pr = .ok then (slotArrived env slot, [.finished], .route)
      else if env.lib.isError pr then
        let (slot, events) := slotClose slot
        (slot, .finished :: events, .away)
      else (slotArm w slot .forRead, [.finished], .away)
    else (slotArm w slot .forRead, [.finished], .away)

/-- The socket call of `slot_drive_send`. -/
def slotDriveSend (w : Platform) (slot : Slot) (written : Nat) (r : IoResult) :
    Slot × List SlotEvent × Focus :=
  let wrote := Block.window slot.sendBuffer slot.sendOffset written
  let slot := { slot with
    sendOffset := slot.sendOffset + written
    lastActivityMs := if written > 0 then w.now else slot.lastActivityMs }
  match r with
  | .ok => (slot, [.wrote wrote], .drained)
  | .tryAgain want => (slotArm w slot (wantToEvents want), [.wrote wrote], .away)
  | .failed =>
    let (slot, events) := slotClose slot
    (slot, .wrote wrote :: events, .away)

/-- The provider call of `slot_drive_send`. -/
def slotProvide (slot : Slot) (bytes : Bytes) : Slot × List SlotEvent × Focus :=
  let provided := SlotEvent.provided slot.stream bytes
  let slot := { slot with sendBuffer := Block.overwrite slot.sendBuffer 0 bytes }
  if bytes.length > 0 then
    ({ slot with sendUsed := bytes.length, sendOffset := 0 }, [provided], .advance)
  else
    let (slot, events) := streamFinalize { slot with streamEof := true }
    (slot, provided :: events, .drained)

def slotProbePending (slot : Slot) (r : ReadResult) : Slot × List SlotEvent :=
  if slot.recvUsed ≥ slot.recvBufferSize then (slot, [])
  else
    match r with
    | .tryAgain _ => (slot, [])
    | .failed => slotClose slot
    | .ok bytes => (slotStore slot bytes, [.received bytes])

/-! ## The passes over the slots, one slot each -/

/-- `flush_pending_responses`. -/
def slotFlush (w : Platform) (slot : Slot) : Slot × List SlotEvent :=
  if slot.inUse ∧ slot.state = .pending ∧ (slot.pendingReady ∨ slot.pendingCancelled) then
    let response := slot.pendingResponse
    let cancelled := slot.pendingCancelled
    let slot := { slot with pendingReady := false, pendingCancelled := false, state := .sending }
    if cancelled then
      respondWithStatus env.lib w { slot with clientWantsClose := true } .cancelled HTTP_CODE_503
        HTTP_REASON_PHRASE_503
    else
      let (slot, events) := serializeAndSend env.lib w slot response
      (slot, .answered .completed response :: events)
  else (slot, [])

/-- `sweep_pending_deadlines`. -/
def slotSweepPending (now : Nat) (w : Platform) (slot : Slot) : Slot × List SlotEvent :=
  if slot.inUse ∧ slot.state = .pending ∧ slot.pendingReady = false ∧
      slot.pendingCancelled = false ∧ slot.pendingDeadlineMs ≤ now then
    respondWithStatus env.lib w { slot with state := .sending, clientWantsClose := true } .expired
      HTTP_CODE_504 HTTP_REASON_PHRASE_504
  else (slot, [])

def slotWaitsOnPeer (slot : Slot) : Bool :=
  slot.inUse && (slot.state == .handshaking || slot.state == .receiving || slot.state == .sending)

def slotIsIdleBetweenRequests (slot : Slot) : Bool :=
  slot.inUse && slot.state == .receiving && slot.recvUsed == 0

/-- The first pass of `sweep_idle_connections`. -/
def slotSweepIdle (now : Nat) (slot : Slot) : Slot × List SlotEvent :=
  if slotWaitsOnPeer slot ∧ slot.lastActivityMs + env.idleTimeoutMs ≤ now then slotClose slot
  else (slot, [])

/-! ## Steps -/

/-- A result of the loop thread that stays in the slot. -/
def SlotView.goto (v : SlotView) (r : Slot × List SlotEvent × Focus) : SlotView × List SlotEvent :=
  ({ v with slot := r.1, focus := r.2.2 }, r.2.1)

/-- A result of the loop thread that leaves the slot. -/
def SlotView.leave (v : SlotView) (r : Slot × List SlotEvent) : SlotView × List SlotEvent :=
  ({ v with slot := r.1, focus := .away }, r.2)

/-- The route loop, up to the call of the matching route's handler if there is one. -/
def routeRequest (v : SlotView) : SlotView × List SlotEvent :=
  let request := v.slot.parser.request
  match routeLoop env request 0 env.routes false with
  | (methodMatched, none) =>
    ({ v with focus := .returned none methodMatched .zero }, [.dispatched request])
  | (methodMatched, some route) =>
    ({ v with focus := .handling route methodMatched }, [.dispatched request])

/-- `http_exchange_defer` in a handler. -/
def takeTicket (v : SlotView) : SlotView × List SlotEvent :=
  let deferral := httpExchangeDefer v.slot
  ({ v with tickets := v.tickets ++ [deferral] }, [.ticketTaken deferral.generation])

/-- The return of a handler. -/
def handlerReturned (v : SlotView) (outcome : HandlerOutcome) (response : HttpResponse) :
    SlotView × List SlotEvent :=
  match v.focus with
  | .handling route methodMatched =>
    ({ v with focus := .returned (some outcome) methodMatched response },
      [.handled route outcome response])
  | _ => (v, [])

def acceptConnection (w : Platform) (slot : Slot) (sd : Option Int) :
    Slot × List SlotEvent × Focus :=
  let slot := slotAcquire w.now slot
  match sd with
  | none =>
    let (slot, events) := releaseSlot slot
    (slot, events, .away)
  | some sd => ({ slot with sd, state := .handshaking }, [.accepted], .advance)

/-- Whether the loop thread is at the place of the action, and no socket or provider reports
more than it was offered. -/
def SlotView.enabled (v : SlotView) : SlotAction → Bool
  | .accept _ _ => v.focus = .away ∧ v.slot.inUse = false
  | .event _ => v.focus = .away ∧ v.slot.registeredEvents ≠ .none
  | .handshake _ _ => v.focus = .advance ∧ v.slot.state = .handshaking
  | .tooLarge _ =>
    v.focus = .advance ∧ v.slot.state = .receiving ∧ v.slot.recvBufferSize ≤ v.slot.recvUsed
  | .read _ r =>
    v.focus = .advance ∧ v.slot.state = .receiving ∧ v.slot.recvUsed < v.slot.recvBufferSize ∧
      r.got ≤ v.slot.recvBufferSize - v.slot.recvUsed
  | .route => v.focus = .route
  | .defer | .handler _ _ => (v.focus matches .handling _ _)
  | .conclude _ => (v.focus matches .returned _ _ _)
  | .probe r =>
    v.focus = .advance ∧ v.slot.state = .pending ∧
      r.got ≤ v.slot.recvBufferSize - v.slot.recvUsed
  | .write _ written _ =>
    v.focus = .advance ∧ v.slot.state = .sending ∧ v.slot.sendOffset < v.slot.sendUsed ∧
      written ≤ v.slot.sendUsed - v.slot.sendOffset
  | .drain => v.focus = .advance ∧ v.slot.state = .sending ∧ v.slot.sendUsed ≤ v.slot.sendOffset
  | .provide bytes =>
    v.focus = .drained ∧ v.slot.streamActive = true ∧ v.slot.streamEof = false ∧
      bytes.length ≤ v.slot.sendBufferSize
  | .finish _ => v.focus = .drained ∧ (v.slot.streamActive = false ∨ v.slot.streamEof = true)
  | .stray => v.focus = .advance ∧ (v.slot.state = .idle ∨ v.slot.state = .closing)
  | .reclaim => v.focus = .away ∧ slotIsIdleBetweenRequests v.slot = true
  | .flush _ | .sweepPending _ _ | .sweepIdle _ | .teardown => v.focus = .away
  | .post k _ => k < v.tickets.length

def slotEffect (v : SlotView) : SlotAction → SlotView × List SlotEvent
  | .accept w sd => v.goto (acceptConnection w v.slot sd)
  | .event error => if error then v.leave (slotClose v.slot) else ({ v with focus := .advance }, [])
  | .handshake w r => v.leave (slotDriveHandshake w v.slot r)
  | .tooLarge w => v.leave (slotTooLarge env w v.slot)
  | .read w r => v.goto (slotDriveReceive env w v.slot r)
  | .route => routeRequest env v
  | .defer => takeTicket v
  | .handler outcome response => handlerReturned v outcome response
  | .conclude w =>
    match v.focus with
    | .returned outcome methodMatched response =>
      v.leave (concludeRequest env w v.slot outcome methodMatched response)
    | _ => (v, [])
  | .probe r => v.leave (slotProbePending v.slot r)
  | .write w written r => v.goto (slotDriveSend w v.slot written r)
  | .drain => ({ v with focus := .drained }, [])
  | .provide bytes => v.goto (slotProvide v.slot bytes)
  | .finish w => v.goto (slotFinishSend env w v.slot)
  | .stray | .reclaim => v.leave (slotClose v.slot)
  | .flush w => v.leave (slotFlush env w v.slot)
  | .sweepPending now w => v.leave (slotSweepPending env now w v.slot)
  | .sweepIdle now => v.leave (slotSweepIdle env now v.slot)
  | .teardown => if v.slot.inUse then v.leave (slotTeardown v.slot) else (v, [])
  | .post k post =>
    match v.tickets[k]? with
    | none => (v, [])
    | some deferral =>
      let (result, slot) := deferralPost v.slot deferral post
      ({ v with slot }, [.posted k post result])

def slotStep (v : SlotView) (a : SlotAction) : Option (SlotView × List SlotEvent) :=
  if v.enabled a then some (slotEffect env v a) else none

end HttpC
