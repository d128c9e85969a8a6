import HttpC.Server.Protocol

/-!
# The server as a machine

One loop thread, any number of worker threads that post deferred responses and of threads
that stop the server. The loop thread steps from one piece of `http_server_run` to the next
and, inside callbacks and passes, through the slots; the other threads get in between any
two steps.

## Main results

* `slotProjection` — seen from one slot, a run of the server is a run of the slot.
* `slotRun_inv` — in a run every slot stays well formed.
-/

namespace HttpC

open Transition

/-! ## One slot -/

/-- Storage as the caller hands it over: buffers of the announced sizes. -/
structure Slot.Storage (slot : Slot) : Prop where
  recv : slot.recvBuffer.length = slot.recvBufferSize
  recvSize : slot.recvBufferSize < 2 ^ 32
  send : slot.sendBuffer.length = slot.sendBufferSize
  sendSize : slot.sendBufferSize < 2 ^ 32
  headers : slot.defaultHeaders.size = 32

/-- What `http_server_init` sets in a slot. -/
def slotInit (slot : Slot) : Slot :=
  { slot with
    inUse := false, state := .idle, registeredEvents := .none, generation := 0,
    pendingReady := false, pendingCancelled := false, pendingDeadlineMs := 0 }

def SlotView.Initial (v : SlotView) : Prop :=
  v.focus = .away ∧ v.tickets = [] ∧ ∃ storage : Slot, storage.Storage ∧ v.slot = slotInit storage

def slotMachine (env : ServerEnv) : Machine SlotView SlotAction SlotEvent where
  Initial := SlotView.Initial
  step := slotStep env

theorem SlotView.Initial.inv {v : SlotView} (h : v.Initial) : v.Inv := by
  obtain ⟨hf, -, storage, -, hs⟩ := h
  have hslot : v.slot.inUse = false ∧ v.slot.registeredEvents = .none ∧
      v.slot.pendingReady = false ∧ v.slot.pendingCancelled = false := by
    rw [hs]
    exact ⟨rfl, rfl, rfl, rfl⟩
  refine ⟨?_, ok_of_closed hslot.1 hslot.2.1⟩
  constructor <;> simp [SlotView.kernel, Focus.Routing, hf, hslot]

theorem slotRun_inv {env : ServerEnv} {log : List SlotEvent} {v : SlotView}
    (run : Run (slotMachine env) log v) : v.Inv :=
  run.invariant (I := fun _ v => v.Inv) (fun _ h => h.inv)
    fun _ _ _ _ _ _ hi h => (slotStep_move env hi h).2

/-! ## The server -/

/-- `http_server_state_t`. -/
inductive ServerState where
  | initialized | running | stopping | stopped
  deriving DecidableEq, Repr

/-- Where the loop thread stands in `http_server_run`. -/
inductive LoopPc where
  | outside
  /-- Between the check of the state and its promotion to `running`. -/
  | publishing (promote : Bool)
  /-- At the `while` test. -/
  | loopTest
  /-- In `event_loop_run_once`, between two callbacks. -/
  | dispatch
  /-- In a callback for this slot. -/
  | callback (i : Nat)
  | flush (i : Nat)
  | sweepPending (now i : Nat)
  | sweepIdle (now i : Nat)
  | reclaim (now : Nat)
  | teardown (i : Nat)
  deriving DecidableEq, Repr

structure System where
  slots : Nat → SlotView
  pc : LoopPc
  state : ServerState
  listenRegistered : Bool
  listenSd : Int
  /-- Calls of `http_server_stop` between their wait and their `server_set_state`. -/
  stoppers : Nat

inductive ServerAction where
  /-- A step at a slot; `rearmed` is whether the listener can be registered again. -/
  | slot (i : Nat) (a : SlotAction) (rearmed : Bool)
  /-- `http_server_run` is called; `none` when its setup fails. -/
  | run (listenSd : Option Int)
  | promote
  | test
  /-- `on_listen_readable` with every slot in use. -/
  | busy
  /-- `event_loop_run_once` returns. -/
  | iterated (ok : Bool)
  /-- A pass over the slots is complete and the next one reads the clock. -/
  | nextPass (now : Nat)
  | skipReclaim
  | stopped
  /-- The wait of `http_server_stop` is over. -/
  | stopWait (timedOut : Bool)
  | stopSet
  deriving DecidableEq, Repr

inductive ServerEvent where
  | slot (i : Nat) (e : SlotEvent)
  | published (state : ServerState)
  deriving DecidableEq, Repr

variable (env : ServerEnv) (slotCount : Nat)

/-- The slot `acquire_slot` finds. -/
def acquireSlot (s : System) : Option Nat :=
  (List.range slotCount).find? fun i => !(s.slots i).slot.inUse

def findReclaimableSlot (s : System) (now : Nat) : Option Nat :=
  (List.range slotCount).foldl (fun oldest i =>
    let slot := (s.slots i).slot
    if slotIsIdleBetweenRequests slot ∧
        slot.lastActivityMs + HTTP_SERVER_RECLAIM_MIN_IDLE_MS ≤ now ∧
        oldest.all (fun j => slot.lastActivityMs < (s.slots j).slot.lastActivityMs) = true then
      some i
    else oldest) none

def listenerRearm (s : System) (rearmed : Bool) : System :=
  { s with
    listenRegistered :=
      s.listenRegistered || (s.state == .running && s.listenSd != -1 && rearmed) }

/-- Actions inside `on_connection_io` or behind an accept. -/
def SlotAction.inCallback : SlotAction → Bool
  | .handshake _ _ | .tooLarge _ | .read _ _ | .route | .defer | .handler _ _ | .conclude _
  | .probe _ | .write _ _ _ | .drain | .provide _ | .finish _ | .stray => true
  | _ => false

/-- Where the loop thread goes with a step at slot `i` that leaves the focus there at `f`;
`none` when the step is not its turn. -/
def System.turn (s : System) (i : Nat) (a : SlotAction) (f : Focus) : Option LoopPc :=
  let after := if f = .away then LoopPc.dispatch else .callback i
  match s.pc, a with
  | pc, .post _ _ => some pc
  | .dispatch, .accept _ _ =>
    if s.state = .running ∧ s.listenRegistered ∧ acquireSlot slotCount s = some i then some after
    else none
  | .dispatch, .event _ => some after
  | .callback j, a => if j = i ∧ a.inCallback then some after else none
  | .flush j, .flush _ => if j = i then some (.flush (j + 1)) else none
  | .sweepPending now j, .sweepPending t _ =>
    if j = i ∧ t = now then some (.sweepPending now (j + 1)) else none
  | .sweepIdle now j, .sweepIdle t =>
    if j = i ∧ t = now then some (.sweepIdle now (j + 1)) else none
  | .reclaim now, .reclaim =>
    if s.listenRegistered = false ∧ findReclaimableSlot slotCount s now = some i then some .loopTest
    else none
  | .teardown j, .teardown => if j = i then some (.teardown (j + 1)) else none
  | _, _ => none

/-- A step at one slot. A close arms the listener again; the teardown does not. -/
def System.slotStep (s : System) (i : Nat) (a : SlotAction) (rearmed : Bool) :
    Option (System × List ServerEvent) :=
  if i < slotCount then
    match HttpC.slotStep env (s.slots i) a with
    | none => none
    | some (v, es) =>
      match s.turn slotCount i a v.focus with
      | none => none
      | some pc =>
        let s := { s with slots := Function.update s.slots i v, pc }
        some (if SlotEvent.released ∈ es ∧ a ≠ .teardown then listenerRearm s rearmed else s,
          es.map (.slot i))
  else none

def System.publish (s : System) (state : ServerState) : System × List ServerEvent :=
  ({ s with state }, [.published state])

def serverStep (s : System) : ServerAction → Option (System × List ServerEvent)
  | .slot i a rearmed => s.slotStep env slotCount i a rearmed
  | .run listenSd =>
    if s.pc = .outside ∧ s.state ≠ .running then
      match listenSd with
      | none => some (s, [])
      | some listenSd =>
        some ({ s with
          listenSd, listenRegistered := true, pc := .publishing (s.state == .initialized) }, [])
    else none
  | .promote =>
    match s.pc with
    | .publishing true => some ({ s with pc := .loopTest }.publish .running)
    | .publishing false => some ({ s with pc := .loopTest }, [])
    | _ => none
  | .test =>
    if s.pc = .loopTest then
      some ({ s with pc := if s.state = .running then .dispatch else .teardown 0 }, [])
    else none
  | .busy =>
    if s.pc = .dispatch ∧ s.state = .running ∧ s.listenRegistered ∧
        acquireSlot slotCount s = none then some ({ s with listenRegistered := false }, [])
    else none
  | .iterated ok =>
    if s.pc = .dispatch then some ({ s with pc := if ok then .flush 0 else .teardown 0 }, [])
    else none
  | .nextPass now =>
    match s.pc with
    | .flush i => if i = slotCount then some ({ s with pc := .sweepPending now 0 }, []) else none
    | .sweepPending _ i =>
      if i = slotCount then some ({ s with pc := .sweepIdle now 0 }, []) else none
    | .sweepIdle t i =>
      if i = slotCount then
        some ({ s with pc := if s.listenRegistered then .loopTest else .reclaim t }, [])
      else none
    | _ => none
  | .skipReclaim =>
    match s.pc with
    | .reclaim now =>
      if findReclaimableSlot slotCount s now = none then some ({ s with pc := .loopTest }, [])
      else none
    | _ => none
  | .stopped =>
    if s.pc = .teardown slotCount then
      some ({ s with pc := .outside, listenRegistered := false }.publish .stopped)
    else none
  | .stopWait timedOut =>
    if s.state = .running ∨ s.state = .stopped ∨ timedOut then
      some (if s.state = .stopped then s else { s with stoppers := s.stoppers + 1 }, [])
    else none
  | .stopSet =>
    if 0 < s.stoppers then some ({ s with stoppers := s.stoppers - 1 }.publish .stopping) else none

def System.Initial (s : System) : Prop :=
  (∀ i, (s.slots i).Initial) ∧ s.pc = .outside ∧ s.state = .initialized ∧
    s.listenRegistered = false ∧ s.stoppers = 0

def serverMachine : Machine System ServerAction ServerEvent where
  Initial := System.Initial
  step := serverStep env slotCount

/-! ## One slot of the server -/

def ServerEvent.atSlot (i : Nat) : ServerEvent → Option SlotEvent
  | .slot j e => if j = i then some e else none
  | .published _ => none

def ServerAction.atSlot (i : Nat) : ServerAction → Option SlotAction
  | .slot j a _ => if j = i then some a else none
  | _ => none

/-- The events of slot `i` in a log. -/
def slotLog (i : Nat) (log : List ServerEvent) : List SlotEvent :=
  log.filterMap (ServerEvent.atSlot i)

theorem slotLog_map_slot (i j : Nat) (es : List SlotEvent) :
    slotLog i (es.map (.slot j)) = if j = i then es else [] := by
  unfold slotLog
  induction es with
  | nil => simp
  | cons e es ih =>
    rw [List.map_cons, List.filterMap_cons, ih]
    split_ifs with h <;> simp [ServerEvent.atSlot, h]

/-- A step at a slot steps that slot and leaves the others alone. -/
theorem System.slotStep_spec {s t : System} {i : Nat} {a : SlotAction} {b : Bool}
    {es : List ServerEvent} (h : s.slotStep env slotCount i a b = some (t, es)) :
    i < slotCount ∧ ∃ v es', HttpC.slotStep env (s.slots i) a = some (v, es') ∧
      t.slots = Function.update s.slots i v ∧ es = es'.map (.slot i) := by
  unfold System.slotStep at h
  split_ifs at h with hi
  split at h
  · simp at h
  · next v es' hstep =>
    split at h
    · simp at h
    · simp only [Option.some.injEq, Prod.mk.injEq] at h
      obtain ⟨rfl, rfl⟩ := h
      refine ⟨hi, v, es', hstep, ?_, rfl⟩
      split_ifs <;> rfl

variable {slotCount} in
/-- In a callback the loop thread stays in its slot or leaves it. -/
theorem System.turn_callback {s : System} {i : Nat} {a : SlotAction} {f : Focus}
    (hpc : s.pc = .callback i) (ha : a.inCallback = true) :
    s.turn slotCount i a f = some (if f = .away then .dispatch else .callback i) := by
  cases a with
  | post => cases ha
  | _ => simp [System.turn, hpc, ha]

/-- A step that is not at a slot changes no slot and logs nothing of one. -/
theorem serverStep_idle {s t : System} {a : ServerAction} {es : List ServerEvent}
    (h : serverStep env slotCount s a = some (t, es)) (ha : ∀ i b r, a ≠ .slot i b r) :
    t.slots = s.slots ∧ ∀ i, slotLog i es = [] := by
  cases a with
  | slot i b r => exact absurd rfl (ha i b r)
  | _ =>
    simp only [serverStep, System.publish] at h
    repeat' split at h
    all_goals cases h
    all_goals refine ⟨?_, fun i => rfl⟩
    all_goals rfl

/-- Seen from one slot, the server is the slot's machine. -/
def slotProjection (i : Nat) : Projection (serverMachine env slotCount) (slotMachine env) where
  view s := s.slots i
  keep := ServerEvent.atSlot i
  initial _ h := h.1 i
  act := ServerAction.atSlot i
  idle s a t es h hact := by
    by_cases ha : ∃ j b r, a = .slot j b r
    · obtain ⟨j, b, r, rfl⟩ := ha
      have hne : j ≠ i := by
        intro hji
        simp [ServerAction.atSlot, hji] at hact
      obtain ⟨-, v, es', -, hslots, rfl⟩ := System.slotStep_spec env slotCount h
      refine ⟨by rw [hslots, Function.update_of_ne hne.symm], ?_⟩
      exact (slotLog_map_slot i j es').trans (if_neg hne)
    · have ha' : ∀ j b r, a ≠ .slot j b r := fun j b r hj => ha ⟨j, b, r, hj⟩
      obtain ⟨hslots, hlog⟩ := serverStep_idle env slotCount h ha'
      exact ⟨by rw [hslots], hlog i⟩
  move s a b t es h hact := by
    cases a with
    | slot j c r =>
      simp only [ServerAction.atSlot, Option.ite_none_right_eq_some, Option.some.injEq] at hact
      obtain ⟨rfl, rfl⟩ := hact
      obtain ⟨-, v, es', hstep, hslots, rfl⟩ := System.slotStep_spec env slotCount h
      have hlog : (es'.map (ServerEvent.slot j)).filterMap (ServerEvent.atSlot j) = es' :=
        (slotLog_map_slot j j es').trans (if_pos rfl)
      rw [hlog, hslots, Function.update_self]
      exact hstep
    | _ => simp [ServerAction.atSlot] at hact

/-- A run of the server, seen from slot `i`. -/
theorem slotRun_of_run {log : List ServerEvent} {s : System}
    (run : Run (serverMachine env slotCount) log s) (i : Nat) :
    Run (slotMachine env) (slotLog i log) (s.slots i) :=
  run.project (slotProjection env slotCount i)

/-! ## A small server -/

/-- A server with one route, whose pattern matches every path. -/
def smallServer : ServerEnv where
  lib := .reference
  spanRegexMatch _ _ := true
  routes := [⟨.lit "GET", .lit "/", 1, 0⟩]
  pendingTimeoutMs := 1000
  idleTimeoutMs := 5000

/-- Its one slot, with room for a short request. -/
def smallSlot : Slot where
  inUse := false
  sd := -1
  recvBufferPtr := 1000
  recvBuffer := List.replicate 24 0
  recvBufferSize := 24
  sendBuffer := List.replicate 64 0
  sendBufferSize := 64
  state := .idle
  parser := httpRequestParserInit
  recvUsed := 0
  sendUsed := 0
  sendOffset := 0
  registeredEvents := .none
  clientWantsClose := false
  defaultHeaders := ⟨2000, List.replicate 32 0⟩
  streamActive := false
  streamEof := false
  streamProvider := none
  streamFinalizer := none
  streamCtx := 0
  generation := 0
  lastActivityMs := 0
  pendingDeadlineMs := 0
  pendingReady := false
  pendingCancelled := false
  pendingResponse := .zero

def smallSystem : System where
  slots _ := ⟨slotInit smallSlot, .away, []⟩
  pc := .outside
  state := .initialized
  listenRegistered := false
  listenSd := -1
  stoppers := 0

theorem smallSystem_initial : smallSystem.Initial :=
  ⟨fun _ => ⟨rfl, rfl, smallSlot, ⟨rfl, by decide, rfl, by decide, rfl⟩, rfl⟩, rfl, rfl, rfl, rfl⟩

/-- Time stands still and the event loop does what it is asked. -/
def calm : Platform := ⟨0, true⟩

def atSlot0 (as : List SlotAction) : List ServerAction := as.map fun a => .slot 0 a true

/-- `http_server_run` starts and accepts a connection. -/
def connecting : List ServerAction :=
  [.run (some 3), .promote, .test] ++ atSlot0 [.accept calm (some 5), .handshake calm .ok]

/-- A request arrives, and its handler takes a ticket. -/
def requesting : List ServerAction :=
  atSlot0 [.event false, .read calm (.ok (ascii "GET / HTTP/1.1\r\n\r\n")), .route, .defer]

/-- The handler returns `http_handler_defer`, and the request is parked. -/
def parking : List ServerAction := atSlot0 [.handler .defer .zero, .conclude calm]

/-- The rest of an iteration of the loop at this time, and the test for the next one. -/
def iterating (now : Nat) : List ServerAction :=
  [.iterated true, .slot 0 (.flush ⟨now, true⟩) true, .nextPass now,
    .slot 0 (.sweepPending now ⟨now, true⟩) true, .nextPass now, .slot 0 (.sweepIdle now) true,
    .nextPass now, .test]

/-- The socket takes a response of `n` bytes. -/
def sending (n : Nat) : List ServerAction :=
  atSlot0 [.event false, .write calm n .ok, .finish calm]

def okResponse : HttpResponse := prepareDefaultResponse HTTP_CODE_200 HTTP_REASON_PHRASE_200

end HttpC
