import HttpC.Server.Dispatch

/-!
# Setting up a server

`http_server_init` takes the storage of its caller, and each call of `http_server_add_route` fills
one more entry of the table of routes. The two storage providers hand out static arrays.

## Main results

* `addRoutes_eq` — the table takes the routes that were asked for, as far as there is room.
* `setup_of_calls` — after the calls the server is at the start of its runs.
-/

namespace HttpC

open Transition

/-! ## The model -/

def HTTP_SERVER_DEFAULT_DEFERRED_TIMEOUT_MS : Nat := 30000
def HTTP_SERVER_DEFAULT_IDLE_TIMEOUT_MS : Nat := 30000

/-- The timeouts of `http_server_config_t`; `0` selects the default. -/
structure HttpServerConfig where
  deferredTimeoutMs : Nat
  idleTimeoutMs : Nat
  deriving DecidableEq, Repr

/-- `http_server_storage_t`. A null pointer to slots is `none`, one to routes is `false`. -/
structure HttpServerStorage where
  slots : Option (Nat → Slot)
  slotCount : Nat
  routes : Bool
  routeCount : Nat

/-- `http_server_t` with what it reaches through its storage. -/
structure HttpServer where
  slots : Nat → Slot
  slotCount : Nat
  /-- `storage->route_count`, the number of routes there is memory for. -/
  routeCapacity : Nat
  routes : List Route
  pendingTimeoutMs : Nat
  idleTimeoutMs : Nat
  state : ServerState

/-- `http_server_init`; `primitives` is whether the mutexes and the condition variable can be
made. -/
def httpServerInit (primitives : Bool) (config : Option HttpServerConfig)
    (storage : Option HttpServerStorage) : Except Result HttpServer :=
  match config, storage with
  | some config, some ⟨some slots, slotCount, true, routeCount⟩ =>
    if slotCount = 0 ∨ routeCount = 0 then .error .invalidArgument
    else if primitives = false then .error .error
    else
      .ok {
        slots := fun i => if i < slotCount then slotInit (slots i) else slots i
        slotCount
        routeCapacity := routeCount
        routes := []
        pendingTimeoutMs :=
          if config.deferredTimeoutMs ≠ 0 then config.deferredTimeoutMs
          else HTTP_SERVER_DEFAULT_DEFERRED_TIMEOUT_MS
        idleTimeoutMs :=
          if config.idleTimeoutMs ≠ 0 then config.idleTimeoutMs
          else HTTP_SERVER_DEFAULT_IDLE_TIMEOUT_MS
        state := .initialized }
  | _, _ => .error .invalidArgument

/-- The arguments of a call of `http_server_add_route`; a null handler is `none`. -/
structure RouteCall where
  method : Span
  path : Span
  handler : Option Nat
  userContext : Nat
  deriving DecidableEq, Repr

/-- The calls of `http_server_add_route` between the initialisation and the run. -/
def HttpServer.addRoutes (spanRegexCompile : Span → Bool) (server : HttpServer) :
    List RouteCall → List Result × HttpServer
  | [] => ([], server)
  | call :: calls =>
    let (result, routes) := httpServerAddRoute spanRegexCompile server.routeCapacity server.routes
      call.method call.path call.handler call.userContext
    let (results, server) := addRoutes spanRegexCompile { server with routes } calls
    (result :: results, server)

/-- A slot of a static array: zeroes, with these two buffers. -/
def staticSlot (recvBufferPtr requestSize responseSize headersPtr : Nat) : Slot where
  inUse := false
  sd := 0
  recvBufferPtr
  recvBuffer := List.replicate requestSize 0
  recvBufferSize := requestSize
  sendBuffer := List.replicate responseSize 0
  sendBufferSize := responseSize
  state := .idle
  parser := ⟨.requestLine, .zero, 0, 0, false⟩
  recvUsed := 0
  sendUsed := 0
  sendOffset := 0
  registeredEvents := .none
  clientWantsClose := false
  defaultHeaders := ⟨headersPtr, List.replicate 32 0⟩
  streamActive := false
  streamEof := false
  streamProvider := none
  streamFinalizer := none
  streamCtx := 0
  generation := 0
  lastActivityMs := 0
  pendingDeadlineMs := 0
  pendingReady := false
  pendingCancelled := false
  pendingResponse := .zero

/-- A storage provider. The arrays stand at `buffers` and `headers`. -/
def staticStorage (connections routes requestSize responseSize buffers headers : Nat) :
    HttpServerStorage where
  slots := some fun i =>
    staticSlot (buffers + i * requestSize) requestSize responseSize (headers + i * 32)
  slotCount := connections
  routes := true
  routeCount := routes

def httpServerStorageGetForServerHost (buffers headers : Nat) : HttpServerStorage :=
  staticStorage 256 32 8192 8192 buffers headers

def httpServerStorageGetForMicrocontroller (buffers headers : Nat) : HttpServerStorage :=
  staticStorage 4 8 1024 1024 buffers headers

/-! ## What a run starts from -/

/-- Storage as the library asks for it. -/
def HttpServerStorage.Sound (storage : HttpServerStorage) : Prop :=
  ∀ slots, storage.slots = some slots → ∀ i < storage.slotCount, (slots i).Storage

namespace HttpServer

variable (server : HttpServer)

/-- What the slots reach, with the two libraries. -/
def env (lib : CommonLib) (spanRegexMatch : Span → Span → Bool) : ServerEnv where
  lib
  spanRegexMatch
  routes := server.routes
  pendingTimeoutMs := server.pendingTimeoutMs
  idleTimeoutMs := server.idleTimeoutMs

/-- The server before its run. Nothing reads the slots behind the last one. -/
def system (listenSd : Int) : System where
  slots i := ⟨server.slots (if i < server.slotCount then i else 0), .away, []⟩
  pc := .outside
  state := server.state
  listenRegistered := false
  listenSd
  stoppers := 0

end HttpServer

/-- Static storage is sound. -/
theorem staticStorage_sound {connections routes requestSize responseSize : Nat}
    (hrequest : requestSize < 2 ^ 32) (hresponse : responseSize < 2 ^ 32) (buffers headers : Nat) :
    (staticStorage connections routes requestSize responseSize buffers headers).Sound := by
  rintro slots hslots i -
  obtain rfl := Option.some.inj hslots
  exact ⟨List.length_replicate, hrequest, List.length_replicate, hresponse, by
    simp [staticSlot, Span.size]⟩

theorem httpServerStorageGetForServerHost_sound (buffers headers : Nat) :
    (httpServerStorageGetForServerHost buffers headers).Sound :=
  staticStorage_sound (by decide) (by decide) buffers headers

theorem httpServerStorageGetForMicrocontroller_sound (buffers headers : Nat) :
    (httpServerStorageGetForMicrocontroller buffers headers).Sound :=
  staticStorage_sound (by decide) (by decide) buffers headers

/-! ## Registration -/

/-- The route a call asks for, if it may be registered at all. -/
def RouteCall.route (spanRegexCompile : Span → Bool) (call : RouteCall) : Option Route :=
  match call.handler with
  | none => none
  | some handler =>
    if call.method.isEmpty ∨ call.path.isEmpty then none
    else if spanRegexCompile call.path then
      some ⟨call.method, call.path, handler, call.userContext⟩
    else none

section

variable (spanRegexCompile : Span → Bool)

/-- A table takes one more route if the call may register it and there is room. -/
theorem httpServerAddRoute_table {capacity : Nat} {routes : List Route}
    (hroom : routes.length ≤ capacity) (call : RouteCall) :
    (httpServerAddRoute spanRegexCompile capacity routes call.method call.path call.handler
      call.userContext).2 =
        routes ++ (call.route spanRegexCompile).toList.take (capacity - routes.length) := by
  unfold httpServerAddRoute RouteCall.route
  cases call.handler with
  | none => simp
  | some handler =>
    dsimp only
    by_cases hempty : call.method.isEmpty ∨ call.path.isEmpty
    · simp [hempty]
    · rw [if_neg hempty, if_neg hempty]
      by_cases hfull : routes.length = capacity
      · simp [hfull]
      · obtain ⟨room, hcapacity⟩ : ∃ room, capacity - routes.length = room + 1 :=
          Nat.exists_eq_succ_of_ne_zero (by omega)
        rw [if_neg hfull, hcapacity]
        split_ifs <;> simp

/-- The routes of a list of calls, as far as there is room. -/
theorem addRoutes_eq (calls : List RouteCall) {server : HttpServer}
    (hroom : server.routes.length ≤ server.routeCapacity) :
    (server.addRoutes spanRegexCompile calls).2 =
      { server with
        routes := server.routes ++ (calls.filterMap (·.route spanRegexCompile)).take
          (server.routeCapacity - server.routes.length) } := by
  induction calls generalizing server with
  | nil => simp [HttpServer.addRoutes]
  | cons call calls ih =>
    have htable := httpServerAddRoute_table spanRegexCompile hroom call
    have hadded : (server.routes ++ (call.route spanRegexCompile).toList.take
        (server.routeCapacity - server.routes.length)).length ≤ server.routeCapacity := by
      rw [List.length_append, List.length_take]
      omega
    rw [HttpServer.addRoutes]
    dsimp only
    rw [htable, ih hadded]
    dsimp only
    congr 1
    rw [List.append_assoc, List.filterMap_cons]
    cases call.route spanRegexCompile with
    | none => simp
    | some route =>
      rw [Option.toList_some]
      rcases Nat.eq_zero_or_pos (server.routeCapacity - server.routes.length) with hzero | hpos
      · simp [hzero]
      · obtain ⟨room, hcapacity⟩ := Nat.exists_eq_succ_of_ne_zero hpos.ne'
        simp only [hcapacity, Nat.succ_eq_add_one, List.take_succ_cons, List.take_nil,
          List.length_append, List.length_singleton, List.singleton_append]
        rw [show server.routeCapacity - (server.routes.length + 1) = room by omega]

/-- What `http_server_init` makes of sound storage. -/
theorem httpServerInit_cases {primitives : Bool} {config : Option HttpServerConfig}
    {storage : Option HttpServerStorage} {server : HttpServer}
    (h : httpServerInit primitives config storage = .ok server) :
    ∃ slots, (∃ routes capacity,
        storage = some ⟨some slots, server.slotCount, routes, capacity⟩) ∧
      0 < server.slotCount ∧ server.routes = [] ∧ server.state = .initialized ∧
      ∀ i < server.slotCount, server.slots i = slotInit (slots i) := by
  unfold httpServerInit at h
  split at h
  · next config slots slotCount routeCount =>
    by_cases hzero : slotCount = 0 ∨ routeCount = 0
    · rw [if_pos hzero] at h
      cases h
    · rw [if_neg hzero] at h
      cases primitives with
      | false => cases h
      | true =>
        obtain rfl := Except.ok.inj h
        have hslots : 0 < slotCount := Nat.pos_of_ne_zero fun h => hzero (.inl h)
        exact ⟨slots, ⟨true, routeCount, rfl⟩, hslots, rfl, rfl, fun i hi => if_pos hi⟩
  · cases h

/-- A server that is set up is at its start, and its table lists the routes that were asked for, in
order, as far as there is room. -/
theorem setup_of_calls {primitives : Bool} {config : Option HttpServerConfig}
    {storage : HttpServerStorage} (hsound : storage.Sound) {server : HttpServer}
    (h : httpServerInit primitives config (some storage) = .ok server) (calls : List RouteCall) :
    let ready := (server.addRoutes spanRegexCompile calls).2
    (∀ listenSd, (ready.system listenSd).Initial) ∧ ready.slotCount = server.slotCount ∧
      ready.routes =
        (calls.filterMap (·.route spanRegexCompile)).take server.routeCapacity := by
  obtain ⟨slots, ⟨routes, capacity, hstorage⟩, hslots, hroutes, hstate, hinit⟩ :=
    httpServerInit_cases h
  obtain rfl := Option.some.inj hstorage
  have heq := @addRoutes_eq spanRegexCompile calls server (by simp [hroutes])
  rw [hroutes] at heq
  rw [heq]
  refine ⟨fun listenSd => ⟨fun i => ⟨rfl, rfl, ?_⟩, rfl, hstate, rfl, rfl⟩, rfl, rfl⟩
  have hlt : (if i < server.slotCount then i else 0) < server.slotCount := by
    split_ifs with hi
    · exact hi
    · exact hslots
  exact ⟨_, hsound slots rfl _ hlt, hinit _ hlt⟩

end

end HttpC
