import HttpC.Server.Answers
import HttpC.Server.Pipelining
import HttpC.Server.Setup

/-!
# From the table of routes to the answer

A request that reaches the routing step belongs to one handler or to none, and nothing else happens
on its connection before it is settled: the handler of the first registered route that serves it
returns, and what it returned is answered, parked or hung up on; or no route serves it and the
server refuses it.

## Main results

* `slotStep_errand` — a step moves the errand of a request as the table says.
* `routing_of_run` — in every run of a server that has been set up.
-/

namespace HttpC

open Transition

/-! ## The errand of a request -/

/-- A request between the routing step and what settles it. -/
inductive Errand where
  /-- No request is on its way. -/
  | settled
  | underway (request : HttpRequest)
  | handled (outcome : HandlerOutcome) (response : HttpResponse)

/-- The status of a refused request. -/
def refusalStatus (env : ServerEnv) (request : HttpRequest) : Span × Span :=
  if env.routes ≠ [] ∧ ∀ route ∈ env.routes, route.method.bytes ≠ request.method.bytes then
    (HTTP_CODE_405, HTTP_REASON_PHRASE_405)
  else (HTTP_CODE_404, HTTP_REASON_PHRASE_404)

namespace Errand

def record : Errand → SlotEvent → Errand
  | _, .dispatched request => .underway request
  | _, .handled _ outcome response => .handled outcome response
  | _, .parked | _, .answered _ _ | _, .released => .settled
  | errand, _ => errand

variable (env : ServerEnv)

/-- What may happen to a request on its way. A worker may post at any time. -/
def Good : Errand → SlotEvent → Prop
  | _, .posted _ _ _ => True
  | .settled, .answered .refused response => response.code = HTTP_CODE_413
  | .settled, .answered .handler _ | .settled, .ticketTaken _ | .settled, .handled _ _ _
  | .settled, .parked => False
  | .settled, _ => True
  | .underway request, .ticketTaken _ => ∃ route, FirstServing env request route
  | .underway request, .handled route _ _ => FirstServing env request route
  | .underway request, .answered .refused response =>
    (∀ route, ¬ FirstServing env request route) ∧
      (response.code, response.reasonPhrase) = refusalStatus env request
  | .underway _, _ => False
  | .handled outcome response, .answered .handler answer => outcome = .respond ∧ answer = response
  | .handled outcome _, .parked => outcome = .defer
  | .handled outcome _, .finalized _ | .handled outcome _, .released => outcome = .close
  | .handled _ _, _ => False

def routing : Monitor Errand SlotEvent where
  start := .settled
  record := record
  Good := Good env

/-- The loop thread at a slot stands where the errand is. -/
def StandsAt (errand : Errand) (v : SlotView) : Prop :=
  match v.focus with
  | .handling route _ => ∃ request, errand = .underway request ∧ FirstServing env request route
  | .returned .none matched _ =>
    ∃ request, errand = .underway request ∧ (∀ route, ¬ FirstServing env request route) ∧
      matched = env.routes.any (·.method.bytes = request.method.bytes)
  | .returned (.some outcome) _ response => errand = .handled outcome response
  | _ => errand = .settled

end Errand

variable {env : ServerEnv} {v v' : SlotView} {es : List SlotEvent} {errand : Errand}

/-! ## Events between two errands -/

/-- What may be logged while no request is on its way, except that one sets out. -/
def SlotEvent.Idle (env : ServerEnv) (e : SlotEvent) : Prop :=
  Errand.Good env .settled e ∧ Errand.record .settled e = .settled

theorem idle_of_plain {e : SlotEvent} (he : e.Plain) : e.Idle env := by
  cases e <;> first | exact absurd he id | exact ⟨trivial, rfl⟩

theorem accepts_idle (hes : ∀ e ∈ es, e.Idle env) :
    (Errand.routing env).AcceptsFrom .settled es ∧ es.foldl Errand.record .settled = .settled :=
  Monitor.acceptsFrom_of_fixed hes

/-- Steps of the loop thread on behalf of a request, and what the workers do. -/
def SlotAction.onErrand : SlotAction → Bool
  | .route | .defer | .handler _ _ | .conclude _ | .post _ _ => true
  | _ => false

theorem idle_of_source {a : SlotAction} {e : SlotEvent} (ha : a.onErrand = false)
    (h : Source env v a e) : e.Idle env := by
  cases h with
  | plain he => exact idle_of_plain he
  | wrote | provided | completed | cancelled | expired => exact ⟨trivial, rfl⟩
  | tooLarge => exact ⟨rfl, rfl⟩
  | _ => cases ha

/-- Without such an event the loop thread stays away from the handlers. -/
theorem Move.not_dispatched {k k' : Kernel} (h : Move k es k') (hes : ∀ e ∈ es, e.Idle env)
    (hk : ¬ k.focus.Dispatched) : ¬ k'.focus.Dispatched := by
  cases h with
  | accept | refuse | shake | finishClosed | provide | answer | overflow | close | arrive =>
    exact id
  | transfer _ hf => exact hf.not_dispatched
  | unrouted | routed => exact absurd (hes _ List.mem_cons_self).2 nofun
  | take hf => exact absurd (hes _ List.mem_cons_self).1 id
  | handled hf => exact absurd (hes _ List.mem_cons_self).1 id
  | park hf => exact absurd (hes _ List.mem_cons_self).1 id
  | exhaust => exact hk
  | finish _ _ hnext => rcases hnext with rfl | rfl <;> exact id
  | @post _ _ p =>
    unfold Kernel.post
    split_ifs
    · exact hk
    · exact hk
    · cases p <;> exact hk

/-- Only steps on behalf of a request are due while it is with its handler. -/
theorem not_dispatched_of_enabled {a : SlotAction} (ha : a.onErrand = false)
    (hen : v.enabled a = true) : ¬ v.focus.Dispatched := by
  intro hdispatched
  cases hf : v.focus with
  | handling | returned =>
    cases a <;> first
      | exact Bool.noConfusion ha
      | simp [SlotView.enabled, hf] at hen
  | _ =>
    rw [hf] at hdispatched
    exact hdispatched

/-! ## A step -/

theorem standsAt_settled (hf : ¬ v.focus.Dispatched) :
    Errand.StandsAt env errand v ↔ errand = .settled := by
  unfold Errand.StandsAt
  cases hcase : v.focus with
  | handling | returned =>
    rw [hcase] at hf
    exact absurd trivial hf
  | _ => rfl

/-- The status a refused request gets. -/
theorem status_unrouted (request : HttpRequest) :
    let response := unroutedResponse env (env.routes.any (·.method.bytes = request.method.bytes))
    (response.code, response.reasonPhrase) = refusalStatus env request := by
  have hcond : (!(env.routes.any (·.method.bytes = request.method.bytes)) &&
      decide (env.routes.length > 0)) = true ↔
      env.routes ≠ [] ∧ ∀ route ∈ env.routes, route.method.bytes ≠ request.method.bytes := by
    simp [List.length_pos_iff, and_comm]
  unfold unroutedResponse refusalStatus
  simp only [hcond]
  split_ifs <;> rfl

/-- The route loop sends a request on its errand. -/
theorem errand_route (env : ServerEnv) (v : SlotView) :
    let after := slotEffect env v .route
    (Errand.routing env).AcceptsFrom .settled after.2 ∧
      Errand.StandsAt env (after.2.foldl Errand.record .settled) after.1 := by
  have hmeans := @findIdx?_serves env v.slot.parser.request
  cases hfind : env.routes.findIdx? (Serves env v.slot.parser.request ·) with
  | none =>
    simp only [slotEffect, routeRequest, routeLoop_none hfind]
    refine ⟨⟨trivial, trivial⟩, v.slot.parser.request, rfl, fun route hfirst => ?_, by simp⟩
    rw [(hmeans route).mpr hfirst] at hfind
    cases hfind
  | some k =>
    simp only [slotEffect, routeRequest, routeLoop_found hfind, Nat.zero_add]
    exact ⟨⟨trivial, trivial⟩, v.slot.parser.request, rfl, (hmeans k).mp hfind⟩

/-- What follows the route loop settles the errand. -/
theorem errand_conclude {w : Platform} {outcome : Option HandlerOutcome} {m : Bool}
    {r : HttpResponse} (hf : v.focus = .returned outcome m r)
    (h : Errand.StandsAt env errand v) :
    let after := slotEffect env v (.conclude w)
    (Errand.routing env).AcceptsFrom errand after.2 ∧
      Errand.StandsAt env (after.2.foldl Errand.record errand) after.1 := by
  have hidle : ∀ slot response,
      (Errand.routing env).AcceptsFrom .settled (serializeAndSend env.lib w slot response).2 ∧
        (serializeAndSend env.lib w slot response).2.foldl Errand.record .settled = .settled :=
    fun slot response => accepts_idle fun e he =>
      idle_of_plain (plain_serializeAndSend env.lib w slot response e he)
  simp only [Errand.StandsAt, hf] at h
  simp only [slotEffect, hf]
  cases outcome with
  | none =>
    obtain ⟨request, rfl, hnone, rfl⟩ := h
    obtain ⟨haccepts, hsettled⟩ := hidle _ _
    exact ⟨⟨⟨hnone, status_unrouted request⟩, haccepts⟩, hsettled⟩
  | some outcome =>
    obtain rfl := h
    cases outcome with
    | respond =>
      obtain ⟨haccepts, hsettled⟩ := hidle _ _
      exact ⟨⟨⟨rfl, rfl⟩, haccepts⟩, hsettled⟩
    | defer => exact ⟨⟨rfl, trivial⟩, rfl⟩
    | close =>
      simp only [SlotView.leave, concludeRequest, slotClose_events, finalizerCall]
      split_ifs
      · exact ⟨⟨rfl, rfl, trivial⟩, rfl⟩
      · exact ⟨⟨rfl, trivial⟩, rfl⟩

/-- Every step moves the errand of a request as the table says. -/
theorem slotStep_errand {a : SlotAction} (hi : v.Inv) (h : Errand.StandsAt env errand v)
    (hstep : slotStep env v a = some (v', es)) :
    (Errand.routing env).AcceptsFrom errand es ∧
      Errand.StandsAt env (es.foldl Errand.record errand) v' := by
  obtain ⟨hmove, -⟩ := slotStep_move env hi hstep
  unfold slotStep at hstep
  split_ifs at hstep with hen
  rw [Option.some.injEq] at hstep
  obtain rfl : (slotEffect env v a).1 = v' := congrArg Prod.fst hstep
  obtain rfl : (slotEffect env v a).2 = es := congrArg Prod.snd hstep
  by_cases ha : a.onErrand = true
  · cases a with
    | route =>
      have hf : v.focus = .route := of_decide_eq_true hen
      obtain rfl := (standsAt_settled (by simp [hf, Focus.Dispatched])).mp h
      exact errand_route env v
    | defer =>
      cases hf : v.focus with
      | handling route m =>
        have hstands := h
        simp only [Errand.StandsAt, hf] at hstands
        obtain ⟨request, rfl, hfirst⟩ := hstands
        exact ⟨⟨⟨route, hfirst⟩, trivial⟩, h⟩
      | _ => simp [SlotView.enabled, hf] at hen
    | handler outcome response =>
      cases hf : v.focus with
      | handling route m =>
        simp only [Errand.StandsAt, hf] at h
        obtain ⟨request, rfl, hfirst⟩ := h
        simp only [slotEffect, handlerReturned, hf]
        exact ⟨⟨hfirst, trivial⟩, rfl⟩
      | _ => simp [SlotView.enabled, hf] at hen
    | conclude w =>
      cases hf : v.focus with
      | returned outcome m r => exact errand_conclude hf h
      | _ => simp [SlotView.enabled, hf] at hen
    | post k p =>
      simp only [slotEffect]
      split
      · exact ⟨trivial, h⟩
      · exact ⟨⟨by cases errand <;> trivial, trivial⟩, by cases errand <;> exact h⟩
    | _ => cases ha
  · have hclear : a.onErrand = false := by simpa using ha
    have hidle : ∀ e ∈ (slotEffect env v a).2, e.Idle env :=
      fun e he => idle_of_source hclear (slotEffect_source env v a e he)
    have hf := not_dispatched_of_enabled hclear hen
    obtain rfl := (standsAt_settled hf).mp h
    obtain ⟨haccepts, hsettled⟩ := accepts_idle hidle
    exact ⟨haccepts, (standsAt_settled (hmove.not_dispatched hidle hf)).mpr hsettled⟩

/-! ## Runs -/

theorem routing_of_slot {log : List SlotEvent} (run : Run (slotMachine env) log v) :
    (Errand.routing env).Accepts log := by
  refine (run.accepts (Errand.routing env) (Errand.StandsAt env) ?_ ?_).1
  · rintro v ⟨hf, -⟩
    exact (standsAt_settled (by simp [hf, Focus.Dispatched])).mpr rfl
  · rintro log v a v' es run h hstep
    exact slotStep_errand (slotRun_inv run) h hstep

/-- A request is answered 413 only if it does not fit in the receive buffer. -/
theorem tooLarge_of_run {slotCount : Nat} {log : List ServerEvent} {s : System}
    (run : Run (serverMachine env slotCount) log s) (i : Nat) {before rest : List SlotEvent}
    {response : HttpResponse} (hlog : slotLog i log = before ++ .answered .refused response :: rest)
    (hcode : response.code = HTTP_CODE_413) :
    (before.foldl Pipeline.record .start).TooLarge env.lib (s.slots i).slot.recvBufferSize := by
  obtain ⟨haccepts, -, -⟩ := pipelining_of_run (slotRun_of_run env slotCount run i)
  rw [hlog, Monitor.accepts_append] at haccepts
  obtain ⟨-, ⟨-, hother⟩ | ⟨-, -, -, hlarge⟩, -⟩ := haccepts
  · exact absurd hcode (hother rfl)
  · exact hlarge

/-- **What is registered is what is called.** A server that has been set up has the routes it was
asked for, in order, as far as there is room. In each of its runs, whatever other connections,
workers and deadlines do, a request goes to the first of them that serves it; what the handler
returns is answered, parked or hung up on, before anything else happens on the connection; and the
server refuses exactly those of the requests that come to be routed that no route serves. Between
two requests it answers 413 only, and only if the next one is not complete within the receive
buffer. -/
theorem routing_of_run (spanRegexCompile : Span → Bool) {primitives : Bool}
    {config : Option HttpServerConfig} {storage : HttpServerStorage} (hsound : storage.Sound)
    {server : HttpServer} (hinit : httpServerInit primitives config (some storage) = .ok server)
    (calls : List RouteCall) (lib : CommonLib) (spanRegexMatch : Span → Span → Bool) :
    let ready := (server.addRoutes spanRegexCompile calls).2
    let env := ready.env lib spanRegexMatch
    (∀ listenSd, (ready.system listenSd).Initial) ∧
      env.routes = (calls.filterMap (·.route spanRegexCompile)).take server.routeCapacity ∧
      ∀ log s, Run (serverMachine env ready.slotCount) log s → ∀ i,
        (Errand.routing env).Accepts (slotLog i log) ∧
          ∀ before response rest, slotLog i log = before ++ .answered .refused response :: rest →
            response.code = HTTP_CODE_413 →
              (before.foldl Pipeline.record .start).TooLarge env.lib
                (s.slots i).slot.recvBufferSize := by
  obtain ⟨hinitial, -, hroutes⟩ := setup_of_calls spanRegexCompile hsound hinit calls
  refine ⟨hinitial, hroutes, fun log s run i => ⟨?_, fun before response rest => ?_⟩⟩
  · exact routing_of_slot (slotRun_of_run _ _ run i)
  · exact tooLarge_of_run run i

/-- Four registrations: the first one without a handler, the next two of one pattern. -/
def fourCalls : List RouteCall :=
  [⟨.lit "GET", .lit "/", none, 0⟩, ⟨.lit "GET", .lit "/", some 1, 0⟩,
    ⟨.lit "GET", .lit "/", some 2, 0⟩, ⟨.lit "PUT", .lit "/", some 3, 0⟩]

/-- A microcontroller after `http_server_init`. -/
def microServer : HttpServer where
  slots i :=
    if i < 4 then slotInit (staticSlot (1000 + i * 1024) 1024 1024 (9000 + i * 32))
    else staticSlot (1000 + i * 1024) 1024 1024 (9000 + i * 32)
  slotCount := 4
  routeCapacity := 8
  routes := []
  pendingTimeoutMs := 30000
  idleTimeoutMs := 30000
  state := .initialized

theorem microServer_init : httpServerInit true (some ⟨0, 0⟩)
    (some (httpServerStorageGetForMicrocontroller 1000 9000)) = .ok microServer := rfl

/-- Its server after the four calls. -/
def microReady : HttpServer := (microServer.addRoutes (fun _ => true) fourCalls).2

def microEnv : ServerEnv := microReady.env .reference fun _ _ => true

/-- It calls the first of the two routes. -/
theorem routing_of_run_first :
    let log := (serverMachine microEnv microReady.slotCount).log (microReady.system (-1))
      (connecting ++ requesting ++ parking)
    microReady.routes.map (·.handler) = [1, 2, 3] ∧
      .handled 0 .defer .zero ∈ slotLog 0 log ∧
      (Errand.routing microEnv).Accepts (slotLog 0 log) := by
  obtain ⟨hinitial, -, haccepts⟩ := routing_of_run (fun _ => true)
    (httpServerStorageGetForMicrocontroller_sound 1000 9000) microServer_init fourCalls .reference
    fun _ _ => true
  obtain ⟨s, -, run⟩ := run_of_execute (M := serverMachine microEnv microReady.slotCount)
    (connecting ++ requesting ++ parking) (hinitial (-1)) (by decide +kernel)
  exact ⟨by decide +kernel, by decide +kernel, (haccepts _ _ run 0).1⟩

end HttpC
