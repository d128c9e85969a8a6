import HttpC.Serializing
import HttpC.Server.System

/-!
# A complete request

What the loop thread does with a request that the parser has accepted: it asks whether the client
wants to close, looks for the route, calls its handler or refuses the request. The route loop tests
the path of a route only if the route has the method of the request.

## Main results

* `routeLoop_found`, `routeLoop_none` — the route loop is a search for the first route that serves
  the request.
* `runHandlerAndSerialize_dispatch` — which handler is called, and what is answered otherwise.
* `clientWantsClose_iff` — when a `close` in a Connection field is honoured.
-/

namespace HttpC

/-! ## The model -/

/-- `http_server_add_route` with storage for `capacity` routes; a null handler is `none`. -/
def httpServerAddRoute (spanRegexCompile : Span → Bool) (capacity : Nat) (routes : List Route)
    (method path : Span) (handler : Option Nat) (userContext : Nat) : Result × List Route :=
  match handler with
  | none => (.invalidArgument, routes)
  | some handler =>
    if method.isEmpty ∨ path.isEmpty then (.invalidArgument, routes)
    else if routes.length = capacity then (.insufficientSize, routes)
    else if spanRegexCompile path then (.ok, routes ++ [⟨method, path, handler, userContext⟩])
    else (.error, routes)

section

variable (env : ServerEnv)

/-- `run_handler_and_serialize` in one piece: the route loop, the handler of the route that was
found, and what follows. `handlers` is what the handler of a route makes of a request. -/
def runHandlerAndSerialize (w : Platform)
    (handlers : Nat → HttpRequest → HandlerOutcome × HttpResponse) (v : SlotView) :
    SlotView × List SlotEvent :=
  let (v, dispatched) := slotEffect env v .route
  let (v, handled) :=
    match v.focus with
    | .handling route _ =>
      let (outcome, response) := handlers route v.slot.parser.request
      slotEffect env v (.handler outcome response)
    | _ => (v, [])
  let (v, concluded) := slotEffect env v (.conclude w)
  (v, dispatched ++ (handled ++ concluded))

/-- The routes whose handlers were called. -/
def invoked (es : List SlotEvent) : List Nat :=
  es.filterMap fun
    | .handled route _ _ => some route
    | _ => none

/-- What the server answered on its own behalf. -/
def refusals (es : List SlotEvent) : List HttpResponse :=
  es.filterMap fun
    | .answered .refused response => some response
    | _ => none

/-- The route has the method of the request, and its pattern matches the path. -/
def Serves (request : HttpRequest) (route : Route) : Prop :=
  route.method.bytes = request.method.bytes ∧ env.spanRegexMatch route.path request.path = true

instance (request : HttpRequest) : DecidablePred (Serves env request) :=
  fun _ => inferInstanceAs (Decidable (_ ∧ _))

/-- The first route that serves the request is the one with this number. -/
def FirstServing (request : HttpRequest) (i : Nat) : Prop :=
  (∃ route, env.routes[i]? = some route ∧ Serves env request route) ∧
    ∀ j < i, ∀ route, env.routes[j]? = some route → ¬ Serves env request route

end

/-! ## The route loop -/

section

variable {env : ServerEnv} {request : HttpRequest}

/-- One pass of the route loop. -/
theorem routeLoop_cons (route : Route) (routes : List Route) (i : Nat) (methodMatched : Bool) :
    routeLoop env request i (route :: routes) methodMatched =
      if Serves env request route then (true, some i)
      else routeLoop env request (i + 1) routes
        (methodMatched || route.method.bytes = request.method.bytes) := by
  rw [routeLoop]
  by_cases hmethod : route.method.bytes = request.method.bytes
  · have hcompare := (env.lib.spanCompare_eq route.method request.method).mpr hmethod
    simp [Serves, hcompare, hmethod]
  · have hcompare := mt (env.lib.spanCompare_eq route.method request.method).mp hmethod
    simp [Serves, hcompare, hmethod]

theorem routeLoop_found {routes : List Route} {k : Nat}
    (h : routes.findIdx? (Serves env request ·) = some k) (i : Nat) (methodMatched : Bool) :
    routeLoop env request i routes methodMatched = (true, some (i + k)) := by
  induction routes generalizing i k methodMatched with
  | nil => cases h
  | cons route routes ih =>
    rw [List.findIdx?_cons] at h
    rw [routeLoop_cons]
    by_cases hserves : Serves env request route
    · obtain rfl : 0 = k := by simpa [hserves] using h
      rw [if_pos hserves, Nat.add_zero]
    · rw [if_neg (by simpa using hserves)] at h
      obtain ⟨k, hk, rfl⟩ := Option.map_eq_some_iff.mp h
      rw [if_neg hserves, ih hk, Nat.add_assoc, Nat.add_comm 1]

theorem routeLoop_none {routes : List Route}
    (h : routes.findIdx? (Serves env request ·) = none) (i : Nat) (methodMatched : Bool) :
    routeLoop env request i routes methodMatched =
      (methodMatched || routes.any (·.method.bytes = request.method.bytes), none) := by
  induction routes generalizing i methodMatched with
  | nil => simp [routeLoop]
  | cons route routes ih =>
    rw [List.findIdx?_cons] at h
    by_cases hserves : Serves env request route
    · simp [hserves] at h
    · rw [if_neg (by simpa using hserves), Option.map_eq_none_iff] at h
      rw [routeLoop_cons, if_neg hserves, ih h, List.any_cons, Bool.or_assoc]

theorem findIdx?_serves (k : Nat) :
    env.routes.findIdx? (Serves env request ·) = some k ↔ FirstServing env request k := by
  rw [List.findIdx?_eq_some_iff_getElem, FirstServing]
  constructor
  · rintro ⟨hk, hserves, hfirst⟩
    refine ⟨⟨_, List.getElem?_eq_getElem hk, by simpa using hserves⟩, fun j hj route hroute => ?_⟩
    obtain ⟨hlt, rfl⟩ := List.getElem?_eq_some_iff.mp hroute
    simpa using hfirst j hj
  · rintro ⟨⟨route, hroute, hserves⟩, hfirst⟩
    obtain ⟨hk, rfl⟩ := List.getElem?_eq_some_iff.mp hroute
    refine ⟨hk, by simpa using hserves, fun j hj => ?_⟩
    simpa using hfirst j hj _ (List.getElem?_eq_getElem (hj.trans hk))

/-! ## The whole call -/

variable {w : Platform}

/-- With a route that serves the request its handler is called. -/
theorem runHandlerAndSerialize_found {v : SlotView} {i : Nat}
    (hi : FirstServing env v.slot.parser.request i)
    (handlers : Nat → HttpRequest → HandlerOutcome × HttpResponse) :
    let request := v.slot.parser.request
    let (outcome, response) := handlers i request
    (runHandlerAndSerialize env w handlers v).2 =
      .dispatched request :: .handled i outcome response ::
        (concludeRequest env w v.slot (some outcome) true response).2 := by
  have hroute : slotEffect env v .route =
      ({ v with focus := .handling i true }, [.dispatched v.slot.parser.request]) := by
    rw [slotEffect, routeRequest, routeLoop_found ((findIdx?_serves i).mpr hi), Nat.zero_add]
  simp only [runHandlerAndSerialize, hroute]
  rfl

/-- Without one the request is refused. -/
theorem runHandlerAndSerialize_refused {v : SlotView}
    (hnone : ∀ i, ¬ FirstServing env v.slot.parser.request i)
    (handlers : Nat → HttpRequest → HandlerOutcome × HttpResponse) :
    let request := v.slot.parser.request
    let methodMatched := env.routes.any (·.method.bytes = request.method.bytes)
    (runHandlerAndSerialize env w handlers v).2 =
      .dispatched request :: (concludeRequest env w v.slot none methodMatched .zero).2 := by
  have hfind : env.routes.findIdx? (Serves env v.slot.parser.request ·) = none := by
    cases hcase : env.routes.findIdx? (Serves env v.slot.parser.request ·) with
    | none => rfl
    | some i => exact absurd ((findIdx?_serves i).mp hcase) (hnone i)
  have hroute : slotEffect env v .route =
      ({ v with focus := .returned none (env.routes.any fun route =>
          route.method.bytes = v.slot.parser.request.method.bytes) .zero },
        [.dispatched v.slot.parser.request]) := by
    rw [slotEffect, routeRequest, routeLoop_none hfind, Bool.false_or]
  simp only [runHandlerAndSerialize, hroute]
  rfl

/-- Nothing but a finalizer call and a release is logged by a close. -/
theorem slotClose_quiet (slot : Slot) :
    invoked (slotClose slot).2 = [] ∧ refusals (slotClose slot).2 = [] := by
  rw [slotClose_events]
  unfold finalizerCall
  split_ifs
  · exact ⟨rfl, rfl⟩
  · exact ⟨rfl, rfl⟩

theorem serializeAndSend_quiet (lib : CommonLib) (slot : Slot) (response : HttpResponse) :
    invoked (serializeAndSend lib w slot response).2 = [] ∧
      refusals (serializeAndSend lib w slot response).2 = [] := by
  obtain ⟨memory, hcase | ⟨used, hcase⟩⟩ := serializeAndSend_cases lib w slot response
  · rw [hcase]
    exact slotClose_quiet _
  · rw [hcase]
    exact ⟨rfl, rfl⟩

/-- Whatever a handler returns, no further handler is called and nothing is refused. -/
theorem concludeRequest_handled (slot : Slot) (outcome : HandlerOutcome) (methodMatched : Bool)
    (response : HttpResponse) :
    let events := (concludeRequest env w slot (some outcome) methodMatched response).2
    invoked events = [] ∧ refusals events = [] := by
  cases outcome with
  | close => exact slotClose_quiet slot
  | defer => exact ⟨rfl, rfl⟩
  | respond => exact serializeAndSend_quiet env.lib slot response

/-- The server's own responses have an empty body and say so. -/
theorem withDefaultHeaders_framed (lib : CommonLib) {slot : Slot}
    (hheaders : slot.defaultHeaders.size = 32) (response : HttpResponse) :
    (withDefaultHeaders lib slot response).2.headers.block = ascii "Content-Length: 0\r\n" := by
  have hused : (httpHeadersInit slot.defaultHeaders).usedSize ≤
      (httpHeadersInit slot.defaultHeaders).buffer.size := Nat.zero_le _
  have hfits : LineFits (httpHeadersInit slot.defaultHeaders) HTTP_HEADER_CONTENT_LENGTH
      HDR_VAL_ZERO := by
    have hsizes : 0 + HTTP_HEADER_CONTENT_LENGTH.size + HDR_VAL_ZERO.size + 4 ≤ 32 := by decide
    exact ⟨by decide, by decide, hsizes.trans_eq hheaders.symm⟩
  rcases httpHeadersAdd_cases lib hused HTTP_HEADER_CONTENT_LENGTH HDR_VAL_ZERO with
    ⟨-, headers, hadd, hextends⟩ | ⟨hnot, -⟩
  · rw [withDefaultHeaders, hadd]
    exact hextends.block
  · exact absurd hfits hnot

/-- A refusal is answered with the response of the server. -/
theorem concludeRequest_refused {slot : Slot} (hheaders : slot.defaultHeaders.size = 32)
    (methodMatched : Bool) :
    ∃ response events, (concludeRequest env w slot none methodMatched .zero).2 =
        .answered .refused response :: events ∧
      (invoked events = [] ∧ refusals events = []) ∧
      response.body.bytes = [] ∧ response.headers.block = ascii "Content-Length: 0\r\n" ∧
      (response.code, response.reasonPhrase) =
        if !methodMatched && env.routes.length > 0 then (HTTP_CODE_405, HTTP_REASON_PHRASE_405)
        else (HTTP_CODE_404, HTTP_REASON_PHRASE_404) := by
  have hframed := @withDefaultHeaders_framed env.lib slot hheaders
    (unroutedResponse env methodMatched)
  refine ⟨_, _, rfl, serializeAndSend_quiet _ _ _, ?_, hframed, ?_⟩
  · simp only [unroutedResponse]
    split_ifs <;> rfl
  · simp only [unroutedResponse]
    split_ifs <;> rfl

/-- One request through the route loop: the handler of the first route that serves it is called,
once, or the request is refused. The refusal is a 405 if the table has routes but none for the
method, and a 404 otherwise. -/
theorem runHandlerAndSerialize_dispatch (env : ServerEnv) (w : Platform)
    (handlers : Nat → HttpRequest → HandlerOutcome × HttpResponse) {v : SlotView}
    (hheaders : v.slot.defaultHeaders.size = 32) :
    let request := v.slot.parser.request
    let events := (runHandlerAndSerialize env w handlers v).2
    (∀ i, FirstServing env request i → invoked events = [i] ∧ refusals events = []) ∧
    ((∀ i, ¬ FirstServing env request i) → invoked events = [] ∧ ∃ response,
      refusals events = [response] ∧ response.body.bytes = [] ∧
      response.headers.block = ascii "Content-Length: 0\r\n" ∧
      ((env.routes ≠ [] ∧ ∀ route ∈ env.routes, route.method.bytes ≠ request.method.bytes) →
        response.code = HTTP_CODE_405 ∧ response.reasonPhrase = HTTP_REASON_PHRASE_405) ∧
      (¬ (env.routes ≠ [] ∧ ∀ route ∈ env.routes, route.method.bytes ≠ request.method.bytes) →
        response.code = HTTP_CODE_404 ∧ response.reasonPhrase = HTTP_REASON_PHRASE_404)) := by
  intro request events
  constructor
  · intro i hi
    obtain ⟨hinvoked, hrefusals⟩ := @concludeRequest_handled env w v.slot (handlers i request).1
      true (handlers i request).2
    rw [show events = _ from runHandlerAndSerialize_found hi handlers]
    exact ⟨congrArg (i :: ·) hinvoked, hrefusals⟩
  · intro hnone
    rw [show events = _ from runHandlerAndSerialize_refused hnone handlers]
    obtain ⟨response, es, hes, ⟨hinvoked, hrefusals⟩, hbody, hblock, hstatus⟩ :=
      @concludeRequest_refused env w v.slot hheaders
        (env.routes.any (·.method.bytes = request.method.bytes))
    have hcond : (!(env.routes.any (·.method.bytes = request.method.bytes)) &&
        decide (env.routes.length > 0)) = true ↔
        env.routes ≠ [] ∧ ∀ route ∈ env.routes, route.method.bytes ≠ request.method.bytes := by
      simp [List.length_pos_iff, and_comm]
    rw [hes]
    refine ⟨hinvoked, response, congrArg (response :: ·) hrefusals, hbody, hblock,
      fun h => ?_, fun h => ?_⟩
    · rw [if_pos (hcond.mpr h)] at hstatus
      exact Prod.mk.inj hstatus
    · rw [if_neg (mt hcond.mp h)] at hstatus
      exact Prod.mk.inj hstatus

/-- A server with two routes that match their paths literally. -/
def pageServer : ServerEnv :=
  { smallServer with
    spanRegexMatch := fun pattern path => pattern.bytes == path.bytes
    routes := [⟨.lit "GET", .lit "/a", 1, 0⟩, ⟨.lit "POST", .lit "/b", 2, 0⟩] }

/-- A slot with a complete request. -/
def requestView (method path : String) : SlotView :=
  ⟨{ smallSlot with
    parser := { httpRequestParserInit with
      state := .complete
      request := ⟨.lit method, .lit path, HTTP_VERSION_1_1, httpHeadersInit .empty, .empty⟩ } },
    .route, []⟩

/-- The second route is called if the first one has another method. -/
theorem runHandlerAndSerialize_dispatch_post :
    let events := (runHandlerAndSerialize pageServer calm (fun _ _ => (.respond, okResponse))
      (requestView "POST" "/b")).2
    invoked events = [1] ∧ refusals events = [] := by
  have hfirst : FirstServing pageServer (requestView "POST" "/b").slot.parser.request 1 := by
    refine ⟨⟨_, rfl, by decide, by decide⟩, fun j hj route hroute => ?_⟩
    obtain rfl := Nat.lt_one_iff.mp hj
    obtain rfl := Option.some.inj hroute
    decide
  exact (runHandlerAndSerialize_dispatch pageServer calm (fun _ _ => (.respond, okResponse))
    (v := requestView "POST" "/b") rfl).1 1 hfirst

/-- A path that only another method has is answered with 404 if the method has other routes. -/
theorem runHandlerAndSerialize_refuses_by_method :
    ¬ ∀ (env : ServerEnv) (w : Platform)
        (handlers : Nat → HttpRequest → HandlerOutcome × HttpResponse) (v : SlotView),
      v.slot.defaultHeaders.size = 32 → (∀ i, ¬ FirstServing env v.slot.parser.request i) →
        ∀ response ∈ refusals (runHandlerAndSerialize env w handlers v).2,
          ((∃ route ∈ env.routes, route.method.bytes ≠ v.slot.parser.request.method.bytes ∧
              env.spanRegexMatch route.path v.slot.parser.request.path = true) →
            response.code = HTTP_CODE_405) ∧
          ((∀ route ∈ env.routes,
              env.spanRegexMatch route.path v.slot.parser.request.path = false) →
            response.code = HTTP_CODE_404) := by
  intro h
  have hnone : ∀ i, ¬ FirstServing pageServer (requestView "POST" "/a").slot.parser.request i := by
    rintro i ⟨⟨route, hroute, hserves⟩, -⟩
    have hall : ∀ route ∈ pageServer.routes,
        ¬ Serves pageServer (requestView "POST" "/a").slot.parser.request route := by decide
    exact hall route (List.mem_of_getElem? hroute) hserves
  have hcode : (refusals (runHandlerAndSerialize pageServer calm
      (fun _ _ => (.respond, okResponse)) (requestView "POST" "/a")).2).map (·.code) =
      [HTTP_CODE_404] := by rfl
  obtain ⟨response, hresponse, hcode⟩ := List.map_eq_singleton_iff.mp hcode
  have hrefused := h pageServer calm (fun _ _ => (.respond, okResponse)) (requestView "POST" "/a")
    rfl hnone response (by rw [hresponse]; exact List.mem_singleton_self _)
  have hmethod := hrefused.1 ⟨_, List.mem_cons_self, by decide, by decide⟩
  rw [hcode] at hmethod
  exact absurd hmethod (by decide)

end

/-! ## Whether the client wants to close -/

/-- A list of options, with the blanks around them ignored, contains this one in any letter case. -/
def ListsOption (option value : Bytes) : Prop :=
  ∃ piece ∈ value.splitOn 44, lower (trimBlanks piece) = option

/-- Some Connection field of the request lists `close`. -/
def ListsClose (request : HttpRequest) : Prop :=
  ∃ line ∈ fieldLines request.headers.block, ∃ value,
    fieldValue HDR_CONNECTION.bytes line = some value ∧ ListsOption HDR_VAL_CLOSE.bytes value

section

variable {lib : CommonLib} {request : HttpRequest}

/-- The first Connection field is looked at, and compared whole. -/
theorem clientWantsClose_eq (hused : request.headers.usedSize ≤ request.headers.buffer.size) :
    clientWantsClose lib request = true ↔
      request.httpVersion.bytes ≠ HTTP_VERSION_1_1.bytes ∨
        ∃ value, lookup (fieldLines request.headers.block) HDR_CONNECTION.bytes = some value ∧
          lower value = HDR_VAL_CLOSE.bytes := by
  have hfind := httpHeadersFind_block lib hused (show HDR_CONNECTION.bytes ≠ [] by decide)
  have hversion := lib.spanCompare_eq request.httpVersion HTTP_VERSION_1_1
  unfold clientWantsClose
  cases hcase : httpHeadersFind lib request.headers HDR_CONNECTION with
  | error r =>
    rw [hcase] at hfind
    cases hlookup : lookup (fieldLines request.headers.block) HDR_CONNECTION.bytes with
    | none => simp [hversion]
    | some value => rw [hlookup] at hfind; cases hfind
  | ok found =>
    rw [hcase] at hfind
    cases hlookup : lookup (fieldLines request.headers.block) HDR_CONNECTION.bytes with
    | none => rw [hlookup] at hfind; cases hfind
    | some value =>
      rw [hlookup] at hfind
      obtain rfl : found.bytes = value := Except.ok.inj hfind
      have hvalue := lib.spanICompare_eq found HDR_VAL_CLOSE
      by_cases hclose : lower found.bytes = HDR_VAL_CLOSE.bytes
      · simp [hvalue.mpr (hclose.trans (by decide)), hclose]
      · have hne : lib.spanICompare found HDR_VAL_CLOSE ≠ 0 := fun heq =>
          hclose ((hvalue.mp heq).trans (by decide))
        simp [hne, hclose, hversion]

/-- No byte of the option is a comma or a blank, so the option is the whole list. -/
theorem listsOption_close {value : Bytes} (h : lower value = HDR_VAL_CLOSE.bytes) :
    ListsOption HDR_VAL_CLOSE.bytes value := by
  have hbyte : ∀ b ∈ value, b ≠ 44 ∧ isBlank b = false := by
    intro b hb
    have hmem : lowerByte b ∈ HDR_VAL_CLOSE.bytes := h ▸ List.mem_map_of_mem hb
    refine ⟨?_, ?_⟩
    · rintro rfl
      exact absurd hmem (by decide)
    · rw [isBlank, Bool.or_eq_false_iff, beq_eq_false_iff_ne, beq_eq_false_iff_ne]
      constructor
      · rintro rfl
        exact absurd hmem (by decide)
      · rintro rfl
        exact absurd hmem (by decide)
  have hkeep : ∀ {l : Bytes}, (∀ b ∈ l, isBlank b = false) → l.dropWhile isBlank = l := by
    intro l hl
    cases l with
    | nil => rfl
    | cons b l => rw [List.dropWhile_cons_of_neg (by simp [hl b List.mem_cons_self])]
  refine ⟨value, ?_, ?_⟩
  · rw [List.splitOn_eq_singleton fun hmem => (hbyte 44 hmem).1 rfl]
    exact List.mem_singleton_self _
  · rw [trimBlanks, hkeep fun b hb => (hbyte b hb).2,
      hkeep fun b hb => (hbyte b (List.mem_reverse.mp hb)).2, List.reverse_reverse, h]

/-- The answer is right exactly if the version asks for a close anyway, no Connection field lists
`close`, or the first one has nothing else to say. -/
theorem clientWantsClose_iff (lib : CommonLib) {request : HttpRequest} {raw : Span}
    (hparsed : request.headers = httpHeadersParse lib raw) :
    (clientWantsClose lib request = true ↔
      request.httpVersion.bytes ≠ HTTP_VERSION_1_1.bytes ∨ ListsClose request) ↔
    request.httpVersion.bytes ≠ HTTP_VERSION_1_1.bytes ∨ ¬ ListsClose request ∨
      ∃ value, lookup (fieldLines request.headers.block) HDR_CONNECTION.bytes = some value ∧
        lower value = HDR_VAL_CLOSE.bytes := by
  have hused : request.headers.usedSize ≤ request.headers.buffer.size := by
    rw [hparsed, buffer_httpHeadersParse]
    exact usedSize_httpHeadersParse_le raw
  have hfirst : (∃ value, lookup (fieldLines request.headers.block) HDR_CONNECTION.bytes =
      some value ∧ lower value = HDR_VAL_CLOSE.bytes) → ListsClose request := by
    rintro ⟨value, hlookup, hclose⟩
    obtain ⟨line, hline, hvalue⟩ := List.exists_of_findSome?_eq_some hlookup
    exact ⟨line, hline, value, hvalue, listsOption_close hclose⟩
  rw [clientWantsClose_eq hused]
  constructor
  · intro hright
    by_cases hlists : ListsClose request
    · rcases hright.mpr (.inr hlists) with hversion | hvalue
      · exact .inl hversion
      · exact .inr (.inr hvalue)
    · exact .inr (.inl hlists)
  · rintro (hversion | hnot | hvalue)
    · exact iff_of_true (.inl hversion) (.inl hversion)
    · exact ⟨fun h => h.imp_right hfirst, fun h => h.imp_right fun hlists => absurd hlists hnot⟩
    · exact iff_of_true (.inr hvalue) (.inr (hfirst hvalue))

/-- A request for a page with these field lines. -/
def pageRequest (fields : String) : HttpRequest :=
  ⟨.lit "GET", .lit "/", HTTP_VERSION_1_1, httpHeadersParse .reference ⟨1016, ascii fields⟩, .empty⟩

/-- Two Connection fields, the first of which asks for a close. -/
theorem clientWantsClose_iff_closing :
    let request := pageRequest "Connection: Close\r\nConnection: keep-alive\r\n\r\n"
    (clientWantsClose .reference request = true ↔
      request.httpVersion.bytes ≠ HTTP_VERSION_1_1.bytes ∨ ListsClose request) ↔
    request.httpVersion.bytes ≠ HTTP_VERSION_1_1.bytes ∨ ¬ ListsClose request ∨
      ∃ value, lookup (fieldLines request.headers.block) HDR_CONNECTION.bytes = some value ∧
        lower value = HDR_VAL_CLOSE.bytes :=
  @clientWantsClose_iff .reference
    (pageRequest "Connection: Close\r\nConnection: keep-alive\r\n\r\n") _ rfl

/-- A `close` behind another option is not seen. -/
theorem clientWantsClose_overlooks :
    ¬ ∀ (lib : CommonLib) (request : HttpRequest) (raw : Span),
      request.headers = httpHeadersParse lib raw →
        (clientWantsClose lib request = true ↔
          request.httpVersion.bytes ≠ HTTP_VERSION_1_1.bytes ∨ ListsClose request) := by
  intro h
  have hright := h .reference (pageRequest "Connection: keep-alive, close\r\n\r\n") _ rfl
  have hlists : ListsClose (pageRequest "Connection: keep-alive, close\r\n\r\n") :=
    ⟨ascii "Connection: keep-alive, close", by decide +kernel, ascii "keep-alive, close",
      by decide +kernel, ascii " close", by decide +kernel, by decide +kernel⟩
  have hoverlooked : clientWantsClose .reference
      (pageRequest "Connection: keep-alive, close\r\n\r\n") = false := by decide +kernel
  rw [hright.mpr (.inr hlists)] at hoverlooked
  cases hoverlooked

end

end HttpC
