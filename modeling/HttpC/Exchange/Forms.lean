import HttpC.Exchange.Requests
import HttpC.MultipartParts
import HttpC.Query
import HttpC.Server.Answers

/-!
# The forms of a client

A client puts a form into the query of a request, or part by part into its body. The server hands
the request to the routing step as it was sent, in whatever pieces it came, and a handler that uses
the readers of the library gets the form back.

## Main results

* `same_of_delivered` — what is dispatched answers like what was sent.
* `HttpRequest.Asks.find` and `HttpRequest.Uploads.delivers_iff` — a form is read back.
* `forms_of_run` — in every run of the server the handlers read the forms that were sent.
-/

namespace HttpC

open Transition Framing

variable {lib : CommonLib}

/-! ## Forms -/

/-- The form of a request is in its query, behind the path. -/
def HttpRequest.Asks (request : HttpRequest) (pairs : List QueryPair) : Prop :=
  ∃ path, 63 ∉ path ∧ request.path.bytes = path ++ 63 :: encodeQuery pairs

/-- The answer to a question for a parameter: its value in the destination, if there is room. -/
def parameterAnswer (pairs : List QueryPair) (name dest : Span) : Except Result Span :=
  match pairs.find? (·.name = name.bytes) with
  | none => .error .notFound
  | some pair =>
    if pair.value.length ≤ dest.size then .ok ⟨dest.ptr, pair.value⟩ else .error .insufficientSize

/-- The form of a request is in its body, part by part. -/
structure HttpRequest.Uploads (lib : CommonLib) (request : HttpRequest) (boundary : Bytes)
    (parts : List Part) : Prop where
  isBoundary : IsBoundary boundary
  announced : ∃ header, answer lib request.headers CONTENT_TYPE = .ok header ∧
    Announces header boundary
  wellFormed : ∀ p ∈ parts, p.WellFormed
  body : request.body.bytes = encodeParts boundary parts

/-- A handler that goes through the body with the announced boundary is given these parts. -/
def HttpRequest.Delivers (lib : CommonLib) (request : HttpRequest) (parts : List Part) : Prop :=
  ∃ header, httpHeadersFind lib request.headers CONTENT_TYPE = .ok header ∧
    ∀ out, Iterates lib out header request.body parts

section

variable {request sent : HttpRequest}

/-- The lookup of a parameter finds the first pair of that name. -/
theorem HttpRequest.Asks.find {pairs : List QueryPair} (h : request.Asks pairs) (name : Span) :
    (httpQueryFind lib request.path name).map Span.bytes =
      ((pairs.find? (·.name = name.bytes)).map QueryPair.encoded).elim (.error .notFound) .ok := by
  obtain ⟨path, hpath, hraw⟩ := h
  have hpairs : queryPairs (locateQuery lib request.path).bytes =
      pairs.map fun p => (p.name, p.encoded) := by
    rw [locateQuery_bytes lib hraw hpath, queryPairs_encodeQuery]
  rw [httpQueryFind_bytes, hpairs, List.find?_map]
  simp only [Function.comp_def]
  cases pairs.find? (fun p => decide (p.name = name.bytes)) <;> rfl

/-- A parameter is read back, decoded. -/
theorem HttpRequest.Asks.findDecoded {pairs : List QueryPair} (h : request.Asks pairs)
    (name dest : Span) : (httpQueryFindDecoded lib request.path name dest).1 =
      parameterAnswer pairs name dest := by
  have hfind := @HttpRequest.Asks.find lib request pairs h name
  unfold parameterAnswer
  cases hraw : httpQueryFind lib request.path name with
  | error r =>
    rw [hraw] at hfind
    cases hpair : pairs.find? (fun p => decide (p.name = name.bytes)) with
    | none =>
      rw [hpair] at hfind
      obtain rfl := Except.error.inj hfind
      simp only [httpQueryFindDecoded, hraw]
    | some pair =>
      rw [hpair] at hfind
      cases hfind
  | ok raw =>
    rw [hraw] at hfind
    cases hpair : pairs.find? (fun p => decide (p.name = name.bytes)) with
    | none =>
      rw [hpair] at hfind
      cases hfind
    | some pair =>
      rw [hpair] at hfind
      have hvalue : raw.bytes = pair.encoded := Except.ok.inj hfind
      obtain ⟨hfits, hfull⟩ :=
        httpQueryFindDecoded_found lib hraw (hvalue ▸ pair.encodes) dest
      dsimp only
      split_ifs with hroom
      · exact hfits hroom
      · exact hfull (Nat.not_le.mp hroom)

/-- The parts come back, if in the data of none of them a pair of dashes is found that the boundary
follows. -/
theorem HttpRequest.Uploads.delivers_iff {boundary : Bytes} {parts : List Part}
    (h : request.Uploads lib boundary parts) (hsize : request.body.size < 2 ^ 31) :
    request.Delivers lib parts ↔ ∀ p ∈ parts, dashScan boundary p.data = none := by
  obtain ⟨text, hanswer, hannounces⟩ := h.announced
  obtain ⟨header, hfind, rfl⟩ : ∃ header, httpHeadersFind lib request.headers CONTENT_TYPE =
      .ok header ∧ header.bytes = text := by
    rw [answer] at hanswer
    cases hfind : httpHeadersFind lib request.headers CONTENT_TYPE with
    | error r => rw [hfind] at hanswer; cases hanswer
    | ok header =>
      rw [hfind] at hanswer
      exact ⟨header, rfl, Except.ok.inj hanswer⟩
  obtain ⟨b, hb, hinit⟩ := mpIteratorInit_eq lib request.body hannounces h.isBoundary.nonempty
    h.isBoundary.quote h.isBoundary.semicolon
  have hyields : ∀ out, Yields lib out ⟨b, request.body, false⟩ parts ↔
      ∀ p ∈ parts, dashScan boundary p.data = none := by
    intro out
    have hiff := @yields_iff lib ⟨b, request.body, false⟩ out parts
      (by rw [hb]; exact h.isBoundary.cr) rfl h.wellFormed (by rw [hb]; exact h.body)
      (show request.body.size < 2 ^ 32 by omega)
    rw [hb] at hiff
    rw [hiff]
    refine forall₂_congr fun p hp => and_iff_left ?_
    rw [Span.size, h.body] at hsize
    exact Nat.lt_trans (start_lt_of_mem hp) hsize
  constructor
  · rintro ⟨header', hfind', hall⟩
    obtain rfl := Except.ok.inj (hfind.symm.trans hfind')
    obtain ⟨it, hsame, hit⟩ := hall ⟨.empty, .empty, .empty, .empty⟩
    obtain rfl := (Prod.mk.inj (hinit.symm.trans hsame)).2
    exact (hyields _).mp hit
  · intro hclear
    exact ⟨header, hfind, fun out => ⟨_, hinit, (hyields out).mpr hclear⟩⟩

/-! ## What is dispatched -/

/-- A form that was sent is the form that is there. -/
theorem HttpRequest.Asks.of_same {pairs : List QueryPair} (h : sent.Asks pairs)
    (hsame : SameRequest lib request sent) : request.Asks pairs := by
  obtain ⟨path, hpath, hraw⟩ := h
  exact ⟨path, hpath, hsame.2.1.trans hraw⟩

theorem HttpRequest.Uploads.of_same {boundary : Bytes} {parts : List Part}
    (h : sent.Uploads lib boundary parts) (hsame : SameRequest lib request sent) :
    request.Uploads lib boundary parts := by
  obtain ⟨-, -, -, hanswer, hbody⟩ := hsame
  refine ⟨h.isBoundary, ?_, h.wellFormed, hbody.trans h.body⟩
  rw [hanswer]
  exact h.announced

/-- The positions in the body of a request that was sent are `int`s. -/
theorem body_size_lt (h : Sendable lib sent) (hsame : SameRequest lib request sent) :
    request.body.size < 2 ^ 31 := by
  obtain ⟨fields, hbuilt, -⟩ := h.fields
  obtain ⟨-, -, -, -, hbody⟩ := hsame
  have hsize := h.size
  rw [serializedRequest_eq hbuilt, List.length_append] at hsize
  rw [Span.size, hbody]
  omega

/-- A request with the content of one that was sent answers like it. -/
theorem same_of_delivered (h : Sendable lib sent) (hcontent : request.content = sent.delivered)
    (hused : request.headers.usedSize ≤ request.headers.buffer.size) :
    SameRequest lib request sent := by
  obtain ⟨fields, hbuilt, -⟩ := h.fields
  have hwf := hbuilt.wellFormed h.method h.path h.version
  obtain ⟨-, hblock⟩ := hbuilt.block
  simp only [HttpRequest.delivered, HttpRequest.content, RequestContent.mk.injEq] at hcontent
  obtain ⟨hmethod, hpath, hversion, hheaders, hbody⟩ := hcontent
  refine ⟨hmethod, hpath, hversion, fun name => ?_, hbody⟩
  rw [hbuilt.answer_lookup, answer]
  split_ifs with hempty
  · simp [httpHeadersFind, hempty, Except.map]
  · rw [httpHeadersFind_block lib hused (Span.isEmpty_eq_false_iff.mp (by simpa using hempty)),
      hheaders, hblock]
    exact congrArg (Option.elim · _ _) (lookup_headBlock hwf name.bytes)

end

/-- The headers of a request that has been parsed lie in their buffer. -/
theorem Fed.usedSize_le {s : Span} {p : HttpRequestParser} (h : Fed lib s p)
    (hp : p.state = .complete) :
    p.request.headers.usedSize ≤ p.request.headers.buffer.size := by
  cases h with
  | missing hs hfresh => rcases hfresh with rfl | rfl <;> cases hp
  | refused hs herror => cases herror.symm.trans hp
  | waiting hs => cases hp
  | complete hs => exact usedSize_httpHeadersParse_le _

/-- The headers of every request that is dispatched lie in their buffer. -/
theorem usedSize_of_run {env : ServerEnv} {log : List SlotEvent} {v : SlotView}
    (run : Run (slotMachine env) log v) : ∀ request, .dispatched request ∈ log →
      request.headers.usedSize ≤ request.headers.buffer.size := by
  refine run.invariant (I := fun log _ => ∀ request, SlotEvent.dispatched request ∈ log →
    request.headers.usedSize ≤ request.headers.buffer.size) (fun _ _ => by simp) ?_
  intro log v a v' es run hall hstep request hmem
  rcases List.mem_append.mp hmem with hmem | hmem
  · exact hall request hmem
  · simp only [slotMachine, slotStep] at hstep
    split_ifs at hstep with hen
    obtain ⟨rfl, rfl⟩ := Prod.mk.inj (Option.some.inj hstep)
    cases slotEffect_source env v a _ hmem with
    | plain he => exact absurd he id
    | dispatched =>
      have hf : v.focus = .route := of_decide_eq_true hen
      obtain ⟨hu, hs⟩ := (slotRun_inv run).kernel.route hf
      have hphase : v.inbox.phase = .routing := v.phase_eq hu rfl hf
      obtain ⟨-, hfollows, -⟩ := pipelining_of_run run
      simp only [Pipeline.Follows, hphase] at hfollows
      obtain ⟨-, ⟨hfed, hcomplete⟩, -⟩ := hfollows
      exact hfed.usedSize_le hcomplete

/-! ## Runs -/

/-- **A handler reads the form that was sent.** In every run of the server, whatever the splits, the
pipelining, the other connections and the deferrals: the request that is dispatched answers like
the one the client sent in this place. A parameter of the query is given to the handler with the
value that was encoded, and an upload part by part, unless in the data of a part, taken in pairs of
dashes from left to right, the boundary follows a pair. -/
theorem forms_of_run {env : ServerEnv} {slotCount : Nat} {log : List ServerEvent} {s : System}
    (run : Run (serverMachine env slotCount) log s) (i : Nat) {requests : List HttpRequest}
    (hsendable : ∀ r ∈ requests, Sendable env.lib r) {before rest : List SlotEvent}
    {request : HttpRequest} (hlog : slotLog i log = before ++ .dispatched request :: rest)
    (hs : (before.foldl Pipeline.record .start).received <+: requestStream env.lib requests) :
    ∃ sent, requests[(before.foldl Pipeline.record .start).dispatched.length]? = some sent ∧
      SameRequest env.lib request sent ∧
      (∀ pairs, sent.Asks pairs → ∀ name dest,
        (httpQueryFindDecoded env.lib request.path name dest).1 =
          parameterAnswer pairs name dest) ∧
      ∀ boundary parts, sent.Uploads env.lib boundary parts →
        (request.Delivers env.lib parts ↔ ∀ p ∈ parts, dashScan boundary p.data = none) := by
  have hslot := slotRun_of_run env slotCount run i
  obtain ⟨hacc, -, -⟩ := pipelining_of_run hslot
  have hfit := Pipeline.fitting_of_run hslot
  have hused := usedSize_of_run hslot request (by rw [hlog]; simp)
  rw [hlog, ← List.singleton_append, ← List.append_assoc, Monitor.accepts_append] at hacc hfit
  have hdelivered := Pipeline.dispatched_delivered hacc.1 hfit.1 hsendable
    (by rwa [List.foldl_append])
  rw [List.foldl_append] at hdelivered
  have hlast := List.prefix_iff_getElem?.mp hdelivered
    (before.foldl Pipeline.record .start).dispatched.length
    (by simp [Pipeline.record])
  rw [List.getElem?_map] at hlast
  obtain ⟨sent, hsent, hcontent⟩ := Option.map_eq_some_iff.mp (hlast.trans (congrArg some
    (List.getElem_concat_length rfl _)))
  have hsame := same_of_delivered (hsendable sent (List.mem_of_getElem? hsent)) hcontent.symm hused
  exact ⟨sent, hsent, hsame, fun pairs hasks => (hasks.of_same hsame).findDecoded,
    fun boundary parts huploads => (huploads.of_same hsame).delivers_iff
      (body_size_lt (hsendable sent (List.mem_of_getElem? hsent)) hsame)⟩

/-- A parameter. -/
def formPairs : List QueryPair :=
  [.ofBytes (ascii "q") (ascii "x y&z") (by decide) (List.all_eq_true.mp (by decide))]

/-- A part that comes close to its boundary. -/
def formParts : List Part :=
  [⟨[⟨ascii "Content-Disposition", ascii " ", ascii "form-data; name=a"⟩], ascii "--x\r\n"⟩]

def formFields : List (Span × Span) :=
  [(.lit "Content-Type", .lit "multipart/form-data; boundary=xy"),
    (.lit "Content-Length", .lit "61")]

/-- A request with both. -/
def formRequest : HttpRequest :=
  { HttpRequest.zero with
    method := .lit "GET", path := ⟨3000, ascii "/?" ++ encodeQuery formPairs⟩,
    httpVersion := HTTP_VERSION_1_1,
    headers := (addFields .reference (httpHeadersInit ⟨4000, List.replicate 80 0⟩) formFields).2,
    body := ⟨5000, encodeParts (ascii "xy") formParts⟩ }

theorem formRequest_sendable : Sendable .reference formRequest where
  fields := ⟨formFields, ⟨⟨⟨4000, List.replicate 80 0⟩, by decide +kernel⟩, by decide +kernel⟩,
    ⟨by decide +kernel, by decide +kernel, by decide +kernel, by decide +kernel⟩⟩
  method := ⟨by decide +kernel, by decide +kernel⟩
  path := ⟨by decide +kernel, by decide +kernel⟩
  version := by decide +kernel
  size := by decide +kernel

/-- The small server with more room for a request. -/
def formSystem : System :=
  { smallSystem with
    slots _ := ⟨slotInit { smallSlot with
      recvBuffer := List.replicate 160 0, recvBufferSize := 160 }, .away, []⟩ }

theorem formSystem_initial : formSystem.Initial :=
  ⟨fun _ => ⟨rfl, rfl, _, ⟨rfl, by decide, rfl, by decide, rfl⟩, rfl⟩, rfl, rfl, rfl, rfl⟩

/-- The request comes in two pieces. -/
def uploading : List ServerAction :=
  connecting ++ atSlot0
    [.event false, .read calm (.ok ((serializedRequest .reference formRequest).take 100)),
      .read calm (.ok ((serializedRequest .reference formRequest).drop 100)), .route]

/-- The request that is dispatched. -/
def uploadedRequest : HttpRequest :=
  (httpRequestParserFeed .reference httpRequestParserInit
    ⟨1000, serializedRequest .reference formRequest⟩).2.request

/-- The handler is given the parameter and the part. -/
theorem forms_of_run_upload :
    let log := slotLog 0 ((serverMachine smallServer 1).log formSystem uploading)
    log = log.dropLast ++ [.dispatched uploadedRequest] ∧
      (httpQueryFindDecoded .reference uploadedRequest.path (.lit "q")
        ⟨2000, List.replicate 5 0⟩).1 = .ok ⟨2000, ascii "x y&z"⟩ ∧
      uploadedRequest.Delivers .reference formParts := by
  intro log
  obtain ⟨s, -, run⟩ := run_of_execute (M := serverMachine smallServer 1) uploading
    formSystem_initial (by decide +kernel)
  have hlog : log = log.dropLast ++ [.dispatched uploadedRequest] := by decide +kernel
  obtain ⟨sent, hsent, -, hquery, hupload⟩ := @forms_of_run smallServer 1 _ s run 0 [formRequest]
    (List.forall_mem_singleton.mpr formRequest_sendable) _ _ _ hlog (by decide +kernel)
  have hcount : (log.dropLast.foldl Pipeline.record .start).dispatched.length = 0 := by
    decide +kernel
  rw [hcount] at hsent
  obtain rfl : formRequest = sent := Option.some.inj hsent
  refine ⟨hlog, hquery formPairs ⟨ascii "/", by decide, rfl⟩ _ _, ?_⟩
  refine (hupload (ascii "xy") formParts ⟨⟨by decide, by decide, by decide, by decide, by decide,
    by decide⟩, ⟨ascii "multipart/form-data; boundary=xy", by decide +kernel, ?_⟩,
    by decide +kernel, rfl⟩).mpr (by decide +kernel)
  exact ⟨ascii "multipart/form-data", ascii "xy", by decide +kernel, by decide +kernel,
    by decide +kernel, .inl rfl⟩

end HttpC
