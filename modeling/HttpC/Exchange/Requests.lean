import HttpC.Connection.SentMessages
import HttpC.Server.Pipelining

/-!
# The requests of a client

A client serialises its requests one behind the other. The server reads them back: what it hands to
the routing step is what was sent, as far as it has come, and each request was in the receive
buffer as a whole.

## Main results

* `sequentialParse_requestStream` — the sequential parse of what a client sends is what it sent.
* `fitting_of_run` — a request is dispatched only if it fits in the receive buffer.
* `Pipeline.TooLarge.more` — a client is refused as too large for a request behind those dispatched.
* `limit_of_run` — what is dispatched fits in the receive buffer, and what is refused does not.
-/

namespace HttpC

open Transition Framing

variable (lib : CommonLib)

/-! ## What a client sends -/

/-- A request as the server reads it: without a field line the blank line is kept as one. -/
def HttpRequest.delivered (request : HttpRequest) : RequestContent :=
  { request.content with headers := headBlock (request.headers.block ++ crlf.bytes) }

/-- The bytes of requests sent one behind the other. -/
def requestStream (requests : List HttpRequest) : Bytes :=
  requests.flatMap (serializedRequest lib)

section

variable {lib} {request : HttpRequest} {requests : List HttpRequest}

@[simp] theorem requestStream_nil : requestStream lib [] = [] := rfl

@[simp] theorem requestStream_cons (request : HttpRequest) (requests : List HttpRequest) :
    requestStream lib (request :: requests) =
      serializedRequest lib request ++ requestStream lib requests :=
  List.flatMap_cons

theorem requestStream_append (requests more : List HttpRequest) :
    requestStream lib (requests ++ more) = requestStream lib requests ++ requestStream lib more :=
  List.flatMap_append

/-- A request that was sent is the first of every stream that starts with it. -/
theorem Sendable.firstRequest (h : Sendable lib request) (rest : Bytes) :
    firstRequest lib (serializedRequest lib request ++ rest) =
      some ⟨request.delivered, (serializedRequest lib request).length⟩ := by
  obtain ⟨fields, hbuilt, hfields⟩ := h.fields
  have hsent := serializedRequest_eq hbuilt
  have hsize := h.size
  have hwf := hbuilt.wellFormed h.method h.path h.version
  set head := sentHead request.method request.path request.httpVersion fields with hhead
  have hte : lookup head.fields HTTP_HEADER_TRANSFER_ENCODING.bytes = none := by
    refine lookup_eq_none.mpr fun line hline => ?_
    obtain ⟨f, hf, rfl⟩ := List.mem_map.mp hline
    rw [fieldValue_fieldLine (hfields.names f hf), if_neg (hfields.noTransferEncoding f hf)]
  have hlength := congrArg List.length hsent
  rw [List.length_append] at hlength
  have hcl : declaredLength lib head.fields = some request.body.bytes.length :=
    hfields.declaredLength_eq (by rw [Span.size]; omega)
  have hblock : head.fieldBlock = request.headers.block := hbuilt.block.2.symm
  rw [hlength, hsent, List.append_assoc, firstRequest_sent hwf hte hcl rest, hblock]
  rfl

/-- The requests of a client's stream are those it sent. -/
theorem sequentialParse_requestStream (h : ∀ r ∈ requests, Sendable lib r) :
    sequentialParse lib (requestStream lib requests) =
      requests.map fun r => ⟨r.delivered, (serializedRequest lib r).length⟩ := by
  induction requests with
  | nil =>
    exact FrameParser.frames_of_none (requestFrames lib) rfl
  | cons r requests ih =>
    have hrest := ih fun q hq => h q (List.mem_cons_of_mem _ hq)
    have hfirst := (h r List.mem_cons_self).firstRequest (requestStream lib requests)
    rw [requestStream_cons, sequentialParse,
      FrameParser.frames_of_some (requestFrames lib) hfirst, List.drop_left, List.map_cons]
    exact congrArg _ hrest

/-- No length in a client's stream wraps. -/
theorem streamFits_requestStream (h : ∀ r ∈ requests, Sendable lib r) :
    StreamFits lib (requestStream lib requests) := by
  induction requests with
  | nil =>
    intro fs rest hc head hs
    cases fs with
    | nil =>
      obtain rfl : [] = rest := hc
      cases hs
    | cons f fs => cases hc.1
  | cons r requests ih =>
    have hfirst := (h r List.mem_cons_self).firstRequest (requestStream lib requests)
    intro fs rest hc
    cases fs with
    | nil =>
      obtain rfl : requestStream lib (r :: requests) = rest := hc
      intro head hs
      obtain ⟨head', hs', -, hframe⟩ := (firstRequest_eq_some lib).mp hfirst
      obtain rfl := HeadStatus.accepted.inj (hs.symm.trans hs')
      have hlength := congrArg Frame.length hframe
      have hsize := (h r List.mem_cons_self).size
      dsimp only at hlength
      omega
    | cons f fs =>
      obtain ⟨hf, hrest⟩ := hc
      obtain rfl := Option.some.inj (hf.symm.trans hfirst)
      rw [requestStream_cons, List.drop_left] at hrest
      exact ih (fun q hq => h q (List.mem_cons_of_mem _ hq)) fs rest hrest

end

/-! ## What the server makes of it -/

namespace Pipeline

/-- A request is dispatched only if it fits in the receive buffer. -/
def fitting (capacity : Nat) : Monitor Pipeline SlotEvent where
  start := start
  record := record
  Good l
    | .dispatched _ => ∀ stream, l.Sends lib stream →
      ∀ f, (sequentialParse lib stream)[l.dispatched.length]? = some f → f.length ≤ capacity
    | _ => True

section

variable {lib} {l : Pipeline} {b b' : Inbox} {es log : List SlotEvent} {capacity : Nat}

/-- A request that has arrived is in the buffer as a whole. -/
theorem Follows.fitting (h : l.Follows lib b) (hfits : b.held.size ≤ b.capacity) {e : SlotEvent}
    (he : b.Allows e) : (fitting lib b.capacity).Good l e := by
  cases e with
  | dispatched request =>
    obtain ⟨hb, rfl⟩ := he
    simp only [Follows, hb] at h
    obtain ⟨-, harrived, hfront⟩ := h
    intro stream hs f hf
    obtain ⟨fs, r, hd, hlength, hparse⟩ := hfront.sequentialParse_eq hs
    have hone := harrived.1.firstRequest_eq harrived.2 hlength
    have hfirst := (requestFrames lib).stable hone r
    have hnext : sequentialParse lib (b.held.bytes ++ r) = _ :=
      FrameParser.frames_of_some _ hfirst
    rw [hparse, hd, List.length_map, List.getElem?_append_right le_rfl, Nat.sub_self, hnext] at hf
    obtain rfl := Option.some.inj hf
    exact ((requestFrames lib).length_le hone).trans hfits
  | _ => trivial

end

end Pipeline

/-- A monitor that cares for what an inbox allows only. -/
theorem Intake.accepts {lib : CommonLib} {b b' : Inbox} {es : List SlotEvent} {μ : Type}
    (m : Monitor μ SlotEvent) {l : μ} (h : Intake lib b es b')
    (hgood : ∀ e, b.Allows e → m.Good l e)
    (hother : ∀ l e, e = .accepted ∨ e = .released ∨ e.Aside → m.Good l e) :
    m.AcceptsFrom l es := by
  have hclosing : ∀ (l : μ) (es : List SlotEvent), (∀ x ∈ es, x = .released ∨ x.Aside) →
      m.AcceptsFrom l es := by
    intro l es hes
    induction es generalizing l with
    | nil => trivial
    | cons e es ih =>
      exact ⟨hother l e (.inr (hes e List.mem_cons_self)),
        ih _ fun x hx => hes x (List.mem_cons_of_mem _ hx)⟩
  cases h with
  | stay he => exact hclosing l es fun x hx => .inr (he x hx)
  | accept hb => exact ⟨hother l _ (.inl rfl), trivial⟩
  | @release _ e es he hes hb hcap =>
    cases e with
    | none => exact hclosing l es hes
    | some e => exact ⟨hgood e (he e rfl), hclosing _ es hes⟩
  | shake hb => trivial
  | read hb hfeed hphase => exact ⟨hgood _ trivial, trivial⟩
  | dispatch hb => exact ⟨hgood _ ⟨hb, rfl⟩, trivial⟩
  | probe hb => exact ⟨hgood _ trivial, trivial⟩
  | answer hallow hclosing => exact ⟨hgood _ hallow, trivial⟩
  | finish hb hopen hfeed hphase => exact ⟨hgood _ hb, trivial⟩

namespace Pipeline

section

variable {lib} {env : ServerEnv} {log : List SlotEvent} {v : SlotView} {capacity : Nat}

/-- In every run, requests are dispatched only if they fit in the receive buffer. -/
theorem fitting_of_run (run : Run (slotMachine env) log v) :
    (fitting env.lib v.slot.recvBufferSize).Accepts log := by
  refine run.invariant (I := fun log v => (fitting env.lib v.slot.recvBufferSize).Accepts log)
    (fun v _ => trivial) ?_
  intro log v a v' es run hacc hstep
  obtain ⟨-, hfollows, hstored⟩ := pipelining_of_run run
  obtain ⟨hintake, hstored'⟩ := slotStep_intake (slotRun_inv run) hstored hstep
  have hcap : v'.slot.recvBufferSize = v.slot.recvBufferSize := (hfollows.intake hintake).2.2
  rw [hcap, Monitor.accepts_append]
  have hheld : v.inbox.held.size ≤ v.inbox.capacity := by
    have hlength := hstored.length
    simp only [SlotView.inbox, Slot.received, Span.size, List.length_take]
    omega
  refine ⟨hacc, hintake.accepts _ (fun e he => hfollows.fitting hheld he) fun l e he => ?_⟩
  cases e with
  | dispatched request => simp [SlotEvent.Aside] at he
  | _ => trivial

/-- What has been dispatched of a stream, and that it fitted. -/
theorem dispatched_of_accepts (hacc : (pipelining lib capacity).Accepts log)
    (hfit : (fitting lib capacity).Accepts log) {stream : Bytes}
    (hs : (log.foldl record start).Sends lib stream) :
    (log.foldl record start).dispatched <+: (sequentialParse lib stream).map Frame.content ∧
      ∀ k f, k < (log.foldl record start).dispatched.length →
        (sequentialParse lib stream)[k]? = some f → f.length ≤ capacity := by
  induction log using List.reverseRecOn with
  | nil => exact ⟨List.nil_prefix, nofun⟩
  | append_singleton log e ih =>
    obtain ⟨hacc, hgood, -⟩ := (Monitor.accepts_append _ log [e]).mp hacc
    obtain ⟨hfit, hgood', -⟩ := (Monitor.accepts_append _ log [e]).mp hfit
    rw [List.foldl_append] at hs ⊢
    have hold := fun hs => ih hacc hfit hs
    change (pipelining lib capacity).Good (log.foldl record start) e at hgood
    change (fitting lib capacity).Good (log.foldl record start) e at hgood'
    generalize log.foldl record start = l at hs hold hgood hgood' ⊢
    cases e with
    | accepted => exact ⟨List.nil_prefix, nofun⟩
    | received bytes => exact hold ⟨(List.prefix_append _ _).trans hs.1, hs.2⟩
    | dispatched request =>
      refine ⟨hgood.2 stream hs, fun k f hk hf => ?_⟩
      have hk : k < (l.dispatched ++ [request.content]).length := hk
      rw [List.length_append, List.length_singleton] at hk
      rcases Nat.lt_succ_iff_lt_or_eq.mp hk with hlt | rfl
      · exact (hold hs).2 k f hlt hf
      · exact hgood' stream hs f hf
    | _ => exact hold hs

variable {requests : List HttpRequest}

/-- What has been dispatched is what the client sent, in order. -/
theorem dispatched_delivered (hacc : (pipelining lib capacity).Accepts log)
    (hfit : (fitting lib capacity).Accepts log) (hsendable : ∀ r ∈ requests, Sendable lib r)
    (hs : (log.foldl record start).received <+: requestStream lib requests) :
    (log.foldl record start).dispatched <+: requests.map HttpRequest.delivered := by
  have hin := (dispatched_of_accepts hacc hfit ⟨hs, streamFits_requestStream hsendable⟩).1
  rwa [sequentialParse_requestStream hsendable, List.map_map] at hin

/-- A client is refused for a request behind those that were dispatched: one that has been
dispatched would have been too large as well. -/
theorem TooLarge.more (hacc : (pipelining lib capacity).Accepts log)
    (hfit : (fitting lib capacity).Accepts log)
    (hlarge : TooLarge lib capacity (log.foldl record start))
    (hsendable : ∀ r ∈ requests, Sendable lib r)
    (hs : (log.foldl record start).received <+: requestStream lib requests)
    (hsome : (log.foldl record start).dispatched ≠ []) :
    (log.foldl record start).dispatched.length < requests.length := by
  have hin := dispatched_delivered hacc hfit hsendable hs
  have hle := hin.length_le
  rw [List.length_map] at hle
  by_contra hnot
  have hall : (log.foldl record start).dispatched.length = requests.length := by omega
  obtain ⟨r, rest, rfl⟩ : ∃ r rest, requests = r :: rest := by
    cases requests with
    | nil => exact absurd (List.length_eq_zero_iff.mp hall) hsome
    | cons r rest => exact ⟨r, rest, rfl⟩
  -- the client may send its first request again
  have hagain : ∀ q ∈ r :: rest ++ [r], Sendable lib q := by
    intro q hq
    rcases List.mem_append.mp hq with hq | hq
    · exact hsendable q hq
    · exact List.mem_singleton.mp hq ▸ hsendable r List.mem_cons_self
  have hsends : (log.foldl record start).Sends lib (requestStream lib (r :: rest ++ [r])) := by
    refine ⟨hs.trans ?_, streamFits_requestStream hagain⟩
    rw [requestStream_append]
    exact List.prefix_append _ _
  have hparse := sequentialParse_requestStream hagain
  have hlast := hlarge _ hsends ⟨r.delivered, (serializedRequest lib r).length⟩ (by
    rw [hparse, hall, List.map_append, List.getElem?_append_right (by simp)]
    simp)
  have hfirst := (dispatched_of_accepts hacc hfit hsends).2 0
    ⟨r.delivered, (serializedRequest lib r).length⟩ (by simp [hall]) (by rw [hparse]; rfl)
  exact absurd hfirst (Nat.not_le.mpr hlast)

end

end Pipeline

/-! ## The limit of the receive buffer -/

/-- **The receive buffer is the limit, and the only one.** In every run of the server, whatever the
splits, the other connections and the deferrals: of the requests a client sends one behind the
other, one that is dispatched fits in the receive buffer, and the one that is answered 413 does
not. -/
theorem limit_of_run {env : ServerEnv} {slotCount : Nat} {log : List ServerEvent} {s : System}
    (run : Run (serverMachine env slotCount) log s) (i : Nat) {requests : List HttpRequest}
    (hsendable : ∀ r ∈ requests, Sendable env.lib r) (hsome : requests ≠ [])
    {before rest : List SlotEvent} {e : SlotEvent} (hlog : slotLog i log = before ++ e :: rest)
    (hs : (before.foldl Pipeline.record .start).received <+: requestStream env.lib requests) :
    let next := requests[(before.foldl Pipeline.record .start).dispatched.length]?
    let capacity := (s.slots i).slot.recvBufferSize
    (∀ request, e = .dispatched request → ∃ r, next = some r ∧
      request.content = r.delivered ∧ (serializedRequest env.lib r).length ≤ capacity) ∧
    (∀ response, e = .answered .refused response → response.code = HTTP_CODE_413 →
      ∃ r, next = some r ∧ capacity < (serializedRequest env.lib r).length) := by
  intro next capacity
  have hslot := slotRun_of_run env slotCount run i
  obtain ⟨hacc, -, -⟩ := pipelining_of_run hslot
  have hfit := Pipeline.fitting_of_run hslot
  rw [hlog, Monitor.accepts_append] at hacc hfit
  obtain ⟨hacc, hgood, -⟩ := hacc
  obtain ⟨hfit, hgood', -⟩ := hfit
  have hsends : (before.foldl Pipeline.record .start).Sends env.lib
      (requestStream env.lib requests) := ⟨hs, streamFits_requestStream hsendable⟩
  have hparse := sequentialParse_requestStream hsendable
  refine ⟨fun request he => ?_, fun response he hcode => ?_⟩
  · subst he
    have hin := List.prefix_iff_getElem?.mp (hgood.2 _ hsends)
      (before.foldl Pipeline.record .start).dispatched.length
      (by rw [List.length_append]; exact Nat.lt_succ_self _)
    have hroom := hgood' _ hsends
    rw [hparse] at hroom
    rw [hparse, List.map_map, List.getElem?_map] at hin
    obtain ⟨r, hr, hcontent⟩ := Option.map_eq_some_iff.mp (hin.trans (congrArg some
      (List.getElem_concat_length rfl _)))
    exact ⟨r, hr, hcontent.symm,
      hroom ⟨r.delivered, _⟩ (List.getElem?_map.trans (congrArg (Option.map _) hr))⟩
  · subst he
    have hlarge : (before.foldl Pipeline.record .start).TooLarge env.lib capacity := by
      rcases hgood with ⟨-, hother⟩ | ⟨-, -, -, hlarge⟩
      · exact absurd hcode (hother rfl)
      · exact hlarge
    have hlt : (before.foldl Pipeline.record .start).dispatched.length < requests.length := by
      by_cases hnone : (before.foldl Pipeline.record .start).dispatched = []
      · rw [hnone]
        exact List.length_pos_iff.mpr hsome
      · exact hlarge.more hacc hfit hsendable hs hnone
    have hr := List.getElem?_eq_getElem hlt
    have hover := hlarge _ hsends
    rw [hparse] at hover
    exact ⟨_, hr, hover ⟨HttpRequest.delivered _, _⟩
      (List.getElem?_map.trans (congrArg (Option.map _) hr))⟩

/-- A request without a field line. -/
def plainRequest : HttpRequest :=
  { HttpRequest.zero with method := .lit "GET", path := .lit "/", httpVersion := HTTP_VERSION_1_1 }

theorem plainRequest_sendable : Sendable .reference plainRequest where
  fields := ⟨[], ⟨⟨.empty, rfl⟩, by simp⟩, ⟨by simp, by simp, by simp, by decide⟩⟩
  method := ⟨by decide +kernel, by decide +kernel⟩
  path := ⟨by decide +kernel, by decide +kernel⟩
  version := by decide +kernel
  size := by decide +kernel

/-- One that the small server has no room for. -/
def longRequest : HttpRequest := { plainRequest with path := .lit "/a/longer/path" }

theorem longRequest_sendable : Sendable .reference longRequest where
  fields := ⟨[], ⟨⟨.empty, rfl⟩, by simp⟩, ⟨by simp, by simp, by simp, by decide⟩⟩
  method := ⟨by decide +kernel, by decide +kernel⟩
  path := ⟨by decide +kernel, by decide +kernel⟩
  version := by decide +kernel
  size := by decide +kernel

/-- The first request is answered, and the second one fills the buffer. -/
def exceeding : List ServerAction :=
  connecting ++ atSlot0
    [.event false, .read calm (.ok (ascii "GET / HTTP/1.1\r\n\r\nGET /a")), .route,
      .handler .respond okResponse, .conclude calm] ++ sending 19 ++
    atSlot0 [.event false, .read calm (.ok (ascii "/longer/path HTTP/")), .tooLarge calm]

/-- The answer to the second one. -/
def tooLargeResponse : HttpResponse :=
  (withDefaultHeaders .reference smallSlot
    (prepareDefaultResponse HTTP_CODE_413 HTTP_REASON_PHRASE_413)).2

theorem limit_of_run_exceeding :
    let log := slotLog 0 ((serverMachine smallServer 1).log smallSystem exceeding)
    log = log.dropLast ++ [.answered .refused tooLargeResponse] ∧
      24 < (serializedRequest .reference longRequest).length := by
  intro log
  obtain ⟨s, hexec, run⟩ := run_of_execute (M := serverMachine smallServer 1) exceeding
    smallSystem_initial (by decide +kernel)
  have hcapacity : (s.slots 0).slot.recvBufferSize = 24 := by
    have hmap := congrArg
      (Option.map fun r : System × List ServerEvent => (r.1.slots 0).slot.recvBufferSize) hexec
    exact (Option.some.inj hmap).symm
  have hlog : log = log.dropLast ++ [.answered .refused tooLargeResponse] := by decide +kernel
  obtain ⟨-, hrefused⟩ := @limit_of_run smallServer 1 _ s run 0 [plainRequest, longRequest]
    (by simpa using ⟨plainRequest_sendable, longRequest_sendable⟩) (by simp) _ _ _ hlog
    (by decide +kernel)
  obtain ⟨r, hr, hlt⟩ := hrefused _ rfl rfl
  have hcount : (log.dropLast.foldl Pipeline.record .start).dispatched.length = 1 := by
    decide +kernel
  rw [hcount] at hr
  obtain rfl : longRequest = r := Option.some.inj hr
  exact ⟨hlog, hcapacity ▸ hlt⟩

end HttpC
