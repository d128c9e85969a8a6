import HttpC.Server.Inbox

/-!
# Pipelined requests

What one connection sends is a stream of requests. The slot reads it in pieces, also while a
request is parked, hands the requests to the routing step one at a time, and moves the bytes
behind an answered request down.

## Main results

* `requests_in_order` — in every run the dispatched requests are those of the sequential
  parse, in order, each answered before the next one; 413 is for requests that do not fit.
-/

namespace HttpC

open Transition Framing

variable (lib : CommonLib)

inductive Stage where
  | idle
  /-- A request has been dispatched and not been answered. -/
  | serving
  /-- An answer is on its way out. -/
  | answered
  deriving DecidableEq, Repr

/-- What a log says about the requests of the last connection. -/
structure Pipeline where
  received : Bytes
  dispatched : List RequestContent
  stage : Stage
  deriving DecidableEq, Repr

namespace Pipeline

def start : Pipeline := ⟨[], [], .idle⟩

def record (l : Pipeline) : SlotEvent → Pipeline
  | .accepted => start
  | .received bytes => { l with received := l.received ++ bytes }
  | .dispatched request =>
    { l with dispatched := l.dispatched ++ [request.content], stage := .serving }
  | .answered _ _ => { l with stage := .answered }
  | .finished => { l with stage := .idle }
  | _ => l

/-- The client may be sending this stream. -/
def Sends (l : Pipeline) (stream : Bytes) : Prop := l.received <+: stream ∧ StreamFits lib stream

/-- The requests handed to the routing step so far and this one are the first of the stream. -/
def InOrder (l : Pipeline) (request : HttpRequest) : Prop :=
  ∀ stream, l.Sends lib stream →
    l.dispatched ++ [request.content] <+: (sequentialParse lib stream).map Frame.content

/-- The next request of the stream is not complete within this many bytes. -/
def TooLarge (capacity : Nat) (l : Pipeline) : Prop :=
  ∀ stream, l.Sends lib stream → ∀ f, (sequentialParse lib stream)[l.dispatched.length]? = some f →
    capacity < f.length

/-- Requests are dispatched in order, when the one before has been answered and sent; 413 is
the answer to a request that is too large, and to no other. -/
def pipelining (capacity : Nat) : Monitor Pipeline SlotEvent where
  start := start
  record := record
  Good l
    | .dispatched request => l.stage = .idle ∧ l.InOrder lib request
    | .answered a r =>
      l.stage = .serving ∧ (a = .refused → r.code ≠ HTTP_CODE_413) ∨
        l.stage = .idle ∧ a = .refused ∧ r.code = HTTP_CODE_413 ∧ l.TooLarge lib capacity
    | .finished => l.stage = .answered
    | _ => True

end Pipeline

open Pipeline

/-! ## The invariant -/

namespace Inbox

/-- The parser has not seen the whole request. -/
def Waiting (b : Inbox) : Prop := Fed lib b.held b.parser ∧ b.parser.state.result = .tryAgain

/-- The parser holds the request at the front. -/
def Arrived (b : Inbox) : Prop := Fed lib b.held b.parser ∧ b.parser.state = .complete

end Inbox

namespace Pipeline

/-- What was dispatched is what was consumed, and `current`. -/
def Fronted (l : Pipeline) (held : Bytes) (current : List RequestContent) : Prop :=
  StreamFits lib l.received →
    ∃ fs, l.dispatched = fs.map Frame.content ++ current ∧ Consumed lib l.received fs held

/-- The inbox goes with the log. -/
def Follows (l : Pipeline) (b : Inbox) : Prop :=
  match b.phase with
  | .free => True
  | .stray => False
  | .shaking => l = start ∧ b.held.bytes = []
  | .reading => l.stage = .idle ∧ b.Waiting lib ∧ l.Fronted lib b.held.bytes []
  | .routing => l.stage = .idle ∧ b.Arrived lib ∧ l.Fronted lib b.held.bytes []
  | .serving =>
    l.stage = .serving ∧ b.Arrived lib ∧ l.Fronted lib b.held.bytes [b.parser.request.content]
  | .sending =>
    l.stage = .answered ∧ (b.closing = false →
      b.Arrived lib ∧ l.Fronted lib b.held.bytes [b.parser.request.content])

section

variable {lib} {l : Pipeline} {b : Inbox} {held : Bytes} {current : List RequestContent}

/-- More bytes arrive behind those held. -/
theorem Fronted.received (h : l.Fronted lib held current) (bytes : Bytes) :
    (l.record (.received bytes)).Fronted lib (held ++ bytes) current := by
  intro hfits
  obtain ⟨fs, hd, hc⟩ := h hfits.of_append
  exact ⟨fs, hd, FrameParser.Consumed.append_right hc bytes⟩

/-- The requests of a stream the client may be sending. -/
theorem Fronted.sequentialParse_eq (h : l.Fronted lib held []) {stream : Bytes}
    (hs : l.Sends lib stream) :
    ∃ fs r, l.dispatched = fs.map Frame.content ∧ LengthFits lib held ∧
      sequentialParse lib stream = fs ++ sequentialParse lib (held ++ r) := by
  obtain ⟨⟨r, rfl⟩, hfits⟩ := hs
  obtain ⟨fs, hd, hc⟩ := h hfits.of_append
  refine ⟨fs, r, by simpa using hd, hfits.of_append fs held hc, ?_⟩
  exact FrameParser.Consumed.frames_eq (FrameParser.Consumed.append_right hc r)

/-- A request that has arrived is the next of the stream. -/
theorem Fronted.inOrder (h : l.Fronted lib b.held.bytes []) (ha : b.Arrived lib) :
    l.InOrder lib b.parser.request := by
  intro stream hs
  obtain ⟨fs, r, hd, hfits, hparse⟩ := h.sequentialParse_eq hs
  have hfirst := (requestFrames lib).stable (ha.1.firstRequest_eq ha.2 hfits) r
  have hnext : sequentialParse lib (b.held.bytes ++ r) = _ := FrameParser.frames_of_some _ hfirst
  rw [hparse, hnext, hd]
  simp

/-- A full buffer without a whole request: the request is larger than the buffer. -/
theorem Fronted.tooLarge (h : l.Fronted lib b.held.bytes []) (hw : b.Waiting lib)
    (hfull : b.capacity ≤ b.held.size) : l.TooLarge lib b.capacity := by
  intro stream hs f hf
  obtain ⟨fs, r, hd, -, hparse⟩ := h.sequentialParse_eq hs
  rw [hparse, hd, List.length_map, List.getElem?_append_right le_rfl, Nat.sub_self] at hf
  have hfirst : firstRequest lib (b.held.bytes ++ r) = some f := by
    cases hnext : firstRequest lib (b.held.bytes ++ r) with
    | none =>
      rw [sequentialParse, FrameParser.frames_of_none (requestFrames lib) hnext] at hf
      simp at hf
    | some g =>
      rw [sequentialParse, FrameParser.frames_of_some (requestFrames lib) hnext] at hf
      simpa using hf
  exact hfull.trans_lt (hw.1.firstRequest_waiting hw.2 hfirst)

/-- The request at the front is consumed. -/
theorem Fronted.finish (h : l.Fronted lib b.held.bytes [b.parser.request.content])
    (ha : b.Arrived lib) :
    l.Fronted lib (b.held.shift (httpRequestParserGetConsumed b.parser)).bytes [] := by
  intro hfits
  obtain ⟨fs, hd, hc⟩ := h hfits
  have hfirst := ha.1.firstRequest_eq ha.2 (hfits fs _ hc)
  exact ⟨_, by simpa using hd, FrameParser.Consumed.snoc hc hfirst⟩

end

end Pipeline

section

variable {lib} {l : Pipeline} {b b' : Inbox}

theorem RequestParserState.eq_complete {state : RequestParserState} (h : state.result = .ok) :
    state = .complete := by
  cases state <;> simp [RequestParserState.result] at h ⊢

/-- After a feed the request has arrived or is waited for, by the phase. -/
theorem Inbox.Arrives.follows {result : Result} {phase : Phase} (h : Arrives result phase)
    {l : Pipeline} {held : Span} {p : HttpRequestParser} {closing : Bool} {capacity : Nat}
    (hfed : Fed lib held p) (hres : result = p.state.result) (hstage : l.stage = .idle)
    (hfront : l.Fronted lib held.bytes []) : l.Follows lib ⟨phase, held, p, closing, capacity⟩ := by
  rcases h with ⟨rfl, rfl⟩ | ⟨rfl, rfl⟩
  · exact ⟨hstage, ⟨hfed, RequestParserState.eq_complete hres.symm⟩, hfront⟩
  · exact ⟨hstage, ⟨hfed, hres.symm⟩, hfront⟩

/-- What an inbox allows is good. -/
theorem Pipeline.Follows.good (h : l.Follows lib b) {e : SlotEvent} (he : b.Allows e) :
    (pipelining lib b.capacity).Good l e := by
  cases e with
  | dispatched request =>
    obtain ⟨hb, rfl⟩ := he
    simp only [Follows, hb] at h
    exact ⟨h.1, h.2.2.inOrder h.2.1⟩
  | answered a r =>
    rcases he with ⟨hb, hcode⟩ | ⟨hb, ha, hcode, hfull⟩
    · simp only [Follows, hb] at h
      exact .inl ⟨h.1, hcode⟩
    · simp only [Follows, hb] at h
      exact .inr ⟨h.1, ha, hcode, h.2.2.tooLarge h.2.1 hfull⟩
  | finished =>
    have hb : b.phase = .sending := he
    simp only [Follows, hb] at h
    exact h.1
  | _ => trivial

theorem Pipeline.good_of_closing {e : SlotEvent} (he : e = .released ∨ e.Aside) (l : Pipeline)
    (capacity : Nat) : (pipelining lib capacity).Good l e := by
  rcases he with rfl | he
  · trivial
  · cases e <;> trivial

theorem Pipeline.acceptsFrom_closing {es : List SlotEvent}
    (hes : ∀ x ∈ es, x = .released ∨ x.Aside) (l : Pipeline) (capacity : Nat) :
    (pipelining lib capacity).AcceptsFrom l es := by
  induction es generalizing l with
  | nil => trivial
  | cons e es ih =>
    exact ⟨good_of_closing (hes e List.mem_cons_self) l capacity,
      ih (fun x hx => hes x (List.mem_cons_of_mem _ hx)) _⟩

theorem Pipeline.foldl_aside {es : List SlotEvent} (hes : ∀ e ∈ es, e.Aside) (l : Pipeline) :
    es.foldl Pipeline.record l = l := by
  induction es with
  | nil => rfl
  | cons e es ih =>
    have he : l.record e = l := by
      have := hes e List.mem_cons_self
      cases e <;> first | rfl | exact absurd this id
    rw [List.foldl_cons, he, ih fun x hx => hes x (List.mem_cons_of_mem _ hx)]

/-- An intake logs good events, and the log goes on to describe the inbox. -/
theorem Pipeline.Follows.intake {es : List SlotEvent} (h : l.Follows lib b)
    (hm : Intake lib b es b') :
    (pipelining lib b.capacity).AcceptsFrom l es ∧ (es.foldl Pipeline.record l).Follows lib b' ∧
      b'.capacity = b.capacity := by
  cases hm with
  | stay he =>
    exact ⟨acceptsFrom_closing (fun x hx => .inr (he x hx)) l _, (foldl_aside he l).symm ▸ h, rfl⟩
  | accept hb => exact ⟨⟨trivial, trivial⟩, ⟨rfl, rfl⟩, rfl⟩
  | @release b' e es he hes hb hcap =>
    refine ⟨?_, by simp only [Follows, hb], hcap⟩
    cases e with
    | none => exact acceptsFrom_closing hes l _
    | some e => exact ⟨h.good (he e rfl), acceptsFrom_closing hes _ _⟩
  | shake hb =>
    simp only [Follows, hb] at h
    obtain ⟨rfl, hheld⟩ := h
    refine ⟨trivial, ⟨rfl, ⟨.missing (by rw [hheld]; rfl) fresh_init, rfl⟩, fun _ => ?_⟩, rfl⟩
    exact ⟨[], rfl, hheld.symm⟩
  | @read bytes result p phase closing hb hfeed hphase =>
    simp only [Follows, hb] at h
    obtain ⟨hstage, hwait, hfront⟩ := h
    have hstep := feed_step (t := b.held.append bytes) hwait.1 rfl (List.prefix_append _ _)
    rw [hfeed] at hstep
    exact ⟨⟨trivial, trivial⟩, hphase.follows hstep.1 hstep.2 hstage (hfront.received bytes), rfl⟩
  | dispatch hb =>
    have hgood := h.good (e := .dispatched b.parser.request) ⟨hb, rfl⟩
    simp only [Follows, hb] at h
    refine ⟨⟨hgood, trivial⟩, ⟨rfl, h.2.1, fun hfits => ?_⟩, rfl⟩
    obtain ⟨fs, hd, hc⟩ := h.2.2 hfits
    exact ⟨fs, by simp [record, hd], hc⟩
  | @probe bytes hb =>
    simp only [Follows, hb] at h
    have hfed := h.2.1.1.of_complete (t := b.held.append bytes) h.2.1.2 rfl (List.prefix_append _ _)
    refine ⟨⟨trivial, trivial⟩, ?_, rfl⟩
    simp only [Follows, hb]
    exact ⟨h.1, ⟨hfed, h.2.1.2⟩, h.2.2.received bytes⟩
  | @answer a r closing hallow hclosing =>
    refine ⟨⟨h.good hallow, trivial⟩, ⟨rfl, fun hopen => ?_⟩, rfl⟩
    rcases hallow with ⟨hb, -⟩ | ⟨hb, -⟩
    · simp only [Follows, hb] at h
      exact h.2
    · exact absurd ((hclosing hb).symm.trans hopen) (by decide)
  | @finish result p phase closing hb hopen hfeed hphase =>
    have hgood := h.good (e := .finished) hb
    simp only [Follows, hb] at h
    obtain ⟨harrived, hfront⟩ := h.2 hopen
    have hstep := @feed_of_fresh lib httpRequestParserInit
      (b.held.shift (httpRequestParserGetConsumed b.parser)) fresh_init
    rw [hfeed] at hstep
    exact ⟨⟨hgood, trivial⟩, hphase.follows hstep.1 hstep.2 rfl (hfront.finish harrived), rfl⟩

end

/-! ## Runs -/

variable {lib} {env : ServerEnv}

theorem pipelining_of_run {log : List SlotEvent} {v : SlotView}
    (run : Run (slotMachine env) log v) :
    (pipelining env.lib v.slot.recvBufferSize).Accepts log ∧
      (log.foldl Pipeline.record start).Follows env.lib v.inbox ∧ v.slot.Stored := by
  refine run.invariant (I := fun log v => (pipelining env.lib v.slot.recvBufferSize).Accepts log ∧
    (log.foldl Pipeline.record start).Follows env.lib v.inbox ∧ v.slot.Stored) ?_ ?_
  · rintro v ⟨hf, -, storage, hstorage, hs⟩
    have hfree : v.inbox.phase = .free := by
      change Phase.of v.slot.inUse v.slot.state v.focus = _
      rw [hs]
      rfl
    refine ⟨trivial, by simp only [Pipeline.Follows, hfree], ⟨?_, ?_⟩⟩
    · rw [hs]
      exact hstorage.recv
    · rw [hs]
      exact nofun
  · rintro log v a v' es run ⟨hacc, hfollows, hstored⟩ hstep
    obtain ⟨hintake, hstored'⟩ := slotStep_intake (slotRun_inv run) hstored hstep
    obtain ⟨hes, hfollows', hcap⟩ := hfollows.intake hintake
    have hcap : v'.slot.recvBufferSize = v.slot.recvBufferSize := hcap
    rw [hcap, Monitor.accepts_append, List.foldl_append]
    exact ⟨⟨hacc, hes⟩, hfollows', hstored'⟩

/-- **Pipelining loses, duplicates and reorders nothing.** In every run of the server and on
every slot, whatever the splits of the reads, the partial writes and the mix of immediate and
deferred answers: the requests handed to the routing step are the first of the sequential
parse of the stream, each is answered and sent before the next one, and only a request that
is not complete within the receive buffer is answered 413. -/
theorem requests_in_order {slotCount : Nat} {log : List ServerEvent} {s : System}
    (run : Run (serverMachine env slotCount) log s) (i : Nat) :
    (pipelining env.lib (s.slots i).slot.recvBufferSize).Accepts (slotLog i log) :=
  (pipelining_of_run (slotRun_of_run env slotCount run i)).1

/-- Two requests in one stream, cut inside the second one. -/
def twoRequests : List ServerAction :=
  connecting ++ atSlot0
    [.event false, .read calm (.ok (ascii "GET / HTTP/1.1\r\n\r\nGET / ")), .route,
      .handler .respond okResponse, .conclude calm] ++ sending 19 ++
    atSlot0 [.event false, .read calm (.ok (ascii "HTTP/1.1\r\n\r\n")), .route]

theorem requests_in_order_two :
    let log := slotLog 0 ((serverMachine smallServer 1).log smallSystem twoRequests)
    (log.foldl Pipeline.record start).dispatched.length = 2 ∧
      (pipelining .reference 24).Accepts log := by
  intro log
  obtain ⟨s, hexec, run⟩ := run_of_execute (M := serverMachine smallServer 1) twoRequests
    smallSystem_initial rfl
  have hcapacity : (s.slots 0).slot.recvBufferSize = 24 := by
    have hmap := congrArg
      (Option.map fun r : System × List ServerEvent => (r.1.slots 0).slot.recvBufferSize) hexec
    exact (Option.some.inj hmap).symm
  exact ⟨by decide +kernel, hcapacity ▸ requests_in_order run 0⟩

end HttpC
