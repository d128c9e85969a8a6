import HttpC.Server.Machine

/-!
# The protocol a slot follows

What matters of a slot to its deferrals and streaming bodies: whether it is in use and in
which state, its generation, its mailbox and the stream it holds. `Move` lists what can
happen to that part, once, and every step of the slot is a move.

## Main results

* `slotStep_move` — a step of a slot is a move of its kernel.
* `Move.inv` — moves keep the kernel well formed.
-/

namespace HttpC

/-- The part of a slot that deferrals and streaming bodies depend on. -/
@[ext]
structure Kernel where
  inUse : Bool
  state : SlotState
  focus : Focus
  generation : Nat
  ready : Bool
  cancelled : Bool
  response : HttpResponse
  stream : Option Stream
  tickets : List Deferral
  deriving DecidableEq, Repr

namespace SlotView

def kernel (v : SlotView) : Kernel where
  inUse := v.slot.inUse
  state := v.slot.state
  focus := v.focus
  generation := v.slot.generation
  ready := v.slot.pendingReady
  cancelled := v.slot.pendingCancelled
  response := v.slot.pendingResponse
  stream := if v.slot.streamActive then some v.slot.stream else none
  tickets := v.tickets

end SlotView

/-- Focus outside `run_handler_and_serialize`. -/
def Focus.Plain (f : Focus) : Prop := f = .away ∨ f = .advance ∨ f = .drained

/-- Focus inside `run_handler_and_serialize`. -/
def Focus.Routing : Focus → Prop
  | .route | .handling _ _ | .returned _ _ _ => True
  | _ => False

/-- Focus behind the dispatch of a request. -/
def Focus.Dispatched : Focus → Prop
  | .handling _ _ | .returned _ _ _ => True
  | _ => False

/-- Events that only move bytes. -/
def SlotEvent.Transfer : SlotEvent → Prop
  | .received _ | .wrote _ => True
  | _ => False

namespace Kernel

/-- The finalizer calls of a stream that ends. -/
def finalizers : Option Stream → List SlotEvent
  | none => []
  | some stream => if stream.finalizer.isSome then [.finalized stream] else []

/-- The kernel after a close; `state` is what the close leaves there. -/
def closed (k : Kernel) (state : SlotState) : Kernel :=
  { k with
    inUse := false, state, focus := .away, generation := wrap32 (k.generation + 1),
    ready := false, cancelled := false, stream := none }

/-- The kernel once `response` is in the send buffer. -/
def answered (k : Kernel) (response : HttpResponse) : Kernel :=
  { k with
    state := .sending, focus := .away, ready := false, cancelled := false,
    stream := if response.bodyProvider.isSome then some response.stream else k.stream }

/-- The responses a slot may serialise. -/
inductive Answers (k : Kernel) : Answer → HttpResponse → Prop
  | handler {matched : Bool} {r : HttpResponse}
    (h : k.focus = .returned (some .respond) matched r) : Answers k .handler r
  | unrouted {matched : Bool} {r r' : HttpResponse} (h : k.focus = .returned none matched r')
    (hr : r.bodyProvider = none) : Answers k .refused r
  | tooLarge {r : HttpResponse} (h : k.focus = .advance) (hs : k.state = .receiving)
    (hr : r.bodyProvider = none) : Answers k .refused r
  | completed (h : k.focus = .away) (hu : k.inUse = true) (hs : k.state = .pending)
    (hm : k.ready = true) (hc : k.cancelled = false) : Answers k .completed k.response
  | cancelled {r : HttpResponse} (h : k.focus = .away) (hu : k.inUse = true)
    (hs : k.state = .pending) (hm : k.cancelled = true) (hr : r.bodyProvider = none) :
    Answers k .cancelled r
  | expired {r : HttpResponse} (h : k.focus = .away) (hu : k.inUse = true)
    (hs : k.state = .pending) (hm : k.ready = false) (hc : k.cancelled = false)
    (hr : r.bodyProvider = none) : Answers k .expired r

/-- The mailbox takes a post. -/
def deliver (k : Kernel) : Post → Kernel
  | .complete r => { k with response := r, ready := true }
  | .cancel => { k with cancelled := true }

/-- `deferral_post` with a generation. -/
def post (k : Kernel) (generation : Nat) (p : Post) : Result × Kernel :=
  if k.inUse = false ∨ k.state ≠ .pending ∨ k.generation ≠ generation then (.notFound, k)
  else if k.ready = true ∨ k.cancelled = true then (.error, k)
  else (.ok, k.deliver p)

/-- What every reachable kernel satisfies. -/
structure Inv (k : Kernel) : Prop where
  advance : k.focus = .advance → k.inUse = true
  routing : k.focus.Routing → k.inUse = true ∧ k.state = .receiving
  drained : k.focus = .drained → k.inUse = true ∧ k.state = .sending
  mailbox : k.ready = true ∨ k.cancelled = true → k.inUse = true ∧ k.state = .pending
  exclusive : ¬(k.ready = true ∧ k.cancelled = true)
  stream : k.inUse = true → k.stream ≠ none → k.state = .sending

end Kernel

open Kernel

/-- What can happen to a kernel, with the events it logs. -/
inductive Move : Kernel → List SlotEvent → Kernel → Prop
  | accept {k : Kernel} (hf : k.focus = .away) (hu : k.inUse = false) :
    Move k [.accepted] { k with
      inUse := true, state := .handshaking, focus := .advance, ready := false,
      cancelled := false, stream := none }
  | refuse {k : Kernel} (hf : k.focus = .away) (hu : k.inUse = false) :
    Move k [.released] (k.closed .idle)
  /-- Bytes move, or the loop thread enters or leaves the slot. -/
  | transfer {k : Kernel} {es : List SlotEvent} {f : Focus} (hk : k.focus.Plain) (hf : f.Plain)
    (he : ∀ e ∈ es, e.Transfer) (hu : f ≠ .away → k.inUse = true)
    (hd : f = .drained → k.state = .sending) : Move k es { k with focus := f }
  | shake {k : Kernel} (hf : k.focus = .advance) (hs : k.state = .handshaking) :
    Move k [] { k with state := .receiving, focus := .away }
  /-- The parser has a whole request. -/
  | arrive {k : Kernel} {es : List SlotEvent} (hf : k.focus = .advance) (hs : k.state = .receiving)
    (he : ∀ e ∈ es, e.Transfer) : Move k es { k with focus := .route }
  | unrouted {k : Kernel} {request : HttpRequest} {matched : Bool} {r : HttpResponse}
    (hf : k.focus = .route) :
    Move k [.dispatched request] { k with focus := .returned none matched r }
  | routed {k : Kernel} {request : HttpRequest} {matched : Bool} {route : Nat}
    (hf : k.focus = .route) :
    Move k [.dispatched request] { k with focus := .handling route matched }
  | take {k : Kernel} {matched : Bool} {route : Nat} (hf : k.focus = .handling route matched) :
    Move k [.ticketTaken k.generation] { k with tickets := k.tickets ++ [⟨k.generation⟩] }
  | handled {k : Kernel} {matched : Bool} {route : Nat} {outcome : HandlerOutcome}
    {r : HttpResponse} (hf : k.focus = .handling route matched) :
    Move k [.handled route outcome r] { k with focus := .returned (some outcome) matched r }
  | park {k : Kernel} {matched : Bool} {r : HttpResponse}
    (hf : k.focus = .returned (some .defer) matched r) :
    Move k [.parked] { k with
      state := .pending, focus := .away, ready := false, cancelled := false }
  | answer {k : Kernel} {a : Answer} {r : HttpResponse} (h : k.Answers a r) :
    Move k [.answered a r] (k.answered r)
  /-- The response does not fit in the send buffer. -/
  | overflow {k : Kernel} {a : Answer} {r : HttpResponse} (h : k.Answers a r) :
    Move k (.answered a r :: (finalizers (k.answered r).stream ++ [.released])) (k.closed .idle)
  | close {k : Kernel} {es : List SlotEvent} {state : SlotState}
    (hf : k.focus.Plain ∨ ∃ m r, k.focus = .returned (some .close) m r) (hu : k.inUse = true)
    (he : ∀ e ∈ es, e.Transfer) :
    Move k (es ++ (finalizers k.stream ++ [.released])) (k.closed state)
  | provide {k : Kernel} {stream : Stream} {bytes : Bytes} (hf : k.focus = .drained)
    (hs : k.stream = some stream) : Move k [.provided stream bytes] { k with focus := .advance }
  | exhaust {k : Kernel} {stream : Stream} {bytes : Bytes} (hf : k.focus = .drained)
    (hs : k.stream = some stream) :
    Move k (.provided stream bytes :: finalizers k.stream) { k with stream := none }
  | finish {k : Kernel} {f : Focus} (hf : k.focus = .drained) (hs : k.stream = none)
    (hnext : f = .away ∨ f = .route) :
    Move k [.finished] { k with state := .receiving, focus := f }
  | finishClosed {k : Kernel} (hf : k.focus = .drained) (hs : k.stream = none) :
    Move k [.finished, .released] (k.closed .idle)
  | post {k : Kernel} {n : Nat} {ticket : Deferral} {p : Post} (h : k.tickets[n]? = some ticket) :
    Move k [.posted n p (k.post ticket.generation p).1] (k.post ticket.generation p).2

/-! ## Moves keep the kernel well formed -/

theorem Focus.Plain.not_routing {f : Focus} (h : f.Plain) : ¬f.Routing := by
  rcases h with rfl | rfl | rfl <;> exact id

theorem Focus.Plain.not_dispatched {f : Focus} (h : f.Plain) : ¬f.Dispatched := by
  rcases h with rfl | rfl | rfl <;> exact id

theorem Focus.plain_of_not_routing {f : Focus} (h : ¬f.Routing) : f.Plain := by
  cases f with
  | away => exact .inl rfl
  | advance => exact .inr (.inl rfl)
  | drained => exact .inr (.inr rfl)
  | _ => exact absurd trivial h

namespace Kernel.Inv

variable {k : Kernel}

theorem route (hi : k.Inv) (h : k.focus = .route) : k.inUse = true ∧ k.state = .receiving :=
  hi.routing (h ▸ trivial)

theorem handling (hi : k.Inv) {i : Nat} {m : Bool} (h : k.focus = .handling i m) :
    k.inUse = true ∧ k.state = .receiving :=
  hi.routing (h ▸ trivial)

theorem returned (hi : k.Inv) {o : Option HandlerOutcome} {m : Bool} {r : HttpResponse}
    (h : k.focus = .returned o m r) : k.inUse = true ∧ k.state = .receiving :=
  hi.routing (h ▸ trivial)

/-- Nothing streams before the sending state. -/
theorem stream_eq_none (hi : k.Inv) (hu : k.inUse = true) (hs : k.state ≠ .sending) :
    k.stream = none := by
  by_contra hne
  exact hs (hi.stream hu hne)

/-- The mailbox of a slot that is not pending is empty. -/
theorem empty (hi : k.Inv) (h : k.state ≠ .pending) : k.ready = false ∧ k.cancelled = false := by
  have hmail := hi.mailbox
  simp only [h, and_false, imp_false, not_or, Bool.not_eq_true] at hmail
  exact hmail

end Kernel.Inv

theorem Kernel.inv_closed (k : Kernel) (state : SlotState) : (k.closed state).Inv := by
  constructor <;> simp [Kernel.closed, Focus.Routing]

/-- What serialises a response is in use, and streams nothing yet. -/
theorem Kernel.Answers.inUse {k : Kernel} (hi : k.Inv) {a : Answer} {r : HttpResponse}
    (h : k.Answers a r) : k.inUse = true ∧ k.state ≠ .sending := by
  cases h with
  | handler h => simp [hi.returned h]
  | unrouted h hr => simp [hi.returned h]
  | tooLarge h hs hr => simp [hi.advance h, hs]
  | completed h hu hs hm hc => simp [hu, hs]
  | cancelled h hu hs hm hr => simp [hu, hs]
  | expired h hu hs hm hc hr => simp [hu, hs]

theorem Kernel.Answers.stream {k : Kernel} (hi : k.Inv) {a : Answer} {r : HttpResponse}
    (h : k.Answers a r) : k.stream = none := by
  obtain ⟨hu, hs⟩ := h.inUse hi
  exact hi.stream_eq_none hu hs

/-- A post that is not accepted changes nothing. -/
theorem Kernel.post_refused {k : Kernel} {generation : Nat} {p : Post}
    (h : (k.post generation p).1 ≠ .ok) : (k.post generation p).2 = k := by
  unfold Kernel.post at h ⊢
  split_ifs at h ⊢ <;> first | rfl | exact absurd rfl h

theorem Kernel.post_accepted {k : Kernel} {generation : Nat} {p : Post}
    (h : (k.post generation p).1 = .ok) :
    (k.post generation p).2 = k.deliver p ∧ k.ready = false ∧ k.cancelled = false := by
  unfold Kernel.post at h ⊢
  split_ifs at h ⊢ with h1 h2
  simp only [not_or, Bool.not_eq_true] at h2
  exact ⟨rfl, h2⟩

/-- A post is accepted by a parked slot. -/
theorem Kernel.post_pending {k : Kernel} {generation : Nat} {p : Post}
    (h : (k.post generation p).1 = .ok) : k.inUse = true ∧ k.state = .pending := by
  unfold Kernel.post at h
  split_ifs at h with h1 h2
  simp only [not_or, Bool.not_eq_false, Decidable.not_not] at h1
  exact ⟨h1.1, h1.2.1⟩

theorem Kernel.post_inv {k : Kernel} (hi : k.Inv) (generation : Nat) (p : Post) :
    (k.post generation p).2.Inv := by
  unfold Kernel.post
  split_ifs with h1 h2
  · exact hi
  · exact hi
  · simp only [not_or, Bool.not_eq_false, Decidable.not_not] at h1 h2
    cases p with
    | complete r => exact { hi with
        mailbox := fun _ => ⟨h1.1, h1.2.1⟩
        exclusive := fun h => h2.2 h.2 }
    | cancel => exact { hi with
        mailbox := fun _ => ⟨h1.1, h1.2.1⟩
        exclusive := fun h => h2.1 h.1 }

theorem Move.inv {k k' : Kernel} {es : List SlotEvent} (h : Move k es k') (hi : k.Inv) :
    k'.Inv := by
  cases h with
  | accept hf hu => constructor <;> simp [Focus.Routing]
  | refuse hf hu => exact inv_closed _ _
  | transfer hk hf he hu hd =>
    exact { hi with
      advance := fun h => hu (by simp_all)
      routing := fun h => absurd h hf.not_routing
      drained := fun h => ⟨hu (by simp_all), hd h⟩ }
  | shake hf hs =>
    have hempty := hi.empty (by simp [hs])
    exact { hi with
      advance := nofun
      routing := nofun
      drained := nofun
      mailbox := by simp [hempty]
      stream := fun hu hne => absurd (hi.stream_eq_none hu (by simp [hs])) hne }
  | arrive hf hs he =>
    exact { hi with
      advance := nofun
      routing := fun _ => ⟨hi.advance hf, hs⟩
      drained := nofun }
  | unrouted hf | routed hf =>
    exact { hi with
      advance := nofun
      routing := fun _ => hi.route hf
      drained := nofun }
  | take hf => exact { hi with }
  | handled hf =>
    exact { hi with
      advance := nofun
      routing := fun _ => hi.handling hf
      drained := nofun }
  | park hf =>
    obtain ⟨hu, hs⟩ := hi.returned hf
    have hnone := hi.stream_eq_none hu (by simp [hs])
    constructor <;> simp [Focus.Routing, hnone]
  | answer h => constructor <;> simp [answered, Focus.Routing]
  | overflow h => exact inv_closed _ _
  | close hf hu he => exact inv_closed _ _
  | provide hf hs =>
    exact { hi with
      advance := fun _ => (hi.drained hf).1
      routing := nofun
      drained := nofun }
  | exhaust hf hs => exact { hi with stream := by simp }
  | finish hf hs hnext =>
    obtain ⟨hu, hstate⟩ := hi.drained hf
    have hempty := hi.empty (by simp [hstate])
    constructor <;> simp [hempty, hs, hu]
    all_goals rcases hnext with rfl | rfl <;> simp
  | finishClosed hf hs => exact inv_closed _ _
  | post h => exact post_inv hi _ _

/-! ## Steps are moves -/

/-- A registered slot is in use and has a socket, and a stream in use is not at its end. -/
structure Slot.Ok (slot : Slot) : Prop where
  registered : slot.registeredEvents ≠ .none → slot.inUse = true ∧ 0 ≤ slot.sd
  streaming : slot.inUse = true → slot.streamActive = true → slot.streamEof = false

/-- What every reachable slot satisfies. -/
structure SlotView.Inv (v : SlotView) : Prop where
  kernel : v.kernel.Inv
  ok : v.slot.Ok

theorem finalizerCall_eq (v : SlotView) : finalizerCall v.slot = finalizers v.kernel.stream := by
  unfold finalizerCall SlotView.kernel
  cases v.slot.streamActive <;> simp [finalizers, Slot.stream]

theorem streamCleared_of_active {slot : Slot} (h : slot.streamActive = true) :
    streamCleared slot = { slot with
      streamActive := false, streamEof := false, streamProvider := none, streamFinalizer := none,
      streamCtx := 0 } := if_pos h

theorem ok_of_closed {slot : Slot} (hu : slot.inUse = false) (hr : slot.registeredEvents = .none) :
    slot.Ok := ⟨fun h => absurd hr h, fun h => by simp [hu] at h⟩

theorem ok_slotClose (slot : Slot) : (slotClose slot).1.Ok := by
  rw [slotClose_slot]
  exact ok_of_closed rfl rfl

@[simp] theorem streamCleared_tickets (slot : Slot) :
    (streamCleared slot).generation = slot.generation ∧
      (streamCleared slot).pendingResponse = slot.pendingResponse := by
  unfold streamCleared
  split_ifs <;> exact ⟨rfl, rfl⟩

/-- Closing a slot closes its kernel. -/
theorem kernel_slotClose (v : SlotView) :
    (v.leave (slotClose v.slot)).1.kernel = v.kernel.closed .idle ∧
      (v.leave (slotClose v.slot)).2 = finalizers v.kernel.stream ++ [.released] := by
  constructor
  · simp only [SlotView.leave, SlotView.kernel, Kernel.closed, slotClose_slot]
    simp
  · rw [← finalizerCall_eq]
    rfl

/-- Installing a stream touches nothing but the stream. -/
theorem installStream_spec (slot : Slot) (r : HttpResponse) :
    ∃ active eof provider finalizer ctx, installStream slot r = { slot with
        streamActive := active, streamEof := eof, streamProvider := provider,
        streamFinalizer := finalizer, streamCtx := ctx } ∧
      (if active then some (⟨provider, finalizer, ctx⟩ : Stream) else none) =
        (if r.bodyProvider.isSome then some r.stream
          else if slot.streamActive then some slot.stream else none) ∧
      (active = true → eof = false ∨ slot.streamActive = true ∧ eof = slot.streamEof) := by
  by_cases h : r.bodyProvider.isSome
  · refine ⟨true, false, r.bodyProvider, r.bodyFinalizer, r.bodyProviderContext, ?_, ?_,
      fun _ => .inl rfl⟩
    · rw [installStream, if_pos h]
    · rw [if_pos rfl, if_pos h]
      rfl
  · refine ⟨slot.streamActive, slot.streamEof, slot.streamProvider, slot.streamFinalizer,
      slot.streamCtx, ?_, ?_, fun ha => .inr ⟨ha, rfl⟩⟩
    · rw [installStream, if_neg h]
    · rw [if_neg h]
      rfl

theorem Slot.Ok.arm {slot : Slot} (h : slot.Ok) (w : Platform) (m : EventMask)
    (hu : slot.inUse = true) : (slotArm w slot m).Ok := by
  refine ⟨fun hne => ⟨hu, ?_⟩, h.streaming⟩
  by_contra hsd
  have hkeep : (slotArm w slot m).registeredEvents = slot.registeredEvents :=
    if_pos (Int.not_le.mp hsd)
  exact hsd (h.registered (hkeep ▸ hne)).2

/-- `serialize_and_send` answers, or overflows and closes. -/
theorem serialize_move (lib : CommonLib) (w : Platform) {k : Kernel} {v : SlotView} {a : Answer}
    {r : HttpResponse} (h : k.Answers a r) (hans : v.kernel.answered r = k.answered r)
    (hu : v.slot.inUse = true) (hok : v.slot.Ok) (hready : v.slot.pendingReady = false)
    (hcancelled : v.slot.pendingCancelled = false) :
    Move k (.answered a r :: (serializeAndSend lib w v.slot r).2)
        (v.leave (serializeAndSend lib w v.slot r)).1.kernel ∧
      (serializeAndSend lib w v.slot r).1.Ok := by
  obtain ⟨active, eof, provider, finalizer, ctx, hinstall, hstream, heof⟩ :=
    installStream_spec v.slot r
  have hclosed : v.kernel.closed .idle = k.closed .idle := by
    have hgen := congrArg Kernel.generation hans
    have hresp := congrArg Kernel.response hans
    have htick := congrArg Kernel.tickets hans
    simp only [answered] at hgen hresp htick
    simp [closed, hgen, hresp, htick]
  obtain ⟨memory, hcase | ⟨used, hcase⟩⟩ := serializeAndSend_cases lib w v.slot r
  · rw [hcase, hinstall]
    refine ⟨?_, ok_slotClose _⟩
    obtain ⟨hkernel, hevents⟩ := kernel_slotClose ⟨{ v.slot with
      sendBuffer := memory, streamActive := active, streamEof := eof, streamProvider := provider,
      streamFinalizer := finalizer, streamCtx := ctx }, v.focus, v.tickets⟩
    have hk : (SlotView.mk { v.slot with
        sendBuffer := memory, streamActive := active, streamEof := eof, streamProvider := provider,
        streamFinalizer := finalizer, streamCtx := ctx } v.focus v.tickets).kernel.stream =
        (v.kernel.answered r).stream := hstream
    rw [hk] at hevents
    have hmove := Move.overflow h
    rw [← hans, ← hclosed, ← hevents] at hmove
    exact (congrArg (Move k _) hkernel).mpr hmove
  · rw [hcase, hinstall]
    refine ⟨?_, Slot.Ok.arm ?_ w _ hu⟩
    · have hmove := Move.answer h
      rw [← hans] at hmove
      convert hmove using 1
      ext1
      case ready => exact hready
      case cancelled => exact hcancelled
      case stream => exact hstream
      all_goals rfl
    · refine ⟨hok.registered, fun _ hactive => ?_⟩
      rcases heof hactive with h0 | ⟨hwas, hsame⟩
      · exact h0
      · exact hsame.trans (hok.streaming hu hwas)

/-- A response the server makes itself. -/
theorem respond_move (lib : CommonLib) (w : Platform) {k : Kernel} {v : SlotView} {a : Answer}
    {code reason : Span} (h : ∀ r : HttpResponse, r.bodyProvider = none → k.Answers a r)
    (hans : ∀ r, v.kernel.answered r = k.answered r) (hu : v.slot.inUse = true) (hok : v.slot.Ok)
    (hready : v.slot.pendingReady = false) (hcancelled : v.slot.pendingCancelled = false) :
    Move k (v.leave (respondWithStatus lib w v.slot a code reason)).2
        (v.leave (respondWithStatus lib w v.slot a code reason)).1.kernel ∧
      (respondWithStatus lib w v.slot a code reason).1.Ok := by
  set r := (withDefaultHeaders lib v.slot (prepareDefaultResponse code reason)).2 with hr
  set v' : SlotView := { v with
    slot := (withDefaultHeaders lib v.slot (prepareDefaultResponse code reason)).1 } with hv'
  exact serialize_move lib w (v := v') (h r rfl) (hans r) hu ⟨hok.registered, hok.streaming⟩ hready
    hcancelled

/-- A close, behind the bytes that were moved before it. -/
theorem close_move {k : Kernel} {v : SlotView} (es : List SlotEvent)
    (hf : k.focus.Plain ∨ ∃ m r, k.focus = .returned (some .close) m r) (hu : k.inUse = true)
    (he : ∀ e ∈ es, e.Transfer) (hclosed : v.kernel.closed .idle = k.closed .idle)
    (hstream : v.kernel.stream = k.stream) :
    Move k (es ++ (v.leave (slotClose v.slot)).2) (v.leave (slotClose v.slot)).1.kernel ∧
      (v.leave (slotClose v.slot)).1.slot.Ok := by
  obtain ⟨hkernel, hevents⟩ := kernel_slotClose v
  rw [hkernel, hevents, hclosed, hstream]
  exact ⟨.close hf hu he, ok_slotClose _⟩

variable (env : ServerEnv)

theorem no_transfer : ∀ e ∈ ([] : List SlotEvent), e.Transfer := by simp

theorem transfer_received (bytes : Bytes) : ∀ e ∈ [SlotEvent.received bytes], e.Transfer := by
  simp [SlotEvent.Transfer]

theorem plain_advance {v : SlotView} (h : v.focus = .advance) : v.kernel.focus.Plain :=
  .inr (.inl h)
theorem plain_away {v : SlotView} (h : v.focus = .away) : v.kernel.focus.Plain := .inl h


/-- Nothing but bytes and interest changes. -/
theorem leave_move {v : SlotView} {slot : Slot} {es : List SlotEvent} (hf : v.kernel.focus.Plain)
    (hk : (SlotView.mk slot .away v.tickets).kernel = { v.kernel with focus := .away })
    (he : ∀ e ∈ es, e.Transfer) : Move v.kernel es (SlotView.mk slot .away v.tickets).kernel := by
  rw [hk]
  exact .transfer hf (.inl rfl) he (fun h => absurd rfl h) (by simp)

/-- Feeding changes the parser only. -/
theorem slotFeed_slot (slot : Slot) : ∃ parser, (slotFeed env slot).2 = { slot with parser } :=
  ⟨_, rfl⟩

theorem accept_move {v : SlotView} (w : Platform) (sd : Option Int) (hf : v.focus = .away)
    (hu : v.slot.inUse = false) :
    Move v.kernel (v.goto (acceptConnection w v.slot sd)).2
        (v.goto (acceptConnection w v.slot sd)).1.kernel ∧
      (acceptConnection w v.slot sd).1.Ok := by
  cases sd with
  | none => exact ⟨.refuse hf hu, ok_of_closed rfl rfl⟩
  | some sd => exact ⟨.accept hf hu, ⟨by simp [acceptConnection, slotAcquire],
      by simp [acceptConnection, slotAcquire]⟩⟩

theorem handshake_move {v : SlotView} (hi : v.Inv) (w : Platform) (r : IoResult)
    (hf : v.focus = .advance) (hs : v.slot.state = .handshaking) :
    Move v.kernel (v.leave (slotDriveHandshake w v.slot r)).2
        (v.leave (slotDriveHandshake w v.slot r)).1.kernel ∧
      (slotDriveHandshake w v.slot r).1.Ok := by
  have hu : v.slot.inUse = true := hi.kernel.advance hf
  cases r with
  | ok =>
    refine ⟨.shake hf hs, Slot.Ok.arm ?_ w _ hu⟩
    exact ⟨hi.ok.registered, hi.ok.streaming⟩
  | tryAgain want => exact ⟨leave_move (plain_advance hf) rfl no_transfer, hi.ok.arm w _ hu⟩
  | failed => exact close_move [] (.inl (plain_advance hf)) hu (by simp) rfl rfl

theorem read_move {v : SlotView} (hi : v.Inv) (w : Platform) (r : ReadResult)
    (hf : v.focus = .advance) (hs : v.slot.state = .receiving) :
    Move v.kernel (v.goto (slotDriveReceive env w v.slot r)).2
        (v.goto (slotDriveReceive env w v.slot r)).1.kernel ∧
      (slotDriveReceive env w v.slot r).1.Ok := by
  have hu : v.slot.inUse = true := hi.kernel.advance hf
  cases r with
  | tryAgain want => exact ⟨leave_move (plain_advance hf) rfl no_transfer, hi.ok.arm w _ hu⟩
  | failed => exact close_move [] (.inl (plain_advance hf)) hu (by simp) rfl rfl
  | ok bytes =>
    have hrecv := transfer_received bytes
    have hslot := slotFeed_slot env (slotGot w v.slot bytes)
    rw [slotDriveReceive]
    revert hslot
    rcases slotFeed env (slotGot w v.slot bytes) with ⟨pr, slot⟩
    rintro ⟨parser, rfl⟩
    dsimp only
    split_ifs
    · exact ⟨.arrive hf hs hrecv, ⟨hi.ok.registered, hi.ok.streaming⟩⟩
    · exact ⟨.transfer (plain_advance hf) (.inr (.inl rfl)) hrecv (fun _ => hu) nofun,
        ⟨hi.ok.registered, hi.ok.streaming⟩⟩
    · exact close_move (v := ⟨_, .away, _⟩) [.received bytes] (.inl (plain_advance hf)) hu hrecv
        rfl rfl

theorem route_move {v : SlotView} (hf : v.focus = .route) :
    Move v.kernel (routeRequest env v).2 (routeRequest env v).1.kernel ∧
      (routeRequest env v).1.slot = v.slot := by
  unfold routeRequest
  dsimp only
  rcases routeLoop env v.slot.parser.request 0 env.routes false with ⟨matched, _ | route⟩
  · exact ⟨.unrouted hf, rfl⟩
  · exact ⟨.routed hf, rfl⟩

theorem conclude_move {v : SlotView} (hi : v.Inv) (w : Platform) {o : Option HandlerOutcome}
    {m : Bool} {r : HttpResponse} (hf : v.focus = .returned o m r) :
    Move v.kernel (v.leave (concludeRequest env w v.slot o m r)).2
        (v.leave (concludeRequest env w v.slot o m r)).1.kernel ∧
      (concludeRequest env w v.slot o m r).1.Ok := by
  obtain ⟨hu, hs⟩ := hi.kernel.returned hf
  have hempty := hi.kernel.empty (by rw [hs]; decide)
  cases o with
  | none =>
    set out := withDefaultHeaders env.lib v.slot (unroutedResponse env m) with hout
    have hprovider : (unroutedResponse env m).bodyProvider = none := by
      unfold unroutedResponse
      split_ifs <;> rfl
    exact serialize_move env.lib w (v := { v with slot := out.1 })
      (.unrouted hf hprovider) rfl hu ⟨hi.ok.registered, hi.ok.streaming⟩ hempty.1 hempty.2
  | some outcome =>
    cases outcome with
    | respond => exact serialize_move env.lib w (.handler hf) rfl hu hi.ok hempty.1 hempty.2
    | defer =>
      refine ⟨.park hf, Slot.Ok.arm ?_ w _ hu⟩
      exact ⟨hi.ok.registered, hi.ok.streaming⟩
    | close => exact close_move [] (.inr ⟨m, r, hf⟩) hu no_transfer rfl rfl

theorem probe_move {v : SlotView} (hi : v.Inv) (r : ReadResult) (hf : v.focus = .advance) :
    Move v.kernel (v.leave (slotProbePending v.slot r)).2
        (v.leave (slotProbePending v.slot r)).1.kernel ∧
      (slotProbePending v.slot r).1.Ok := by
  have hu : v.slot.inUse = true := hi.kernel.advance hf
  unfold slotProbePending
  split_ifs
  · exact ⟨leave_move (plain_advance hf) rfl no_transfer, hi.ok⟩
  · cases r with
    | ok bytes =>
      exact ⟨leave_move (plain_advance hf) rfl (transfer_received bytes),
        ⟨hi.ok.registered, hi.ok.streaming⟩⟩
    | tryAgain want => exact ⟨leave_move (plain_advance hf) rfl no_transfer, hi.ok⟩
    | failed => exact close_move [] (.inl (plain_advance hf)) hu no_transfer rfl rfl

theorem write_move {v : SlotView} (hi : v.Inv) (w : Platform) (written : Nat) (r : IoResult)
    (hf : v.focus = .advance) (hs : v.slot.state = .sending) :
    Move v.kernel (v.goto (slotDriveSend w v.slot written r)).2
        (v.goto (slotDriveSend w v.slot written r)).1.kernel ∧
      (slotDriveSend w v.slot written r).1.Ok := by
  have hu : v.slot.inUse = true := hi.kernel.advance hf
  have hwrote : ∀ e ∈ [SlotEvent.wrote (Block.window v.slot.sendBuffer v.slot.sendOffset written)],
      e.Transfer := by simp [SlotEvent.Transfer]
  cases r with
  | ok =>
    exact ⟨.transfer (plain_advance hf) (.inr (.inr rfl)) hwrote (fun _ => hu) (fun _ => hs),
      ⟨hi.ok.registered, hi.ok.streaming⟩⟩
  | tryAgain want =>
    refine ⟨leave_move (plain_advance hf) rfl hwrote, Slot.Ok.arm ?_ w _ hu⟩
    exact ⟨hi.ok.registered, hi.ok.streaming⟩
  | failed =>
    exact close_move (v := ⟨_, .away, _⟩) _ (.inl (plain_advance hf)) hu hwrote rfl rfl

theorem provide_move {v : SlotView} (hi : v.Inv) (bytes : Bytes) (hf : v.focus = .drained)
    (ha : v.slot.streamActive = true) :
    Move v.kernel (v.goto (slotProvide v.slot bytes)).2
        (v.goto (slotProvide v.slot bytes)).1.kernel ∧
      (slotProvide v.slot bytes).1.Ok := by
  have hstream : v.kernel.stream = some v.slot.stream := if_pos ha
  unfold slotProvide
  dsimp only
  split_ifs with hb
  · exact ⟨.provide hf hstream, ⟨hi.ok.registered, hi.ok.streaming⟩⟩
  · have hmove := @Move.exhaust _ _ bytes hf hstream
    rw [← finalizerCall_eq] at hmove
    refine ⟨?_, ?_⟩
    · convert hmove using 1
      · rfl
      · simp only [SlotView.goto, streamFinalize]
        rw [streamCleared_of_active]
        · ext1
          case focus => exact hf.symm
          all_goals rfl
        · exact ha
    · simp only [streamFinalize]
      rw [streamCleared_of_active]
      · exact ⟨hi.ok.registered, by rintro - ⟨⟩⟩
      · exact ha

theorem finish_move {v : SlotView} (hi : v.Inv) (w : Platform) (hf : v.focus = .drained)
    (hend : v.slot.streamActive = false ∨ v.slot.streamEof = true) :
    Move v.kernel (v.goto (slotFinishSend env w v.slot)).2
        (v.goto (slotFinishSend env w v.slot)).1.kernel ∧
      (slotFinishSend env w v.slot).1.Ok := by
  obtain ⟨hu, hs⟩ := hi.kernel.drained hf
  have hinactive : v.slot.streamActive = false := by
    by_contra ha
    have heof := hi.ok.streaming hu (by simpa using ha)
    simp_all
  have hstream : v.kernel.stream = none := if_neg (by simp [hinactive])
  -- a close at the end of a response finalizes nothing
  have hclose : ∀ slot : Slot, slot.streamActive = false →
      (SlotView.mk slot .away v.tickets).kernel.closed .idle = v.kernel.closed .idle →
      Move v.kernel (.finished :: (slotClose slot).2)
        (v.leave (slotClose slot)).1.kernel ∧ (slotClose slot).1.Ok := by
    intro slot hact hclosed
    obtain ⟨hkernel, hevents⟩ := kernel_slotClose ⟨slot, .away, v.tickets⟩
    have hnone : (SlotView.mk slot .away v.tickets).kernel.stream = none := if_neg (by simp [hact])
    rw [hnone] at hevents
    have hreleased : (slotClose slot).2 = [.released] := hevents
    have hmove := Move.finishClosed hf hstream
    rw [← hclosed, ← hkernel, ← hreleased] at hmove
    exact ⟨hmove, ok_slotClose _⟩
  have hok : (slotNextRequest w.now v.slot).Ok := ⟨hi.ok.registered, hi.ok.streaming⟩
  unfold slotFinishSend
  by_cases hwants : v.slot.clientWantsClose = true
  · rw [if_pos hwants]
    exact hclose v.slot hinactive rfl
  · rw [if_neg hwants]
    by_cases hused : (slotNextRequest w.now v.slot).recvUsed > 0
    · simp only [if_pos hused]
      have hslot := slotFeed_slot env (slotNextRequest w.now v.slot)
      revert hslot
      rcases slotFeed env (slotNextRequest w.now v.slot) with ⟨pr, slot⟩
      rintro ⟨parser, rfl⟩
      dsimp only
      split_ifs
      · exact ⟨.finish hf hstream (.inr rfl), ⟨hok.registered, hok.streaming⟩⟩
      · exact hclose _ hinactive rfl
      · refine ⟨.finish hf hstream (.inl rfl), Slot.Ok.arm ?_ w _ hu⟩
        exact ⟨hok.registered, hok.streaming⟩
    · simp only [if_neg hused]
      exact ⟨.finish hf hstream (.inl rfl), hok.arm w _ hu⟩

theorem flush_move {v : SlotView} (hi : v.Inv) (w : Platform) (hf : v.focus = .away) :
    Move v.kernel (v.leave (slotFlush env w v.slot)).2 (v.leave (slotFlush env w v.slot)).1.kernel ∧
      (slotFlush env w v.slot).1.Ok := by
  unfold slotFlush
  split_ifs with h
  · obtain ⟨hu, hs, hmail⟩ := h
    dsimp only
    split_ifs with hc
    · exact respond_move env.lib w
        (v := { v with slot := { v.slot with
          pendingReady := false, pendingCancelled := false, state := .sending,
          clientWantsClose := true } })
        (fun r hr => .cancelled hf hu hs hc hr) (fun _ => rfl) hu
        ⟨hi.ok.registered, hi.ok.streaming⟩ rfl rfl
    · have hready : v.slot.pendingReady = true := by simpa [hc] using hmail
      exact serialize_move env.lib w
        (v := { v with slot := { v.slot with
          pendingReady := false, pendingCancelled := false, state := .sending } })
        (.completed hf hu hs hready (Bool.eq_false_iff.mpr hc)) rfl hu
        ⟨hi.ok.registered, hi.ok.streaming⟩ rfl rfl
  · exact ⟨leave_move (plain_away hf) rfl no_transfer, hi.ok⟩

theorem sweepPending_move {v : SlotView} (hi : v.Inv) (now : Nat) (w : Platform)
    (hf : v.focus = .away) :
    Move v.kernel (v.leave (slotSweepPending env now w v.slot)).2
        (v.leave (slotSweepPending env now w v.slot)).1.kernel ∧
      (slotSweepPending env now w v.slot).1.Ok := by
  unfold slotSweepPending
  split_ifs with h
  · obtain ⟨hu, hs, hready, hcancelled, -⟩ := h
    exact respond_move env.lib w
      (v := { v with slot := { v.slot with state := .sending, clientWantsClose := true } })
      (fun r hr => .expired hf hu hs hready hcancelled hr) (fun _ => rfl) hu
      ⟨hi.ok.registered, hi.ok.streaming⟩ hready hcancelled
  · exact ⟨leave_move (plain_away hf) rfl no_transfer, hi.ok⟩

theorem teardown_move {v : SlotView} (hi : v.Inv) (hf : v.focus = .away)
    (hu : v.slot.inUse = true) :
    Move v.kernel (v.leave (slotTeardown v.slot)).2 (v.leave (slotTeardown v.slot)).1.kernel ∧
      (slotTeardown v.slot).1.Ok := by
  have hslot := slotTeardown_slot v.slot fun h => (hi.ok.registered h).2
  refine ⟨?_, ?_⟩
  · have hmove := @Move.close v.kernel [] (streamCleared v.slot).state (.inl (plain_away hf)) hu
      no_transfer
    rw [← finalizerCall_eq] at hmove
    convert hmove using 1
    · rfl
    · simp only [SlotView.leave, SlotView.kernel, Kernel.closed, hslot]
      simp
  · rw [hslot]
    exact ok_of_closed rfl rfl

theorem post_move {v : SlotView} (hi : v.Inv) {n : Nat} {ticket : Deferral}
    (ht : v.tickets[n]? = some ticket) (p : Post) :
    Move v.kernel [.posted n p (deferralPost v.slot ticket p).1]
        ({ v with slot := (deferralPost v.slot ticket p).2 } : SlotView).kernel ∧
      (deferralPost v.slot ticket p).2.Ok := by
  have hmove := @Move.post v.kernel n ticket p ht
  have hpost : (v.kernel.post ticket.generation p).1 = (deferralPost v.slot ticket p).1 ∧
      (v.kernel.post ticket.generation p).2 =
        ({ v with slot := (deferralPost v.slot ticket p).2 } : SlotView).kernel ∧
      (deferralPost v.slot ticket p).2.Ok := by
    by_cases h1 : v.kernel.inUse = false ∨ v.kernel.state ≠ .pending ∨
        v.kernel.generation ≠ ticket.generation
    · have hk : v.kernel.post ticket.generation p = (.notFound, v.kernel) := if_pos h1
      have hs : deferralPost v.slot ticket p = (.notFound, v.slot) := if_pos h1
      rw [hk, hs]
      exact ⟨rfl, rfl, hi.ok⟩
    · by_cases h2 : v.kernel.ready = true ∨ v.kernel.cancelled = true
      · have hk : v.kernel.post ticket.generation p = (.error, v.kernel) :=
          (if_neg h1).trans (if_pos h2)
        have hs : deferralPost v.slot ticket p = (.error, v.slot) := (if_neg h1).trans (if_pos h2)
        rw [hk, hs]
        exact ⟨rfl, rfl, hi.ok⟩
      · cases p with
        | complete r =>
          have hk : v.kernel.post ticket.generation (.complete r) =
              (.ok, { v.kernel with response := r, ready := true }) :=
            (if_neg h1).trans (if_neg h2)
          have hs : deferralPost v.slot ticket (.complete r) =
              (.ok, { v.slot with pendingResponse := r, pendingReady := true }) :=
            (if_neg h1).trans (if_neg h2)
          rw [hk, hs]
          exact ⟨rfl, rfl, ⟨hi.ok.registered, hi.ok.streaming⟩⟩
        | cancel =>
          have hk : v.kernel.post ticket.generation .cancel =
              (.ok, { v.kernel with cancelled := true }) := (if_neg h1).trans (if_neg h2)
          have hs : deferralPost v.slot ticket .cancel =
              (.ok, { v.slot with pendingCancelled := true }) := (if_neg h1).trans (if_neg h2)
          rw [hk, hs]
          exact ⟨rfl, rfl, ⟨hi.ok.registered, hi.ok.streaming⟩⟩
  rw [hpost.1, hpost.2.1] at hmove
  exact ⟨hmove, hpost.2.2⟩

/-- Every step of a slot is a move of its kernel, and keeps the slot well formed. -/
theorem slotStep_move {v v' : SlotView} {a : SlotAction} {es : List SlotEvent} (hi : v.Inv)
    (h : slotStep env v a = some (v', es)) : Move v.kernel es v'.kernel ∧ v'.Inv := by
  suffices hmove : Move v.kernel es v'.kernel ∧ v'.slot.Ok from
    ⟨hmove.1, hmove.1.inv hi.kernel, hmove.2⟩
  unfold slotStep at h
  split_ifs at h with hen
  rw [Option.some.injEq] at h
  have hv : v' = (slotEffect env v a).1 := by rw [h]
  have he : es = (slotEffect env v a).2 := by rw [h]
  subst hv he
  cases a with
  | accept w sd =>
    obtain ⟨hf, hu⟩ := of_decide_eq_true hen
    exact accept_move w sd hf hu
  | event error =>
    obtain ⟨hf, hr⟩ := of_decide_eq_true hen
    have hu := (hi.ok.registered hr).1
    cases error with
    | true => exact close_move [] (.inl (plain_away hf)) hu no_transfer rfl rfl
    | false => exact ⟨.transfer (plain_away hf) (.inr (.inl rfl)) no_transfer (fun _ => hu) nofun,
        hi.ok⟩
  | handshake w r =>
    obtain ⟨hf, hs⟩ := of_decide_eq_true hen
    exact handshake_move hi w r hf hs
  | tooLarge w =>
    obtain ⟨hf, hs, -⟩ := of_decide_eq_true hen
    have hu : v.slot.inUse = true := hi.kernel.advance hf
    have hempty := hi.kernel.empty (by rw [show v.kernel.state = _ from hs]; decide)
    exact respond_move env.lib w (v := { v with slot := { v.slot with clientWantsClose := true } })
      (fun r hr => .tooLarge hf hs hr) (fun _ => rfl) hu ⟨hi.ok.registered, hi.ok.streaming⟩
      hempty.1 hempty.2
  | read w r =>
    obtain ⟨hf, hs, -⟩ := of_decide_eq_true hen
    exact read_move env hi w r hf hs
  | route =>
    obtain ⟨hmove, hslot⟩ := route_move env (of_decide_eq_true hen)
    exact ⟨hmove, by rw [slotEffect, hslot]; exact hi.ok⟩
  | defer =>
    cases hf : v.focus with
    | handling route matched => exact ⟨.take hf, hi.ok⟩
    | _ => simp [SlotView.enabled, hf] at hen
  | handler outcome response =>
    cases hf : v.focus with
    | handling route matched =>
      simp only [slotEffect, handlerReturned, hf]
      exact ⟨.handled hf, hi.ok⟩
    | _ => simp [SlotView.enabled, hf] at hen
  | conclude w =>
    cases hf : v.focus with
    | returned o m r =>
      simp only [slotEffect, hf]
      exact conclude_move env hi w hf
    | _ => simp [SlotView.enabled, hf] at hen
  | probe r =>
    obtain ⟨hf, -⟩ := of_decide_eq_true hen
    exact probe_move hi r hf
  | write w written r =>
    obtain ⟨hf, hs, -⟩ := of_decide_eq_true hen
    exact write_move hi w written r hf hs
  | drain =>
    obtain ⟨hf, hs, -⟩ := of_decide_eq_true hen
    exact ⟨.transfer (plain_advance hf) (.inr (.inr rfl)) no_transfer
      (fun _ => hi.kernel.advance hf) (fun _ => hs), hi.ok⟩
  | provide bytes =>
    obtain ⟨hf, ha, -⟩ := of_decide_eq_true hen
    exact provide_move hi bytes hf ha
  | finish w =>
    obtain ⟨hf, hend⟩ := of_decide_eq_true hen
    exact finish_move env hi w hf hend
  | stray =>
    obtain ⟨hf, -⟩ := of_decide_eq_true hen
    exact close_move [] (.inl (plain_advance hf)) (hi.kernel.advance hf) no_transfer rfl rfl
  | flush w => exact flush_move env hi w (of_decide_eq_true hen)
  | sweepPending now w => exact sweepPending_move env hi now w (of_decide_eq_true hen)
  | sweepIdle now =>
    have hf : v.focus = .away := of_decide_eq_true hen
    simp only [slotEffect, slotSweepIdle]
    split_ifs with hidle
    · have hu : v.slot.inUse = true := by
        have := hidle.1
        simp only [slotWaitsOnPeer, Bool.and_eq_true] at this
        exact this.1
      exact close_move [] (.inl (plain_away hf)) hu no_transfer rfl rfl
    · exact ⟨leave_move (plain_away hf) rfl no_transfer, hi.ok⟩
  | reclaim =>
    obtain ⟨hf, hidle⟩ := of_decide_eq_true hen
    have hu : v.slot.inUse = true := by
      simp only [slotIsIdleBetweenRequests, Bool.and_eq_true] at hidle
      exact hidle.1.1
    exact close_move [] (.inl (plain_away hf)) hu no_transfer rfl rfl
  | teardown =>
    have hf : v.focus = .away := of_decide_eq_true hen
    simp only [slotEffect]
    split_ifs with hu
    · exact teardown_move hi hf hu
    · refine ⟨?_, hi.ok⟩
      have hmove := Move.transfer (f := .away) (plain_away hf) (.inl rfl) no_transfer
        (fun h => absurd rfl h) nofun
      convert hmove using 1
      ext1
      case focus => exact hf
      all_goals rfl
  | post n p =>
    have hn : n < v.tickets.length := of_decide_eq_true hen
    have ht : v.tickets[n]? = some v.tickets[n] := List.getElem?_eq_getElem hn
    simp only [slotEffect, ht]
    exact post_move hi ht p

end HttpC
