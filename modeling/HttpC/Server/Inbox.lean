import HttpC.Server.System
import HttpC.RequestSequence

/-!
# What a slot does with received bytes

The receive buffer of a slot with its parser, and the phase a request is in. `Intake` lists
what can happen to them, and every step of the slot is an intake.

## Main results

* `slotStep_intake` — a step of a slot is an intake of its inbox.
-/

namespace HttpC

/-- Where a slot stands with the request at the front of its receive buffer. -/
inductive Phase where
  | free
  | shaking
  | reading
  | routing
  /-- In a handler, or parked. -/
  | serving
  | sending
  | stray
  deriving DecidableEq, Repr

def Phase.of (inUse : Bool) (state : SlotState) (focus : Focus) : Phase :=
  if inUse then
    match focus with
    | .route => .routing
    | .handling _ _ | .returned _ _ _ => .serving
    | .away | .advance | .drained =>
      match state with
      | .handshaking => .shaking
      | .receiving => .reading
      | .pending => .serving
      | .sending => .sending
      | .idle | .closing => .stray
  else .free

@[ext]
structure Inbox where
  phase : Phase
  /-- The bytes received and not yet consumed. -/
  held : Span
  parser : HttpRequestParser
  /-- `client_wants_close`. -/
  closing : Bool
  /-- `recv_buffer_size`. -/
  capacity : Nat
  deriving DecidableEq, Repr

def SlotView.inbox (v : SlotView) : Inbox where
  phase := .of v.slot.inUse v.slot.state v.focus
  held := v.slot.received
  parser := v.slot.parser
  closing := v.slot.clientWantsClose
  capacity := v.slot.recvBufferSize

/-- The receive buffer has its announced size, and in use it is used within it. -/
structure Slot.Stored (slot : Slot) : Prop where
  length : slot.recvBuffer.length = slot.recvBufferSize
  used : slot.inUse = true → slot.recvUsed ≤ slot.recvBufferSize

namespace Span

/-- The span with these bytes behind it. -/
def append (s : Span) (bytes : Bytes) : Span := ⟨s.ptr, s.bytes ++ bytes⟩

/-- The span without its first `n` bytes, moved down to its start. -/
def shift (s : Span) (n : Nat) : Span := ⟨s.ptr, s.bytes.drop n⟩

end Span

/-- Events that say nothing about requests. -/
def SlotEvent.Aside : SlotEvent → Prop
  | .accepted | .received _ | .dispatched _ | .answered _ _ | .finished | .released => False
  | _ => True

namespace Inbox

/-- When an event may be logged. -/
def Allows (b : Inbox) : SlotEvent → Prop
  | .dispatched request => b.phase = .routing ∧ request = b.parser.request
  | .answered a r =>
    b.phase = .serving ∧ (a = .refused → r.code ≠ HTTP_CODE_413) ∨
      b.phase = .reading ∧ a = .refused ∧ r.code = HTTP_CODE_413 ∧ b.capacity ≤ b.held.size
  | .finished => b.phase = .sending
  | .accepted | .released => False
  | _ => True

/-- The phase after a feed with this result. -/
def Arrives (result : Result) (phase : Phase) : Prop :=
  result = .ok ∧ phase = .routing ∨ result = .tryAgain ∧ phase = .reading

end Inbox

variable (lib : CommonLib)

/-- What can happen to an inbox, with the events it logs. -/
inductive Intake : Inbox → List SlotEvent → Inbox → Prop
  | stay {b : Inbox} {es : List SlotEvent} (he : ∀ e ∈ es, e.Aside) : Intake b es b
  | accept {b : Inbox} (hb : b.phase = .free) :
    Intake b [.accepted] { b with phase := .shaking, held := ⟨b.held.ptr, []⟩, closing := false }
  /-- One more event, and the slot is closed. -/
  | release {b b' : Inbox} {e : Option SlotEvent} {es : List SlotEvent} (he : ∀ x ∈ e, b.Allows x)
    (hes : ∀ x ∈ es, x = .released ∨ x.Aside) (hb : b'.phase = .free)
    (hcap : b'.capacity = b.capacity) : Intake b (e.toList ++ es) b'
  | shake {b : Inbox} (hb : b.phase = .shaking) :
    Intake b [] { b with phase := .reading, parser := httpRequestParserInit }
  | read {b : Inbox} {bytes : Bytes} {result : Result} {p : HttpRequestParser} {phase : Phase}
    {closing : Bool} (hb : b.phase = .reading)
    (hfeed : httpRequestParserFeed lib b.parser (b.held.append bytes) = (result, p))
    (hphase : Inbox.Arrives result phase) :
    Intake b [.received bytes] { b with phase, held := b.held.append bytes, parser := p, closing }
  | dispatch {b : Inbox} (hb : b.phase = .routing) :
    Intake b [.dispatched b.parser.request] { b with phase := .serving }
  /-- Pipelined bytes arrive while the request is parked. -/
  | probe {b : Inbox} {bytes : Bytes} (hb : b.phase = .serving) :
    Intake b [.received bytes] { b with held := b.held.append bytes }
  | answer {b : Inbox} {a : Answer} {r : HttpResponse} {closing : Bool}
    (h : b.Allows (.answered a r)) (hclosing : b.phase = .reading → closing = true) :
    Intake b [.answered a r] { b with phase := .sending, closing }
  | finish {b : Inbox} {result : Result} {p : HttpRequestParser} {phase : Phase} {closing : Bool}
    (hb : b.phase = .sending) (hopen : b.closing = false)
    (hfeed : httpRequestParserFeed lib httpRequestParserInit
      (b.held.shift (httpRequestParserGetConsumed b.parser)) = (result, p))
    (hphase : Inbox.Arrives result phase) :
    Intake b [.finished] { b with
      phase, held := b.held.shift (httpRequestParserGetConsumed b.parser), parser := p, closing }

theorem Intake.to {lib : CommonLib} {b b' b'' : Inbox} {es : List SlotEvent}
    (h : Intake lib b es b') (hb : b'' = b') : Intake lib b es b'' := hb ▸ h

/-! ## Steps are intakes -/

theorem Phase.of_plain {f f' : Focus} (hf : f.Plain) (hf' : f'.Plain) (inUse : Bool)
    (state : SlotState) : Phase.of inUse state f = Phase.of inUse state f' := by
  rcases hf with rfl | rfl | rfl <;> rcases hf' with rfl | rfl | rfl <;> rfl

theorem Phase.of_free (state : SlotState) (f : Focus) : Phase.of false state f = .free := rfl

theorem aside_finalizerCall (slot : Slot) : ∀ e ∈ finalizerCall slot, e.Aside := by
  intro e he
  obtain rfl := finalized_of_mem_finalizerCall he
  trivial

theorem slotClose_storage (slot : Slot) : (slotClose slot).1.recvBuffer = slot.recvBuffer ∧
    (slotClose slot).1.recvBufferSize = slot.recvBufferSize := by
  rw [slotClose_slot, streamCleared]
  split_ifs <;> exact ⟨rfl, rfl⟩

theorem Slot.Stored.slotClose {slot : Slot} (h : slot.Stored) : (slotClose slot).1.Stored where
  length := by
    rw [(slotClose_storage slot).1, (slotClose_storage slot).2]
    exact h.length
  used _ := by
    rw [slotClose_slot]
    exact Nat.zero_le _

variable {lib} {b : Inbox} {v : SlotView}

/-- A close, behind at most one more event. -/
theorem release_intake (e : Option SlotEvent) (he : ∀ x ∈ e, b.Allows x)
    (hcap : v.slot.recvBufferSize = b.capacity) (hstored : v.slot.Stored) :
    Intake lib b (e.toList ++ (v.leave (slotClose v.slot)).2)
        (v.leave (slotClose v.slot)).1.inbox ∧ (slotClose v.slot).1.Stored := by
  refine ⟨.release he ?_ ?_ ?_, hstored.slotClose⟩
  · intro x hx
    rcases List.mem_append.mp hx with hx | hx
    · exact .inr (aside_finalizerCall _ x hx)
    · exact .inl (List.mem_singleton.mp hx)
  · simp only [SlotView.leave, SlotView.inbox, slotClose_slot]
    exact Phase.of_free _ _
  · exact (slotClose_storage v.slot).2.trans hcap

/-- A response goes out, or does not fit and the slot is closed. -/
theorem serialize_intake (w : Platform) {a : Answer} {r : HttpResponse}
    (hallow : b.Allows (.answered a r)) (hheld : v.slot.received = b.held)
    (hparser : v.slot.parser = b.parser) (hcap : v.slot.recvBufferSize = b.capacity)
    (hclosing : b.phase = .reading → v.slot.clientWantsClose = true)
    (hu : v.slot.inUse = true) (hstored : v.slot.Stored) :
    Intake lib b (.answered a r :: (serializeAndSend lib w v.slot r).2)
        (v.leave (serializeAndSend lib w v.slot r)).1.inbox ∧
      (serializeAndSend lib w v.slot r).1.Stored := by
  obtain ⟨active, eof, provider, finalizer, ctx, hinstall, -, -⟩ := installStream_spec v.slot r
  obtain ⟨memory, hcase | ⟨used, hcase⟩⟩ := serializeAndSend_cases lib w v.slot r
  · rw [hcase, hinstall]
    exact release_intake (v := ⟨_, v.focus, v.tickets⟩) (some (.answered a r))
      (by rintro x ⟨⟩; exact hallow) hcap ⟨hstored.length, hstored.used⟩
  · rw [hcase, hinstall]
    refine ⟨?_, ⟨hstored.length, hstored.used⟩⟩
    refine (Intake.answer hallow hclosing).to (Inbox.ext ?_ hheld hparser rfl hcap)
    change Phase.of v.slot.inUse .sending .away = _
    rw [hu]
    rfl

/-- A response the server makes itself. -/
theorem respond_intake (w : Platform) {a : Answer} {code reason : Span}
    (hallow : ∀ r : HttpResponse, r.code = code → b.Allows (.answered a r))
    (hheld : v.slot.received = b.held) (hparser : v.slot.parser = b.parser)
    (hcap : v.slot.recvBufferSize = b.capacity)
    (hclosing : b.phase = .reading → v.slot.clientWantsClose = true)
    (hu : v.slot.inUse = true) (hstored : v.slot.Stored) :
    Intake lib b (v.leave (respondWithStatus lib w v.slot a code reason)).2
        (v.leave (respondWithStatus lib w v.slot a code reason)).1.inbox ∧
      (respondWithStatus lib w v.slot a code reason).1.Stored :=
  serialize_intake (v := { v with
    slot := (withDefaultHeaders lib v.slot (prepareDefaultResponse code reason)).1 }) w
    (hallow _ rfl) hheld hparser hcap hclosing hu ⟨hstored.length, hstored.used⟩

variable {env : ServerEnv}

theorem aside_nil : ∀ e ∈ ([] : List SlotEvent), e.Aside := by simp

theorem aside_singleton (e : SlotEvent) (he : e.Aside) : ∀ x ∈ [e], x.Aside := by simpa using he

/-- The slot is left as it is, but for sockets, streams and deferrals. -/
theorem stay_intake {es : List SlotEvent} {slot : Slot} {f : Focus} (he : ∀ e ∈ es, e.Aside)
    (hinbox : (SlotView.mk slot f v.tickets).inbox = v.inbox) :
    Intake lib v.inbox es (SlotView.mk slot f v.tickets).inbox := by
  rw [hinbox]
  exact .stay he

theorem inbox_focus {f f' : Focus} (slot : Slot) (tickets : List Deferral) (hf : f.Plain)
    (hf' : f'.Plain) :
    (SlotView.mk slot f tickets).inbox = (SlotView.mk slot f' tickets).inbox := by
  simp only [SlotView.inbox, Phase.of_plain hf hf']

/-- The phase of a slot in use. -/
theorem SlotView.phase_eq (v : SlotView) {state : SlotState} {f : Focus}
    (hu : v.slot.inUse = true) (hs : v.slot.state = state) (hf : v.focus = f) :
    v.inbox.phase = Phase.of true state f := by
  rw [← hu, ← hs, ← hf]
  rfl

theorem phase_reading {v : SlotView} (hi : v.Inv) (hf : v.focus = .advance)
    (hs : v.slot.state = .receiving) : v.inbox.phase = .reading :=
  v.phase_eq (hi.kernel.advance hf) hs hf

/-- Bytes behind those the slot holds. -/
theorem received_slotStore {slot : Slot} (h : slot.Stored) (hu : slot.inUse = true) {bytes : Bytes}
    (hfit : bytes.length ≤ slot.recvBufferSize - slot.recvUsed) :
    (slotStore slot bytes).received = slot.received.append bytes ∧
      (slotStore slot bytes).Stored := by
  have hused := h.used hu
  have hlen := h.length
  refine ⟨?_, ⟨?_, fun _ => ?_⟩⟩
  · simp only [Slot.received, slotStore, Span.append, Span.mk.injEq, true_and]
    exact Block.take_overwrite_append (by omega)
  · simp only [slotStore]
    rw [Block.length_overwrite (by omega), hlen]
  · simp only [slotStore]
    omega

theorem read_intake (hi : v.Inv) (h : v.slot.Stored) (w : Platform) (r : ReadResult)
    (hf : v.focus = .advance) (hs : v.slot.state = .receiving)
    (hfit : r.got ≤ v.slot.recvBufferSize - v.slot.recvUsed) :
    Intake env.lib v.inbox (v.goto (slotDriveReceive env w v.slot r)).2
        (v.goto (slotDriveReceive env w v.slot r)).1.inbox ∧
      (slotDriveReceive env w v.slot r).1.Stored := by
  have hu : v.slot.inUse = true := hi.kernel.advance hf
  have hphase := phase_reading hi hf hs
  cases r with
  | tryAgain want =>
    refine ⟨stay_intake aside_nil ?_, ⟨h.length, h.used⟩⟩
    exact (inbox_focus _ _ (.inl rfl) (.inr (.inl rfl))).trans (by rw [← hf]; rfl)
  | failed => exact release_intake none (by simp) rfl h
  | ok bytes =>
    obtain ⟨hheld, hstored⟩ := received_slotStore h hu hfit
    have hslot := slotFeed_slot env (slotGot w v.slot bytes)
    have hfeed : httpRequestParserFeed env.lib v.inbox.parser (v.inbox.held.append bytes) =
        ((slotFeed env (slotGot w v.slot bytes)).1,
          (slotFeed env (slotGot w v.slot bytes)).2.parser) := by
      simp only [SlotView.inbox, ← hheld]
      rfl
    rw [slotDriveReceive]
    revert hslot hfeed
    rcases slotFeed env (slotGot w v.slot bytes) with ⟨pr, slot⟩
    rintro ⟨parser, rfl⟩ hfeed
    have hread := fun phase closing =>
      @Intake.read env.lib _ _ _ _ phase closing hphase hfeed
    dsimp only
    split_ifs with hok hagain
    · refine ⟨?_, ⟨hstored.length, hstored.used⟩⟩
      refine (hread _ _ (.inl ⟨hok, rfl⟩)).to (Inbox.ext ?_ hheld rfl rfl rfl)
      change Phase.of v.slot.inUse v.slot.state .route = _
      rw [hu]
      rfl
    · refine ⟨?_, ⟨hstored.length, hstored.used⟩⟩
      refine (hread _ _ (.inr ⟨hagain, rfl⟩)).to (Inbox.ext ?_ hheld rfl rfl rfl)
      change Phase.of v.slot.inUse v.slot.state .advance = _
      rw [hu, hs]
      rfl
    · exact release_intake (v := ⟨_, v.focus, v.tickets⟩) (some (.received bytes))
        (by rintro x ⟨⟩; trivial) rfl ⟨hstored.length, hstored.used⟩

theorem probe_intake (hi : v.Inv) (h : v.slot.Stored) (r : ReadResult) (hf : v.focus = .advance)
    (hs : v.slot.state = .pending) (hfit : r.got ≤ v.slot.recvBufferSize - v.slot.recvUsed) :
    Intake env.lib v.inbox (v.leave (slotProbePending v.slot r)).2
        (v.leave (slotProbePending v.slot r)).1.inbox ∧
      (slotProbePending v.slot r).1.Stored := by
  have hu : v.slot.inUse = true := hi.kernel.advance hf
  have hstay : Intake env.lib v.inbox [] (SlotView.mk v.slot .away v.tickets).inbox := by
    refine stay_intake aside_nil ?_
    exact (inbox_focus _ _ (.inl rfl) (.inr (.inl rfl))).trans (by rw [← hf])
  unfold slotProbePending
  split_ifs
  · exact ⟨hstay, h⟩
  · cases r with
    | tryAgain want => exact ⟨hstay, h⟩
    | failed => exact release_intake none (by simp) rfl h
    | ok bytes =>
      obtain ⟨hheld, hstored⟩ := received_slotStore h hu hfit
      refine ⟨?_, hstored⟩
      have hphase : v.inbox.phase = .serving := v.phase_eq hu hs hf
      refine (@Intake.probe _ _ bytes hphase).to (Inbox.ext ?_ hheld rfl rfl rfl)
      change Phase.of v.slot.inUse v.slot.state .away = v.inbox.phase
      rw [hphase, hu, hs]
      rfl

/-- What `slot_finish_send` leaves of the receive buffer. -/
theorem received_slotNextRequest {slot : Slot} (h : slot.Stored) (hu : slot.inUse = true)
    (now : Nat) :
    (slotNextRequest now slot).received =
        slot.received.shift (httpRequestParserGetConsumed slot.parser) ∧
      (slotNextRequest now slot).Stored := by
  have hused := h.used hu
  have hlen := h.length
  set consumed := min (httpRequestParserGetConsumed slot.parser) slot.recvUsed with hconsumed
  have hheld : slot.received.bytes.drop (httpRequestParserGetConsumed slot.parser) =
      Block.window slot.recvBuffer consumed (slot.recvUsed - consumed) := by
    rcases Nat.le_total (httpRequestParserGetConsumed slot.parser) slot.recvUsed with hle | hle
    · rw [hconsumed, Nat.min_eq_left hle]
      exact List.drop_take
    · rw [hconsumed, Nat.min_eq_right hle, Nat.sub_self, Block.window_zero_length]
      exact List.drop_eq_nil_of_le (by simp [Slot.received]; omega)
  have hwindow : (Block.window slot.recvBuffer consumed (slot.recvUsed - consumed)).length =
      slot.recvUsed - consumed := Block.length_window (by omega)
  have hbuffer : (slotNextRequest now slot).recvBuffer =
      if slot.recvUsed - consumed > 0 ∧ consumed > 0 then
        Block.move slot.recvBuffer 0 consumed (slot.recvUsed - consumed)
      else slot.recvBuffer := rfl
  refine ⟨?_, ⟨?_, fun _ => ?_⟩⟩
  · rw [Span.shift, hheld]
    change (⟨slot.recvBufferPtr, (slotNextRequest now slot).recvBuffer.take
      (slot.recvUsed - consumed)⟩ : Span) = ⟨slot.recvBufferPtr, _⟩
    rw [hbuffer]
    split_ifs with hmove
    · have htake := Block.take_overwrite_append (l := slot.recvBuffer) (i := 0)
        (d := Block.window slot.recvBuffer consumed (slot.recvUsed - consumed)) (Nat.zero_le _)
      rw [hwindow, Nat.zero_add, List.take_zero, List.nil_append] at htake
      rw [Block.move, htake]
    · rcases Nat.eq_zero_or_pos consumed with hzero | hpos
      · rw [hzero, Block.window, List.drop_zero]
      · rw [show slot.recvUsed - consumed = 0 by omega, List.take_zero, Block.window_zero_length]
  · rw [hbuffer]
    split_ifs with hmove
    · rw [Block.move, Block.length_overwrite (by rw [hwindow]; omega)]
      exact hlen
    · exact hlen
  · exact (Nat.sub_le _ _).trans hused

/-- A fresh parser makes nothing of no bytes. -/
theorem feed_init_nil {lib : CommonLib} {s : Span} (h : s.bytes = []) :
    httpRequestParserFeed lib httpRequestParserInit s = (.tryAgain, httpRequestParserInit) := by
  have hmissing : headStatus lib s.bytes = .missing := by rw [h]; rfl
  obtain ⟨h1, h2⟩ := @feed_missing lib _ _ fresh_init hmissing
  have hsize : s.size = 0 := by rw [Span.size, h]; rfl
  rw [if_pos hsize] at h2
  exact Prod.ext h1 h2

theorem finish_intake (hi : v.Inv) (h : v.slot.Stored) (w : Platform) (hf : v.focus = .drained) :
    Intake env.lib v.inbox (v.goto (slotFinishSend env w v.slot)).2
        (v.goto (slotFinishSend env w v.slot)).1.inbox ∧
      (slotFinishSend env w v.slot).1.Stored := by
  obtain ⟨hu, hs⟩ := hi.kernel.drained hf
  have hphase : v.inbox.phase = .sending := v.phase_eq hu hs hf
  have hallow : ∀ x ∈ some SlotEvent.finished, v.inbox.Allows x := by
    rintro x ⟨⟩
    exact hphase
  obtain ⟨hheld, hstored⟩ := received_slotNextRequest h hu w.now
  unfold slotFinishSend
  by_cases hwants : v.slot.clientWantsClose = true
  · rw [if_pos hwants]
    exact release_intake (some .finished) hallow rfl h
  · rw [if_neg hwants]
    have hfinish := fun result p phase closing => @Intake.finish env.lib _ result p phase closing
      hphase (Bool.eq_false_iff.mpr hwants)
    have hshift : v.inbox.held.shift (httpRequestParserGetConsumed v.inbox.parser) =
        (slotNextRequest w.now v.slot).received := hheld.symm
    rw [hshift] at hfinish
    by_cases hused : (slotNextRequest w.now v.slot).recvUsed > 0
    · simp only [if_pos hused]
      have hslot := slotFeed_slot env (slotNextRequest w.now v.slot)
      have hfeed : httpRequestParserFeed env.lib httpRequestParserInit
          (slotNextRequest w.now v.slot).received =
          ((slotFeed env (slotNextRequest w.now v.slot)).1,
            (slotFeed env (slotNextRequest w.now v.slot)).2.parser) := rfl
      revert hslot hfeed
      rcases slotFeed env (slotNextRequest w.now v.slot) with ⟨pr, slot⟩
      rintro ⟨parser, rfl⟩ hfeed
      dsimp only
      split_ifs with hok herr
      · refine ⟨(hfinish _ _ _ _ hfeed (.inl ⟨hok, rfl⟩)).to (Inbox.ext ?_ rfl rfl rfl rfl),
          ⟨hstored.length, hstored.used⟩⟩
        change Phase.of v.slot.inUse .receiving .route = _
        rw [show v.slot.inUse = true from hu]
        rfl
      · exact release_intake (v := ⟨_, v.focus, v.tickets⟩) (some .finished) hallow rfl
          ⟨hstored.length, hstored.used⟩
      · have hagain : pr = .tryAgain := by
          obtain ⟨-, hres⟩ := @feed_of_fresh env.lib _
            (slotNextRequest w.now v.slot).received fresh_init
          rw [hfeed] at hres
          dsimp only at hres
          unfold RequestParserState.result at hres
          split at hres
          · exact absurd hres hok
          · exact absurd (by simp [hres]) herr
          · exact hres
        refine ⟨(hfinish _ _ _ _ hfeed (.inr ⟨hagain, rfl⟩)).to (Inbox.ext ?_ rfl rfl rfl rfl),
          ⟨hstored.length, hstored.used⟩⟩
        change Phase.of v.slot.inUse .receiving .away = _
        rw [show v.slot.inUse = true from hu]
        rfl
    · simp only [if_neg hused]
      have hfeed : httpRequestParserFeed env.lib httpRequestParserInit
          (slotNextRequest w.now v.slot).received = (.tryAgain, httpRequestParserInit) :=
        feed_init_nil (by rw [Slot.received, Nat.eq_zero_of_not_pos hused]; rfl)
      refine ⟨(hfinish _ _ _ _ hfeed (.inr ⟨rfl, rfl⟩)).to (Inbox.ext ?_ rfl rfl rfl rfl),
        ⟨hstored.length, hstored.used⟩⟩
      change Phase.of v.slot.inUse .receiving .away = _
      rw [show v.slot.inUse = true from hu]
      rfl

theorem conclude_intake (hi : v.Inv) (h : v.slot.Stored) (w : Platform)
    {o : Option HandlerOutcome} {m : Bool} {r : HttpResponse} (hf : v.focus = .returned o m r) :
    Intake env.lib v.inbox (v.leave (concludeRequest env w v.slot o m r)).2
        (v.leave (concludeRequest env w v.slot o m r)).1.inbox ∧
      (concludeRequest env w v.slot o m r).1.Stored := by
  obtain ⟨hu, hs⟩ := hi.kernel.returned hf
  have hphase : v.inbox.phase = .serving := v.phase_eq hu rfl hf
  have hread : v.inbox.phase ≠ .reading := by simp [hphase]
  cases o with
  | none =>
    have hcode : (unroutedResponse env m).code ≠ HTTP_CODE_413 := by
      unfold unroutedResponse
      split_ifs <;> decide
    exact serialize_intake (v := { v with
      slot := (withDefaultHeaders env.lib v.slot (unroutedResponse env m)).1 }) w
      (.inl ⟨hphase, fun _ => hcode⟩) rfl rfl rfl (fun hp => absurd hp hread) hu
      ⟨h.length, h.used⟩
  | some outcome =>
    cases outcome with
    | respond =>
      exact serialize_intake w (.inl ⟨hphase, nofun⟩) rfl rfl rfl (fun hp => absurd hp hread) hu h
    | defer =>
      refine ⟨(Intake.stay (b := v.inbox) (aside_singleton .parked trivial)).to
        (Inbox.ext ?_ rfl rfl rfl rfl), ⟨h.length, h.used⟩⟩
      change Phase.of v.slot.inUse .pending .away = v.inbox.phase
      rw [hphase, show v.slot.inUse = true from hu]
      rfl
    | close => exact release_intake none (by simp) rfl h

theorem provide_intake (h : v.slot.Stored) (bytes : Bytes) (hf : v.focus = .drained) :
    Intake env.lib v.inbox (v.goto (slotProvide v.slot bytes)).2
        (v.goto (slotProvide v.slot bytes)).1.inbox ∧
      (slotProvide v.slot bytes).1.Stored := by
  unfold slotProvide
  dsimp only
  split_ifs with hb
  · refine ⟨stay_intake (aside_singleton (.provided _ _) trivial) ?_, ⟨h.length, h.used⟩⟩
    exact (inbox_focus _ _ (.inr (.inl rfl)) (.inr (.inr rfl))).trans (by rw [← hf]; rfl)
  · have hcleared : ∀ slot : Slot, (streamCleared slot).received = slot.received ∧
        (streamCleared slot).parser = slot.parser ∧
        (streamCleared slot).clientWantsClose = slot.clientWantsClose ∧
        (streamCleared slot).recvBufferSize = slot.recvBufferSize ∧
        (streamCleared slot).recvBuffer = slot.recvBuffer ∧
        (streamCleared slot).recvUsed = slot.recvUsed ∧
        (streamCleared slot).inUse = slot.inUse ∧ (streamCleared slot).state = slot.state := by
      intro slot
      unfold streamCleared
      split_ifs <;> exact ⟨rfl, rfl, rfl, rfl, rfl, rfl, rfl, rfl⟩
    obtain ⟨hheld, hparser, hclosing, hcap, hbuffer, hused, hinUse, hstate⟩ := hcleared
      { v.slot with sendBuffer := Block.overwrite v.slot.sendBuffer 0 bytes, streamEof := true }
    refine ⟨(Intake.stay (b := v.inbox) ?_).to (Inbox.ext ?_ hheld hparser hclosing hcap), ⟨?_, ?_⟩⟩
    · intro e he
      rcases List.mem_cons.mp he with rfl | he
      · trivial
      · exact aside_finalizerCall _ e he
    · change Phase.of (streamCleared _).inUse (streamCleared _).state .drained = _
      rw [hinUse, hstate, ← hf]
      rfl
    · exact (congrArg List.length hbuffer).trans (h.length.trans hcap.symm)
    · intro hu
      exact hused.trans_le ((h.used (hinUse.symm.trans hu)).trans_eq hcap.symm)

theorem handshake_intake (hi : v.Inv) (h : v.slot.Stored) (w : Platform) (r : IoResult)
    (hf : v.focus = .advance) (hs : v.slot.state = .handshaking) :
    Intake env.lib v.inbox (v.leave (slotDriveHandshake w v.slot r)).2
        (v.leave (slotDriveHandshake w v.slot r)).1.inbox ∧
      (slotDriveHandshake w v.slot r).1.Stored := by
  have hu : v.slot.inUse = true := hi.kernel.advance hf
  cases r with
  | ok =>
    have hphase : v.inbox.phase = .shaking := v.phase_eq hu hs hf
    refine ⟨(Intake.shake hphase).to (Inbox.ext ?_ rfl rfl rfl rfl), ⟨h.length, h.used⟩⟩
    change Phase.of v.slot.inUse .receiving .away = _
    rw [hu]
    rfl
  | tryAgain want =>
    refine ⟨stay_intake aside_nil ?_, ⟨h.length, h.used⟩⟩
    exact (inbox_focus _ _ (.inl rfl) (.inr (.inl rfl))).trans (by rw [← hf]; rfl)
  | failed => exact release_intake none (by simp) rfl h

theorem write_intake (h : v.slot.Stored) (w : Platform) (written : Nat) (r : IoResult)
    (hf : v.focus = .advance) :
    Intake env.lib v.inbox (v.goto (slotDriveSend w v.slot written r)).2
        (v.goto (slotDriveSend w v.slot written r)).1.inbox ∧
      (slotDriveSend w v.slot written r).1.Stored := by
  cases r with
  | ok =>
    refine ⟨stay_intake (aside_singleton (.wrote _) trivial) ?_, ⟨h.length, h.used⟩⟩
    exact (inbox_focus _ _ (.inr (.inr rfl)) (.inr (.inl rfl))).trans (by rw [← hf]; rfl)
  | tryAgain want =>
    refine ⟨stay_intake (aside_singleton (.wrote _) trivial) ?_, ⟨h.length, h.used⟩⟩
    exact (inbox_focus _ _ (.inl rfl) (.inr (.inl rfl))).trans (by rw [← hf]; rfl)
  | failed =>
    exact release_intake (v := ⟨_, v.focus, v.tickets⟩) (some (.wrote _))
      (by rintro x ⟨⟩; trivial) rfl ⟨h.length, h.used⟩

theorem flush_intake (h : v.slot.Stored) (w : Platform) (hf : v.focus = .away) :
    Intake env.lib v.inbox (v.leave (slotFlush env w v.slot)).2
        (v.leave (slotFlush env w v.slot)).1.inbox ∧ (slotFlush env w v.slot).1.Stored := by
  unfold slotFlush
  split_ifs with hcond
  · obtain ⟨hu, hs, -⟩ := hcond
    have hphase : v.inbox.phase = .serving := v.phase_eq hu hs hf
    have hread : v.inbox.phase ≠ .reading := by simp [hphase]
    dsimp only
    split_ifs with hc
    · exact respond_intake (v := { v with slot := { v.slot with
        pendingReady := false, pendingCancelled := false, state := .sending,
        clientWantsClose := true } }) w (fun r _ => .inl ⟨hphase, nofun⟩) rfl rfl rfl
        (fun _ => rfl) hu ⟨h.length, h.used⟩
    · exact serialize_intake (v := { v with slot := { v.slot with
        pendingReady := false, pendingCancelled := false, state := .sending } }) w
        (.inl ⟨hphase, nofun⟩) rfl rfl rfl (fun hp => absurd hp hread) hu ⟨h.length, h.used⟩
  · exact ⟨stay_intake aside_nil (by rw [← hf]), h⟩

theorem sweepPending_intake (h : v.slot.Stored) (now : Nat) (w : Platform) (hf : v.focus = .away) :
    Intake env.lib v.inbox (v.leave (slotSweepPending env now w v.slot)).2
        (v.leave (slotSweepPending env now w v.slot)).1.inbox ∧
      (slotSweepPending env now w v.slot).1.Stored := by
  unfold slotSweepPending
  split_ifs with hcond
  · obtain ⟨hu, hs, -⟩ := hcond
    have hphase : v.inbox.phase = .serving := v.phase_eq hu hs hf
    exact respond_intake (v := { v with slot := { v.slot with
      state := .sending, clientWantsClose := true } }) w (fun r _ => .inl ⟨hphase, nofun⟩) rfl rfl
      rfl (fun _ => rfl) hu ⟨h.length, h.used⟩
  · exact ⟨stay_intake aside_nil (by rw [← hf]), h⟩

theorem accept_intake (h : v.slot.Stored) (w : Platform) (sd : Option Int)
    (hu : v.slot.inUse = false) :
    Intake env.lib v.inbox (slotEffect env v (.accept w sd)).2
        (slotEffect env v (.accept w sd)).1.inbox ∧
      (slotEffect env v (.accept w sd)).1.slot.Stored := by
  have hphase : v.inbox.phase = .free := by
    change Phase.of v.slot.inUse v.slot.state v.focus = _
    rw [hu]
    rfl
  cases sd with
  | none =>
    exact ⟨.release (e := none) (by simp) (by simp) rfl rfl, ⟨h.length, fun _ => Nat.zero_le _⟩⟩
  | some sd => exact ⟨.accept hphase, ⟨h.length, fun _ => Nat.zero_le _⟩⟩

theorem route_intake (hi : v.Inv) (h : v.slot.Stored) (hf : v.focus = .route) :
    Intake env.lib v.inbox (slotEffect env v .route).2 (slotEffect env v .route).1.inbox ∧
      (slotEffect env v .route).1.slot.Stored := by
  obtain ⟨hu, hs⟩ := hi.kernel.route hf
  have hphase : v.inbox.phase = .routing := v.phase_eq hu rfl hf
  simp only [slotEffect, routeRequest]
  have hserving : ∀ f : Focus, f.Dispatched →
      Phase.of v.slot.inUse v.slot.state f = .serving := by
    intro f hf
    rw [show v.slot.inUse = true from hu]
    cases f <;> first | rfl | exact absurd hf id
  have hmove := @Intake.dispatch env.lib _ hphase
  rcases routeLoop env v.slot.parser.request 0 env.routes false with ⟨matched, _ | route⟩
  · exact ⟨hmove.to (Inbox.ext (hserving (.returned none matched .zero) trivial) rfl rfl rfl rfl),
      h⟩
  · exact ⟨hmove.to (Inbox.ext (hserving (.handling route matched) trivial) rfl rfl rfl rfl), h⟩

theorem handler_intake (hi : v.Inv) (h : v.slot.Stored) (outcome : HandlerOutcome)
    (response : HttpResponse) {route : Nat} {matched : Bool}
    (hf : v.focus = .handling route matched) :
    Intake env.lib v.inbox (slotEffect env v (.handler outcome response)).2
        (slotEffect env v (.handler outcome response)).1.inbox ∧
      (slotEffect env v (.handler outcome response)).1.slot.Stored := by
  obtain ⟨hu, hs⟩ := hi.kernel.handling hf
  simp only [slotEffect, handlerReturned, hf]
  refine ⟨(Intake.stay (b := v.inbox) (aside_singleton (.handled route outcome response)
    trivial)).to (Inbox.ext ?_ rfl rfl rfl rfl), h⟩
  have hphase : v.inbox.phase = .serving := v.phase_eq hu rfl hf
  rw [hphase]
  change Phase.of v.slot.inUse v.slot.state (.returned (some outcome) matched response) = _
  rw [show v.slot.inUse = true from hu]
  rfl

theorem teardown_intake (hi : v.Inv) (h : v.slot.Stored) :
    Intake env.lib v.inbox (slotEffect env v .teardown).2 (slotEffect env v .teardown).1.inbox ∧
      (slotEffect env v .teardown).1.slot.Stored := by
  simp only [slotEffect]
  split_ifs with hu
  · have hslot := slotTeardown_slot v.slot fun hr => (hi.ok.registered hr).2
    have hkeep : (streamCleared v.slot).recvBuffer = v.slot.recvBuffer ∧
        (streamCleared v.slot).recvBufferSize = v.slot.recvBufferSize := by
      unfold streamCleared
      split_ifs <;> exact ⟨rfl, rfl⟩
    obtain ⟨hbuffer, hcap⟩ := hkeep
    refine ⟨.release (e := none) (by simp) ?_ ?_ ?_, ⟨?_, ?_⟩⟩
    · intro x hx
      rcases List.mem_append.mp hx with hx | hx
      · exact .inr (aside_finalizerCall _ x hx)
      · exact .inl (List.mem_singleton.mp hx)
    · simp only [SlotView.leave, SlotView.inbox, hslot]
      exact Phase.of_free _ _
    · simp only [SlotView.leave, SlotView.inbox, hslot]
      exact hcap
    · simp only [SlotView.leave, hslot, hbuffer, hcap]
      exact h.length
    · simp [SlotView.leave, hslot]
  · exact ⟨.stay aside_nil, h⟩

theorem post_intake (h : v.slot.Stored) (t : Deferral) (p : Post) :
    ({ v with slot := (deferralPost v.slot t p).2 } : SlotView).inbox = v.inbox ∧
      (deferralPost v.slot t p).2.Stored := by
  unfold deferralPost
  split_ifs
  · exact ⟨rfl, h⟩
  · exact ⟨rfl, h⟩
  · cases p <;> exact ⟨rfl, ⟨h.length, h.used⟩⟩

/-- Every step of a slot is an intake of its inbox. -/
theorem slotStep_intake {v' : SlotView} {a : SlotAction} {es : List SlotEvent} (hi : v.Inv)
    (h : v.slot.Stored) (hstep : slotStep env v a = some (v', es)) :
    Intake env.lib v.inbox es v'.inbox ∧ v'.slot.Stored := by
  unfold slotStep at hstep
  split_ifs at hstep with hen
  rw [Option.some.injEq] at hstep
  have hv : v' = (slotEffect env v a).1 := by rw [hstep]
  have he : es = (slotEffect env v a).2 := by rw [hstep]
  subst hv he
  cases a with
  | accept w sd =>
    obtain ⟨-, hu⟩ := of_decide_eq_true hen
    exact accept_intake h w sd hu
  | event error =>
    obtain ⟨hf, -⟩ := of_decide_eq_true hen
    cases error with
    | true => exact release_intake none (by simp) rfl h
    | false =>
      refine ⟨stay_intake aside_nil ?_, h⟩
      exact (inbox_focus _ _ (.inr (.inl rfl)) (.inl rfl)).trans (by rw [← hf])
  | handshake w r =>
    obtain ⟨hf, hs⟩ := of_decide_eq_true hen
    exact handshake_intake hi h w r hf hs
  | tooLarge w =>
    obtain ⟨hf, hs, hfull⟩ := of_decide_eq_true hen
    have hphase := phase_reading hi hf hs
    have hsize : v.inbox.capacity ≤ v.inbox.held.size := by
      have hlen := h.length
      have hused := h.used (hi.kernel.advance hf)
      simp only [SlotView.inbox, Slot.received, Span.size, List.length_take]
      omega
    exact respond_intake (v := { v with slot := { v.slot with clientWantsClose := true } }) w
      (fun r hr => .inr ⟨hphase, rfl, hr, hsize⟩) rfl rfl rfl (fun _ => rfl)
      (hi.kernel.advance hf) ⟨h.length, h.used⟩
  | read w r =>
    obtain ⟨hf, hs, -, hfit⟩ := of_decide_eq_true hen
    exact read_intake hi h w r hf hs hfit
  | route => exact route_intake hi h (of_decide_eq_true hen)
  | defer => exact ⟨.stay (aside_singleton (.ticketTaken _) trivial), h⟩
  | handler outcome response =>
    cases hf : v.focus with
    | handling route matched => exact handler_intake hi h outcome response hf
    | _ => simp [SlotView.enabled, hf] at hen
  | conclude w =>
    cases hf : v.focus with
    | returned o m r =>
      simp only [slotEffect, hf]
      exact conclude_intake hi h w hf
    | _ => simp [SlotView.enabled, hf] at hen
  | probe r =>
    obtain ⟨hf, hs, hfit⟩ := of_decide_eq_true hen
    exact probe_intake hi h r hf hs hfit
  | write w written r =>
    obtain ⟨hf, -⟩ := of_decide_eq_true hen
    exact write_intake h w written r hf
  | drain =>
    obtain ⟨hf, -⟩ := of_decide_eq_true hen
    refine ⟨stay_intake aside_nil ?_, h⟩
    exact (inbox_focus _ _ (.inr (.inr rfl)) (.inr (.inl rfl))).trans (by rw [← hf])
  | provide bytes =>
    obtain ⟨hf, -⟩ := of_decide_eq_true hen
    exact provide_intake h bytes hf
  | finish w =>
    obtain ⟨hf, -⟩ := of_decide_eq_true hen
    exact finish_intake hi h w hf
  | stray | reclaim => exact release_intake none (by simp) rfl h
  | flush w => exact flush_intake h w (of_decide_eq_true hen)
  | sweepPending now w => exact sweepPending_intake h now w (of_decide_eq_true hen)
  | sweepIdle now =>
    have hf : v.focus = .away := of_decide_eq_true hen
    simp only [slotEffect, slotSweepIdle]
    split_ifs
    · exact release_intake none (by simp) rfl h
    · exact ⟨stay_intake aside_nil (by rw [← hf]), h⟩
  | teardown => exact teardown_intake hi h
  | post n p =>
    have hn : n < v.tickets.length := of_decide_eq_true hen
    simp only [slotEffect, List.getElem?_eq_getElem hn]
    obtain ⟨hinbox, hstored⟩ := post_intake h v.tickets[n] p
    exact ⟨(Intake.stay (aside_singleton (.posted _ _ _) trivial)).to hinbox, hstored⟩

end HttpC
