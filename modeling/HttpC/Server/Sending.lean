import HttpC.Serializing
import HttpC.Server.Parking
import HttpC.Server.Streams

/-!
# Sending without loss

A response is serialised into the send buffer, and the buffer is used again for the chunks of a
streaming body. Each socket call takes a part of what is left, and the loop goes on where it
stopped; `ok` is not compared with the number of bytes that were taken, so a socket has to
mean all of them. `bs_write` adds its sizes in 32 bits.

## Main results

* `writeChain_bsWrite` — a response that was serialised without an error is in the buffer, if
  it is shorter than `2 ^ 32` bytes.
* `sent_lossless` — what is on the wire when a response has been sent is its bytes and the
  chunks, in order.
* `sent_wrapped` — a response of `2 ^ 32` bytes is accepted, and nothing of it is written.
-/

namespace HttpC

open Transition Block

/-! ## Sockets that mean it -/

/-- A socket call that returns `ok` has taken all it was given. -/
def takesWhole (v : SlotView) : SlotAction → Bool
  | .write _ written .ok => written = v.slot.sendUsed - v.slot.sendOffset
  | _ => true

def ServerAction.takesWhole (s : System) : ServerAction → Bool
  | .slot i a _ => HttpC.takesWhole (s.slots i) a
  | _ => true

/-- The server over such sockets. -/
def sendingMachine (env : ServerEnv) (slotCount : Nat) : Machine System ServerAction ServerEvent :=
  (serverMachine env slotCount).restrict ServerAction.takesWhole

/-- The bytes on the wire. -/
def wroteBytes (es : List SlotEvent) : Bytes :=
  es.flatMap fun
    | .wrote bytes => bytes
    | _ => []

/-- The chunks of the providers. -/
def providedBytes (es : List SlotEvent) : Bytes :=
  es.flatMap fun
    | .provided _ bytes => bytes
    | _ => []

/-! ## The response in the buffer -/

section

variable {lib : CommonLib} {bs : BufferStream} {written : Bytes}

/-- What has been written so far is at the front of the buffer. -/
structure BufferStream.Holds (bs : BufferStream) (written : Bytes) : Prop where
  used : bs.used = written.length
  le : bs.used ≤ bs.memory.length
  take : bs.memory.take bs.used = written

/-- A write of these bytes, or none at all. -/
def Writes (step : BufferStream → Result × BufferStream) (bytes : Bytes) : Prop :=
  (∃ data : Span, data.bytes = bytes ∧ ∀ bs, step bs = bsWrite bs data) ∨
    bytes = [] ∧ ∀ bs, step bs = (.ok, bs)

/-- A write that is not refused is behind what was written before. -/
theorem BufferStream.Holds.write (h : bs.Holds written) {data : Span}
    (hlt : (written ++ data.bytes).length < 2 ^ 32) :
    (bsWrite bs data).1 = .error ∨
      (bsWrite bs data).1 = .ok ∧ (bsWrite bs data).2.Holds (written ++ data.bytes) := by
  have hused := h.used
  have hle := h.le
  rw [List.length_append] at hlt
  have hsum : wrap32 (bs.used + data.size) = bs.used + data.bytes.length := by
    rw [wrap32, Span.size]
    exact Nat.mod_eq_of_lt (by omega)
  unfold bsWrite
  split_ifs
  · exact .inl rfl
  · refine .inr ⟨rfl, ?_⟩
    rw [hsum]
    refine ⟨by rw [List.length_append, hused], ?_, ?_⟩
    · simp only [overwrite, List.length_append, List.length_take, List.length_drop]
      omega
    · dsimp only
      rw [take_overwrite_append hle, h.take]

/-- A chain of writes either fails or leaves its bytes behind what was written before. -/
theorem writeChain_bsWrite {steps : List (BufferStream → Result × BufferStream)}
    {bytes : List Bytes} (hsteps : List.Forall₂ Writes steps bytes) (h : bs.Holds written)
    (hlt : (written ++ bytes.flatten).length < 2 ^ 32) :
    (writeChain lib steps bs).1 = .error ∨
      (writeChain lib steps bs).2.Holds (written ++ bytes.flatten) := by
  induction hsteps generalizing bs written with
  | nil => exact .inr (by simpa [writeChain] using h)
  | @cons step b steps bytes hstep _ ih =>
    rw [List.flatten_cons, ← List.append_assoc] at hlt ⊢
    have hfirst : (step bs).1 = .error ∨
        (step bs).1 = .ok ∧ (step bs).2.Holds (written ++ b) := by
      rcases hstep with ⟨data, rfl, hwrite⟩ | ⟨rfl, hnone⟩
      · rw [hwrite]
        refine h.write (lt_of_le_of_lt ?_ hlt)
        simp
      · rw [hnone, List.append_nil]
        exact .inr ⟨rfl, h⟩
    rw [writeChain]
    rcases hfirst with herror | ⟨hok, hholds⟩
    · exact .inl (by simp [herror])
    · simp only [hok, CommonLib.failed_ok, Bool.false_eq_true, if_false]
      exact ih hholds hlt

/-- The pieces of a response, in the order they are written. -/
def writtenPieces (lib : CommonLib) (response : HttpResponse) : List Bytes :=
  [response.httpVersion.bytes, space.bytes, response.code.bytes, space.bytes,
    response.reasonPhrase.bytes, crlf.bytes, writtenHeaders lib response.headers, crlf.bytes,
    response.body.bytes]

theorem serializedResponse_eq_flatten (response : HttpResponse) :
    serializedResponse lib response = (writtenPieces lib response).flatten := by
  rw [serializedResponse, httpResponseSerializeTo, writeChain_message]
  rfl

/-- The writes of the response serialiser. -/
def responseWrites (lib : CommonLib) (response : HttpResponse) :
    List (BufferStream → Result × BufferStream) :=
  [(bsWrite · response.httpVersion), (bsWrite · space), (bsWrite · response.code),
    (bsWrite · space), (bsWrite · response.reasonPhrase), (bsWrite · crlf),
    httpHeadersSerializeTo lib response.headers bsWrite, (bsWrite · crlf),
    fun st => if response.body.isEmpty then (.ok, st) else bsWrite st response.body]

theorem responseWrites_pieces (response : HttpResponse) :
    List.Forall₂ Writes (responseWrites lib response) (writtenPieces lib response) := by
  have hpiece : ∀ data : Span, Writes (bsWrite · data) data.bytes :=
    fun data => .inl ⟨data, rfl, fun _ => rfl⟩
  have hheaders : Writes (httpHeadersSerializeTo lib response.headers bsWrite)
      (writtenHeaders lib response.headers) := by
    rw [writtenHeaders]
    split_ifs with hzero
    · exact .inr ⟨rfl, fun bs => if_pos hzero⟩
    · exact .inl ⟨_, rfl, fun bs => if_neg hzero⟩
  have hbody : Writes (fun bs => if response.body.isEmpty then (.ok, bs)
      else bsWrite bs response.body) response.body.bytes := by
    by_cases hempty : response.body.isEmpty = true
    · exact .inr ⟨Span.isEmpty_iff.mp hempty, fun bs => if_pos hempty⟩
    · exact .inl ⟨_, rfl, fun bs => if_neg hempty⟩
  exact .cons (hpiece _) (.cons (hpiece _) (.cons (hpiece _) (.cons (hpiece _) (.cons (hpiece _)
    (.cons (hpiece _) (.cons hheaders (.cons (hpiece _) (.cons hbody .nil))))))))

/-- The response serialiser fails or leaves its bytes at the front of the buffer. -/
theorem httpResponseSerializeTo_bsWrite {response : HttpResponse} (h : bs.Holds [])
    (hlt : (serializedResponse lib response).length < 2 ^ 32) :
    (httpResponseSerializeTo lib response bsWrite bs).1 = .error ∨
      (httpResponseSerializeTo lib response bsWrite bs).2.Holds
        (serializedResponse lib response) := by
  rw [serializedResponse_eq_flatten] at hlt ⊢
  exact @writeChain_bsWrite lib bs [] _ (writtenPieces lib response)
    (responseWrites_pieces response) h hlt

end

/-! ## What is due and what has been written -/

/-- What a log says of the response that was answered last. -/
structure SendLedger where
  /-- Its bytes and the chunks so far. -/
  due : Bytes
  wrote : Bytes
  /-- Its size is a `uint32_t`. -/
  fits : Bool
  deriving DecidableEq, Repr

namespace SendLedger

variable (lib : CommonLib)

def start : SendLedger := ⟨[], [], false⟩

def record (l : SendLedger) : SlotEvent → SendLedger
  | .answered _ r =>
    let bytes := serializedResponse lib (serializedPart r)
    ⟨bytes, [], bytes.length < 2 ^ 32⟩
  | .provided _ bytes => { l with due := l.due ++ bytes }
  | .wrote bytes => { l with wrote := l.wrote ++ bytes }
  | _ => l

/-- A response has been sent when all that is due has been written. -/
def lossless : Monitor SendLedger SlotEvent where
  start := start
  record := record lib
  Good l
    | .finished => l.fits = true → l.wrote = l.due
    | _ => True

/-- What is due has been written, or is still in the buffer. -/
structure Holds (l : SendLedger) (v : SlotView) : Prop where
  sending : v.slot.state = .sending → l.fits = true → l.wrote ++ window v.slot.sendBuffer
    v.slot.sendOffset (v.slot.sendUsed - v.slot.sendOffset) = l.due
  drained : v.focus = .drained → v.slot.sendUsed ≤ v.slot.sendOffset

/-- Events that tell nothing about what is due or written. -/
def Silent : SlotEvent → Prop
  | .answered _ _ | .provided _ _ | .wrote _ | .finished => False
  | _ => True

/-- A step's events are acceptable, and the ledger knows the slot again. -/
def Sends (l : SendLedger) (es : List SlotEvent) (v : SlotView) : Prop :=
  (lossless lib).AcceptsFrom l es ∧ (es.foldl (record lib) l).Holds v

variable {lib} {l : SendLedger} {v v' : SlotView}

theorem Sends.nil (h : l.Holds v) : l.Sends lib [] v := ⟨trivial, h⟩

theorem Sends.cons {e : SlotEvent} {es : List SlotEvent} (he : (lossless lib).Good l e)
    (h : (l.record lib e).Sends lib es v) : l.Sends lib (e :: es) v :=
  ⟨⟨he, h.1⟩, h.2⟩

theorem Sends.silent {es : List SlotEvent} (hes : ∀ e ∈ es, Silent e) (h : l.Holds v) :
    l.Sends lib es v := by
  induction es with
  | nil => exact .nil h
  | cons e es ih =>
    have he := hes e List.mem_cons_self
    have hrest := ih fun e' he' => hes e' (List.mem_cons_of_mem _ he')
    cases e with
    | answered | provided | wrote | finished => exact absurd he id
    | _ => exact .cons trivial hrest

/-- Outside the sending state nothing has to be in the buffer. -/
theorem holds_of_state (hs : v.slot.state ≠ .sending) (hf : v.focus ≠ .drained) : l.Holds v :=
  ⟨fun h => absurd h hs, fun h => absurd h hf⟩

/-- The send fields of a slot. -/
def sendFields (slot : Slot) : SlotState × Bytes × Nat × Nat :=
  (slot.state, slot.sendBuffer, slot.sendUsed, slot.sendOffset)

/-- The send fields stay as they are. -/
theorem Holds.congr (h : l.Holds v) (hsame : sendFields v'.slot = sendFields v.slot)
    (hf : v'.focus = .drained → v.focus = .drained) : l.Holds v' := by
  obtain ⟨hstate, hbuffer, hused, hoffset⟩ : _ ∧ _ ∧ _ ∧ _ := by
    simpa [sendFields] using hsame
  constructor
  · rw [hstate, hbuffer, hused, hoffset]
    exact h.sending
  · intro hdrained
    rw [hused, hoffset]
    exact h.drained (hf hdrained)

theorem silent_finalizerCall (slot : Slot) : ∀ e ∈ finalizerCall slot, Silent e := by
  intro e he
  obtain rfl := finalized_of_mem_finalizerCall he
  trivial

theorem silent_slotClose (slot : Slot) : ∀ e ∈ (slotClose slot).2, Silent e := by
  intro e he
  rcases List.mem_append.mp he with he | he
  · exact silent_finalizerCall slot e he
  · obtain rfl := List.mem_singleton.mp he
    trivial

theorem holds_slotClose (slot : Slot) (tickets : List Deferral) :
    l.Holds ⟨(slotClose slot).1, .away, tickets⟩ :=
  holds_of_state (by rw [slotClose_slot]; simp) (by simp)

theorem Sends.close (slot : Slot) (tickets : List Deferral) :
    l.Sends lib (slotClose slot).2 ⟨(slotClose slot).1, .away, tickets⟩ :=
  .silent (silent_slotClose slot) (holds_slotClose slot tickets)

/-- Arming a slot is no business of the send buffer. -/
theorem Holds.arm (h : l.Holds v) (w : Platform) (m : EventMask) :
    l.Holds { v with slot := slotArm w v.slot m } :=
  h.congr rfl id

/-- An answer puts what is due into the send buffer. -/
theorem Sends.serialize (w : Platform) (slot : Slot) (a : Answer) (r : HttpResponse)
    (tickets : List Deferral) :
    l.Sends lib (.answered a r :: (serializeAndSend lib w slot r).2)
      ⟨(serializeAndSend lib w slot r).1, .away, tickets⟩ := by
  refine .cons trivial ?_
  have hstart : BufferStream.Holds ⟨(installStream slot r).sendBuffer,
      (installStream slot r).sendBufferSize, 0, false⟩ [] := ⟨rfl, Nat.zero_le _, rfl⟩
  have hchain := @httpResponseSerializeTo_bsWrite lib _ (serializedPart r) hstart
  unfold serializeAndSend
  dsimp only
  revert hchain
  generalize httpResponseSerializeTo lib (serializedPart r) bsWrite _ = out
  intro hchain
  split_ifs with hfailed
  · exact .close _ _
  · refine .nil (Holds.arm (v := ⟨_, .away, tickets⟩) ⟨fun _ hfits => ?_, nofun⟩ w .forWrite)
    simp only [not_or, Bool.not_eq_true] at hfailed
    rcases hchain (by simpa [record] using hfits) with herror | hholds
    · simp [herror] at hfailed
    · simpa [record, window] using hholds.take

/-- A response the server makes itself. -/
theorem Sends.respond (w : Platform) (slot : Slot) (a : Answer) (code reason : Span)
    (tickets : List Deferral) :
    l.Sends lib (respondWithStatus lib w slot a code reason).2
      ⟨(respondWithStatus lib w slot a code reason).1, .away, tickets⟩ :=
  .serialize _ _ _ _ _

variable {env : ServerEnv}

/-- The socket takes some of what is left. -/
theorem Holds.write (h : l.Holds v) (w : Platform) {written : Nat} {r : IoResult}
    (hs : v.slot.state = .sending) (hle : written ≤ v.slot.sendUsed - v.slot.sendOffset)
    (hwhole : r = .ok → written = v.slot.sendUsed - v.slot.sendOffset) :
    l.Sends lib (v.goto (slotDriveSend w v.slot written r)).2
      (v.goto (slotDriveSend w v.slot written r)).1 := by
  have hsending : ∀ {v' : SlotView}, v'.slot.sendBuffer = v.slot.sendBuffer →
      v'.slot.sendUsed = v.slot.sendUsed → v'.slot.sendOffset = v.slot.sendOffset + written →
      (v'.focus = .drained → r = .ok) →
      (l.record lib (.wrote (window v.slot.sendBuffer v.slot.sendOffset written))).Holds v' := by
    intro v' hbuffer hused hoffset hf
    constructor
    · intro _ hfits
      have hall := h.sending hs hfits
      rw [show v.slot.sendUsed - v.slot.sendOffset =
        written + (v.slot.sendUsed - (v.slot.sendOffset + written)) by omega, window_add,
        ← List.append_assoc] at hall
      rw [hbuffer, hused, hoffset]
      exact hall
    · intro hdrained
      have hexact := hwhole (hf hdrained)
      rw [hused, hoffset]
      omega
  cases r with
  | ok => exact .cons trivial (.nil (hsending rfl rfl rfl fun _ => rfl))
  | tryAgain want => exact .cons trivial (.nil (hsending rfl rfl rfl nofun))
  | failed => exact .cons trivial (.close _ _)

/-- A chunk replaces what has been written. -/
theorem Holds.provide (h : l.Holds v) (hs : v.slot.state = .sending) (hf : v.focus = .drained)
    (bytes : Bytes) :
    l.Sends lib (v.goto (slotProvide v.slot bytes)).2 (v.goto (slotProvide v.slot bytes)).1 := by
  have hle := h.drained hf
  have hall : l.fits = true → l.wrote = l.due := by
    intro hfits
    have hsending := h.sending hs hfits
    rwa [Nat.sub_eq_zero_of_le hle, window_zero_length, List.append_nil] at hsending
  unfold slotProvide
  dsimp only
  split_ifs with hmore
  · refine .cons trivial (.nil ⟨fun _ hfits => ?_, nofun⟩)
    have hstored := window_overwrite_self (l := v.slot.sendBuffer) (d := bytes) (Nat.zero_le _)
    simp only [SlotView.goto, record, Nat.sub_zero, hstored, hall hfits]
  · obtain rfl : bytes = [] := List.length_eq_zero_iff.mp (by omega)
    have hsame : l.record lib (.provided v.slot.stream []) = l := by simp [record]
    refine .cons trivial (.silent (silent_finalizerCall _) ?_)
    rw [hsame]
    refine h.congr ?_ fun _ => hf
    simp only [SlotView.goto, streamFinalize, streamCleared, overwrite_nil]
    split_ifs <;> rfl

/-- All that is due has been written. -/
theorem Holds.finish (h : l.Holds v) (hs : v.slot.state = .sending) (hf : v.focus = .drained)
    (w : Platform) :
    l.Sends env.lib (v.goto (slotFinishSend env w v.slot)).2
      (v.goto (slotFinishSend env w v.slot)).1 := by
  have hgood : (lossless env.lib).Good l .finished := by
    intro hfits
    have hsending := h.sending hs hfits
    rwa [Nat.sub_eq_zero_of_le (h.drained hf), window_zero_length, List.append_nil] at hsending
  have hnext : ∀ {slot : Slot} {f : Focus}, slot.state = .receiving → f ≠ .drained →
      l.Sends env.lib [.finished] ⟨slot, f, v.tickets⟩ :=
    fun hstate hf' => .cons hgood (.nil (holds_of_state (by rw [hstate]; decide) hf'))
  unfold slotFinishSend
  split_ifs with hwants
  · exact .cons hgood (.close _ _)
  · have hslot := slotFeed_slot env (slotNextRequest w.now v.slot)
    revert hslot
    rcases slotFeed env (slotNextRequest w.now v.slot) with ⟨pr, slot⟩
    rintro ⟨parser, rfl⟩
    dsimp only
    split_ifs
    · exact hnext rfl nofun
    · exact .cons hgood (.close _ _)
    · exact hnext rfl nofun
    · exact hnext rfl nofun

/-- Every step is tracked. -/
theorem Holds.step (h : l.Holds v) (hi : v.Inv) {a : SlotAction} (hen : v.enabled a = true)
    (hwhole : takesWhole v a = true) :
    l.Sends env.lib (slotEffect env v a).2 (slotEffect env v a).1 := by
  have hclose : l.Sends env.lib (v.leave (slotClose v.slot)).2 (v.leave (slotClose v.slot)).1 :=
    .close _ _
  have hleave : ∀ slot : Slot, sendFields slot = sendFields v.slot →
      l.Sends env.lib [] ⟨slot, .away, v.tickets⟩ :=
    fun slot hsame => .nil (h.congr hsame (by rintro ⟨⟩))
  cases a with
  | accept w sd =>
    cases sd with
    | none => exact .cons trivial (.nil (holds_of_state (by rintro ⟨⟩) (by rintro ⟨⟩)))
    | some sd => exact .cons trivial (.nil (holds_of_state (by rintro ⟨⟩) (by rintro ⟨⟩)))
  | event error =>
    cases error with
    | true => exact hclose
    | false => exact .nil (h.congr rfl (by rintro ⟨⟩))
  | handshake w r =>
    obtain ⟨-, hs⟩ := of_decide_eq_true hen
    cases r with
    | ok => exact .nil (holds_of_state (by rintro ⟨⟩) (by rintro ⟨⟩))
    | tryAgain want => exact hleave _ rfl
    | failed => exact hclose
  | tooLarge w => exact .respond _ _ _ _ _ _
  | read w r =>
    obtain ⟨hf, hs, -⟩ := of_decide_eq_true hen
    have hreceiving : ∀ {slot : Slot} {f : Focus}, slot.state = v.slot.state → f ≠ .drained →
        l.Holds ⟨slot, f, v.tickets⟩ :=
      fun hstate hf' => holds_of_state (by rw [hstate, hs]; decide) hf'
    cases r with
    | tryAgain want => exact .nil (hreceiving rfl (by rintro ⟨⟩))
    | failed => exact hclose
    | ok bytes =>
      have hslot := slotFeed_slot env (slotGot w v.slot bytes)
      simp only [slotEffect, slotDriveReceive]
      revert hslot
      rcases slotFeed env (slotGot w v.slot bytes) with ⟨pr, slot⟩
      rintro ⟨parser, rfl⟩
      dsimp only
      split_ifs
      · exact .cons trivial (.nil (hreceiving rfl (by rintro ⟨⟩)))
      · exact .cons trivial (.nil (hreceiving rfl (by rintro ⟨⟩)))
      · exact .cons trivial (.close _ _)
  | route =>
    simp only [slotEffect, routeRequest]
    rcases routeLoop env v.slot.parser.request 0 env.routes false with ⟨matched, _ | route⟩
    · exact .cons trivial (.nil (h.congr rfl (by rintro ⟨⟩)))
    · exact .cons trivial (.nil (h.congr rfl (by rintro ⟨⟩)))
  | defer => exact .cons trivial (.nil (h.congr rfl id))
  | handler outcome response =>
    cases hf : v.focus with
    | handling route matched =>
      simp only [slotEffect, handlerReturned, hf]
      exact .cons trivial (.nil (h.congr rfl (by rintro ⟨⟩)))
    | _ => simp [SlotView.enabled, hf] at hen
  | conclude w =>
    cases hf : v.focus with
    | returned o m r =>
      simp only [slotEffect, hf]
      cases o with
      | none => exact .serialize _ _ _ _ _
      | some outcome =>
        cases outcome with
        | respond => exact .serialize _ _ _ _ _
        | defer => exact .cons trivial (.nil (holds_of_state (by rintro ⟨⟩) (by rintro ⟨⟩)))
        | close => exact hclose
    | _ => simp [SlotView.enabled, hf] at hen
  | probe r =>
    simp only [slotEffect, slotProbePending]
    split_ifs
    · exact hleave _ rfl
    · cases r with
      | ok bytes => exact .cons trivial (.nil (h.congr rfl (by rintro ⟨⟩)))
      | tryAgain want => exact hleave _ rfl
      | failed => exact hclose
  | write w written r =>
    obtain ⟨hf, hs, -, hle⟩ := of_decide_eq_true hen
    refine h.write w hs hle ?_
    rintro rfl
    exact of_decide_eq_true hwhole
  | drain =>
    obtain ⟨hf, hs, hle⟩ := of_decide_eq_true hen
    exact .nil ⟨h.sending, fun _ => hle⟩
  | provide bytes =>
    obtain ⟨hf, -⟩ := of_decide_eq_true hen
    exact h.provide (hi.kernel.drained hf).2 hf bytes
  | finish w =>
    obtain ⟨hf, -⟩ := of_decide_eq_true hen
    exact h.finish (hi.kernel.drained hf).2 hf w
  | stray | reclaim => exact hclose
  | flush w =>
    simp only [slotEffect, slotFlush]
    split_ifs
    · exact .respond _ _ _ _ _ _
    · exact .serialize _ _ _ _ _
    · exact hleave _ rfl
  | sweepPending now w =>
    simp only [slotEffect, slotSweepPending]
    split_ifs
    · exact .respond _ _ _ _ _ _
    · exact hleave _ rfl
  | sweepIdle now =>
    simp only [slotEffect, slotSweepIdle]
    split_ifs
    · exact hclose
    · exact hleave _ rfl
  | teardown =>
    simp only [slotEffect]
    split_ifs
    · refine .silent (silent_slotClose v.slot) (h.congr ?_ (by rintro ⟨⟩))
      simp only [SlotView.leave, slotTeardown, streamFinalize, streamCleared]
      split_ifs <;> rfl
    · exact .nil h
  | post n p =>
    have hn : n < v.tickets.length := of_decide_eq_true hen
    have ht : v.tickets[n]? = some v.tickets[n] := List.getElem?_eq_getElem hn
    simp only [slotEffect, ht]
    refine .cons trivial (.nil (h.congr ?_ id))
    unfold deferralPost
    split_ifs
    · rfl
    · rfl
    · cases p <;> rfl

end SendLedger

/-! ## Whose chunks they are -/

/-- The stream of the response that was answered last. -/
def providing : Monitor (Option Stream) SlotEvent where
  start := none
  record current
    | .answered _ r => if r.bodyProvider.isSome then some r.stream else none
    | _ => current
  Good current
    | .provided stream _ => current = some stream
    | _ => True

/-- A slot in use streams for that response, if at all. -/
def Streams (current : Option Stream) (k : Kernel) : Prop :=
  k.inUse = true → k.stream ≠ none → current = k.stream

/-- Events that neither answer nor provide. -/
def Unstreamed : SlotEvent → Prop
  | .answered _ _ | .provided _ _ => False
  | _ => True

section

variable {current : Option Stream} {k k' : Kernel} {es : List SlotEvent}

theorem providing_unstreamed (hes : ∀ e ∈ es, Unstreamed e) :
    providing.AcceptsFrom current es ∧ es.foldl providing.record current = current := by
  induction es with
  | nil => exact ⟨trivial, rfl⟩
  | cons e es ih =>
    have he := hes e List.mem_cons_self
    have hrest := ih fun e' he' => hes e' (List.mem_cons_of_mem _ he')
    cases e with
    | answered | provided => exact absurd he id
    | _ => exact ⟨⟨trivial, hrest.1⟩, hrest.2⟩

theorem unstreamed_transfer (hes : ∀ e ∈ es, e.Transfer) : ∀ e ∈ es, Unstreamed e := by
  intro e he
  have htransfer := hes e he
  cases e with
  | received | wrote => trivial
  | _ => exact absurd htransfer id

theorem unstreamed_finalizers (stream : Option Stream) :
    ∀ e ∈ Kernel.finalizers stream, Unstreamed e := by
  intro e he
  cases stream with
  | none => simp [Kernel.finalizers] at he
  | some stream =>
    simp only [Kernel.finalizers] at he
    split_ifs at he
    · obtain rfl := List.mem_singleton.mp he
      trivial
    · simp at he

theorem unstreamed_closing (stream : Option Stream) :
    ∀ e ∈ Kernel.finalizers stream ++ [.released], Unstreamed e := by
  intro e he
  rcases List.mem_append.mp he with he | he
  · exact unstreamed_finalizers stream e he
  · obtain rfl := List.mem_singleton.mp he
    trivial

theorem Streams.of_none (hnone : k.stream = none) : Streams current k :=
  fun _ hne => absurd hnone hne

theorem Streams.move (h : Streams current k) (hi : k.Inv) (hm : Move k es k') :
    providing.AcceptsFrom current es ∧ Streams (es.foldl providing.record current) k' := by
  have hkeep : (∀ e ∈ es, Unstreamed e) → (k'.inUse, k'.stream) = (k.inUse, k.stream) →
      providing.AcceptsFrom current es ∧ Streams (es.foldl providing.record current) k' := by
    intro hes hsame
    obtain ⟨hacc, hfold⟩ := @providing_unstreamed current es hes
    obtain ⟨hu, hstream⟩ := Prod.mk.inj hsame
    rw [hfold, Streams, hu, hstream]
    exact ⟨hacc, h⟩
  cases hm with
  | accept | refuse => exact ⟨⟨trivial, trivial⟩, .of_none rfl⟩
  | transfer _ _ he => exact hkeep (unstreamed_transfer he) rfl
  | shake => exact hkeep (by simp) rfl
  | arrive _ _ he => exact hkeep (unstreamed_transfer he) rfl
  | unrouted | routed | take | handled | park => exact hkeep (by simp [Unstreamed]) rfl
  | @answer a r ha =>
    refine ⟨⟨trivial, trivial⟩, fun _ hne => ?_⟩
    simp only [Kernel.answered, ha.stream hi] at hne ⊢
    simp only [List.foldl_cons, List.foldl_nil, providing]
  | overflow => exact ⟨⟨trivial, (providing_unstreamed (unstreamed_closing _)).1⟩, .of_none rfl⟩
  | close _ _ he =>
    refine ⟨(providing.acceptsFrom_append _ _ _).mpr
      ⟨(providing_unstreamed (unstreamed_transfer he)).1, ?_⟩, .of_none rfl⟩
    exact (providing_unstreamed (unstreamed_closing _)).1
  | provide hf hs =>
    have hcurrent := h (hi.drained hf).1 (by simp [hs])
    exact ⟨⟨hcurrent.trans hs, trivial⟩, h⟩
  | exhaust hf hs =>
    have hcurrent := h (hi.drained hf).1 (by simp [hs])
    exact ⟨⟨hcurrent.trans hs, (providing_unstreamed (unstreamed_finalizers _)).1⟩, .of_none rfl⟩
  | finish => exact hkeep (by simp [Unstreamed]) rfl
  | finishClosed => exact ⟨⟨trivial, trivial, trivial⟩, .of_none rfl⟩
  | post ht =>
    refine hkeep (by simp [Unstreamed]) ?_
    unfold Kernel.post
    split_ifs
    · rfl
    · rfl
    · rename_i p _ _
      cases p <;> rfl

end

/-! ## Runs -/

variable {env : ServerEnv}

/-- What one slot does in a run over such sockets. -/
theorem sendingSlot_of_run {slotCount : Nat} {log : List ServerEvent} {s : System}
    (run : Run (sendingMachine env slotCount) log s) (i : Nat) :
    (SendLedger.lossless env.lib).Accepts (slotLog i log) ∧ providing.Accepts (slotLog i log) := by
  have hrun := run.project ((slotProjection env slotCount i).restrict ServerAction.takesWhole
    takesWhole fun s a b hact htest => ?_)
  swap
  · cases a with
    | slot j c rearm =>
      simp only [slotProjection, ServerAction.atSlot, Option.ite_none_right_eq_some,
        Option.some.injEq] at hact
      obtain ⟨rfl, rfl⟩ := hact
      exact htest
    | _ => simp [slotProjection, ServerAction.atSlot] at hact
  constructor
  · refine (hrun.accepts (SendLedger.lossless env.lib) SendLedger.Holds (fun v hv => ?_)
      fun log v a v' es hlog h hstep => ?_).1
    · exact ⟨fun _ hfits => absurd hfits (by simp [SendLedger.lossless, SendLedger.start]),
        fun hf => by simp [hv.1] at hf⟩
    · obtain ⟨hwhole, hstep⟩ := Machine.restrict_step.mp hstep
      have hi := slotRun_inv hlog.of_restrict
      simp only [slotMachine, slotStep] at hstep
      split_ifs at hstep with hen
      rw [Option.some.injEq] at hstep
      have hsends : SendLedger.Sends env.lib _ (slotEffect env v a).2 (slotEffect env v a).1 :=
        h.step hi hen hwhole
      rwa [hstep] at hsends
  · refine (hrun.of_restrict.accepts providing (fun current v => Streams current v.kernel)
      (fun v hv => ?_) fun log v a v' es hlog h hstep => ?_).1
    · obtain ⟨-, -, storage, -, hs⟩ := hv
      exact fun hu => absurd hu (by simp [SlotView.kernel, hs, slotInit])
    · have hi := slotRun_inv hlog
      exact h.move hi.kernel (slotStep_move env hi hstep).1

theorem record_mute {lib : CommonLib} {l : SendLedger} {es : List SlotEvent} (hes : Mute es) :
    es.foldl (SendLedger.record lib) l =
      { l with due := l.due ++ providedBytes es, wrote := l.wrote ++ wroteBytes es } := by
  induction es generalizing l with
  | nil => simp [providedBytes, wroteBytes]
  | cons e es ih =>
    have hrest : Mute es := fun answer r hmem => hes answer r (List.mem_cons_of_mem _ hmem)
    rw [List.foldl_cons, ih hrest]
    cases e with
    | answered answer r => exact absurd List.mem_cons_self (hes answer r)
    | _ => simp [SendLedger.record, providedBytes, wroteBytes]

theorem providing_mute {current : Option Stream} {es : List SlotEvent} (hes : Mute es) :
    es.foldl providing.record current = current := by
  induction es with
  | nil => rfl
  | cons e es ih =>
    have hrest : Mute es := fun answer r hmem => hes answer r (List.mem_cons_of_mem _ hmem)
    cases e with
    | answered answer r => exact absurd List.mem_cons_self (hes answer r)
    | _ => exact ih hrest

/-- When a response has been sent, what is on the wire is its bytes and the chunks of its
provider, in order, if its bytes are fewer than `2 ^ 32`. -/
theorem sent_lossless {slotCount : Nat} {log : List ServerEvent} {s : System}
    (run : Run (sendingMachine env slotCount) log s) (i : Nat) {before es after : List SlotEvent}
    {answer : Answer} {r : HttpResponse}
    (h : slotLog i log = before ++ .answered answer r :: (es ++ .finished :: after)) (hes : Mute es)
    (hfits : (serializedResponse env.lib (serializedPart r)).length < 2 ^ 32) :
    wroteBytes es = serializedResponse env.lib (serializedPart r) ++ providedBytes es ∧
      ∀ stream bytes, .provided stream bytes ∈ es →
        r.bodyProvider.isSome = true ∧ stream = r.stream := by
  obtain ⟨hlossless, hproviding⟩ := sendingSlot_of_run run i
  rw [Monitor.accepts_iff] at hlossless hproviding
  constructor
  · have hgood := hlossless (before ++ .answered answer r :: es) .finished after (by rw [h]; simp)
    rw [Monitor.after_append, List.foldl_cons] at hgood
    simp only [SendLedger.lossless] at hgood
    rw [record_mute hes] at hgood
    have hsent := hgood (decide_eq_true hfits)
    simpa [SendLedger.record] using hsent
  · intro stream bytes hmem
    obtain ⟨es₁, es₂, rfl⟩ := List.append_of_mem hmem
    have hmute : Mute es₁ := fun answer r hmem => hes answer r (List.mem_append_left _ hmem)
    have hgood := hproviding (before ++ .answered answer r :: es₁) (.provided stream bytes)
      (es₂ ++ .finished :: after) (by rw [h]; simp)
    rw [Monitor.after_append, List.foldl_cons, providing_mute hmute] at hgood
    simp only [providing] at hgood
    split_ifs at hgood with hprovider
    exact ⟨hprovider, (Option.some.inj hgood).symm⟩

/-- A handler streams its response, and the socket takes the head in two parts. -/
def streaming : List ServerAction :=
  connecting ++ requesting ++ atSlot0 [.handler .respond streamedResponse, .conclude calm,
    .event false, .write calm 7 (.tryAgain .forWrite), .event false, .write calm 12 .ok,
    .provide (ascii "abc"), .write calm 3 .ok, .provide [], .finish calm]

/-- What happens to that response. -/
def streamingEvents : List SlotEvent :=
  [.wrote (ascii "HTTP/1."), .wrote (ascii "1 200 OK\r\n\r\n"),
    .provided streamedResponse.stream (ascii "abc"), .wrote (ascii "abc"),
    .provided streamedResponse.stream [], .finalized streamedResponse.stream]

theorem sent_lossless_streaming :
    wroteBytes streamingEvents = serializedResponse .reference (serializedPart streamedResponse) ++
      providedBytes streamingEvents ∧ providedBytes streamingEvents = ascii "abc" := by
  obtain ⟨s, -, run⟩ := run_of_execute (M := sendingMachine smallServer 1) streaming
    smallSystem_initial rfl
  have hlog : ∃ before, slotLog 0 ((sendingMachine smallServer 1).log smallSystem streaming) =
      before ++ .answered .handler streamedResponse :: (streamingEvents ++ .finished :: []) :=
    ⟨(slotLog 0 ((sendingMachine smallServer 1).log smallSystem streaming)).take 5,
      by decide +kernel⟩
  obtain ⟨before, hlog⟩ := hlog
  exact ⟨(sent_lossless run 0 hlog (by simp [Mute, streamingEvents]) (by decide +kernel)).1, rfl⟩

/-! ## A response that does not fit 32 bits -/

/-- A step at a slot that closes nothing. -/
theorem sendingRun_atSlot {env : ServerEnv} {slotCount : Nat} {log : List ServerEvent} {s : System}
    (run : Run (sendingMachine env slotCount) log s) {i : Nat} (hi : i < slotCount) {a : SlotAction}
    {v : SlotView} {es : List SlotEvent} (hstep : slotStep env (s.slots i) a = some (v, es))
    {pc : LoopPc} (hturn : s.turn slotCount i a v.focus = some pc)
    (hwhole : takesWhole (s.slots i) a = true) (hes : SlotEvent.released ∉ es) :
    ∃ t, Run (sendingMachine env slotCount) (log ++ es.map (.slot i)) t ∧ t.slots i = v ∧
      t.pc = pc := by
  refine ⟨{ s with slots := Function.update s.slots i v, pc }, .next (a := .slot i a true) run ?_,
    Function.update_self _ _ _, rfl⟩
  refine Machine.restrict_step.mpr ⟨hwhole, ?_⟩
  simp only [serverMachine, serverStep, System.slotStep, if_pos hi, hstep, hturn]
  rw [if_neg (fun h => hes h.1)]

theorem System.turn_event {slotCount : Nat} {s : System} {i : Nat} {error : Bool} {f : Focus}
    (hpc : s.pc = .dispatch) :
    s.turn slotCount i (.event error) f = some (if f = .away then .dispatch else .callback i) := by
  simp [System.turn, hpc]

/-- A response whose head and body fill 32 bits. -/
def wrappingResponse (body : Span) : HttpResponse := { okResponse with body }

/-- The slot of the small server when its handler has been called. -/
def servingSlot : Slot :=
  (((serverMachine smallServer 1).execute smallSystem (connecting ++ requesting)).map
    fun r => (r.1.slots 0).slot).getD smallSlot

theorem writeChain_ok {lib : CommonLib} {σ : Type} {step : σ → Result × σ}
    {steps : List (σ → Result × σ)} {s s' : σ} (h : step s = (.ok, s')) :
    writeChain lib (step :: steps) s = writeChain lib steps s' := by
  rw [writeChain, h]
  simp

theorem bsWrite_fits {data : Span} {n used : Nat} (hn : data.size = n) {cap : Nat}
    (h : used + n ≤ cap)
    (hcap : cap < 2 ^ 32) (m : Bytes) : bsWrite ⟨m, cap, used, false⟩ data =
      (.ok, ⟨overwrite m used data.bytes, cap, used + n, false⟩) := by
  have hsum : wrap32 (used + data.size) = used + n := by
    rw [hn]
    exact Nat.mod_eq_of_lt (by omega)
  rw [bsWrite, hsum, if_neg (by simpa using h)]

theorem serialize_wrapping {body : Span} (hsize : body.size = 2 ^ 32 - 19) : ∃ memory,
    httpResponseSerializeTo .reference (wrappingResponse body) bsWrite
      ⟨servingSlot.sendBuffer, servingSlot.sendBufferSize, 0, false⟩ =
        (.ok, ⟨memory, servingSlot.sendBufferSize, 0, false⟩) := by
  have hcap : servingSlot.sendBufferSize = 64 := rfl
  have hempty : body.isEmpty = false := by
    rw [Span.isEmpty, hsize, beq_eq_false_iff_ne]
    omega
  have hwrap : ∀ m, bsWrite ⟨m, 64, 19, false⟩ body =
      (.ok, ⟨overwrite m 19 body.bytes, 64, 0, false⟩) := by
    intro m
    have hsum : wrap32 (19 + body.size) = 0 := by
      rw [hsize, wrap32]
      omega
    rw [bsWrite, hsum, if_neg (Nat.not_lt_zero _)]
  have hfit : ∀ {data : Span} {n used : Nat}, data.size = n → used + n ≤ 64 → ∀ m,
      bsWrite ⟨m, 64, used, false⟩ data =
        (.ok, ⟨overwrite m used data.bytes, 64, used + n, false⟩) :=
    fun hn h => bsWrite_fits hn h (by omega)
  rw [hcap, httpResponseSerializeTo,
    writeChain_ok (hfit (show (wrappingResponse body).httpVersion.size = 8 from rfl) (by omega) _),
    writeChain_ok (hfit (show space.size = 1 from rfl) (by omega) _),
    writeChain_ok (hfit (show (wrappingResponse body).code.size = 3 from rfl) (by omega) _),
    writeChain_ok (hfit (show space.size = 1 from rfl) (by omega) _),
    writeChain_ok (hfit (show (wrappingResponse body).reasonPhrase.size = 2 from rfl) (by omega) _),
    writeChain_ok (hfit (show crlf.size = 2 from rfl) (by omega) _),
    @writeChain_ok _ _ (httpHeadersSerializeTo .reference (wrappingResponse body).headers bsWrite)
      _ _ _ (if_pos rfl),
    writeChain_ok (hfit (show crlf.size = 2 from rfl) (by omega) _)]
  have hbody : (wrappingResponse body).body = body := rfl
  rw [hbody, writeChain, hempty, if_neg (by decide), hwrap]
  exact ⟨_, rfl⟩

/-- That slot in the sending state, with nothing to send. -/
def emptySlot (memory : Bytes) : Slot :=
  slotArm calm { servingSlot with
    sendBuffer := memory, sendUsed := 0, sendOffset := 0, state := .sending,
    lastActivityMs := 0 } .forWrite

theorem serializeAndSend_wrapping {body : Span} (hsize : body.size = 2 ^ 32 - 19) : ∃ memory,
    serializeAndSend .reference calm servingSlot (wrappingResponse body) =
      (emptySlot memory, []) := by
  obtain ⟨memory, hserialize⟩ := serialize_wrapping hsize
  refine ⟨memory, ?_⟩
  have hinstall : installStream servingSlot (wrappingResponse body) = servingSlot := rfl
  have hpart : serializedPart (wrappingResponse body) = wrappingResponse body := rfl
  rw [serializeAndSend, hinstall, hpart, hserialize]
  rfl

/-- The response is finished, and nothing has been written. -/
theorem wrapping_sent {body : Span} (hsize : body.size = 2 ^ 32 - 19) :
    ∃ (log : List ServerEvent) (s : System) (before : List SlotEvent),
      Run (sendingMachine smallServer 1) log s ∧
        slotLog 0 log = before ++ .answered .handler (wrappingResponse body) :: [.finished] := by
  obtain ⟨s₀, hexec, run₀⟩ := run_of_execute (M := sendingMachine smallServer 1)
    (connecting ++ requesting ++ atSlot0 [.handler .respond (wrappingResponse body)])
    smallSystem_initial rfl
  have hview : ((sendingMachine smallServer 1).execute smallSystem
      (connecting ++ requesting ++ atSlot0 [.handler .respond (wrappingResponse body)])).map
      (fun r => (r.1.pc, r.1.slots 0)) = some (.callback 0,
        ⟨servingSlot, .returned (some .respond) true (wrappingResponse body), [⟨0⟩]⟩) := rfl
  rw [hexec] at hview
  obtain ⟨hpc₀, hv₀⟩ := Prod.mk.inj (Option.some.inj hview)
  dsimp only at hpc₀ hv₀
  generalize (sendingMachine smallServer 1).log smallSystem _ = log at run₀
  obtain ⟨memory, hserialize⟩ := serializeAndSend_wrapping hsize
  have hconclude : slotStep smallServer (s₀.slots 0) (.conclude calm) =
      some (⟨emptySlot memory, .away, [⟨0⟩]⟩, [.answered .handler (wrappingResponse body)]) := by
    have hlib : smallServer.lib = .reference := rfl
    rw [hv₀]
    simp only [slotStep, SlotView.enabled, slotEffect, concludeRequest, SlotView.leave, hlib,
      hserialize]
    rfl
  obtain ⟨s₁, run₁, hv₁, hpc₁⟩ := sendingRun_atSlot run₀ Nat.one_pos hconclude
    (System.turn_callback hpc₀ rfl) rfl (by simp)
  have hevent : slotStep smallServer (s₁.slots 0) (.event false) =
      some (⟨emptySlot memory, .advance, [⟨0⟩]⟩, []) := by
    rw [hv₁]
    rfl
  obtain ⟨s₂, run₂, hv₂, hpc₂⟩ := sendingRun_atSlot run₁ Nat.one_pos hevent
    (System.turn_event hpc₁) rfl (by simp)
  have hdrain : slotStep smallServer (s₂.slots 0) .drain =
      some (⟨emptySlot memory, .drained, [⟨0⟩]⟩, []) := by
    rw [hv₂]
    rfl
  obtain ⟨s₃, run₃, hv₃, hpc₃⟩ := sendingRun_atSlot run₂ Nat.one_pos hdrain
    (System.turn_callback hpc₂ rfl) rfl (by simp)
  have hfinish : ∃ v, slotStep smallServer (s₃.slots 0) (.finish calm) = some (v, [.finished]) := by
    rw [hv₃]
    exact ⟨_, rfl⟩
  obtain ⟨v, hfinish⟩ := hfinish
  obtain ⟨s₄, run₄, -, -⟩ := sendingRun_atSlot run₃ Nat.one_pos hfinish
    (System.turn_callback hpc₃ rfl) rfl (by simp)
  refine ⟨_, s₄, slotLog 0 log, run₄, ?_⟩
  simp only [slotLog, List.filterMap_append, List.append_assoc]
  rfl

/-- A response of `2 ^ 32` bytes goes out as nothing. -/
theorem sent_wrapped : ¬ ∀ (env : ServerEnv) (slotCount : Nat) (log : List ServerEvent) (s : System)
    (i : Nat) (before es after : List SlotEvent) (answer : Answer) (r : HttpResponse),
    Run (sendingMachine env slotCount) log s →
      slotLog i log = before ++ .answered answer r :: (es ++ .finished :: after) → Mute es →
        wroteBytes es = serializedResponse env.lib (serializedPart r) ++ providedBytes es := by
  intro h
  have hsize : Span.size ⟨3000, List.replicate (2 ^ 32 - 19) 0⟩ = 2 ^ 32 - 19 :=
    List.length_replicate
  obtain ⟨log, s, before, run, hlog⟩ := wrapping_sent hsize
  generalize (⟨3000, List.replicate (2 ^ 32 - 19) 0⟩ : Span) = body at *
  have hsent := congrArg List.length (h _ _ _ _ 0 before [] [] _ _ run hlog (by simp [Mute]))
  have hpart : serializedPart (wrappingResponse body) = wrappingResponse body := rfl
  rw [hpart, serializedResponse_eq_flatten] at hsent
  simp [writtenPieces, wroteBytes, providedBytes] at hsent
  have hbody : (wrappingResponse body).body = body := rfl
  rw [Span.size] at hsize
  rw [hbody] at hsent
  omega

end HttpC
