import HttpC.Server.Pipelining
import HttpC.Server.Streams

/-!
# Well-formed slots

What holds of a slot in every reachable state of the server, whichever thread moved last: its
buffers are used within their sizes, a free slot has nothing left of its last connection, and what
follows a response is behind a complete request.

## Main results

* `slot_wellFormed` — in every run every slot is well formed.
-/

namespace HttpC

open Transition

/-! ## The send buffer -/

section

variable {lib : CommonLib} {σ : Type}

/-- What every write of a chain keeps, the chain keeps. -/
theorem writeChain_keeps (P : σ → Prop) {steps : List (σ → Result × σ)}
    (hsteps : ∀ step ∈ steps, ∀ st, P st → P (step st).2) {st : σ} (h : P st) :
    P (writeChain lib steps st).2 := by
  induction steps generalizing st with
  | nil => exact h
  | cons step steps ih =>
    have hfirst := hsteps step List.mem_cons_self st h
    rw [writeChain]
    dsimp only
    split_ifs
    · exact hfirst
    · exact ih (fun s hs => hsteps s (List.mem_cons_of_mem _ hs)) hfirst

theorem httpResponseSerializeTo_keeps (P : σ → Prop) {write : σ → Span → Result × σ}
    (hwrite : ∀ data st, P st → P (write st data).2) (response : HttpResponse) {st : σ}
    (h : P st) : P (httpResponseSerializeTo lib response write st).2 := by
  refine writeChain_keeps P ?_ h
  simp only [List.forall_mem_cons, List.not_mem_nil, false_implies, implies_true, and_true]
  refine ⟨hwrite _, hwrite _, hwrite _, hwrite _, hwrite _, hwrite _, fun st h => ?_, hwrite _,
    fun st h => ?_⟩
  · unfold httpHeadersSerializeTo
    split_ifs
    · exact h
    · exact hwrite _ st h
  · split_ifs
    · exact h
    · exact hwrite _ st h

end

/-- The send buffer is used within its size, and sent as far as it is used. -/
structure Slot.Sendable (slot : Slot) : Prop where
  offset : slot.inUse = true → slot.sendOffset ≤ slot.sendUsed
  used : slot.inUse = true → slot.sendUsed ≤ slot.sendBufferSize

/-- The fields of the send buffer's bounds. -/
def sendBounds (slot : Slot) : Bool × Nat × Nat × Nat :=
  (slot.inUse, slot.sendOffset, slot.sendUsed, slot.sendBufferSize)

section

variable {env : ServerEnv} {slot slot' : Slot} {v v' : SlotView}

theorem Slot.Sendable.congr (h : slot.Sendable) (hsame : sendBounds slot' = sendBounds slot) :
    slot'.Sendable := by
  simp only [sendBounds, Prod.mk.injEq] at hsame
  obtain ⟨hu, hoffset, hused, hsize⟩ := hsame
  constructor
  · rw [hu, hoffset, hused]
    exact h.offset
  · rw [hu, hused, hsize]
    exact h.used

theorem sendable_of_free (h : slot.inUse = false) : slot.Sendable :=
  ⟨fun hu => absurd (h.symm.trans hu) Bool.false_ne_true,
    fun hu => absurd (h.symm.trans hu) Bool.false_ne_true⟩

theorem sendable_slotClose (slot : Slot) : (slotClose slot).1.Sendable :=
  sendable_of_free (by rw [slotClose_slot])

/-- A response is written within the send buffer, or not at all. -/
theorem sendable_serializeAndSend (lib : CommonLib) (w : Platform) (slot : Slot)
    (response : HttpResponse) : (serializeAndSend lib w slot response).1.Sendable := by
  unfold serializeAndSend
  dsimp only
  generalize installStream slot response = slot
  have hkeeps := @httpResponseSerializeTo_keeps lib BufferStream
    (fun bs => bs.capacity = slot.sendBufferSize ∧ bs.used ≤ bs.capacity) bsWrite
    (fun data bs h => by
      unfold bsWrite
      split_ifs with hover
      · exact h
      · exact ⟨h.1, Nat.le_of_not_lt hover⟩)
    (serializedPart response) ⟨slot.sendBuffer, slot.sendBufferSize, 0, false⟩ ⟨rfl, Nat.zero_le _⟩
  revert hkeeps
  generalize httpResponseSerializeTo lib (serializedPart response) bsWrite _ = out
  rintro ⟨hcap, hused⟩
  split_ifs
  · exact sendable_slotClose _
  · exact ⟨fun _ => Nat.zero_le _, fun _ => hused.trans_eq hcap⟩

theorem sendable_slotFlush (h : slot.Sendable) (w : Platform) :
    (slotFlush env w slot).1.Sendable := by
  unfold slotFlush
  split_ifs
  · dsimp only
    split_ifs
    · exact sendable_serializeAndSend ..
    · exact sendable_serializeAndSend ..
  · exact h

theorem sendable_slotFinishSend (w : Platform) (slot : Slot) :
    (slotFinishSend env w slot).1.Sendable := by
  have hnext : ∀ slot : Slot, slot.sendOffset = 0 → slot.sendUsed = 0 → slot.Sendable := by
    intro slot hoffset hused
    constructor <;> omega
  unfold slotFinishSend slotFeed
  dsimp only
  split_ifs
  · exact sendable_slotClose _
  · exact hnext _ rfl rfl
  · exact sendable_slotClose _
  · exact hnext _ rfl rfl
  · exact hnext _ rfl rfl

theorem sendable_concludeRequest (h : slot.Sendable) (w : Platform) (o : Option HandlerOutcome)
    (m : Bool) (r : HttpResponse) : (concludeRequest env w slot o m r).1.Sendable := by
  cases o with
  | none => exact sendable_serializeAndSend ..
  | some outcome =>
    cases outcome with
    | respond => exact sendable_serializeAndSend ..
    | defer => exact h.congr rfl
    | close => exact sendable_slotClose _

theorem sendable_slotStep {a : SlotAction} {es : List SlotEvent} (h : v.slot.Sendable)
    (hstep : slotStep env v a = some (v', es)) : v'.slot.Sendable := by
  unfold slotStep at hstep
  split_ifs at hstep with hen
  obtain rfl : v' = (slotEffect env v a).1 := by rw [Option.some.inj hstep]
  cases a with
  | accept w sd =>
    cases sd with
    | none => exact sendable_of_free rfl
    | some sd => exact ⟨fun _ => le_rfl, fun _ => Nat.zero_le _⟩
  | event error =>
    cases error with
    | true => exact sendable_slotClose _
    | false => exact h
  | handshake w r =>
    cases r with
    | ok | tryAgain => exact h.congr rfl
    | failed => exact sendable_slotClose _
  | tooLarge w => exact sendable_serializeAndSend ..
  | read w r =>
    cases r with
    | ok bytes =>
      simp only [slotEffect, slotDriveReceive]
      split_ifs
      · exact h.congr rfl
      · exact h.congr rfl
      · exact sendable_slotClose _
    | tryAgain want => exact h.congr rfl
    | failed => exact sendable_slotClose _
  | route =>
    simp only [slotEffect, routeRequest]
    split <;> exact h
  | defer => exact h
  | handler outcome response =>
    simp only [slotEffect, handlerReturned]
    split <;> exact h
  | conclude w =>
    simp only [slotEffect]
    split
    · exact sendable_concludeRequest h ..
    · exact h
  | probe r =>
    simp only [slotEffect, slotProbePending, SlotView.leave]
    split_ifs
    · exact h
    · cases r with
      | ok bytes => exact h.congr rfl
      | tryAgain want => exact h
      | failed => exact sendable_slotClose _
  | write w written r =>
    obtain ⟨-, -, hlt, hle⟩ := of_decide_eq_true hen
    have hwrote : ∀ slot : Slot, slot.sendOffset = v.slot.sendOffset + written →
        slot.sendUsed = v.slot.sendUsed → slot.sendBufferSize = v.slot.sendBufferSize →
        slot.inUse = v.slot.inUse → slot.Sendable := by
      intro slot hoffset hused hsize hu
      refine ⟨fun hslot => ?_, fun hslot => ?_⟩
      · omega
      · have hbound := h.used (hu.symm.trans hslot)
        omega
    cases r with
    | ok | tryAgain => exact hwrote _ rfl rfl rfl rfl
    | failed => exact sendable_slotClose _
  | drain => exact h
  | provide bytes =>
    obtain ⟨-, -, -, hle⟩ := of_decide_eq_true hen
    simp only [slotEffect, slotProvide, SlotView.goto]
    split_ifs
    · exact ⟨fun _ => Nat.zero_le _, fun _ => hle⟩
    · refine h.congr ?_
      simp only [streamFinalize, streamCleared]
      split_ifs <;> rfl
  | finish w => exact sendable_slotFinishSend ..
  | stray | reclaim => exact sendable_slotClose _
  | flush w => exact sendable_slotFlush h w
  | sweepPending now w =>
    simp only [slotEffect, slotSweepPending, SlotView.leave]
    split_ifs
    · exact sendable_serializeAndSend ..
    · exact h
  | sweepIdle now =>
    simp only [slotEffect, slotSweepIdle, SlotView.leave]
    split_ifs
    · exact sendable_slotClose _
    · exact h
  | teardown =>
    simp only [slotEffect]
    split_ifs
    · exact sendable_of_free rfl
    · exact h
  | post k p =>
    simp only [slotEffect]
    split
    · exact h
    · refine h.congr ?_
      simp only [deferralPost]
      split_ifs
      · rfl
      · rfl
      · cases p <;> rfl

end

/-! ## Free slots -/

/-- A slot that is free after a step was free before it, or is left without a stream. -/
theorem Move.freed {k k' : Kernel} {es : List SlotEvent} (hi : k.Inv) (h : Move k es k')
    (hu : k'.inUse = false) :
    k.inUse = false ∧ k'.stream = k.stream ∧ .released ∉ es ∨ k'.stream = none := by
  have htransfer : ∀ es : List SlotEvent, (∀ e ∈ es, e.Transfer) → .released ∉ es :=
    fun es hes hmem => hes _ hmem
  cases h with
  | accept => cases hu
  | refuse | overflow | close | finishClosed | exhaust => exact .inr rfl
  | transfer hk hf he => exact .inl ⟨hu, rfl, htransfer _ he⟩
  | arrive hf hs he => exact .inl ⟨hu, rfl, htransfer _ he⟩
  | answer h =>
    have hused := (h.inUse hi).1
    rw [show k.inUse = false from hu] at hused
    cases hused
  | @post n ticket p _ =>
    have hsame : (k.post ticket.generation p).2.inUse = k.inUse ∧
        (k.post ticket.generation p).2.stream = k.stream := by
      unfold Kernel.post
      split_ifs
      · exact ⟨rfl, rfl⟩
      · exact ⟨rfl, rfl⟩
      · cases p <;> exact ⟨rfl, rfl⟩
    exact .inl ⟨hsame.1.symm.trans hu, hsame.2, by simp⟩
  | _ => exact .inl ⟨hu, rfl, by simp⟩

variable {env : ServerEnv} {log : List SlotEvent} {v : SlotView}

/-- A slot that has been freed has no stream left. -/
theorem unstreamed_of_run (run : Run (slotMachine env) log v) (hu : v.slot.inUse = false)
    (hreleased : .released ∈ log) : v.slot.streamActive = false := by
  have hnone : v.kernel.inUse = false → .released ∈ log → v.kernel.stream = none := by
    refine run.invariant (I := fun log v => v.kernel.inUse = false → .released ∈ log →
      v.kernel.stream = none) (fun _ _ _ hmem => absurd hmem List.not_mem_nil) ?_
    intro log v a v' es run ih hstep hu hmem
    have hi := slotRun_inv run
    rcases (slotStep_move env hi hstep).1.freed hi.kernel hu with ⟨hu', hstream, hkept⟩ | hnone
    · rw [hstream]
      exact ih hu' ((List.mem_append.mp hmem).resolve_right hkept)
    · exact hnone
  have hstream := hnone hu hreleased
  by_contra hactive
  simp [SlotView.kernel, hactive] at hstream

/-! ## Keep-alive -/

/-- What a complete parser reports as consumed is in the buffer; both are computed in 32 bits. -/
theorem Fed.consumed_le {lib : CommonLib} {s : Span} {p : HttpRequestParser} (h : Fed lib s p)
    (hp : p.state = .complete) : httpRequestParserGetConsumed p ≤ s.size := by
  rw [httpRequestParserGetConsumed, if_neg (by simp [hp])]
  cases h with
  | missing hs hfresh => rcases hfresh with rfl | rfl <;> simp at hp
  | refused hs herr => simp [herr] at hp
  | waiting hs hlt => simp [parserAfterHead] at hp
  | complete hs hle hbody => exact hle

/-- What holds of a slot whichever thread moved last. -/
structure SlotView.WellFormed (v : SlotView) (log : List SlotEvent) : Prop where
  recvUsed : v.slot.inUse = true → v.slot.recvUsed ≤ v.slot.recvBufferSize
  sendOffset : v.slot.inUse = true → v.slot.sendOffset ≤ v.slot.sendUsed
  sendUsed : v.slot.inUse = true → v.slot.sendUsed ≤ v.slot.sendBufferSize
  unregistered : v.slot.inUse = false → v.slot.registeredEvents = .none
  unflagged : v.slot.inUse = false →
    v.slot.pendingReady = false ∧ v.slot.pendingCancelled = false
  unstreamed : v.slot.inUse = false → .released ∈ log → v.slot.streamActive = false
  exclusive : ¬ (v.slot.pendingReady = true ∧ v.slot.pendingCancelled = true)
  pending : v.slot.pendingReady = true ∨ v.slot.pendingCancelled = true → v.slot.state = .pending
  /-- `slot_finish_send` finds a whole request in front of what it keeps. -/
  keepAlive : ∀ w, v.enabled (.finish w) = true → v.slot.clientWantsClose = false →
    v.slot.parser.state = .complete ∧
      httpRequestParserGetConsumed v.slot.parser ≤ v.slot.recvUsed

/-- In every run of the server every slot is well formed. -/
theorem slot_wellFormed {slotCount : Nat} {log : List ServerEvent} {s : System}
    (run : Run (serverMachine env slotCount) log s) (i : Nat) :
    (s.slots i).WellFormed (slotLog i log) := by
  have hrun := slotRun_of_run env slotCount run i
  generalize s.slots i = v, slotLog i log = log at hrun ⊢
  have hi := slotRun_inv hrun
  obtain ⟨-, hfollows, hstored⟩ := pipelining_of_run hrun
  have hsendable : v.slot.Sendable := by
    refine hrun.invariant (I := fun _ v => v.slot.Sendable) ?_
      fun _ _ _ _ _ _ h hstep => sendable_slotStep h hstep
    rintro v ⟨-, -, storage, -, hslot⟩
    exact sendable_of_free (by rw [hslot]; rfl)
  refine ⟨hstored.used, hsendable.offset, hsendable.used, fun hu => ?_, fun hu => ?_,
    unstreamed_of_run hrun, hi.kernel.exclusive, fun h => (hi.kernel.mailbox h).2,
    fun w hen hopen => ?_⟩
  · by_contra hregistered
    have hused := (hi.ok.registered hregistered).1
    rw [hu] at hused
    cases hused
  · have hmail : ¬ (v.slot.pendingReady = true ∨ v.slot.pendingCancelled = true) := by
      intro h
      have hused := (hi.kernel.mailbox h).1
      rw [show v.kernel.inUse = false from hu] at hused
      cases hused
    grind
  · obtain ⟨hf, -⟩ := of_decide_eq_true hen
    obtain ⟨hu, hs⟩ := hi.kernel.drained hf
    have hphase : v.inbox.phase = .sending := v.phase_eq hu hs hf
    simp only [Pipeline.Follows, hphase] at hfollows
    obtain ⟨hfed, hcomplete⟩ := (hfollows.2 hopen).1
    refine ⟨hcomplete, (hfed.consumed_le hcomplete).trans ?_⟩
    simp [SlotView.inbox, Slot.received, Span.size]

/-- The response to the small server's request has been written, and the connection is kept. -/
def answering : List ServerAction :=
  connecting ++ requesting ++
    atSlot0 [.handler .respond okResponse, .conclude calm, .event false, .write calm 19 .ok]

theorem slot_wellFormed_answering :
    ∃ log s, Run (serverMachine smallServer 1) log s ∧ (s.slots 0).slot.inUse = true ∧
      (s.slots 0).enabled (.finish calm) = true ∧ (s.slots 0).slot.clientWantsClose = false ∧
      (s.slots 0).WellFormed (slotLog 0 log) := by
  obtain ⟨s, hexec, run⟩ := run_of_execute (M := serverMachine smallServer 1) answering
    smallSystem_initial (by decide +kernel)
  have hslot : ((serverMachine smallServer 1).execute smallSystem answering).map
      (fun r => ((r.1.slots 0).slot.inUse, (r.1.slots 0).enabled (.finish calm),
        (r.1.slots 0).slot.clientWantsClose)) = some (true, true, false) := by decide +kernel
  simp only [hexec, Option.map_some, Option.some.injEq, Prod.mk.injEq] at hslot
  exact ⟨_, s, run, hslot.1, hslot.2.1, hslot.2.2, slot_wellFormed run 0⟩

end HttpC
