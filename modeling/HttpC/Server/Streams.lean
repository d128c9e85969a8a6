import HttpC.Server.System

/-!
# Finalizers of streaming bodies

A streaming response the server accepts is owned first by the loop thread's local variable
or by the mailbox of the slot, then by the slot's stream. Every path that ends a slot
finalizes the stream; none looks into the mailbox.

## Main results

* `finalized_once_iff` — in every run each accepted streaming body is finalized exactly once
  before its slot is released, and not provided afterwards, exactly when no slot is released
  while such a response waits in its mailbox.
-/

namespace HttpC

open Transition

/-- The streaming body of an accepted response that has to be finalized. -/
def HttpResponse.owed (r : HttpResponse) : List Stream :=
  if r.bodyProvider.isSome ∧ r.bodyFinalizer.isSome then [r.stream] else []

/-- The installed stream, if it has to be finalized. -/
def owedStream : Option Stream → List Stream
  | none => []
  | some stream => if stream.finalizer.isSome then [stream] else []

/-- What a log says about streaming bodies since the last release. -/
structure StreamLedger where
  accepted : List Stream
  finalized : List Stream
  /-- Accepted with a completion that has not been answered yet. -/
  waiting : List Stream
  deriving DecidableEq, Repr

namespace StreamLedger

def start : StreamLedger := ⟨[], [], []⟩

def record (l : StreamLedger) : SlotEvent → StreamLedger
  | .handled _ .respond r => { l with accepted := l.accepted ++ r.owed }
  | .posted _ (.complete r) .ok => { l with accepted := l.accepted ++ r.owed, waiting := r.owed }
  | .answered _ _ => { l with waiting := [] }
  | .finalized stream => { l with finalized := l.finalized ++ [stream] }
  | .released => start
  | _ => l

/-- At a release everything accepted is finalized; only what is accepted and not finalized is
finalized or, if it has a finalizer, provided. -/
def finalizing : Monitor StreamLedger SlotEvent where
  start := start
  record := record
  Good l
    | .released => l.accepted = l.finalized
    | .finalized stream => l.accepted = l.finalized ++ [stream]
    | .provided stream _ => stream.finalizer.isSome → l.accepted = l.finalized ++ [stream]
    | _ => True

/-- At a release no accepted streaming body waits for its answer. -/
def flushing : Monitor StreamLedger SlotEvent where
  start := start
  record := record
  Good l
    | .released => l.waiting = []
    | _ => True

/-- The two monitors agree on these events. -/
def Agree (l : StreamLedger) (es : List SlotEvent) : Prop :=
  finalizing.AcceptsFrom l es ↔ flushing.AcceptsFrom l es

end StreamLedger

open StreamLedger

namespace Kernel

/-- The response the handler has just returned. -/
def returnedOwed (k : Kernel) : List Stream :=
  match k.focus with
  | .returned (some .respond) _ r => r.owed
  | _ => []

/-- The response in the mailbox. -/
def mailboxOwed (k : Kernel) : List Stream := if k.ready then k.response.owed else []

/-- What the slot still has to finalize, wherever it is kept. -/
def owed (k : Kernel) : List Stream :=
  k.returnedOwed ++ (k.mailboxOwed ++ if k.inUse then owedStream k.stream else [])

theorem returnedOwed_of_plain {k : Kernel} (h : k.focus.Plain) : k.returnedOwed = [] := by
  rcases h with h | h | h <;> simp [returnedOwed, h]

theorem owed_of_plain {k : Kernel} (h : k.focus.Plain) :
    k.owed = k.mailboxOwed ++ if k.inUse then owedStream k.stream else [] := by
  rw [owed, returnedOwed_of_plain h, List.nil_append]

namespace Inv

variable {k : Kernel}

theorem mailboxOwed_eq_nil (hi : k.Inv) (h : k.state ≠ .pending) : k.mailboxOwed = [] := by
  simp [Kernel.mailboxOwed, (hi.empty h).1]

theorem owed_of_free (hi : k.Inv) (hf : k.focus.Plain) (hu : k.inUse = false) : k.owed = [] := by
  have hmail := hi.mailbox
  simp only [hu, Bool.false_eq_true, false_and, imp_false, not_or] at hmail
  simp [Kernel.owed, returnedOwed_of_plain hf, Kernel.mailboxOwed, hu, hmail]

theorem owed_of_stream (hi : k.Inv) (hf : k.focus.Plain) (hu : k.inUse = true)
    (hs : k.state ≠ .pending) : k.owed = owedStream k.stream := by
  simp [Kernel.owed, returnedOwed_of_plain hf, hi.mailboxOwed_eq_nil hs, hu]

theorem owed_of_pending (hi : k.Inv) (hf : k.focus.Plain) (hu : k.inUse = true)
    (hs : k.state = .pending) : k.owed = k.mailboxOwed := by
  simp [Kernel.owed, returnedOwed_of_plain hf, hu, hi.stream_eq_none hu (by simp [hs]), owedStream]

theorem owed_of_routing (hi : k.Inv) (hf : k.focus.Routing) : k.owed = k.returnedOwed := by
  obtain ⟨hu, hs⟩ := hi.routing hf
  simp [Kernel.owed, hi.mailboxOwed_eq_nil (by simp [hs]), hu,
    hi.stream_eq_none hu (by simp [hs]), owedStream]

end Inv

/-- What is answered is all there is to finalize. -/
theorem Answers.owed {k : Kernel} (hi : k.Inv) {a : Answer} {r : HttpResponse}
    (h : k.Answers a r) : k.owed = r.owed := by
  have hnone : ∀ {r' : HttpResponse}, r'.bodyProvider = none → r'.owed = [] := fun hr => by
    simp [HttpResponse.owed, hr]
  cases h with
  | handler hf => rw [hi.owed_of_routing (hf ▸ trivial), returnedOwed, hf]
  | unrouted hf hr =>
    rw [hi.owed_of_routing (hf ▸ trivial), returnedOwed, hf, hnone hr]
  | tooLarge hf hs hr =>
    have hu := hi.advance hf
    rw [hi.owed_of_stream (.inr (.inl hf)) hu (by simp [hs]), hnone hr,
      hi.stream_eq_none hu (by simp [hs]), owedStream]
  | completed hf hu hs hm hc =>
    rw [hi.owed_of_pending (.inl hf) hu hs, Kernel.mailboxOwed, if_pos hm]
  | cancelled hf hu hs hm hr =>
    have hready : k.ready = false := Bool.eq_false_iff.mpr fun hne => hi.exclusive ⟨hne, hm⟩
    rw [hi.owed_of_pending (.inl hf) hu hs, Kernel.mailboxOwed, hready, hnone hr]
    rfl
  | expired hf hu hs hm hc hr =>
    rw [hi.owed_of_pending (.inl hf) hu hs, Kernel.mailboxOwed, hm, hnone hr]
    rfl

/-- An answer moves what is owed into the slot's stream. -/
theorem owed_answered {k : Kernel} (hu : k.inUse = true) (hstream : k.stream = none)
    (r : HttpResponse) :
    (k.answered r).owed = r.owed ∧ owedStream (k.answered r).stream = r.owed := by
  have h : owedStream (k.answered r).stream = r.owed := by
    unfold answered HttpResponse.owed owedStream
    cases hp : r.bodyProvider <;> simp [hstream, HttpResponse.stream, hp]
  refine ⟨?_, h⟩
  rw [Kernel.owed, h]
  simp [returnedOwed, mailboxOwed, answered, hu]

end Kernel

/-- The ledger and the slot agree on what is accepted and not finalized. -/
structure StreamLedger.Tracks (l : StreamLedger) (k : Kernel) : Prop where
  accepted : l.accepted = l.finalized ++ k.owed
  waiting : l.waiting = k.mailboxOwed

namespace StreamLedger

variable {l : StreamLedger} {k : Kernel}

/-- The monitors agree on a step's events, and the ledger keeps track. -/
def KeepsTrack (l : StreamLedger) (es : List SlotEvent) (k : Kernel) : Prop :=
  l.Agree es ∧ (es.foldl record l).Tracks k

theorem KeepsTrack.nil (h : l.Tracks k) : l.KeepsTrack [] k := ⟨.rfl, h⟩

theorem KeepsTrack.cons {e : SlotEvent} {es : List SlotEvent}
    (he : finalizing.Good l e ↔ flushing.Good l e) (h : (l.record e).KeepsTrack es k) :
    l.KeepsTrack (e :: es) k :=
  ⟨and_congr he h.1, h.2⟩

theorem KeepsTrack.single {e : SlotEvent} (he : finalizing.Good l e ↔ flushing.Good l e)
    (h : (l.record e).Tracks k) : l.KeepsTrack [e] k :=
  .cons he (.nil h)

theorem KeepsTrack.transfer {es rest : List SlotEvent} (hes : ∀ e ∈ es, e.Transfer)
    (h : l.KeepsTrack rest k) : l.KeepsTrack (es ++ rest) k := by
  induction es with
  | nil => exact h
  | cons e es ih =>
    have he := hes e List.mem_cons_self
    have hrest := ih fun e' he' => hes e' (List.mem_cons_of_mem _ he')
    cases e with
    | received bytes | wrote bytes => exact .cons .rfl hrest
    | _ => exact absurd he id

/-- Finalizing what is owed, with nothing else accepted. -/
theorem KeepsTrack.finalizers {stream : Option Stream} {rest : List SlotEvent}
    (hacc : l.accepted = l.finalized ++ owedStream stream)
    (h : KeepsTrack { l with finalized := l.accepted } rest k) :
    l.KeepsTrack (Kernel.finalizers stream ++ rest) k := by
  have hnone : owedStream stream = [] → l.KeepsTrack rest k := by
    intro hnil
    obtain ⟨accepted, finalized, waiting⟩ := l
    obtain rfl : accepted = finalized := by simpa [hnil] using hacc
    exact h
  cases stream with
  | none => exact hnone rfl
  | some stream =>
    by_cases hfin : stream.finalizer.isSome
    · have howed : owedStream (some stream) = [stream] := if_pos hfin
      have hevents : Kernel.finalizers (some stream) = [.finalized stream] := if_pos hfin
      rw [howed] at hacc
      rw [hevents]
      refine .cons (iff_of_true hacc trivial) ?_
      simp only [record, ← hacc]
      exact h
    · have hevents : Kernel.finalizers (some stream) = [] := if_neg hfin
      rw [hevents]
      exact hnone (if_neg hfin)

/-- A release, by what is owed at it. -/
theorem KeepsTrack.released (hacc : l.accepted = l.finalized ++ l.waiting) (state : SlotState) :
    l.KeepsTrack [.released] (k.closed state) := by
  refine .single ?_ ⟨by simp [record, start, Kernel.owed, Kernel.returnedOwed, Kernel.mailboxOwed,
    Kernel.closed], by simp [record, start, Kernel.mailboxOwed, Kernel.closed]⟩
  change l.accepted = l.finalized ↔ l.waiting = []
  simp [hacc]

/-- Nothing of what is owed changes. -/
theorem Tracks.congr {k' : Kernel} (h : l.Tracks k) (howed : k'.owed = k.owed)
    (hmail : k'.mailboxOwed = k.mailboxOwed) : l.Tracks k' :=
  ⟨howed ▸ h.accepted, hmail ▸ h.waiting⟩

theorem Tracks.answer (h : l.Tracks k) (hi : k.Inv) {a : Answer} {r : HttpResponse}
    (ha : k.Answers a r) : (l.record (.answered a r)).Tracks (k.answered r) where
  accepted := by
    rw [(Kernel.owed_answered (ha.inUse hi).1 (ha.stream hi) r).1, ← ha.owed hi]
    exact h.accepted
  waiting := by simp [record, Kernel.mailboxOwed, Kernel.answered]

/-- A connection is closed; a parked response that was not yet sent is finalized with it. -/
theorem Tracks.close {state : SlotState} (h : l.Tracks k) (hi : k.Inv)
    (hf : k.focus.Plain ∨ ∃ m r, k.focus = .returned (some .close) m r) (hu : k.inUse = true) :
    l.KeepsTrack (Kernel.finalizers k.stream ++ [.released]) (k.closed state) := by
  have hacc := h.accepted
  by_cases hs : k.state = .pending
  · have hplain : k.focus.Plain := by
      rcases hf with hf | ⟨m, r, hf⟩
      · exact hf
      · simp [hi.returned hf] at hs
    rw [hi.owed_of_pending hplain hu hs] at hacc
    rw [hi.stream_eq_none hu (by simp [hs])]
    exact .released (hacc.trans (congrArg _ h.waiting.symm)) _
  · have howed : k.owed = owedStream k.stream := by
      rcases hf with hf | ⟨m, r, hf⟩
      · exact hi.owed_of_stream hf hu hs
      · obtain ⟨-, hstate⟩ := hi.returned hf
        rw [hi.owed_of_routing (hf ▸ trivial), Kernel.returnedOwed, hf,
          hi.stream_eq_none hu (by simp [hstate])]
        rfl
    refine .finalizers (howed ▸ hacc) (.released ?_ _)
    simp [h.waiting, hi.mailboxOwed_eq_nil hs]

theorem Tracks.post {n : Nat} {ticket : Deferral} {p : Post} (h : l.Tracks k) (hi : k.Inv)
    (hi' : (k.post ticket.generation p).2.Inv) :
    l.KeepsTrack [.posted n p (k.post ticket.generation p).1] (k.post ticket.generation p).2 := by
  have hacc := h.accepted
  by_cases hok : (k.post ticket.generation p).1 = .ok
  · obtain ⟨hpost, hready, -⟩ := Kernel.post_accepted hok
    obtain ⟨hu, hs⟩ := Kernel.post_pending hok
    rw [hpost] at hi' ⊢
    rw [hok]
    refine .single (by cases p <;> exact .rfl) ?_
    cases p with
    | complete r =>
      have hplain : k.focus.Plain :=
        Focus.plain_of_not_routing fun hr => by simp [hi.routing hr] at hs
      have hempty : k.owed = [] := by
        rw [hi.owed_of_pending hplain hu hs, Kernel.mailboxOwed, hready]
        rfl
      have hmail : (k.deliver (.complete r)).mailboxOwed = r.owed := if_pos rfl
      refine ⟨?_, hmail.symm⟩
      rw [hi'.owed_of_pending hplain hu hs, hmail]
      rw [hempty, List.append_nil] at hacc
      exact congrArg (· ++ r.owed) hacc
    | cancel => exact ⟨h.accepted, h.waiting⟩
  · rw [Kernel.post_refused hok]
    generalize (k.post ticket.generation p).1 = result at hok
    refine .single .rfl ?_
    cases p <;> cases result <;> first | exact h | exact absurd rfl hok

/-- Every move is tracked, and the monitors agree on its events. -/
theorem Tracks.move {k' : Kernel} {es : List SlotEvent} (h : l.Tracks k) (hi : k.Inv)
    (hm : Move k es k') : l.KeepsTrack es k' := by
  have hi' := hm.inv hi
  have hacc := h.accepted
  cases hm with
  | accept hf hu =>
    have hempty := hi.owed_of_free (.inl hf) hu
    have hmail : k.mailboxOwed = [] := by
      rw [Kernel.owed_of_plain (.inl hf)] at hempty
      exact (List.append_eq_nil_iff.mp hempty).1
    refine .single .rfl (h.congr ?_ hmail.symm)
    rw [hempty, hi'.owed_of_stream (.inr (.inl rfl)) rfl nofun, owedStream]
  | refuse hf hu =>
    refine .released ?_ _
    rw [hacc, h.waiting, Kernel.owed_of_plain (.inl hf), hu]
    simp
  | transfer hk hf he hu hd =>
    rw [← List.append_nil es]
    refine .transfer he (.nil (h.congr ?_ rfl))
    rw [Kernel.owed_of_plain hk, Kernel.owed_of_plain hf]
    rfl
  | shake hf hs =>
    refine .nil (h.congr ?_ rfl)
    rw [Kernel.owed_of_plain (.inr (.inl hf)), Kernel.owed_of_plain (.inl rfl)]
    rfl
  | arrive hf hs he =>
    rw [← List.append_nil es]
    refine .transfer he (.nil (h.congr ?_ rfl))
    rw [hi'.owed_of_routing trivial, hi.owed_of_stream (.inr (.inl hf)) (hi.advance hf)
      (by simp [hs]), hi.stream_eq_none (hi.advance hf) (by simp [hs])]
    rfl
  | unrouted hf | routed hf =>
    refine .single .rfl (h.congr ?_ rfl)
    rw [hi'.owed_of_routing trivial, hi.owed_of_routing (hf ▸ trivial), Kernel.returnedOwed,
      Kernel.returnedOwed, hf]
  | take hf => exact .single .rfl ⟨h.accepted, h.waiting⟩
  | @handled matched route outcome r hf =>
    have hempty : k.owed = [] := by
      rw [hi.owed_of_routing (hf ▸ trivial), Kernel.returnedOwed, hf]
    have howed := hi'.owed_of_routing trivial
    refine .single (by cases outcome <;> exact .rfl) ?_
    rw [hempty, List.append_nil] at hacc
    cases outcome with
    | respond =>
      refine ⟨?_, h.waiting⟩
      rw [howed]
      exact congrArg (· ++ r.owed) hacc
    | defer | close => exact h.congr (howed.trans hempty.symm) rfl
  | park hf =>
    obtain ⟨hu, hs⟩ := hi.returned hf
    have hmail := hi.mailboxOwed_eq_nil (by simp [hs])
    refine .single .rfl (h.congr ?_ hmail.symm)
    rw [hi'.owed_of_pending (.inl rfl) hu rfl, hi.owed_of_routing (hf ▸ trivial),
      Kernel.returnedOwed, hf]
    rfl
  | answer ha => exact .single .rfl (h.answer hi ha)
  | @overflow a r ha =>
    have hanswer := h.answer hi ha
    have howed := Kernel.owed_answered (ha.inUse hi).1 (ha.stream hi) r
    refine .cons .rfl (.finalizers ?_ (.released ?_ _))
    · rw [howed.2, ← howed.1]
      exact hanswer.accepted
    · simp [record]
  | @close es state hf hu he => exact .transfer he (h.close hi hf hu)
  | @provide stream bytes hf hs =>
    obtain ⟨hu, hstate⟩ := hi.drained hf
    have howed := hi.owed_of_stream (.inr (.inr hf)) hu (by simp [hstate])
    refine .single (iff_of_true (fun hfin => ?_) trivial) (h.congr ?_ rfl)
    · rw [hacc, howed, hs, owedStream, if_pos hfin]
    · rw [howed, hi'.owed_of_stream (.inr (.inl rfl)) hu (by simp [hstate])]
  | @exhaust stream bytes hf hs =>
    obtain ⟨hu, hstate⟩ := hi.drained hf
    rw [hi.owed_of_stream (.inr (.inr hf)) hu (by simp [hstate])] at hacc
    refine .cons (iff_of_true (fun hfin => ?_) trivial) ?_
    · rw [hacc, hs, owedStream, if_pos hfin]
    · rw [← List.append_nil (Kernel.finalizers _)]
      refine .finalizers hacc (.nil ⟨?_, h.waiting⟩)
      rw [hi'.owed_of_stream (.inr (.inr hf)) hu (by simp [hstate]), owedStream, List.append_nil]
  | @finish f hf hs hnext =>
    obtain ⟨hu, hstate⟩ := hi.drained hf
    have hbefore := hi.owed_of_stream (.inr (.inr hf)) hu (by simp [hstate])
    refine .single .rfl (h.congr ?_ rfl)
    rw [hbefore]
    rcases hnext with rfl | rfl
    · exact hi'.owed_of_stream (.inl rfl) hu nofun
    · rw [hi'.owed_of_routing trivial, hs]
      rfl
  | finishClosed hf hs =>
    obtain ⟨hu, hstate⟩ := hi.drained hf
    rw [hi.owed_of_stream (.inr (.inr hf)) hu (by simp [hstate]), hs, owedStream,
      List.append_nil] at hacc
    refine .cons .rfl (.released ?_ _)
    simp [record, hacc, h.waiting, hi.mailboxOwed_eq_nil (k := k) (by simp [hstate])]
  | @post n ticket p ht => exact h.post hi hi'

end StreamLedger

/-! ## Runs -/

variable {env : ServerEnv} {log : List SlotEvent} {v : SlotView}

theorem SlotView.Initial.tracks (h : v.Initial) : StreamLedger.start.Tracks v.kernel := by
  have hi := h.inv.kernel
  obtain ⟨hf, -, storage, -, hs⟩ := h
  have hslot : v.slot.inUse = false ∧ v.slot.pendingReady = false := by
    rw [hs]
    exact ⟨rfl, rfl⟩
  constructor <;> simp [StreamLedger.start, Kernel.owed, Kernel.returnedOwed, Kernel.mailboxOwed,
    SlotView.kernel, hf, hslot]

theorem tracks_of_run (run : Run (slotMachine env) log v) :
    (finalizing.Accepts log ↔ flushing.Accepts log) ∧ (finalizing.after log).Tracks v.kernel := by
  refine run.invariant (I := fun log v =>
    (finalizing.Accepts log ↔ flushing.Accepts log) ∧ (finalizing.after log).Tracks v.kernel)
    (by intro v h; exact ⟨.rfl, SlotView.Initial.tracks h⟩) ?_
  intro log v a v' es run h hstep
  have hi := slotRun_inv run
  obtain ⟨hagree, htracks⟩ := h.2.move hi.kernel (slotStep_move env hi hstep).1
  rw [Monitor.accepts_append, Monitor.accepts_append, Monitor.after_append]
  exact ⟨and_congr h.1 hagree, htracks⟩

/-- In every run of the server, each streaming body a slot accepts is finalized exactly once
before the slot is released, and not provided afterwards, exactly when the slot is never
released while a completed streaming response waits in its mailbox. -/
theorem finalized_once_iff {slotCount : Nat} {log : List ServerEvent} {s : System}
    (run : Run (serverMachine env slotCount) log s) (i : Nat) :
    finalizing.Accepts (slotLog i log) ↔ flushing.Accepts (slotLog i log) :=
  (tracks_of_run (slotRun_of_run env slotCount run i)).1

def streamedResponse : HttpResponse :=
  { okResponse with bodyProvider := some 1, bodyFinalizer := some 2, bodyProviderContext := 3 }

/-- A handler streams its response, and the peer goes away. -/
theorem finalized_once_disconnected :
    let log := (serverMachine smallServer 1).log smallSystem (connecting ++ requesting ++
      atSlot0 [.handler .respond streamedResponse, .conclude calm, .event true])
    .finalized streamedResponse.stream ∈ slotLog 0 log ∧
      (finalizing.Accepts (slotLog 0 log) ↔ flushing.Accepts (slotLog 0 log)) := by
  intro log
  obtain ⟨s, -, run⟩ := run_of_execute (M := serverMachine smallServer 1)
    (connecting ++ requesting ++
      atSlot0 [.handler .respond streamedResponse, .conclude calm, .event true])
    smallSystem_initial rfl
  exact ⟨by decide +kernel, finalized_once_iff run 0⟩

/-- A streaming completion is accepted, and the peer goes away before it is flushed. -/
def lostStream : List ServerAction :=
  connecting ++ requesting ++ parking ++
    atSlot0 [.post 0 (.complete streamedResponse), .event true]

theorem completed_stream_not_finalized :
    ¬ ∀ (env : ServerEnv) (slotCount : Nat) (log : List ServerEvent) (s : System),
      Run (serverMachine env slotCount) log s → ∀ i, finalizing.Accepts (slotLog i log) := by
  intro h
  obtain ⟨s, -, run⟩ := run_of_execute (M := serverMachine smallServer 1) lostStream
    smallSystem_initial rfl
  set log := slotLog 0 ((serverMachine smallServer 1).log smallSystem lostStream) with hlog
  have hlast : log = log.dropLast ++ [.released] := by decide +kernel
  have hgood := (Monitor.accepts_iff _ _).mp (h _ _ _ _ run 0) _ _ _ hlast
  have hlost : (finalizing.after log.dropLast).accepted ≠
      (finalizing.after log.dropLast).finalized := by decide +kernel
  exact hlost hgood

end HttpC
