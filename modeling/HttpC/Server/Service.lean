import HttpC.Library.SerialService
import HttpC.Server.Answers
import HttpC.Server.Pipelining

/-!
# A slot is a serial service

What a client sees of its slot: its requests are taken one at a time, each is answered whole
before the next one, and the wire carries the answers in order. Handlers, deferrals, deadlines,
streaming bodies and the splits of the socket are not visible.

## Main results

* `serial_of_run` — every run of the server is, at each slot, a run of a serial service.
-/

namespace HttpC

open Transition Block

abbrev SerialEvent := Serial.Event RequestContent UInt8

abbrev SerialService := Serial.Service RequestContent UInt8

def serialServices : Machine SerialService SerialEvent SerialEvent :=
  Serial.Service.machine RequestContent UInt8

section

variable (lib : CommonLib)

/-- What a slot's event is to its client. -/
def SlotEvent.serial : SlotEvent → Option SerialEvent
  | .accepted => some .connect
  | .dispatched request => some (.request request.content)
  | .answered a r =>
    some (.answer (serializedResponse lib (serializedPart r))
      (decide (a = .refused ∧ r.code = HTTP_CODE_413)))
  | .provided _ bytes => some (.extend bytes)
  | .wrote bytes => some (.send bytes)
  | .finished => some .complete
  | .released => some .hangUp
  | _ => none

/-- An answer has a size below `2 ^ 32`. -/
def SlotEvent.fits : SlotEvent → Bool
  | .answered _ r => decide ((serializedResponse lib (serializedPart r)).length < 2 ^ 32)
  | _ => true

end

/-! ## Where the bytes come from -/

/-- No bytes of an answer. -/
def Trafficless (es : List SlotEvent) : Prop := ∀ e ∈ es, ¬ e.Traffic

variable {env : ServerEnv} {v v' : SlotView} {es : List SlotEvent}

theorem trafficless_nil : Trafficless [] := by simp [Trafficless]

theorem trafficless_of_plain (hes : ∀ e ∈ es, e.Plain) : Trafficless es := by
  intro e he htraffic
  have hplain := hes e he
  cases e <;> first | exact htraffic | exact hplain

theorem trafficless_finalizerCall (slot : Slot) : Trafficless (finalizerCall slot) :=
  trafficless_of_plain (plain_finalizerCall slot)

theorem trafficless_slotClose (slot : Slot) : Trafficless (slotClose slot).2 :=
  trafficless_of_plain (plain_slotClose slot)

/-- Only the drivers of the sending state log bytes of an answer. -/
theorem trafficless_slotEffect {a : SlotAction} (hwrite : ∀ w n r, a ≠ .write w n r)
    (hprovide : ∀ bytes, a ≠ .provide bytes) : Trafficless (slotEffect env v a).2 := by
  intro e he htraffic
  cases slotEffect_source env v a e he with
  | plain hplain => cases e <;> first | exact htraffic | exact hplain
  | wrote => exact hwrite _ _ _ rfl
  | provided => exact hprovide _ rfl
  | _ => exact htraffic

/-- Bytes of an answer are no business of the inbox. -/
theorem Intake.tail {lib : CommonLib} {b b' : Inbox} {e : SlotEvent}
    (h : Intake lib b (e :: es) b') (he : e.Traffic) : Intake lib b es b' := by
  generalize hall : e :: es = all at h
  cases h with
  | stay haside =>
    subst hall
    exact .stay fun x hx => haside x (List.mem_cons_of_mem _ hx)
  | @release _ e' es' he' hes hb hcap =>
    cases e' with
    | none =>
      obtain rfl : e :: es = es' := hall
      exact @Intake.release _ _ _ none _ (by simp) (fun x hx => hes x (List.mem_cons_of_mem _ hx))
        hb hcap
    | some e' =>
      obtain ⟨rfl, rfl⟩ := List.cons.inj hall
      exact @Intake.release _ _ _ none _ (by simp) hes hb hcap
  | shake hb => cases hall
  | _ =>
    obtain ⟨rfl, -⟩ := List.cons.inj hall
    exact absurd he id

theorem Phase.of_eq_free {inUse : Bool} {state : SlotState} {f : Focus} :
    Phase.of inUse state f = .free ↔ inUse = false := by
  cases inUse <;> cases f <;> cases state <;> simp [Phase.of]

/-- A slot that is freed is released. -/
theorem Move.released_mem {k k' : Kernel} (h : Move k es k') (hu : k.inUse = true)
    (hu' : k'.inUse = false) : SlotEvent.released ∈ es := by
  cases h with
  | @post n ticket p h =>
    by_cases hok : (k.post ticket.generation p).1 = .ok
    · rw [(Kernel.post_accepted hok).1] at hu'
      cases p <;> simp [Kernel.deliver, hu] at hu'
    · rw [Kernel.post_refused hok, hu] at hu'
      cases hu'
  | _ => simp_all [Kernel.answered]

/-! ## What the service knows of a slot -/

/-- What is due and sent while an answer is written. -/
def ledgerOf (s : SerialService) : SendLedger :=
  if s.connected ∧ s.turn.answering then ⟨s.turn.due, s.turn.sent, true⟩ else SendLedger.start

/-- The service stands where the inbox does. -/
def StandsAt (s : SerialService) (b : Inbox) : Prop :=
  match b.phase with
  | .free => s.connected = false
  | .stray => False
  | .shaking | .reading | .routing => s.connected = true ∧ s.turn = .client
  | .serving => s.connected = true ∧ s.turn = .server
  | .sending =>
    s.connected = true ∧ s.turn.answering = true ∧ (s.turn.refusal = true → b.closing = true)

structure InStep (v : SlotView) (s : SerialService) : Prop where
  stands : StandsAt s v.inbox
  holds : (ledgerOf s).Holds v

namespace InStep

open Serial

variable {lib : CommonLib} {s s' : SerialService} {b b' : Inbox} {l : SendLedger}

theorem ledger_answering (hs : s.connected = true) (h : s.turn.answering = true) :
    ledgerOf s = ⟨s.turn.due, s.turn.sent, true⟩ := if_pos ⟨hs, h⟩

theorem ledger_closed (hs : s.connected = false) : ledgerOf s = SendLedger.start :=
  if_neg (by simp [hs])

theorem ledger_other (h : s.turn.answering = false) : ledgerOf s = SendLedger.start :=
  if_neg (by simp [h])

theorem ledger_request (h : s.turn = .client) (r : RequestContent) :
    ledgerOf (s.request h r) = SendLedger.start :=
  ledger_other rfl

theorem ledger_answer {part : Bytes} {refusal : Bool}
    (h : s.turn = if refusal then .client else .server) (hs : s.connected = true) :
    ledgerOf (s.answer part refusal h) = ⟨part, [], true⟩ := if_pos ⟨hs, rfl⟩

/-- Nothing has to be due. -/
theorem holds_start (h : l.Holds v) : SendLedger.start.Holds v := ⟨fun _ => nofun, h.drained⟩

/-- Events in a row, read as those of the service. -/
abbrev Reads (lib : CommonLib) (s : SerialService) (es : List SlotEvent) (s' : SerialService) :
    Prop := Takes Service.next s (es.filterMap (SlotEvent.serial lib)) s'

theorem reads_hidden (hes : ∀ e ∈ es, e.serial lib = none) : Reads lib s es s := by
  rw [Reads, List.filterMap_eq_nil_iff.mpr hes]
  exact .nil

theorem reads_cons {e : SlotEvent} {s'' : SerialService} (h : Reads lib s [e] s')
    (hes : Reads lib s' es s'') : Reads lib s (e :: es) s'' := by
  rw [Reads, ← List.singleton_append, List.filterMap_append]
  exact h.append hes

theorem hidden_of_aside {e : SlotEvent} (h : e.Aside) (hnone : ¬ e.Traffic) :
    e.serial lib = none := by
  cases e <;> first | rfl | exact absurd h id | exact absurd trivial hnone

/-- The end of a connection. -/
theorem reads_closing (lib : CommonLib) (hes : ∀ e ∈ es, e = .released ∨ e.Aside)
    (hnone : Trafficless es) (hend : s.connected = false ∨ .released ∈ es) :
    ∃ s', Reads lib s es s' ∧ s'.connected = false := by
  induction es generalizing s with
  | nil => exact ⟨s, .nil, by simpa using hend⟩
  | cons e es ih =>
    have hrest := fun x hx => hes x (List.mem_cons_of_mem _ hx)
    have hnone' : Trafficless es := fun x hx => hnone x (List.mem_cons_of_mem _ hx)
    rcases hes e List.mem_cons_self with rfl | haside
    · obtain ⟨s', hreads, hs'⟩ := @ih s.hangUp hrest hnone' (.inl rfl)
      exact ⟨s', reads_cons (.single rfl) hreads, hs'⟩
    · have hhidden : e.serial lib = none := hidden_of_aside haside (hnone e List.mem_cons_self)
      obtain ⟨s', hreads, hs'⟩ := ih hrest hnone' (by
        rcases hend with hend | hend
        · exact .inl hend
        · rcases List.mem_cons.mp hend with rfl | hend
          · exact absurd haside id
          · exact .inr hend)
      exact ⟨s', by simpa [Reads, hhidden] using hreads, hs'⟩

/-- What an inbox allows is the service's next step. -/
theorem reads_allowed (h : StandsAt s b) {e : SlotEvent} (he : b.Allows e) (hnone : ¬ e.Traffic)
    (hgood : (SendLedger.lossless lib).Good (ledgerOf s) e) :
    ∃ s', Reads lib s [e] s' ∧ (b.phase = .free → s' = s) := by
  cases e with
  | dispatched request =>
    obtain ⟨hb, rfl⟩ := he
    simp only [StandsAt, hb] at h
    exact ⟨_, .single (dif_pos h), by simp [hb]⟩
  | answered a r =>
    rcases he with ⟨hb, hcode⟩ | ⟨hb, rfl, hcode, -⟩
    · simp only [StandsAt, hb] at h
      have hrefusal : decide (a = .refused ∧ r.code = HTTP_CODE_413) = false := by
        simpa using hcode
      exact ⟨_, .single (dif_pos ⟨h.1, by simpa [hrefusal] using h.2⟩), by simp [hb]⟩
    · simp only [StandsAt, hb] at h
      exact ⟨_, .single (dif_pos ⟨h.1, by simpa [hcode] using h.2⟩), by simp [hb]⟩
  | finished =>
    have hb : b.phase = .sending := he
    simp only [StandsAt, hb] at h
    rw [ledger_answering h.1 h.2.1] at hgood
    exact ⟨_, .single (dif_pos ⟨h.1, h.2.1, hgood rfl⟩), by simp [hb]⟩
  | accepted | released => exact absurd he id
  | provided | wrote => exact absurd trivial hnone
  | _ => exact ⟨s, reads_hidden (by simp [SlotEvent.serial]), fun _ => rfl⟩

theorem foldl_aside (hes : ∀ e ∈ es, e.Aside) (hnone : Trafficless es) :
    es.foldl (SendLedger.record lib) l = l := by
  induction es with
  | nil => rfl
  | cons e es ih =>
    have he : l.record lib e = l := by
      have haside := hes e List.mem_cons_self
      have hno := hnone e List.mem_cons_self
      cases e <;> first | rfl | exact absurd haside id | exact absurd trivial hno
    rw [List.foldl_cons, he]
    exact ih (fun x hx => hes x (List.mem_cons_of_mem _ hx))
      fun x hx => hnone x (List.mem_cons_of_mem _ hx)

/-- The service follows an intake that moves no bytes of an answer. -/
theorem intake (h : StandsAt s b) (hintake : Intake lib b es v'.inbox) (hnone : Trafficless es)
    (hsends : (ledgerOf s).Sends lib es v') (hfits : ∀ e ∈ es, e.fits lib)
    (hfree : b.phase ≠ .free → v'.inbox.phase = .free → .released ∈ es) :
    ∃ s', Reads lib s es s' ∧ InStep v' s' := by
  obtain ⟨hgood, hholds⟩ := hsends
  generalize hb' : v'.inbox = b' at hintake hfree
  cases hintake with
  | stay he =>
    rw [foldl_aside he hnone] at hholds
    exact ⟨s, reads_hidden fun e hx => hidden_of_aside (he e hx) (hnone e hx), hb' ▸ h, hholds⟩
  | accept hb =>
    simp only [StandsAt, hb] at h
    exact ⟨.fresh true, .single (if_neg (by simp [h])), by simp [hb', StandsAt, Service.fresh],
      holds_start hholds⟩
  | @release b' e rest he hes hb hcap =>
    have hnone' : Trafficless rest := fun x hx => hnone x (List.mem_append_right _ hx)
    have hclosed : ∀ t : SerialService, (b.phase = .free → t.connected = false) →
        (b.phase ≠ .free → SlotEvent.released ∈ rest) →
        ∃ s', Reads lib t rest s' ∧ InStep v' s' := by
      intro t hfree hreleased
      obtain ⟨s', hreads, hs'⟩ := @reads_closing rest t lib hes hnone' (by
        by_cases hphase : b.phase = .free
        · exact .inl (hfree hphase)
        · exact .inr (hreleased hphase))
      refine ⟨s', hreads, by simp only [hb', StandsAt, hb, hs'], ?_⟩
      rw [ledger_closed hs']
      exact holds_start hholds
    cases e with
    | none =>
      refine hclosed s (fun hphase => ?_) fun hphase => hfree hphase hb
      simpa only [StandsAt, hphase] using h
    | some e =>
      have hallow := he e rfl
      have hne := hnone e List.mem_cons_self
      obtain ⟨t, ht, hsame⟩ := reads_allowed h hallow hne hgood.1
      have hfree' : b.phase = .free → t.connected = false := by
        intro hphase
        rw [hsame hphase]
        simpa only [StandsAt, hphase] using h
      have hreleased : b.phase ≠ .free → SlotEvent.released ∈ rest := by
        intro hphase
        rcases List.mem_cons.mp (hfree hphase hb) with rfl | hmem
        · exact absurd hallow id
        · exact hmem
      obtain ⟨s', hreads, hinstep⟩ := hclosed t hfree' hreleased
      exact ⟨s', reads_cons ht hreads, hinstep⟩
  | shake hb =>
    simp only [StandsAt, hb] at h
    exact ⟨s, .nil, by simpa [hb', StandsAt] using h, hholds⟩
  | read hb hfeed hphase =>
    simp only [StandsAt, hb] at h
    refine ⟨s, .nil, ?_, hholds⟩
    rcases hphase with ⟨-, rfl⟩ | ⟨-, rfl⟩ <;> simpa [hb', StandsAt] using h
  | dispatch hb =>
    simp only [StandsAt, hb] at h
    refine ⟨_, .single (dif_pos h), ?_, ?_⟩
    · simpa [hb', StandsAt, Service.request] using h.1
    · rw [ledger_request h.2]
      exact holds_start hholds
  | probe hb =>
    simp only [StandsAt, hb] at h
    exact ⟨s, .nil, by simpa [hb', StandsAt, hb] using h, hholds⟩
  | @answer a r closing hallow hclosing =>
    have hfit : (serializedResponse lib (serializedPart r)).length < 2 ^ 32 :=
      of_decide_eq_true (hfits _ List.mem_cons_self)
    have hrecord : ([SlotEvent.answered a r].foldl (SendLedger.record lib) (ledgerOf s)) =
        ⟨serializedResponse lib (serializedPart r), [], true⟩ := by
      simpa [SendLedger.record] using hfit
    rw [hrecord] at hholds
    rcases hallow with ⟨hb, hcode⟩ | ⟨hb, rfl, hcode, -⟩
    · simp only [StandsAt, hb] at h
      have hrefusal : decide (a = .refused ∧ r.code = HTTP_CODE_413) = false := by
        simpa using hcode
      refine ⟨_, .single (dif_pos ⟨h.1, by simpa [hrefusal] using h.2⟩), ?_, ?_⟩
      · simp only [hb', StandsAt, Service.answer, h.1, Turn.refusal, hrefusal]
        simp [Turn.answering]
      · rw [ledger_answer _ h.1]
        exact hholds
    · simp only [StandsAt, hb] at h
      refine ⟨_, .single (dif_pos ⟨h.1, by simpa [hcode] using h.2⟩), ?_, ?_⟩
      · simp only [hb', StandsAt, Service.answer, h.1]
        exact ⟨trivial, rfl, fun _ => hclosing hb⟩
      · rw [ledger_answer _ h.1]
        exact hholds
  | finish hb hopen hfeed hphase =>
    simp only [StandsAt, hb] at h
    obtain ⟨hs, hanswering, hlast⟩ := h
    have hall := hgood.1
    rw [ledger_answering hs hanswering] at hall
    have hmore : s.turn.refusal = false := by
      by_contra hr
      simp [hlast (by simpa using hr)] at hopen
    refine ⟨_, .single (dif_pos ⟨hs, hanswering, hall rfl⟩), ?_, ?_⟩
    · rcases hphase with ⟨-, rfl⟩ | ⟨-, rfl⟩ <;>
        simp [hb', StandsAt, Service.complete, hs, hmore]
    · rw [ledger_other (by simp [Service.complete, hmore, Turn.answering])]
      exact holds_start hholds

/-- The service follows bytes of an answer, and what comes with them. -/
theorem traffic (h : InStep v s) (hphase : v.inbox.phase = .sending) {e : SlotEvent}
    (he : e.Traffic) {due part : Bytes} (hpart : s.turn.sent ++ part <+: due)
    (hnext : ∀ h : s.turn.answering = true, s.connected = true →
      Reads lib s [e] (s.proceed h due part hpart))
    (hrecord : (SendLedger.mk s.turn.due s.turn.sent true).record lib e =
      ⟨due, s.turn.sent ++ part, true⟩)
    (hsends : (ledgerOf s).Sends lib (e :: es) v') (hnone : Trafficless es)
    (hfits : ∀ x ∈ e :: es, x.fits lib) (hintake : Intake lib v.inbox (e :: es) v'.inbox)
    (hfree : v.inbox.phase ≠ .free → v'.inbox.phase = .free → .released ∈ e :: es) :
    ∃ s', Reads lib s (e :: es) s' ∧ InStep v' s' := by
  have hstands := h.stands
  simp only [StandsAt, hphase] at hstands
  obtain ⟨hs, hanswering, hlast⟩ := hstands
  obtain ⟨hgood, hholds⟩ := hsends
  have hledger : (ledgerOf s).record lib e = ledgerOf (s.proceed hanswering due part hpart) := by
    rw [ledger_answering hs hanswering, hrecord]
    exact (if_pos ⟨hs, rfl⟩).symm
  have hstands' : StandsAt (s.proceed hanswering due part hpart) v.inbox := by
    simp only [StandsAt, hphase]
    exact ⟨hs, rfl, hlast⟩
  have hfree' : v.inbox.phase ≠ .free → v'.inbox.phase = .free → .released ∈ es := by
    intro hopen hclosed
    rcases List.mem_cons.mp (hfree hopen hclosed) with rfl | hmem
    · exact absurd he id
    · exact hmem
  obtain ⟨s', hreads, hinstep⟩ := intake hstands' (hintake.tail he) hnone
    ⟨hledger ▸ hgood.2, hledger ▸ hholds⟩ (fun x hx => hfits x (List.mem_cons_of_mem _ hx)) hfree'
  exact ⟨s', reads_cons (hnext hanswering hs) hreads, hinstep⟩

/-- While an answer is written, the send buffer holds what is left of it. -/
theorem due_eq (h : InStep v s) (hphase : v.inbox.phase = .sending)
    (hstate : v.slot.state = .sending) :
    s.turn.sent ++ window v.slot.sendBuffer v.slot.sendOffset
      (v.slot.sendUsed - v.slot.sendOffset) = s.turn.due := by
  have hstands := h.stands
  simp only [StandsAt, hphase] at hstands
  have hholds := h.holds.sending hstate
  rw [ledger_answering hstands.1 hstands.2.1] at hholds
  exact hholds rfl

theorem due_of_window (h : InStep v s) (hphase : v.inbox.phase = .sending)
    (hstate : v.slot.state = .sending) {written : Nat}
    (hle : written ≤ v.slot.sendUsed - v.slot.sendOffset) :
    s.turn.sent ++ window v.slot.sendBuffer v.slot.sendOffset written <+: s.turn.due := by
  have hsplit : v.slot.sendUsed - v.slot.sendOffset =
      written + (v.slot.sendUsed - (v.slot.sendOffset + written)) := by omega
  rw [← h.due_eq hphase hstate, hsplit, window_add, ← List.append_assoc]
  exact List.prefix_append _ _

theorem sent_of_drained (h : InStep v s) (hphase : v.inbox.phase = .sending)
    (hstate : v.slot.state = .sending) (hf : v.focus = .drained) : s.turn.sent = s.turn.due := by
  have hdue := h.due_eq hphase hstate
  rwa [Nat.sub_eq_zero_of_le (h.holds.drained hf), window_zero_length, List.append_nil] at hdue

/-- The service follows every step of the slot. -/
theorem step (h : InStep v s) (hi : v.Inv) (hstored : v.slot.Stored) {a : SlotAction}
    (hwhole : takesWhole v a = true) (hstep : slotStep env v a = some (v', es))
    (hfits : ∀ e ∈ es, e.fits env.lib) : ∃ s', Reads env.lib s es s' ∧ InStep v' s' := by
  obtain ⟨hintake, -⟩ := slotStep_intake hi hstored hstep
  obtain ⟨hmove, -⟩ := slotStep_move env hi hstep
  have hfree : v.inbox.phase ≠ .free → v'.inbox.phase = .free → .released ∈ es := by
    intro hopen hclosed
    have hu : v.slot.inUse = true := by simpa using mt Phase.of_eq_free.mpr hopen
    exact hmove.released_mem hu (Phase.of_eq_free.mp hclosed)
  unfold slotStep at hstep
  split_ifs at hstep with hen
  rw [Option.some.injEq] at hstep
  have hsends := @SendLedger.Holds.step _ v env h.holds hi a hen hwhole
  rw [hstep] at hsends
  by_cases hwrite : ∃ w n r, a = .write w n r
  · obtain ⟨w, written, r, rfl⟩ := hwrite
    obtain ⟨hf, hstate, -, hle⟩ := of_decide_eq_true hen
    have hphase : v.inbox.phase = .sending := v.phase_eq (hi.kernel.advance hf) hstate hf
    obtain ⟨rest, rfl, hnone⟩ : ∃ rest, es = .wrote (window v.slot.sendBuffer v.slot.sendOffset
        written) :: rest ∧ Trafficless rest := by
      obtain rfl := congrArg Prod.snd hstep
      cases r with
      | failed => exact ⟨_, rfl, trafficless_slotClose _⟩
      | _ => exact ⟨_, rfl, trafficless_nil⟩
    have hpart := h.due_of_window hphase hstate hle
    refine h.traffic hphase trivial hpart (fun hanswering hs => ?_) rfl hsends hnone hfits
      hintake hfree
    exact .single (dif_pos ⟨hs, hanswering, hpart⟩)
  · by_cases hprovide : ∃ bytes, a = .provide bytes
    · obtain ⟨bytes, rfl⟩ := hprovide
      obtain ⟨hf, -⟩ := of_decide_eq_true hen
      obtain ⟨hu, hstate⟩ := hi.kernel.drained hf
      have hphase : v.inbox.phase = .sending := v.phase_eq hu hstate hf
      obtain ⟨rest, rfl, hnone⟩ :
          ∃ rest, es = .provided v.slot.stream bytes :: rest ∧ Trafficless rest := by
        obtain rfl := congrArg Prod.snd hstep
        simp only [slotEffect, slotProvide]
        split_ifs
        · exact ⟨_, rfl, trafficless_nil⟩
        · exact ⟨_, rfl, trafficless_finalizerCall _⟩
      have hall := h.sent_of_drained hphase hstate hf
      have hpart : s.turn.sent ++ [] <+: s.turn.due ++ bytes := by simp [hall]
      refine h.traffic hphase trivial hpart (fun hanswering hs => ?_)
        (by simp [SendLedger.record]) hsends hnone hfits hintake hfree
      exact .single (dif_pos ⟨hs, hanswering, hall⟩)
    · have hnone : Trafficless es := by
        have hnone := @trafficless_slotEffect env v a (fun w n r ha => hwrite ⟨w, n, r, ha⟩)
          fun bytes ha => hprovide ⟨bytes, ha⟩
        rwa [hstep] at hnone
      exact intake h.stands hintake hnone hsends hfits hfree

theorem initial (h : v.Initial) : InStep v (.fresh false) := by
  obtain ⟨hf, -, storage, -, hs⟩ := h
  have hfree : v.inbox.phase = .free := Phase.of_eq_free.mpr (by rw [hs]; rfl)
  refine ⟨by simp [StandsAt, hfree, Service.fresh], ?_⟩
  rw [ledger_closed rfl]
  exact ⟨fun _ hsending => absurd hsending Bool.false_ne_true, by simp [hf]⟩

end InStep

/-! ## Runs -/

/-- A slot of the server over sockets that mean it. -/
def sendingProjection (env : ServerEnv) (slotCount i : Nat) :
    Projection (sendingMachine env slotCount) ((slotMachine env).restrict takesWhole) :=
  (slotProjection env slotCount i).restrict ServerAction.takesWhole takesWhole (by
    intro s a b hact htest
    cases a with
    | slot j c rearm =>
      simp only [slotProjection, ServerAction.atSlot, Option.ite_none_right_eq_some,
        Option.some.injEq] at hact
      obtain ⟨rfl, rfl⟩ := hact
      exact htest
    | _ => simp [slotProjection, ServerAction.atSlot] at hact)

/-- A slot over sockets that mean it refines a serial service, if its answers fit 32 bits. -/
def slotRefinement (env : ServerEnv) :
    Refinement ((slotMachine env).restrict takesWhole) serialServices where
  Rel v s := InStep v s ∧ v.Inv ∧ v.slot.Stored
  read := SlotEvent.serial env.lib
  Granted e := e.fits env.lib
  initial v hv := by
    obtain ⟨-, -, hstored⟩ := pipelining_of_run (Run.start (M := slotMachine env) hv)
    exact ⟨.fresh false, rfl, InStep.initial hv, hv.inv, hstored⟩
  step v s a v' es hrel hstep hfits := by
    obtain ⟨hinstep, hi, hstored⟩ := hrel
    obtain ⟨hwhole, hstep⟩ := Machine.restrict_step.mp hstep
    obtain ⟨s', hreads, hinstep'⟩ := hinstep.step hi hstored hwhole hstep hfits
    exact ⟨_, s', hreads.execute, hinstep', (slotStep_move env hi hstep).2,
      (slotStep_intake hi hstored hstep).2⟩

/-- The wire of a connection, with an event. -/
def SlotEvent.wire (wire : Bytes) : SlotEvent → Bytes
  | .accepted => []
  | .wrote bytes => wire ++ bytes
  | _ => wire

/-- The bytes written on the last connection. -/
def wireOf (es : List SlotEvent) : Bytes := es.foldl SlotEvent.wire []

theorem foldl_requests (lib : CommonLib) (log : List SlotEvent) (l : Pipeline) :
    (log.filterMap (SlotEvent.serial lib)).foldl Serial.Event.requests l.dispatched =
      (log.foldl Pipeline.record l).dispatched := by
  induction log generalizing l with
  | nil => rfl
  | cons e log ih =>
    rw [List.foldl_cons, ← ih]
    cases e <;> rfl

theorem foldl_wire (lib : CommonLib) (log : List SlotEvent) (wire : Bytes) :
    (log.filterMap (SlotEvent.serial lib)).foldl Serial.Event.wire wire =
      log.foldl SlotEvent.wire wire := by
  induction log generalizing wire with
  | nil => rfl
  | cons e log ih => cases e <;> exact ih _

/-- The requests and the wire of the service, in the words of the slot. -/
theorem serial_log {lib : CommonLib} {log : List SlotEvent} {c : SerialService}
    (run : Run serialServices (log.filterMap (SlotEvent.serial lib)) c) :
    c.requests = (log.foldl Pipeline.record Pipeline.start).dispatched ∧ c.wire = wireOf log := by
  obtain ⟨_, rfl, htakes⟩ := run.takes
  obtain ⟨hrequests, hwire⟩ := Serial.Service.takes_eq htakes
  exact ⟨hrequests.trans (foldl_requests lib log .start), hwire.trans (foldl_wire lib log [])⟩

/-- **A slot is a serial service.** Whatever its handlers, deferrals, streams, deadlines and other
clients do, a slot takes one request after the other and answers each of them whole before it
takes the next one: its wire carries the answers, in order, and nothing else. -/
theorem serial_of_run {slotCount : Nat} {log : List ServerEvent} {s : System}
    (run : Run (sendingMachine env slotCount) log s) (i : Nat)
    (hfits : ∀ e ∈ slotLog i log, e.fits env.lib) :
    ∃ c, Run serialServices ((slotLog i log).filterMap (SlotEvent.serial env.lib)) c ∧
      StandsAt c (s.slots i).inbox ∧
      c.requests = ((slotLog i log).foldl Pipeline.record Pipeline.start).dispatched ∧
      c.wire = wireOf (slotLog i log) := by
  have hslot := run.project (sendingProjection env slotCount i)
  obtain ⟨c, hrun, hinstep, -⟩ := hslot.refine (slotRefinement env) hfits
  exact ⟨c, hrun, hinstep.stands, serial_log hrun⟩

/-- The streamed response is one answer, and it is the whole wire. -/
theorem serial_of_run_streaming :
    let log := (sendingMachine smallServer 1).log smallSystem streaming
    ∃ s c, (sendingMachine smallServer 1).execute smallSystem streaming = some (s, log) ∧
      StandsAt c (s.slots 0).inbox ∧ c.answers.length = 1 ∧ c.wire = wireOf (slotLog 0 log) ∧
      c.wire = ascii "HTTP/1.1 200 OK\r\n\r\nabc" := by
  intro log
  obtain ⟨s, hexec, run⟩ := run_of_execute (M := sendingMachine smallServer 1) streaming
    smallSystem_initial rfl
  obtain ⟨c, hserial, hstands, -, hwire⟩ :=
    serial_of_run run 0 (List.all_eq_true.mp (by decide +kernel))
  refine ⟨s, c, hexec, hstands, ?_, hwire, hwire.trans (by decide +kernel)⟩
  obtain ⟨_, rfl, htakes⟩ := hserial.takes
  have hanswers : (serialServices.execute (.fresh false) ((slotLog 0 log).filterMap
      (SlotEvent.serial smallServer.lib))).map (fun r => r.1.answers.length) = some 1 := by
    decide +kernel
  rw [serialServices, Serial.Service.machine, htakes.execute] at hanswers
  exact Option.some.inj hanswers

end HttpC
