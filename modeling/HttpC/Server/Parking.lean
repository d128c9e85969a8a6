import HttpC.Server.Tickets

/-!
# The answer to a parked request

A parked request waits for a call by a worker, for its deadline or for the end of its
connection. The flush, the sweep, the probe and the calls test the same flags in critical
sections of their own; the ledger of the slot says which of them may follow which.

## Main results

* `parking_answered_once` — a parking accepts at most one call and gets the answer that goes
  with it, or none.
-/

namespace HttpC

open Transition

/-! ## Parkings in a log -/

/-- An event that ends a parking. -/
def SlotEvent.endsParking : SlotEvent → Bool
  | .answered _ _ | .released => true
  | _ => false

/-- The call that an event accepts. -/
def SlotEvent.accepted? : SlotEvent → Option Post
  | .posted _ p .ok => some p
  | _ => none

/-- The calls accepted during a parking, from the events behind it. -/
def acceptedCalls (es : List SlotEvent) : List Post :=
  (es.takeWhile fun e => !e.endsParking).filterMap SlotEvent.accepted?

/-- The end of a parking, with what comes behind it. -/
def parkingEnd (es : List SlotEvent) : List SlotEvent := es.dropWhile fun e => !e.endsParking

/-- The responses the server makes itself have the status of their occasion. -/
def Answer.HasStatus : Answer → HttpResponse → Prop
  | .cancelled, r => r.code = HTTP_CODE_503 ∧ r.reasonPhrase = HTTP_REASON_PHRASE_503
  | .expired, r => r.code = HTTP_CODE_504 ∧ r.reasonPhrase = HTTP_REASON_PHRASE_504
  | _, _ => True

/-- The answer that goes with the accepted calls: the response of the call, 503 for a
cancellation, 504 for none. -/
def Answer.Follows (answer : Answer) (r : HttpResponse) : List Post → Prop
  | [] => answer = .expired ∧ answer.HasStatus r
  | [.complete response] => answer = .completed ∧ r = response
  | [.cancel] => answer = .cancelled ∧ answer.HasStatus r
  | _ :: _ :: _ => False

/-- Until the next parking only handlers and refusals are answered. -/
def NoLateAnswer (es : List SlotEvent) : Prop :=
  ∀ answer r, .answered answer r ∈ es.takeWhile (· ≠ .parked) →
    answer = .handler ∨ answer = .refused

/-- What a parking may end with: an answer that goes with its calls, or a close. -/
def EndsWell (calls : List Post) : List SlotEvent → Prop
  | .answered answer r :: later => answer.Follows r calls ∧ NoLateAnswer later
  | _ :: later => NoLateAnswer later
  | [] => True

/-! ## The status of the server's own answers -/

section

variable {env : ServerEnv}

/-- Events without an answer. -/
def Mute (es : List SlotEvent) : Prop := ∀ answer r, SlotEvent.answered answer r ∉ es

theorem mute_finalizerCall (slot : Slot) : Mute (finalizerCall slot) :=
  fun _ _ hmem => by cases finalized_of_mem_finalizerCall hmem

theorem mute_slotClose (slot : Slot) : Mute (slotClose slot).2 := by
  intro answer r hmem
  rcases List.mem_append.mp hmem with hmem | hmem
  · exact mute_finalizerCall slot answer r hmem
  · cases List.mem_singleton.mp hmem

theorem mute_slotTeardown (slot : Slot) : Mute (slotTeardown slot).2 := mute_slotClose slot

theorem mute_serializeAndSend (lib : CommonLib) (w : Platform) (slot : Slot)
    (response : HttpResponse) : Mute (serializeAndSend lib w slot response).2 := by
  obtain ⟨memory, hcase | ⟨used, hcase⟩⟩ := serializeAndSend_cases lib w slot response
  · rw [hcase]
    exact mute_slotClose _
  · rw [hcase]
    exact fun _ _ => List.not_mem_nil

theorem mute_nil : Mute [] := fun _ _ => List.not_mem_nil

theorem Mute.cons {es : List SlotEvent} (h : Mute es) {e : SlotEvent}
    (he : ∀ answer r, e ≠ .answered answer r) : Mute (e :: es) := by
  intro answer r hmem
  rcases List.mem_cons.mp hmem with rfl | hmem
  · exact he _ _ rfl
  · exact h _ _ hmem

/-- The one answer of a list, in front of events without one. -/
theorem hasStatus_of_mem_cons {es : List SlotEvent} {answer answer' : Answer} {r r' : HttpResponse}
    (hes : Mute es) (h : .answered answer r ∈ SlotEvent.answered answer' r' :: es)
    (hstatus : answer'.HasStatus r') : answer.HasStatus r := by
  rcases List.mem_cons.mp h with heq | hmem
  · obtain ⟨rfl, rfl⟩ := SlotEvent.answered.inj heq
    exact hstatus
  · exact absurd hmem (hes _ _)

theorem respondWithStatus_hasStatus (lib : CommonLib) (w : Platform) (slot : Slot)
    {answer answer' : Answer} {code reason : Span} {r : HttpResponse}
    (h : .answered answer r ∈ (respondWithStatus lib w slot answer' code reason).2)
    (hstatus : ∀ r' : HttpResponse, r'.code = code → r'.reasonPhrase = reason →
      answer'.HasStatus r') : answer.HasStatus r :=
  hasStatus_of_mem_cons (mute_serializeAndSend _ _ _ _) h (hstatus _ rfl rfl)

/-- Every answer of a step has the status of its occasion. -/
theorem slotEffect_hasStatus (v : SlotView) (a : SlotAction) {answer : Answer} {r : HttpResponse}
    (h : .answered answer r ∈ (slotEffect env v a).2) : answer.HasStatus r := by
  have hmute : Mute (slotEffect env v a).2 → answer.HasStatus r := fun hm => absurd h (hm _ _)
  cases a with
  | accept w sd =>
    refine hmute ?_
    cases sd <;> intro _ _ <;> simp [slotEffect, SlotView.goto, acceptConnection, releaseSlot]
  | event error =>
    refine hmute ?_
    cases error
    · exact mute_nil
    · exact mute_slotClose _
  | handshake w r =>
    refine hmute ?_
    cases r
    · exact mute_nil
    · exact mute_nil
    · exact mute_slotClose _
  | tooLarge w => exact respondWithStatus_hasStatus _ _ _ h fun _ _ _ => trivial
  | read w r =>
    refine hmute ?_
    cases r with
    | ok bytes =>
      simp only [slotEffect, SlotView.goto, slotDriveReceive]
      split_ifs
      · exact mute_nil.cons (by simp)
      · exact mute_nil.cons (by simp)
      · exact (mute_slotClose _).cons (by simp)
    | tryAgain want => exact mute_nil
    | failed => exact mute_slotClose _
  | route =>
    refine hmute ?_
    simp only [slotEffect, routeRequest]
    split <;> exact mute_nil.cons (by simp)
  | defer => exact hmute (mute_nil.cons (by simp))
  | handler outcome response =>
    refine hmute ?_
    simp only [slotEffect, handlerReturned]
    split
    · exact mute_nil.cons (by simp)
    · exact mute_nil
  | conclude w =>
    simp only [slotEffect] at h hmute
    split at h
    · next outcome matched response _ =>
      cases outcome with
      | none => exact hasStatus_of_mem_cons (mute_serializeAndSend _ _ _ _) h trivial
      | some outcome =>
        cases outcome with
        | respond => exact hasStatus_of_mem_cons (mute_serializeAndSend _ _ _ _) h trivial
        | defer => exact absurd h (mute_nil.cons (by simp) _ _)
        | close => exact absurd h (mute_slotClose _ _ _)
    · simp at h
  | probe r =>
    refine hmute ?_
    simp only [slotEffect, SlotView.leave, slotProbePending]
    split_ifs
    · exact mute_nil
    · cases r with
      | ok bytes => exact mute_nil.cons (by simp)
      | tryAgain want => exact mute_nil
      | failed => exact mute_slotClose _
  | write w written r =>
    refine hmute ?_
    cases r with
    | ok | tryAgain want => exact mute_nil.cons (by simp)
    | failed => exact (mute_slotClose _).cons (by simp)
  | provide bytes =>
    refine hmute ?_
    simp only [slotEffect, SlotView.goto, slotProvide]
    split_ifs
    · exact mute_nil.cons (by simp)
    · exact (mute_finalizerCall _).cons (by simp)
  | finish w =>
    refine hmute ?_
    simp only [slotEffect, SlotView.goto, slotFinishSend]
    split_ifs <;> first
      | exact (mute_slotClose _).cons (by simp)
      | exact mute_nil.cons (by simp)
  | flush w =>
    simp only [slotEffect, SlotView.leave, slotFlush] at h
    split_ifs at h
    · exact respondWithStatus_hasStatus _ _ _ h fun _ hc hr => ⟨hc, hr⟩
    · exact hasStatus_of_mem_cons (mute_serializeAndSend _ _ _ _) h trivial
    · simp at h
  | sweepPending now w =>
    simp only [slotEffect, SlotView.leave, slotSweepPending] at h
    split_ifs at h
    · exact respondWithStatus_hasStatus _ _ _ h fun _ hc hr => ⟨hc, hr⟩
    · simp at h
  | sweepIdle now =>
    refine hmute ?_
    simp only [slotEffect, SlotView.leave, slotSweepIdle]
    split_ifs
    · exact mute_slotClose _
    · exact mute_nil
  | drain => exact hmute mute_nil
  | stray | reclaim => exact hmute (mute_slotClose _)
  | teardown =>
    refine hmute ?_
    simp only [slotEffect]
    split_ifs
    · exact mute_slotTeardown _
    · exact mute_nil
  | post k p =>
    refine hmute ?_
    simp only [slotEffect]
    split
    · exact mute_nil
    · exact mute_nil.cons (by simp)

theorem hasStatus_of_run {log : List SlotEvent} {v : SlotView} (run : Run (slotMachine env) log v)
    {answer : Answer} {r : HttpResponse} (h : .answered answer r ∈ log) : answer.HasStatus r := by
  refine run.invariant (I := fun log _ => ∀ answer r, .answered answer r ∈ log →
    answer.HasStatus r) (by simp) (fun log v a v' es _ hI hstep answer r hmem => ?_) answer r h
  rcases List.mem_append.mp hmem with hmem | hmem
  · exact hI answer r hmem
  · simp only [slotMachine, slotStep] at hstep
    split_ifs at hstep
    rw [Option.some.injEq] at hstep
    have hes : es = (slotEffect env v a).2 := by rw [hstep]
    exact slotEffect_hasStatus v a (hes ▸ hmem)

end

/-! ## Parkings by the ledger -/

namespace Ledger

theorem noLateAnswer_of_unparked {l : Ledger} {es : List SlotEvent} (h : l.Sound)
    (hacc : protocol.AcceptsFrom l es) (hparked : l.parked = none) : NoLateAnswer es := by
  induction es generalizing l with
  | nil => simp [NoLateAnswer]
  | cons e es ih =>
    obtain ⟨he, hacc⟩ := hacc
    intro answer r hmem
    by_cases hpark : e = .parked
    · simp [hpark] at hmem
    rw [List.takeWhile_cons_of_pos (by simpa using hpark)] at hmem
    rcases List.mem_cons.mp hmem with rfl | hmem
    · have hdecision := h.decision_eq_none hparked
      cases answer with
      | handler => exact .inl rfl
      | refused => exact .inr rfl
      | completed | cancelled =>
        obtain ⟨t, ht⟩ := he
        simp [hdecision] at ht
      | expired => exact absurd hparked he.1
    · refine ih (h.record he) hacc ?_ answer r hmem
      cases e with
      | parked => exact absurd rfl hpark
      | posted n p result => cases result <;> exact hparked
      | handled route outcome r' => cases outcome <;> exact hparked
      | answered | released => rfl
      | _ => exact hparked

/-- The decision of a ledger as a list of calls. -/
def calls (l : Ledger) : List Post := (l.decision.map Prod.snd).toList

/-- The answer that the ledger allows goes with the decision. -/
theorem follows_of_lawful {l : Ledger} (hparked : l.parked ≠ none) {answer : Answer}
    {r : HttpResponse} (he : l.Lawful (.answered answer r)) (hstatus : answer.HasStatus r) :
    answer.Follows r l.calls := by
  cases answer with
  | completed =>
    obtain ⟨t, ht⟩ := he
    simp [calls, ht, Answer.Follows]
  | cancelled =>
    obtain ⟨t, ht⟩ := he
    simpa [calls, ht, Answer.Follows] using hstatus
  | expired => simpa [calls, he.2, Answer.Follows] using hstatus
  | handler | refused => exact absurd he hparked

/-- From a parked ledger on: the calls are at most one, and the parking ends as they say. -/
theorem parked_endsWell {l : Ledger} {es : List SlotEvent} (h : l.Sound)
    (hacc : protocol.AcceptsFrom l es) (hparked : l.parked ≠ none)
    (hstatus : ∀ answer r, .answered answer r ∈ es → answer.HasStatus r) :
    (l.calls ++ acceptedCalls es).length ≤ 1 ∧
      EndsWell (l.calls ++ acceptedCalls es) (parkingEnd es) := by
  induction es generalizing l with
  | nil =>
    cases hdecision : l.decision <;> simp [acceptedCalls, calls, hdecision, parkingEnd, EndsWell]
  | cons e es ih =>
    obtain ⟨he, hacc⟩ := hacc
    have hrest : ∀ answer r, .answered answer r ∈ es → answer.HasStatus r :=
      fun answer r hmem => hstatus answer r (List.mem_cons_of_mem _ hmem)
    have hone : l.calls.length ≤ 1 := by cases hd : l.decision <;> simp [calls, hd]
    have hsound := h.record he
    have hstep := fun hp => ih hsound hacc hp hrest
    cases e with
    | answered answer r =>
      have hlate := noLateAnswer_of_unparked hsound hacc rfl
      have hfollows := follows_of_lawful hparked he (hstatus _ _ List.mem_cons_self)
      simpa [acceptedCalls, parkingEnd, SlotEvent.endsParking, EndsWell] using
        ⟨hone, hfollows, hlate⟩
    | released =>
      have hlate := noLateAnswer_of_unparked hsound hacc rfl
      simpa [acceptedCalls, parkingEnd, SlotEvent.endsParking, EndsWell] using ⟨hone, hlate⟩
    | posted n p result =>
      cases result with
      | ok =>
        obtain ⟨t, ht, hopen⟩ := he
        have hnone := (hopen.mp rfl).2.1
        simpa [acceptedCalls, parkingEnd, SlotEvent.endsParking, SlotEvent.accepted?, calls,
          Ledger.record, ht, hnone] using hstep hparked
      | _ => exact hstep hparked
    | parked =>
      obtain ⟨q, hq⟩ := Option.ne_none_iff_exists'.mp hparked
      obtain ⟨rfl, hmem, -⟩ := h.parked q hq
      exact absurd hmem he.2
    | dispatched request => exact absurd he.1 hparked
    | handled route outcome r => cases outcome <;> exact hstep hparked
    | _ => exact hstep hparked

end Ledger

/-! ## Runs of the server -/

/-- Every parking of a slot accepts at most one call. If the slot answers it, it does so once
and with the response of the call, with 503 for a cancellation, with 504 if there was no call;
else the connection is closed without an answer. -/
theorem parking_answered_once {env : ServerEnv} {slotCount : Nat} {log : List ServerEvent}
    {s : System} (run : Run (serverMachine env slotCount) log s) (i : Nat)
    {before es : List SlotEvent} (h : slotLog i log = before ++ .parked :: es) :
    (acceptedCalls es).length ≤ 1 ∧ EndsWell (acceptedCalls es) (parkingEnd es) := by
  have hrun := slotRun_of_run env slotCount run i
  have hacc := (accepts_of_run hrun).1
  have hstatus : ∀ answer r, .answered answer r ∈ es → answer.HasStatus r := by
    intro answer r hmem
    exact hasStatus_of_run hrun (by rw [h]; simp [hmem])
  rw [h, Monitor.accepts_append] at hacc
  obtain ⟨hbefore, hlawful, hes⟩ := hacc
  have hsound : (before.foldl Ledger.record .start).Sound := Ledger.Sound.start.foldl hbefore
  have hsound := hsound.record (e := .parked) hlawful
  exact Ledger.parked_endsWell hsound hes (by simp [Ledger.record]) hstatus

/-- A parked request that is completed; a second completion comes too late. -/
theorem parking_answered_once_completed :
    let before := slotLog 0 ((serverMachine smallServer 1).log smallSystem
      (connecting ++ requesting ++ atSlot0 [.handler .defer .zero]))
    let es := [.posted 0 (.complete okResponse) .ok, .posted 0 .cancel .error,
      .answered .completed okResponse]
    ∃ (log : List ServerEvent) (s : System), Run (serverMachine smallServer 1) log s ∧
      slotLog 0 log = before ++ .parked :: es ∧
      (acceptedCalls es).length ≤ 1 ∧ EndsWell (acceptedCalls es) (parkingEnd es) := by
  intro before es
  obtain ⟨s, -, run⟩ := run_of_execute (M := serverMachine smallServer 1)
    (connecting ++ requesting ++ parking ++
      atSlot0 [.post 0 (.complete okResponse), .post 0 .cancel] ++ iterating 0)
    smallSystem_initial rfl
  have hlog : slotLog 0 ((serverMachine smallServer 1).log smallSystem
      (connecting ++ requesting ++ parking ++
        atSlot0 [.post 0 (.complete okResponse), .post 0 .cancel] ++ iterating 0)) =
      before ++ .parked :: es := by decide +kernel
  exact ⟨_, s, run, hlog, parking_answered_once run 0 hlog⟩

end HttpC
