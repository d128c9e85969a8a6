import HttpC.Server.Answers

/-!
# How long the server waits

The server waits for a peer until it has made no progress for the idle timeout, and for a worker
until its request has been parked for the deferral timeout. The trace of a slot tells what it waits
for and since when; the sweeps act on exactly that.

## Main results

* `slotStep_patience` — a step of the slot keeps to what its trace tells.
* `patience_of_run` — in every run each sweep ends the waits that are over, and no other.
-/

namespace HttpC

open Transition

/-! ## The wait of a slot -/

/-- What the loop thread waits for at a slot. -/
inductive Patience where
  /-- For a connection. -/
  | free
  /-- For the peer, which made progress last at this time. -/
  | peer (progress : Nat)
  /-- For a worker, since this time; `posted` is whether a post has been accepted. -/
  | worker (since : Nat) (posted : Bool)
  deriving DecidableEq, Repr

/-- A post has been accepted. -/
def SlotEvent.accepts : SlotEvent → Bool
  | .posted _ _ .ok => true
  | _ => false

namespace Patience

def post (accepted : Bool) : Patience → Patience
  | .worker since posted => .worker since (posted || accepted)
  | p => p

/-- The wait behind a step: progress is a connection, a handshake, bytes in either direction while
the peer is waited for, an answer, and the end of one. -/
def record (p : Patience) (x : SlotAction × List SlotEvent) : Patience :=
  if .released ∈ x.2 then .free
  else
    match x.1 with
    | .accept w _ | .handshake w .ok | .tooLarge w | .finish w => .peer w.now
    | .read w (.ok bytes) => if bytes.length > 0 then .peer w.now else p
    | .write w written _ => if written > 0 then .peer w.now else p
    | .conclude w => if .parked ∈ x.2 then .worker w.now false else .peer w.now
    | .flush w | .sweepPending _ w => if x.2 = [] then p else .peer w.now
    | .post _ _ => p.post (x.2.any SlotEvent.accepts)
    | _ => p

variable (env : ServerEnv)

/-- The worker is late at this time. -/
def Late (now : Nat) : Patience → Prop
  | .worker since posted => posted = false ∧ since + env.pendingTimeoutMs ≤ now
  | _ => False

/-- The peer has been still for too long at this time. -/
def Still (now : Nat) : Patience → Prop
  | .peer progress => progress + env.idleTimeoutMs ≤ now
  | _ => False

/-- The worker has posted. -/
def Served : Patience → Prop
  | .worker _ posted => posted = true
  | _ => False

/-- The deadline sweep answers 504 exactly where a worker is late, the idle sweep hangs up exactly
on peers that are still for too long, and a post that has been accepted is answered. -/
def Good (p : Patience) (x : SlotAction × List SlotEvent) : Prop :=
  match x.1 with
  | .sweepPending now _ =>
    (p.Late env now → ∃ r, .answered .expired r ∈ x.2) ∧ (¬ p.Late env now → x.2 = [])
  | .sweepIdle now => (p.Still env now → .released ∈ x.2) ∧ (¬ p.Still env now → x.2 = [])
  | .flush _ =>
    (p.Served → ∃ a r, .answered a r ∈ x.2 ∧ a ≠ .expired) ∧ (¬ p.Served → x.2 = [])
  | _ => ∀ r, .answered .expired r ∉ x.2

end Patience

def patience (env : ServerEnv) : Monitor Patience (SlotAction × List SlotEvent) where
  start := .free
  record := Patience.record
  Good := Patience.Good env

/-- The fields of a slot that its waits depend on. -/
def Slot.wait (slot : Slot) : Bool × SlotState × Nat × Nat × Bool × Bool :=
  (slot.inUse, slot.state, slot.lastActivityMs, slot.pendingDeadlineMs, slot.pendingReady,
    slot.pendingCancelled)

/-- The slot waits as its trace tells. -/
def Waits (env : ServerEnv) (slot : Slot) : Patience → Prop
  | .free => slot.inUse = false
  | .peer progress => slotWaitsOnPeer slot = true ∧ slot.lastActivityMs = progress
  | .worker since posted =>
    slot.inUse = true ∧ slot.state = .pending ∧
      slot.pendingDeadlineMs = since + env.pendingTimeoutMs ∧
      posted = (slot.pendingReady || slot.pendingCancelled)

variable {env : ServerEnv} {v v' : SlotView} {es : List SlotEvent} {p : Patience}
  {slot slot' : Slot}

theorem Waits.of_wait_eq (h : Waits env slot p) (hsame : slot'.wait = slot.wait) :
    Waits env slot' p := by
  simp only [Slot.wait, Prod.mk.injEq] at hsame
  obtain ⟨hu, hs, hactivity, hdeadline, hready, hcancelled⟩ := hsame
  cases p with
  | free => exact hu.trans h
  | peer progress =>
    obtain ⟨hwaits, hprogress⟩ := h
    exact ⟨by simpa only [slotWaitsOnPeer, hu, hs] using hwaits, hactivity.trans hprogress⟩
  | worker since posted =>
    obtain ⟨hu', hs', hdeadline', hposted⟩ := h
    exact ⟨hu.trans hu', hs.trans hs', hdeadline.trans hdeadline',
      by rw [hready, hcancelled, hposted]⟩

theorem Waits.same (h : Waits env slot p) {x : SlotAction × List SlotEvent}
    (hwait : slot'.wait = slot.wait) (hrecord : p.record x = p) :
    Waits env slot' (p.record x) := by
  rw [hrecord]
  exact h.of_wait_eq hwait

/-! ## Steps that change the wait -/

theorem record_released {x : SlotAction × List SlotEvent} (h : .released ∈ x.2) :
    p.record x = .free := if_pos h

theorem released_mem_slotClose (slot : Slot) : SlotEvent.released ∈ (slotClose slot).2 := by
  rw [slotClose_events]
  exact List.mem_append_right _ (List.mem_singleton_self _)

/-- A close ends every wait. -/
theorem waits_slotClose (a : SlotAction) (es : List SlotEvent) (slot : Slot) :
    Waits env (slotClose slot).1 (p.record (a, es ++ (slotClose slot).2)) := by
  rw [record_released (List.mem_append_right _ (released_mem_slotClose slot)), slotClose_slot]
  exact rfl

/-- After an answer the peer is waited for, or the connection is closed. -/
theorem serializeAndSend_waits (lib : CommonLib) (w : Platform) {slot : Slot} (r : HttpResponse)
    (hu : slot.inUse = true) :
    let sent := serializeAndSend lib w slot r
    .released ∈ sent.2 ∧ sent.1.inUse = false ∨
      sent.2 = [] ∧ slotWaitsOnPeer sent.1 = true ∧ sent.1.lastActivityMs = w.now := by
  have hinstall : (installStream slot r).inUse = true := by
    unfold installStream
    split_ifs <;> exact hu
  obtain ⟨memory, hcase | ⟨used, hcase⟩⟩ := serializeAndSend_cases lib w slot r
  · rw [hcase]
    refine .inl ⟨released_mem_slotClose _, ?_⟩
    rw [slotClose_slot]
  · rw [hcase]
    refine .inr ⟨rfl, ?_, rfl⟩
    simp [slotWaitsOnPeer, slotArm, hinstall]

theorem slotWaitsOnPeer_of {slot : Slot} (hu : slot.inUse = true)
    (hs : slot.state = .handshaking ∨ slot.state = .receiving ∨ slot.state = .sending) :
    slotWaitsOnPeer slot = true := by
  rcases hs with hs | hs | hs <;> simp [slotWaitsOnPeer, hu, hs]

/-- An answer by this platform, whoever makes it. -/
theorem waits_answered {a : SlotAction} (lib : CommonLib) {w : Platform} (slot : Slot)
    {answer : Answer} (r : HttpResponse) (hu : slot.inUse = true)
    (hrecord : ∀ r, p.record (a, [.answered answer r]) = .peer w.now) :
    Waits env (serializeAndSend lib w slot r).1
      (p.record (a, .answered answer r :: (serializeAndSend lib w slot r).2)) := by
  rcases serializeAndSend_waits lib w r hu with ⟨hreleased, hu'⟩ | ⟨hnone, hwaits, hactivity⟩
  · rw [record_released (List.mem_cons_of_mem _ hreleased)]
    exact hu'
  · rw [hnone, hrecord]
    exact ⟨hwaits, hactivity⟩

/-- A response the server makes itself. -/
theorem waits_respondWithStatus {a : SlotAction} (lib : CommonLib) {w : Platform} (slot : Slot)
    {answer : Answer} (code reason : Span) (hu : slot.inUse = true)
    (hrecord : ∀ r, p.record (a, [.answered answer r]) = .peer w.now) :
    Waits env (respondWithStatus lib w slot answer code reason).1
      (p.record (a, (respondWithStatus lib w slot answer code reason).2)) := by
  exact waits_answered lib (withDefaultHeaders lib slot (prepareDefaultResponse code reason)).1
    (withDefaultHeaders lib slot (prepareDefaultResponse code reason)).2 hu hrecord

/-- A parked slot waits for its worker. -/
theorem Waits.of_pending (h : Waits env slot p) (hu : slot.inUse = true)
    (hs : slot.state = .pending) : ∃ since,
      p = .worker since (slot.pendingReady || slot.pendingCancelled) ∧
        slot.pendingDeadlineMs = since + env.pendingTimeoutMs := by
  cases p with
  | free => rw [h] at hu; cases hu
  | peer progress => simp [slotWaitsOnPeer, hs, Waits] at h
  | worker since posted =>
    obtain ⟨-, -, hdeadline, rfl⟩ := h
    exact ⟨since, rfl, hdeadline⟩

theorem post_false (p : Patience) : p.post false = p := by
  cases p with
  | worker since posted => rw [Patience.post, Bool.or_false]
  | _ => rfl

/-- A post that is accepted is noted. -/
theorem waits_deferralPost (h : Waits env slot p) (k : Nat) (deferral : Deferral) (post : Post) :
    let posted := deferralPost slot deferral post
    Waits env posted.2 (p.record (.post k post, [.posted k post posted.1])) := by
  have hrecord : ∀ result, p.record (.post k post, [.posted k post result]) =
      p.post (SlotEvent.accepts (.posted k post result)) := by
    intro result
    simp [Patience.record]
  have hrefused : ∀ result, result ≠ .ok →
      p.post (SlotEvent.accepts (.posted k post result)) = p := by
    intro result hresult
    cases result <;> first | exact absurd rfl hresult | exact post_false p
  dsimp only
  rw [hrecord]
  unfold deferralPost
  split_ifs with hclosed hposted
  · rwa [hrefused .notFound (by decide)]
  · rwa [hrefused .error (by decide)]
  · simp only [not_or, Bool.not_eq_false, Decidable.not_not] at hclosed
    obtain ⟨hu, hs, -⟩ := hclosed
    obtain ⟨since, rfl, hdeadline⟩ := h.of_pending hu hs
    cases post with
    | complete response => exact ⟨hu, hs, hdeadline, by simp [SlotEvent.accepts]⟩
    | cancel => exact ⟨hu, hs, hdeadline, by simp [SlotEvent.accepts]⟩

/-- Bytes that arrive are progress. -/
theorem waits_read (hi : v.Inv) (h : Waits env v.slot p) {w : Platform} {r : ReadResult}
    (hen : v.enabled (.read w r) = true) :
    Waits env (slotEffect env v (.read w r)).1.slot
      (p.record (.read w r, (slotEffect env v (.read w r)).2)) := by
  obtain ⟨hf, hs, -⟩ := of_decide_eq_true hen
  have hu := hi.kernel.advance hf
  cases r with
  | tryAgain want => exact h.same rfl rfl
  | failed => exact waits_slotClose _ [] _
  | ok bytes =>
    have hstored : Waits env (slotGot w v.slot bytes) (p.record
        (.read w (.ok bytes), [.received bytes])) := by
      by_cases hbytes : bytes.length > 0
      · have hrecord : p.record (.read w (.ok bytes), [.received bytes]) = .peer w.now := by
          simp [Patience.record, hbytes]
        rw [hrecord]
        exact ⟨slotWaitsOnPeer_of hu (.inr (.inl hs)), if_pos hbytes⟩
      · refine h.same ?_ (by simp [Patience.record, hbytes])
        simp only [Slot.wait, slotGot, slotStore, if_neg hbytes]
    simp only [slotEffect, SlotView.goto, slotDriveReceive]
    split_ifs
    · exact hstored.of_wait_eq rfl
    · exact hstored.of_wait_eq rfl
    · exact waits_slotClose _ [_] _

/-- A handler's request is answered, parked or hung up on. -/
theorem waits_conclude (hi : v.Inv) {w : Platform}
    (hen : v.enabled (.conclude w) = true) :
    Waits env (slotEffect env v (.conclude w)).1.slot
      (p.record (.conclude w, (slotEffect env v (.conclude w)).2)) := by
  cases hf : v.focus with
  | returned outcome m r =>
    obtain ⟨hu, -⟩ := hi.kernel.returned hf
    have hrecord : ∀ answer r,
        p.record (.conclude w, [.answered answer r]) = .peer w.now := by
      simp [Patience.record]
    simp only [slotEffect, hf]
    cases outcome with
    | none =>
      exact waits_answered env.lib (withDefaultHeaders env.lib v.slot (unroutedResponse env m)).1
        (withDefaultHeaders env.lib v.slot (unroutedResponse env m)).2 hu (hrecord .refused)
    | some outcome =>
      cases outcome with
      | respond => exact waits_answered env.lib v.slot r hu (hrecord .handler)
      | defer => exact ⟨hu, rfl, rfl, rfl⟩
      | close => exact waits_slotClose _ [] _
  | _ => simp [SlotView.enabled, hf] at hen

/-- Bytes that are taken are progress. -/
theorem waits_write (hi : v.Inv) (h : Waits env v.slot p) {w : Platform} {written : Nat}
    {r : IoResult} (hen : v.enabled (.write w written r) = true) :
    Waits env (slotEffect env v (.write w written r)).1.slot
      (p.record (.write w written r, (slotEffect env v (.write w written r)).2)) := by
  obtain ⟨hf, hs, -⟩ := of_decide_eq_true hen
  have hu := hi.kernel.advance hf
  have hwrote : ∀ slot', slot'.wait = (v.slot.inUse, v.slot.state,
      (if written > 0 then w.now else v.slot.lastActivityMs), v.slot.pendingDeadlineMs,
      v.slot.pendingReady, v.slot.pendingCancelled) → ∀ bytes,
      Waits env slot' (p.record (.write w written r, [.wrote bytes])) := by
    intro slot' hwait bytes
    by_cases hwritten : written > 0
    · have hrecord : p.record (.write w written r, [.wrote bytes]) = .peer w.now := by
        simp [Patience.record, hwritten]
      rw [if_pos hwritten] at hwait
      simp only [Slot.wait, Prod.mk.injEq] at hwait
      rw [hrecord]
      exact ⟨slotWaitsOnPeer_of (hwait.1.trans hu) (.inr (.inr (hwait.2.1.trans hs))),
        hwait.2.2.1⟩
    · rw [if_neg hwritten] at hwait
      exact h.same hwait (by simp [Patience.record, hwritten])
  cases r with
  | ok => exact hwrote _ rfl _
  | tryAgain want => exact hwrote _ rfl _
  | failed => exact waits_slotClose _ [_] _

/-- The provider is no peer. -/
theorem waits_provide (h : Waits env v.slot p) (bytes : Bytes) :
    Waits env (slotEffect env v (.provide bytes)).1.slot
      (p.record (.provide bytes, (slotEffect env v (.provide bytes)).2)) := by
  have hcleared : (streamCleared { v.slot with
      sendBuffer := Block.overwrite v.slot.sendBuffer 0 bytes, streamEof := true }).wait =
        v.slot.wait := by
    unfold streamCleared
    split_ifs <;> rfl
  simp only [slotEffect, SlotView.goto, slotProvide]
  split_ifs
  · exact h.same rfl (by simp [Patience.record])
  · refine h.same hcleared ?_
    have hfinalized : ∀ slot, SlotEvent.released ∉ finalizerCall slot := by
      intro slot hmem
      cases finalized_of_mem_finalizerCall hmem
    simp [Patience.record, streamFinalize, hfinalized]

/-- After an answer the next request is waited for. -/
theorem waits_finish (hi : v.Inv) {w : Platform}
    (hen : v.enabled (.finish w) = true) :
    Waits env (slotEffect env v (.finish w)).1.slot
      (p.record (.finish w, (slotEffect env v (.finish w)).2)) := by
  obtain ⟨hf, -⟩ := of_decide_eq_true hen
  obtain ⟨hu, -⟩ := hi.kernel.drained hf
  have hnext : ∀ slot', slot'.inUse = v.slot.inUse → slot'.state = .receiving →
      slot'.lastActivityMs = w.now → Waits env slot' (p.record (.finish w, [.finished])) := by
    intro slot' hu' hs' hactivity
    exact ⟨slotWaitsOnPeer_of (hu'.trans hu) (.inr (.inl hs')), hactivity⟩
  simp only [slotEffect, SlotView.goto, slotFinishSend]
  split_ifs
  · exact waits_slotClose _ [_] _
  · exact hnext _ rfl rfl rfl
  · exact waits_slotClose _ [_] _
  · exact hnext _ rfl rfl rfl
  · exact hnext _ rfl rfl rfl

/-- The wait behind a step is what the trace tells. -/
theorem waits_slotEffect {a : SlotAction} (hi : v.Inv) (h : Waits env v.slot p)
    (hen : v.enabled a = true) :
    Waits env (slotEffect env v a).1.slot (p.record (a, (slotEffect env v a).2)) := by
  have hclose : ∀ slot, Waits env (slotClose slot).1 (p.record (a, (slotClose slot).2)) :=
    waits_slotClose a []
  cases a with
  | accept w sd =>
    cases sd with
    | none => exact rfl
    | some sd => exact ⟨rfl, rfl⟩
  | event error =>
    cases error with
    | true => exact hclose _
    | false => exact h.same rfl rfl
  | handshake w r =>
    have hu := hi.kernel.advance (of_decide_eq_true hen).1
    cases r with
    | ok => exact ⟨slotWaitsOnPeer_of hu (.inr (.inl rfl)), rfl⟩
    | tryAgain want => exact h.same rfl rfl
    | failed => exact hclose _
  | tooLarge w =>
    have hu := hi.kernel.advance (of_decide_eq_true hen).1
    have hrecord : ∀ r, p.record (.tooLarge w, [.answered .refused r]) = .peer w.now := by
      simp [Patience.record]
    exact waits_respondWithStatus env.lib { v.slot with clientWantsClose := true } _ _ hu hrecord
  | read w r => exact waits_read hi h hen
  | route =>
    simp only [slotEffect, routeRequest]
    split <;> exact h.same rfl rfl
  | defer => exact h.same rfl rfl
  | handler outcome response =>
    simp only [slotEffect, handlerReturned]
    split <;> exact h.same rfl rfl
  | conclude w => exact waits_conclude hi hen
  | probe r =>
    simp only [slotEffect, SlotView.leave, slotProbePending]
    split_ifs
    · exact h.same rfl rfl
    · cases r with
      | ok bytes => exact h.same rfl rfl
      | tryAgain want => exact h.same rfl rfl
      | failed => exact hclose _
  | write w written r => exact waits_write hi h hen
  | drain => exact h.same rfl rfl
  | provide bytes => exact waits_provide h bytes
  | finish w => exact waits_finish hi hen
  | stray | reclaim => exact hclose _
  | flush w =>
    have hrecord : ∀ answer r, p.record (.flush w, [.answered answer r]) = .peer w.now := by
      simp [Patience.record]
    simp only [slotEffect, SlotView.leave, slotFlush]
    split_ifs with hready hcancelled
    · refine waits_respondWithStatus env.lib _ _ _ ?_ (hrecord .cancelled)
      exact hready.1
    · refine waits_answered env.lib _ _ ?_ (hrecord .completed)
      exact hready.1
    · exact h.same rfl rfl
  | sweepPending now w =>
    have hrecord : ∀ r, p.record (.sweepPending now w, [.answered .expired r]) = .peer w.now := by
      simp [Patience.record]
    simp only [slotEffect, SlotView.leave, slotSweepPending]
    split_ifs with hlate
    · refine waits_respondWithStatus env.lib _ _ _ ?_ hrecord
      exact hlate.1
    · exact h.same rfl rfl
  | sweepIdle now =>
    simp only [slotEffect, SlotView.leave, slotSweepIdle]
    split_ifs
    · exact hclose _
    · exact h.same rfl rfl
  | teardown =>
    simp only [slotEffect]
    split_ifs
    · have hreleased : SlotEvent.released ∈ (slotTeardown v.slot).2 :=
        List.mem_append_right _ (List.mem_singleton_self _)
      simp only [SlotView.leave]
      rw [record_released hreleased]
      exact rfl
    · exact h.same rfl rfl
  | post k post =>
    simp only [slotEffect]
    split
    · exact h.same rfl (post_false p)
    · exact waits_deferralPost h k _ post

/-! ## What the sweeps may do -/

theorem Waits.late_iff (h : Waits env slot p) (now : Nat) :
    p.Late env now ↔ slot.inUse = true ∧ slot.state = .pending ∧ slot.pendingReady = false ∧
      slot.pendingCancelled = false ∧ slot.pendingDeadlineMs ≤ now := by
  cases p with
  | free => simp [Patience.Late, show slot.inUse = false from h]
  | peer progress =>
    have hs : slot.state ≠ .pending := fun hs => by simp [Waits, slotWaitsOnPeer, hs] at h
    simp [Patience.Late, hs]
  | worker since posted =>
    obtain ⟨hu, hs, hdeadline, rfl⟩ := h
    simp [Patience.Late, hu, hs, hdeadline, and_assoc]

theorem Waits.still_iff (h : Waits env slot p) (now : Nat) :
    p.Still env now ↔
      slotWaitsOnPeer slot = true ∧ slot.lastActivityMs + env.idleTimeoutMs ≤ now := by
  cases p with
  | free => simp [Patience.Still, slotWaitsOnPeer, show slot.inUse = false from h]
  | peer progress =>
    obtain ⟨hwaits, rfl⟩ := h
    simp [Patience.Still, hwaits]
  | worker since posted => simp [Patience.Still, slotWaitsOnPeer, h.2.1]

theorem Waits.served_iff (h : Waits env slot p) :
    p.Served ↔ slot.inUse = true ∧ slot.state = .pending ∧
      (slot.pendingReady = true ∨ slot.pendingCancelled = true) := by
  cases p with
  | free => simp [Patience.Served, show slot.inUse = false from h]
  | peer progress =>
    have hs : slot.state ≠ .pending := fun hs => by simp [Waits, slotWaitsOnPeer, hs] at h
    simp [Patience.Served, hs]
  | worker since posted =>
    obtain ⟨hu, hs, -, rfl⟩ := h
    simp [Patience.Served, hu, hs]

/-- Only the deadline sweep answers 504. -/
theorem not_expired {a : SlotAction} (ha : ∀ now w, a ≠ .sweepPending now w) (r : HttpResponse) :
    .answered .expired r ∉ (slotEffect env v a).2 := by
  intro hmem
  cases slotEffect_source env v a _ hmem with
  | plain he => exact he
  | expired => exact ha _ _ rfl

/-- A step does what the wait before it asks for. -/
theorem good_slotEffect (h : Waits env v.slot p) (a : SlotAction) :
    p.Good env (a, (slotEffect env v a).2) := by
  cases a with
  | flush w =>
    simp only [Patience.Good, h.served_iff, slotEffect, SlotView.leave, slotFlush]
    refine ⟨fun hserved => ?_, fun hserved => ?_⟩
    · rw [if_pos hserved]
      split_ifs
      · exact ⟨_, _, List.mem_cons_self, by simp⟩
      · exact ⟨_, _, List.mem_cons_self, by simp⟩
    · rw [if_neg hserved]
  | sweepPending now w =>
    simp only [Patience.Good, h.late_iff, slotEffect, SlotView.leave, slotSweepPending]
    refine ⟨fun hlate => ?_, fun hlate => ?_⟩
    · rw [if_pos hlate]
      exact ⟨_, List.mem_cons_self⟩
    · rw [if_neg hlate]
  | sweepIdle now =>
    simp only [Patience.Good, h.still_iff, slotEffect, SlotView.leave, slotSweepIdle]
    refine ⟨fun hstill => ?_, fun hstill => ?_⟩
    · rw [if_pos hstill]
      exact released_mem_slotClose _
    · rw [if_neg hstill]
  | _ => exact fun r => not_expired (fun now w h => by cases h) r

/-- A step keeps to what the trace tells. -/
theorem slotStep_patience {a : SlotAction} (hi : v.Inv) (h : Waits env v.slot p)
    (hstep : slotStep env v a = some (v', es)) :
    p.Good env (a, es) ∧ Waits env v'.slot (p.record (a, es)) := by
  unfold slotStep at hstep
  split_ifs at hstep with hen
  rw [Option.some.injEq] at hstep
  obtain rfl : (slotEffect env v a).1 = v' := congrArg Prod.fst hstep
  obtain rfl : (slotEffect env v a).2 = es := congrArg Prod.snd hstep
  exact ⟨good_slotEffect h a, waits_slotEffect hi h hen⟩

/-! ## Runs -/

/-- The steps of slot `i` in a trace of the server, with what they logged. -/
def slotTrace (i : Nat) (trace : List (ServerAction × List ServerEvent)) :
    List (SlotAction × List SlotEvent) :=
  trace.filterMap fun x => (x.1.atSlot i).map fun a => (a, slotLog i x.2)

theorem patience_of_slot {trace : List (SlotAction × List SlotEvent)}
    (run : Run (slotMachine env).traced trace v) :
    (patience env).Accepts trace ∧ Waits env v.slot ((patience env).after trace) := by
  refine run.accepts (patience env) (fun p v => Waits env v.slot p) ?_ ?_
  · rintro v ⟨-, -, storage, -, hs⟩
    rw [hs]
    exact rfl
  · rintro trace v a v' es run h hstep
    obtain ⟨fs, hmove, rfl⟩ := Machine.traced_step.mp hstep
    obtain ⟨hgood, hwaits⟩ := slotStep_patience (slotRun_inv run.of_traced) h hmove
    exact ⟨⟨hgood, trivial⟩, hwaits⟩

/-- **The server is exactly as patient as it is configured to be.** In every run, whatever the order
of events, workers and passes: when the deadline sweep comes to a slot it answers 504 if the request
there was parked at least the deferral timeout ago and no post has been accepted since, and does
nothing otherwise; when the idle sweep comes to a slot it hangs up if the peer is waited for and has
made no progress for the idle timeout, and does nothing otherwise; and a post that was accepted is
answered by the next pass that comes. Nothing else ever answers 504. -/
theorem patience_of_run {slotCount : Nat} {trace : List (ServerAction × List ServerEvent)}
    {s : System} (run : Run (serverMachine env slotCount).traced trace s) (i : Nat) :
    (patience env).Accepts (slotTrace i trace) :=
  (patience_of_slot (run.project (slotProjection env slotCount i).traced)).1

/-- Two iterations of the loop, the second one at the deadline of the parked request. -/
def lateWorker : List ServerAction :=
  connecting ++ requesting ++ parking ++ iterating 999 ++ iterating 1000

/-- When the deadline sweep came to the slot, and whether it answered. -/
def deadlineSweeps (trace : List (SlotAction × List SlotEvent)) : List (Nat × Bool) :=
  trace.filterMap fun x =>
    match x.1 with
    | .sweepPending now _ => some (now, !x.2.isEmpty)
    | _ => none

/-- The worker has its thousand milliseconds and no more. -/
theorem patience_of_run_late :
    let trace := (serverMachine smallServer 1).traced.log smallSystem lateWorker
    (patience smallServer).Accepts (slotTrace 0 trace) ∧
      deadlineSweeps (slotTrace 0 trace) = [(999, false), (1000, true)] := by
  obtain ⟨s, -, run⟩ := run_of_execute (M := (serverMachine smallServer 1).traced) lateWorker
    smallSystem_initial (by decide +kernel)
  exact ⟨patience_of_run run 0, by decide +kernel⟩

end HttpC
