import HttpC.Server.Ledger

/-!
# Deferral tickets

A ticket belongs to the request whose handler took it, and to the connection that request
came on. The generation of a slot tells connections apart but not the requests of one
connection, and a ticket is out before its request is parked.

## Main results

* `ticket_stays_on_connection` — no call is accepted, and no response serialised, on a
  connection other than the ticket's.
* `calls_keep_to_request_iff` — an accepted call may decide another request of the connection
  exactly when it comes while that request is parked and undecided.
* `completion_served_iff` — a completion is served exactly when it comes after the parking and
  its parking was not decided by another request's ticket.
-/

namespace HttpC

open Transition

variable {env : ServerEnv} {slotCount : Nat} {log : List ServerEvent} {s : System}

/-- In a run of the server, every event of a slot is lawful by the ledger before it. -/
theorem slot_lawful (run : Run (serverMachine env slotCount) log s) {i : Nat}
    {before rest : List SlotEvent} {e : SlotEvent} (h : slotLog i log = before ++ e :: rest) :
    (ledger before).Sound ∧ (ledger before).Lawful e :=
  lawful_of_run (slotRun_of_run env slotCount run i) h

/-! ## Connections -/

theorem releases_ledger (log : List SlotEvent) :
    (ledger log).releases = log.count .released := by
  induction log using List.reverseRecOn with
  | nil => rfl
  | append_singleton log e ih =>
    rw [ledger_append, List.count_append, ← ih]
    cases e with
    | posted n p result => cases result <;> rfl
    | handled route outcome r => cases outcome <;> rfl
    | _ => rfl

namespace Ledger

/-- The slot is still serving the connection this request came on. -/
def Serves (l : Ledger) (t : RequestId) : Prop := l.serving = true ∧ t.connection = l.releases

/-- Generations tell connections apart until they wrap around. -/
theorem Sound.serves {l : Ledger} (h : l.Sound) (hfew : l.releases < 2 ^ 32) {t : RequestId}
    (ht : t ∈ l.tickets) (hparked : l.parked ≠ none)
    (hmod : t.connection % 2 ^ 32 = l.releases % 2 ^ 32) : l.Serves t := by
  obtain ⟨q, hq⟩ := Option.ne_none_iff_exists'.mp hparked
  have hle := (h.tickets t ht).2
  rw [Nat.mod_eq_of_lt hfew, Nat.mod_eq_of_lt (hle.trans_lt hfew)] at hmod
  exact ⟨(h.parked q hq).2.2, hmod⟩

end Ledger

/-- **Tickets never cross connections.** While a slot has been released fewer than 2³² times,
a call is accepted only while the slot serves the connection of its ticket, and a completed
response is serialised only onto that connection. -/
theorem ticket_stays_on_connection (run : Run (serverMachine env slotCount) log s) (i : Nat)
    (hfew : (slotLog i log).count .released < 2 ^ 32) :
    (∀ before n p rest, slotLog i log = before ++ .posted n p .ok :: rest →
      ∃ t, (ledger before).tickets[n]? = some t ∧ (ledger before).Serves t) ∧
    ∀ before r rest, slotLog i log = before ++ .answered .completed r :: rest →
      ∃ t, (ledger before).decision = some (t, .complete r) ∧ (ledger before).Serves t := by
  have hbefore : ∀ before rest, slotLog i log = before ++ rest →
      (ledger before).releases < 2 ^ 32 := by
    intro before rest h
    rw [h, List.count_append] at hfew
    rw [releases_ledger]
    omega
  constructor
  · intro before n p rest h
    obtain ⟨hsound, t, ht, hopen⟩ := slot_lawful run h
    obtain ⟨hparked, -, hmod⟩ := hopen.mp rfl
    exact ⟨t, ht, hsound.serves (hbefore _ _ h) (List.mem_of_getElem? ht) hparked hmod⟩
  · intro before r rest h
    obtain ⟨hsound, t, hdecision⟩ := slot_lawful run h
    obtain ⟨hparked, hspent, hmod⟩ := hsound.decided t _ hdecision
    exact ⟨t, hdecision, hsound.serves (hbefore _ _ h) (hsound.spent t hspent) hparked hmod⟩

/-- A connection whose request is deferred and completed. -/
theorem ticket_stays_on_connection_completed :
    let log := (serverMachine smallServer 1).log smallSystem
      (connecting ++ requesting ++ parking ++ atSlot0 [.post 0 (.complete okResponse)] ++
        iterating 0)
    (slotLog 0 log).count .released < 2 ^ 32 ∧
      .posted 0 (.complete okResponse) .ok ∈ slotLog 0 log ∧
      (∀ before n p rest, slotLog 0 log = before ++ .posted n p .ok :: rest →
        ∃ t, (ledger before).tickets[n]? = some t ∧ (ledger before).Serves t) ∧
      ∀ before r rest, slotLog 0 log = before ++ .answered .completed r :: rest →
        ∃ t, (ledger before).decision = some (t, .complete r) ∧ (ledger before).Serves t := by
  intro log
  obtain ⟨s, -, run⟩ := run_of_execute (M := serverMachine smallServer 1)
    (connecting ++ requesting ++ parking ++
      atSlot0 [.post 0 (.complete okResponse)] ++ iterating 0) smallSystem_initial rfl
  have hfew : (slotLog 0 log).count .released < 2 ^ 32 := by decide +kernel
  exact ⟨hfew, by decide +kernel, ticket_stays_on_connection run 0 hfew⟩

/-! ## Requests of one connection -/

/-- Every call of a log is good by the ledger before it. -/
def ForEveryCall (Good : Ledger → Nat → Result → Prop) (log : List SlotEvent) : Prop :=
  ∀ before n p result rest, log = before ++ .posted n p result :: rest →
    Good (ledger before) n result

namespace Ledger

/-- On the ticket's connection, a call with this result was accepted only for the ticket's own
request, and only once. -/
def KeepsToRequest (l : Ledger) (n : Nat) (result : Result) : Prop :=
  ∀ t, l.tickets[n]? = some t → t.connection = l.releases → result = .ok →
    l.parked = some t ∧ t ∉ l.spent

/-- The ticket's connection is still served, and another request of it is parked and
undecided. -/
def OtherParked (l : Ledger) (n : Nat) : Prop :=
  ∃ t q, l.tickets[n]? = some t ∧ t.connection = l.releases ∧ l.parked = some q ∧ q ≠ t ∧
    l.decision = none

/-- The parked request is not spent before it is decided. -/
theorem Sound.not_spent_of_undecided {l : Ledger} (h : l.Sound) {t : RequestId}
    (hparked : l.parked = some t) (hdecision : l.decision = none) : t ∉ l.spent := by
  obtain ⟨rfl, -, -⟩ := h.parked t hparked
  intro hmem
  exact (h.once hmem).2 (by simp [hparked]) hdecision

theorem keepsToRequest_iff {l : Ledger} (h : l.Sound) {n : Nat} {p : Post} {result : Result}
    (hlawful : l.Lawful (.posted n p result)) : l.KeepsToRequest n result ↔ ¬l.OtherParked n := by
  obtain ⟨t, ht, hopen⟩ := hlawful
  constructor
  · rintro hkeeps ⟨t', q, ht', hconn, hq, hne, hdec⟩
    obtain rfl := Option.some.inj (ht.symm.trans ht')
    have hok : result = .ok := hopen.mpr ⟨by simp [hq], hdec, by rw [hconn]⟩
    exact hne (Option.some.inj (hq.symm.trans (hkeeps t ht hconn hok).1))
  · intro hother t' ht' hconn hok
    obtain rfl := Option.some.inj (ht.symm.trans ht')
    obtain ⟨hparked, hdec, -⟩ := hopen.mp hok
    obtain ⟨q, hq⟩ := Option.ne_none_iff_exists'.mp hparked
    have hqt : q = t := by
      by_contra hne
      exact hother ⟨t, q, ht, hconn, hq, hne, hdec⟩
    subst hqt
    exact ⟨hq, h.not_spent_of_undecided hq hdec⟩

end Ledger

/-- In every run, calls keep to the requests of their tickets exactly when none comes while
another request of the connection is parked and undecided. -/
theorem calls_keep_to_request_iff (run : Run (serverMachine env slotCount) log s) (i : Nat) :
    ForEveryCall Ledger.KeepsToRequest (slotLog i log) ↔
      ForEveryCall (fun l n _ => ¬l.OtherParked n) (slotLog i log) := by
  constructor
  · intro h before n p result rest hlog
    obtain ⟨hsound, hlawful⟩ := slot_lawful run hlog
    exact (Ledger.keepsToRequest_iff hsound hlawful).mp (h _ _ _ _ _ hlog)
  · intro h before n p result rest hlog
    obtain ⟨hsound, hlawful⟩ := slot_lawful run hlog
    exact (Ledger.keepsToRequest_iff hsound hlawful).mpr (h _ _ _ _ _ hlog)

/-- One request, deferred and completed with its own ticket. -/
theorem calls_keep_to_request_completed :
    let log := (serverMachine smallServer 1).log smallSystem
      (connecting ++ requesting ++ parking ++ atSlot0 [.post 0 (.complete okResponse)])
    .posted 0 (.complete okResponse) .ok ∈ slotLog 0 log ∧
      (ForEveryCall Ledger.KeepsToRequest (slotLog 0 log) ↔
        ForEveryCall (fun l n _ => ¬l.OtherParked n) (slotLog 0 log)) := by
  intro log
  obtain ⟨s, -, run⟩ := run_of_execute (M := serverMachine smallServer 1)
    (connecting ++ requesting ++ parking ++
      atSlot0 [.post 0 (.complete okResponse)]) smallSystem_initial rfl
  exact ⟨by decide +kernel, calls_keep_to_request_iff run 0⟩

/-- A completed request, then a second one on the same connection that is deferred too: the
first ticket completes the second request. -/
def crossing : List ServerAction :=
  connecting ++ requesting ++ parking ++ atSlot0 [.post 0 (.complete okResponse)] ++ iterating 0 ++
    sending 19 ++ requesting ++ parking ++ atSlot0 [.post 0 (.complete okResponse)]

theorem calls_cross_requests :
    ¬ ∀ (env : ServerEnv) (slotCount : Nat) (log : List ServerEvent) (s : System),
      Run (serverMachine env slotCount) log s →
        ∀ i, ForEveryCall Ledger.KeepsToRequest (slotLog i log) := by
  intro h
  obtain ⟨s, -, run⟩ := run_of_execute (M := serverMachine smallServer 1) crossing
    smallSystem_initial rfl
  set log := slotLog 0 ((serverMachine smallServer 1).log smallSystem crossing) with hlog
  have hlast : log = log.dropLast ++ [.posted 0 (.complete okResponse) .ok] := by decide +kernel
  have hkeeps := h _ _ _ _ run 0 _ _ _ _ _ hlast ⟨1, 0⟩ (by decide +kernel) (by decide +kernel) rfl
  exact absurd hkeeps.1 (by decide +kernel)

/-! ## Completions -/

/-- The next answer, if one comes before the slot is released, is this response. -/
def NextAnswer (r : HttpResponse) : List SlotEvent → Prop
  | [] => True
  | .answered a r' :: _ => a = .completed ∧ r' = r
  | .released :: _ => True
  | _ :: es => NextAnswer r es

/-- No answer and no release. -/
def Unanswered (es : List SlotEvent) : Prop := ∀ e ∈ es, e ≠ .released ∧ ∀ a r, e ≠ .answered a r

/-- The events behind a completion serve it: the next answer is its response, and until then
the next flush of the slot would send it. -/
def Served (env : ServerEnv) (r : HttpResponse) (rest : List SlotEvent) (v : SlotView) : Prop :=
  NextAnswer r rest ∧ (Unanswered rest →
    ∀ w, ∃ es, (slotFlush env w v.slot).2 = .answered .completed r :: es)

namespace Ledger

/-- A decision stands until the answer, and the answer follows it. -/
theorem nextAnswer_of_decision {l : Ledger} {es : List SlotEvent} {t : RequestId}
    {r : HttpResponse} (h : l.Sound) (hacc : protocol.AcceptsFrom l es)
    (hdec : l.decision = some (t, .complete r)) :
    NextAnswer r es ∧ (Unanswered es → (es.foldl record l).decision = some (t, .complete r)) := by
  induction es generalizing l with
  | nil => exact ⟨trivial, fun _ => hdec⟩
  | cons e es ih =>
    obtain ⟨he, hacc⟩ := hacc
    obtain ⟨hparked, -, -⟩ := h.decided t _ hdec
    have hstep : (l.record e).decision = some (t, .complete r) →
        NextAnswer r es ∧ (Unanswered (e :: es) →
          ((e :: es).foldl record l).decision = some (t, .complete r)) := fun hkeep =>
      have hrest := ih (h.record he) hacc hkeep
      ⟨hrest.1, fun hun => hrest.2 fun e' he' => hun e' (List.mem_cons_of_mem _ he')⟩
    cases e with
    | answered a r' =>
      refine ⟨?_, fun hun => absurd rfl ((hun _ List.mem_cons_self).2 a r')⟩
      cases a with
      | completed =>
        obtain ⟨t', ht'⟩ := he
        simp only [hdec, Option.some.injEq, Prod.mk.injEq, Post.complete.injEq] at ht'
        exact ⟨rfl, ht'.2.symm⟩
      | cancelled =>
        obtain ⟨t', ht'⟩ := he
        simp [hdec] at ht'
      | expired => exact absurd he.2 (by simp [hdec])
      | handler | refused => exact absurd he hparked
    | released => exact ⟨trivial, fun hun => absurd rfl (hun _ List.mem_cons_self).1⟩
    | parked =>
      obtain ⟨q, hq⟩ := Option.ne_none_iff_exists'.mp hparked
      obtain ⟨rfl, hmem, -⟩ := h.parked q hq
      exact absurd hmem he.2
    | posted n p result =>
      obtain ⟨t', -, hopen⟩ := he
      cases result with
      | ok => exact absurd (hopen.mp rfl).2.1 (by simp [hdec])
      | _ => exact hstep hdec
    | handled route outcome r' => cases outcome <;> exact hstep hdec
    | _ => exact hstep hdec

end Ledger

/-- A decided slot flushes the response. -/
theorem slotFlush_of_decision {v : SlotView} {l : Ledger} {t : RequestId} {r : HttpResponse}
    (hi : v.kernel.Inv) (h : l.Follows v.kernel) (hl : l.Sound)
    (hdec : l.decision = some (t, .complete r)) (w : Platform) :
    ∃ es, (slotFlush env w v.slot).2 = .answered .completed r :: es := by
  have hready : v.slot.pendingReady = true ∧ v.slot.pendingResponse = r := by
    have hmail : v.kernel.mailbox = some (.complete r) := by rw [h.mailbox, hdec]; rfl
    unfold Kernel.mailbox at hmail
    split_ifs at hmail with h1 <;> simp_all [SlotView.kernel]
  obtain ⟨hu, hs⟩ := h.parked.mp (hl.decided t _ hdec).1
  have hcancelled : v.slot.pendingCancelled = false :=
    Bool.eq_false_iff.mpr fun hne => hi.exclusive ⟨hready.1, hne⟩
  have hcond : v.slot.inUse = true ∧ v.slot.state = .pending ∧
      (v.slot.pendingReady = true ∨ v.slot.pendingCancelled = true) := ⟨hu, hs, .inl hready.1⟩
  unfold slotFlush
  rw [if_pos hcond]
  simp only [hcancelled, Bool.false_eq_true, if_false, hready.2]
  exact ⟨_, rfl⟩

/-- A completion with an unused ticket, on a connection that is still served and before the
deadline, is accepted for the ticket's request and served, exactly when the request has been
parked and its parking was not decided with the ticket of another one. -/
theorem completion_served_iff (run : Run (serverMachine env slotCount) log s) (i : Nat)
    {before rest : List SlotEvent} {n : Nat} {r : HttpResponse} {result : Result} {t : RequestId}
    (h : slotLog i log = before ++ .posted n (.complete r) result :: rest)
    (ht : (ledger before).tickets[n]? = some t)
    (hconnection : t.connection = (ledger before).releases)
    (hunused : t ∉ (ledger before).spent) (hdeadline : t ∉ (ledger before).expired) :
    (result = .ok ∧ (ledger before).parked = some t ∧ Served env r rest (s.slots i)) ↔
      t ∈ (ledger before).parkings ∧ t ∉ (ledger before).robbed := by
  obtain ⟨hsound, hlawful⟩ := slot_lawful run h
  obtain ⟨t', ht', hopen⟩ := id hlawful
  obtain rfl := Option.some.inj (ht.symm.trans ht')
  constructor
  · rintro ⟨rfl, hparked, -⟩
    refine ⟨(hsound.parked t hparked).2.1, fun hrobbed => ?_⟩
    exact (hsound.robbed t hrobbed).2 hparked (hopen.mp rfl).2.1
  · rintro ⟨hparkings, hrobbed⟩
    rcases hsound.settled t hparkings with hs | hs | hs | hs | ⟨hparked, hnone⟩
    · omega
    · exact absurd hs hdeadline
    · exact absurd hs hunused
    · exact absurd hs hrobbed
    · obtain rfl : result = .ok := hopen.mpr ⟨by simp [hparked], hnone, by rw [hconnection]⟩
      have hslot := slotRun_of_run env slotCount run i
      obtain ⟨hacc, hfinal, hfollows⟩ := accepts_of_run hslot
      rw [h, Monitor.accepts_append] at hacc
      obtain ⟨hnext, hdec⟩ := Ledger.nextAnswer_of_decision (t := t) (r := r)
        (hsound.record hlawful) hacc.2.2 (by simp [Ledger.record, ht])
      refine ⟨rfl, hparked, hnext, fun hun w => ?_⟩
      refine slotFlush_of_decision (slotRun_inv hslot).kernel hfollows hfinal ?_ w (t := t)
      rw [h, ledger_append]
      exact hdec hun

/-- A request that is completed once it is parked is served. -/
theorem completion_served_parked :
    let acts := connecting ++ requesting ++ parking
    let posted := acts ++ atSlot0 [.post 0 (.complete okResponse)]
    let log := (serverMachine smallServer 1).log smallSystem posted
    let before := slotLog 0 ((serverMachine smallServer 1).log smallSystem acts)
    slotLog 0 log = before ++ [.posted 0 (.complete okResponse) .ok] ∧
      ∃ s, (serverMachine smallServer 1).execute smallSystem posted = some (s, log) ∧
        (ledger before).parked = some ⟨1, 0⟩ ∧
        Served smallServer okResponse [] (s.slots 0) := by
  intro acts posted log before
  obtain ⟨s, hexec, run⟩ :=
    run_of_execute (M := serverMachine smallServer 1) posted smallSystem_initial rfl
  have hlog : slotLog 0 log = before ++ [.posted 0 (.complete okResponse) .ok] := by
    decide +kernel
  have hserved := (completion_served_iff (t := ⟨1, 0⟩) run 0 hlog (by decide +kernel)
    (by decide +kernel) (by decide +kernel) (by decide +kernel)).mpr
      ⟨by decide +kernel, by decide +kernel⟩
  exact ⟨hlog, s, hexec, hserved.2⟩

/-- A worker that is faster than the parking, and the 504 at the deadline. -/
def earlyCompletion : List ServerAction :=
  connecting ++ requesting ++ atSlot0 [.handler .defer .zero, .post 0 (.complete okResponse),
    .conclude calm] ++ iterating 1000

theorem early_completion_lost :
    ¬ ∀ (env : ServerEnv) (slotCount : Nat) (log : List ServerEvent) (s : System),
      Run (serverMachine env slotCount) log s →
        ∀ i before rest n r result t,
          slotLog i log = before ++ .posted n (.complete r) result :: rest →
          (ledger before).tickets[n]? = some t → t ∈ (ledger (slotLog i log)).deferred →
          t.connection = (ledger before).releases → t ∉ (ledger before).spent →
          t ∉ (ledger before).expired →
          result = .ok ∧ (ledger before).parked = some t ∧ Served env r rest (s.slots i) := by
  intro h
  obtain ⟨s, -, run⟩ := run_of_execute (M := serverMachine smallServer 1) earlyCompletion
    smallSystem_initial rfl
  set log := slotLog 0 ((serverMachine smallServer 1).log smallSystem earlyCompletion) with hlog
  have hsplit : log = log.take 5 ++ .posted 0 (.complete okResponse) .notFound :: log.drop 6 := by
    decide +kernel
  have hserved := h _ _ _ _ run 0 _ _ _ _ _ ⟨1, 0⟩ hsplit (by decide +kernel) (by decide +kernel)
    (by decide +kernel) (by decide +kernel) (by decide +kernel)
  exact absurd hserved.1 (by decide)

end HttpC
