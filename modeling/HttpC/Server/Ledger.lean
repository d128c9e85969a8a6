import HttpC.Server.System

/-!
# The ledger of a slot's deferrals

What the log of a slot says about its deferrals: which request each ticket was taken for,
which request is parked, and which call decided it. The ledger says of each event when it
may happen, and every run keeps to that.

## Main results

* `lawful_of_run` — in a run, every event is lawful by the ledger before it.
* `accepts_of_run` — in a run, the ledger of the log describes the slot.
-/

namespace HttpC

open Transition

/-- A request by its place among all requests of the slot, and the connection it came on by
the releases of the slot before it. -/
structure RequestId where
  request : Nat
  connection : Nat
  deriving DecidableEq, Repr

structure Ledger where
  releases : Nat
  /-- A connection has been accepted since the last release. -/
  serving : Bool
  requests : Nat
  /-- The request each ticket was taken for. -/
  tickets : List RequestId
  /-- The requests whose handlers returned `http_handler_defer`. -/
  deferred : List RequestId
  parked : Option RequestId
  parkings : List RequestId
  /-- The accepted call for the parked request, with the request of its ticket. -/
  decision : Option (RequestId × Post)
  /-- The requests with whose tickets a call was accepted. -/
  spent : List RequestId
  /-- The requests that were decided with the ticket of another one. -/
  robbed : List RequestId
  /-- The requests answered by the deadline sweep. -/
  expired : List RequestId
  deriving DecidableEq, Repr

namespace Ledger

def start : Ledger := ⟨0, false, 0, [], [], none, [], none, [], [], []⟩

/-- The last request that went to the routing step. -/
def current (l : Ledger) : RequestId := ⟨l.requests, l.releases⟩

def record (l : Ledger) : SlotEvent → Ledger
  | .accepted => { l with serving := true }
  | .dispatched _ => { l with requests := l.requests + 1 }
  | .ticketTaken _ => { l with tickets := l.tickets ++ [l.current] }
  | .handled _ .defer _ => { l with deferred := l.current :: l.deferred }
  | .parked =>
    { l with parked := some l.current, parkings := l.current :: l.parkings, decision := none }
  | .posted n p .ok =>
    { l with
      decision := l.tickets[n]?.map fun t => (t, p)
      spent := l.tickets[n]?.toList ++ l.spent
      robbed := if l.parked = l.tickets[n]? then l.robbed else l.parked.toList ++ l.robbed }
  | .answered a _ =>
    { l with
      parked := none, decision := none,
      expired := if a = .expired then l.parked.toList ++ l.expired else l.expired }
  | .released =>
    { l with releases := l.releases + 1, serving := false, parked := none, decision := none }
  | _ => l

/-- A call with a ticket of this request is accepted. -/
def Open (l : Ledger) (t : RequestId) : Prop :=
  l.parked ≠ none ∧ l.decision = none ∧ t.connection % 2 ^ 32 = l.releases % 2 ^ 32

/-- When an event may happen. -/
def Lawful (l : Ledger) : SlotEvent → Prop
  | .dispatched _ => l.parked = none ∧ ∀ t ∈ l.deferred, t ∈ l.parkings
  | .parked => l.serving = true ∧ l.current ∉ l.parkings
  | .posted n _ result => ∃ t, l.tickets[n]? = some t ∧ (result = .ok ↔ l.Open t)
  | .answered .completed r => ∃ t, l.decision = some (t, .complete r)
  | .answered .cancelled _ => ∃ t, l.decision = some (t, .cancel)
  | .answered .expired _ => l.parked ≠ none ∧ l.decision = none
  | .answered _ _ => l.parked = none
  | _ => True

/-- The ledger as a monitor of slot logs. -/
def protocol : Monitor Ledger SlotEvent := ⟨start, record, Lawful⟩

/-- What a ledger of lawful events satisfies. -/
structure Sound (l : Ledger) : Prop where
  tickets : ∀ t ∈ l.tickets, t.request ≤ l.requests ∧ t.connection ≤ l.releases
  spent : ∀ t ∈ l.spent, t ∈ l.tickets
  deferred : ∀ t ∈ l.deferred, t ∈ l.parkings ∨ t.request = l.requests
  parkings : ∀ t ∈ l.parkings, t.request ≤ l.requests
  parked : ∀ t, l.parked = some t → t = l.current ∧ t ∈ l.parkings ∧ l.serving = true
  decided : ∀ t p, l.decision = some (t, p) →
    l.parked ≠ none ∧ t ∈ l.spent ∧ t.connection % 2 ^ 32 = l.releases % 2 ^ 32
  /-- A request is spent once it has been parked, and no later than it is decided. -/
  once : l.current ∈ l.spent → l.current ∈ l.parkings ∧ (l.parked ≠ none → l.decision ≠ none)
  robbed : ∀ t ∈ l.robbed, t ∈ l.parkings ∧ (l.parked = some t → l.decision ≠ none)
  /-- What became of a parked request. -/
  settled : ∀ t ∈ l.parkings, t.connection < l.releases ∨ t ∈ l.expired ∨ t ∈ l.spent ∨
    t ∈ l.robbed ∨ l.parked = some t ∧ l.decision = none

end Ledger

/-- The ledger of a log. -/
def ledger (log : List SlotEvent) : Ledger := Ledger.protocol.after log

@[simp] theorem ledger_nil : ledger [] = Ledger.start := rfl

@[simp] theorem ledger_append (log es : List SlotEvent) :
    ledger (log ++ es) = es.foldl Ledger.record (ledger log) := Monitor.after_append ..

namespace Ledger

theorem Sound.start : start.Sound := by
  constructor <;> simp [Ledger.start]

theorem Sound.decision_eq_none {l : Ledger} (h : l.Sound) (hk : l.parked = none) :
    l.decision = none := by
  cases hd : l.decision with
  | none => rfl
  | some d => exact absurd hk (h.decided d.1 d.2 hd).1

theorem Sound.ticket {l : Ledger} (h : l.Sound) {n : Nat} {t : RequestId}
    (ht : l.tickets[n]? = some t) : t.request ≤ l.requests ∧ t.connection ≤ l.releases :=
  h.tickets t (List.mem_of_getElem? ht)

/-- A request that has not been dispatched yet has no ticket. -/
theorem Sound.not_spent {l : Ledger} (h : l.Sound) {t : RequestId}
    (ht : l.requests < t.request ∨ l.releases < t.connection) : t ∉ l.spent := by
  intro hmem
  have := h.tickets t (h.spent t hmem)
  omega

/-- A request is parked for the first time. -/
theorem Sound.park {l : Ledger} (h : l.Sound) (he : l.Lawful .parked) :
    (l.record .parked).Sound := by
  obtain ⟨hserving, hfresh⟩ := he
  exact { h with
    deferred := fun t ht => (h.deferred t ht).imp_left (List.mem_cons_of_mem _)
    parkings := by
      rintro t (_ | ⟨_, ht⟩)
      · exact le_rfl
      · exact h.parkings t ht
    parked := by
      rintro t ⟨⟩
      exact ⟨rfl, List.mem_cons_self, hserving⟩
    decided := by simp [Ledger.record]
    once := fun hmem => absurd (h.once hmem).1 hfresh
    robbed := by
      intro t ht
      refine ⟨List.mem_cons_of_mem _ (h.robbed t ht).1, ?_⟩
      rintro ⟨⟩
      exact absurd (h.robbed _ ht).1 hfresh
    settled := by
      rintro t (_ | ⟨_, ht⟩)
      · exact .inr (.inr (.inr (.inr ⟨rfl, rfl⟩)))
      · rcases h.settled t ht with hs | hs | hs | hs | ⟨hs, -⟩
        · exact .inl hs
        · exact .inr (.inl hs)
        · exact .inr (.inr (.inl hs))
        · exact .inr (.inr (.inr (.inl hs)))
        · obtain ⟨rfl, hmem, -⟩ := h.parked t hs
          exact absurd hmem hfresh }

/-- The first decision on a parked request, on its own ticket or on that of another request. -/
theorem Sound.post {l : Ledger} {n : Nat} {p : Post} (h : l.Sound)
    (he : l.Lawful (.posted n p .ok)) : (l.record (.posted n p .ok)).Sound := by
  obtain ⟨t, ht, hopen⟩ := he
  obtain ⟨hparked, -, hmod⟩ := hopen.mp rfl
  obtain ⟨q, hq⟩ := Option.ne_none_iff_exists'.mp hparked
  obtain ⟨rfl, hcurrent, -⟩ := h.parked q hq
  exact { h with
    spent := by
      simp only [Ledger.record, ht, Option.toList_some, List.singleton_append, List.mem_cons]
      rintro t' (rfl | ht')
      · exact List.mem_of_getElem? ht
      · exact h.spent t' ht'
    decided := by
      simp only [Ledger.record, ht, Option.map_some, Option.some.injEq, Prod.mk.injEq]
      rintro t' p' ⟨rfl, rfl⟩
      exact ⟨hparked, by simp, hmod⟩
    once := fun _ => ⟨hcurrent, fun _ => by simp [Ledger.record, ht]⟩
    robbed := by
      intro t' ht'
      refine ⟨?_, fun _ => by simp [Ledger.record, ht]⟩
      simp only [Ledger.record] at ht'
      split_ifs at ht' with hsame
      · exact (h.robbed t' ht').1
      · rw [hq] at ht'
        rcases List.mem_cons.mp ht' with rfl | ht'
        · exact hcurrent
        · exact (h.robbed t' ht').1
    settled := by
      intro t' ht'
      simp only [Ledger.record, ht, hq, Option.toList_some, List.singleton_append]
      rcases h.settled t' ht' with hs | hs | hs | hs | ⟨hs, -⟩
      · exact .inl hs
      · exact .inr (.inl hs)
      · exact .inr (.inr (.inl (List.mem_cons_of_mem _ hs)))
      · refine .inr (.inr (.inr (.inl ?_)))
        split_ifs
        · exact hs
        · exact List.mem_cons_of_mem _ hs
      · obtain rfl := Option.some.inj (hq.symm.trans hs)
        split_ifs with hsame
        · obtain rfl := Option.some.inj hsame
          exact .inr (.inr (.inl List.mem_cons_self))
        · exact .inr (.inr (.inr (.inl List.mem_cons_self))) }

/-- An answer: a request that was still undecided has expired. -/
theorem Sound.answer {l : Ledger} {a : Answer} {r : HttpResponse} (h : l.Sound)
    (he : l.Lawful (.answered a r)) : (l.record (.answered a r)).Sound :=
  { h with
    parked := by simp [Ledger.record]
    decided := by simp [Ledger.record]
    once := fun hmem => ⟨(h.once hmem).1, fun hne => absurd rfl hne⟩
    robbed := fun t ht => ⟨(h.robbed t ht).1, nofun⟩
    settled := by
      intro t ht
      have hexpired : ∀ q ∈ l.expired, q ∈ (l.record (.answered a r)).expired := by
        intro q hq
        simp only [Ledger.record]
        split_ifs
        · exact List.mem_append_right _ hq
        · exact hq
      rcases h.settled t ht with hs | hs | hs | hs | ⟨hs, hd⟩
      · exact .inl hs
      · exact .inr (.inl (hexpired t hs))
      · exact .inr (.inr (.inl hs))
      · exact .inr (.inr (.inr (.inl hs)))
      · refine .inr (.inl ?_)
        cases a with
        | expired => simp [Ledger.record, hs]
        | completed | cancelled =>
          obtain ⟨q, hq⟩ := he
          simp [hd] at hq
        | handler | refused =>
          have hnone : l.parked = none := he
          simp [hs] at hnone }

theorem Sound.record {l : Ledger} {e : SlotEvent} (h : l.Sound) (he : l.Lawful e) :
    (l.record e).Sound := by
  cases e with
  | accepted => exact { h with parked := fun t ht => ⟨(h.parked t ht).1, (h.parked t ht).2.1, rfl⟩ }
  | dispatched request =>
    obtain ⟨hnone, hdeferred⟩ := he
    exact { h with
      tickets := fun t ht => ⟨Nat.le_succ_of_le (h.tickets t ht).1, (h.tickets t ht).2⟩
      deferred := fun t ht => .inl (hdeferred t ht)
      parkings := fun t ht => Nat.le_succ_of_le (h.parkings t ht)
      parked := by simp [Ledger.record, hnone]
      once := fun hmem => absurd hmem (h.not_spent (.inl (Nat.lt_succ_self _))) }
  | ticketTaken generation =>
    exact { h with
      tickets := by
        intro t ht
        rcases List.mem_append.mp ht with ht | ht
        · exact h.tickets t ht
        · obtain rfl := List.mem_singleton.mp ht
          exact ⟨le_rfl, le_rfl⟩
      spent := fun t ht => List.mem_append_left _ (h.spent t ht) }
  | handled route outcome r =>
    cases outcome with
    | defer =>
      exact { h with
        deferred := by
          rintro t (_ | ⟨_, ht⟩)
          · exact .inr rfl
          · exact h.deferred t ht }
    | _ => exact h
  | parked => exact h.park he
  | posted n p result =>
    cases result with
    | ok => exact h.post he
    | _ => exact h
  | answered a r => exact h.answer he
  | released =>
    exact { h with
      tickets := fun t ht => ⟨(h.tickets t ht).1, Nat.le_succ_of_le (h.tickets t ht).2⟩
      parked := by simp [Ledger.record]
      decided := by simp [Ledger.record]
      once := fun hmem => absurd hmem (h.not_spent (.inr (Nat.lt_succ_self _)))
      robbed := fun t ht => ⟨(h.robbed t ht).1, nofun⟩
      settled := by
        intro t ht
        rcases h.settled t ht with hs | hs | hs | hs | ⟨hs, hd⟩
        · exact .inl (Nat.lt_succ_of_lt hs)
        · exact .inr (.inl hs)
        · exact .inr (.inr (.inl hs))
        · exact .inr (.inr (.inr (.inl hs)))
        · obtain ⟨rfl, -, -⟩ := h.parked t hs
          exact .inl (Nat.lt_succ_self _) }
  | received bytes | wrote bytes | provided stream bytes | finalized stream | finished => exact h

theorem Sound.foldl {l : Ledger} {es : List SlotEvent} (h : l.Sound)
    (hacc : protocol.AcceptsFrom l es) : (es.foldl Ledger.record l).Sound := by
  induction es generalizing l with
  | nil => exact h
  | cons e es ih => exact ih (h.record hacc.1) hacc.2

/-! ## The slot follows the ledger -/

/-- Events the ledger does not depend on. -/
def Quiet : SlotEvent → Prop
  | .received _ | .wrote _ | .provided _ _ | .finalized _ | .finished => True
  | _ => False

theorem Quiet.of_transfer {e : SlotEvent} (h : e.Transfer) : Quiet e := by
  cases e <;> trivial

theorem quiet_finalizers (stream : Option Stream) : ∀ e ∈ Kernel.finalizers stream, Quiet e := by
  intro e he
  unfold Kernel.finalizers at he
  split at he
  · simp at he
  · split at he
    · obtain rfl := List.mem_singleton.mp he
      trivial
    · simp at he

/-- Quiet events are lawful and leave the ledger as it is. -/
theorem acceptsFrom_quiet_append {es : List SlotEvent} (l : Ledger) (h : ∀ e ∈ es, Quiet e)
    (rest : List SlotEvent) :
    (protocol.AcceptsFrom l (es ++ rest) ↔ protocol.AcceptsFrom l rest) ∧
      (es ++ rest).foldl record l = rest.foldl record l := by
  induction es with
  | nil => exact ⟨.rfl, rfl⟩
  | cons e es ih =>
    have he : l.record e = l ∧ l.Lawful e := by
      have hq := h e List.mem_cons_self
      cases e <;> first | exact ⟨rfl, trivial⟩ | exact absurd hq id
    obtain ⟨hacc, hfold⟩ := ih fun e' he' => h e' (List.mem_cons_of_mem _ he')
    constructor
    · change l.Lawful e ∧ protocol.AcceptsFrom (l.record e) (es ++ rest) ↔ _
      rw [he.1, hacc]
      exact and_iff_right he.2
    · rw [List.cons_append, List.foldl_cons, he.1, hfold]

end Ledger

/-- What the mailbox of a slot holds. -/
def Kernel.mailbox (k : Kernel) : Option Post :=
  if k.ready then some (.complete k.response) else if k.cancelled then some .cancel else none

/-- The kernel of a slot is what the ledger says. -/
structure Ledger.Follows (l : Ledger) (k : Kernel) : Prop where
  generation : k.generation = l.releases % 2 ^ 32
  tickets : k.tickets = l.tickets.map fun t => ⟨t.connection % 2 ^ 32⟩
  serving : l.serving = k.inUse
  parked : l.parked ≠ none ↔ k.inUse = true ∧ k.state = .pending
  mailbox : k.mailbox = l.decision.map Prod.snd
  fresh : k.focus.Dispatched → l.current ∉ l.parkings
  deferred : ∀ t ∈ l.deferred, t ∈ l.parkings ∨
    t = l.current ∧ ∃ m r, k.focus = .returned (some .defer) m r

namespace Ledger

/-- The ledger keeps up with a step that logs these events. -/
def KeepsUp (l : Ledger) (es : List SlotEvent) (k : Kernel) : Prop :=
  protocol.AcceptsFrom l es ∧ (es.foldl record l).Follows k

theorem KeepsUp.single {l : Ledger} {e : SlotEvent} {k : Kernel} (he : l.Lawful e)
    (h : (l.record e).Follows k) : l.KeepsUp [e] k := ⟨⟨he, trivial⟩, h⟩

theorem KeepsUp.cons {l : Ledger} {e : SlotEvent} {es : List SlotEvent} {k : Kernel}
    (he : l.Lawful e) (h : (l.record e).KeepsUp es k) : l.KeepsUp (e :: es) k :=
  ⟨⟨he, h.1⟩, h.2⟩

theorem KeepsUp.quiet {l : Ledger} {es rest : List SlotEvent} {k : Kernel}
    (hq : ∀ e ∈ es, Quiet e) (h : l.KeepsUp rest k) : l.KeepsUp (es ++ rest) k := by
  obtain ⟨hacc, hfold⟩ := acceptsFrom_quiet_append l hq rest
  exact ⟨hacc.mpr h.1, hfold ▸ h.2⟩

theorem KeepsUp.of_quiet {l : Ledger} {es : List SlotEvent} {k : Kernel}
    (hq : ∀ e ∈ es, Quiet e) (h : l.Follows k) : l.KeepsUp es k :=
  List.append_nil es ▸ .quiet hq ⟨trivial, h⟩

namespace Follows

variable {l : Ledger} {k : Kernel}

theorem parked_eq_none (h : l.Follows k) (hk : ¬(k.inUse = true ∧ k.state = .pending)) :
    l.parked = none := by
  by_contra hne
  exact hk (h.parked.mp hne)

/-- Outside the routing step, every deferred request has been parked. -/
theorem deferred_parked (h : l.Follows k) (hf : ¬k.focus.Dispatched) :
    ∀ t ∈ l.deferred, t ∈ l.parkings := by
  intro t ht
  rcases h.deferred t ht with hmem | ⟨-, m, r, hr⟩
  · exact hmem
  · exact absurd (hr ▸ trivial) hf

theorem decision_eq_none_iff (h : l.Follows k) :
    l.decision = none ↔ ¬(k.ready = true ∨ k.cancelled = true) := by
  rw [← Option.map_eq_none_iff (f := Prod.snd), ← h.mailbox, Kernel.mailbox]
  cases k.ready <;> cases k.cancelled <;> simp

/-- The loop thread moves on, outside the routing step. -/
theorem focus (h : l.Follows k) (hk : ¬k.focus.Dispatched) {f : Focus} (hf : ¬f.Dispatched) :
    l.Follows { k with focus := f } :=
  { h with
    fresh := fun hd => absurd hd hf
    deferred := fun t ht => .inl (h.deferred_parked hk t ht) }

/-- The kernel after a close follows the ledger after a release. -/
theorem release (h : l.Follows k) (hd : ∀ t ∈ l.deferred, t ∈ l.parkings) (state : SlotState) :
    (l.record .released).Follows (k.closed state) where
  generation := by
    simp only [Kernel.closed, wrap32, record, h.generation, Nat.mod_add_mod]
  tickets := h.tickets
  serving := rfl
  parked := by simp [record, Kernel.closed]
  mailbox := by simp [Kernel.closed, Kernel.mailbox, record]
  fresh := by simp [Kernel.closed, Focus.Dispatched]
  deferred := fun t ht => .inl (hd t ht)

/-- An answer ends the parking, if there is one. -/
theorem answer (h : l.Follows k) (hd : ∀ t ∈ l.deferred, t ∈ l.parkings) (a : Answer)
    (r : HttpResponse) : (l.record (.answered a r)).Follows (k.answered r) :=
  { h with
    parked := by simp [record, Kernel.answered]
    mailbox := by simp [Kernel.answered, Kernel.mailbox, record]
    fresh := by simp [Kernel.answered, Focus.Dispatched]
    deferred := fun t ht => .inl (hd t ht) }

/-- What a slot may serialise is what the ledger allows. -/
theorem lawful_answer (h : l.Follows k) (hi : k.Inv) {a : Answer} {r : HttpResponse}
    (ha : k.Answers a r) : l.Lawful (.answered a r) ∧ ∀ t ∈ l.deferred, t ∈ l.parkings := by
  have hmail := h.mailbox
  cases ha with
  | handler hf | unrouted hf =>
    obtain ⟨-, hs⟩ := hi.returned hf
    refine ⟨h.parked_eq_none (by simp [hs]), fun t ht => ?_⟩
    rcases h.deferred t ht with hmem | ⟨-, m, r, hr⟩
    · exact hmem
    · simp [hf] at hr
  | tooLarge hf hs =>
    exact ⟨h.parked_eq_none (by simp [hs]), h.deferred_parked (by simp [hf, Focus.Dispatched])⟩
  | completed hf hu hs hm hc =>
    rw [Kernel.mailbox, if_pos hm] at hmail
    obtain ⟨⟨t, p⟩, hdec, hp⟩ := Option.map_eq_some_iff.mp hmail.symm
    exact ⟨⟨t, hp ▸ hdec⟩,
      h.deferred_parked (by simp [hf, Focus.Dispatched])⟩
  | cancelled hf hu hs hm hr =>
    have hready : k.ready = false := by
      by_contra hne
      exact hi.exclusive ⟨by simpa using hne, hm⟩
    rw [Kernel.mailbox, if_neg (by simp [hready]), if_pos hm] at hmail
    obtain ⟨⟨t, p⟩, hdec, hp⟩ := Option.map_eq_some_iff.mp hmail.symm
    exact ⟨⟨t, hp ▸ hdec⟩,
      h.deferred_parked (by simp [hf, Focus.Dispatched])⟩
  | expired hf hu hs hm hc hr =>
    exact ⟨⟨h.parked.mpr ⟨hu, hs⟩, h.decision_eq_none_iff.mpr (by simp [hm, hc])⟩,
      h.deferred_parked (by simp [hf, Focus.Dispatched])⟩

/-- A call is accepted exactly when the ledger is open for its ticket. -/
theorem post_ok_iff (h : l.Follows k) (t : RequestId) (p : Post) :
    (k.post (t.connection % 2 ^ 32) p).1 = .ok ↔ l.Open t := by
  rw [Open, h.parked, h.decision_eq_none_iff, ← h.generation]
  unfold Kernel.post
  split_ifs with h1 h2
  · rcases h1 with h1 | h1 | h1
    · simp [h1]
    · simp [h1]
    · exact iff_of_false nofun fun hopen => h1 hopen.2.2.symm
  · simp [h2]
  · simp only [not_or, Bool.not_eq_false, Decidable.not_not] at h1
    simp [h1, h2]

theorem ticket (h : l.Follows k) {n : Nat} {ticket : Deferral} (ht : k.tickets[n]? = some ticket) :
    ∃ t, l.tickets[n]? = some t ∧ ticket.generation = t.connection % 2 ^ 32 := by
  rw [h.tickets, List.getElem?_map, Option.map_eq_some_iff] at ht
  obtain ⟨t, ht, rfl⟩ := ht
  exact ⟨t, ht, rfl⟩

/-- An accepted call is the decision. -/
theorem decide (h : l.Follows k) (hready : k.ready = false) {n : Nat} {t : RequestId}
    (ht : l.tickets[n]? = some t) (p : Post) :
    (l.record (.posted n p .ok)).Follows (k.deliver p) := by
  cases p with
  | complete r => exact { h with mailbox := by simp [Kernel.deliver, Kernel.mailbox, record, ht] }
  | cancel =>
    exact { h with mailbox := by simp [Kernel.deliver, Kernel.mailbox, record, ht, hready] }

/-- Moves of the kernel are lawful, and the ledger keeps up with them. -/
theorem move {k' : Kernel} {es : List SlotEvent} (h : l.Follows k) (hl : l.Sound) (hi : k.Inv)
    (hm : Move k es k') : l.KeepsUp es k' := by
  cases hm with
  | accept hf hu =>
    have hnone := h.parked_eq_none (by simp [hu])
    have hdec := hl.decision_eq_none hnone
    refine .single trivial { h with
      serving := rfl
      parked := by simp [record, hnone]
      mailbox := by simp [Kernel.mailbox, record, hdec]
      fresh := nofun
      deferred := fun t ht => .inl (h.deferred_parked (by simp [hf, Focus.Dispatched]) t ht) }
  | refuse hf hu =>
    exact .single trivial (h.release (h.deferred_parked (by simp [hf, Focus.Dispatched])) _)
  | transfer hk hf he hu hd =>
    exact .of_quiet (fun e hmem => .of_transfer (he e hmem))
      (h.focus hk.not_dispatched hf.not_dispatched)
  | shake hf hs =>
    have hnone := h.parked_eq_none (by simp [hs])
    exact .of_quiet (by simp) { h.focus (f := .away) (by simp [hf, Focus.Dispatched]) id with
      parked := by simp [hnone] }
  | arrive hf hs he =>
    exact .of_quiet (fun e hmem => .of_transfer (he e hmem))
      (h.focus (by simp [hf, Focus.Dispatched]) id)
  | unrouted hf | routed hf =>
    obtain ⟨hu, hs⟩ := hi.route hf
    have hnone := h.parked_eq_none (by simp [hs])
    have hdeferred := h.deferred_parked (by simp [hf, Focus.Dispatched])
    refine .single ⟨hnone, hdeferred⟩ { h with
      fresh := fun _ hmem => absurd (hl.parkings _ hmem) (by simp [record, current])
      deferred := fun t ht => .inl (hdeferred t ht) }
  | take hf =>
    refine .single trivial { h with tickets := by simp [record, current, h.tickets, h.generation] }
  | @handled matched route outcome r hf =>
    have hfresh := h.fresh (hf ▸ trivial)
    have hkeep : ∀ t ∈ l.deferred, t ∈ l.parkings := by
      intro t ht
      rcases h.deferred t ht with hmem | ⟨-, m, r, hr⟩
      · exact hmem
      · simp [hf] at hr
    refine .single (by cases outcome <;> trivial) ?_
    cases outcome with
    | defer =>
      exact { h with
        fresh := fun _ => hfresh
        deferred := by
          rintro t (_ | ⟨_, ht⟩)
          · exact .inr ⟨rfl, matched, r, rfl⟩
          · exact .inl (hkeep t ht) }
    | respond =>
      exact { h with fresh := fun _ => hfresh, deferred := fun t ht => .inl (hkeep t ht) }
    | close => exact { h with fresh := fun _ => hfresh, deferred := fun t ht => .inl (hkeep t ht) }
  | park hf =>
    obtain ⟨hu, hs⟩ := hi.returned hf
    refine .single ⟨h.serving.trans hu, h.fresh (hf ▸ trivial)⟩ { h with
      parked := by simp [record, hu]
      mailbox := by simp [Kernel.mailbox, record]
      fresh := nofun
      deferred := by
        intro t ht
        rcases h.deferred t ht with hmem | ⟨rfl, -⟩
        · exact .inl (List.mem_cons_of_mem _ hmem)
        · exact .inl List.mem_cons_self }
  | answer ha =>
    obtain ⟨hlawful, hdeferred⟩ := h.lawful_answer hi ha
    exact .single hlawful (h.answer hdeferred _ _)
  | overflow ha =>
    obtain ⟨hlawful, hdeferred⟩ := h.lawful_answer hi ha
    exact .cons hlawful (.quiet (quiet_finalizers _)
      (.single trivial ((h.answer hdeferred _ _).release hdeferred _)))
  | close hf hu he =>
    refine .quiet (fun e hmem => .of_transfer (he e hmem)) (.quiet (quiet_finalizers _)
      (.single trivial (h.release ?_ _)))
    intro t ht
    rcases h.deferred t ht with hmem | ⟨-, m, r, hr⟩
    · exact hmem
    · rcases hf with hf | ⟨m', r', hf⟩
      · exact absurd (hr ▸ trivial) hf.not_dispatched
      · simp [hf] at hr
  | provide hf hs =>
    exact .single trivial (h.focus (by simp [hf, Focus.Dispatched]) id)
  | exhaust hf hs =>
    exact .cons trivial (.of_quiet (quiet_finalizers _) { h with })
  | @finish f hf hs hnext =>
    obtain ⟨hu, hstate⟩ := hi.drained hf
    have hnone := h.parked_eq_none (by simp [hstate])
    have hnext : ¬f.Dispatched := by
      rcases hnext with rfl | rfl <;> exact id
    refine .single trivial { h.focus (by simp [hf, Focus.Dispatched]) hnext with
      parked := by simp [record, hnone] }
  | finishClosed hf hs =>
    exact .cons trivial
      (.single trivial (h.release (h.deferred_parked (by simp [hf, Focus.Dispatched])) _))
  | @post n ticket p ht =>
    obtain ⟨t, hrec, hgen⟩ := h.ticket ht
    have hlawful : l.Lawful (.posted n p (k.post ticket.generation p).1) :=
      ⟨t, hrec, hgen ▸ h.post_ok_iff t p⟩
    refine .single hlawful ?_
    by_cases hok : (k.post ticket.generation p).1 = .ok
    · obtain ⟨hpost, hready, -⟩ := Kernel.post_accepted hok
      rw [hpost, hok]
      exact h.decide hready hrec p
    · rw [Kernel.post_refused hok]
      generalize (k.post ticket.generation p).1 = result at hok
      cases result <;> first | exact h | exact absurd rfl hok

end Follows

end Ledger

/-! ## Runs -/

variable {env : ServerEnv} {log : List SlotEvent} {v : SlotView}

theorem SlotView.Initial.follows {v : SlotView} (h : v.Initial) :
    Ledger.start.Follows v.kernel := by
  obtain ⟨hf, ht, storage, -, hs⟩ := h
  have hslot : v.slot.inUse = false ∧ v.slot.generation = 0 ∧ v.slot.pendingReady = false ∧
      v.slot.pendingCancelled = false := by
    rw [hs]
    exact ⟨rfl, rfl, rfl, rfl⟩
  constructor <;> simp [Ledger.start, SlotView.kernel, Kernel.mailbox, Focus.Dispatched, hf, ht,
    hslot]

theorem accepts_of_run (run : Run (slotMachine env) log v) :
    Ledger.protocol.Accepts log ∧ (ledger log).Sound ∧ (ledger log).Follows v.kernel := by
  refine run.accepts Ledger.protocol
    (fun (l : Ledger) (v : SlotView) => l.Sound ∧ l.Follows v.kernel)
    (fun v h => ⟨Ledger.Sound.start, SlotView.Initial.follows h⟩) ?_
  intro log v a v' es run h hstep
  have hi := slotRun_inv run
  obtain ⟨hacc, hfollows⟩ := h.2.move h.1 hi.kernel (slotStep_move env hi hstep).1
  exact ⟨hacc, h.1.foldl hacc, hfollows⟩

/-- Every event of a run is lawful by the ledger before it. -/
theorem lawful_of_run (run : Run (slotMachine env) log v) {before rest : List SlotEvent}
    {e : SlotEvent} (h : log = before ++ e :: rest) :
    (ledger before).Sound ∧ (ledger before).Lawful e := by
  have hacc := (accepts_of_run run).1
  rw [h, Monitor.accepts_append] at hacc
  exact ⟨Ledger.Sound.start.foldl hacc.1, hacc.2.1⟩

end HttpC
