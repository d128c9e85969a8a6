import HttpC.Server.Admission

/-!
# Connections, and the end of a server

A slot serves one connection after the other. All that happens at the slot happens to a connection
that has been accepted and not been released, and a server that reports that it has stopped has
released them all.

## Main results

* `connections_of_run` — in every run each slot's connections are opened and closed in turn.
* `stopped_of_run` — behind the end of `http_server_run` nothing happens to a connection.
-/

namespace HttpC

open Transition

/-! ## The connections of a slot -/

/-- What a log says about the connections of a slot. -/
structure Visits where
  opened : Bool
  accepted : Nat
  ended : Nat
  deriving DecidableEq, Repr

namespace Visits

def start : Visits := ⟨false, 0, 0⟩

def record (l : Visits) : SlotEvent → Visits
  | .accepted => { l with opened := true, accepted := l.accepted + 1 }
  | .released => { l with opened := false, ended := l.ended + if l.opened then 1 else 0 }
  | _ => l

/-- A connection is accepted when there is none, a worker's post may come at any time, and
everything else happens to an open connection. A failed accept releases the slot too. -/
def visiting : Monitor Visits SlotEvent where
  start := start
  record := record
  Good l
    | .accepted => l.opened = false
    | .released => True
    | .posted _ _ result => result = .ok → l.opened = true
    | _ => l.opened = true

/-- Every connection that was accepted is open or has ended. -/
def Balanced (l : Visits) : Prop := l.accepted = l.ended + if l.opened then 1 else 0

/-- The log is that of a slot in this state. -/
structure Follows (l : Visits) (inUse : Bool) : Prop where
  opened : l.opened = inUse
  balanced : l.Balanced

section

variable {l : Visits} {es : List SlotEvent} {k k' : Kernel}

theorem Balanced.record (h : l.Balanced) {e : SlotEvent} (he : visiting.Good l e) :
    (l.record e).Balanced := by
  cases e with
  | accepted =>
    have hclosed : l.opened = false := he
    simpa [Balanced, Visits.record, hclosed] using h
  | released => simpa [Balanced, Visits.record] using h
  | _ => exact h

/-- Events that leave the connection as it is. -/
def Inside : SlotEvent → Prop
  | .accepted | .released | .posted _ _ _ => False
  | _ => True

/-- The log goes on with these events, and is then that of a slot in this state. -/
def KeepsUp (l : Visits) (es : List SlotEvent) (inUse : Bool) : Prop :=
  visiting.AcceptsFrom l es ∧ (es.foldl record l).Follows inUse

theorem Follows.nil {inUse : Bool} (h : l.Follows inUse) : l.KeepsUp [] inUse := ⟨trivial, h⟩

theorem KeepsUp.cons {e : SlotEvent} {inUse : Bool} (he : visiting.Good l e)
    (h : (l.record e).KeepsUp es inUse) : l.KeepsUp (e :: es) inUse :=
  ⟨⟨he, h.1⟩, h.2⟩

/-- What happens to an open connection leaves it open. -/
theorem Follows.inside {rest : List SlotEvent} {inUse : Bool} (h : l.Follows true)
    (hes : ∀ e ∈ es, Inside e) (hrest : l.KeepsUp rest inUse) : l.KeepsUp (es ++ rest) inUse := by
  induction es with
  | nil => exact hrest
  | cons e es ih =>
    have hopened := h.opened
    have hin := hes e List.mem_cons_self
    have hkeep : l.record e = l := by cases e <;> first | rfl | cases hin
    have hgood : visiting.Good l e := by cases e <;> first | exact hopened | cases hin
    refine .cons hgood ?_
    rw [hkeep]
    exact ih fun x hx => hes x (List.mem_cons_of_mem _ hx)

/-- A release ends the connection, if there is one. -/
theorem Follows.released {inUse : Bool} (h : l.Follows inUse) : l.KeepsUp [.released] false :=
  .cons trivial ⟨trivial, rfl, h.balanced.record trivial⟩

theorem inside_of_transfer {e : SlotEvent} (h : e.Transfer) : Inside e := by
  cases e <;> trivial

theorem inside_finalizers (stream : Option Stream) : ∀ e ∈ Kernel.finalizers stream, Inside e := by
  intro e he
  unfold Kernel.finalizers at he
  split at he
  · cases he
  · split_ifs at he
    · rw [List.mem_singleton.mp he]
      trivial
    · cases he

/-- What a move logs at a slot in use happens to the connection there. -/
theorem Follows.move (h : l.Follows true) (hu : k.inUse = true) (hmove : Move k es k')
    : l.KeepsUp es k'.inUse := by
  have hlast : ∀ {es : List SlotEvent}, (∀ e ∈ es, Inside e) →
      l.KeepsUp (es ++ [.released]) false := fun hes => h.inside hes h.released
  have hopen : ∀ {es : List SlotEvent}, (∀ e ∈ es, Inside e) → l.KeepsUp es k.inUse := fun hes => by
    rw [hu]
    simpa using h.inside hes h.nil
  cases hmove with
  | accept hf hfree | refuse hf hfree => simp [hu] at hfree
  | transfer hk hf he hplain hd => exact hopen fun e h => inside_of_transfer (he e h)
  | shake hf hs => exact hopen nofun
  | arrive hf hs he => exact hopen fun e h => inside_of_transfer (he e h)
  | overflow ha =>
    refine @hlast (_ :: _) fun e he => ?_
    rcases List.mem_cons.mp he with rfl | he
    · trivial
    · exact inside_finalizers _ e he
  | close hf hu he =>
    rw [← List.append_assoc]
    refine hlast fun e hmem => ?_
    rcases List.mem_append.mp hmem with hmem | hmem
    · exact inside_of_transfer (he e hmem)
    · exact inside_finalizers _ e hmem
  | exhaust hf hs =>
    refine hopen fun e he => ?_
    rcases List.mem_cons.mp he with rfl | he
    · trivial
    · exact inside_finalizers _ e he
  | finishClosed hf hs => exact @hlast [_] (by simp [Inside])
  | post ht =>
    refine .cons (fun _ => h.opened) ⟨trivial, ?_⟩
    have hsame : ∀ generation p, (k.post generation p).2.inUse = k.inUse := by
      intro generation p
      unfold Kernel.post
      split_ifs
      · rfl
      · rfl
      · cases p <;> rfl
    rw [hsame, hu]
    exact h
  | _ => exact hopen (by simp [Inside])

end

end Visits

/-! ## Free slots -/

section

variable {env : ServerEnv} {v v' : SlotView} {a : SlotAction} {es : List SlotEvent}

/-- A slot that is not in use is offered a connection, or nothing happens there; a worker's post
is refused. -/
theorem slotStep_free (hi : v.Inv) (hu : v.slot.inUse = false)
    (h : slotStep env v a = some (v', es)) :
    (∃ w sd, a = .accept w sd) ∧ (es = [.accepted] ∧ v'.slot.inUse = true ∨
        es = [.released] ∧ v'.slot.inUse = false) ∨
      v' = v ∧ (es = [] ∨ ∃ k p, es = [.posted k p .notFound]) := by
  have haway : v.focus = .away := by
    have hadvance := hi.kernel.advance
    have hrouting := hi.kernel.routing
    have hdrained := hi.kernel.drained
    simp only [SlotView.kernel, hu] at hadvance hrouting hdrained
    cases hf : v.focus <;> simp_all [Focus.Routing]
  have hnone : v.slot.registeredEvents = .none := by
    by_contra hne
    exact Bool.false_ne_true (hu.symm.trans (hi.ok.registered hne).1)
  unfold slotStep at h
  split_ifs at h with hen
  obtain ⟨rfl, rfl⟩ := Prod.mk.inj (Option.some.inj h)
  have hpassed : ∀ r : Slot × List SlotEvent, r = (v.slot, []) →
      (v.leave r).1 = v ∧
        ((v.leave r).2 = [] ∨ ∃ k p, (v.leave r).2 = [.posted k p .notFound]) := by
    rintro r rfl
    exact ⟨by simp [SlotView.leave, ← haway], .inl rfl⟩
  cases a with
  | accept w sd =>
    refine .inl ⟨⟨w, sd, rfl⟩, ?_⟩
    cases sd with
    | none => exact .inr ⟨rfl, rfl⟩
    | some sd => exact .inl ⟨rfl, rfl⟩
  | flush w => exact .inr (hpassed _ (by simp [slotFlush, hu]))
  | sweepPending now w => exact .inr (hpassed _ (by simp [slotSweepPending, hu]))
  | sweepIdle now => exact .inr (hpassed _ (by simp [slotSweepIdle, slotWaitsOnPeer, hu]))
  | teardown => exact .inr ⟨by simp [hu], .inl (by simp [hu])⟩
  | post k p =>
    refine .inr ?_
    dsimp only
    split
    · exact ⟨rfl, .inl rfl⟩
    · next deferral _ =>
      have hpost : deferralPost v.slot deferral p = (.notFound, v.slot) := if_pos (.inl hu)
      rw [hpost]
      exact ⟨rfl, .inr ⟨k, p, rfl⟩⟩
  | _ => simp [SlotView.enabled, haway, hnone, slotIsIdleBetweenRequests, hu] at hen

/-- In every run of a slot its log is that of connections that come and go. -/
theorem visits_of_run {log : List SlotEvent} (run : Run (slotMachine env) log v) :
    Visits.visiting.Accepts log ∧ (Visits.visiting.after log).Follows v.slot.inUse := by
  refine run.accepts Visits.visiting (fun l v => l.Follows v.slot.inUse) ?_ ?_
  · rintro v ⟨-, -, storage, -, hs⟩
    exact ⟨by rw [hs]; rfl, rfl⟩
  · intro log v a v' es run hl hstep
    have hi := slotRun_inv run
    by_cases hu : v.slot.inUse = true
    · exact (hu ▸ hl).move hu (slotStep_move env hi hstep).1
    · rw [Bool.not_eq_true] at hu
      rcases slotStep_free hi hu hstep with
        ⟨-, ⟨rfl, hused⟩ | ⟨rfl, hfree⟩⟩ | ⟨rfl, rfl | ⟨k, p, rfl⟩⟩
      · rw [hused]
        have hclosed := hl.opened.trans hu
        exact Visits.KeepsUp.cons hclosed ⟨trivial, rfl, hl.balanced.record hclosed⟩
      · exact hfree ▸ hl.released
      · exact hl.nil
      · exact Visits.KeepsUp.cons nofun hl.nil

end

/-- **What happens at a slot happens to a connection.** In every run of the server, whatever the
other threads and the other slots do: a connection is accepted only when the one before has been
released, everything but a worker's refused post happens between the two, and the slot is in use as
long as a connection that was accepted has not been released. -/
theorem connections_of_run {env : ServerEnv} {slotCount : Nat} {log : List ServerEvent} {s : System}
    (run : Run (serverMachine env slotCount) log s) (i : Nat) :
    let visits := Visits.visiting.after (slotLog i log)
    Visits.visiting.Accepts (slotLog i log) ∧ visits.opened = (s.slots i).slot.inUse ∧
      visits.accepted = visits.ended + if (s.slots i).slot.inUse then 1 else 0 := by
  intro visits
  obtain ⟨haccepts, hopened, hbalanced⟩ := visits_of_run (slotRun_of_run env slotCount run i)
  exact ⟨haccepts, hopened, hopened ▸ hbalanced⟩

/-! ## The end of the loop -/

section

variable {env : ServerEnv} {slotCount : Nat} {s t : System} {log : List ServerEvent}
  {es : List ServerEvent}

/-- A step at a slot is a worker's, or one of the teardown, or one inside the loop. -/
theorem System.turn_teardown {i : Nat} {a : SlotAction} {f : Focus} {pc : LoopPc}
    (h : s.turn slotCount i a f = some pc) :
    (∃ k p, a = .post k p) ∧ pc = s.pc ∨
      a = .teardown ∧ s.pc = .teardown i ∧ pc = .teardown (i + 1) ∨
      s.pc.InLoop = true ∧ s.pc ≠ .loopTest ∧ pc.InLoop = true := by
  unfold System.turn at h
  dsimp only at h
  split at h
  case h_1 => exact .inl ⟨⟨_, _, rfl⟩, (Option.some.inj h).symm⟩
  all_goals try split_ifs at h
  all_goals try cases h
  all_goals simp_all [LoopPc.InLoop]

/-- Whether the slot has been torn down when the loop thread is here. -/
def LoopPc.Freed (slotCount : Nat) (pc : LoopPc) (i : Nat) : Prop :=
  slotCount ≤ i ∨
    match pc with
    | .outside | .publishing _ => True
    | .teardown j => i < j
    | _ => False

/-- Outside its loop the server has no connection, and the teardown leaves none behind. -/
def System.Freed (slotCount : Nat) (s : System) : Prop :=
  ∀ i, s.pc.Freed slotCount i → (s.slots i).slot.inUse = false

theorem LoopPc.Freed.of_inLoop {pc : LoopPc} {i : Nat} (hf : pc.Freed slotCount i)
    (h : pc.InLoop = true) : slotCount ≤ i := by
  refine hf.resolve_right fun hpc => ?_
  cases pc <;> simp_all [LoopPc.InLoop]

/-- A step that is not at a slot calls no slot torn down that was not. -/
theorem freed_serverStep {a : ServerAction} (h : serverStep env slotCount s a = some (t, es))
    (ha : ∀ i b r, a ≠ .slot i b r) {i : Nat} (hf : t.pc.Freed slotCount i) :
    s.pc.Freed slotCount i := by
  cases a with
  | slot i b r => exact absurd rfl (ha i b r)
  | stopped =>
    simp only [serverStep] at h
    split_ifs at h with hpc
    rw [hpc]
    exact (Nat.lt_or_ge i slotCount).symm
  | _ =>
    simp only [serverStep, System.publish] at h
    repeat' split at h
    all_goals cases h
    all_goals simp_all [LoopPc.Freed]

theorem inUse_teardown {v v' : SlotView} {es : List SlotEvent}
    (h : slotStep env v .teardown = some (v', es)) : v'.slot.inUse = false := by
  unfold slotStep at h
  split_ifs at h
  have hv : (slotEffect env v .teardown).1 = v' := congrArg Prod.fst (Option.some.inj h)
  by_cases hu : v.slot.inUse = true
  · rw [← hv, slotEffect, if_pos hu]
    rfl
  · rw [← hv, slotEffect, if_neg hu]
    simpa using hu

theorem freed_of_run (run : Run (serverMachine env slotCount) log s) : s.Freed slotCount := by
  refine run.invariant (I := fun _ s => s.Freed slotCount) (fun s hs i _ => ?_) ?_
  · obtain ⟨-, -, storage, -, hslot⟩ := hs.1 i
    rw [hslot]
    rfl
  intro log s a t es run hs h j hj
  by_cases ha : ∃ i b r, a = .slot i b r
  · obtain ⟨i, b, r, rfl⟩ := ha
    obtain ⟨hi, v, events, pc, hstep, hturn, -, ht⟩ := System.slotStep_cases h
    have hslots : t.slots = Function.update s.slots i v := by
      rw [ht]
      split_ifs <;> rfl
    have hpc : t.pc = pc := by
      rw [ht]
      split_ifs <;> rfl
    rw [hpc] at hj
    rw [hslots]
    rcases System.turn_teardown hturn with ⟨⟨k, p, rfl⟩, rfl⟩ | ⟨rfl, hold, rfl⟩ | ⟨-, -, hin⟩
    · by_cases hji : j = i
      · subst hji
        have hfree := hs j hj
        rw [Function.update_self]
        have hinv := slotRun_inv (slotRun_of_run env slotCount run j)
        rcases slotStep_free hinv hfree hstep with ⟨⟨w, sd, hacc⟩, -⟩ | ⟨rfl, -⟩
        · cases hacc
        · exact hfree
      · rw [Function.update_of_ne hji]
        exact hs j hj
    · by_cases hji : j = i
      · subst hji
        rw [Function.update_self]
        exact inUse_teardown hstep
      · rw [Function.update_of_ne hji]
        refine hs j (hj.imp_right fun hlt => ?_)
        rw [hold]
        exact Nat.lt_of_le_of_ne (Nat.lt_succ_iff.mp hlt) hji
    · have hout := hj.of_inLoop hin
      rw [Function.update_of_ne (by omega)]
      exact hs j (.inl hout)
  · have ha' : ∀ i b r, a ≠ .slot i b r := fun i b r hi => ha ⟨i, b, r, hi⟩
    rw [(serverStep_idle env slotCount h ha').1]
    exact hs j (freed_serverStep h ha' hj)

/-! ## A server that has stopped -/

/-- What may still be logged of a server that has stopped. -/
def ServerEvent.Late : ServerEvent → Prop
  | .slot _ (.posted _ _ result) => result = .notFound
  | .published state => state ≠ .running
  | _ => False

/-- No slot is in use, and no call of `http_server_run` gets into its loop any more. -/
structure System.Halted (s : System) : Prop where
  free : ∀ i, (s.slots i).slot.inUse = false
  state : s.state = .stopping ∨ s.state = .stopped
  pc : s.pc.InLoop = true → s.pc = .loopTest
  unpromoted : s.pc ≠ .publishing true

theorem System.Halted.step {a : ServerAction} (h : s.Halted) (hinv : ∀ i, (s.slots i).Inv)
    (hstep : serverStep env slotCount s a = some (t, es)) : t.Halted ∧ ∀ e ∈ es, e.Late := by
  cases a with
  | slot i a r =>
    obtain ⟨hi, v, events, pc, hslot, hturn, rfl, ht⟩ := System.slotStep_cases hstep
    have hback : (∃ k p, a = .post k p) ∧ pc = s.pc ∨
        a = .teardown ∧ pc = .teardown (i + 1) := by
      rcases System.turn_teardown hturn with hpost | ⟨ha, -, hpc⟩ | ⟨hin, hne, -⟩
      · exact .inl hpost
      · exact .inr ⟨ha, hpc⟩
      · exact absurd (h.pc hin) hne
    have hsame : t.slots = Function.update s.slots i v ∧ t.state = s.state ∧ t.pc = pc := by
      rw [ht]
      split_ifs <;> exact ⟨rfl, rfl, rfl⟩
    obtain ⟨hslots, hstate, hpc⟩ := hsame
    rcases slotStep_free (hinv i) (h.free i) hslot with ⟨⟨w, sd, hacc⟩, -⟩ | ⟨rfl, hevents⟩
    · rcases hback with ⟨⟨k, p, rfl⟩, -⟩ | ⟨rfl, -⟩ <;> cases hacc
    refine ⟨⟨fun j => ?_, hstate ▸ h.state, fun hin => ?_, fun hpub => ?_⟩, fun e he => ?_⟩
    · rw [hslots, Function.update_eq_self]
      exact h.free j
    · rw [hpc] at hin ⊢
      rcases hback with ⟨-, rfl⟩ | ⟨-, rfl⟩
      · exact h.pc hin
      · cases hin
    · rw [hpc] at hpub
      rcases hback with ⟨-, rfl⟩ | ⟨-, rfl⟩
      · exact h.unpromoted hpub
      · cases hpub
    · rcases hevents with rfl | ⟨k, p, rfl⟩
      · cases he
      · rw [List.mem_singleton.mp he]
        rfl
  | _ =>
    have hstate := h.state
    have hpast : s.state ≠ .initialized ∧ s.state ≠ .running := by
      rcases hstate with hstate | hstate <;> simp [hstate]
    have hpc := h.pc
    have hpub := h.unpromoted
    simp only [serverStep, System.publish] at hstep
    repeat' split at hstep
    all_goals cases hstep
    all_goals refine ⟨⟨h.free, ?_, ?_, ?_⟩, ?_⟩
    all_goals simp_all [LoopPc.InLoop, ServerEvent.Late]

/-- What the log of a server that has reported its end promises. -/
def Closing (before : List ServerEvent) (e : ServerEvent) : Prop :=
  (e = .published .stopped → ∀ i, (Visits.visiting.after (slotLog i before)).Follows false) ∧
    (.published .stopped ∈ before → e.Late)

/-- `stopped` is published behind the teardown only. -/
theorem eq_stopped_of_published {a : ServerAction}
    (h : serverStep env slotCount s a = some (t, es)) (he : .published .stopped ∈ es) :
    a = .stopped := by
  cases a with
  | stopped => rfl
  | slot i b r =>
    obtain ⟨-, v, events, -, -, rfl⟩ := System.slotStep_spec env slotCount h
    simp at he
  | _ =>
    simp only [serverStep, System.publish] at h
    repeat' split at h
    all_goals cases h
    all_goals simp at he

theorem closing_of_run (run : Run (serverMachine env slotCount) log s) :
    (Monitor.history Closing).Accepts log ∧ (.published .stopped ∈ log → s.Halted) := by
  have hmain := run.accepts (Monitor.history Closing)
    (fun log s => .published .stopped ∈ log → s.Halted)
    (fun _ _ hmem => absurd hmem List.not_mem_nil) ?_
  · rwa [Monitor.after_history] at hmain
  intro log s a t es run hI hstep
  rw [Monitor.after_history] at hI ⊢
  have hinv i := slotRun_inv (slotRun_of_run env slotCount run i)
  by_cases ha : a = .stopped
  · subst ha
    simp only [serverMachine, serverStep] at hstep
    split_ifs at hstep with hpc
    cases hstep
    have hfree : ∀ i, (s.slots i).slot.inUse = false := fun i =>
      freed_of_run run i (hpc ▸ (Nat.lt_or_ge i slotCount).symm)
    refine ⟨⟨⟨fun _ i => ?_, fun _ => by simp [ServerEvent.Late]⟩, trivial⟩,
      fun _ => ⟨hfree, .inr rfl, by simp [LoopPc.InLoop], by simp⟩⟩
    exact hfree i ▸ (visits_of_run (slotRun_of_run env slotCount run i)).2
  · have hnone : .published .stopped ∉ es := fun he => ha (eq_stopped_of_published hstep he)
    have hlate := fun hmem => (hI hmem).step hinv hstep
    refine ⟨Monitor.acceptsFrom_history fun before e after hes => ⟨?_, fun hmem => ?_⟩, ?_⟩
    · rintro rfl
      exact absurd (hes ▸ by simp) hnone
    · rcases List.mem_append.mp hmem with hmem | hmem
      · exact (hlate hmem).2 e (hes ▸ by simp)
      · exact absurd (hes ▸ List.mem_append_left _ hmem) hnone
    · have hlog := Monitor.after_append (Monitor.history Closing) log es
      rw [Monitor.after_history, Monitor.after_history] at hlog
      rw [← hlog]
      intro hmem
      exact (hlate ((List.mem_append.mp hmem).resolve_right hnone)).1

/-- **A server that has stopped stays silent.** In every run of the server, whatever the workers and
the calls of `http_server_stop` and `http_server_run` do: when `stopped` is published each
connection that was accepted has been released, and from then on no connection is accepted, no
handler is called and nothing is sent; a worker's post is refused, and the server never runs
again. -/
theorem stopped_of_run (run : Run (serverMachine env slotCount) log s)
    {before after : List ServerEvent} (hlog : log = before ++ .published .stopped :: after) :
    (∀ i, let visits := Visits.visiting.after (slotLog i before)
      visits.opened = false ∧ visits.accepted = visits.ended) ∧
    (∀ e ∈ after, e.Late) ∧ ∀ i, (s.slots i).slot.inUse = false := by
  obtain ⟨haccepts, hhalted⟩ := closing_of_run run
  have hclosing := (Monitor.accepts_iff _ log).mp haccepts
  refine ⟨fun i => ?_, fun e he => ?_, (hhalted (hlog ▸ by simp)).free⟩
  · have hend := (hclosing before _ after hlog).1 rfl i
    rw [Monitor.after_history] at hend
    have hbalanced := hend.balanced
    rw [Visits.Balanced, hend.opened] at hbalanced
    exact ⟨hend.opened, hbalanced⟩
  · obtain ⟨first, rest, rfl⟩ := List.append_of_mem he
    have hlate := (hclosing (before ++ .published .stopped :: first) e rest (by simp [hlog])).2
    rw [Monitor.after_history] at hlate
    exact hlate (by simp)

end

/-- A request is parked when the server is stopped, and its worker comes too late. -/
def stoppingParked : List ServerAction :=
  connecting ++ requesting ++ parking ++ [.stopWait false, .stopSet, .iterated false,
    .slot 0 .teardown true, .stopped, .slot 0 (.post 0 .cancel) true]

theorem connections_of_run_stopping :
    let log := slotLog 0 ((serverMachine smallServer 1).log smallSystem stoppingParked)
    Visits.visiting.Accepts log ∧ Visits.visiting.after log = ⟨false, 1, 1⟩ := by
  intro log
  obtain ⟨s, -, run⟩ := run_of_execute (M := serverMachine smallServer 1) stoppingParked
    smallSystem_initial (by decide +kernel)
  exact ⟨(connections_of_run run 0).1, by decide +kernel⟩

theorem stopped_of_run_stopping :
    ∃ before, (serverMachine smallServer 1).log smallSystem stoppingParked =
        before ++ [.published .stopped, .slot 0 (.posted 0 .cancel .notFound)] ∧
      (Visits.visiting.after (slotLog 0 before)).opened = false := by
  obtain ⟨s, -, run⟩ := run_of_execute (M := serverMachine smallServer 1) stoppingParked
    smallSystem_initial (by decide +kernel)
  have hlog : (serverMachine smallServer 1).log smallSystem stoppingParked =
      ((serverMachine smallServer 1).log smallSystem stoppingParked).dropLast.dropLast ++
        [.published .stopped, .slot 0 (.posted 0 .cancel .notFound)] := by decide +kernel
  exact ⟨_, hlog, ((stopped_of_run run hlog).1 0).1⟩

end HttpC
