import HttpC.Server.Sweeping

/-!
# The listener and the table

With every slot in use the listener is parked: it leaves the event loop, and the close of a slot
registers it again.

## Main results

* `focus_away_of_run` — the loop thread is in one slot at most.
* `parked_listener_full` — a parked listener means a full table, and a sweep makes room.
-/

namespace HttpC

open Transition

/-! ## The loop thread -/

/-- Inside the loop of `http_server_run`. -/
def LoopPc.InLoop : LoopPc → Bool
  | .outside | .publishing _ | .teardown _ => false
  | _ => true

/-- A step of a pass over the slots, or of the teardown. -/
def SlotAction.inPass : SlotAction → Bool
  | .flush _ | .sweepPending _ _ | .sweepIdle _ | .reclaim | .teardown => true
  | _ => false

section

variable {env : ServerEnv} {slotCount : Nat} {s t : System} {log es : List ServerEvent}

/-- Whose turn it is and where the loop thread goes: a worker leaves it where it is, a callback
keeps it in its slot or gives it back, a pass moves it on. -/
theorem System.turn_cases {i : Nat} {a : SlotAction} {f : Focus} {pc : LoopPc}
    (h : s.turn slotCount i a f = some pc) :
    (∃ k p, a = .post k p) ∧ pc = s.pc ∨
      (s.pc = .dispatch ∨ s.pc = .callback i) ∧
        pc = (if f = .away then LoopPc.dispatch else .callback i) ∨
      a.inPass = true ∧ (∀ j, s.pc ≠ .callback j) ∧ (∀ b, pc ≠ .publishing b) ∧
        pc.InLoop = s.pc.InLoop := by
  unfold System.turn at h
  dsimp only at h
  split at h
  case h_1 => exact .inl ⟨⟨_, _, rfl⟩, (Option.some.inj h).symm⟩
  all_goals try split_ifs at h
  all_goals try cases h
  all_goals simp_all [SlotAction.inPass, LoopPc.InLoop]

/-- A worker leaves the focus alone, and a pass visits a slot without staying there. -/
theorem focus_slotStep {v v' : SlotView} {a : SlotAction} {es : List SlotEvent}
    (h : slotStep env v a = some (v', es)) :
    ((∃ k p, a = .post k p) → v'.focus = v.focus) ∧ (a.inPass = true → v'.focus = .away) := by
  unfold slotStep at h
  split_ifs at h with hen
  obtain ⟨rfl, rfl⟩ : v' = (slotEffect env v a).1 ∧ es = (slotEffect env v a).2 := by
    rw [Option.some.inj h]
    exact ⟨rfl, rfl⟩
  constructor
  · rintro ⟨k, p, rfl⟩
    simp only [slotEffect]
    split <;> rfl
  · intro hpass
    cases a with
    | flush w | sweepPending now w | sweepIdle now | reclaim => rfl
    | teardown =>
      simp only [slotEffect]
      split_ifs
      · rfl
      · exact of_decide_eq_true hen
    | _ => cases hpass

/-- The loop thread is in the slot of its callback, and in no other. -/
def System.Focused (s : System) : Prop := ∀ i, (s.slots i).focus = .away ∨ s.pc = .callback i

/-- A step at a slot, with all it does to the server. -/
theorem System.slotStep_cases {i : Nat} {a : SlotAction} {rearmed : Bool}
    (h : s.slotStep env slotCount i a rearmed = some (t, es)) :
    i < slotCount ∧ ∃ v events pc, HttpC.slotStep env (s.slots i) a = some (v, events) ∧
      s.turn slotCount i a v.focus = some pc ∧ es = events.map (.slot i) ∧
      let next := { s with slots := Function.update s.slots i v, pc }
      t = if SlotEvent.released ∈ events ∧ a ≠ .teardown then listenerRearm next rearmed
        else next := by
  unfold System.slotStep at h
  split_ifs at h with hi
  split at h
  · cases h
  · next v events hstep =>
    split at h
    · cases h
    · next pc hturn =>
      obtain ⟨rfl, rfl⟩ := Prod.mk.inj (Option.some.inj h)
      exact ⟨hi, v, events, pc, hstep, hturn, rfl, rfl⟩

/-- A step that is not at a slot neither starts a callback nor ends one. -/
theorem callback_serverStep {a : ServerAction} (h : serverStep env slotCount s a = some (t, es))
    (ha : ∀ i b r, a ≠ .slot i b r) (i : Nat) : t.pc = .callback i ↔ s.pc = .callback i := by
  cases a with
  | slot i b r => exact absurd rfl (ha i b r)
  | _ =>
    simp only [serverStep, System.publish] at h
    repeat' split at h
    all_goals cases h
    all_goals simp_all

/-- The loop thread is in one slot at most. -/
theorem focused_of_run (run : Run (serverMachine env slotCount) log s) : s.Focused := by
  refine run.invariant (I := fun _ s => s.Focused) (fun s h i => .inl (h.1 i).1) ?_
  intro _ s a t es _ hs h i
  by_cases ha : ∃ j b r, a = .slot j b r
  · obtain ⟨j, b, r, rfl⟩ := ha
    obtain ⟨-, v, events, pc, hstep, hturn, -, ht⟩ := System.slotStep_cases h
    obtain ⟨hpost, hpass⟩ := focus_slotStep hstep
    have hslots : t.slots = Function.update s.slots j v := by
      rw [ht]
      split_ifs <;> rfl
    have hpc : t.pc = pc := by
      rw [ht]
      split_ifs <;> rfl
    rw [hslots, hpc]
    rcases System.turn_cases hturn with ⟨hb, rfl⟩ | ⟨hold, rfl⟩ | ⟨hb, hold, -⟩
    · by_cases hij : i = j
      · subst hij
        rw [Function.update_self, hpost hb]
        exact hs i
      · rw [Function.update_of_ne hij]
        exact hs i
    · by_cases hij : i = j
      · subst hij
        rw [Function.update_self]
        split_ifs with hf
        · exact .inl hf
        · exact .inr rfl
      · rw [Function.update_of_ne hij]
        have hne : s.pc ≠ .callback i := by
          rcases hold with hold | hold <;> rw [hold] <;> simp [Ne.symm hij]
        exact .inl ((hs i).resolve_right hne)
    · by_cases hij : i = j
      · subst hij
        rw [Function.update_self]
        exact .inl (hpass hb)
      · rw [Function.update_of_ne hij]
        exact .inl ((hs i).resolve_right (hold i))
  · have ha' : ∀ j b r, a ≠ .slot j b r := fun j b r hj => ha ⟨j, b, r, hj⟩
    obtain ⟨hslots, -⟩ := serverStep_idle env slotCount h ha'
    rw [hslots, callback_serverStep h ha']
    exact hs i

/-- Outside the callbacks the loop thread is in no slot, so a pass can visit them all. -/
theorem focus_away_of_run (run : Run (serverMachine env slotCount) log s)
    (hpc : ∀ i, s.pc ≠ .callback i) (i : Nat) : (s.slots i).focus = .away :=
  (focused_of_run run i).resolve_right (hpc i)

/-- The steps behind `event_loop_run_once`, as the loop thread takes them in a run. -/
theorem leads_upkeep_of_run (run : Run (serverMachine env slotCount) log s) (hpc : s.pc = .flush 0)
    (u : Upkeep) :
    (serverMachine env slotCount).Leads s { upkeep env slotCount u s with pc := .loopTest } := by
  have haway := focus_away_of_run run (by simp [hpc])
  have hs : s = { s with pc := .flush 0 } := by rw [← hpc]
  have hleads := @leads_upkeep env slotCount s u fun i _ => haway i
  rwa [← hs] at hleads

end

/-! ## The listener -/

/-- `event_loop_register` takes the listening socket again, and takes sockets only. -/
def ServerAction.registers (_ : System) : ServerAction → Bool
  | .slot _ _ rearmed => rearmed
  | .run (some listenSd) => listenSd != -1
  | _ => true

/-- The server on an event loop that takes its listening socket. -/
def listeningMachine (env : ServerEnv) (slotCount : Nat) :
    Machine System ServerAction ServerEvent :=
  (serverMachine env slotCount).restrict ServerAction.registers

/-- A client is let in, or every slot is in use. -/
def System.Admits (slotCount : Nat) (s : System) : Prop :=
  s.listenRegistered = true ∨ ∀ i < slotCount, (s.slots i).slot.inUse = true

/-- What holds of the listener from `http_server_run` to the end of its loop. -/
structure System.Listening (slotCount : Nat) (s : System) : Prop where
  publishing : ∀ promote, s.pc = .publishing promote → s.listenRegistered = true ∧ s.listenSd ≠ -1
  inLoop : s.pc.InLoop = true → s.listenSd ≠ -1
  admits : s.pc.InLoop = true → s.state = .running → s.Admits slotCount

section

variable {env : ServerEnv} {slotCount : Nat} {s t : System} {log es : List ServerEvent}

/-- A slot stays in use until it is released. -/
theorem Move.inUse {k k' : Kernel} {es : List SlotEvent} (h : Move k es k')
    (hu : k.inUse = true) (hes : .released ∉ es) : k'.inUse = true := by
  cases h with
  | accept => rfl
  | post h =>
    unfold Kernel.post
    split_ifs
    · exact hu
    · exact hu
    · next p _ _ => cases p <;> exact hu
  | refuse | overflow | close | finishClosed => simp at hes
  | _ => exact hu

/-- The table is full as long as no slot is released. -/
theorem System.Listening.slot (h : s.Listening slotCount) {i : Nat} {a : SlotAction}
    (hinv : (s.slots i).Inv) (hstep : s.slotStep env slotCount i a true = some (t, es)) :
    t.Listening slotCount := by
  obtain ⟨hi, v, events, pc, hslot, hturn, -, ht⟩ := System.slotStep_cases hstep
  obtain ⟨hmove, -⟩ := slotStep_move env hinv hslot
  dsimp only at ht
  have hpc : t.pc = pc := by
    rw [ht]
    split_ifs <;> rfl
  have hsame : t.slots = Function.update s.slots i v ∧ t.state = s.state ∧
      t.listenSd = s.listenSd ∧ (s.listenRegistered = true → t.listenRegistered = true) := by
    rw [ht]
    split_ifs <;> simp +contextual [listenerRearm]
  obtain ⟨hslots, hstate, hsd, hkeeps⟩ := hsame
  have hloop : pc.InLoop = s.pc.InLoop ∧ ((∃ b, pc = .publishing b) → pc = s.pc) := by
    rcases System.turn_cases hturn with ⟨-, rfl⟩ | ⟨hold, rfl⟩ | ⟨-, -, hne, hsame⟩
    · exact ⟨rfl, fun _ => rfl⟩
    · split_ifs <;> rcases hold with hold | hold <;> simp [hold, LoopPc.InLoop]
    · exact ⟨hsame, fun ⟨b, hb⟩ => absurd hb (hne b)⟩
  refine ⟨fun b hb => ?_, fun hin => ?_, fun hin hrun => ?_⟩
  · rw [hpc] at hb
    obtain ⟨hreg, hne⟩ := h.publishing b ((hloop.2 ⟨b, hb⟩).symm.trans hb)
    exact ⟨hkeeps hreg, hsd ▸ hne⟩
  · rw [hpc, hloop.1] at hin
    exact hsd ▸ h.inLoop hin
  · rw [hpc, hloop.1] at hin
    rw [hstate] at hrun
    rcases h.admits hin hrun with hreg | hfull
    · exact .inl (hkeeps hreg)
    · by_cases hreleased : .released ∈ events ∧ a ≠ .teardown
      · refine .inl ?_
        rw [ht, if_pos hreleased]
        simp [listenerRearm, hrun, h.inLoop hin]
      · refine .inr fun j hj => ?_
        rw [hslots]
        by_cases hji : j = i
        · subst hji
          rw [Function.update_self]
          refine hmove.inUse (hfull j hj) fun hmem => hreleased ⟨hmem, ?_⟩
          -- the teardown comes behind the loop
          rintro rfl
          cases hold : s.pc <;> simp_all [System.turn, LoopPc.InLoop, SlotAction.inCallback]
        · rw [Function.update_of_ne hji]
          exact hfull j hj

theorem acquireSlot_eq_none (h : acquireSlot slotCount s = none) :
    ∀ i < slotCount, (s.slots i).slot.inUse = true := by
  intro i hi
  have hnone := List.find?_eq_none.mp h i (List.mem_range.mpr hi)
  simpa using hnone

/-- The loop thread goes on inside the loop, or leaves it. -/
theorem System.Listening.goto (h : s.Listening slotCount) (hin : s.pc.InLoop = true) {pc : LoopPc}
    (hpc : ∀ promote, pc ≠ .publishing promote) : { s with pc }.Listening slotCount :=
  ⟨fun promote hp => absurd hp (hpc promote), fun _ => h.inLoop hin, fun _ => h.admits hin⟩

theorem System.Listening.step {a : ServerAction} (h : s.Listening slotCount)
    (hinv : ∀ i, (s.slots i).Inv) (ha : a.registers s = true)
    (hstep : serverStep env slotCount s a = some (t, es)) : t.Listening slotCount := by
  cases a with
  | slot i a rearmed =>
    obtain rfl : rearmed = true := ha
    exact h.slot (hinv i) hstep
  | run listenSd =>
    simp only [serverStep] at hstep
    split_ifs at hstep with hs
    cases listenSd with
    | none =>
      cases hstep
      exact h
    | some listenSd =>
      cases hstep
      have hsd : listenSd ≠ -1 := by simpa [ServerAction.registers] using ha
      exact ⟨fun _ _ => ⟨rfl, hsd⟩, by rintro ⟨⟩, by rintro ⟨⟩⟩
  | promote =>
    simp only [serverStep, System.publish] at hstep
    split at hstep
    · next hpc =>
      cases hstep
      obtain ⟨hreg, hsd⟩ := h.publishing _ hpc
      exact ⟨by rintro _ ⟨⟩, fun _ => hsd, fun _ _ => .inl hreg⟩
    · next hpc =>
      cases hstep
      obtain ⟨hreg, hsd⟩ := h.publishing _ hpc
      exact ⟨by rintro _ ⟨⟩, fun _ => hsd, fun _ _ => .inl hreg⟩
    · cases hstep
  | busy =>
    simp only [serverStep] at hstep
    split_ifs at hstep with hbusy
    cases hstep
    obtain ⟨hpc, -, -, hfull⟩ := hbusy
    refine ⟨fun b hb => ?_, h.inLoop, fun _ _ => .inr (acquireSlot_eq_none hfull)⟩
    rw [show s.pc = _ from hb] at hpc
    cases hpc
  | stopSet =>
    simp only [serverStep, System.publish] at hstep
    split_ifs at hstep
    cases hstep
    exact ⟨h.publishing, h.inLoop, by rintro - ⟨⟩⟩
  | stopWait timedOut =>
    simp only [serverStep] at hstep
    split_ifs at hstep <;> cases hstep <;> exact ⟨h.publishing, h.inLoop, h.admits⟩
  | stopped =>
    simp only [serverStep, System.publish] at hstep
    split_ifs at hstep
    cases hstep
    exact ⟨by rintro _ ⟨⟩, by rintro ⟨⟩, by rintro ⟨⟩⟩
  | test | iterated ok | nextPass now | skipReclaim =>
    simp only [serverStep] at hstep
    repeat' split at hstep
    all_goals cases hstep
    all_goals
      refine h.goto (by simp [*, LoopPc.InLoop]) ?_
      intro promote
      try split_ifs
      all_goals simp

theorem listening_of_run (run : Run (listeningMachine env slotCount) log s) :
    s.Listening slotCount := by
  refine run.invariant (I := fun _ s => s.Listening slotCount) (fun s h => ?_) ?_
  · obtain ⟨-, hpc, -⟩ := h
    exact ⟨by simp [hpc], by simp [hpc, LoopPc.InLoop], by simp [hpc, LoopPc.InLoop]⟩
  · intro _ s a t es hrun h hstep
    obtain ⟨ha, hstep⟩ := Machine.restrict_step.mp hstep
    exact h.step (fun i => slotRun_inv (slotRun_of_run env slotCount hrun.of_restrict i)) ha hstep

/-- With the listener parked and a slot that may be reclaimed, an idle sweep frees a slot and
registers the listener. -/
theorem sweepIdleConnections_admits {now i : Nat} (hrearmable : s.rearmable = true)
    (hi : i < slotCount) (hparked : s.listenRegistered = false)
    (h : (s.slots i).slot.Reclaimable now) :
    (∃ j < slotCount,
      ((sweepIdleConnections env slotCount now (fun _ => true) s).slots j).slot.inUse = false) ∧
      (sweepIdleConnections env slotCount now (fun _ => true) s).listenRegistered = true := by
  have hfree : ∀ slot : Slot, (slotClose slot).1.inUse = false := by simp [slotClose_slot]
  rw [sweepIdleConnections]
  by_cases hexpired : ∃ j < slotCount, (s.slots j).slot.Expired env now
  · obtain ⟨j, hj, hexpired⟩ := hexpired
    -- the first pass closes a slot already
    obtain ⟨registered, hpass, hregistered⟩ := s.visit_upTo slotCount
      (fun _ => slotSweepIdle env now) (fun _ => true)
    have hrearms : s.rearms slotCount (fun _ => slotSweepIdle env now) (fun _ => true) :=
      ⟨hrearmable, j, hj, by simp [slotSweepIdle_eq, hexpired], rfl⟩
    have hfirst : (sweepExpired env slotCount now (fun _ => true) s).listenRegistered = true := by
      rw [sweepExpired, hpass]
      exact hregistered.mpr (.inr hrearms)
    have hkept : reclaimIdle slotCount now (fun _ => true)
        (sweepExpired env slotCount now (fun _ => true) s) =
        sweepExpired env slotCount now (fun _ => true) s := if_neg (by simp [hfirst])
    refine ⟨⟨j, hj, ?_⟩, by rw [hkept, hfirst]⟩
    rw [hkept, sweepExpired_slots, if_pos ⟨hj, hexpired⟩]
    exact hfree _
  · have hfirst : sweepExpired env slotCount now (fun _ => true) s = s :=
      visit_upTo_idle fun j hj => (slotSweepIdle_eq ..).trans (if_neg fun h => hexpired ⟨j, hj, h⟩)
    rw [hfirst]
    rcases reclaimIdle_cases slotCount now (fun _ => true) s with
      ⟨-, hregistered | hnone⟩ | ⟨j, heq, -, hj, -⟩
    · rw [hregistered] at hparked
      cases hparked
    · exact absurd h (hnone i hi)
    · rw [heq]
      refine ⟨⟨j, hj, ?_⟩, ?_⟩
      · rw [System.visit_slots, Function.update_self]
        exact hfree _
      · simp only [System.rearmable] at hrearmable
        simp [System.visit, listenerRearm, hrearmable]

/-- A parked listener means a full table; once a slot has been idle for long enough, an idle sweep
frees a slot and registers the listener. -/
theorem parked_listener_full (run : Run (listeningMachine env slotCount) log s)
    (hpc : s.pc.InLoop = true) (hstate : s.state = .running)
    (hparked : s.listenRegistered = false) :
    (∀ i < slotCount, (s.slots i).slot.inUse = true) ∧
      ∀ now, (∃ i < slotCount, (s.slots i).slot.Reclaimable now) →
        (∃ j < slotCount,
          ((sweepIdleConnections env slotCount now (fun _ => true) s).slots j).slot.inUse =
            false) ∧
          (sweepIdleConnections env slotCount now (fun _ => true) s).listenRegistered = true := by
  have hlistening := listening_of_run run
  refine ⟨?_, fun now h => ?_⟩
  · rcases hlistening.admits hpc hstate with hregistered | hfull
    · rw [hregistered] at hparked
      cases hparked
    · exact hfull
  · obtain ⟨i, hi, hidle⟩ := h
    refine sweepIdleConnections_admits ?_ hi hparked hidle
    simp [System.rearmable, hstate, hlistening.inLoop hpc]

/-- The one slot of the small server is taken, and the next client finds no other. -/
def parkingListener : List ServerAction := connecting ++ [.busy]

theorem parked_listener_full_small :
    ∃ log s, Run (listeningMachine smallServer 1) log s ∧ (s.slots 0).slot.Reclaimable 1000 ∧
      (∀ i < 1, (s.slots i).slot.inUse = true) ∧
        ∀ now, (∃ i < 1, (s.slots i).slot.Reclaimable now) →
          (∃ j < 1, ((sweepIdleConnections smallServer 1 now (fun _ => true) s).slots
            j).slot.inUse = false) ∧
            (sweepIdleConnections smallServer 1 now (fun _ => true) s).listenRegistered =
              true := by
  obtain ⟨s, hexec, run⟩ := run_of_execute (M := listeningMachine smallServer 1) parkingListener
    smallSystem_initial rfl
  have hserver : ((listeningMachine smallServer 1).execute smallSystem parkingListener).map
      (fun r => (r.1.pc, r.1.state, r.1.listenRegistered)) = some (.dispatch, .running, false) :=
    rfl
  have hslot : ((listeningMachine smallServer 1).execute smallSystem parkingListener).map
      (fun r => ((r.1.slots 0).slot.inUse, (r.1.slots 0).slot.state, (r.1.slots 0).slot.recvUsed,
        (r.1.slots 0).slot.lastActivityMs)) = some (true, .receiving, 0, 0) := rfl
  simp only [hexec, Option.map_some, Option.some.injEq, Prod.mk.injEq] at hserver hslot
  obtain ⟨hpc, hstate, hparked⟩ := hserver
  obtain ⟨hu, hs, hused, hlast⟩ := hslot
  refine ⟨_, s, run, ⟨hu, hs, hused, by rw [hlast]; decide⟩, ?_⟩
  exact parked_listener_full run (by rw [hpc]; rfl) hstate hparked

end

end HttpC
