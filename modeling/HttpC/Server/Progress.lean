import HttpC.Server.Connections

/-!
# The loop thread is never stuck

Wherever the loop thread stands, there is a step it can take, whatever the workers have posted. It
can leave a callback, and it can come to the end of `http_server_run`.

## Main results

* `slot_leaves` — a callback has a step that brings it nearer to its end.
* `ends_of_run` — from every state in `http_server_run` the loop thread can end the server.
-/

namespace HttpC

open Transition

/-! ## Inside a callback -/

/-- How far the loop thread is from leaving the slot. -/
def SlotView.toLeave (v : SlotView) : Nat :=
  match v.focus with
  | .away => 0
  | .returned _ _ _ => 1
  | .handling _ _ => 2
  | .route => 3
  | .drained => if v.slot.streamActive then 5 else 4
  | .advance => 6

section

variable {env : ServerEnv} {v : SlotView}

theorem slotStep_of_enabled {a : SlotAction} (h : v.enabled a = true) :
    slotStep env v a = some (slotEffect env v a) := if_pos h

/-- The step that ends the advance of a slot, or comes to its next piece. -/
def leavingAdvance (slot : Slot) : SlotAction :=
  match slot.state with
  | .handshaking => .handshake ⟨0, false⟩ .failed
  | .receiving =>
    if slot.recvBufferSize ≤ slot.recvUsed then .tooLarge ⟨0, false⟩
    else .read ⟨0, false⟩ .failed
  | .pending => .probe (.tryAgain .none)
  | .sending => if slot.sendUsed ≤ slot.sendOffset then .drain else .write ⟨0, false⟩ 0 .failed
  | .idle | .closing => .stray

theorem leaves_advance (env : ServerEnv) (hf : v.focus = .advance) :
    (leavingAdvance v.slot).inCallback = true ∧ v.enabled (leavingAdvance v.slot) = true ∧
      (slotEffect env v (leavingAdvance v.slot)).1.toLeave < v.toLeave := by
  have hrank : v.toLeave = 6 := by rw [SlotView.toLeave, hf]
  have haway : ∀ v' : SlotView, v'.focus = .away → v'.toLeave < v.toLeave := fun v' hv' => by
    rw [hrank, SlotView.toLeave, hv']
    exact Nat.succ_pos 5
  cases hs : v.slot.state with
  | handshaking =>
    rw [leavingAdvance, hs]
    exact ⟨rfl, by simp [SlotView.enabled, hf, hs], haway _ rfl⟩
  | receiving =>
    rw [leavingAdvance, hs]
    dsimp only
    split_ifs with hfull
    · exact ⟨rfl, by simp [SlotView.enabled, hf, hs, hfull], haway _ rfl⟩
    · refine ⟨rfl, ?_, haway _ rfl⟩
      simp [SlotView.enabled, hf, hs, Nat.not_le.mp hfull, ReadResult.got]
  | pending =>
    rw [leavingAdvance, hs]
    exact ⟨rfl, by simp [SlotView.enabled, hf, hs, ReadResult.got], haway _ rfl⟩
  | sending =>
    rw [leavingAdvance, hs]
    dsimp only
    split_ifs with hdrained
    · refine ⟨rfl, by simp [SlotView.enabled, hf, hs, hdrained], ?_⟩
      rw [hrank]
      by_cases hstreams : v.slot.streamActive = true <;>
        simp [slotEffect, SlotView.toLeave, hstreams]
    · exact ⟨rfl, by simp [SlotView.enabled, hf, hs, Nat.not_le.mp hdrained], haway _ rfl⟩
  | idle | closing =>
    rw [leavingAdvance, hs]
    exact ⟨rfl, by simp [SlotView.enabled, hf, hs], haway _ rfl⟩

/-- A callback has a step that brings it nearer to its end: the provider has no more bytes, the
handler gives the connection up, and the socket fails. -/
theorem slot_leaves (env : ServerEnv) (hi : v.Inv) (hf : v.focus ≠ .away) :
    ∃ a v' es, a.inCallback = true ∧ slotStep env v a = some (v', es) ∧
      v'.toLeave < v.toLeave := by
  have hstep : ∀ a : SlotAction, a.inCallback = true → v.enabled a = true →
      (slotEffect env v a).1.toLeave < v.toLeave →
        ∃ a v' es, a.inCallback = true ∧ slotStep env v a = some (v', es) ∧
          v'.toLeave < v.toLeave := fun a ha hen hlt =>
    ⟨a, _, _, ha, slotStep_of_enabled hen, hlt⟩
  cases hfocus : v.focus with
  | away => exact absurd hfocus hf
  | advance =>
    obtain ⟨ha, hen, hlt⟩ := leaves_advance env hfocus
    exact hstep _ ha hen hlt
  | route =>
    refine hstep .route rfl (by simp [SlotView.enabled, hfocus]) ?_
    simp only [slotEffect, routeRequest]
    split <;> simp [SlotView.toLeave, hfocus]
  | handling route matched =>
    refine hstep (.handler .close .zero) rfl (by simp [SlotView.enabled, hfocus]) ?_
    simp [slotEffect, handlerReturned, SlotView.toLeave, hfocus]
  | returned outcome matched response =>
    refine hstep (.conclude ⟨0, false⟩) rfl (by simp [SlotView.enabled, hfocus]) ?_
    simp [slotEffect, SlotView.toLeave, SlotView.leave, hfocus]
  | drained =>
    by_cases hstreams : v.slot.streamActive = true
    · have heof := hi.ok.streaming (hi.kernel.drained hfocus).1 hstreams
      refine hstep (.provide []) rfl (by simp [SlotView.enabled, hfocus, hstreams, heof]) ?_
      simp [slotEffect, slotProvide, SlotView.toLeave, SlotView.goto, hfocus, hstreams,
        streamFinalize]
    · refine hstep (.finish ⟨0, false⟩) rfl (by simp [SlotView.enabled, hfocus, hstreams]) ?_
      simp only [slotEffect, slotFinishSend, SlotView.goto]
      split_ifs <;> simp [SlotView.toLeave, hfocus, hstreams]

end

/-! ## The loop of `http_server_run` -/

/-- The steps of the loop thread inside `http_server_run`. -/
def ServerAction.ofLoop (_ : System) : ServerAction → Bool
  | .slot _ (.post _ _) _ | .run _ | .stopWait _ | .stopSet => false
  | _ => true

/-- The server when no other thread gets in. -/
def loopMachine (env : ServerEnv) (slotCount : Nat) : Machine System ServerAction ServerEvent :=
  (serverMachine env slotCount).restrict ServerAction.ofLoop

/-- How far the loop thread is from the end of `http_server_run`. -/
def System.toEnd (slotCount : Nat) (s : System) : Nat :=
  match s.pc with
  | .outside => 0
  | .teardown i => 1 + (slotCount - i)
  | .dispatch => slotCount + 2
  | .callback i => slotCount + 2 + (s.slots i).toLeave
  | .loopTest => slotCount + 3
  | .publishing _ | .reclaim _ => slotCount + 4
  | .sweepIdle _ i => slotCount + 5 + (slotCount - i)
  | .sweepPending _ i => 2 * slotCount + 6 + (slotCount - i)
  | .flush i => 3 * slotCount + 7 + (slotCount - i)

/-- The loop thread is at a slot of the table, and in a callback it is in that slot. -/
def LoopPc.Placed (slotCount : Nat) (focus : Nat → Focus) : LoopPc → Prop
  | .callback i => i < slotCount ∧ focus i ≠ .away
  | .flush i | .sweepPending _ i | .sweepIdle _ i | .teardown i => i ≤ slotCount
  | _ => True

/-- The second half of the idle sweep is for a server that does not listen. -/
structure System.Placed (slotCount : Nat) (s : System) : Prop where
  slot : s.pc.Placed slotCount fun i => (s.slots i).focus
  parked : ∀ now, s.pc = .reclaim now → s.listenRegistered = false

section

variable {env : ServerEnv} {slotCount : Nat} {s t : System} {log es : List ServerEvent}

/-- A step at a slot leaves the loop thread at a slot of the table. -/
theorem System.turn_placed {i : Nat} {a : SlotAction} {f : Focus} {pc : LoopPc}
    {focus : Nat → Focus} (h : s.turn slotCount i a f = some pc) (hi : i < slotCount)
    (hf : focus i = f) : (∃ k p, a = .post k p) ∧ pc = s.pc ∨
      pc.Placed slotCount focus ∧ ∀ now, pc ≠ .reclaim now := by
  have hnext : i + 1 ≤ slotCount := hi
  unfold System.turn at h
  dsimp only at h
  split at h
  case h_1 => exact .inl ⟨⟨_, _, rfl⟩, (Option.some.inj h).symm⟩
  all_goals refine .inr ?_
  all_goals try split_ifs at h
  all_goals try cases h
  all_goals simp_all [LoopPc.Placed]

/-- A post releases nothing. -/
theorem not_released_of_post {v v' : SlotView} {k : Nat} {p : Post} {es : List SlotEvent}
    (h : slotStep env v (.post k p) = some (v', es)) : .released ∉ es := by
  unfold slotStep at h
  split_ifs at h
  have hes : (slotEffect env v (.post k p)).2 = es := congrArg Prod.snd (Option.some.inj h)
  rw [← hes, slotEffect]
  split <;> simp

theorem placed_of_run (run : Run (serverMachine env slotCount) log s) : s.Placed slotCount := by
  refine run.invariant (I := fun _ s => s.Placed slotCount) (fun s hs => ?_) ?_
  · have hpc := hs.2.1
    exact ⟨hpc ▸ trivial, fun now h => by simp [hpc] at h⟩
  intro log s a t es run hs h
  by_cases ha : ∃ i b r, a = .slot i b r
  · obtain ⟨i, b, r, rfl⟩ := ha
    obtain ⟨hi, v, events, pc, hstep, hturn, -, ht⟩ := System.slotStep_cases h
    have hslots : t.slots = Function.update s.slots i v := by
      rw [ht]
      split_ifs <;> rfl
    have hpc : t.pc = pc := by
      rw [ht]
      split_ifs <;> rfl
    have hat : (t.slots i).focus = v.focus := by rw [hslots, Function.update_self]
    rcases @System.turn_placed slotCount s i b v.focus pc (fun j => (t.slots j).focus) hturn hi
      hat with ⟨hpost, rfl⟩ | ⟨hplaced, hnot⟩
    · have hfocus : (fun j => (t.slots j).focus) = fun j => (s.slots j).focus := by
        funext j
        by_cases hji : j = i
        · subst hji
          rw [hat, (focus_slotStep hstep).1 hpost]
        · rw [hslots, Function.update_of_ne hji]
      have hlistener : t.listenRegistered = s.listenRegistered := by
        obtain ⟨k, p, rfl⟩ := hpost
        rw [ht, if_neg fun hreleased => not_released_of_post hstep hreleased.1]
      exact ⟨by rw [hfocus, hpc]; exact hs.slot, fun now hnow => by
        rw [hlistener]; exact hs.parked now (hpc ▸ hnow)⟩
    · exact ⟨hpc ▸ hplaced, fun now hnow => absurd (hpc ▸ hnow) (hnot now)⟩
  · have ha' : ∀ i b r, a ≠ .slot i b r := fun i b r hi => ha ⟨i, b, r, hi⟩
    have hslots := (serverStep_idle env slotCount h ha').1
    have hslot := hs.slot
    have hparked := hs.parked
    refine ⟨?_, ?_⟩
    all_goals try rw [hslots]
    all_goals cases a with
    | slot i b r => exact absurd rfl (ha' i b r)
    | _ =>
      simp only [serverMachine, serverStep, System.publish] at h
      repeat' split at h
      all_goals cases h
      all_goals simp_all [LoopPc.Placed]

/-- A step at a slot when it is the loop thread's turn. -/
theorem System.step_of_turn {i : Nat} {a : SlotAction} {v : SlotView} {events : List SlotEvent}
    {pc : LoopPc} (hi : i < slotCount) (hslot : HttpC.slotStep env (s.slots i) a = some (v, events))
    (hturn : s.turn slotCount i a v.focus = some pc) :
    ∃ t es, serverStep env slotCount s (.slot i a true) = some (t, es) ∧ t.pc = pc ∧
      t.slots = Function.update s.slots i v := by
  simp only [serverStep, System.slotStep, if_pos hi, hslot, hturn]
  split_ifs <;> exact ⟨_, _, rfl, rfl, rfl⟩

/-- Only the loop thread moves the loop thread. -/
theorem ofLoop_of_pc {a : ServerAction} (h : serverStep env slotCount s a = some (t, es))
    (hmoves : t.pc ≠ s.pc) (hpc : s.pc ≠ .outside) : ServerAction.ofLoop s a = true := by
  cases a with
  | slot i b r =>
    cases b with
    | post k p =>
      obtain ⟨-, v, events, pc, -, hturn, -, ht⟩ := System.slotStep_cases h
      obtain rfl : s.pc = pc := Option.some.inj hturn
      refine absurd ?_ hmoves
      rw [ht]
      split_ifs <;> rfl
    | _ => rfl
  | run listenSd => simp [serverStep, hpc] at h
  | stopWait timedOut | stopSet =>
    simp only [serverStep, System.publish] at h
    repeat' split at h
    all_goals cases h
    all_goals exact absurd rfl hmoves
  | _ => rfl

variable (env slotCount) in
/-- The loop thread has a step that brings it nearer to the end. -/
def System.HasNext (s : System) : Prop :=
  ∃ a t es, (loopMachine env slotCount).step s a = some (t, es) ∧
    t.toEnd slotCount < s.toEnd slotCount ∧ (t.pc = .outside → t.state = .stopped)

theorem System.HasNext.of_step {a : ServerAction}
    (h : serverStep env slotCount s a = some (t, es)) (ha : ServerAction.ofLoop s a = true)
    (hlt : t.toEnd slotCount < s.toEnd slotCount) (hend : t.pc = .outside → t.state = .stopped) :
    s.HasNext env slotCount :=
  ⟨a, t, es, Machine.restrict_step.mpr ⟨ha, h⟩, hlt, hend⟩

/-- A pass, or the teardown, takes the next slot. -/
theorem System.HasNext.of_pass {i : Nat} {a : SlotAction} {pc : LoopPc} (hi : i < slotCount)
    (hen : (s.slots i).enabled a = true)
    (hpass : a.inPass = true) (hturn : s.turn slotCount i a .away = some pc)
    (hlt : ∀ t : System, t.pc = pc → t.toEnd slotCount < s.toEnd slotCount)
    (hpc : pc ≠ .outside) : s.HasNext env slotCount := by
  have hslot := @slotStep_of_enabled env _ _ hen
  rw [← (focus_slotStep hslot).2 hpass] at hturn
  obtain ⟨t, es, h, ht, -⟩ := System.step_of_turn hi hslot hturn
  refine .of_step h ?_ (hlt t ht) fun hend => absurd (ht ▸ hend) hpc
  cases a <;> first | rfl | cases hpass

theorem System.HasNext.callback {i : Nat} (hs : s.pc = .callback i) (hi : i < slotCount)
    (hinv : (s.slots i).Inv) (hf : (s.slots i).focus ≠ .away) : s.HasNext env slotCount := by
  obtain ⟨a, v, events, ha, hslot, hlt⟩ := slot_leaves env hinv hf
  obtain ⟨t, es, h, ht, hslots⟩ := System.step_of_turn hi hslot (System.turn_callback hs ha)
  refine .of_step h (by cases a <;> first | rfl | cases ha) ?_ (by rw [ht]; split_ifs <;> simp)
  rw [System.toEnd, System.toEnd, ht, hs]
  split_ifs with hleft
  · dsimp only
    omega
  · dsimp only
    rw [hslots, Function.update_self]
    omega

theorem System.HasNext.flush {i : Nat} (hs : s.pc = .flush i) (hi : i ≤ slotCount)
    (haway : (s.slots i).focus = .away) : s.HasNext env slotCount := by
  rcases Nat.lt_or_eq_of_le hi with hi | rfl
  · have hturn : s.turn slotCount i (.flush ⟨0, false⟩) .away = some (.flush (i + 1)) := by
      simp [System.turn, hs]
    refine .of_pass hi (by simp [SlotView.enabled, haway]) rfl hturn (fun t ht => ?_) (by simp)
    simp only [System.toEnd, hs, ht]
    omega
  · refine @System.HasNext.of_step env _ s { s with pc := .sweepPending 0 0 } [] (.nextPass 0)
      (by simp [serverStep, hs]) rfl ?_ (by simp)
    simp only [System.toEnd, hs]
    omega

theorem System.HasNext.sweepPending {now i : Nat} (hs : s.pc = .sweepPending now i)
    (hi : i ≤ slotCount) (haway : (s.slots i).focus = .away) : s.HasNext env slotCount := by
  rcases Nat.lt_or_eq_of_le hi with hi | rfl
  · have hturn : s.turn slotCount i (.sweepPending now ⟨0, false⟩) .away =
        some (.sweepPending now (i + 1)) := by simp [System.turn, hs]
    refine .of_pass hi (by simp [SlotView.enabled, haway]) rfl hturn (fun t ht => ?_) (by simp)
    simp only [System.toEnd, hs, ht]
    omega
  · refine @System.HasNext.of_step env _ s { s with pc := .sweepIdle 0 0 } [] (.nextPass 0)
      (by simp [serverStep, hs]) rfl ?_ (by simp)
    simp only [System.toEnd, hs]
    omega

theorem System.HasNext.sweepIdle {now i : Nat} (hs : s.pc = .sweepIdle now i)
    (hi : i ≤ slotCount) (haway : (s.slots i).focus = .away) : s.HasNext env slotCount := by
  rcases Nat.lt_or_eq_of_le hi with hi | rfl
  · have hturn : s.turn slotCount i (.sweepIdle now) .away = some (.sweepIdle now (i + 1)) := by
      simp [System.turn, hs]
    refine .of_pass hi (by simp [SlotView.enabled, haway]) rfl hturn (fun t ht => ?_) (by simp)
    simp only [System.toEnd, hs, ht]
    omega
  · refine @System.HasNext.of_step env _ s
      { s with pc := if s.listenRegistered then .loopTest else .reclaim now } [] (.nextPass 0)
      (by simp [serverStep, hs]) rfl ?_ (by split_ifs <;> simp)
    split_ifs <;> simp only [System.toEnd, hs] <;> omega

theorem System.HasNext.teardown {i : Nat} (hs : s.pc = .teardown i) (hi : i ≤ slotCount)
    (haway : (s.slots i).focus = .away) : s.HasNext env slotCount := by
  rcases Nat.lt_or_eq_of_le hi with hi | rfl
  · have hturn : s.turn slotCount i .teardown .away = some (.teardown (i + 1)) := by
      simp [System.turn, hs]
    refine .of_pass hi (by simp [SlotView.enabled, haway]) rfl hturn (fun t ht => ?_) (by simp)
    simp only [System.toEnd, hs, ht]
    omega
  · refine @System.HasNext.of_step env _ s _ _ .stopped (if_pos hs) rfl ?_ fun _ => rfl
    simp [System.toEnd, hs]

/-- In `http_server_run` the loop thread has a step that brings it nearer to the end. -/
theorem hasNext_of_run (run : Run (serverMachine env slotCount) log s) (hpc : s.pc ≠ .outside) :
    s.HasNext env slotCount := by
  obtain ⟨hplaced, hparked⟩ := placed_of_run run
  have haway := focus_away_of_run run
  cases hs : s.pc with
  | outside => exact absurd hs hpc
  | publishing promote =>
    cases promote with
    | true =>
      refine @System.HasNext.of_step env _ s ({ s with pc := .loopTest }.publish .running).1
        [.published .running] .promote (by simp [serverStep, hs, System.publish]) rfl ?_
        (by simp [System.publish])
      simp [System.toEnd, hs, System.publish]
    | false =>
      refine @System.HasNext.of_step env _ s { s with pc := .loopTest } [] .promote
        (by simp [serverStep, hs]) rfl ?_ (by simp)
      simp [System.toEnd, hs]
  | loopTest =>
    refine @System.HasNext.of_step env _ s _ _ .test (if_pos hs) rfl ?_ (by split_ifs <;> simp)
    split_ifs <;> simp only [System.toEnd, hs] <;> omega
  | dispatch =>
    refine @System.HasNext.of_step env _ s _ _ (.iterated false) (if_pos hs) rfl ?_ (by simp)
    simp only [System.toEnd, hs, Bool.false_eq_true, if_false]
    omega
  | callback i =>
    rw [hs] at hplaced
    exact .callback hs hplaced.1 (slotRun_inv (slotRun_of_run env slotCount run i)) hplaced.2
  | flush i =>
    rw [hs] at hplaced
    exact .flush hs hplaced (haway (by simp [hs]) i)
  | sweepPending now i =>
    rw [hs] at hplaced
    exact .sweepPending hs hplaced (haway (by simp [hs]) i)
  | sweepIdle now i =>
    rw [hs] at hplaced
    exact .sweepIdle hs hplaced (haway (by simp [hs]) i)
  | reclaim now =>
    obtain ⟨a, es, hreclaim⟩ := @execute_reclaim env slotCount s now (fun _ => true)
      (fun i _ => haway (by simp [hs]) i) (hparked now hs)
    rw [← hs] at hreclaim
    refine .of_step hreclaim (ofLoop_of_pc hreclaim (by simp [hs]) hpc) ?_ (by simp)
    simp [System.toEnd, hs]
  | teardown i =>
    rw [hs] at hplaced
    exact .teardown hs hplaced (haway (by simp [hs]) i)

/-- **No state is a dead end.** From every state in `http_server_run` that a run leads to, in the
middle of a callback, a handler or a pass, with parked requests and posts that wait, the loop thread
alone can come to the end: it returns, the server is stopped and no connection is left. -/
theorem ends_of_run (run : Run (serverMachine env slotCount) log s) (hpc : s.pc ≠ .outside) :
    ∃ t, (loopMachine env slotCount).Leads s t ∧ t.pc = .outside ∧ t.state = .stopped ∧
      ∀ i, (t.slots i).slot.inUse = false := by
  have hnearer : ∀ s, (∃ log, Run (serverMachine env slotCount) log s) ∧
      (s.pc = .outside → s.state = .stopped) → s.pc ≠ .outside →
        ∃ a t es, (loopMachine env slotCount).step s a = some (t, es) ∧
          ((∃ log, Run (serverMachine env slotCount) log t) ∧
            (t.pc = .outside → t.state = .stopped)) ∧
          t.toEnd slotCount < s.toEnd slotCount := by
    rintro s ⟨⟨log, run⟩, -⟩ hpc
    obtain ⟨a, t, es, hstep, hlt, hend⟩ := hasNext_of_run run hpc
    exact ⟨a, t, es, hstep, ⟨⟨_, .next run (Machine.restrict_step.mp hstep).2⟩, hend⟩, hlt⟩
  obtain ⟨t, hleads, ⟨⟨log', run'⟩, hstopped⟩, hend⟩ :=
    Machine.leads_of_rank (System.toEnd slotCount) hnearer ⟨⟨log, run⟩, fun h => absurd h hpc⟩
  exact ⟨t, hleads, hend, hstopped hend, fun i => freed_of_run run' i (hend ▸ .inr trivial)⟩

end

/-- The handler that has just taken a ticket. -/
theorem ends_of_run_handling : ∃ s t : System, (s.slots 0).focus = .handling 0 true ∧
    (loopMachine smallServer 1).Leads s t ∧ t.state = .stopped := by
  obtain ⟨s, hexec, run⟩ := run_of_execute (M := serverMachine smallServer 1)
    (connecting ++ requesting) smallSystem_initial (by decide +kernel)
  have hview : ((serverMachine smallServer 1).execute smallSystem (connecting ++ requesting)).map
      (fun r => (r.1.pc, (r.1.slots 0).focus)) = some (.callback 0, .handling 0 true) := by
    decide +kernel
  rw [hexec] at hview
  obtain ⟨hpc, hfocus⟩ := Prod.mk.inj (Option.some.inj hview)
  dsimp only at hpc hfocus
  obtain ⟨t, hleads, -, hstate, -⟩ := ends_of_run run (by simp [hpc])
  exact ⟨s, t, hfocus, hleads, hstate⟩

end HttpC
