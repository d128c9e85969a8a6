import HttpC.Server.System

/-!
# The lifecycle of the server

`http_server_run` and `http_server_stop` look at the published state under its mutex and publish
a new one in a second critical section. What the other thread publishes in between is
overwritten, so the states come in order exactly when nothing gets in between.

## Main results

* `published_inOrder_iff` — when the published states never go back.
-/

namespace HttpC

open Transition

/-! ## Published states -/

def ServerState.rank : ServerState → Nat
  | .initialized => 0
  | .running => 1
  | .stopping => 2
  | .stopped => 3

def ServerEvent.state? : ServerEvent → Option ServerState
  | .published state => some state
  | .slot _ _ => none

/-- The states published in a log, in order. -/
def published (log : List ServerEvent) : List ServerState := log.filterMap ServerEvent.state?

/-- No published state is replaced by an earlier one. -/
def InOrder (states : List ServerState) : Prop := states.Pairwise (·.rank ≤ ·.rank)

instance (states : List ServerState) : Decidable (InOrder states) :=
  inferInstanceAs (Decidable (List.Pairwise _ _))

/-- No other thread publishes between a check and the publication that rests on it:
`http_server_stop` not while `http_server_run` is about to publish `running`, and
`http_server_run` not `stopped` while a call of `http_server_stop` is past its wait. -/
def undisturbed (s : System) : ServerAction → Bool
  | .stopSet => s.pc != .publishing true
  | .stopped => s.stoppers == 0
  | _ => true

/-- No thread is between a check and the publication that rests on it. -/
structure System.Settled (s : System) : Prop where
  run : s.pc ≠ .publishing true
  stop : s.stoppers = 0

/-! ## What a step does to the lifecycle -/

theorem published_append (log es : List ServerEvent) :
    published (log ++ es) = published log ++ published es := List.filterMap_append ..

theorem published_map_slot (i : Nat) (es : List SlotEvent) :
    published (es.map (ServerEvent.slot i)) = [] := by
  rw [published, List.filterMap_map]
  exact List.filterMap_eq_nil_iff.mpr fun _ _ => rfl

theorem InOrder.append_singleton {states : List ServerState} {state : ServerState} :
    InOrder (states ++ [state]) ↔ InOrder states ∧ ∀ p ∈ states, p.rank ≤ state.rank := by
  simp [InOrder, List.pairwise_append]

/-- The part of a step that the lifecycle sees. -/
inductive LifecycleMove (s : System) (a : ServerAction) (t : System) : List ServerState → Prop
  | aside (hstate : t.state = s.state) (hstop : t.stoppers = s.stoppers)
    (hrun : t.pc = .publishing true ↔ s.pc = .publishing true) (ha : a ≠ .stopSet ∧ a ≠ .stopped) :
    LifecycleMove s a t []
  | check (hstate : t.state = s.state) (hstop : t.stoppers = s.stoppers)
    (hrun : t.pc = .publishing true → s.state = .initialized) (hpc : s.pc = .outside)
    (ha : a ≠ .stopSet ∧ a ≠ .stopped) : LifecycleMove s a t []
  | promote (hstate : t.state = .running) (hstop : t.stoppers = s.stoppers)
    (hpc : s.pc = .publishing true) (hrun : t.pc = .loopTest) (ha : a = .promote) :
    LifecycleMove s a t [.running]
  | wait (hstate : t.state = s.state) (hstop : t.stoppers = s.stoppers + 1) (hrun : t.pc = s.pc)
    (hs : s.state ≠ .stopped) (ha : ∃ timedOut, a = .stopWait timedOut) : LifecycleMove s a t []
  | stop (hstate : t.state = .stopping) (hstop : s.stoppers = t.stoppers + 1) (hrun : t.pc = s.pc)
    (ha : a = .stopSet) : LifecycleMove s a t [.stopping]
  | stopped (hstate : t.state = .stopped) (hstop : t.stoppers = s.stoppers)
    (hpc : s.pc ≠ .publishing true) (hrun : t.pc = .outside) (ha : a = .stopped) :
    LifecycleMove s a t [.stopped]

section

variable {env : ServerEnv} {slotCount : Nat} {s t : System} {a : ServerAction}
  {log es : List ServerEvent}

/-- A step at a slot leaves the loop thread between check and publication where it is. -/
theorem System.turn_publishing {i : Nat} {a : SlotAction} {f : Focus} {pc : LoopPc}
    (h : s.turn slotCount i a f = some pc) :
    pc = .publishing true ↔ s.pc = .publishing true := by
  have hafter : (if f = .away then LoopPc.dispatch else .callback i) ≠ .publishing true := by
    split_ifs <;> simp
  unfold System.turn at h
  generalize (if f = .away then LoopPc.dispatch else .callback i) = after at h hafter
  split at h
  case h_1 => rw [Option.some.inj h]
  all_goals try split_ifs at h
  -- elsewhere the loop thread moves between two places that are not the publication
  all_goals first
    | (obtain rfl := Option.some.inj h; simp [*])
    | cases h

theorem serverStep_move (h : serverStep env slotCount s a = some (t, es)) :
    LifecycleMove s a t (published es) := by
  cases a with
  | slot i b r =>
    simp only [serverStep, System.slotStep] at h
    split_ifs at h with hi
    split at h
    · simp at h
    · next v es' hstep =>
      split at h
      · simp at h
      · next pc hturn =>
        simp only [Option.some.injEq, Prod.mk.injEq] at h
        obtain ⟨ht, rfl⟩ := h
        have hpc := System.turn_publishing hturn
        rw [published_map_slot]
        refine .aside ?_ ?_ ?_ ⟨by simp, by simp⟩ <;> rw [← ht] <;> split_ifs <;>
          first | rfl | exact hpc
  | run listenSd =>
    simp only [serverStep] at h
    split_ifs at h with hs
    cases listenSd with
    | none =>
      cases h
      exact .aside rfl rfl Iff.rfl ⟨by simp, by simp⟩
    | some listenSd =>
      cases h
      exact .check rfl rfl (fun hpc => by simpa using hpc) hs.1 ⟨by simp, by simp⟩
  | promote =>
    simp only [serverStep, System.publish] at h
    split at h
    · next hpc =>
      cases h
      exact .promote rfl rfl hpc rfl rfl
    · next hpc =>
      cases h
      exact .aside rfl rfl (by simp [hpc]) ⟨by simp, by simp⟩
    · simp at h
  | stopWait timedOut =>
    simp only [serverStep] at h
    split_ifs at h with hwait hstopped
    · cases h
      exact .aside rfl rfl Iff.rfl ⟨by simp, by simp⟩
    · cases h
      exact .wait rfl rfl rfl hstopped ⟨timedOut, rfl⟩
  | stopSet =>
    simp only [serverStep, System.publish] at h
    split_ifs at h with hpos
    cases h
    exact .stop rfl (Nat.sub_add_cancel hpos).symm rfl rfl
  | stopped =>
    simp only [serverStep, System.publish] at h
    split_ifs at h with hpc
    cases h
    exact .stopped rfl rfl (by simp [hpc]) rfl rfl
  | test | busy | iterated ok | nextPass now | skipReclaim =>
    simp only [serverStep] at h
    repeat' split at h
    all_goals cases h
    all_goals refine .aside rfl rfl ?_ ⟨by simp, by simp⟩
    all_goals simp [*]

/-! ## Undisturbed runs -/

/-- What holds while no publication is disturbed: the state that a check has seen is still
there. -/
structure Orderly (states : List ServerState) (s : System) : Prop where
  inOrder : InOrder states
  le_state : ∀ p ∈ states, p.rank ≤ s.state.rank
  run : s.pc = .publishing true → s.state = .initialized
  stop : 0 < s.stoppers → s.state ≠ .stopped

theorem Orderly.publish {states : List ServerState} {state : ServerState} (h : InOrder states)
    (hle : ∀ p ∈ states, p.rank ≤ state.rank) (hstate : t.state = state)
    (hrun : t.pc ≠ .publishing true) (hstop : 0 < t.stoppers → t.state ≠ .stopped) :
    Orderly (states ++ [state]) t where
  inOrder := InOrder.append_singleton.mpr ⟨h, hle⟩
  le_state p hp := by
    rw [hstate]
    rcases List.mem_append.mp hp with hp | hp
    · exact hle p hp
    · rw [List.mem_singleton.mp hp]
  run hpc := absurd hpc hrun
  stop := hstop

theorem Orderly.step {states new : List ServerState} (h : Orderly states s)
    (hmove : LifecycleMove s a t new) (htest : undisturbed s a = true) :
    Orderly (states ++ new) t := by
  cases hmove with
  | aside hstate hstop hrun ha =>
    rw [List.append_nil]
    exact ⟨h.inOrder, hstate ▸ h.le_state, fun hpc => hstate.trans (h.run (hrun.mp hpc)),
      fun hpos => by rw [hstate]; exact h.stop (hstop ▸ hpos)⟩
  | check hstate hstop hrun hpc ha =>
    rw [List.append_nil]
    exact ⟨h.inOrder, hstate ▸ h.le_state, fun hpc => hstate.trans (hrun hpc),
      fun hpos => by rw [hstate]; exact h.stop (hstop ▸ hpos)⟩
  | promote hstate hstop hpc hrun ha =>
    have hinit := h.run hpc
    refine .publish h.inOrder (fun p hp => ?_) hstate (by simp [hrun]) fun _ => by simp [hstate]
    have hle := h.le_state p hp
    rw [hinit] at hle
    exact hle.trans (Nat.zero_le _)
  | wait hstate hstop hrun hs ha =>
    rw [List.append_nil]
    exact ⟨h.inOrder, hstate ▸ h.le_state, fun hpc => hstate.trans (h.run (hrun ▸ hpc)),
      fun _ => by rw [hstate]; exact hs⟩
  | stop hstate hstop hrun ha =>
    subst ha
    have hpc : s.pc ≠ .publishing true := by simpa [undisturbed] using htest
    have hs : s.state ≠ .stopped := h.stop (by omega)
    refine .publish h.inOrder (fun p hp => (h.le_state p hp).trans ?_) hstate (hrun ▸ hpc)
      fun _ => by simp [hstate]
    cases hstate' : s.state <;> simp_all [ServerState.rank]
  | stopped hstate hstop hpc hrun ha =>
    subst ha
    have hzero : s.stoppers = 0 := by simpa [undisturbed] using htest
    refine .publish h.inOrder (fun p hp => ?_) hstate (by simp [hrun]) fun hpos => by omega
    cases p <;> decide

/-! ## Disturbed runs -/

/-- A publication out of order has happened, or a thread is about to make one. -/
inductive Doomed (states : List ServerState) (s : System) : Prop
  | past (h : ¬ InOrder states)
  | run (hpc : s.pc = .publishing true) (h : .stopping ∈ states)
  | stop (hpos : 0 < s.stoppers) (h : .stopped ∈ states)

/-- A publication that has already been overtaken. -/
theorem not_inOrder {states : List ServerState} {later earlier : ServerState}
    (h : later ∈ states) (hlt : earlier.rank < later.rank) : ¬ InOrder (states ++ [earlier]) :=
  fun hin => absurd ((InOrder.append_singleton.mp hin).2 _ h) (Nat.not_le.mpr hlt)

theorem Doomed.step {states new : List ServerState} (h : Doomed states s)
    (hmove : LifecycleMove s a t new) : Doomed (states ++ new) t := by
  cases h with
  | past h => exact .past fun hin => h (List.pairwise_append.mp hin).1
  | run hpc h =>
    cases hmove with
    | aside _ _ hrun _ => exact .run (hrun.mpr hpc) (List.mem_append_left _ h)
    | check _ _ _ hout _ => simp [hpc] at hout
    | promote _ _ _ _ _ => exact .past (not_inOrder h (by decide))
    | wait _ _ hrun _ _ => exact .run (hrun.trans hpc) (List.mem_append_left _ h)
    | stop _ _ hrun _ => exact .run (hrun.trans hpc) (List.mem_append_left _ h)
    | stopped _ _ hne _ _ => exact absurd hpc hne
  | stop hpos h =>
    cases hmove with
    | aside _ hstop _ _ => exact .stop (hstop ▸ hpos) (List.mem_append_left _ h)
    | check _ hstop _ _ _ => exact .stop (hstop ▸ hpos) (List.mem_append_left _ h)
    | promote _ hstop _ _ _ => exact .stop (hstop ▸ hpos) (List.mem_append_left _ h)
    | wait _ hstop _ _ _ => exact .stop (by omega) (List.mem_append_left _ h)
    | stop _ _ _ _ => exact .past (not_inOrder h (by decide))
    | stopped _ hstop _ _ _ => exact .stop (hstop ▸ hpos) (List.mem_append_left _ h)

/-- A disturbed publication dooms the run. -/
theorem doomed_of_disturbed {states new : List ServerState} (hmove : LifecycleMove s a t new)
    (htest : undisturbed s a = false) : Doomed (states ++ new) t := by
  cases hmove with
  | aside _ _ _ ha | check _ _ _ _ ha =>
    cases a <;> simp [undisturbed] at htest ha
  | promote _ _ _ _ ha => simp [ha, undisturbed] at htest
  | wait _ _ _ _ ha =>
    obtain ⟨timedOut, rfl⟩ := ha
    simp [undisturbed] at htest
  | stop _ _ hrun ha =>
    subst ha
    have hpc : s.pc = .publishing true := by simpa [undisturbed] using htest
    exact .run (hrun.trans hpc) (by simp)
  | stopped _ hstop _ _ ha =>
    subst ha
    have hpos : s.stoppers ≠ 0 := by simpa [undisturbed] using htest
    exact .stop (by omega) (by simp)

variable (env slotCount)

/-- The server without the steps that publish between another thread's check and publication. -/
def undisturbedMachine : Machine System ServerAction ServerEvent :=
  (serverMachine env slotCount).restrict undisturbed

variable {env slotCount}

theorem undisturbedRun_orderly (run : Run (undisturbedMachine env slotCount) log s) :
    Orderly (published log) s := by
  refine run.invariant (I := fun log s => Orderly (published log) s) (fun s hs => ?_)
    fun log s a t es _ hI h => ?_
  · obtain ⟨-, hpc, hstate, -, hstop⟩ := hs
    exact ⟨.nil, by simp [published], fun _ => hstate, fun hpos => by omega⟩
  · obtain ⟨htest, hstep⟩ := Machine.restrict_step.mp h
    rw [published_append]
    exact hI.step (serverStep_move hstep) htest

theorem run_undisturbed_or_doomed (run : Run (serverMachine env slotCount) log s) :
    Run (undisturbedMachine env slotCount) log s ∨ Doomed (published log) s := by
  induction run with
  | start h => exact .inl (.start h)
  | @next log es s t a run h ih =>
    have hmove := serverStep_move h
    rw [published_append]
    rcases ih with hrun | hdoomed
    · by_cases htest : undisturbed s a = true
      · exact .inl (.next hrun (Machine.restrict_step.mpr ⟨htest, h⟩))
      · exact .inr (doomed_of_disturbed hmove (Bool.not_eq_true _ ▸ htest))
    · exact .inr (hdoomed.step hmove)

/-- In a run where no publication is disturbed the published states never go back, and a run
that has settled with its states in order was one. -/
theorem published_inOrder_iff (run : Run (serverMachine env slotCount) log s) :
    (Run (undisturbedMachine env slotCount) log s → InOrder (published log)) ∧
    (s.Settled →
      (InOrder (published log) ↔ Run (undisturbedMachine env slotCount) log s)) := by
  have hsound : Run (undisturbedMachine env slotCount) log s → InOrder (published log) :=
    fun hrun => (undisturbedRun_orderly hrun).inOrder
  refine ⟨hsound, fun hsettled => ⟨fun hin => ?_, hsound⟩⟩
  rcases run_undisturbed_or_doomed run with hrun | hdoomed
  · exact hrun
  · cases hdoomed with
    | past h => exact absurd hin h
    | run hpc _ => exact absurd hpc hsettled.run
    | stop hpos _ => exact absurd hsettled.stop (by omega)

end

/-- The server is started, stopped, and comes to its end. -/
theorem published_inOrder_stopping :
    let as : List ServerAction := [.run (some 3), .promote, .test, .stopWait false, .stopSet,
      .iterated false, .slot 0 .teardown true, .stopped]
    let log := (serverMachine smallServer 1).log smallSystem as
    published log = [.running, .stopping, .stopped] ∧ ∃ s, s.Settled ∧
      Run (serverMachine smallServer 1) log s ∧
      (InOrder (published log) ↔ Run (undisturbedMachine smallServer 1) log s) := by
  intro as log
  obtain ⟨s, hexec, hrun⟩ :=
    run_of_execute as smallSystem_initial (M := serverMachine smallServer 1)
    (by decide +kernel)
  have hend : ((serverMachine smallServer 1).execute smallSystem as).map
      (fun r => (r.1.pc, r.1.stoppers)) = some (.outside, 0) := by decide +kernel
  rw [hexec] at hend
  obtain ⟨hpc, hstop⟩ := Prod.mk.inj (Option.some.inj hend)
  dsimp only at hpc hstop
  have hsettled : s.Settled := ⟨by simp [hpc], hstop⟩
  exact ⟨by decide +kernel, s, hsettled, hrun, (published_inOrder_iff hrun).2 hsettled⟩

/-- A stop whose wait times out while the server is starting is forgotten. -/
theorem published_running_after_stopping :
    ¬ ∀ (log : List ServerEvent) (s : System), Run (serverMachine smallServer 1) log s →
      InOrder (published log) := by
  intro h
  obtain ⟨s, -, hrun⟩ := run_of_execute [.run (some 3), .stopWait true, .stopSet, .promote]
    smallSystem_initial (M := serverMachine smallServer 1) (by decide +kernel)
  exact absurd (h _ s hrun) (by decide +kernel)

end HttpC
