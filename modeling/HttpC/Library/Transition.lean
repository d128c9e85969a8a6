import Mathlib.Data.List.Induction
import Mathlib.Tactic.Common

/-!
# Machines, runs and monitors

A machine steps on actions and logs events. A run is a log together with the state it
leads to. A monitor reads a log and says of each event whether it may stand there.

## Main results

* `Run.invariant` — what holds at the start and is kept by every step holds always.
* `Run.accepts` — an invariant that makes every step's events acceptable to a monitor.
* `Run.project` — a run seen through a projection is a run.
* `Machine.leads_of_rank` — a machine that can always come nearer gets there.
* `Run.of_traced` — the log of a run with its actions is the log of a run.
* `run_of_execute` — executing a list of actions gives a run.
-/

namespace Transition

variable {σ α ε : Type*}

structure Machine (σ α ε : Type*) where
  Initial : σ → Prop
  step : σ → α → Option (σ × List ε)

/-- The logs of a machine and the states they lead to. -/
inductive Run (M : Machine σ α ε) : List ε → σ → Prop
  | start {s : σ} (h : M.Initial s) : Run M [] s
  | next {log es : List ε} {s t : σ} {a : α} (run : Run M log s) (h : M.step s a = some (t, es)) :
    Run M (log ++ es) t

theorem Run.invariant {M : Machine σ α ε} {I : List ε → σ → Prop} {log : List ε} {s : σ}
    (run : Run M log s) (hstart : ∀ s, M.Initial s → I [] s)
    (hnext : ∀ log s a t es, Run M log s → I log s → M.step s a = some (t, es) →
      I (log ++ es) t) : I log s := by
  induction run with
  | start h => exact hstart _ h
  | next run h ih => exact hnext _ _ _ _ _ run ih h

/-- The state after a list of actions, with what they logged. -/
def Machine.execute (M : Machine σ α ε) (s : σ) : List α → Option (σ × List ε)
  | [] => some (s, [])
  | a :: as =>
    match M.step s a with
    | none => none
    | some (t, es) => (M.execute t as).map fun r => (r.1, es ++ r.2)

/-- Actions, and then more actions. -/
theorem Machine.execute_append {M : Machine σ α ε} {s t u : σ} {as bs : List α} {es fs : List ε}
    (h : M.execute s as = some (t, es)) (h' : M.execute t bs = some (u, fs)) :
    M.execute s (as ++ bs) = some (u, es ++ fs) := by
  induction as generalizing s es with
  | nil =>
    simp only [Machine.execute, Option.some.injEq, Prod.mk.injEq] at h
    obtain ⟨rfl, rfl⟩ := h
    exact h'
  | cons a as ih =>
    simp only [List.cons_append, Machine.execute] at h ⊢
    split at h
    · simp at h
    · next v gs hstep =>
      simp only [Option.map_eq_some_iff, Prod.mk.injEq] at h
      obtain ⟨⟨_, hs⟩, hexec, rfl, rfl⟩ := h
      simp [ih hexec]

@[simp] theorem Machine.execute_singleton (M : Machine σ α ε) (s : σ) (a : α) :
    M.execute s [a] = M.step s a := by
  rw [Machine.execute]
  cases M.step s a with
  | none => rfl
  | some r => simp [Machine.execute]

theorem Run.execute {M : Machine σ α ε} {log es : List ε} {s t : σ} {as : List α}
    (run : Run M log s) (h : M.execute s as = some (t, es)) : Run M (log ++ es) t := by
  induction as generalizing log s es with
  | nil =>
    simp only [Machine.execute, Option.some.injEq, Prod.mk.injEq] at h
    obtain ⟨rfl, rfl⟩ := h
    rwa [List.append_nil]
  | cons a as ih =>
    rw [Machine.execute] at h
    split at h
    · simp at h
    · next u fs hstep =>
      simp only [Option.map_eq_some_iff, Prod.mk.injEq] at h
      obtain ⟨⟨_, gs⟩, hexec, rfl, rfl⟩ := h
      rw [← List.append_assoc]
      exact ih (.next run hstep) hexec

/-- Some actions lead from one state to the other. -/
def Machine.Leads (M : Machine σ α ε) (s t : σ) : Prop := ∃ as es, M.execute s as = some (t, es)

theorem Machine.Leads.refl {M : Machine σ α ε} (s : σ) : M.Leads s s := ⟨[], [], rfl⟩

theorem Machine.Leads.step {M : Machine σ α ε} {s t : σ} {a : α} {es : List ε}
    (h : M.step s a = some (t, es)) : M.Leads s t :=
  ⟨[a], es, (M.execute_singleton s a).trans h⟩

theorem Machine.Leads.trans {M : Machine σ α ε} {s t u : σ} (h : M.Leads s t) (h' : M.Leads t u) :
    M.Leads s u := by
  obtain ⟨_, _, hexec⟩ := h
  obtain ⟨_, _, hexec'⟩ := h'
  exact ⟨_, _, Machine.execute_append hexec hexec'⟩

/-- A machine that can always come nearer gets there. -/
theorem Machine.leads_of_rank {M : Machine σ α ε} {I Done : σ → Prop} (rank : σ → Nat)
    (h : ∀ s, I s → ¬ Done s → ∃ a t es, M.step s a = some (t, es) ∧ I t ∧ rank t < rank s)
    {s : σ} (hs : I s) : ∃ t, M.Leads s t ∧ I t ∧ Done t := by
  induction hn : rank s using Nat.strongRecOn generalizing s with
  | ind n ih =>
    by_cases hdone : Done s
    · exact ⟨s, .refl s, hs, hdone⟩
    · obtain ⟨a, t, es, hstep, ht, hlt⟩ := h s hs hdone
      obtain ⟨u, hleads, hu⟩ := ih (rank t) (hn ▸ hlt) ht rfl
      exact ⟨u, (Machine.Leads.step hstep).trans hleads, hu⟩

/-- What a list of actions logs. -/
def Machine.log (M : Machine σ α ε) (s : σ) (as : List α) : List ε :=
  ((M.execute s as).map Prod.snd).getD []

theorem run_of_execute {M : Machine σ α ε} {s : σ} (as : List α) (hs : M.Initial s)
    (h : (M.execute s as).isSome = true) :
    ∃ t, M.execute s as = some (t, M.log s as) ∧ Run M (M.log s as) t := by
  obtain ⟨⟨t, es⟩, hexec⟩ := Option.isSome_iff_exists.mp h
  rw [Machine.log, hexec]
  exact ⟨t, rfl, (Run.start hs).execute hexec⟩

/-! ## Guarded runs -/

/-- The same machine without the steps that fail a test. -/
def Machine.restrict (M : Machine σ α ε) (test : σ → α → Bool) : Machine σ α ε where
  Initial := M.Initial
  step s a := if test s a then M.step s a else none

theorem Machine.restrict_step {M : Machine σ α ε} {test : σ → α → Bool} {s : σ} {a : α}
    {r : σ × List ε} :
    (M.restrict test).step s a = some r ↔ test s a = true ∧ M.step s a = some r := by
  simp [restrict]

theorem Run.of_restrict {M : Machine σ α ε} {test : σ → α → Bool} {log : List ε} {s : σ}
    (run : Run (M.restrict test) log s) : Run M log s := by
  induction run with
  | start h => exact .start h
  | next _ h ih => exact .next ih (Machine.restrict_step.mp h).2

/-! ## Monitors -/

/-- A reader of event logs with a demand on every event. -/
structure Monitor (μ ε : Type*) where
  start : μ
  record : μ → ε → μ
  Good : μ → ε → Prop

namespace Monitor

variable {μ : Type*} (m : Monitor μ ε)

/-- What the monitor has recorded after a log. -/
def after (log : List ε) : μ := log.foldl m.record m.start

/-- Every event from here on meets the demand. -/
def AcceptsFrom : μ → List ε → Prop
  | _, [] => True
  | r, e :: es => m.Good r e ∧ AcceptsFrom (m.record r e) es

def Accepts (log : List ε) : Prop := m.AcceptsFrom m.start log

@[simp] theorem after_nil : m.after [] = m.start := rfl

@[simp] theorem after_append (log es : List ε) :
    m.after (log ++ es) = es.foldl m.record (m.after log) := List.foldl_append ..

@[simp] theorem accepts_nil : m.Accepts [] := trivial

theorem acceptsFrom_append (r : μ) (log es : List ε) :
    m.AcceptsFrom r (log ++ es) ↔
      m.AcceptsFrom r log ∧ m.AcceptsFrom (log.foldl m.record r) es := by
  induction log generalizing r with
  | nil => simp [AcceptsFrom]
  | cons e log ih => simp only [List.cons_append, AcceptsFrom, List.foldl_cons, ih, and_assoc]

theorem accepts_append (log es : List ε) :
    m.Accepts (log ++ es) ↔ m.Accepts log ∧ m.AcceptsFrom (m.after log) es :=
  acceptsFrom_append ..

/-- Events that are good and change nothing are accepted together. -/
theorem acceptsFrom_of_fixed {m : Monitor μ ε} {r : μ} {es : List ε}
    (h : ∀ e ∈ es, m.Good r e ∧ m.record r e = r) :
    m.AcceptsFrom r es ∧ es.foldl m.record r = r := by
  induction es with
  | nil => exact ⟨trivial, rfl⟩
  | cons e es ih =>
    obtain ⟨hgood, hrecord⟩ := h e List.mem_cons_self
    obtain ⟨haccepts, hfold⟩ := ih fun x hx => h x (List.mem_cons_of_mem _ hx)
    rw [AcceptsFrom, List.foldl_cons, hrecord]
    exact ⟨⟨hgood, haccepts⟩, hfold⟩

/-- Acceptance says of each event that it was good when it was logged. -/
theorem accepts_iff (log : List ε) :
    m.Accepts log ↔ ∀ before e rest, log = before ++ e :: rest → m.Good (m.after before) e := by
  constructor
  · rintro h before e rest rfl
    exact ((m.accepts_append before (e :: rest)).mp h).2.1
  · intro h
    induction log using List.reverseRecOn with
    | nil => trivial
    | append_singleton log e ih =>
      refine (m.accepts_append log [e]).mpr ⟨ih fun before e' rest hlog => ?_, ?_, trivial⟩
      · exact h before e' (rest ++ [e]) (by simp [hlog])
      · exact h log e [] rfl

/-- A monitor that keeps the whole log. -/
def history (good : List ε → ε → Prop) : Monitor (List ε) ε where
  start := []
  record log e := log ++ [e]
  Good := good

@[simp] theorem after_history (good : List ε → ε → Prop) (log : List ε) :
    (history good).after log = log := by
  induction log using List.reverseRecOn with
  | nil => rfl
  | append_singleton log e ih => rw [after_append, ih]; rfl

theorem acceptsFrom_history {good : List ε → ε → Prop} {log es : List ε}
    (h : ∀ before e after, es = before ++ e :: after → good (log ++ before) e) :
    (history good).AcceptsFrom log es := by
  induction es generalizing log with
  | nil => trivial
  | cons e es ih =>
    have hfirst := h [] e es rfl
    rw [List.append_nil] at hfirst
    refine ⟨hfirst, ih fun before x after hes => ?_⟩
    have hrest := h (e :: before) x after (by rw [hes]; rfl)
    rwa [List.append_cons] at hrest

end Monitor

/-- An invariant under which every step logs acceptable events. -/
theorem Run.accepts {M : Machine σ α ε} {log : List ε} {s : σ} {μ : Type*} (m : Monitor μ ε)
    (I : μ → σ → Prop) (run : Run M log s) (hstart : ∀ s, M.Initial s → I m.start s)
    (hnext : ∀ log s a t es, Run M log s → I (m.after log) s → M.step s a = some (t, es) →
      m.AcceptsFrom (m.after log) es ∧ I (es.foldl m.record (m.after log)) t) :
    m.Accepts log ∧ I (m.after log) s := by
  refine run.invariant (I := fun log s => m.Accepts log ∧ I (m.after log) s)
    (fun s hs => ⟨trivial, hstart s hs⟩) fun log s a t es hrun hI h => ?_
  obtain ⟨hacc, hinv⟩ := hnext log s a t es hrun hI.2 h
  exact ⟨(m.accepts_append log es).mpr ⟨hI.1, hacc⟩, by rwa [m.after_append]⟩

/-! ## Projections -/

/-- A part of a machine that moves as a machine of its own, or not at all. -/
structure Projection {σ' α' ε' : Type*} (M : Machine σ α ε) (N : Machine σ' α' ε') where
  view : σ → σ'
  keep : ε → Option ε'
  initial : ∀ s, M.Initial s → N.Initial (view s)
  /-- The part's action in a step of the whole. -/
  act : α → Option α'
  idle : ∀ s a t es, M.step s a = some (t, es) → act a = none →
    view t = view s ∧ es.filterMap keep = []
  move : ∀ s a b t es, M.step s a = some (t, es) → act a = some b →
    N.step (view s) b = some (view t, es.filterMap keep)

theorem Run.project {σ' α' ε' : Type*} {M : Machine σ α ε} {N : Machine σ' α' ε'}
    (p : Projection M N) {log : List ε} {s : σ} (run : Run M log s) :
    Run N (log.filterMap p.keep) (p.view s) := by
  induction run with
  | start h => exact .start (p.initial _ h)
  | @next log es s t a run h ih =>
    rw [List.filterMap_append]
    cases hact : p.act a with
    | none =>
      obtain ⟨hview, hkeep⟩ := p.idle _ _ _ _ h hact
      rw [hview, hkeep, List.append_nil]
      exact ih
    | some b => exact .next ih (p.move _ _ _ _ _ h hact)

/-- A projection of the guarded machines, if the part passes its test where the whole does. -/
def Projection.restrict {σ' α' ε' : Type*} {M : Machine σ α ε} {N : Machine σ' α' ε'}
    (p : Projection M N) (test : σ → α → Bool) (test' : σ' → α' → Bool)
    (h : ∀ s a b, p.act a = some b → test s a = true → test' (p.view s) b = true) :
    Projection (M.restrict test) (N.restrict test') where
  view := p.view
  keep := p.keep
  initial := p.initial
  act := p.act
  idle s a t es hstep := p.idle s a t es (Machine.restrict_step.mp hstep).2
  move s a b t es hstep hact := by
    obtain ⟨htest, hstep⟩ := Machine.restrict_step.mp hstep
    exact Machine.restrict_step.mpr ⟨h s a b hact htest, p.move s a b t es hstep hact⟩

/-! ## Traces -/

/-- The same machine, that logs its actions with what they log. -/
def Machine.traced (M : Machine σ α ε) : Machine σ α (α × List ε) where
  Initial := M.Initial
  step s a := (M.step s a).map fun r => (r.1, [(a, r.2)])

theorem Machine.traced_step {M : Machine σ α ε} {s t : σ} {a : α} {es : List (α × List ε)} :
    M.traced.step s a = some (t, es) ↔ ∃ fs, M.step s a = some (t, fs) ∧ es = [(a, fs)] := by
  constructor
  · intro h
    obtain ⟨⟨_, fs⟩, hstep, hr⟩ := Option.map_eq_some_iff.mp h
    obtain ⟨rfl, rfl⟩ := Prod.mk.inj hr
    exact ⟨fs, hstep, rfl⟩
  · rintro ⟨fs, hstep, rfl⟩
    simp [traced, hstep]

/-- A trace is the trace of a run. -/
theorem Run.of_traced {M : Machine σ α ε} {trace : List (α × List ε)} {s : σ}
    (run : Run M.traced trace s) : Run M (trace.flatMap Prod.snd) s := by
  induction run with
  | start h => exact .start h
  | next _ h ih =>
    obtain ⟨fs, hstep, rfl⟩ := Machine.traced_step.mp h
    rw [List.flatMap_append, List.flatMap_singleton]
    exact ih.next hstep

/-- A part of a machine, with its actions. -/
def Projection.traced {σ' α' ε' : Type*} {M : Machine σ α ε} {N : Machine σ' α' ε'}
    (p : Projection M N) : Projection M.traced N.traced where
  view := p.view
  keep x := (p.act x.1).map fun b => (b, x.2.filterMap p.keep)
  initial := p.initial
  act := p.act
  idle s a t es h hact := by
    obtain ⟨fs, hstep, rfl⟩ := Machine.traced_step.mp h
    exact ⟨(p.idle s a t fs hstep hact).1, by simp [hact]⟩
  move s a b t es h hact := by
    obtain ⟨fs, hstep, rfl⟩ := Machine.traced_step.mp h
    exact Machine.traced_step.mpr ⟨_, p.move s a b t fs hstep hact, by simp [hact]⟩

end Transition
