import HttpC.Library.Transition

/-!
# Refinement

One machine refines another if each of its steps is a sequence of steps of the other one, under a
relation between their states. What it logs is read as events of the other machine, and some
events may be granted by the environment only.

## Main results

* `Run.refine` — a run of the one machine is a run of the other.
* `Run.takes` — with the events as actions, the log alone says where the other machine is.
-/

namespace Transition

variable {σ α ε τ β δ : Type*}

/-- Every step of `M` is some steps of `N`. -/
structure Refinement (M : Machine σ α ε) (N : Machine τ β δ) where
  Rel : σ → τ → Prop
  /-- What an event of `M` is to `N`. -/
  read : ε → Option δ
  /-- What the environment grants of an event. -/
  Granted : ε → Prop
  initial : ∀ s, M.Initial s → ∃ t, N.Initial t ∧ Rel s t
  step : ∀ s t a s' es, Rel s t → M.step s a = some (s', es) → (∀ e ∈ es, Granted e) →
    ∃ bs t', N.execute t bs = some (t', es.filterMap read) ∧ Rel s' t'

theorem Run.refine {M : Machine σ α ε} {N : Machine τ β δ} (r : Refinement M N) {log : List ε}
    {s : σ} (run : Run M log s) (hlog : ∀ e ∈ log, r.Granted e) :
    ∃ t, Run N (log.filterMap r.read) t ∧ r.Rel s t := by
  induction run with
  | start h =>
    obtain ⟨t, ht, hrel⟩ := r.initial _ h
    exact ⟨t, .start ht, hrel⟩
  | @next log es s s' a run h ih =>
    obtain ⟨t, hrun, hrel⟩ := ih fun e he => hlog e (List.mem_append_left _ he)
    obtain ⟨bs, t', hexec, hrel'⟩ := r.step _ _ _ _ _ hrel h
      fun e he => hlog e (List.mem_append_right _ he)
    rw [List.filterMap_append]
    exact ⟨t', hrun.execute hexec, hrel'⟩

/-! ## Machines that are driven by their events -/

/-- A machine whose actions are its events. -/
def labelled (Initial : τ → Prop) (next : τ → δ → Option τ) : Machine τ δ δ where
  Initial := Initial
  step t e := (next t e).map fun t' => (t', [e])

/-- These events lead from one state to the other. -/
inductive Takes (next : τ → δ → Option τ) : τ → List δ → τ → Prop
  | nil {t : τ} : Takes next t [] t
  | cons {t t' t'' : τ} {e : δ} {es : List δ} (h : next t e = some t')
    (hes : Takes next t' es t'') : Takes next t (e :: es) t''

namespace Takes

variable {next : τ → δ → Option τ} {t t' t'' : τ} {es fs : List δ}

theorem single {e : δ} (h : next t e = some t') : Takes next t [e] t' := .cons h .nil

theorem append (h : Takes next t es t') (h' : Takes next t' fs t'') :
    Takes next t (es ++ fs) t'' := by
  induction h with
  | nil => exact h'
  | cons hstep _ ih => exact .cons hstep (ih h')

theorem split (h : Takes next t (es ++ fs) t'') :
    ∃ t', Takes next t es t' ∧ Takes next t' fs t'' := by
  induction es generalizing t with
  | nil => exact ⟨t, .nil, h⟩
  | cons e es ih =>
    cases h with
    | cons hstep hes =>
      obtain ⟨t', hes, hfs⟩ := ih hes
      exact ⟨t', .cons hstep hes, hfs⟩

theorem execute {Initial : τ → Prop} (h : Takes next t es t') :
    (labelled Initial next).execute t es = some (t', es) := by
  induction h with
  | nil => rfl
  | cons hstep _ ih => simp [Machine.execute, labelled, hstep, ← ih]

end Takes

/-- In a machine that is driven by its events, the log leads to the state. -/
theorem Run.takes {Initial : τ → Prop} {next : τ → δ → Option τ} {log : List δ} {t : τ}
    (run : Run (labelled Initial next) log t) : ∃ t₀, Initial t₀ ∧ Takes next t₀ log t := by
  induction run with
  | start h => exact ⟨_, h, .nil⟩
  | next run h ih =>
    obtain ⟨t₀, ht₀, htakes⟩ := ih
    obtain ⟨t', hnext, heq⟩ := Option.map_eq_some_iff.mp h
    obtain ⟨rfl, rfl⟩ := Prod.mk.inj heq
    exact ⟨t₀, ht₀, htakes.append (.single hnext)⟩

end Transition
