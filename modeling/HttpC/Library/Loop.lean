import Mathlib.Tactic.Common

/-!
# Loops with fuel

A loop body either leaves with a result or goes round again with a new state; it may
itself run out of fuel, which is `none`. `run_total` is the rule for total correctness:
an invariant, a variant and a postcondition give a result within the fuel.

A counted loop needs no fuel; `upTo_inv` is its rule.
-/

namespace Loop

variable {σ ρ : Type*}

/-- One pass of a loop body. -/
inductive Pass (σ ρ : Type*) where
  | done (result : ρ)
  | again (state : σ)
  deriving DecidableEq, Repr

/-- Run the body at most `fuel` times. -/
def run (body : σ → Option (Pass σ ρ)) : Nat → σ → Option ρ
  | 0, _ => none
  | fuel + 1, s =>
    match body s with
    | none => none
    | some (.done r) => some r
    | some (.again t) => run body fuel t

@[simp] theorem run_zero (body : σ → Option (Pass σ ρ)) (s : σ) : run body 0 s = none := rfl

theorem run_done {body : σ → Option (Pass σ ρ)} {s : σ} {r : ρ} (h : body s = some (.done r))
    (n : Nat) : run body (n + 1) s = some r := by simp [run, h]

theorem run_again {body : σ → Option (Pass σ ρ)} {s t : σ} (h : body s = some (.again t))
    (n : Nat) : run body (n + 1) s = run body n t := by simp [run, h]

/-- More fuel does not change a result. -/
theorem run_mono {body : σ → Option (Pass σ ρ)} {n m : Nat} {s : σ} {r : ρ}
    (h : run body n s = some r) (hnm : n ≤ m) : run body m s = some r := by
  induction n generalizing m s with
  | zero => simp at h
  | succ n ih =>
    obtain ⟨m, rfl⟩ : ∃ k, m = k + 1 := ⟨m - 1, by omega⟩
    cases hb : body s with
    | none => simp [run, hb] at h
    | some p =>
      cases p with
      | done r' => rwa [run_done hb] at h ⊢
      | again t =>
        rw [run_again hb] at h ⊢
        exact ih h (by omega)

/-- A pass, with its states and results mapped. -/
def Pass.map {σ' ρ' : Type*} (f : σ → σ') (g : ρ → ρ') : Pass σ ρ → Pass σ' ρ'
  | .done r => .done (g r)
  | .again s => .again (f s)

/-- If the pass leaves, then with such a result. -/
def Pass.Leaves (good : ρ → Prop) : Pass σ ρ → Prop
  | .done r => good r
  | .again _ => True

/-- A loop whose body does the same in an image of the state does the same there, up to a good
result. -/
theorem run_map {σ' ρ' : Type*} {body : σ → Option (Pass σ ρ)} {body' : σ' → Option (Pass σ' ρ')}
    {f : σ → σ'} {g : ρ → ρ'} (good : ρ → Prop)
    (hbody : ∀ s p, body s = some p → p.Leaves good → body' (f s) = some (p.map f g))
    {n m : Nat} (hnm : n ≤ m) {s : σ} {r : ρ} (h : run body n s = some r) (hr : good r) :
    run body' m (f s) = some (g r) := by
  refine run_mono ?_ hnm
  induction n generalizing m s with
  | zero => simp at h
  | succ n ih =>
    cases hb : body s with
    | none => simp [run, hb] at h
    | some p =>
      cases p with
      | done r' =>
        rw [run_done hb, Option.some.injEq] at h
        subst h
        exact run_done (hbody s _ hb hr) n
      | again t =>
        rw [run_again hb] at h
        rw [run_again (hbody s _ hb trivial)]
        exact ih (Nat.le_refl n) h

/-- Total correctness: the body keeps the invariant and lowers the variant, or leaves with
a result that satisfies the postcondition. -/
theorem run_total {body : σ → Option (Pass σ ρ)} (Inv : σ → Prop) (Post : ρ → Prop)
    (variant : σ → Nat)
    (hbody : ∀ s, Inv s → (∃ r, body s = some (.done r) ∧ Post r) ∨
      ∃ t, body s = some (.again t) ∧ Inv t ∧ variant t < variant s)
    {n : Nat} {s : σ} (hs : Inv s) (hn : variant s < n) :
    ∃ r, run body n s = some r ∧ Post r := by
  induction n generalizing s with
  | zero => omega
  | succ n ih =>
    rcases hbody s hs with ⟨r, hr, hpost⟩ | ⟨t, ht, hinv, hlt⟩
    · exact ⟨r, run_done hr n, hpost⟩
    · rw [run_again ht]
      exact ih hinv (by omega)

/-- Partial correctness: whatever the loop returns satisfies the postcondition. -/
theorem run_post {body : σ → Option (Pass σ ρ)} (Inv : σ → Prop) (Post : ρ → Prop)
    (hdone : ∀ s r, Inv s → body s = some (.done r) → Post r)
    (hagain : ∀ s t, Inv s → body s = some (.again t) → Inv t)
    {n : Nat} {s : σ} {r : ρ} (hs : Inv s) (h : run body n s = some r) : Post r := by
  induction n generalizing s with
  | zero => simp at h
  | succ n ih =>
    cases hb : body s with
    | none => simp [run, hb] at h
    | some p =>
      cases p with
      | done r' =>
        rw [run_done hb, Option.some.injEq] at h
        exact h ▸ hdone s r' hs hb
      | again t =>
        rw [run_again hb] at h
        exact ih (hagain s t hs hb) h

/-- Where a pass leads, in a view of states and results. -/
def Pass.view {τ : Type*} (f : σ → τ) (g : ρ → τ) : Pass σ ρ → τ
  | .done r => g r
  | .again s => f s

/-- A reflexive and transitive relation that every pass respects relates what the loop starts with
and what it returns. -/
theorem run_rel {τ : Type*} {R : τ → τ → Prop} (hrefl : ∀ x, R x x)
    (htrans : ∀ {x y z}, R x y → R y z → R x z) {body : σ → Option (Pass σ ρ)} (f : σ → τ)
    (g : ρ → τ) (hbody : ∀ s, ∀ p ∈ body s, R (f s) (p.view f g)) {n : Nat} {s : σ} {r : ρ}
    (h : run body n s = some r) : R (f s) (g r) :=
  run_post (fun t => R (f s) (f t)) (fun r => R (f s) (g r))
    (fun _ _ ht hpass => htrans ht (hbody _ _ hpass))
    (fun _ _ ht hpass => htrans ht (hbody _ _ hpass)) (hrefl _) h

/-! ## Counted loops -/

/-- Run the body with `0`, …, `n - 1`. -/
def upTo (n : Nat) (body : Nat → σ → σ) (s : σ) : σ := (List.range n).foldl (fun s i => body i s) s

@[simp] theorem upTo_zero (body : Nat → σ → σ) (s : σ) : upTo 0 body s = s := rfl

@[simp] theorem upTo_succ (n : Nat) (body : Nat → σ → σ) (s : σ) :
    upTo (n + 1) body s = body n (upTo n body s) := by
  simp [upTo, List.range_succ]

/-- What holds at the start and goes from each pass to the next holds at the end. -/
theorem upTo_inv {n : Nat} {body : Nat → σ → σ} {s : σ} (I : Nat → σ → Prop) (hstart : I 0 s)
    (hnext : ∀ i < n, ∀ t, I i t → I (i + 1) (body i t)) : I n (upTo n body s) := by
  induction n with
  | zero => exact hstart
  | succ n ih =>
    rw [upTo_succ]
    apply hnext n (Nat.lt_succ_self n)
    exact ih fun i hi => hnext i (Nat.lt_succ_of_lt hi)

end Loop
