import Mathlib.Data.List.Basic
import Mathlib.Tactic.Common

/-!
# Frames in a stream

A parser of one frame at the start of a stream, whose result later elements do not change,
repeated along the stream. What is consumed of a prefix is consumed of the stream.

## Main results

* `Consumed.frames_eq` — the frames of a stream are those consumed, then those of the rest.
* `Consumed.append_right` — consumption of a prefix is consumption of the stream.
-/

namespace Framing

variable {α β : Type*}

/-- A frame with its length in the stream. -/
structure Frame (β : Type*) where
  content : β
  length : Nat
  deriving DecidableEq, Repr

structure FrameParser (α β : Type*) where
  first : List α → Option (Frame β)
  length_pos : ∀ {s f}, first s = some f → 0 < f.length
  length_le : ∀ {s f}, first s = some f → f.length ≤ s.length
  stable : ∀ {s f}, first s = some f → ∀ r, first (s ++ r) = some f

namespace FrameParser

variable (F : FrameParser α β)

/-- The frames of a stream, one after the other. -/
def frames (s : List α) : List (Frame β) :=
  match _h : F.first s with
  | none => []
  | some f => f :: frames (s.drop f.length)
termination_by s.length
decreasing_by
  have hpos := F.length_pos _h
  have hle := F.length_le _h
  rw [List.length_drop]
  omega

theorem frames_of_none {s : List α} (h : F.first s = none) : F.frames s = [] := by
  rw [frames]
  split
  · rfl
  · next f hf => simp [h] at hf

theorem frames_of_some {s : List α} {f : Frame β} (h : F.first s = some f) :
    F.frames s = f :: F.frames (s.drop f.length) := by
  rw [frames]
  split
  · next hf => simp [h] at hf
  · next g hg =>
    obtain rfl := Option.some.inj (h.symm.trans hg)
    rfl

/-- These frames stand at the start of the stream, and this follows them. -/
def Consumed : List α → List (Frame β) → List α → Prop
  | s, [], rest => s = rest
  | s, f :: fs, rest => F.first s = some f ∧ Consumed (s.drop f.length) fs rest

variable {F} {s rest : List α} {fs : List (Frame β)}

namespace Consumed

/-- The frames of a stream are those consumed, then those of the rest. -/
theorem frames_eq (h : F.Consumed s fs rest) : F.frames s = fs ++ F.frames rest := by
  induction fs generalizing s with
  | nil => rw [show s = rest from h, List.nil_append]
  | cons f fs ih => rw [F.frames_of_some h.1, ih h.2, List.cons_append]

theorem append_right (h : F.Consumed s fs rest) (r : List α) :
    F.Consumed (s ++ r) fs (rest ++ r) := by
  induction fs generalizing s with
  | nil => exact congrArg (· ++ r) h
  | cons f fs ih =>
    refine ⟨F.stable h.1 r, ?_⟩
    rw [List.drop_append_of_le_length (F.length_le h.1)]
    exact ih h.2

theorem snoc (h : F.Consumed s fs rest) {f : Frame β} (hf : F.first rest = some f) :
    F.Consumed s (fs ++ [f]) (rest.drop f.length) := by
  induction fs generalizing s with
  | nil =>
    obtain rfl : s = rest := h
    exact ⟨hf, rfl⟩
  | cons g fs ih => exact ⟨h.1, ih h.2⟩

/-- So many frames are consumed in one way only. -/
theorem unique {fs' : List (Frame β)} {rest' : List α} (h : F.Consumed s fs rest)
    (h' : F.Consumed s fs' rest') (hlength : fs.length = fs'.length) : rest = rest' := by
  induction fs generalizing s fs' with
  | nil =>
    obtain rfl := List.length_eq_zero_iff.mp hlength.symm
    exact h.symm.trans h'
  | cons f fs ih =>
    cases fs' with
    | nil => cases hlength
    | cons f' fs' =>
      obtain rfl := Option.some.inj (h.1.symm.trans h'.1)
      exact ih h.2 h'.2 (Nat.succ.inj hlength)

end Consumed

end FrameParser

end Framing
