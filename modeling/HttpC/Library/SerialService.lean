import HttpC.Library.Refinement
import Mathlib.Data.List.Infix

/-!
# A serial service

A service answers the requests of a client one at a time: the answer to a request is written whole
before the next request is taken. An answer becomes known part by part, each part when the ones
before it have been written. A service may also refuse the client, which is its last answer.

## Main results

* `Service.wire_isPrefix` — the wire carries the answers in order, and nothing else.
* `Service.length_answers_le` — no request is answered twice, and none before it is taken.
-/

namespace Serial

open Transition

/-- Whose turn it is on a connection. -/
inductive Turn (β : Type*) where
  | client
  | server
  /-- An answer is written: what is known of it, and what has been written. -/
  | answer (due sent : List β) (refusal : Bool)
  /-- The client has been refused. -/
  | closed
  deriving DecidableEq, Repr

namespace Turn

variable {β : Type*}

def due : Turn β → List β
  | answer due _ _ => due
  | _ => []

def sent : Turn β → List β
  | answer _ sent _ => sent
  | _ => []

/-- Whether the client is refused. -/
def refusal : Turn β → Bool
  | answer _ _ refusal => refusal
  | closed => true
  | _ => false

/-- Whether an answer is written. -/
def answering : Turn β → Bool
  | answer _ _ _ => true
  | _ => false

/-- Requests that are taken and not yet answered. -/
def taken : Turn β → Nat
  | server | answer _ _ false => 1
  | _ => 0

/-- Refusals that are written. -/
def refused : Turn β → Nat
  | closed => 1
  | _ => 0

theorem eq_answer {t : Turn β} (h : t.answering = true) : t = .answer t.due t.sent t.refusal := by
  cases t <;> simp_all [answering, due, sent, refusal]

end Turn

/-- One connection of a service, as its client sees it. -/
structure Service (ρ β : Type*) where
  connected : Bool
  requests : List ρ
  /-- The answers that have been written whole. -/
  answers : List (List β)
  turn : Turn β
  wire : List β
  wire_eq : wire = answers.flatten ++ turn.sent
  sent_prefix : turn.sent <+: turn.due
  counted : answers.length + turn.taken = requests.length + turn.refused

inductive Event (ρ β : Type*) where
  | connect
  | request (r : ρ)
  | answer (part : List β) (refusal : Bool)
  /-- More of the answer becomes known. -/
  | extend (part : List β)
  | send (part : List β)
  /-- The answer has been written. -/
  | complete
  | hangUp
  deriving DecidableEq, Repr

namespace Event

variable {ρ β : Type*}

/-- The requests of a connection, with an event. -/
def requests (rs : List ρ) : Event ρ β → List ρ
  | connect => []
  | request r => rs ++ [r]
  | _ => rs

/-- The wire of a connection, with an event. -/
def wire (l : List β) : Event ρ β → List β
  | connect => []
  | send part => l ++ part
  | _ => l

end Event

namespace Service

variable {ρ β : Type*}

def fresh (connected : Bool) : Service ρ β where
  connected
  requests := []
  answers := []
  turn := .client
  wire := []
  wire_eq := rfl
  sent_prefix := List.prefix_rfl
  counted := rfl

def request (s : Service ρ β) (h : s.turn = .client) (r : ρ) : Service ρ β where
  connected := s.connected
  requests := s.requests ++ [r]
  answers := s.answers
  turn := .server
  wire := s.wire
  wire_eq := by simpa [h, Turn.sent] using s.wire_eq
  sent_prefix := List.prefix_rfl
  counted := by simpa [h, Turn.taken, Turn.refused] using s.counted

def answer (s : Service ρ β) (part : List β) (refusal : Bool)
    (h : s.turn = if refusal then .client else .server) : Service ρ β where
  connected := s.connected
  requests := s.requests
  answers := s.answers
  turn := .answer part [] refusal
  wire := s.wire
  wire_eq := by cases refusal <;> simpa [h, Turn.sent] using s.wire_eq
  sent_prefix := List.nil_prefix
  counted := by cases refusal <;> simpa [h, Turn.taken, Turn.refused] using s.counted

section

variable (s : Service ρ β) (h : s.turn.answering = true)

include h

theorem turn_eq : s.turn = .answer s.turn.due s.turn.sent s.turn.refusal := Turn.eq_answer h

/-- The count while an answer is written, or when it has been. -/
theorem counted_answer : s.answers.length + (if s.turn.refusal then 0 else 1) =
    s.requests.length := by
  have hcounted := s.counted
  rw [s.turn_eq h] at hcounted
  cases hr : s.turn.refusal <;> simpa [hr, Turn.taken, Turn.refused] using hcounted

end

/-- The answer that is written, with more of it known or sent. -/
def proceed (s : Service ρ β) (h : s.turn.answering = true) (due part : List β)
    (hpart : s.turn.sent ++ part <+: due) : Service ρ β where
  connected := s.connected
  requests := s.requests
  answers := s.answers
  turn := .answer due (s.turn.sent ++ part) s.turn.refusal
  wire := s.wire ++ part
  wire_eq := by simp [s.wire_eq, Turn.sent]
  sent_prefix := hpart
  counted := by
    have hcounted := s.counted_answer h
    cases hr : s.turn.refusal <;> simpa [hr, Turn.taken, Turn.refused] using hcounted

def complete (s : Service ρ β) (h : s.turn.answering = true) (hall : s.turn.sent = s.turn.due) :
    Service ρ β where
  connected := s.connected
  requests := s.requests
  answers := s.answers ++ [s.turn.due]
  turn := if s.turn.refusal then .closed else .client
  wire := s.wire
  wire_eq := by
    rw [s.wire_eq, hall]
    cases s.turn.refusal <;> simp [Turn.sent]
  sent_prefix := by cases s.turn.refusal <;> exact List.prefix_rfl
  counted := by
    have hcounted := s.counted_answer h
    cases hr : s.turn.refusal <;> simp [hr, Turn.taken, Turn.refused] at hcounted ⊢ <;> omega

theorem refusal_complete (s : Service ρ β) (h : s.turn.answering = true)
    (hall : s.turn.sent = s.turn.due) : (s.complete h hall).turn.refusal = s.turn.refusal := by
  change (if s.turn.refusal then Turn.closed else .client).refusal = s.turn.refusal
  cases s.turn.refusal <;> rfl

def hangUp (s : Service ρ β) : Service ρ β := { s with connected := false }

section

variable [DecidableEq β]

/-- What a service may do next. -/
def next (s : Service ρ β) : Event ρ β → Option (Service ρ β)
  | .connect => if s.connected then none else some (fresh true)
  | .request r => if h : s.connected = true ∧ s.turn = .client then some (s.request h.2 r) else none
  | .answer part refusal =>
    if h : s.connected = true ∧ s.turn = (if refusal then .client else .server) then
      some (s.answer part refusal h.2)
    else none
  | .extend part =>
    if h : s.connected = true ∧ s.turn.answering = true ∧ s.turn.sent = s.turn.due then
      some (s.proceed h.2.1 (s.turn.due ++ part) [] (by simp [h.2.2]))
    else none
  | .send part =>
    if h : s.connected = true ∧ s.turn.answering = true ∧ s.turn.sent ++ part <+: s.turn.due then
      some (s.proceed h.2.1 s.turn.due part h.2.2)
    else none
  | .complete =>
    if h : s.connected = true ∧ s.turn.answering = true ∧ s.turn.sent = s.turn.due then
      some (s.complete h.2.1 h.2.2)
    else none
  | .hangUp => some s.hangUp

variable {s s' : Service ρ β} {es : List (Event ρ β)}

theorem next_eq {e : Event ρ β} (h : s.next e = some s') :
    s'.requests = e.requests s.requests ∧ s'.wire = e.wire s.wire := by
  cases e with
  | hangUp =>
    obtain rfl := Option.some.inj h
    exact ⟨rfl, rfl⟩
  | connect =>
    obtain ⟨-, h⟩ := Option.ite_none_left_eq_some.mp h
    obtain rfl := Option.some.inj h
    exact ⟨rfl, rfl⟩
  | extend part =>
    obtain ⟨_, h⟩ := Option.dite_none_right_eq_some.mp h
    obtain rfl := Option.some.inj h
    exact ⟨rfl, List.append_nil _⟩
  | _ =>
    obtain ⟨_, h⟩ := Option.dite_none_right_eq_some.mp h
    obtain rfl := Option.some.inj h
    exact ⟨rfl, rfl⟩

/-- The requests and the wire are those of the last connection. -/
theorem takes_eq (h : Takes next s es s') :
    s'.requests = es.foldl Event.requests s.requests ∧ s'.wire = es.foldl Event.wire s.wire := by
  induction h with
  | nil => exact ⟨rfl, rfl⟩
  | cons hstep _ ih =>
    obtain ⟨hrequests, hwire⟩ := next_eq hstep
    exact ⟨ih.1.trans (by rw [hrequests]; rfl), ih.2.trans (by rw [hwire]; rfl)⟩

/-- The answers are those of the list, the last one as far as it is known. -/
def Gives (s : Service ρ β) (replies : List (List β)) : Prop :=
  s.answers <+: replies ∧ s.turn.due <+: replies.getD s.answers.length []

/-- Within a connection, answers are only added to. -/
theorem Gives.of_next {replies : List (List β)} {e : Event ρ β} (hgives : s'.Gives replies)
    (h : s.next e = some s') (he : e ≠ .connect) : s.Gives replies := by
  obtain ⟨hanswers, hdue⟩ := hgives
  cases e with
  | connect => exact absurd rfl he
  | hangUp =>
    obtain rfl := Option.some.inj h
    exact ⟨hanswers, hdue⟩
  | request r =>
    obtain ⟨hpre, h⟩ := Option.dite_none_right_eq_some.mp h
    obtain rfl := Option.some.inj h
    exact ⟨hanswers, by simp [hpre.2, Turn.due]⟩
  | answer part refusal =>
    obtain ⟨hpre, h⟩ := Option.dite_none_right_eq_some.mp h
    obtain rfl := Option.some.inj h
    exact ⟨hanswers, by cases refusal <;> simp [hpre.2, Turn.due]⟩
  | extend part =>
    obtain ⟨hpre, h⟩ := Option.dite_none_right_eq_some.mp h
    obtain rfl := Option.some.inj h
    exact ⟨hanswers, (List.prefix_append _ _).trans hdue⟩
  | send part =>
    obtain ⟨hpre, h⟩ := Option.dite_none_right_eq_some.mp h
    obtain rfl := Option.some.inj h
    exact ⟨hanswers, hdue⟩
  | complete =>
    obtain ⟨hpre, h⟩ := Option.dite_none_right_eq_some.mp h
    obtain rfl := Option.some.inj h
    obtain ⟨rest, rfl⟩ := hanswers
    refine ⟨?_, ?_⟩
    · simp only [complete, List.append_assoc]
      exact List.prefix_append _ _
    · simp [complete]

/-- The service as a machine that is driven by what its client sees. -/
def machine (ρ β : Type*) [DecidableEq β] : Machine (Service ρ β) (Event ρ β) (Event ρ β) :=
  labelled (· = fresh false) next

end

/-- The answers so far, with the one that is written. -/
def written (s : Service ρ β) : List β := s.answers.flatten ++ s.turn.due

/-- The wire carries the answers in order, and nothing else. -/
theorem wire_isPrefix (s : Service ρ β) : s.wire <+: s.written := by
  rw [s.wire_eq]
  exact (List.prefix_append_right_inj _).mpr s.sent_prefix

/-- No request is answered twice, and none before it is taken. -/
theorem length_answers_le (s : Service ρ β) : s.answers.length ≤ s.requests.length + 1 := by
  have hcounted := s.counted
  cases ht : s.turn <;> simp [ht, Turn.refused] at hcounted <;> omega

end Service

end Serial
