import HttpC.Connection.ResponseReader
import HttpC.Library.Transition

/-!
# The operations of the body reader

Every loop of `response_body_reader_*` is made up of three operations: receiving into the window,
delivering what is pending, and going past a line. What each of them respects, the loops do.

## Main results

* `Respects.passThrough`, `Respects.chunked`, `Respects.untilClose` — from the operations to the
  loops.
* `Reading.step` — what one operation leaves alone.
-/

namespace HttpC

open Block Transition

/-! ## From the operations to the loops -/

/-- A relation between a reader and what receiving and going past a line make of it. -/
structure Respects (buffer capacity : Nat) (R : BodyReader → BodyReader → Prop) : Prop where
  refl (r : BodyReader) : R r r
  trans {r s t : BodyReader} : R r s → R s t → R r t
  fill {r s : BodyReader} {result : Result} :
    responseBodyReaderFill buffer capacity r = some (result, s) → R r s
  takeLine {r : BodyReader} {n : Nat} : n ≤ r.stop - r.start → R r { r with start := r.start + n }

namespace Respects

section

variable {lib : CommonLib} {buffer capacity : Nat} {R : BodyReader → BodyReader → Prop}
  {r : BodyReader} (h : Respects buffer capacity R)

include h

theorem fillUnlessClosed : ∀ out ∈ fillUnlessClosed buffer capacity r, R r out.2 := by
  intro out hout
  obtain ⟨⟨result, s⟩, hfill, rfl⟩ := Option.map_eq_some_iff.mp hout
  exact h.fill hfill

/-- `if (is_error(r)) return r;` -/
theorem unlessError {σ τ : Type} {f : σ → BodyReader} {g : τ → BodyReader}
    {x : Option (Result × τ)} {next : τ → Option (Loop.Pass σ (Result × τ))}
    (hx : ∀ out ∈ x, R r (g out.2))
    (hnext : ∀ s, ∀ p ∈ next s, R (g s) (p.view f fun out => g out.2)) :
    ∀ p ∈ HttpC.unlessError lib x next, R r (p.view f fun out => g out.2) := by
  intro p hp
  cases x with
  | none => simp [HttpC.unlessError] at hp
  | some out =>
    have hout := hx out rfl
    rw [HttpC.unlessError] at hp
    split_ifs at hp
    · cases hp
      exact hout
    · exact h.trans hout (hnext _ p hp)

theorem readLine : ∀ out ∈ responseBodyReaderReadLine lib buffer capacity r, R r out.2.2 := by
  intro out hout
  refine Loop.run_rel h.refl h.trans Prod.snd (fun out => out.2.2) ?_ hout
  rintro ⟨scanned, s⟩ p hp
  rw [readLinePass] at hp
  cases hfind : (window s.mem (buffer + (s.start + scanned))
      (s.stop - (s.start + scanned))).findIdx? (· == 10) with
  | some i =>
    simp only [hfind] at hp
    have hlt := (List.findIdx?_eq_some_iff_getElem.mp hfind).1
    rw [window, List.length_take] at hlt
    cases hp
    have htake := h.takeLine (r := s) (n := scanned + i + 1) (by omega)
    rwa [show s.start + (scanned + i + 1) = s.start + scanned + i + 1 by omega] at htake
  | none =>
    simp only [hfind] at hp
    refine h.unlessError (g := Prod.snd) (fun out hout => ?_) (fun t p hp => ?_) p hp
    · obtain ⟨out, hfill, rfl⟩ := Option.map_eq_some_iff.mp hout
      exact h.fillUnlessClosed out hfill
    · cases hp
      exact h.refl _

theorem trailers {fuel : Nat} :
    ∀ out ∈ Loop.run (trailerPass lib buffer capacity) fuel r, R r out.2 := by
  intro out hout
  refine Loop.run_rel h.refl h.trans id Prod.snd (fun s p hp => ?_) hout
  rw [trailerPass] at hp
  cases hread : responseBodyReaderReadLine lib buffer capacity s with
  | none => simp [hread] at hp
  | some out =>
    have hline := h.readLine out hread
    simp only [hread] at hp
    split_ifs at hp <;> cases hp <;> exact hline

/-- What comes behind the data of a chunk. -/
theorem closeChunk :
    ∀ p ∈ (match responseBodyReaderReadLine lib buffer capacity r with
      | none => none
      | some (result, line, r) =>
        if lib.isError result then some (.done (result, r))
        else if line.isEmpty then some (.again r)
        else some (.done (.error, r)) : Option (Loop.Pass BodyReader (Result × BodyReader))),
      R r (p.view id Prod.snd) := by
  intro p hp
  cases hread : responseBodyReaderReadLine lib buffer capacity r with
  | none => simp [hread] at hp
  | some out =>
    have hline := h.readLine out hread
    simp only [hread] at hp
    split_ifs at hp <;> cases hp <;> exact hline

variable {bodyHandler : Option BodyHandler}
  (hdeliver : ∀ {r : BodyReader} {n : Nat}, n ≤ r.stop - r.start →
    R r (responseBodyReaderDeliver lib bodyHandler buffer r n).2)

include hdeliver

/-- A piece is delivered, and the loop goes on. -/
theorem passOn (n : Nat) :
    ∀ p ∈ (let available := r.stop - r.start
        let take := if available < n then available else n
        HttpC.unlessError lib (some (responseBodyReaderDeliver lib bodyHandler buffer r take))
          fun r => some (.again (n - take, r)) :
            Option (Loop.Pass (Nat × BodyReader) (Result × BodyReader))),
      R r (p.view Prod.snd Prod.snd) := by
  refine h.unlessError (g := id) (fun out hout => ?_) fun s p hp => ?_
  · cases hout
    refine hdeliver ?_
    split_ifs
    · exact Nat.le_refl _
    · omega
  · cases hp
    exact h.refl _

theorem passThroughPass (n : Nat) :
    ∀ p ∈ HttpC.passThroughPass lib bodyHandler buffer capacity (n, r),
      R r (p.view Prod.snd Prod.snd) := by
  intro p hp
  rw [HttpC.passThroughPass] at hp
  by_cases hzero : n = 0
  · rw [if_pos hzero] at hp
    cases hp
    exact h.refl _
  · rw [if_neg hzero] at hp
    refine h.unlessError (g := id) (fun out hout => ?_) (fun s => h.passOn hdeliver n) p hp
    split_ifs at hout
    · exact h.fillUnlessClosed out hout
    · cases hout
      exact h.refl _

theorem passThrough (n : Nat) :
    ∀ out ∈ responseBodyReaderPassThrough lib bodyHandler buffer capacity r n, R r out.2 := by
  intro out hout
  exact Loop.run_rel h.refl h.trans Prod.snd Prod.snd (fun s => h.passThroughPass hdeliver s.1) hout

theorem chunkedPass :
    ∀ p ∈ HttpC.chunkedPass lib bodyHandler buffer capacity r, R r (p.view id Prod.snd) := by
  intro p hp
  rw [HttpC.chunkedPass] at hp
  cases hread : responseBodyReaderReadLine lib buffer capacity r with
  | none => simp [hread] at hp
  | some out =>
    obtain ⟨result, line, s⟩ := out
    have hline : R r s := h.readLine _ hread
    simp only [hread] at hp
    by_cases herror : lib.isError result = true
    · rw [if_pos herror] at hp
      cases hp
      exact hline
    rw [if_neg herror] at hp
    refine h.trans hline ?_
    cases hparse : parseChunkSize line with
    | none =>
      simp only [hparse] at hp
      cases hp
      exact h.refl _
    | some size =>
      simp only [hparse] at hp
      by_cases hzero : size = 0
      · rw [if_pos hzero, Option.mem_def, Option.map_eq_some_iff] at hp
        obtain ⟨out, hout, rfl⟩ := hp
        exact h.trailers out hout
      · rw [if_neg hzero] at hp
        exact h.unlessError (g := id) (h.passThrough hdeliver size) (fun s => h.closeChunk) p hp

theorem chunked :
    ∀ out ∈ responseBodyReaderChunked lib bodyHandler buffer capacity r, R r out.2 := by
  intro out hout
  exact Loop.run_rel h.refl h.trans id Prod.snd (fun s => h.chunkedPass hdeliver) hout

theorem untilClose :
    ∀ out ∈ responseBodyReaderUntilClose lib bodyHandler buffer capacity r, R r out.2 := by
  intro out hout
  refine Loop.run_rel h.refl h.trans id Prod.snd (fun s p hp => ?_) hout
  rw [untilClosePass] at hp
  refine h.unlessError (g := id) (fun out hout => ?_) (fun t p hp => ?_) p hp
  · split_ifs at hout
    · cases hout
      exact hdeliver (Nat.le_refl _)
    · cases hout
      exact h.refl _
  · cases hfill : responseBodyReaderFill buffer capacity t with
    | none => simp [hfill] at hp
    | some out =>
      have hfilled := h.fill hfill
      simp only [hfill] at hp
      split_ifs at hp <;> cases hp <;> exact hfilled

end

end Respects

/-! ## The operations -/

inductive ReaderOperation where
  | fill
  | deliver (length : Nat)
  | takeLine (length : Nat)
  deriving DecidableEq, Repr

/-- How many pending bytes an operation consumes. -/
def ReaderOperation.consumed : ReaderOperation → Nat
  | .fill => 0
  | .deliver length | .takeLine length => length

/-- A `memmove` in the caller's buffer. -/
structure Copy where
  target : Nat
  source : Nat
  size : Nat
  deriving DecidableEq, Repr

def Copy.perform (mem : Bytes) (c : Copy) : Bytes := move mem c.target c.source c.size

section

variable (lib : CommonLib) (bodyHandler : Option BodyHandler) (buffer capacity : Nat)

/-- The copies that an operation makes. -/
def BodyReader.copies (r : BodyReader) : ReaderOperation → List Copy
  | .fill =>
    if r.start ≠ r.stop ∧ r.stop = capacity ∧ r.storedLength < r.start
      then [⟨buffer + r.storedLength, buffer + r.start, r.stop - r.start⟩] else []
  | .deliver length =>
    if bodyHandler.isNone then [⟨buffer + r.storedLength, buffer + r.start, length⟩] else []
  | .takeLine _ => []

/-- The reader, with its copies as events. It consumes no more than is pending. -/
def readerMachine (opened : BodyReader) : Machine BodyReader ReaderOperation Copy where
  Initial r := r = opened
  step r operation :=
    (match operation with
      | .fill => (responseBodyReaderFill buffer capacity r).map Prod.snd
      | .deliver length =>
        if length ≤ r.stop - r.start then
          some (responseBodyReaderDeliver lib bodyHandler buffer r length).2
        else none
      | .takeLine length =>
        if length ≤ r.stop - r.start then some { r with start := r.start + length } else none).map
      fun s => (s, r.copies bodyHandler buffer capacity operation)

/-- What an operation keeps. All memory up to what is received is as the copies leave it. -/
structure Careful (operation : ReaderOperation) (copies : List Copy) (r s : BodyReader) : Prop where
  down : ∀ c ∈ copies, c.target ≤ c.source
  stored : r.stored buffer <+: s.stored buffer
  moved : ∃ received, s.pending buffer = (r.pending buffer).drop operation.consumed ++ received ∧
    s.mem.take (buffer + (s.stop - received.length)) =
      (copies.foldl Copy.perform r.mem).take (buffer + (s.stop - received.length))

end

section

variable {lib : CommonLib} {bodyHandler : Option BodyHandler} {buffer capacity : Nat}
  {opened r s : BodyReader} {below input : Bytes} {orderly : Bool}

/-- The loops are sequences of operations. -/
theorem respects_leads :
    Respects buffer capacity (readerMachine lib bodyHandler buffer capacity opened).Leads where
  refl := .refl
  trans := .trans
  fill := by
    intro r s result hfill
    have hstep : (readerMachine lib bodyHandler buffer capacity opened).step r .fill =
        some (s, r.copies bodyHandler buffer capacity .fill) := by simp [readerMachine, hfill]
    exact .step hstep
  takeLine := by
    intro r n hn
    have hstep : (readerMachine lib bodyHandler buffer capacity opened).step r (.takeLine n) =
        some ({ r with start := r.start + n }, []) := by simp [readerMachine, hn, BodyReader.copies]
    exact .step hstep

theorem deliver_leads {n : Nat} (hn : n ≤ r.stop - r.start) :
    (readerMachine lib bodyHandler buffer capacity opened).Leads r
      (responseBodyReaderDeliver lib bodyHandler buffer r n).2 := by
  have hstep : (readerMachine lib bodyHandler buffer capacity opened).step r (.deliver n) =
      some ((responseBodyReaderDeliver lib bodyHandler buffer r n).2,
        r.copies bodyHandler buffer capacity (.deliver n)) := by simp [readerMachine, hn]
  exact .step hstep

/-- A full window is compacted by one copy. -/
theorem makeRoom_mem (r : BodyReader) :
    (r.makeRoom buffer capacity).mem =
      (r.copies bodyHandler buffer capacity .fill).foldl Copy.perform r.mem := by
  unfold BodyReader.makeRoom BodyReader.copies
  dsimp only
  by_cases hempty : r.start = r.stop
  · simp [hempty]
  · simp only [hempty, if_false, ne_eq, not_false_iff, true_and]
    split_ifs <;> rfl

/-- Receiving leaves everything alone but the end of the window. -/
theorem Reading.fill_careful (h : Reading buffer capacity below orderly input r) {result : Result}
    (hfill : responseBodyReaderFill buffer capacity r = some (result, s)) :
    Careful buffer .fill (r.copies bodyHandler buffer capacity .fill) r s ∧
      ∃ orderly' input', Reading buffer capacity below orderly' input' s := by
  obtain ⟨hroom, hkept, hpending, -, -⟩ := h.makeRoom
  have hstored := h.stored_le
  have hdown : ∀ c ∈ r.copies bodyHandler buffer capacity .fill, c.target ≤ c.source := by
    intro c hc
    rw [BodyReader.copies] at hc
    split_ifs at hc with hcompact
    · obtain rfl := List.mem_singleton.mp hc
      dsimp only
      omega
    · cases hc
  have hmem := @makeRoom_mem bodyHandler buffer capacity r
  rw [responseBodyReaderFill] at hfill
  dsimp only at hfill
  generalize r.makeRoom buffer capacity = t at hroom hkept hpending hmem hfill
  by_cases hfull : t.stop = capacity
  · rw [if_pos hfull] at hfill
    obtain ⟨-, rfl⟩ := Prod.mk.inj (Option.some.inj hfill)
    exact ⟨⟨hdown, hkept.stored ▸ List.prefix_refl _, [], by simp [ReaderOperation.consumed,
      hpending], by rw [hmem]⟩, _, _, hroom⟩
  rw [if_neg hfull] at hfill
  have hfit := hroom.fit
  have hstop := hroom.stop_le
  obtain ⟨result', w', w, hrun, hflow, hstops⟩ := @receive_spec (buffer + capacity)
    (fun received => buffer + t.stop < received.length) ⟨t.mem, buffer + t.stop, t.wire⟩ hfit
    (by dsimp only; omega)
  obtain ⟨hfilled, hkept', hgrown⟩ := hroom.filled hflow
  rw [hrun] at hfill
  obtain ⟨-, rfl⟩ := Prod.mk.inj (Option.some.inj hfill)
  have hle : buffer + t.stop ≤ w.filled := hflow.le
  have hlimit := hflow.le_limit
  have hlength : w.mem.length = t.mem.length := hflow.length_mem
  obtain ⟨hsame, hsame'⟩ : w'.mem = w.mem ∧ w'.filled = w.filled := by
    cases hstops <;> exact ⟨rfl, rfl⟩
  rw [hsame, hsame']
  have hreceived : (window w.mem (buffer + t.stop) (w.filled - (buffer + t.stop))).length =
      w.filled - (buffer + t.stop) := length_window (by omega)
  refine ⟨⟨hdown, ?_, window w.mem (buffer + t.stop) (w.filled - (buffer + t.stop)), ?_, ?_⟩,
    endsOrderly w'.wire, _, ⟨hfilled.fit, hfilled.stored_le,
    hfilled.start_le, hfilled.stop_le, rfl, hfilled.below, rfl⟩⟩
  · exact (hkept'.stored.trans hkept.stored) ▸ List.prefix_refl _
  · rw [ReaderOperation.consumed, List.drop_zero, ← hpending]
    exact hgrown
  · rw [hreceived]
    have hbelow := hflow.below
    dsimp only at hbelow ⊢
    rw [show buffer + (w.filled - buffer - (w.filled - (buffer + t.stop))) = buffer + t.stop by
      omega, hbelow, hmem]

/-- Going past a line only consumes. -/
theorem Reading.takeLine_careful (h : Reading buffer capacity below orderly input r) {n : Nat}
    (hn : n ≤ r.stop - r.start) :
    Careful buffer (.takeLine n) (r.copies bodyHandler buffer capacity (.takeLine n)) r
        { r with start := r.start + n } ∧
      ∃ orderly' input', Reading buffer capacity below orderly' input'
        { r with start := r.start + n } := by
  have hstored := h.stored_le
  have hstart := h.start_le
  refine ⟨⟨by simp [BodyReader.copies], List.prefix_refl _, [], ?_, rfl⟩, endsOrderly r.wire, _,
    ⟨h.fit, by dsimp only; omega, by dsimp only; omega, h.stop_le, rfl, h.below, rfl⟩⟩
  rw [List.append_nil]
  exact pending_advance r buffer n

/-- Delivering stores the piece behind what is stored, or does not touch the memory. -/
theorem Reading.deliver_careful (h : Reading buffer capacity below orderly input r) {n : Nat}
    (hn : n ≤ r.stop - r.start) :
    Careful buffer (.deliver n) (r.copies bodyHandler buffer capacity (.deliver n)) r
        (responseBodyReaderDeliver lib bodyHandler buffer r n).2 ∧
      ∃ orderly' input', Reading buffer capacity below orderly' input'
        (responseBodyReaderDeliver lib bodyHandler buffer r n).2 := by
  have hfit := h.fit
  have hstored := h.stored_le
  have hstart := h.start_le
  have hstop := h.stop_le
  cases bodyHandler with
  | some handler =>
    refine ⟨⟨by simp [BodyReader.copies], List.prefix_refl _, [], ?_, rfl⟩, endsOrderly r.wire, _,
      ⟨hfit, by dsimp only [responseBodyReaderDeliver]; omega,
        by dsimp only [responseBodyReaderDeliver]; omega, hstop, rfl, h.below, rfl⟩⟩
    rw [List.append_nil]
    exact pending_advance r buffer n
  | none =>
    obtain ⟨hlength, -, hbefore, hafter⟩ := @move_window r.mem buffer r.storedLength r.start n
      hstored (by omega)
    refine ⟨⟨?_, ?_, [], ?_, rfl⟩, endsOrderly r.wire, _,
      ⟨by dsimp only [responseBodyReaderDeliver]; omega,
        by dsimp only [responseBodyReaderDeliver]; omega,
        by dsimp only [responseBodyReaderDeliver]; omega, hstop, rfl, ?_, rfl⟩⟩
    · simpa [BodyReader.copies] using hstored
    · rw [BodyReader.stored, BodyReader.stored]
      dsimp only [responseBodyReaderDeliver]
      rw [window_add, window_eq_of_take (hbefore _ (Nat.le_refl _)) (Nat.le_refl _)]
      exact List.prefix_append _ _
    · rw [List.append_nil, ReaderOperation.consumed, ← pending_advance, BodyReader.pending]
      exact hafter _ _ (by dsimp only [responseBodyReaderDeliver]; omega)
    · exact (hbefore _ (Nat.le_add_right _ _)).trans h.below

/-- One operation, whatever it returns. -/
theorem Reading.step (h : Reading buffer capacity below orderly input r)
    {operation : ReaderOperation} {copies : List Copy}
    (hstep : (readerMachine lib bodyHandler buffer capacity opened).step r operation =
      some (s, copies)) :
    Careful buffer operation copies r s ∧
      ∃ orderly' input', Reading buffer capacity below orderly' input' s := by
  obtain ⟨t, ht, heq⟩ := Option.map_eq_some_iff.mp hstep
  obtain ⟨rfl, rfl⟩ := Prod.mk.inj heq
  cases operation with
  | fill =>
    obtain ⟨⟨result, t⟩, hfill, rfl⟩ := Option.map_eq_some_iff.mp ht
    exact h.fill_careful hfill
  | deliver n =>
    dsimp only at ht
    split_ifs at ht with hn
    obtain rfl := Option.some.inj ht
    exact h.deliver_careful hn
  | takeLine n =>
    dsimp only at ht
    split_ifs at ht with hn
    obtain rfl := Option.some.inj ht
    exact h.takeLine_careful hn

/-- Every state of a reader. -/
theorem Reading.reached {copies : List Copy}
    (h : Reading buffer capacity below orderly input opened)
    (hrun : Run (readerMachine lib bodyHandler buffer capacity opened) copies r) :
    ∃ orderly' input', Reading buffer capacity below orderly' input' r :=
  hrun.invariant
    (I := fun _ r => ∃ orderly' input', Reading buffer capacity below orderly' input' r)
    (fun _ hs => hs ▸ ⟨_, _, h⟩) fun _ _ _ _ _ _ ⟨_, _, hs⟩ hstep => (hs.step hstep).2

end

end HttpC
