import HttpC.Server.Sending
import HttpC.Server.WellFormed

/-!
# A response in the send buffer

`bs_write` adds the size of a write to what is used in 32 bits before it compares the sum with the
capacity. A sum that wraps passes the comparison and the write runs over the end of the buffer.

## Main results

* `writeChain_sound`, `writeChain_overrun` — a chain of writes without and with such a sum.
* `serializeAndSend_allOrClose_iff` — when a response is in the buffer whole, or the slot is closed.
-/

namespace HttpC

open Block

/-! ## The sums of the sizes -/

/-- A write whose predecessors fit takes the sum of the sizes to `2 ^ 32` or more. -/
def SumWraps (capacity : Nat) : Nat → List Bytes → Prop
  | _, [] => False
  | used, piece :: pieces =>
    used ≤ capacity ∧
      (2 ^ 32 ≤ used + piece.length ∨ SumWraps capacity (used + piece.length) pieces)

theorem sumWraps_iff {capacity used : Nat} {pieces : List Bytes} :
    SumWraps capacity used pieces ↔ ∃ front piece back, pieces = front ++ piece :: back ∧
      used + front.flatten.length ≤ capacity ∧
      2 ^ 32 ≤ used + front.flatten.length + piece.length := by
  induction pieces generalizing used with
  | nil => simp [SumWraps]
  | cons p pieces ih =>
    rw [SumWraps, ih]
    constructor
    · rintro ⟨hused, hwraps | ⟨front, piece, back, rfl, hfits, hwraps⟩⟩
      · exact ⟨[], p, pieces, rfl, by simpa using hused, by simpa using hwraps⟩
      · refine ⟨p :: front, piece, back, rfl, ?_, ?_⟩
        · rwa [List.flatten_cons, List.length_append, ← Nat.add_assoc]
        · rwa [List.flatten_cons, List.length_append, ← Nat.add_assoc]
    · rintro ⟨front, piece, back, heq, hfits, hwraps⟩
      refine ⟨by omega, ?_⟩
      cases front with
      | nil =>
        obtain ⟨rfl, -⟩ := List.cons.inj heq
        exact .inl (by simpa using hwraps)
      | cons q front =>
        obtain ⟨rfl, rfl⟩ := List.cons.inj heq
        rw [List.flatten_cons, List.length_append, ← Nat.add_assoc] at hfits hwraps
        exact .inr ⟨front, piece, back, rfl, hfits, hwraps⟩

/-! ## Writes in a row -/

section

variable {lib : CommonLib} {bs : BufferStream} {written : Bytes} {pieces : List Bytes}
  {steps : List (BufferStream → Result × BufferStream)}

/-- A stream over a buffer that has not been overrun. -/
structure BufferStream.Sound (bs : BufferStream) (written : Bytes) : Prop where
  holds : bs.Holds written
  memory : bs.memory.length = bs.capacity
  capacity : bs.capacity < 2 ^ 32
  overflowed : bs.overflowed = false

/-- A write whose sum does not wrap is refused, or stored inside the buffer. -/
theorem BufferStream.Sound.write (h : bs.Sound written) {data : Span}
    (hlt : bs.used + data.size < 2 ^ 32) :
    (bsWrite bs data).2.capacity = bs.capacity ∧
      (((bsWrite bs data).1 = .error ∧ bs.capacity < bs.used + data.size) ∧
          (bsWrite bs data).2.memory = bs.memory ∨
        (bsWrite bs data).1 = .ok ∧ (bsWrite bs data).2.Sound (written ++ data.bytes)) := by
  have hsum : wrap32 (bs.used + data.size) = bs.used + data.bytes.length := Nat.mod_eq_of_lt hlt
  have hle := h.holds.le
  unfold bsWrite
  rw [hsum]
  split_ifs with hover
  · exact ⟨rfl, .inl ⟨⟨rfl, hover⟩, rfl⟩⟩
  · refine ⟨rfl, .inr ⟨rfl, ⟨?_, ?_, ?_⟩, ?_, h.capacity, h.overflowed⟩⟩
    · rw [List.length_append, h.holds.used]
    · dsimp only
      rw [length_overwrite (by rw [h.memory]; omega), h.memory]
      omega
    · dsimp only
      rw [take_overwrite_append hle, h.holds.take]
    · dsimp only
      rw [length_overwrite (by rw [h.memory]; omega), h.memory]

/-- A write whose sum wraps is not refused, and runs over the end. -/
theorem BufferStream.Sound.write_wraps (h : bs.Sound written) {data : Span}
    (hsize : data.size < 2 ^ 32) (hwraps : 2 ^ 32 ≤ bs.used + data.size) :
    (bsWrite bs data).1 = .ok ∧ bs.capacity < (bsWrite bs data).2.memory.length := by
  have hle := h.holds.le
  have hcap := h.capacity
  rw [h.memory] at hle
  have hsum : wrap32 (bs.used + data.size) < bs.used := by
    rw [wrap32]
    omega
  unfold bsWrite
  rw [if_neg (by omega)]
  refine ⟨rfl, ?_⟩
  have hmem := h.memory
  rw [Span.size] at hwraps
  simp only [overwrite, List.length_append, List.length_take, List.length_drop]
  omega

/-- A step of the chain whose sum does not wrap. -/
theorem Writes.sound {step : BufferStream → Result × BufferStream} {piece : Bytes}
    (hstep : Writes step piece) (h : bs.Sound written) (hlt : bs.used + piece.length < 2 ^ 32) :
    (step bs).2.capacity = bs.capacity ∧
      (((step bs).1 = .error ∧ bs.capacity < bs.used + piece.length) ∧
          (step bs).2.memory = bs.memory ∨
        (step bs).1 = .ok ∧ (step bs).2.Sound (written ++ piece)) := by
  rcases hstep with ⟨data, rfl, hwrite⟩ | ⟨rfl, hnone⟩
  · rw [hwrite]
    exact h.write hlt
  · rw [hnone, List.append_nil]
    exact ⟨rfl, .inr ⟨rfl, h⟩⟩

/-- No step of the chain makes the memory shorter. -/
theorem Writes.memory_le {step : BufferStream → Result × BufferStream} {piece : Bytes}
    (hstep : Writes step piece) (bs : BufferStream) :
    bs.memory.length ≤ (step bs).2.memory.length := by
  rcases hstep with ⟨data, -, hwrite⟩ | ⟨-, hnone⟩
  · rw [hwrite]
    unfold bsWrite
    split_ifs
    · exact Nat.le_refl _
    · simp only [overwrite, List.length_append, List.length_take, List.length_drop]
      omega
  · rw [hnone]

theorem writeChain_memory_le (hsteps : List.Forall₂ Writes steps pieces) (bs : BufferStream) :
    bs.memory.length ≤ (writeChain lib steps bs).2.memory.length := by
  induction hsteps generalizing bs with
  | nil => exact Nat.le_refl _
  | cons hstep _ ih =>
    rw [writeChain]
    dsimp only
    split_ifs
    · exact hstep.memory_le bs
    · exact (hstep.memory_le bs).trans (ih _)

/-- Without a sum that wraps, the writes end with an error or leave all their bytes, and nothing is
stored behind the end. -/
theorem writeChain_sound (hsteps : List.Forall₂ Writes steps pieces) (h : bs.Sound written)
    (hsum : ¬ SumWraps bs.capacity bs.used pieces) :
    let out := writeChain lib steps bs
    out.2.memory.length = bs.capacity ∧
      (out.1 = .error ∨
        out.1 = .ok ∧ out.2.Sound (written ++ pieces.flatten) ∧ out.2.capacity = bs.capacity) := by
  induction hsteps generalizing bs written with
  | nil => exact ⟨h.memory, .inr ⟨rfl, by simpa [writeChain] using h, rfl⟩⟩
  | @cons step piece steps pieces hstep _ ih =>
    have hused := h.holds.le.trans_eq h.memory
    rw [SumWraps, not_and] at hsum
    obtain ⟨hlt, hrest⟩ := not_or.mp (hsum hused)
    obtain ⟨hcap, ⟨⟨herror, -⟩, hmem⟩ | ⟨hok, hsound⟩⟩ := hstep.sound h (Nat.not_le.mp hlt)
    · have hchain : writeChain lib (step :: steps) bs = (.error, (step bs).2) := by
        simp [writeChain, herror]
      rw [hchain]
      exact ⟨hmem ▸ h.memory, .inl rfl⟩
    · have hnext : (step bs).2.used = bs.used + piece.length := by
        rw [hsound.holds.used, h.holds.used, List.length_append]
      have hout := ih hsound (by rwa [hcap, hnext])
      rw [writeChain_ok (show step bs = (.ok, (step bs).2) from Prod.ext hok rfl),
        List.flatten_cons, ← List.append_assoc, ← hcap]
      exact hout

/-- With a sum that wraps, the writes run over the end of the buffer. -/
theorem writeChain_overrun (hsteps : List.Forall₂ Writes steps pieces) (h : bs.Sound written)
    (hsizes : ∀ piece ∈ pieces, piece.length < 2 ^ 32)
    (hsum : SumWraps bs.capacity bs.used pieces) :
    bs.capacity < (writeChain lib steps bs).2.memory.length := by
  induction hsteps generalizing bs written with
  | nil => exact absurd hsum id
  | @cons step piece steps pieces hstep hsteps ih =>
    have hnext : ∀ {st : BufferStream}, step bs = (.ok, st) →
        writeChain lib (step :: steps) bs = writeChain lib steps st := writeChain_ok
    obtain ⟨hused, hwraps | hrest⟩ := hsum
    · rcases hstep with ⟨data, rfl, hwrite⟩ | ⟨rfl, -⟩
      · obtain ⟨hok, hover⟩ := h.write_wraps (hsizes _ List.mem_cons_self) hwraps
        rw [hnext (Prod.ext ((congrArg Prod.fst (hwrite bs)).trans hok) rfl), hwrite]
        exact hover.trans_le (writeChain_memory_le hsteps _)
      · have hcap := h.capacity
        simp only [List.length_nil] at hwraps
        omega
    · have hfits : bs.used + piece.length ≤ bs.capacity := by
        cases pieces with
        | nil => exact absurd hrest id
        | cons => exact hrest.1
      obtain ⟨hcap, ⟨⟨-, hover⟩, -⟩ | ⟨hok, hsound⟩⟩ := hstep.sound h (hfits.trans_lt h.capacity)
      · exact absurd hfits (Nat.not_le.mpr hover)
      · have hsum : (step bs).2.used = bs.used + piece.length := by
          rw [hsound.holds.used, h.holds.used, List.length_append]
        rw [hnext (Prod.ext hok rfl), ← hcap]
        exact ih hsound (fun p hp => hsizes p (List.mem_cons_of_mem _ hp)) (by rwa [hcap, hsum])

end

/-! ## The response -/

section

variable (lib : CommonLib) (w : Platform)

/-- No byte is stored behind the end of the send buffer; the response is at its front, whole and
waiting to be sent, or the slot is closed and nothing has been sent. -/
def AllOrClose (slot : Slot) (response : HttpResponse) : Prop :=
  let sent := serializeAndSend lib w slot response
  sent.1.sendBuffer.length = slot.sendBufferSize ∧
    (sent.1.state = .sending ∧ sent.1.sendOffset = 0 ∧ sent.1.sendUsed ≤ slot.sendBufferSize ∧
        sent.1.sendBuffer.take sent.1.sendUsed =
          (writtenPieces lib (serializedPart response)).flatten ∧ sent.2 = [] ∨
      sent.1.inUse = false ∧ sent.1.sendUsed = 0 ∧ wroteBytes sent.2 = [])

variable {lib} {w} {slot : Slot} {response : HttpResponse}

/-- The stream that `serialize_and_send` starts with. -/
theorem sound_start (hstorage : slot.Storage) :
    BufferStream.Sound ⟨slot.sendBuffer, slot.sendBufferSize, 0, false⟩ [] :=
  ⟨⟨rfl, Nat.zero_le _, rfl⟩, hstorage.send, hstorage.sendSize, rfl⟩

theorem sendBuffer_slotClose (slot : Slot) : (slotClose slot).1.sendBuffer = slot.sendBuffer := by
  rw [slotClose_slot]
  simp only [streamCleared]
  split_ifs <;> rfl

theorem wroteBytes_slotClose (slot : Slot) : wroteBytes (slotClose slot).2 = [] := by
  rw [slotClose_events]
  simp only [finalizerCall]
  split_ifs <;> rfl

theorem serializeAndSend_eq :
    let out := writeChain lib (responseWrites lib (serializedPart response))
      ⟨slot.sendBuffer, slot.sendBufferSize, 0, false⟩
    serializeAndSend lib w slot response =
      if lib.isError out.1 ∨ out.2.overflowed then
        slotClose { installStream slot response with sendBuffer := out.2.memory }
      else
        (slotArm w { installStream slot response with
          sendBuffer := out.2.memory, sendUsed := out.2.used, sendOffset := 0, state := .sending,
          lastActivityMs := w.now } .forWrite, []) := by
  have hstart : (⟨slot.sendBuffer, slot.sendBufferSize, 0, false⟩ : BufferStream) =
      ⟨(installStream slot response).sendBuffer, (installStream slot response).sendBufferSize, 0,
        false⟩ := by
    unfold installStream
    split_ifs
    · rfl
    · rfl
  rw [hstart]
  rfl

/-- The slot has the memory that the writes leave. -/
theorem sendBuffer_serializeAndSend : (serializeAndSend lib w slot response).1.sendBuffer =
    (writeChain lib (responseWrites lib (serializedPart response))
      ⟨slot.sendBuffer, slot.sendBufferSize, 0, false⟩).2.memory := by
  rw [serializeAndSend_eq]
  split_ifs
  · rw [sendBuffer_slotClose]
  · rfl

/-- A piece that takes the sum of the sizes to `2 ^ 32` is stored over the end. -/
theorem serializeAndSend_overrun (hstorage : slot.Storage)
    (hsizes : ∀ piece ∈ writtenPieces lib (serializedPart response), piece.length < 2 ^ 32)
    (hsum : SumWraps slot.sendBufferSize 0 (writtenPieces lib (serializedPart response))) :
    slot.sendBufferSize < (serializeAndSend lib w slot response).1.sendBuffer.length := by
  rw [sendBuffer_serializeAndSend]
  exact writeChain_overrun (responseWrites_pieces _) (sound_start hstorage) hsizes hsum

/-- Without such a piece the slot is closed, or the response is at the front of the buffer. -/
theorem serializeAndSend_sound (hstorage : slot.Storage)
    (hsum : ¬ SumWraps slot.sendBufferSize 0 (writtenPieces lib (serializedPart response))) :
    AllOrClose lib w slot response := by
  obtain ⟨hmem, hout⟩ :=
    @writeChain_sound lib _ _ _ _ (responseWrites_pieces _) (sound_start hstorage) hsum
  refine ⟨sendBuffer_serializeAndSend ▸ hmem, ?_⟩
  rw [serializeAndSend_eq]
  rcases hout with herror | ⟨hok, hsound, hcap⟩
  · right
    rw [if_pos (.inl (by rw [herror, CommonLib.isError_error])), wroteBytes_slotClose,
      slotClose_slot]
    exact ⟨rfl, rfl, rfl⟩
  · left
    have hholds := hsound.holds
    rw [if_neg (by rw [hok, hsound.overflowed, CommonLib.isError_ok]; simp)]
    refine ⟨rfl, rfl, ?_, hholds.take, rfl⟩
    exact hholds.le.trans_eq (hsound.memory.trans hcap)

/-- A response is in the send buffer whole or closes the slot exactly if no piece of it takes the
sum of the sizes to `2 ^ 32` behind pieces that fit. -/
theorem serializeAndSend_allOrClose_iff (lib : CommonLib) (w : Platform) {slot : Slot}
    (hstorage : slot.Storage) {response : HttpResponse}
    (hsizes : ∀ piece ∈ writtenPieces lib (serializedPart response), piece.length < 2 ^ 32) :
    AllOrClose lib w slot response ↔ ∀ front piece back,
      writtenPieces lib (serializedPart response) = front ++ piece :: back →
        front.flatten.length ≤ slot.sendBufferSize →
          front.flatten.length + piece.length < 2 ^ 32 := by
  constructor
  · rintro ⟨hlength, -⟩ front piece back hpieces hfits
    by_contra hwraps
    have hover := @serializeAndSend_overrun lib w slot response hstorage hsizes <|
      sumWraps_iff.mpr ⟨front, piece, back, hpieces, by rwa [Nat.zero_add],
        by rw [Nat.zero_add]; exact Nat.not_lt.mp hwraps⟩
    omega
  · intro hall
    refine serializeAndSend_sound hstorage fun hsum => ?_
    obtain ⟨front, piece, back, hpieces, hfits, hwraps⟩ := sumWraps_iff.mp hsum
    rw [Nat.zero_add] at hfits hwraps
    exact absurd (hall front piece back hpieces hfits) (Nat.not_lt.mpr hwraps)

/-- A short response in the slot of the small server. -/
theorem serializeAndSend_allOrClose_short :
    AllOrClose .reference calm servingSlot okResponse ↔ ∀ front piece back,
      writtenPieces .reference (serializedPart okResponse) = front ++ piece :: back →
        front.flatten.length ≤ 64 → front.flatten.length + piece.length < 2 ^ 32 :=
  @serializeAndSend_allOrClose_iff .reference calm servingSlot
    ⟨rfl, by decide, rfl, by decide, rfl⟩ okResponse (by decide)

/-- A body whose size wraps the sum runs over the send buffer. -/
theorem serializeAndSend_overruns : ¬ ∀ (lib : CommonLib) (w : Platform) (slot : Slot)
    (response : HttpResponse), slot.Storage →
      (∀ piece ∈ writtenPieces lib (serializedPart response), piece.length < 2 ^ 32) →
        AllOrClose lib w slot response := by
  intro h
  have hsize : Span.size ⟨3000, List.replicate (2 ^ 32 - 19) 0⟩ = 2 ^ 32 - 19 :=
    List.length_replicate
  generalize (⟨3000, List.replicate (2 ^ 32 - 19) 0⟩ : Span) = body at *
  have hstorage : servingSlot.Storage := ⟨rfl, by decide, rfl, by decide, rfl⟩
  let head := (writtenPieces .reference okResponse).take 8
  have hpieces : writtenPieces .reference (serializedPart (wrappingResponse body)) =
      head ++ body.bytes :: [] := rfl
  have hsizes : ∀ piece ∈ writtenPieces .reference (serializedPart (wrappingResponse body)),
      piece.length < 2 ^ 32 := by
    have hhead : ∀ piece ∈ head, piece.length < 2 ^ 32 := by decide
    rw [hpieces]
    intro piece hpiece
    rcases List.mem_append.mp hpiece with hmem | hbody
    · exact hhead piece hmem
    · obtain rfl := List.mem_singleton.mp hbody
      rw [← Span.size, hsize]
      omega
  have hsum : SumWraps servingSlot.sendBufferSize 0
      (writtenPieces .reference (serializedPart (wrappingResponse body))) := by
    refine sumWraps_iff.mpr ⟨head, body.bytes, [], hpieces, by decide, ?_⟩
    have hhead : head.flatten.length = 19 := by decide
    rw [hhead, ← Span.size, hsize]
    omega
  have hover := @serializeAndSend_overrun .reference calm _ _ hstorage hsizes hsum
  have hlength := (h .reference calm servingSlot (wrappingResponse body) hstorage hsizes).1
  omega

end

end HttpC
