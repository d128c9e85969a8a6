import HttpC.Connection.ChunkedBody
import HttpC.Connection.Stream

/-!
# The response body reader

`response_body_reader_*` of `http_connection.c`. The reader works in a window of the caller's
buffer: stored body bytes at its front, then bytes received but not yet consumed. When the
window is full, what is pending is moved down to the end of the stored body.

## Main results

* `Reading.fill`, `Reading.deliver` — receiving into the window and passing body bytes on.
* `Reading.passThrough_cases`, `Reading.readLine_cases` — exact lengths and lines, wherever reads
  end.
* `Reading.untilClose_cases` — the body that the end of the stream ends.
-/

namespace HttpC

open Block

/-! ## The model -/

/-- `http_response_body_handler_t`: it is given the pieces in order and answers for the last. -/
abbrev BodyHandler := List Bytes → Result

/-- The moving parts of `response_body_reader_t`, with the memory, the stream and what the body
handler has been given. -/
structure BodyReader where
  mem : Bytes
  wire : Wire
  /-- First received byte not yet consumed. -/
  start : Nat
  /-- `end`: end of the received bytes. -/
  stop : Nat
  /-- Stored mode: body bytes kept at the front of the window. -/
  storedLength : Nat
  pieces : List Bytes
  deriving DecidableEq, Repr

/-- A reader whose window starts with `prefetched` received bytes. -/
def BodyReader.opened (mem : Bytes) (wire : Wire) (prefetched : Nat) : BodyReader :=
  ⟨mem, wire, 0, prefetched, 0, []⟩

section

variable (lib : CommonLib) (bodyHandler : Option BodyHandler) (buffer capacity : Nat)

/-- The window before a read: an empty one starts over behind the stored body, a full one is
compacted. -/
def BodyReader.makeRoom (r : BodyReader) : BodyReader :=
  let floor := r.storedLength
  if r.start = r.stop then { r with start := floor, stop := floor }
  else if r.stop = capacity ∧ floor < r.start then
    let pending := r.stop - r.start
    { r with
      mem := move r.mem (buffer + floor) (buffer + r.start) pending
      start := floor
      stop := floor + pending }
  else r

/-- `response_body_reader_fill`. Both ends of the stream are reported as `endOfData`. -/
def responseBodyReaderFill (r : BodyReader) : Option (Result × BodyReader) :=
  let r := r.makeRoom buffer capacity
  if r.stop = capacity then some (.insufficientSize, r)
  else
    (receive (buffer + capacity) (fun received => buffer + r.stop < received.length)
      ⟨r.mem, buffer + r.stop, r.wire⟩).map fun (result, w) =>
        (if result = .endOfFile then .endOfData else result,
          { r with mem := w.mem, wire := w.wire, stop := w.filled - buffer })

/-- `response_body_reader_fill` where the peer closing first is an error. -/
def fillUnlessClosed (r : BodyReader) : Option (Result × BodyReader) :=
  (responseBodyReaderFill buffer capacity r).map fun (result, r) =>
    (if result = .endOfData then .error else result, r)

/-- `response_body_reader_deliver`: to the handler, or down to the end of the stored body. -/
def responseBodyReaderDeliver (r : BodyReader) (length : Nat) : Result × BodyReader :=
  match bodyHandler with
  | some handler =>
    let pieces := r.pieces ++ [window r.mem (buffer + r.start) length]
    (if lib.isError (handler pieces) then handler pieces else .ok,
      { r with start := r.start + length, pieces })
  | none =>
    (.ok,
      { r with
        mem := move r.mem (buffer + r.storedLength) (buffer + r.start) length
        start := r.start + length
        storedLength := r.storedLength + length })

/-- One pass of `response_body_reader_pass_through`, with `length` bytes to go. -/
def passThroughPass :
    Nat × BodyReader → Option (Loop.Pass (Nat × BodyReader) (Result × BodyReader))
  | (length, r) =>
    if length = 0 then some (.done (.ok, r))
    else
      unlessError lib
        (if r.start = r.stop then fillUnlessClosed buffer capacity r else some (.ok, r))
        fun r =>
          let available := r.stop - r.start
          let take := if available < length then available else length
          unlessError lib (some (responseBodyReaderDeliver lib bodyHandler buffer r take)) fun r =>
            some (.again (length - take, r))

def responseBodyReaderPassThrough (r : BodyReader) (length : Nat) : Option (Result × BodyReader) :=
  Loop.run (passThroughPass lib bodyHandler buffer capacity) (length + 1) (length, r)

/-- One pass of `response_body_reader_read_line`: the bytes up to `scanned` hold no line feed. -/
def readLinePass :
    Nat × BodyReader → Option (Loop.Pass (Nat × BodyReader) (Result × Bytes × BodyReader))
  | (scanned, r) =>
    match (window r.mem (buffer + (r.start + scanned)) (r.stop - (r.start + scanned))).findIdx?
        (· == 10) with
    | some i =>
      let index := r.start + scanned + i
      let lineEnd :=
        if r.start < index ∧ r.mem.getD (buffer + (index - 1)) 0 = 13 then index - 1 else index
      some (.done (.ok, window r.mem (buffer + r.start) (lineEnd - r.start),
        { r with start := index + 1 }))
    | none =>
      let scanned := r.stop - r.start
      unlessError lib ((fillUnlessClosed buffer capacity r).map fun (result, r) => (result, [], r))
        fun (_, r) => some (.again (scanned, r))

/-- `response_body_reader_read_line`: the line without its CRLF, or bare LF. -/
def responseBodyReaderReadLine (r : BodyReader) : Option (Result × Bytes × BodyReader) :=
  Loop.run (readLinePass lib buffer capacity) (capacity + 2) (0, r)

/-- The digits of a size line, and what follows them; `none` if the size overflows. -/
def scanChunkSize : Bytes → Nat → Nat → Option (Nat × Nat × Bytes)
  | [], chunkSize, digits => some (chunkSize, digits, [])
  | character :: line, chunkSize, digits =>
    match hexValue? character with
    | none => some (chunkSize, digits, character :: line)
    | some value =>
      if (2 ^ 32 - 1) / 2 ^ 4 < chunkSize then none
      else scanChunkSize line (chunkSize * 2 ^ 4 + value) (digits + 1)

/-- The size of a size line; after it only whitespace or a chunk extension may follow. -/
def parseChunkSize (line : Bytes) : Option Nat :=
  match scanChunkSize line 0 0 with
  | none => none
  | some (chunkSize, digits, after) =>
    let next := after.headD 59
    if digits = 0 ∨ (next ≠ 59 ∧ next ≠ 32 ∧ next ≠ 9) then none else some chunkSize

/-- One pass over the trailer fields, which are discarded up to the empty line. -/
def trailerPass (r : BodyReader) : Option (Loop.Pass BodyReader (Result × BodyReader)) :=
  match responseBodyReaderReadLine lib buffer capacity r with
  | none => none
  | some (result, line, r) =>
    if lib.isError result then some (.done (result, r))
    else if line.isEmpty then some (.done (.ok, r))
    else some (.again r)

/-- One pass of `response_body_reader_chunked`. -/
def chunkedPass (r : BodyReader) : Option (Loop.Pass BodyReader (Result × BodyReader)) :=
  match responseBodyReaderReadLine lib buffer capacity r with
  | none => none
  | some (result, line, r) =>
    if lib.isError result then some (.done (result, r))
    else
      match parseChunkSize line with
      | none => some (.done (.error, r))
      | some chunkSize =>
        if chunkSize = 0 then
          (Loop.run (trailerPass lib buffer capacity) (capacity + weight r.wire + 1) r).map .done
        else
          unlessError lib
            (responseBodyReaderPassThrough lib bodyHandler buffer capacity r chunkSize)
            fun r =>
              match responseBodyReaderReadLine lib buffer capacity r with
              | none => none
              | some (result, line, r) =>
                if lib.isError result then some (.done (result, r))
                else if line.isEmpty then some (.again r)
                else some (.done (.error, r))

def responseBodyReaderChunked (r : BodyReader) : Option (Result × BodyReader) :=
  Loop.run (chunkedPass lib bodyHandler buffer capacity) (capacity + weight r.wire + 1) r

/-- One pass of `response_body_reader_until_close`. -/
def untilClosePass (r : BodyReader) : Option (Loop.Pass BodyReader (Result × BodyReader)) :=
  unlessError lib
    (if r.start < r.stop then
      some (responseBodyReaderDeliver lib bodyHandler buffer r (r.stop - r.start))
    else some (.ok, r))
    fun r =>
      match responseBodyReaderFill buffer capacity r with
      | none => none
      | some (result, r) =>
        if result = .endOfData then some (.done (.ok, r))
        else if lib.isError result then some (.done (result, r))
        else some (.again r)

def responseBodyReaderUntilClose (r : BodyReader) : Option (Result × BodyReader) :=
  Loop.run (untilClosePass lib bodyHandler buffer capacity) (weight r.wire + 2) r

end

/-! ## The window -/

def BodyReader.pending (r : BodyReader) (buffer : Nat) : Bytes :=
  window r.mem (buffer + r.start) (r.stop - r.start)

def BodyReader.stored (r : BodyReader) (buffer : Nat) : Bytes := window r.mem buffer r.storedLength

/-- The body passed on so far. -/
def BodyReader.body (r : BodyReader) (bodyHandler : Option BodyHandler) (buffer : Nat) : Bytes :=
  match bodyHandler with
  | none => r.stored buffer
  | some _ => r.pieces.flatten

/-- The window discipline, with `input` still to be consumed: what is pending in the window,
then what arrives. The memory before the window is `below`. -/
structure Reading (buffer capacity : Nat) (below : Bytes) (orderly : Bool) (input : Bytes)
    (r : BodyReader) : Prop where
  fit : buffer + capacity ≤ r.mem.length
  stored_le : r.storedLength ≤ r.start
  start_le : r.start ≤ r.stop
  stop_le : r.stop ≤ capacity
  ahead : r.pending buffer ++ arriving r.wire = input
  below : r.mem.take buffer = below
  orderly : endsOrderly r.wire = orderly

/-- What receiving and parsing leave alone. -/
structure Kept (buffer : Nat) (r r' : BodyReader) : Prop where
  stored : r'.stored buffer = r.stored buffer
  storedLength : r'.storedLength = r.storedLength
  pieces : r'.pieces = r.pieces

theorem Kept.refl {buffer : Nat} {r : BodyReader} : Kept buffer r r := ⟨rfl, rfl, rfl⟩

theorem Kept.trans {buffer : Nat} {r r' r'' : BodyReader} (h : Kept buffer r r')
    (h' : Kept buffer r' r'') : Kept buffer r r'' :=
  ⟨h'.stored.trans h.stored, h'.storedLength.trans h.storedLength, h'.pieces.trans h.pieces⟩

theorem Kept.body {buffer : Nat} {r r' : BodyReader} (h : Kept buffer r r')
    (bodyHandler : Option BodyHandler) :
    r'.body bodyHandler buffer = r.body bodyHandler buffer := by
  cases bodyHandler with
  | none => exact h.stored
  | some _ => exact congrArg List.flatten h.pieces

section

variable {buffer capacity : Nat} {below : Bytes} {orderly : Bool} {input : Bytes} {r : BodyReader}

/-- The window to start with. -/
theorem Reading.opened {mem : Bytes} {wire : Wire} {prefetched : Nat}
    (hfit : buffer + capacity ≤ mem.length) (hprefetched : prefetched ≤ capacity) :
    Reading buffer capacity (mem.take buffer) (endsOrderly wire)
      (window mem buffer prefetched ++ arriving wire) (.opened mem wire prefetched) where
  fit := hfit
  stored_le := Nat.le_refl _
  start_le := Nat.zero_le _
  stop_le := hprefetched
  ahead := rfl
  below := rfl
  orderly := rfl

theorem Reading.length_pending (h : Reading buffer capacity below orderly input r) :
    (r.pending buffer).length = r.stop - r.start := by
  have hfit := h.fit
  have hstart := h.start_le
  have hstop := h.stop_le
  exact length_window (by omega)

/-- What is pending behind the first `k` bytes. -/
theorem pending_advance (r : BodyReader) (buffer k : Nat) :
    window r.mem (buffer + (r.start + k)) (r.stop - (r.start + k)) = (r.pending buffer).drop k := by
  rw [BodyReader.pending, window, window, List.drop_take, List.drop_drop, Nat.sub_sub,
    Nat.add_assoc]

/-- A move inside the window, to the end of the stored body. -/
theorem move_window {mem : Bytes} {buffer i j n : Nat} (hij : i ≤ j)
    (hfit : buffer + (j + n) ≤ mem.length) :
    (move mem (buffer + i) (buffer + j) n).length = mem.length ∧
      window (move mem (buffer + i) (buffer + j) n) (buffer + i) n = window mem (buffer + j) n ∧
      (∀ k, k ≤ buffer + i →
        (move mem (buffer + i) (buffer + j) n).take k = mem.take k) ∧
      (∀ k m, buffer + (i + n) ≤ k →
        window (move mem (buffer + i) (buffer + j) n) k m = window mem k m) := by
  have hlen : (window mem (buffer + j) n).length = n := length_window (by omega)
  have hself := window_overwrite_self (l := mem) (i := buffer + i) (d := window mem (buffer + j) n)
    (by omega)
  rw [hlen] at hself
  refine ⟨length_overwrite (by omega), hself, fun k hk => ?_, fun k m hk => ?_⟩
  · exact take_eq_of_take (take_overwrite (by omega)) hk
  · exact window_overwrite_after (by omega) (by omega)

theorem Reading.makeRoom (h : Reading buffer capacity below orderly input r) :
    let r' := r.makeRoom buffer capacity
    Reading buffer capacity below orderly input r' ∧ Kept buffer r r' ∧
      r'.pending buffer = r.pending buffer ∧ r'.wire = r.wire ∧
      (r.storedLength + (r.pending buffer).length < capacity → r'.stop < capacity) := by
  have hfit := h.fit
  have hstored := h.stored_le
  have hstart := h.start_le
  have hstop := h.stop_le
  rw [h.length_pending]
  unfold BodyReader.makeRoom
  dsimp only
  split_ifs with hempty hfull
  · have hpending : r.pending buffer = [] := by
      rw [BodyReader.pending, hempty, Nat.sub_self, window_zero_length]
    refine ⟨⟨hfit, Nat.le_refl _, Nat.le_refl _, by dsimp only; omega, ?_, h.below, h.orderly⟩,
      ⟨rfl, rfl, rfl⟩, ?_, rfl, by dsimp only; omega⟩
    · rw [← h.ahead, hpending]
      simp [BodyReader.pending]
    · rw [hpending]
      simp [BodyReader.pending]
  · obtain ⟨hlen, hself, hbefore, -⟩ := @move_window r.mem buffer r.storedLength r.start
      (r.stop - r.start) hstored (by omega)
    have hpending : (BodyReader.mk (move r.mem (buffer + r.storedLength) (buffer + r.start)
        (r.stop - r.start)) r.wire r.storedLength (r.storedLength + (r.stop - r.start))
        r.storedLength r.pieces).pending buffer = r.pending buffer := by
      rw [BodyReader.pending, Nat.add_sub_cancel_left]
      exact hself
    refine ⟨⟨by dsimp only; omega, Nat.le_refl _, Nat.le_add_right _ _, by dsimp only; omega, ?_,
      ?_, h.orderly⟩, ⟨?_, rfl, rfl⟩, hpending, rfl, fun hroom => hroom⟩
    · rw [hpending]
      exact h.ahead
    · exact (hbefore _ (Nat.le_add_right _ _)).trans h.below
    · exact window_eq_of_take (hbefore _ (Nat.le_refl _)) (Nat.le_refl _)
  · exact ⟨h, .refl, rfl, rfl, fun hroom => by omega⟩

/-- However far a receive gets, the window goes on being read. -/
theorem Reading.filled (h : Reading buffer capacity below orderly input r) {enough : Bytes → Bool}
    {w : Receiver} (hflow : Flow (buffer + capacity) enough ⟨r.mem, buffer + r.stop, r.wire⟩ w) :
    let r' : BodyReader := { r with mem := w.mem, wire := w.wire, stop := w.filled - buffer }
    Reading buffer capacity below orderly input r' ∧ Kept buffer r r' ∧
      r'.pending buffer =
        r.pending buffer ++ window w.mem (buffer + r.stop) (w.filled - (buffer + r.stop)) := by
  have hfit := h.fit
  have hstored := h.stored_le
  have hstart := h.start_le
  have hstop := h.stop_le
  have hle : buffer + r.stop ≤ w.filled := hflow.le
  have hlimit := hflow.le_limit
  have hmem : w.mem.length = r.mem.length := hflow.length_mem
  have hbelow := hflow.below
  dsimp only at hbelow
  obtain ⟨n, hn⟩ := Nat.exists_eq_add_of_le (show buffer ≤ w.filled by omega)
  have hsub : w.filled - buffer = n := by omega
  refine ⟨⟨by dsimp only; omega, hstored, by dsimp only; omega, by dsimp only; omega, ?_, ?_,
    hflow.orderly.trans h.orderly⟩, ⟨?_, rfl, rfl⟩, ?_⟩
  · have himage := congrArg (List.drop (buffer + r.start)) hflow.image
    simp only [Receiver.image, Receiver.received] at himage
    rw [List.drop_append_of_le_length (by simp; omega),
      List.drop_append_of_le_length (by simp; omega), List.drop_take, List.drop_take] at himage
    rw [← h.ahead]
    simp only [BodyReader.pending, hsub, window]
    rwa [show w.filled - (buffer + r.start) = n - r.start by omega,
      show buffer + r.stop - (buffer + r.start) = r.stop - r.start by omega] at himage
  · exact (take_eq_of_take hbelow (by omega)).trans h.below
  · exact window_eq_of_take hbelow (by dsimp only; omega)
  · simp only [BodyReader.pending, hsub]
    rw [show n - r.start = r.stop - r.start + (w.filled - (buffer + r.stop)) by omega, window_add,
      show buffer + r.start + (r.stop - r.start) = buffer + r.stop by omega]
    congr 1
    exact window_eq_of_take hbelow (by omega)

/-- A receive into a window with room brings something, unless the stream is over. -/
theorem Reading.fill (h : Reading buffer capacity below orderly input r)
    (hroom : r.storedLength + (r.pending buffer).length < capacity) :
    ∃ result r', responseBodyReaderFill buffer capacity r = some (result, r') ∧
      Kept buffer r r' ∧ r'.mem.take buffer = below ∧
      ((result = .ok ∧ Reading buffer capacity below orderly input r' ∧
          ∃ more, more ≠ [] ∧ r'.pending buffer = r.pending buffer ++ more) ∨
        (arriving r.wire = [] ∧
          ((result = .endOfData ∧ orderly = true) ∨ (result = .error ∧ orderly = false)))) := by
  obtain ⟨hs, hkept, hpending, hwire, hlt⟩ := h.makeRoom
  have hlt := hlt hroom
  rw [responseBodyReaderFill]
  set s := r.makeRoom buffer capacity
  have hfit := hs.fit
  obtain ⟨result, w', w, hrun, hflow, hstop⟩ := @receive_spec (buffer + capacity)
    (fun received => buffer + s.stop < received.length) ⟨s.mem, buffer + s.stop, s.wire⟩ hfit
    (by dsimp only; omega)
  have hle_limit := hflow.le_limit
  have hmem : w.mem.length = s.mem.length := hflow.length_mem
  have hlength : w.received.length = w.filled := Receiver.length_received (by omega)
  obtain ⟨hreading, hsame, hgrown⟩ := hs.filled hflow
  rw [if_neg (by omega), hrun]
  cases hstop with
  | enough hmore =>
    rw [decide_eq_true_iff, hlength] at hmore
    refine ⟨_, _, rfl, hkept.trans hsame, hreading.below, .inl ⟨rfl, hreading, _, ?_,
      hpending ▸ hgrown⟩⟩
    rw [← List.length_pos_iff, length_window (by omega)]
    omega
  | full hfew hfull =>
    rw [decide_eq_false_iff_not, hlength] at hfew
    omega
  | @ended _ wire hfew _ hover hend =>
    rw [decide_eq_false_iff_not, hlength] at hfew
    have harriving : arriving r.wire = [] := by
      have himage := congrArg List.length hflow.image
      simp only [Receiver.image, List.length_append, hlength, hover] at himage
      rw [Receiver.length_received (by dsimp only; omega)] at himage
      rw [← hwire, ← List.length_eq_zero_iff]
      simp only [List.length_nil] at himage
      omega
    have hends : Kept buffer s { s with mem := w.mem, wire, stop := w.filled - buffer } :=
      ⟨hsame.stored, rfl, rfl⟩
    refine ⟨_, _, rfl, hkept.trans hends, hreading.below, .inr ⟨harriving, ?_⟩⟩
    rw [hflow.orderly, hs.orderly] at hend
    rcases hend with ⟨rfl, hend⟩ | ⟨rfl | rfl, hend⟩
    · exact .inr ⟨rfl, hend⟩
    · exact .inl ⟨rfl, hend⟩
    · exact .inl ⟨rfl, hend⟩

/-- A full window stays full. -/
theorem Reading.fill_full (h : Reading buffer capacity below orderly input r)
    (hfull : capacity ≤ r.storedLength + (r.pending buffer).length) :
    ∃ r', responseBodyReaderFill buffer capacity r = some (.insufficientSize, r') ∧
      Kept buffer r r' ∧ r'.mem.take buffer = below := by
  obtain ⟨hs, hkept, -, -, -⟩ := h.makeRoom
  have hstop : (r.makeRoom buffer capacity).stop = capacity := by
    have hstored := h.stored_le
    have hstart := h.start_le
    have hstop := h.stop_le
    rw [h.length_pending] at hfull
    unfold BodyReader.makeRoom
    dsimp only
    split_ifs with hempty hcompact
    · dsimp only
      omega
    · dsimp only
      omega
    · omega
  refine ⟨r.makeRoom buffer capacity, ?_, hkept, hs.below⟩
  rw [responseBodyReaderFill]
  exact if_pos hstop

/-- How the reader fails where the stream has to go on, with `held` bytes stored and pending: the
window is full, or the stream is over. -/
def shortage (capacity held : Nat) : Result :=
  if held < capacity then .error else .insufficientSize

@[simp] theorem isError_shortage (lib : CommonLib) (capacity held : Nat) :
    lib.isError (shortage capacity held) = true := by
  rw [shortage]
  split_ifs <;> simp

theorem shortage_full {capacity held : Nat} (h : capacity ≤ held) :
    shortage capacity held = .insufficientSize := if_neg (Nat.not_lt.mpr h)

theorem shortage_over {capacity held : Nat} (h : held < capacity) :
    shortage capacity held = .error := if_pos h

/-- Where the stream has to go on, a receive brings something or fails. -/
theorem Reading.fillUnlessClosed_cases (h : Reading buffer capacity below orderly input r) :
    ∃ result r', fillUnlessClosed buffer capacity r = some (result, r') ∧ Kept buffer r r' ∧
      ((result = .ok ∧ r.storedLength + (r.pending buffer).length < capacity ∧
          Reading buffer capacity below orderly input r' ∧
          ∃ more, more ≠ [] ∧ r'.pending buffer = r.pending buffer ++ more) ∨
        (result = shortage capacity (r.storedLength + (r.pending buffer).length) ∧
          (r.storedLength + (r.pending buffer).length < capacity → arriving r.wire = []))) := by
  by_cases hroom : r.storedLength + (r.pending buffer).length < capacity
  · obtain ⟨result, r', hrun, hkept, -, ⟨rfl, hreading, hmore⟩ | ⟨hover, hend⟩⟩ := h.fill hroom
    · exact ⟨.ok, r', by rw [fillUnlessClosed, hrun]; rfl, hkept,
        .inl ⟨rfl, hroom, hreading, hmore⟩⟩
    · refine ⟨.error, r', ?_, hkept, .inr ⟨(shortage_over hroom).symm, fun _ => hover⟩⟩
      rcases hend with ⟨rfl, -⟩ | ⟨rfl, -⟩ <;> rw [fillUnlessClosed, hrun] <;> rfl
  · obtain ⟨r', hrun, hkept, -⟩ := h.fill_full (Nat.not_lt.mp hroom)
    exact ⟨.insufficientSize, r', by rw [fillUnlessClosed, hrun]; rfl, hkept,
      .inr ⟨(shortage_full (Nat.not_lt.mp hroom)).symm, fun hlt => absurd hlt hroom⟩⟩

end

/-! ## Passing the body on -/

/-- How much of the window `n` body bytes take. -/
def storedBy (bodyHandler : Option BodyHandler) (n : Nat) : Nat :=
  match bodyHandler with
  | none => n
  | some _ => 0

/-- These body bytes have been passed on, in pieces that are neither empty nor larger than the
window. -/
structure Passed (bodyHandler : Option BodyHandler) (buffer capacity : Nat) (bytes : Bytes)
    (r r' : BodyReader) : Prop where
  body : r'.body bodyHandler buffer = r.body bodyHandler buffer ++ bytes
  storedLength : r'.storedLength = r.storedLength + storedBy bodyHandler bytes.length
  pieces : ∃ more, r'.pieces = r.pieces ++ more ∧ ∀ p ∈ more, p ≠ [] ∧ p.length ≤ capacity

section

variable {bodyHandler : Option BodyHandler} {buffer capacity : Nat} {below : Bytes}
  {orderly : Bool} {input x y : Bytes} {r r' r'' : BodyReader}

theorem storedBy_add (m n : Nat) :
    storedBy bodyHandler (m + n) = storedBy bodyHandler m + storedBy bodyHandler n := by
  cases bodyHandler <;> simp [storedBy]

theorem Kept.passed (h : Kept buffer r r') : Passed bodyHandler buffer capacity [] r r' where
  body := by rw [h.body, List.append_nil]
  storedLength := by
    rw [h.storedLength]
    cases bodyHandler <;> rfl
  pieces := ⟨[], by rw [h.pieces, List.append_nil], by simp⟩

theorem Passed.trans (h : Passed bodyHandler buffer capacity x r r')
    (h' : Passed bodyHandler buffer capacity y r' r'') :
    Passed bodyHandler buffer capacity (x ++ y) r r'' := by
  obtain ⟨more, hmore, hgood⟩ := h.pieces
  obtain ⟨more', hmore', hgood'⟩ := h'.pieces
  refine ⟨by rw [h'.body, h.body, List.append_assoc], ?_, more ++ more', ?_, fun p hp => ?_⟩
  · rw [h'.storedLength, h.storedLength, List.length_append, storedBy_add, Nat.add_assoc]
  · rw [hmore', hmore, List.append_assoc]
  · exact (List.mem_append.mp hp).elim (hgood p) (hgood' p)

@[simp] theorem deliver_start (lib : CommonLib) (bodyHandler : Option BodyHandler) (r : BodyReader)
    (buffer n : Nat) :
    (responseBodyReaderDeliver lib bodyHandler buffer r n).2.start = r.start + n := by
  cases bodyHandler <;> rfl

@[simp] theorem deliver_stop (lib : CommonLib) (bodyHandler : Option BodyHandler) (r : BodyReader)
    (buffer n : Nat) : (responseBodyReaderDeliver lib bodyHandler buffer r n).2.stop = r.stop := by
  cases bodyHandler <;> rfl

@[simp] theorem deliver_wire (lib : CommonLib) (bodyHandler : Option BodyHandler) (r : BodyReader)
    (buffer n : Nat) : (responseBodyReaderDeliver lib bodyHandler buffer r n).2.wire = r.wire := by
  cases bodyHandler <;> rfl

variable (lib : CommonLib)
  (hok : ∀ handler ∈ bodyHandler, ∀ pieces, lib.isError (handler pieces) = false)

include hok

/-- Pending bytes are passed on. -/
theorem Reading.deliver (h : Reading buffer capacity below orderly input r) {n : Nat} (hpos : 0 < n)
    (hn : n ≤ (r.pending buffer).length) :
    ∃ r', responseBodyReaderDeliver lib bodyHandler buffer r n = (.ok, r') ∧
      Reading buffer capacity below orderly (input.drop n) r' ∧
      Passed bodyHandler buffer capacity (input.take n) r r' := by
  have hfit := h.fit
  have hstored := h.stored_le
  have hstart := h.start_le
  have hstop := h.stop_le
  have hahead := h.ahead
  rw [h.length_pending] at hn
  have hsplit : r.pending buffer =
      window r.mem (buffer + r.start) n ++
        window r.mem (buffer + (r.start + n)) (r.stop - (r.start + n)) := by
    rw [BodyReader.pending, show r.stop - r.start = n + (r.stop - (r.start + n)) by omega,
      window_add,
      Nat.add_assoc]
  have hlen : (window r.mem (buffer + r.start) n).length = n := length_window (by omega)
  have htake : input.take n = window r.mem (buffer + r.start) n := by
    rw [← hahead, hsplit, List.append_assoc, List.take_left' hlen]
  have hdrop : input.drop n =
      window r.mem (buffer + (r.start + n)) (r.stop - (r.start + n)) ++ arriving r.wire := by
    rw [← hahead, hsplit, List.append_assoc, List.drop_left' hlen]
  rw [htake]
  cases hhandler : bodyHandler with
  | some handler =>
    refine ⟨{ r with
        start := r.start + n, pieces := r.pieces ++ [window r.mem (buffer + r.start) n] },
      ?_, ⟨hfit, by dsimp only; omega, by dsimp only; omega, hstop, hdrop.symm, h.below, h.orderly⟩,
      ⟨by simp [BodyReader.body], rfl, _, rfl, ?_⟩⟩
    · simp [responseBodyReaderDeliver, hok handler hhandler]
    · simp only [List.mem_singleton, forall_eq, hlen, ← List.length_pos_iff]
      omega
  | none =>
    obtain ⟨hlength, hself, hbefore, hafter⟩ := @move_window r.mem buffer r.storedLength r.start n
      hstored (by omega)
    refine ⟨{ r with
        mem := move r.mem (buffer + r.storedLength) (buffer + r.start) n
        start := r.start + n
        storedLength := r.storedLength + n }, rfl, ⟨by dsimp only; omega, by dsimp only; omega,
        by dsimp only; omega, hstop, ?_, ?_, h.orderly⟩,
        ⟨?_, by simp [storedBy, hlen], [], by simp, by simp⟩⟩
    · rw [hdrop]
      simp only [BodyReader.pending]
      rw [hafter _ _ (by omega)]
    · exact (hbefore _ (Nat.le_add_right _ _)).trans h.below
    · simp only [BodyReader.body, BodyReader.stored]
      rw [window_add, hself, window_eq_of_take (hbefore _ (Nat.le_refl _)) (Nat.le_refl _)]

/-- One pass takes what is pending, or what the next receive brings. -/
theorem Reading.passThroughPass_cases (h : Reading buffer capacity below orderly input r) {n : Nat}
    (hpos : 0 < n) :
    (∃ k r', 0 < k ∧ k ≤ n ∧ k ≤ input.length ∧
      passThroughPass lib bodyHandler buffer capacity (n, r) = some (.again (n - k, r')) ∧
        Reading buffer capacity below orderly (input.drop k) r' ∧
        Passed bodyHandler buffer capacity (input.take k) r r') ∨
    ∃ result r', passThroughPass lib bodyHandler buffer capacity (n, r) = some (.done (result, r')) ∧
      result = shortage capacity r.storedLength ∧ (r.storedLength < capacity → input = []) := by
  have htake : ∀ {s : BodyReader}, Reading buffer capacity below orderly input s →
      s.start < s.stop → ∃ k r', 0 < k ∧ k ≤ n ∧ k ≤ input.length ∧
        k = (if s.stop - s.start < n then s.stop - s.start else n) ∧
        responseBodyReaderDeliver lib bodyHandler buffer s k = (.ok, r') ∧
        Reading buffer capacity below orderly (input.drop k) r' ∧
        Passed bodyHandler buffer capacity (input.take k) s r' := by
    intro s hs hne
    have hpending := hs.length_pending
    have hinput := congrArg List.length hs.ahead
    rw [List.length_append] at hinput
    obtain ⟨k, hk⟩ : ∃ k, k = if s.stop - s.start < n then s.stop - s.start else n := ⟨_, rfl⟩
    have hle : 0 < k ∧ k ≤ n ∧ k ≤ s.stop - s.start := by split_ifs at hk <;> omega
    obtain ⟨r', hdeliver, hr', hpassed⟩ := hs.deliver lib hok hle.1 (by omega)
    exact ⟨k, r', hle.1, hle.2.1, by omega, hk, hdeliver, hr', hpassed⟩
  have hpending := h.length_pending
  have hstart := h.start_le
  by_cases hempty : r.start = r.stop
  · obtain ⟨result, s, hfill, hkept, ⟨rfl, -, hs, more, hmore, hgrown⟩ | ⟨rfl, hover⟩⟩ :=
      h.fillUnlessClosed_cases
    · have hne : s.start < s.stop := by
        have hlength := hs.length_pending
        rw [hgrown, List.length_append] at hlength
        have hmore := List.length_pos_iff.mpr hmore
        omega
      obtain ⟨k, r', hk, hkn, hki, hkeq, hdeliver, hr', hpassed⟩ := htake hs hne
      refine .inl ⟨k, r', hk, hkn, hki, ?_, hr', hkept.passed.trans hpassed⟩
      rw [passThroughPass, if_neg (by omega), if_pos hempty, hfill, unlessError_ok]
      dsimp only
      rw [← hkeq, hdeliver, unlessError_ok]
    · have hnone : (r.pending buffer).length = 0 := by omega
      rw [hnone, Nat.add_zero] at hfill hover
      refine .inr ⟨_, s, ?_, rfl, fun hroom => ?_⟩
      · rw [passThroughPass, if_neg (by omega), if_pos hempty, hfill, unlessError,
          if_pos (isError_shortage lib _ _)]
      · rw [← h.ahead, hover hroom, List.append_nil, List.length_eq_zero_iff.mp hnone]
  · obtain ⟨k, r', hk, hkn, hki, hkeq, hdeliver, hr', hpassed⟩ := htake h (by omega)
    refine .inl ⟨k, r', hk, hkn, hki, ?_, hr', hpassed⟩
    rw [passThroughPass, if_neg (by omega), if_neg hempty, unlessError_ok]
    dsimp only
    rw [← hkeq, hdeliver, unlessError_ok]

/-- Exactly `n` body bytes are passed on, if they arrive and fit. -/
theorem Reading.passThrough_cases (h : Reading buffer capacity below orderly input r) (n : Nat) :
    ∃ result r', responseBodyReaderPassThrough lib bodyHandler buffer capacity r n =
        some (result, r') ∧
      ((n ≤ input.length ∧ result = .ok ∧
          Reading buffer capacity below orderly (input.drop n) r' ∧
          Passed bodyHandler buffer capacity (input.take n) r r') ∨
        (result = shortage capacity (r.storedLength + storedBy bodyHandler input.length) ∧
          (capacity < r.storedLength + storedBy bodyHandler n ∨ 0 < n ∧ capacity ≤ r.storedLength ∨
            input.length < n))) := by
  have hloop : ∀ {fuel n : Nat} {input : Bytes} {r : BodyReader}, n < fuel →
      Reading buffer capacity below orderly input r →
      ∃ result r', Loop.run (passThroughPass lib bodyHandler buffer capacity) fuel (n, r) =
          some (result, r') ∧
        ((n ≤ input.length ∧ result = .ok ∧
            Reading buffer capacity below orderly (input.drop n) r' ∧
            Passed bodyHandler buffer capacity (input.take n) r r') ∨
          (result = shortage capacity (r.storedLength + storedBy bodyHandler input.length) ∧
            (capacity < r.storedLength + storedBy bodyHandler n ∨
              0 < n ∧ capacity ≤ r.storedLength ∨ input.length < n))) := by
    intro fuel
    induction fuel with
    | zero => intro n _ _ hfuel; omega
    | succ fuel ih =>
      intro n input r hfuel h
      rcases Nat.eq_zero_or_pos n with rfl | hpos
      · have hpass : passThroughPass lib bodyHandler buffer capacity (0, r) =
            some (.done (.ok, r)) := by simp [passThroughPass]
        exact ⟨.ok, r, Loop.run_done hpass _, .inl ⟨Nat.zero_le _, rfl, h, Kept.refl.passed⟩⟩
      rcases h.passThroughPass_cases lib hok hpos with
        ⟨k, s, hk, hkn, hki, hpass, hs, hpassed⟩ | ⟨_, s, hpass, rfl, hstuck⟩
      · rw [Loop.run_again hpass]
        have hstored := hpassed.storedLength
        rw [List.length_take, Nat.min_eq_left hki] at hstored
        have hsplit : n = k + (n - k) := by omega
        obtain ⟨result, r', hrun, ⟨hle, rfl, hr', hpassed'⟩ | ⟨rfl, hstuck⟩⟩ :=
          ih (show n - k < fuel by omega) hs
        · rw [List.length_drop] at hle
          refine ⟨.ok, r', hrun, .inl ⟨by omega, rfl, ?_, ?_⟩⟩
          · rwa [List.drop_drop, ← hsplit] at hr'
          · rw [hsplit, List.take_add]
            exact hpassed.trans hpassed'
        · -- what is stored grows by what is taken, or not at all
          have hheld : s.storedLength + storedBy bodyHandler (input.drop k).length =
              r.storedLength + storedBy bodyHandler input.length := by
            rw [hstored, List.length_drop, Nat.add_assoc, ← storedBy_add,
              Nat.add_sub_cancel' hki]
          refine ⟨_, r', hrun, .inr ⟨by rw [hheld], ?_⟩⟩
          rw [List.length_drop, hstored] at hstuck
          cases bodyHandler <;> simp only [storedBy] at hstuck ⊢ <;> omega
      · refine ⟨_, s, Loop.run_done hpass _, .inr ⟨?_, ?_⟩⟩
        · rcases Nat.lt_or_ge r.storedLength capacity with hroom | hfull
          · have hzero : storedBy bodyHandler 0 = 0 := by cases bodyHandler <;> rfl
            rw [hstuck hroom, List.length_nil, hzero, Nat.add_zero]
          · rw [shortage_full hfull, shortage_full (Nat.le_add_right_of_le hfull)]
        · rcases Nat.lt_or_ge r.storedLength capacity with hroom | hfull
          · exact .inr (.inr (by rw [hstuck hroom]; exact hpos))
          · exact .inr (.inl ⟨hpos, hfull⟩)
  exact hloop (Nat.lt_succ_self n) h

/-- What is pending is passed on before the next receive. -/
theorem Reading.deliverPending (h : Reading buffer capacity below orderly input r) :
    ∃ s, (if r.start < r.stop then
          some (responseBodyReaderDeliver lib bodyHandler buffer r (r.stop - r.start))
        else some (.ok, r)) = some (.ok, s) ∧
      Reading buffer capacity below orderly (arriving r.wire) s ∧
      Passed bodyHandler buffer capacity (r.pending buffer) r s ∧ s.start = s.stop ∧
      s.wire = r.wire := by
  have hahead := h.ahead
  have hlen := h.length_pending
  by_cases hlt : r.start < r.stop
  · obtain ⟨s, hrun, hs, hpassed⟩ := h.deliver lib hok (n := r.stop - r.start) (by omega) (by omega)
    have hframe : (responseBodyReaderDeliver lib bodyHandler buffer r (r.stop - r.start)).2 = s :=
      congrArg Prod.snd hrun
    rw [← hahead, ← hlen, List.take_left' rfl] at hpassed
    rw [← hahead, ← hlen, List.drop_left' rfl] at hs
    refine ⟨s, by rw [if_pos hlt, hrun], hs, hpassed, ?_, ?_⟩
    · rw [← hframe, deliver_start, deliver_stop]
      omega
    · rw [← hframe, deliver_wire]
  · have hstart := h.start_le
    have hnil : r.pending buffer = [] := List.length_eq_zero_iff.mp (by omega)
    rw [hnil, List.nil_append] at hahead
    exact ⟨r, if_neg hlt, hahead ▸ h, hnil ▸ Kept.refl.passed, by omega, rfl⟩

/-- One pass takes what is pending and receives more, or comes to an end. -/
theorem Reading.untilClosePass_cases (h : Reading buffer capacity below orderly input r) :
    (∃ t, untilClosePass lib bodyHandler buffer capacity r = some (.again t) ∧
      Reading buffer capacity below orderly (arriving r.wire) t ∧
      Passed bodyHandler buffer capacity (r.pending buffer) r t ∧
      (arriving t.wire).length < (arriving r.wire).length) ∨
    (∃ t, untilClosePass lib bodyHandler buffer capacity r = some (.done (.ok, t)) ∧
      orderly = true ∧ t.mem.take buffer = below ∧
      Passed bodyHandler buffer capacity input r t ∧
      r.storedLength + storedBy bodyHandler input.length < capacity) ∨
    ∃ result t, untilClosePass lib bodyHandler buffer capacity r = some (.done (result, t)) ∧
      lib.isError result = true ∧ (orderly = false ∨ result = .insufficientSize ∧
        capacity ≤ r.storedLength + storedBy bodyHandler input.length) := by
  have hahead := h.ahead
  obtain ⟨s, hdeliver, hs, hpassed, hempty, hwire⟩ := h.deliverPending lib hok
  have hnone : (s.pending buffer).length = 0 := by rw [hs.length_pending, hempty, Nat.sub_self]
  by_cases hroom : s.storedLength + (s.pending buffer).length < capacity
  · obtain ⟨result, t, hfill, hkept, hbelow, ⟨rfl, ht, more, hmore, hgrown⟩ | ⟨hover, hend⟩⟩ :=
      hs.fill hroom
    · have hpass : untilClosePass lib bodyHandler buffer capacity r = some (.again t) := by
        rw [untilClosePass, hdeliver, unlessError_ok, hfill]
        simp
      refine .inl ⟨t, hpass, ht, by simpa using hpassed.trans hkept.passed, ?_⟩
      have hshorter := congrArg List.length ht.ahead
      have hpos := List.length_pos_iff.mpr hmore
      rw [List.length_append, hgrown, List.length_append] at hshorter
      omega
    · rw [hwire] at hover
      rcases hend with ⟨rfl, horderly⟩ | ⟨rfl, horderly⟩
      · have hpass :
            untilClosePass lib bodyHandler buffer capacity r = some (.done (.ok, t)) := by
          rw [untilClosePass, hdeliver, unlessError_ok, hfill]
          simp
        have hstored := hpassed.storedLength
        refine .inr (.inl ⟨t, hpass, horderly, hbelow, ?_, ?_⟩)
        · rw [← hahead, hover]
          exact hpassed.trans hkept.passed
        · rw [← hahead, hover, List.append_nil]
          omega
      · have hpass :
            untilClosePass lib bodyHandler buffer capacity r = some (.done (.error, t)) := by
          rw [untilClosePass, hdeliver, unlessError_ok, hfill]
          simp
        exact .inr (.inr ⟨.error, t, hpass, by simp, .inl horderly⟩)
  · obtain ⟨t, hfill, -⟩ := hs.fill_full (Nat.not_lt.mp hroom)
    have hpass :
        untilClosePass lib bodyHandler buffer capacity r = some (.done (.insufficientSize, t)) := by
      rw [untilClosePass, hdeliver, unlessError_ok, hfill]
      simp
    have hstored := hpassed.storedLength
    have hall := @storedBy_add bodyHandler (r.pending buffer).length
      (arriving r.wire).length
    rw [← List.length_append, hahead] at hall
    exact .inr (.inr ⟨_, t, hpass, by simp, .inr ⟨rfl, by omega⟩⟩)

/-- Everything up to the end of the stream is passed on, if it fits. -/
theorem Reading.untilClose_cases (h : Reading buffer capacity below orderly input r) :
    ∃ result r', responseBodyReaderUntilClose lib bodyHandler buffer capacity r =
        some (result, r') ∧
      ((result = .ok ∧ orderly = true ∧ r'.mem.take buffer = below ∧
          Passed bodyHandler buffer capacity input r r' ∧
          r.storedLength + storedBy bodyHandler input.length < capacity) ∨
        (lib.isError result = true ∧ (orderly = false ∨ result = .insufficientSize ∧
          capacity ≤ r.storedLength + storedBy bodyHandler input.length))) := by
  have hloop : ∀ {fuel : Nat} {input : Bytes} {r : BodyReader},
      (arriving r.wire).length + 1 < fuel →
      Reading buffer capacity below orderly input r →
      ∃ result r', Loop.run (untilClosePass lib bodyHandler buffer capacity) fuel r =
          some (result, r') ∧
        ((result = .ok ∧ orderly = true ∧ r'.mem.take buffer = below ∧
            Passed bodyHandler buffer capacity input r r' ∧
            r.storedLength + storedBy bodyHandler input.length < capacity) ∨
          (lib.isError result = true ∧ (orderly = false ∨ result = .insufficientSize ∧
            capacity ≤ r.storedLength + storedBy bodyHandler input.length))) := by
    intro fuel
    induction fuel with
    | zero => intro _ _ hfuel; omega
    | succ fuel ih =>
      intro input r hfuel h
      rcases h.untilClosePass_cases lib hok with
        ⟨t, hpass, ht, hpassed, hshorter⟩ | ⟨t, hpass, hall⟩ | ⟨result, t, hpass, herror, hstuck⟩
      · rw [Loop.run_again hpass]
        have hstored := hpassed.storedLength
        have hsum : storedBy bodyHandler input.length =
            storedBy bodyHandler (r.pending buffer).length +
              storedBy bodyHandler (arriving r.wire).length := by
          rw [← h.ahead, List.length_append, storedBy_add]
        obtain ⟨result, r', hrun, ⟨rfl, horderly, hbelow, hpassed', hroom⟩ | ⟨herror, hstuck⟩⟩ :=
          ih (by omega) ht
        · refine ⟨.ok, r', hrun, .inl ⟨rfl, horderly, hbelow, ?_, by omega⟩⟩
          rw [← h.ahead]
          exact hpassed.trans hpassed'
        · exact ⟨result, r', hrun, .inr ⟨herror, hstuck.imp id (And.imp_right fun _ => by omega)⟩⟩
      · exact ⟨.ok, t, Loop.run_done hpass _, .inl ⟨rfl, hall⟩⟩
      · exact ⟨result, t, Loop.run_done hpass _, .inr ⟨herror, hstuck⟩⟩
  have hle := length_arriving_le r.wire
  exact hloop (by omega) h

end

/-! ## Lines -/

/-- A line without the carriage return before its line feed. -/
def stripCr (line : Bytes) : Bytes := if line.getLast? = some 13 then line.dropLast else line

/-- A first line is ended by the first line feed. -/
theorem firstLine_unique {line line' rest rest' : Bytes} (hline : 10 ∉ line) (hline' : 10 ∉ line')
    (h : line ++ 10 :: rest = line' ++ 10 :: rest') : line = line' ∧ rest = rest' := by
  rcases List.append_eq_append_iff.mp h with ⟨c, rfl, hc⟩ | ⟨c, rfl, hc⟩
  · cases c with
    | nil => simpa using hc
    | cons a c =>
      obtain rfl : 10 = a := by simpa using (List.cons.inj hc).1
      simp at hline'
  · cases c with
    | nil => simpa [eq_comm] using hc
    | cons a c =>
      obtain rfl : 10 = a := by simpa using (List.cons.inj hc).1
      simp at hline

/-- The first line feed of a list ends its first line. -/
theorem split_of_findIdx? {l : Bytes} {i : Nat} (h : l.findIdx? (· == 10) = some i) :
    ∃ line rest, l = line ++ 10 :: rest ∧ 10 ∉ line ∧ line.length = i := by
  obtain ⟨hlt, hfeed, hbefore⟩ := List.findIdx?_eq_some_iff_getElem.mp h
  refine ⟨l.take i, l.drop (i + 1), ?_, fun hmem => ?_, by simp; omega⟩
  · rw [← beq_iff_eq.mp hfeed, ← List.drop_eq_getElem_cons hlt, List.take_append_drop]
  · obtain ⟨j, hj, hget⟩ := List.getElem_of_mem hmem
    rw [List.length_take] at hj
    rw [List.getElem_take] at hget
    exact hbefore j (by omega) (beq_iff_eq.mpr hget)

section

variable {buffer capacity : Nat} {below : Bytes} {orderly : Bool} {input : Bytes} {r : BodyReader}

/-- The end of a line in the window, as `response_body_reader_read_line` finds it. -/
theorem Reading.stripCr_eq (h : Reading buffer capacity below orderly input r) {line rest : Bytes}
    (hline : r.pending buffer = line ++ 10 :: rest) :
    window r.mem (buffer + r.start) ((if r.start < r.start + line.length ∧
      r.mem.getD (buffer + (r.start + line.length - 1)) 0 = 13 then r.start + line.length - 1
        else r.start + line.length) - r.start) = stripCr line := by
  have hlen := h.length_pending
  rw [hline, List.length_append, List.length_cons] at hlen
  have hwindow : ∀ k, k ≤ line.length → window r.mem (buffer + r.start) k = line.take k := by
    intro k hk
    have hpending : (r.pending buffer).take k = window r.mem (buffer + r.start) k := by
      rw [BodyReader.pending, window, List.take_take, Nat.min_eq_left (by omega), window]
    rw [← hpending, hline, List.take_append_of_le_length hk]
  have hbyte : 0 < line.length →
      r.mem.getD (buffer + (r.start + line.length - 1)) 0 = line.getLast?.getD 0 := by
    intro hpos
    have hget : (r.pending buffer)[line.length - 1]? = line.getLast? := by
      rw [hline, List.getElem?_append_left (by omega), List.getLast?_eq_getElem?]
    rw [BodyReader.pending, getElem?_window, if_pos (by omega)] at hget
    rw [show buffer + (r.start + line.length - 1) = buffer + r.start + (line.length - 1) by omega,
      List.getD_eq_getElem?_getD, hget]
  rcases Nat.eq_zero_or_pos line.length with hzero | hpos
  · obtain rfl := List.length_eq_zero_iff.mp hzero
    simp [stripCr]
  · rw [hbyte hpos, stripCr]
    obtain ⟨c, hc⟩ := Option.isSome_iff_exists.mp
      (List.getLast?_isSome.mpr (List.length_pos_iff.mp hpos))
    by_cases hcr : c = 13
    · subst hcr
      rw [hc, if_pos ⟨by omega, rfl⟩, if_pos rfl, hwindow _ (by omega), List.dropLast_eq_take]
      congr 1
      omega
    · rw [hc, if_neg (fun hand => hcr hand.2), if_neg (by simpa using hcr), hwindow _ (by omega),
        List.take_of_length_le (by omega)]

variable (lib : CommonLib)

/-- One pass ends the line, receives more of it, or fails. -/
theorem Reading.readLinePass_cases (h : Reading buffer capacity below orderly input r)
    {scanned : Nat} (hscanned : scanned ≤ (r.pending buffer).length)
    (hclean : 10 ∉ (r.pending buffer).take scanned) :
    (∃ line rest r', input = line ++ 10 :: rest ∧ 10 ∉ line ∧
      r.storedLength + line.length < capacity ∧
      readLinePass lib buffer capacity (scanned, r) = some (.done (.ok, stripCr line, r')) ∧
        Reading buffer capacity below orderly rest r' ∧ Kept buffer r r') ∨
    (∃ r', readLinePass lib buffer capacity (scanned, r) =
        some (.again ((r.pending buffer).length, r')) ∧
      Reading buffer capacity below orderly input r' ∧ Kept buffer r r' ∧
      (r.pending buffer).length < (r'.pending buffer).length ∧
      10 ∉ (r'.pending buffer).take (r.pending buffer).length) ∨
    ((∀ line rest, input = line ++ 10 :: rest → 10 ∉ line →
        capacity ≤ r.storedLength + line.length) ∧
      ∃ r', readLinePass lib buffer capacity (scanned, r) =
        some (.done (shortage capacity (r.storedLength + input.length), [], r'))) := by
  have hlen := h.length_pending
  have hfit := h.fit
  have hstored := h.stored_le
  have hstart := h.start_le
  have hstop := h.stop_le
  rw [readLinePass, pending_advance]
  cases hfind : ((r.pending buffer).drop scanned).findIdx? (· == 10) with
  | some i =>
    obtain ⟨tail, rest, hsplit, htail, hi⟩ := split_of_findIdx? hfind
    have hline : r.pending buffer = ((r.pending buffer).take scanned ++ tail) ++ 10 :: rest := by
      rw [List.append_assoc, ← hsplit, List.take_append_drop]
    have hlength : ((r.pending buffer).take scanned ++ tail).length = scanned + i := by
      rw [List.length_append, List.length_take, Nat.min_eq_left hscanned, hi]
    revert hline hlength
    have hnot : 10 ∉ (r.pending buffer).take scanned ++ tail := by simp [hclean, htail]
    generalize (r.pending buffer).take scanned ++ tail = line at hnot ⊢
    intro hline hlength
    have htotal := hlen
    rw [hline, List.length_append, List.length_cons] at htotal
    refine .inl ⟨line, rest ++ arriving r.wire, { r with start := r.start + line.length + 1 }, ?_,
      hnot, by omega, ?_, ⟨hfit, by dsimp only; omega, by dsimp only; omega, hstop, ?_, h.below,
        h.orderly⟩, ⟨rfl, rfl, rfl⟩⟩
    · rw [← h.ahead, hline]
      simp
    · have hstrip := h.stripCr_eq hline
      dsimp only
      rw [Nat.add_assoc r.start, ← hlength, hstrip]
    · have hadvance := pending_advance r buffer (line.length + 1)
      rw [hline, List.drop_append, List.drop_eq_nil_of_le (by omega)] at hadvance
      rw [BodyReader.pending]
      dsimp only
      rw [Nat.add_assoc r.start, hadvance]
      simp
  | none =>
    have hnone : 10 ∉ r.pending buffer := by
      intro hmem
      rw [← List.take_append_drop scanned (r.pending buffer)] at hmem
      rcases List.mem_append.mp hmem with hmem | hmem
      · exact hclean hmem
      · exact absurd (List.findIdx?_eq_none_iff.mp hfind 10 hmem) (by decide)
    obtain ⟨result, r', hfill, hkept, ⟨rfl, -, hr', more, hmore, hgrown⟩ | ⟨rfl, hover⟩⟩ :=
      h.fillUnlessClosed_cases
    · refine .inr (.inl ⟨r', ?_, hr', hkept, ?_, ?_⟩)
      · rw [hfill, hlen]
        exact unlessError_ok _ _ _
      · have hmore := List.length_pos_iff.mpr hmore
        rw [hgrown, List.length_append]
        omega
      · rwa [hgrown, List.take_left']
        rfl
    · refine .inr (.inr ⟨fun line rest hinput hline => ?_, r', ?_⟩)
      · rcases Nat.lt_or_ge (r.storedLength + (r.pending buffer).length) capacity with hroom | hfull
        · rw [← h.ahead, hover hroom, List.append_nil] at hinput
          exact absurd (hinput ▸ by simp) hnone
        · -- what is pending is a part of the line
          have hle : (r.pending buffer).length ≤ line.length := by
            by_contra hlt
            rw [← h.ahead] at hinput
            have hfeed := congrArg (·[line.length]?) hinput
            simp only [List.getElem?_append_left (Nat.not_le.mp hlt), List.getElem?_append_right
              (Nat.le_refl _), Nat.sub_self, List.getElem?_cons_zero] at hfeed
            exact hnone (List.mem_of_getElem? hfeed)
          omega
      · rw [hfill, Option.map_some, unlessError, if_pos (isError_shortage lib _ _)]
        rcases Nat.lt_or_ge (r.storedLength + (r.pending buffer).length) capacity with hroom | hfull
        · rw [← h.ahead, hover hroom, List.append_nil]
        · rw [shortage_full hfull, shortage_full]
          rw [← h.ahead, List.length_append]
          omega

/-- A line is returned if its line feed arrives and fits behind the stored body. -/
theorem Reading.readLine_cases (h : Reading buffer capacity below orderly input r) :
    (∃ line rest r', input = line ++ 10 :: rest ∧ 10 ∉ line ∧
      r.storedLength + line.length < capacity ∧
      responseBodyReaderReadLine lib buffer capacity r = some (.ok, stripCr line, r') ∧
        Reading buffer capacity below orderly rest r' ∧ Kept buffer r r') ∨
    ((∀ line rest, input = line ++ 10 :: rest → 10 ∉ line →
        capacity ≤ r.storedLength + line.length) ∧
      ∃ line r', responseBodyReaderReadLine lib buffer capacity r =
        some (shortage capacity (r.storedLength + input.length), line, r')) := by
  have hloop := @Loop.run_total _ _ (readLinePass lib buffer capacity)
    (fun s => s.1 ≤ (s.2.pending buffer).length ∧ 10 ∉ (s.2.pending buffer).take s.1 ∧
      Reading buffer capacity below orderly input s.2 ∧ Kept buffer r s.2)
    (fun out => (∃ line rest, input = line ++ 10 :: rest ∧ 10 ∉ line ∧
        r.storedLength + line.length < capacity ∧ out.1 = .ok ∧ out.2.1 = stripCr line ∧
        Reading buffer capacity below orderly rest out.2.2 ∧ Kept buffer r out.2.2) ∨
      ((∀ line rest, input = line ++ 10 :: rest → 10 ∉ line →
        capacity ≤ r.storedLength + line.length) ∧
        out.1 = shortage capacity (r.storedLength + input.length)))
    (fun s => capacity - (s.2.pending buffer).length) ?_ (capacity + 2) (0, r)
    ⟨Nat.zero_le _, by simp, h, .refl⟩ (by dsimp only; omega)
  · obtain ⟨⟨result, line, r'⟩, hrun, ⟨line', rest, hinput, hline, hlt, rfl, rfl, hr', hkept⟩ |
      ⟨hnone, rfl⟩⟩ := hloop
    · exact .inl ⟨line', rest, r', hinput, hline, hlt, hrun, hr', hkept⟩
    · exact .inr ⟨hnone, line, r', hrun⟩
  · rintro ⟨scanned, s⟩ ⟨hscanned, hclean, hs, hkept⟩
    dsimp only at hscanned hclean hs hkept
    have hstored := hkept.storedLength
    rcases hs.readLinePass_cases lib hscanned hclean with
      ⟨line, rest, r', hinput, hline, hlt, hpass, hr', hkept'⟩ |
      ⟨r', hpass, hr', hkept', hgrown, hclean'⟩ | ⟨hnone, r', hpass⟩
    · exact .inl ⟨_, hpass, .inl ⟨line, rest, hinput, hline, by omega, rfl, rfl, hr',
        hkept.trans hkept'⟩⟩
    · refine .inr ⟨_, hpass, ⟨by dsimp only; omega, hclean', hr', hkept.trans hkept'⟩, ?_⟩
      have hlen := hr'.length_pending
      have hstop := hr'.stop_le
      dsimp only
      omega
    · rw [hstored] at hnone hpass
      exact .inl ⟨_, hpass, .inr ⟨hnone, rfl⟩⟩

/-- A given line is returned, if it fits. -/
theorem Reading.readLine (h : Reading buffer capacity below orderly input r) {line rest : Bytes}
    (hinput : input = line ++ 10 :: rest) (hline : 10 ∉ line)
    (hroom : r.storedLength + line.length < capacity) :
    ∃ r', responseBodyReaderReadLine lib buffer capacity r = some (.ok, stripCr line, r') ∧
      Reading buffer capacity below orderly rest r' ∧ Kept buffer r r' := by
  rcases h.readLine_cases lib with
    ⟨line', rest', r', hinput', hline', -, hrun, hr', hkept⟩ | ⟨hnone, -⟩
  · obtain ⟨rfl, rfl⟩ := firstLine_unique hline' hline (hinput'.symm.trans hinput)
    exact ⟨r', hrun, hr', hkept⟩
  · exact absurd (hnone line rest hinput hline) (by omega)

end

end HttpC
