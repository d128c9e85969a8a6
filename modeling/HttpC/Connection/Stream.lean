import HttpC.CommonLib
import HttpC.Library.Loop
import HttpC.Library.Overwrite

/-!
# Reading from a stream

The receive loops of `http_connection.c` fill a buffer from `stream_read`, which is a function
of `common-lib-c`: a `Wire` lists the results it will give. Each loop reads until it has
enough, the buffer is full, or the stream ends, fails or stalls past the deadline, so all are
the same `receive` with their own test for enough.

## Main results

* `receive_spec` — a receive loop stops, and `Flow` says what it has read by then.
-/

namespace HttpC

open Block

/-! ## The model -/

/-- One result of `stream_read`, as the receive loops tell them apart. A `tryAgain` carries
whether the deadline of the exchange has passed by then. -/
inductive StreamEvent where
  | data (bytes : Bytes)
  | tryAgain (expired : Bool)
  | endOfData
  | endOfFile
  | failed
  deriving DecidableEq, Repr

/-- The results a stream will give, in order; past the last one it is at its end. -/
abbrev Wire := List StreamEvent

/-- `stream_read` into `capacity` bytes. What does not fit is left for the next call. -/
def streamRead (capacity : Nat) : Wire → StreamEvent × Wire
  | [] => (.endOfFile, [])
  | .data bytes :: wire =>
    if bytes.length ≤ capacity then (.data bytes, wire)
    else (.data (bytes.take capacity), .data (bytes.drop capacity) :: wire)
  | event :: wire => (event, wire)

/-- `await_progress`: an error once the deadline has passed. -/
def awaitProgress (expired : Bool) : Result := if expired then .error else .ok

/-- The memory of a buffer, how much of it is filled, and the stream that fills it. -/
structure Receiver where
  mem : Bytes
  filled : Nat
  wire : Wire
  deriving DecidableEq, Repr

def Receiver.received (w : Receiver) : Bytes := w.mem.take w.filled

/-- One pass of a receive loop: nothing is stored from `limit` on. -/
def receivePass (limit : Nat) (enough : Bytes → Bool) (w : Receiver) :
    Loop.Pass Receiver (Result × Receiver) :=
  if enough w.received then .done (.ok, w)
  else if limit ≤ w.filled then .done (.insufficientSize, w)
  else
    match streamRead (limit - w.filled) w.wire with
    | (.data bytes, wire) =>
      .again ⟨overwrite w.mem w.filled bytes, w.filled + bytes.length, wire⟩
    | (.tryAgain expired, wire) =>
      if awaitProgress expired = .ok then .again { w with wire }
      else .done (.error, { w with wire })
    | (.endOfData, wire) => .done (.endOfData, { w with wire })
    | (.endOfFile, wire) => .done (.endOfFile, { w with wire })
    | (.failed, wire) => .done (.error, { w with wire })

/-- How many reads a wire is good for, at most. -/
def weight : Wire → Nat
  | [] => 0
  | .data bytes :: wire => bytes.length + 1 + weight wire
  | _ :: wire => 1 + weight wire

def receive (limit : Nat) (enough : Bytes → Bool) (w : Receiver) : Option (Result × Receiver) :=
  Loop.run (fun w => some (receivePass limit enough w)) (weight w.wire + 1) w

/-- `if (is_error(r)) return r;` inside a loop body. -/
def unlessError {σ τ : Type} (lib : CommonLib) (r : Option (Result × τ))
    (next : τ → Option (Loop.Pass σ (Result × τ))) : Option (Loop.Pass σ (Result × τ)) :=
  match r with
  | none => none
  | some (result, s) => if lib.isError result then some (.done (result, s)) else next s

@[simp] theorem unlessError_ok {σ τ : Type} (lib : CommonLib) (s : τ)
    (next : τ → Option (Loop.Pass σ (Result × τ))) :
    unlessError lib (some (.ok, s)) next = next s := by
  simp [unlessError]

/-! ## What a wire brings -/

/-- The bytes that arrive before the stream ends, fails or stalls past the deadline. -/
def arriving : Wire → Bytes
  | .data bytes :: wire => bytes ++ arriving wire
  | .tryAgain false :: wire => arriving wire
  | _ => []

/-- The boundaries between reads: how many bytes there are before the first read and after
each, with `n` before the first. -/
def cutsFrom (n : Nat) : Wire → List Nat
  | .data bytes :: wire => n :: cutsFrom (n + bytes.length) wire
  | .tryAgain false :: wire => cutsFrom n wire
  | _ => [n]

/-- The stream comes to an orderly end, rather than to a failure or a stall. -/
def endsOrderly : Wire → Bool
  | .data _ :: wire | .tryAgain false :: wire => endsOrderly wire
  | .tryAgain true :: _ | .failed :: _ => false
  | .endOfData :: _ | .endOfFile :: _ | [] => true

/-- What the filled part of the memory and the stream hold together. -/
def Receiver.image (w : Receiver) : Bytes := w.received ++ arriving w.wire

theorem Receiver.length_received {w : Receiver} (h : w.filled ≤ w.mem.length) :
    w.received.length = w.filled := by
  simp [received, h]

theorem Receiver.take_image {w : Receiver} (h : w.filled ≤ w.mem.length) :
    w.image.take w.filled = w.received := by
  rw [image, List.take_left' (length_received h)]

theorem length_arriving_le (wire : Wire) : (arriving wire).length ≤ weight wire := by
  induction wire with
  | nil => exact Nat.le_refl _
  | cons event wire ih =>
    match event with
    | .data bytes =>
      rw [arriving, weight, List.length_append]
      omega
    | .tryAgain false =>
      rw [arriving, weight]
      · omega
      · simp
    | .tryAgain true | .endOfData | .endOfFile | .failed => exact Nat.zero_le _

theorem mem_cutsFrom (n : Nat) (wire : Wire) : n ∈ cutsFrom n wire := by
  induction wire with
  | nil => simp [cutsFrom]
  | cons event wire ih =>
    match event with
    | .tryAgain false => exact ih
    | .tryAgain true | .data _ | .endOfData | .endOfFile | .failed => simp [cutsFrom]

theorem le_of_mem_cutsFrom {n b : Nat} {wire : Wire} (h : b ∈ cutsFrom n wire) : n ≤ b := by
  induction wire generalizing n with
  | nil => simp_all [cutsFrom]
  | cons event wire ih =>
    match event with
    | .tryAgain false => exact ih h
    | .data bytes =>
      rcases List.mem_cons.mp h with rfl | h
      · exact Nat.le_refl _
      · have := ih h
        omega
    | .tryAgain true | .endOfData | .endOfFile | .failed => simp_all [cutsFrom]

theorem add_mem_cutsFrom {k n b : Nat} {wire : Wire} :
    k + b ∈ cutsFrom (k + n) wire ↔ b ∈ cutsFrom n wire := by
  induction wire generalizing n with
  | nil => simp [cutsFrom]
  | cons event wire ih =>
    match event with
    | .tryAgain false => exact ih
    | .data bytes => simp only [cutsFrom, List.mem_cons, Nat.add_assoc, ih, Nat.add_right_inj]
    | .tryAgain true | .endOfData | .endOfFile | .failed => simp [cutsFrom]

/-! ## Other bytes in the same reads -/

/-- A read without its bytes, only their number. -/
def StreamEvent.shape : StreamEvent → StreamEvent
  | .data bytes => .data (List.replicate bytes.length 0)
  | event => event

/-- The same reads with the bytes of `s`. -/
def refill : Wire → Bytes → Wire
  | .data bytes :: wire, s => .data (s.take bytes.length) :: refill wire (s.drop bytes.length)
  | .tryAgain false :: wire, s => .tryAgain false :: refill wire s
  | wire, _ => wire

theorem cutsFrom_shape (n : Nat) (wire : Wire) :
    cutsFrom n (wire.map StreamEvent.shape) = cutsFrom n wire := by
  induction wire generalizing n with
  | nil => rfl
  | cons event wire ih =>
    match event with
    | .data bytes =>
      simp only [List.map_cons, StreamEvent.shape, cutsFrom, List.length_replicate, ih]
    | .tryAgain false => exact ih n
    | .tryAgain true | .endOfData | .endOfFile | .failed => rfl

theorem arriving_refill {wire : Wire} {s : Bytes} (h : s.length = (arriving wire).length) :
    arriving (refill wire s) = s := by
  induction wire generalizing s with
  | nil => exact (List.length_eq_zero_iff.mp h).symm
  | cons event wire ih =>
    match event with
    | .data bytes =>
      simp only [arriving, List.length_append] at h
      simp only [refill, arriving]
      rw [ih (by rw [List.length_drop]; omega), List.take_append_drop]
    | .tryAgain false => exact ih h
    | .tryAgain true | .endOfData | .endOfFile | .failed =>
      exact (List.length_eq_zero_iff.mp h).symm

theorem shape_refill {wire : Wire} {s : Bytes} (h : s.length = (arriving wire).length) :
    (refill wire s).map StreamEvent.shape = wire.map StreamEvent.shape := by
  induction wire generalizing s with
  | nil => rfl
  | cons event wire ih =>
    match event with
    | .data bytes =>
      simp only [arriving, List.length_append] at h
      simp only [refill, List.map_cons, StreamEvent.shape, List.length_take,
        Nat.min_eq_left (show bytes.length ≤ s.length by omega)]
      rw [ih (by rw [List.length_drop]; omega)]
    | .tryAgain false => exact congrArg (StreamEvent.tryAgain false :: ·) (ih h)
    | .tryAgain true | .endOfData | .endOfFile | .failed => rfl

/-! ## One read -/

/-- The bytes of a read, taken off the wire: a whole piece or the start of one. -/
theorem streamRead_data {capacity : Nat} {wire rest : Wire} {bytes : Bytes}
    (h : streamRead capacity wire = (.data bytes, rest)) :
    (wire = .data bytes :: rest ∧ bytes.length ≤ capacity) ∨
    ∃ more tail, wire = .data (bytes ++ more) :: tail ∧ rest = .data more :: tail ∧
      bytes.length = capacity := by
  match wire with
  | [] => simp [streamRead] at h
  | .data piece :: tail =>
    simp only [streamRead] at h
    split_ifs at h with hfit
    · obtain ⟨⟨rfl⟩, rfl⟩ := Prod.mk.inj h
      exact .inl ⟨rfl, hfit⟩
    · obtain ⟨⟨rfl⟩, rfl⟩ := Prod.mk.inj h
      refine .inr ⟨piece.drop capacity, tail, ?_, rfl, by simp; omega⟩
      rw [List.take_append_drop]
  | .tryAgain _ :: _ | .endOfData :: _ | .endOfFile :: _ | .failed :: _ => simp [streamRead] at h

theorem streamRead_other {capacity : Nat} {wire rest : Wire} {e : StreamEvent}
    (h : streamRead capacity wire = (e, rest)) (he : ∀ bytes, e ≠ .data bytes) :
    wire = e :: rest ∨ (wire = [] ∧ e = .endOfFile ∧ rest = []) := by
  match wire with
  | [] =>
    obtain ⟨rfl, rfl⟩ := Prod.mk.inj h
    exact .inr ⟨rfl, rfl, rfl⟩
  | .data piece :: tail =>
    simp only [streamRead] at h
    split_ifs at h <;> exact absurd (Prod.mk.inj h).1.symm (he _)
  | .tryAgain _ :: _ | .endOfData :: _ | .endOfFile :: _ | .failed :: _ =>
    obtain ⟨rfl, rfl⟩ := Prod.mk.inj h
    exact .inl rfl

/-- Nothing arrives behind an end, a failure or a stall. -/
theorem streamRead_over {capacity : Nat} {wire rest : Wire} {e : StreamEvent}
    (h : streamRead capacity wire = (e, rest)) (hdata : ∀ bytes, e ≠ .data bytes)
    (hagain : e ≠ .tryAgain false) :
    arriving wire = [] ∧ endsOrderly wire = (e matches .endOfData | .endOfFile) := by
  rcases streamRead_other h hdata with rfl | ⟨rfl, rfl, -⟩
  · match e with
    | .data bytes => exact absurd rfl (hdata bytes)
    | .tryAgain false => exact absurd rfl hagain
    | .tryAgain true | .endOfData | .endOfFile | .failed => exact ⟨rfl, rfl⟩
  · exact ⟨rfl, rfl⟩

/-! ## Reading on -/

/-- What reading on from `w` to `w'` leaves alone, and where it stops: at a boundary between
two reads or at the limit, with too little at every boundary before. -/
structure Flow (limit : Nat) (enough : Bytes → Bool) (w w' : Receiver) : Prop where
  length_mem : w'.mem.length = w.mem.length
  le : w.filled ≤ w'.filled
  le_limit : w'.filled ≤ limit
  image : w'.image = w.image
  below : w'.mem.take w.filled = w.mem.take w.filled
  above : w'.mem.drop limit = w.mem.drop limit
  cuts : ∀ b ∈ cutsFrom w'.filled w'.wire, b ∈ cutsFrom w.filled w.wire ∨ b = limit
  later : ∀ b ∈ cutsFrom w.filled w.wire, w'.filled ≤ b → b ∈ cutsFrom w'.filled w'.wire
  tooLittle : ∀ b ∈ cutsFrom w.filled w.wire, b < w'.filled → enough (w.image.take b) = false
  orderly : endsOrderly w'.wire = endsOrderly w.wire

section

variable {limit : Nat} {enough : Bytes → Bool} {w w' w'' : Receiver}

theorem Flow.refl (h : w.filled ≤ limit) : Flow limit enough w w where
  length_mem := rfl
  le := Nat.le_refl _
  le_limit := h
  image := rfl
  below := rfl
  above := rfl
  cuts _ hb := .inl hb
  later _ hb _ := hb
  tooLittle _ hb hlt := absurd (le_of_mem_cutsFrom hb) (by omega)
  orderly := rfl

theorem Flow.trans (h : Flow limit enough w w') (h' : Flow limit enough w' w'') :
    Flow limit enough w w'' where
  length_mem := h'.length_mem.trans h.length_mem
  le := h.le.trans h'.le
  le_limit := h'.le_limit
  image := h'.image.trans h.image
  below := (take_eq_of_take h'.below h.le).trans h.below
  above := h'.above.trans h.above
  cuts b hb := (h'.cuts b hb).elim (h.cuts b) .inr
  later b hb hle := h'.later b (h.later b hb (h'.le.trans hle)) hle
  tooLittle b hb hlt := by
    by_cases hlt' : b < w'.filled
    · exact h.tooLittle b hb hlt'
    · rw [← h.image]
      exact h'.tooLittle b (h.later b hb (Nat.not_lt.mp hlt')) hlt
  orderly := h'.orderly.trans h.orderly

/-- A read of some bytes. -/
theorem Flow.data (hfit : limit ≤ w.mem.length) (hlt : w.filled < limit)
    (hfew : enough w.received = false) {bytes : Bytes} {wire : Wire}
    (h : streamRead (limit - w.filled) w.wire = (.data bytes, wire)) :
    Flow limit enough w ⟨overwrite w.mem w.filled bytes, w.filled + bytes.length, wire⟩ ∧
      weight wire < weight w.wire := by
  obtain ⟨mem, n, before⟩ := w
  dsimp only at hfit hlt h ⊢
  have hle : bytes.length ≤ limit - n := by
    rcases streamRead_data h with ⟨-, hle⟩ | ⟨-, -, -, -, hle⟩ <;> omega
  have htake : (Receiver.image ⟨mem, n, before⟩).take n = Receiver.received ⟨mem, n, before⟩ :=
    Receiver.take_image (w := ⟨mem, n, before⟩) (show n ≤ mem.length by omega)
  have hstored : (overwrite mem n bytes).take (n + bytes.length) = mem.take n ++ bytes :=
    take_overwrite_append (by omega)
  have hmem : (overwrite mem n bytes).drop limit = mem.drop limit := by
    have hlen : (mem.take n ++ bytes).length = n + bytes.length := by
      rw [List.length_append, List.length_take, Nat.min_eq_left (by omega)]
    rw [overwrite, List.drop_append, List.drop_of_length_le (by omega), hlen, List.drop_drop,
      List.nil_append]
    congr 1
    omega
  rcases streamRead_data h with ⟨rfl, -⟩ | ⟨more, tail, rfl, rfl, hfull⟩
  · refine ⟨?_, by simp only [weight]; omega⟩
    exact {
      length_mem := length_overwrite (by omega)
      le := Nat.le_add_right _ _
      le_limit := by dsimp only; omega
      image := by simp only [Receiver.image, Receiver.received, hstored, arriving,
        List.append_assoc]
      below := take_overwrite (show n ≤ mem.length by omega)
      above := hmem
      cuts := fun b hb => .inl (List.mem_cons_of_mem _ hb)
      later := fun b hb hle => by
        rcases List.mem_cons.mp hb with rfl | hb
        · dsimp only at hle ⊢
          have hnil : bytes.length = 0 := by omega
          simpa [hnil] using mem_cutsFrom b wire
        · exact hb
      tooLittle := fun b hb hlt' => by
        rcases List.mem_cons.mp hb with rfl | hb
        · rwa [htake]
        · have hge := le_of_mem_cutsFrom hb
          dsimp only at hge hlt'
          omega
      orderly := rfl }
  · refine ⟨?_, by simp only [weight, List.length_append]; omega⟩
    exact {
      length_mem := length_overwrite (by omega)
      le := Nat.le_add_right _ _
      le_limit := by dsimp only; omega
      image := by simp only [Receiver.image, Receiver.received, hstored, arriving,
        List.append_assoc]
      below := take_overwrite (show n ≤ mem.length by omega)
      above := hmem
      cuts := fun b hb => by
        rcases List.mem_cons.mp hb with rfl | hb
        · exact .inr (by dsimp only; omega)
        · exact .inl (List.mem_cons_of_mem _ (by rwa [List.length_append, ← Nat.add_assoc]))
      later := fun b hb hle => by
        rcases List.mem_cons.mp hb with rfl | hb
        · exact absurd hle (by dsimp only; omega)
        · exact List.mem_cons_of_mem _ (by rwa [List.length_append, ← Nat.add_assoc] at hb)
      tooLittle := fun b hb hlt' => by
        rcases List.mem_cons.mp hb with rfl | hb
        · rwa [htake]
        · have hge := le_of_mem_cutsFrom hb
          rw [List.length_append] at hge
          dsimp only at hge hlt'
          omega
      orderly := rfl }

/-- A `tryAgain` in time. -/
theorem Flow.tryAgain (hle : w.filled ≤ limit) {wire : Wire}
    (h : streamRead (limit - w.filled) w.wire = (.tryAgain false, wire)) :
    Flow limit enough w { w with wire } ∧ weight wire < weight w.wire := by
  obtain ⟨mem, n, before⟩ := w
  rcases streamRead_other h (by simp) with hwire | ⟨-, hend, -⟩
  · dsimp only at hwire
    subst hwire
    exact ⟨{ Flow.refl hle with }, by simp [weight]⟩
  · simp at hend

/-! ## The loop -/

/-- How a receive loop leaves, after reading on to `w₁`. -/
inductive Stopped (limit : Nat) (enough : Bytes → Bool) (w₁ : Receiver) :
    Result → Receiver → Prop where
  | enough (h : enough w₁.received = true) : Stopped limit enough w₁ .ok w₁
  | full (h : enough w₁.received = false) (hfull : w₁.filled = limit) :
    Stopped limit enough w₁ .insufficientSize w₁
  /-- Everything that arrives has been received. -/
  | ended {result : Result} {wire : Wire} (h : enough w₁.received = false)
    (hroom : w₁.filled < limit) (hover : arriving w₁.wire = [])
    (hend : (result = .error ∧ endsOrderly w₁.wire = false) ∨
      ((result = .endOfData ∨ result = .endOfFile) ∧ endsOrderly w₁.wire = true)) :
    Stopped limit enough w₁ result { w₁ with wire }

/-- A receive loop stops, after reading on. -/
theorem receive_spec (hfit : limit ≤ w.mem.length) (hle : w.filled ≤ limit) :
    ∃ result w' w₁, receive limit enough w = some (result, w') ∧ Flow limit enough w w₁ ∧
      Stopped limit enough w₁ result w' := by
  have hloop := @Loop.run_total _ _ (fun w => some (receivePass limit enough w))
    (Flow limit enough w) (fun r => ∃ w₁, Flow limit enough w w₁ ∧ Stopped limit enough w₁ r.1 r.2)
    (fun w => weight w.wire) ?_ _ _ (Flow.refl hle) (Nat.lt_succ_self _)
  · obtain ⟨⟨result, w'⟩, hrun, w₁, hflow, hstop⟩ := hloop
    exact ⟨result, w', w₁, hrun, hflow, hstop⟩
  · intro s hs
    have hfit' : limit ≤ s.mem.length := by rw [hs.length_mem]; exact hfit
    simp only [receivePass]
    by_cases henough : enough s.received = true
    · rw [if_pos henough]
      exact .inl ⟨_, rfl, s, hs, .enough henough⟩
    have hfew := Bool.eq_false_iff.mpr henough
    rw [if_neg henough]
    by_cases hfull : limit ≤ s.filled
    · rw [if_pos hfull]
      exact .inl ⟨_, rfl, s, hs, .full hfew (Nat.le_antisymm hs.le_limit hfull)⟩
    rw [if_neg hfull]
    have hroom : s.filled < limit := Nat.lt_of_not_le hfull
    rcases hread : streamRead (limit - s.filled) s.wire with ⟨event, wire⟩
    cases event with
    | data bytes =>
      obtain ⟨hflow, hweight⟩ := Flow.data hfit' hroom hfew hread
      exact .inr ⟨_, rfl, hs.trans hflow, hweight⟩
    | tryAgain expired =>
      cases expired with
      | false =>
        obtain ⟨hflow, hweight⟩ := Flow.tryAgain hs.le_limit hread
        exact .inr ⟨_, rfl, hs.trans hflow, hweight⟩
      | true =>
        obtain ⟨hover, hend⟩ := streamRead_over hread (by simp) (by simp)
        exact .inl ⟨_, rfl, s, hs, .ended hfew hroom hover (.inl ⟨rfl, hend⟩)⟩
    | endOfData =>
      obtain ⟨hover, hend⟩ := streamRead_over hread (by simp) (by simp)
      exact .inl ⟨_, rfl, s, hs, .ended hfew hroom hover (.inr ⟨.inl rfl, hend⟩)⟩
    | endOfFile =>
      obtain ⟨hover, hend⟩ := streamRead_over hread (by simp) (by simp)
      exact .inl ⟨_, rfl, s, hs, .ended hfew hroom hover (.inr ⟨.inr rfl, hend⟩)⟩
    | failed =>
      obtain ⟨hover, hend⟩ := streamRead_over hread (by simp) (by simp)
      exact .inl ⟨_, rfl, s, hs, .ended hfew hroom hover (.inl ⟨rfl, hend⟩)⟩

theorem Flow.received (h : Flow limit enough w w') (hfit : limit ≤ w.mem.length) :
    w'.received = w.image.take w'.filled := by
  rw [← h.image, Receiver.take_image]
  rw [h.length_mem]
  exact h.le_limit.trans hfit

/-- With `t` bytes enough, and as many to come and room for them, the loop gets enough. -/
theorem receive_ok (hfit : limit ≤ w.mem.length) (hle : w.filled ≤ limit) {t : Nat}
    (henough : ∀ n, t ≤ n → enough (w.image.take n) = true) (hroom : t ≤ limit)
    (hlen : t ≤ w.image.length) :
    ∃ w', receive limit enough w = some (.ok, w') ∧ Flow limit enough w w' ∧
      enough w'.received = true := by
  obtain ⟨result, w', w₁, hrun, hflow, hstop⟩ := @receive_spec _ enough _ hfit hle
  have hreceived := hflow.received hfit
  cases hstop with
  | enough h => exact ⟨_, hrun, hflow, h⟩
  | full h hfull =>
    rw [hreceived, henough _ (hfull ▸ hroom)] at h
    cases h
  | ended h _ hover _ =>
    have hall : w.image = w₁.received := by
      rw [← hflow.image, Receiver.image, hover, List.append_nil]
    rw [← hall, ← List.take_length (l := w.image), henough _ hlen] at h
    cases h

end

end HttpC
