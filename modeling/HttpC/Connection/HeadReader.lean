import HttpC.Connection.Stream
import HttpC.MessageHead

/-!
# Reading up to the blank line

`read_until_headers_complete` of `http_connection.c`, and spans over the caller's buffer. The
read that brings the blank line may bring more; `received` ends where that read ends.

## Main results

* `readUntilHeadersComplete_spec` — on a stream that starts with a head, the reader stops at the
  first read boundary that is not before the end of the head.
-/

namespace HttpC

open Block

/-! ## The model -/

/-- The span over `n` bytes of the buffer at `ptr`, from offset `i` on. -/
def spanAt (ptr : Nat) (mem : Bytes) (i n : Nat) : Span := ⟨ptr + i, window mem i n⟩

/-- A span into the buffer at `ptr`, over what the memory holds now. -/
def Span.reread (s : Span) (ptr : Nat) (mem : Bytes) : Span :=
  ⟨s.ptr, window mem (s.ptr - ptr) s.size⟩

def HttpHeaders.reread (h : HttpHeaders) (ptr : Nat) (mem : Bytes) : HttpHeaders :=
  { h with buffer := h.buffer.reread ptr mem, iterator := h.iterator.reread ptr mem }

variable (lib : CommonLib)

/-- `read_until_headers_complete` into the buffer at `ptr`. -/
def readUntilHeadersComplete (ptr : Nat) (mem : Bytes) (wire : Wire) : Option (Result × Receiver) :=
  receive mem.length
    (fun received => (lib.spanFindReverse ⟨ptr, received⟩ headersTerminator).isSome) ⟨mem, 0, wire⟩

/-! ## Spans that later stores leave alone -/

/-- A span over the first `n` bytes of the buffer. -/
def Span.Below (s : Span) (ptr : Nat) (mem : Bytes) (n : Nat) : Prop :=
  s.bytes = [] ∨ ∃ i, s.ptr = ptr + i ∧ i + s.size ≤ n ∧ s.bytes = window mem i s.size

section

variable {ptr n : Nat} {mem mem' : Bytes} {s : Span}

theorem Span.Below.reread_eq (h : s.Below ptr mem n) (hmem : mem'.take n = mem.take n) :
    s.reread ptr mem' = s := by
  have hbytes : window mem' (s.ptr - ptr) s.size = s.bytes := by
    rcases h with hnil | ⟨i, hptr, hle, hbytes⟩
    · rw [Span.size, hnil, List.length_nil, window_zero_length]
    · rw [hbytes, hptr, Nat.add_sub_cancel_left]
      exact window_eq_of_take hmem hle
  rw [Span.reread, hbytes]

/-- A part of the received bytes. -/
theorem Span.below_sub {i k m : Nat} (h : i + k ≤ n) (hn : n ≤ m) (hm : m ≤ mem.length) :
    ((⟨ptr, mem.take m⟩ : Span).sub i k).Below ptr mem n := by
  refine .inr ⟨i, rfl, ?_, ?_⟩
  · simp only [Span.size, Span.bytes_sub, List.length_take, List.length_drop]
    omega
  · simp only [Span.size, Span.bytes_sub, window, List.length_take, List.length_drop,
      List.drop_take, List.take_take]
    congr 1
    omega

end

/-! ## The head on a stream -/

section

variable (ptr : Nat) (mem : Bytes) {head : MessageHead} {rest : Bytes} {wire : Wire}

/-- What has been read when the blank line has been found. -/
structure HeadRead (mem : Bytes) (wire : Wire) (head : MessageHead) (w : Receiver) : Prop where
  length_mem : w.mem.length = mem.length
  le : head.encode.length ≤ w.filled
  le_mem : w.filled ≤ mem.length
  image : w.image = arriving wire
  cuts : ∀ b ∈ cutsFrom w.filled w.wire, b ∈ cutsFrom 0 wire ∨ b = mem.length
  later : ∀ b ∈ cutsFrom 0 wire, w.filled ≤ b → b ∈ cutsFrom w.filled w.wire
  first : ∀ b ∈ cutsFrom 0 wire, b < w.filled → b < head.encode.length
  orderly : endsOrderly w.wire = endsOrderly wire

theorem readUntilHeadersComplete_spec (hwf : head.WellFormed)
    (hstream : arriving wire = head.encode ++ rest) :
    (mem.length < head.encode.length ∧ ∃ w, readUntilHeadersComplete lib ptr mem wire =
        some (.insufficientSize, w)) ∨
    ∃ w, readUntilHeadersComplete lib ptr mem wire = some (.ok, w) ∧ HeadRead mem wire head w := by
  have himage : (Receiver.mk mem 0 wire).image = head.encode ++ rest := by
    simp [Receiver.image, Receiver.received, hstream]
  have henough : ∀ k, (lib.spanFindReverse ⟨ptr, (head.encode ++ rest).take k⟩
      headersTerminator).isSome = true ↔ head.encode.length ≤ k := by
    intro k
    rw [lib.spanFindReverse_eq _ _ headersTerminator_ne_nil]
    exact hwf.received_iff rest k
  have hlen : head.encode.length ≤ (head.encode ++ rest).length := by simp
  obtain ⟨result, w', w, hrun, hflow, hstop⟩ := @receive_spec mem.length
    (fun received => (lib.spanFindReverse ⟨ptr, received⟩ headersTerminator).isSome)
    ⟨mem, 0, wire⟩ (Nat.le_refl _) (Nat.zero_le _)
  have hreceived := hflow.received (Nat.le_refl _)
  rw [himage] at hreceived
  cases hstop with
  | enough h =>
    rw [hreceived, henough] at h
    refine .inr ⟨_, hrun, hflow.length_mem, h, hflow.le_limit, ?_, hflow.cuts, hflow.later, ?_,
      hflow.orderly⟩
    · rw [hflow.image, himage, hstream]
    · intro b hb hlt
      have hfew := hflow.tooLittle b hb hlt
      rw [himage, Bool.eq_false_iff, ne_eq, henough] at hfew
      omega
  | full h hfull =>
    rw [hreceived, Bool.eq_false_iff, ne_eq, henough] at h
    exact .inl ⟨by omega, _, hrun⟩
  | ended h _ hover _ =>
    have hall := hflow.image
    rw [Receiver.image, hover, List.append_nil, himage] at hall
    rw [hall, ← List.take_length (l := head.encode ++ rest), Bool.eq_false_iff, ne_eq,
      henough] at h
    exact absurd hlen h

end

end HttpC
