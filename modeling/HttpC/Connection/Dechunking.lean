import HttpC.Connection.Dechunker

/-!
# Dechunking and the division into reads

The call that `maybe_read_body` makes of `read_chunked_body`: the output and the raw buffer
are one free region. A size line is read as far as it is buffered, so the decoded body depends
on where the reads end: a boundary inside the digits of a size cuts the size short.

## Main results

* `readChunkedBody_decodes` — without a read boundary inside the digits of a size, the output
  is the payload and no store hits an unread byte.
* `dechunks_iff` — for given chunk lengths and reads, every payload is decoded exactly when no
  boundary lies inside the digits of a size.
-/

namespace HttpC

open Block

/-! ## The call of `maybe_read_body` -/

/-- A call with the output and the raw buffer in one free region of `cap` bytes at `raw`. -/
structure DechunkCall where
  mem : Bytes
  wire : Wire
  rptr : Nat
  rlen : Nat
  raw : Nat
  cap : Nat
  deriving DecidableEq, Repr

namespace DechunkCall

def run (lib : CommonLib) (k : DechunkCall) : Option (Result × Dechunker) :=
  readChunkedBody lib k.raw k.cap k.raw k.cap k.mem k.wire k.rptr k.rlen

/-- The bytes prefetched with the head. -/
def prefetched (k : DechunkCall) : Bytes := window k.mem k.rptr k.rlen

/-- The read boundaries, counted from the start of the body. -/
def boundaries (k : DechunkCall) : List Nat := cutsFrom k.rlen k.wire

/-- The remainder lies before the free region, and the encoding of `body`, which begins in the
remainder and goes on in the stream, fits the region. -/
structure Carries (k : DechunkCall) (body : ChunkedBody) : Prop where
  before : k.rptr + k.rlen ≤ k.raw
  fits : k.raw + k.cap ≤ k.mem.length
  cap_lt : k.cap < 2 ^ 32
  wellFormed : body.WellFormed
  stream : body.encode <+: k.prefetched ++ arriving k.wire
  room : body.encode.length ≤ k.cap

/-- The call returns `ok`, the output is `payload` and no store hits an unread byte. -/
def Decodes (lib : CommonLib) (k : DechunkCall) (payload : Bytes) : Prop :=
  ∃ s, k.run lib = some (.ok, s) ∧ s.output k.raw = payload ∧ ∀ store ∈ s.stores, store.Harmless

end DechunkCall

/-- No read boundary lies strictly inside the digits of a chunk's size. -/
def ChunkedBody.UncutSizes (body : ChunkedBody) (bs : List Nat) : Prop :=
  ∀ before c after, body.chunks = before ++ c :: after →
    Uncut bs (before.flatMap Chunk.encode).length c.line

/-- Boundaries behind the encoding cut nothing. -/
theorem ChunkedBody.uncutSizes_of_le {body : ChunkedBody} {bs : List Nat}
    (h : ∀ b ∈ bs, body.encode.length ≤ b) : body.UncutSizes bs := by
  intro before c after heq b hb hlt
  have hge := h b hb
  have hlen := c.length_encode
  simp only [ChunkedBody.encode, heq, List.flatMap_append, List.flatMap_cons,
    List.length_append] at hge
  omega

section

variable (lib : CommonLib) {k : DechunkCall} {body : ChunkedBody}

theorem DechunkCall.Carries.length_prefetched (h : k.Carries body) :
    k.prefetched.length = k.rlen := by
  have hbefore := h.before
  have hfits := h.fits
  exact length_window (by omega)

/-- The state before the first pass: the remainder has been moved into the region, as far as
it fits. -/
theorem DechunkCall.start (hbefore : k.rptr + k.rlen ≤ k.raw)
    (hfits : k.raw + k.cap ≤ k.mem.length) :
    let bs := cutsFrom (min k.rlen k.cap) k.wire
    ∃ s, k.run lib = Loop.run (chunkPass lib k.raw k.cap k.raw k.cap) (k.cap + 1) s ∧
      Holding k.raw k.cap (k.prefetched.take k.cap ++ arriving k.wire) bs s ∧ s.pos = 0 ∧
      s.olen = 0 ∧ s.rawLen = min k.rlen k.cap ∧ Tight bs s := by
  intro bs
  have hkeep : ∀ s : Dechunker, s.wire = k.wire → s.rawLen = min k.rlen k.cap → s.pos = 0 →
      s.olen = 0 → k.raw + k.cap ≤ s.mem.length →
      window s.mem k.raw (min k.rlen k.cap) = k.prefetched.take k.cap →
      (∀ store ∈ s.stores, store.Harmless) →
      Holding k.raw k.cap (k.prefetched.take k.cap ++ arriving k.wire) bs s ∧ Tight bs s := by
    intro s hwire hraw hpos holen hmem hwindow hstores
    refine ⟨⟨hmem, by omega, by omega, ?_, ?_, ?_, by omega, hstores⟩, ?_⟩
    · rw [Dechunker.buffered, hpos, hraw, hwire, Nat.add_zero, Nat.sub_zero, hwindow,
        List.drop_zero]
    · rw [hraw, hwire]
      exact fun b hb => .inl hb
    · rw [hraw, hwire]
      exact fun b hb _ => hb
    · intro b hb _
      rw [hraw]
      exact le_of_mem_cutsFrom hb
  by_cases hmoved : 0 < k.rlen
  · have hne : k.rptr ≠ k.raw := by omega
    have hr : (if (0 < k.rlen ∧ k.rptr ≠ k.raw) ∧ k.cap < k.rlen then k.cap else k.rlen) =
        min k.rlen k.cap := by
      split_ifs <;> omega
    have hwindow : window k.mem k.rptr (min k.rlen k.cap) = k.prefetched.take k.cap := by
      rw [DechunkCall.prefetched, window, window, List.take_take, Nat.min_comm]
    have hlen : (window k.mem k.rptr (min k.rlen k.cap)).length = min k.rlen k.cap :=
      length_window (by omega)
    have hstored := window_overwrite_self (l := k.mem) (i := k.raw)
      (d := window k.mem k.rptr (min k.rlen k.cap)) (by omega)
    rw [hlen] at hstored
    obtain ⟨hhold, htight⟩ := hkeep ⟨move k.mem k.raw k.rptr (min k.rlen k.cap), k.wire,
      min k.rlen k.cap, 0, 0, [⟨k.raw, min k.rlen k.cap, k.rptr, k.rptr + min k.rlen k.cap⟩]⟩
      rfl rfl
      rfl rfl (by rw [move, length_overwrite (by rw [hlen]; omega)]; exact hfits)
      (hstored.trans hwindow) (by
        intro store hstore
        rw [List.mem_singleton.mp hstore]
        exact .inr (.inr (by dsimp only; omega)))
    refine ⟨_, ?_, hhold, rfl, rfl, rfl, htight⟩
    rw [DechunkCall.run, readChunkedBody, hr, if_pos (And.intro hmoved hne),
      if_pos (And.intro hmoved hne)]
  · have hzero : k.rlen = 0 := by omega
    have hnil : k.prefetched = [] := by rw [DechunkCall.prefetched, hzero, window_zero_length]
    obtain ⟨hhold, htight⟩ := hkeep ⟨k.mem, k.wire, 0, 0, 0, []⟩ rfl (by simp [hzero]) rfl rfl hfits
      (by simp [hzero, hnil]) (by simp)
    refine ⟨_, ?_, hhold, rfl, rfl, by simp [hzero], htight⟩
    simp [DechunkCall.run, readChunkedBody, hzero]

/-- The part of the remainder that fits the region is enough for the encoding. -/
theorem DechunkCall.Carries.stream_take (h : k.Carries body) :
    body.encode <+: k.prefetched.take k.cap ++ arriving k.wire := by
  have hlen := h.length_prefetched
  by_cases hfit : k.rlen ≤ k.cap
  · rw [List.take_of_length_le (by omega)]
    exact h.stream
  · have hle : body.encode.length ≤ (k.prefetched.take k.cap).length := by
      rw [List.length_take, hlen]
      have := h.room
      omega
    have hpre : k.prefetched.take k.cap <+: k.prefetched ++ arriving k.wire :=
      (List.take_prefix _ _).trans (List.prefix_append _ _)
    exact (List.prefix_of_prefix_length_le h.stream hpre hle).trans (List.prefix_append _ _)

/-- Without a cut size the call decodes the body. -/
theorem readChunkedBody_decodes (h : k.Carries body) (hcut : body.UncutSizes k.boundaries) :
    k.Decodes lib body.payload := by
  obtain ⟨s, hrun, hhold, hpos, holen, -, -⟩ := k.start lib h.before h.fits
  obtain ⟨rest, hrest⟩ := h.stream_take
  have hroom := h.room
  have hcut' : ∀ before c after, body.chunks = before ++ c :: after →
      Uncut (cutsFrom (min k.rlen k.cap) k.wire)
        (s.pos + (before.flatMap Chunk.encode).length) c.line := by
    intro before c after heq
    rw [hpos, Nat.zero_add]
    by_cases hfit : k.rlen ≤ k.cap
    · rw [Nat.min_eq_left hfit]
      exact hcut before c after heq
    · refine ChunkedBody.uncutSizes_of_le (fun b hb => ?_) before c after heq
      have hge := le_of_mem_cutsFrom hb
      omega
  obtain ⟨s', hloop, hs', hw⟩ := hhold.decode lib h.wellFormed
    (by rw [hpos, List.drop_zero, hrest]) (by omega) h.cap_lt hcut'
  refine ⟨s', hrun.trans hloop, ?_, hs'.harmless⟩
  rw [hw, Dechunker.output, holen, window_zero_length, List.nil_append]

end

/-! ## A cut size -/

/-- A letter that is neither a hex digit nor part of a line end. -/
def filler : UInt8 := 88

/-- The chunk with nothing but filler for data. -/
def Chunk.blank (c : Chunk) : Chunk := { c with data := List.replicate c.data.length filler }

/-- The body with the same framing and nothing but filler for data. -/
def ChunkedBody.blank (b : ChunkedBody) : ChunkedBody :=
  { b with chunks := b.chunks.map Chunk.blank }

section

variable (lib : CommonLib) {raw cap : Nat} {input : Bytes} {bs : List Nat} {s : Dechunker}

/-- With a boundary inside the digits, the size counts only the digits before it: too little
data is moved, and what is left of it ends the loop as a size line without digits. -/
theorem Holding.cutChunk (h : Holding raw cap input bs s) (ht : Tight bs s) {c : Chunk}
    (hwf : c.WellFormed) {rest : Bytes} (hchunk : input.drop s.pos = c.blank.encode ++ rest)
    (hroom : s.pos + c.encode.length ≤ cap) (hcap : cap < 2 ^ 32)
    (hcut : ¬ Uncut bs s.pos c.line) :
    ∃ s', (∀ fuel, Loop.run (chunkPass lib raw cap raw cap) (fuel + 2) s = some (.ok, s')) ∧
      (s'.output raw).length < (s.output raw).length + c.data.length := by
  simp only [Uncut, not_forall, not_not] at hcut
  obtain ⟨b, hb, hlt, hlt'⟩ := hcut
  have hlen := c.length_encode
  have hcount := c.line.length_encode
  have hline : input.drop s.pos = c.line.encode ++
      (List.replicate c.data.length filler ++ (crlf.bytes ++ rest)) := by
    rw [hchunk, Chunk.encode, List.append_assoc, List.append_assoc]
    rfl
  obtain ⟨m, s₁, hpass, hs₁, hparsed, hm, -, hfirst⟩ := h.sizeLine lib hwf.line hline
    (by omega)
  have hmb := hfirst ht b hb hlt
  have hpos := List.length_pos_iff.mpr hwf.data
  obtain ⟨n, hn⟩ : ∃ n, hexNumber (c.line.digits.take m) = n := ⟨_, rfl⟩
  have hsixteen : n * 16 ≤ c.data.length := by
    have hmul := hexNumber_mul_le (x := c.line.digits.take m) (y := c.line.digits.drop m)
      (by simp; omega)
    rwa [List.take_append_drop, ← ChunkLine.size, hwf.size, hn] at hmul
  rw [hn, Nat.mod_eq_of_lt (by omega)] at hpass
  by_cases hzero : n = 0
  · -- the buffered digits are all zero
    refine ⟨s₁, fun fuel => ?_, by rw [hparsed.output]; omega⟩
    rw [hzero] at hpass
    exact Loop.run_done hpass _
  have hp₁ := hparsed.pos
  have hdata : input.drop s₁.pos = List.replicate n filler ++
      (List.replicate (c.data.length - n) filler ++ (crlf.bytes ++ rest)) := by
    rw [hp₁, ← List.drop_drop, hline, List.drop_left,
      ← List.append_assoc (List.replicate n filler), List.replicate_append_replicate,
      Nat.add_sub_cancel' (by omega)]
  have hinput := congrArg List.length hdata
  simp only [List.length_drop, List.length_append, List.length_replicate, crlf_length] at hinput
  obtain ⟨s₂, hcopy, hs₂, hp₂, -, hw₂, -⟩ := @Holding.copy lib raw cap input bs s₁ hs₁ _ _ hdata
    (by rw [List.length_replicate]; omega) (n + 1) (by rw [List.length_replicate]; omega)
  rw [List.length_replicate] at hcopy hp₂
  obtain ⟨s₃, hrun, hs₃, hfill⟩ := @Holding.ensure raw cap 2 input bs s₂ hs₂ (by omega) (by omega)
  have hp₃ := hfill.pos
  have henough := hfill.enough
  have hleft : input.drop s₃.pos =
      List.replicate (c.data.length - n) filler ++ (crlf.bytes ++ rest) := by
    rw [hp₃, hp₂, ← List.drop_drop, hdata, List.drop_left' List.length_replicate]
  have hbyte : s₃.byte raw = filler := by
    obtain ⟨j, hj⟩ : ∃ j, c.data.length - n = j + 1 := ⟨c.data.length - n - 1, by omega⟩
    rw [hj, List.replicate_succ, List.cons_append] at hleft
    exact hs₃.byte_eq (by omega) hleft
  have hagain : chunkPass lib raw cap raw cap s = some (.again s₃) := by
    rw [hpass, chunkDataPass, if_neg hzero, copyChunk, hcopy, unlessError_ok, hrun, unlessError_ok]
    simp only [hbyte, show filler ≠ 13 by decide, show filler ≠ 10 by decide, if_false]
  -- what is left of the data is read as a size line
  have hnext : input.drop s₃.pos =
      (ChunkLine.mk [] (List.replicate (c.data.length - n) filler)).encode ++ rest := by
    rw [hleft, ChunkLine.encode, List.nil_append, List.append_assoc]
  obtain ⟨m', s₄, hpass₄, -, hparsed₄, -⟩ := hs₃.sizeLine lib ⟨by simp [IsHex], by
    simp only [List.mem_replicate, not_and]
    exact fun _ => by decide, by
    intro d hd
    simp only [List.head?_replicate] at hd
    split_ifs at hd
    · simp at hd
    · rw [← Option.some.inj hd]
      rfl⟩ hnext (by
    rw [ChunkLine.length_encode]
    simp only [List.length_nil, List.length_replicate]
    omega)
  refine ⟨s₄, fun fuel => ?_, ?_⟩
  · rw [Loop.run_again hagain]
    refine Loop.run_done ?_ _
    rw [hpass₄, List.take_nil]
    rfl
  · rw [hparsed₄.output, hfill.output, hw₂, hparsed.output, List.length_append,
      List.length_replicate]
    omega

theorem Chunk.length_encode_blank (c : Chunk) : c.blank.encode.length = c.encode.length := by
  rw [Chunk.length_encode, Chunk.length_encode, Chunk.blank]
  simp

theorem Chunk.WellFormed.blank {c : Chunk} (h : c.WellFormed) : c.blank.WellFormed where
  line := h.line
  data := by simpa [Chunk.blank] using h.data
  size := by simpa [Chunk.blank] using h.size

theorem length_flatMap_blank (chunks : List Chunk) :
    ((chunks.map Chunk.blank).flatMap Chunk.encode).length =
      (chunks.flatMap Chunk.encode).length := by
  simp only [List.length_flatMap, List.map_map]
  congr 1
  exact List.map_congr_left fun c _ => c.length_encode_blank

theorem length_payload_blank (chunks : List Chunk) :
    ((chunks.map Chunk.blank).flatMap Chunk.data).length = (chunks.flatMap Chunk.data).length := by
  simp only [List.length_flatMap, List.map_map]
  congr 1
  exact List.map_congr_left fun c _ => by simp [Chunk.blank]

end

theorem ChunkedBody.length_encode_blank (b : ChunkedBody) :
    b.blank.encode.length = b.encode.length := by
  rw [ChunkedBody.encode, List.length_append,
    show b.blank.chunks = b.chunks.map Chunk.blank from rfl, length_flatMap_blank,
    ChunkedBody.encode, List.length_append]
  rfl

theorem ChunkedBody.WellFormed.blank {b : ChunkedBody} (h : b.WellFormed) : b.blank.WellFormed where
  chunks c hc := by
    obtain ⟨d, hd, rfl⟩ := List.mem_map.mp hc
    exact (h.chunks d hd).blank
  last := h.last
  digits := h.digits
  size := h.size

/-- Of the places where a list can be taken apart and `P` fails, the first. -/
theorem exists_first_split {α : Type} {P : List α → α → Prop} {l before : List α} {c : α}
    {after : List α} (heq : l = before ++ c :: after) (hfails : ¬ P before c) :
    ∃ before c after, l = before ++ c :: after ∧ ¬ P before c ∧
      ∀ b d a, before = b ++ d :: a → P b d := by
  induction hn : before.length using Nat.strong_induction_on generalizing before c after with
  | _ n ih =>
    by_cases hall : ∀ b d a, before = b ++ d :: a → P b d
    · exact ⟨before, c, after, heq, hfails, hall⟩
    · simp only [not_forall] at hall
      obtain ⟨b, d, a, hbefore, hd⟩ := hall
      have hlt : b.length < n := by
        rw [← hn, hbefore]
        simp
      have htail : l = b ++ d :: (a ++ c :: after) := by
        rw [heq, hbefore]
        simp
      exact ih b.length hlt htail hd rfl

section

variable (lib : CommonLib) {k : DechunkCall} {body : ChunkedBody}

/-- A cut size makes the call lose data, when the data is filler. -/
theorem DechunkCall.Carries.not_decodes (h : k.Carries body.blank) (hwf : body.WellFormed)
    (hcut : ¬ body.UncutSizes k.boundaries) : ¬ k.Decodes lib body.blank.payload := by
  have hroom := h.room
  have hencode := body.length_encode_blank
  have hfit : k.rlen ≤ k.cap := by
    by_contra hlt
    exact hcut (ChunkedBody.uncutSizes_of_le fun b hb => by
      have hge := le_of_mem_cutsFrom hb
      omega)
  simp only [ChunkedBody.UncutSizes, not_forall] at hcut
  obtain ⟨_, _, _, heq, hc⟩ := hcut
  obtain ⟨before, c, after, heq, hc, hfirst⟩ := exists_first_split
    (P := fun before c => Uncut k.boundaries (before.flatMap Chunk.encode).length c.line) heq hc
  obtain ⟨s, hrun, hhold, hpos, holen, -, htight⟩ := k.start lib h.before h.fits
  rw [Nat.min_eq_left hfit] at hhold htight
  obtain ⟨rest, hrest⟩ := h.stream_take
  have hblank : body.blank.encode = (before.map Chunk.blank).flatMap Chunk.encode ++
      (c.blank.encode ++ ((after.map Chunk.blank).flatMap Chunk.encode ++ body.last.encode)) := by
    simp only [ChunkedBody.encode, ChunkedBody.blank, heq, List.map_append, List.map_cons,
      List.flatMap_append, List.flatMap_cons, List.append_assoc]
  have hlength := congrArg List.length hblank
  simp only [List.length_append, Chunk.length_encode_blank, length_flatMap_blank] at hlength
  have hinput : (k.prefetched.take k.cap ++ arriving k.wire).drop s.pos =
      (before.map Chunk.blank).flatMap Chunk.encode ++
        (c.blank.encode ++
          ((after.map Chunk.blank).flatMap Chunk.encode ++ body.last.encode ++ rest)) := by
    rw [hpos, List.drop_zero, ← hrest, hblank]
    simp only [List.append_assoc]
  have hbefore : ∀ d ∈ before.map Chunk.blank, d.WellFormed := by
    intro d hd
    obtain ⟨e, he, rfl⟩ := List.mem_map.mp hd
    exact (hwf.chunks e (by rw [heq]; exact List.mem_append_left _ he)).blank
  obtain ⟨s₁, hrun₁, hs₁, hp₁, hw₁, -, ht₁⟩ := hhold.chunks lib hbefore hinput
    (by rw [length_flatMap_blank]; omega) h.cap_lt (by
      intro b d a hsplit
      obtain ⟨b, a', rfl, rfl, ha⟩ := List.map_eq_append_iff.mp hsplit
      obtain ⟨d, a, rfl, rfl, rfl⟩ := List.map_eq_cons_iff.mp ha
      have huncut := hfirst b d a rfl
      rwa [hpos, Nat.zero_add, length_flatMap_blank])
  rw [hpos, Nat.zero_add, length_flatMap_blank] at hp₁
  have hlen := c.length_encode
  have hcount := ChunkedBody.length_chunks_le before
  have hnext : (k.prefetched.take k.cap ++ arriving k.wire).drop s₁.pos = c.blank.encode ++
      ((after.map Chunk.blank).flatMap Chunk.encode ++ body.last.encode ++ rest) := by
    rw [hpos, List.drop_zero] at hinput
    rw [hp₁, ← length_flatMap_blank, hinput, List.drop_left]
  obtain ⟨s', hrun', hshort⟩ := hs₁.cutChunk lib (ht₁ htight)
    (hwf.chunks c (by rw [heq]; simp)) hnext (by omega) h.cap_lt (by rwa [hp₁])
  rintro ⟨s'', hs'', hpayload, -⟩
  have hfuel : k.cap + 1 = k.cap - before.length - 1 + 2 + (before.map Chunk.blank).length := by
    rw [List.length_map]
    omega
  rw [hrun, hfuel, hrun₁, hrun'] at hs''
  obtain rfl : s' = s'' := by simpa using hs''
  have hout := congrArg List.length hpayload
  have hout₁ := congrArg List.length hw₁
  have htotal : body.blank.payload.length = (before.flatMap Chunk.data).length + (c.data.length +
      (after.flatMap Chunk.data).length) := by
    simp only [ChunkedBody.payload, ChunkedBody.blank, length_payload_blank, heq,
      List.flatMap_append, List.flatMap_cons, List.length_append]
  rw [show s.output k.raw = [] by rw [Dechunker.output, holen, window_zero_length],
    List.nil_append, length_payload_blank] at hout₁
  omega

/-- The same size lines and chunk lengths. -/
def ChunkedBody.SameFraming (b b' : ChunkedBody) : Prop :=
  b'.chunks.map (fun c => (c.line, c.data.length)) = b.chunks.map (fun c => (c.line, c.data.length))
    ∧ b'.last = b.last

theorem ChunkedBody.sameFraming_blank (b : ChunkedBody) : b.SameFraming b.blank := by
  refine ⟨?_, rfl⟩
  simp only [ChunkedBody.blank, List.map_map]
  exact List.map_congr_left fun c _ => by simp [Chunk.blank]

/-- The same number of prefetched bytes and reads of the same lengths, in the same order. -/
def DechunkCall.SameDivision (k k' : DechunkCall) : Prop :=
  k'.rlen = k.rlen ∧ k'.wire.map StreamEvent.shape = k.wire.map StreamEvent.shape

theorem DechunkCall.SameDivision.boundaries {k' : DechunkCall} (h : k.SameDivision k') :
    k'.boundaries = k.boundaries := by
  rw [DechunkCall.boundaries, DechunkCall.boundaries, ← cutsFrom_shape, h.2, h.1, cutsFrom_shape]

theorem ChunkedBody.SameFraming.uncutSizes {b b' : ChunkedBody} (h : b.SameFraming b')
    {bs : List Nat}
    (hcut : b.UncutSizes bs) : b'.UncutSizes bs := by
  have hlength : ∀ l l' : List Chunk, l'.map (fun c => (c.line, c.data.length)) =
      l.map (fun c => (c.line, c.data.length)) →
      (l'.flatMap Chunk.encode).length = (l.flatMap Chunk.encode).length := by
    intro l l' heq
    have hsum := congrArg
      (fun m => (m.map fun p : ChunkLine × Nat => p.1.encode.length + (p.2 + 2)).sum) heq
    simpa [List.length_flatMap, Function.comp_def, Chunk.encode] using hsum
  intro before' c' after' heq
  have hmap := h.1
  rw [heq, List.map_append, List.map_cons] at hmap
  obtain ⟨before, rest, hchunks, hbefore, hrest⟩ := List.map_eq_append_iff.mp hmap.symm
  obtain ⟨c, after, rfl, hc, -⟩ := List.map_eq_cons_iff.mp hrest
  have huncut := hcut before c after hchunks
  have hline : c.line = c'.line := congrArg Prod.fst hc
  rwa [hlength before before' hbefore.symm, ← hline]

/-- For given chunk lengths and reads: whatever the data, the call decodes it, exactly when no
boundary lies inside the digits of a size. -/
theorem dechunks_iff (h : k.Carries body) :
    (∀ k' body', k'.Carries body' → body.SameFraming body' → k.SameDivision k' →
      k'.Decodes lib body'.payload) ↔ body.UncutSizes k.boundaries := by
  constructor
  · intro hall
    by_contra hcut
    have hbefore := h.before
    have hfits := h.fits
    obtain ⟨rest, hrest⟩ := h.stream
    have hencode := body.length_encode_blank
    have hlen := congrArg List.length hrest
    simp only [List.length_append, h.length_prefetched] at hlen
    set s := body.blank.encode ++ rest with hs
    have htotal : s.length = k.rlen + (arriving k.wire).length := by
      rw [hs, List.length_append]
      omega
    have hfirst : (s.take k.rlen).length = k.rlen := by
      rw [List.length_take]
      omega
    have hlast : (s.drop k.rlen).length = (arriving k.wire).length := by
      rw [List.length_drop]
      omega
    have hprefetched := window_overwrite_self (l := k.mem) (i := k.rptr) (d := s.take k.rlen)
      (by omega)
    rw [hfirst] at hprefetched
    let k' : DechunkCall := { k with
      mem := overwrite k.mem k.rptr (s.take k.rlen), wire := refill k.wire (s.drop k.rlen) }
    have hdivision : k.SameDivision k' := ⟨rfl, shape_refill hlast⟩
    have hcarries : k'.Carries body.blank := {
      before := hbefore
      fits := by
        simp only [k']
        rw [length_overwrite (by rw [hfirst]; omega)]
        exact hfits
      cap_lt := h.cap_lt
      wellFormed := h.wellFormed.blank
      stream := ⟨rest, by
        simp only [k', DechunkCall.prefetched]
        rw [hprefetched, arriving_refill hlast, List.take_append_drop]⟩
      room := hencode ▸ h.room }
    exact hcarries.not_decodes lib h.wellFormed (by rwa [hdivision.boundaries])
      (hall k' body.blank hcarries body.sameFraming_blank hdivision)
  · intro hcut k' body' hcarries hframing hdivision
    refine readChunkedBody_decodes lib hcarries ?_
    rw [hdivision.boundaries]
    exact hframing.uncutSizes hcut

end

/-! ## A body in two divisions -/

/-- One chunk of sixteen bytes. -/
def sixteenBytes : ChunkedBody :=
  ⟨[⟨⟨ascii "10", []⟩, ascii "sixteen bytes..."⟩], ⟨ascii "0", []⟩⟩

/-- The call with the first `n` bytes of the encoding prefetched, and one read for the rest. -/
def sixteenCall (n : Nat) : DechunkCall :=
  let s := sixteenBytes.encode ++ crlf.bytes
  ⟨s.take n ++ List.replicate 40 0, [.data (s.drop n)], 0, n, n, 40⟩

theorem sixteenBytes_wellFormed : sixteenBytes.WellFormed where
  chunks c hc := by
    rw [List.mem_singleton.mp hc]
    exact ⟨⟨by decide +kernel, by decide +kernel, by decide +kernel⟩, by decide, by decide +kernel⟩
  last := ⟨by decide +kernel, by decide +kernel, by decide +kernel⟩
  digits := by decide
  size := by decide

/-- The size line and its CRLF are prefetched together. -/
theorem dechunks_whole_size :
    (sixteenCall 4).Decodes .reference sixteenBytes.payload := by
  have hcarries : (sixteenCall 4).Carries sixteenBytes :=
    ⟨by decide, by decide, by decide, sixteenBytes_wellFormed, by decide +kernel, by decide +kernel⟩
  refine (dechunks_iff .reference hcarries).mpr ?_ _ _ hcarries ⟨rfl, rfl⟩ ⟨rfl, rfl⟩
  have hboundaries : (sixteenCall 4).boundaries = [4, 27] := by decide +kernel
  intro before c after heq b hb hlt
  rw [hboundaries] at hb
  cases before with
  | nil =>
    obtain rfl : _ = c := (List.cons.inj heq).1
    have hdigits : (ascii "10").length = 2 := by decide
    simp only [List.flatMap_nil, List.length_nil, hdigits] at hlt
    simp only [List.mem_cons, List.not_mem_nil, or_false] at hb
    omega
  | cons d before => simp [sixteenBytes] at heq

/-- The size is cut between its two digits, and one byte of sixteen is decoded. -/
theorem dechunks_cut_size :
    ¬ ∀ (lib : CommonLib) (k : DechunkCall) (body : ChunkedBody), k.Carries body →
      k.Decodes lib body.payload := by
  intro h
  have hcarries : (sixteenCall 1).Carries sixteenBytes :=
    ⟨by decide, by decide, by decide, sixteenBytes_wellFormed, by decide +kernel, by decide +kernel⟩
  obtain ⟨s, hrun, hout, -⟩ := h .reference _ _ hcarries
  have hone : ((sixteenCall 1).run .reference).map (fun r => r.2.output 1) ≠
      some sixteenBytes.payload := by decide +kernel
  rw [hrun] at hone
  exact hone (congrArg some hout)

end HttpC
