import HttpC.Connection.ChunkedBody
import HttpC.Connection.Stream

/-!
# Dechunking a request body in place

`ensure_buffered` and `read_chunked_body` of `http_connection.c`. The encoded stream is read
into `raw_buf` behind what is there, and the data is moved down to `out_buf`, which
`maybe_read_body` makes the same region.

## Main results

* `Holding.sizeLine` — what a size line is read as, wherever it is cut.
* `Holding.decode` — the loop decodes a body whose sizes are not cut.
-/

namespace HttpC

open Block

/-! ## The model -/

/-- A store of `size` bytes at `dst`, while the bytes from `unread` to `filled` are still to be
parsed. -/
structure Store where
  dst : Nat
  size : Nat
  unread : Nat
  filled : Nat
  deriving DecidableEq, Repr

/-- The store misses the unread bytes. -/
def Store.Harmless (s : Store) : Prop :=
  s.size = 0 ∨ s.dst + s.size ≤ s.unread ∨ s.filled ≤ s.dst

instance (s : Store) : Decidable s.Harmless := inferInstanceAs (Decidable (_ ∨ _))

/-- The locals of `read_chunked_body`, with the memory, the stream and a log of the stores. -/
structure Dechunker where
  mem : Bytes
  wire : Wire
  /-- Bytes currently in `raw_buf`. -/
  rawLen : Nat
  /-- The parse cursor within `raw_buf`. -/
  pos : Nat
  /-- Dechunked bytes written. -/
  olen : Nat
  stores : List Store
  deriving DecidableEq, Repr

section

variable (lib : CommonLib) (out outCap raw rawCap : Nat)

/-- `ensure_buffered`: an end of the stream is an error here. -/
def ensureBuffered (need : Nat) (s : Dechunker) : Option (Result × Dechunker) :=
  (receive (raw + rawCap) (fun received => need ≤ received.length - (raw + s.pos))
    ⟨s.mem, raw + s.rawLen, s.wire⟩).map fun (result, w) =>
      (if result = .endOfFile ∨ result = .endOfData then .error else result,
        { s with
          mem := w.mem
          wire := w.wire
          rawLen := w.filled - raw
          stores := s.stores ++ [⟨raw + s.rawLen, w.filled - (raw + s.rawLen), raw + s.pos,
            raw + s.rawLen⟩] })

/-- The digit loop over the bytes that are buffered: the size, and how many digits it has. -/
def scanHexDigits : Bytes → Nat → Nat × Nat
  | [], chunkSize => (chunkSize, 0)
  | c :: rest, chunkSize =>
    match hexValue? c with
    | none => (chunkSize, 0)
    | some value =>
      let scanned := scanHexDigits rest ((chunkSize * 16 + value) % 2 ^ 32)
      (scanned.1, scanned.2 + 1)

def Dechunker.byte (s : Dechunker) : UInt8 := s.mem.getD (raw + s.pos) 0

/-- One pass of the loop that skips the rest of a size line. -/
def skipPass (s : Dechunker) : Option (Loop.Pass Dechunker (Result × Dechunker)) :=
  unlessError lib (ensureBuffered raw rawCap 1 s) fun s =>
    if s.byte raw = 10 then some (.done (.ok, { s with pos := s.pos + 1 }))
    else some (.again { s with pos := s.pos + 1 })

def skipExtensions (s : Dechunker) : Option (Result × Dechunker) :=
  Loop.run (skipPass lib raw rawCap) (rawCap + 1) s

/-- The `memmove` of `take` bytes of data to the end of the output. -/
def Dechunker.moveDown (s : Dechunker) (take : Nat) : Dechunker :=
  { s with
    mem := move s.mem (out + s.olen) (raw + s.pos) take
    olen := s.olen + take
    pos := s.pos + take
    stores := s.stores ++ [⟨out + s.olen, take, raw + (s.pos + take), raw + s.rawLen⟩] }

/-- One pass of the loop that moves chunk data, with `remaining` bytes to go. -/
def copyPass : Nat × Dechunker → Option (Loop.Pass (Nat × Dechunker) (Result × Dechunker))
  | (remaining, s) =>
    if remaining = 0 then some (.done (.ok, s))
    else
      unlessError lib (ensureBuffered raw rawCap 1 s) fun s =>
        let avail := s.rawLen - s.pos
        let take := if avail < remaining then avail else remaining
        let take := if outCap < s.olen + take then outCap - s.olen else take
        if take = 0 then some (.done (.insufficientSize, s))
        else
          some (.again (remaining - take, s.moveDown out raw take))

def copyChunk (chunkSize : Nat) (s : Dechunker) : Option (Result × Dechunker) :=
  Loop.run (copyPass lib out outCap raw rawCap) (chunkSize + 1) (chunkSize, s)

/-- The chunk loop behind the size line: the data and the CRLF after it. -/
def chunkDataPass (chunkSize : Nat) (s : Dechunker) :
    Option (Loop.Pass Dechunker (Result × Dechunker)) :=
  if chunkSize = 0 then some (.done (.ok, s))
  else
    unlessError lib (copyChunk lib out outCap raw rawCap chunkSize s) fun s =>
      unlessError lib (ensureBuffered raw rawCap 2 s) fun s =>
        let s := if s.byte raw = 13 then { s with pos := s.pos + 1 } else s
        some (.again (if s.byte raw = 10 then { s with pos := s.pos + 1 } else s))

/-- One pass of the chunk loop. -/
def chunkPass (s : Dechunker) : Option (Loop.Pass Dechunker (Result × Dechunker)) :=
  unlessError lib (ensureBuffered raw rawCap 1 s) fun s =>
    let scanned := scanHexDigits (window s.mem (raw + s.pos) (s.rawLen - s.pos)) 0
    unlessError lib (skipExtensions lib raw rawCap { s with pos := s.pos + scanned.2 }) fun s =>
      chunkDataPass lib out outCap raw rawCap scanned.1 s

/-- `read_chunked_body` with `rlen` bytes of remainder at `rptr`. -/
def readChunkedBody (mem : Bytes) (wire : Wire) (rptr rlen : Nat) : Option (Result × Dechunker) :=
  let moved := 0 < rlen ∧ rptr ≠ raw
  let rlen := if moved ∧ rawCap < rlen then rawCap else rlen
  let mem := if moved then move mem raw rptr rlen else mem
  Loop.run (chunkPass lib out outCap raw rawCap) (rawCap + 1)
    ⟨mem, wire, rlen, 0, 0, if moved then [⟨raw, rlen, rptr, rptr + rlen⟩] else []⟩

end

/-! ## Digits -/

/-- The digit loop reads the number of the digits, in 32 bits. -/
theorem scanHexDigits_numeral {digits after : Bytes} (hd : IsHex digits) (ha : StopsHex after)
    (n : Nat) :
    scanHexDigits (digits ++ after) (n % 2 ^ 32) =
      (digits.foldl (fun n c => n * 16 + (hexValue? c).getD 0) n % 2 ^ 32, digits.length) := by
  induction digits generalizing n with
  | nil =>
    cases after with
    | nil => rfl
    | cons c rest => simp [scanHexDigits, ha c rfl]
  | cons c digits ih =>
    obtain ⟨value, hvalue⟩ := Option.isSome_iff_exists.mp (hd c (by simp))
    have hwrap : (n % 2 ^ 32 * 16 + value) % 2 ^ 32 = (n * 16 + value) % 2 ^ 32 := by omega
    have htail := ih (fun d h => hd d (List.mem_cons_of_mem _ h)) (n * 16 + value)
    simp only [List.cons_append, scanHexDigits, hvalue, hwrap, htail, List.foldl_cons,
      Option.getD_some, List.length_cons]

/-! ## The invariant -/

def Dechunker.output (s : Dechunker) (raw : Nat) : Bytes := window s.mem raw s.olen

def Dechunker.buffered (s : Dechunker) (raw : Nat) : Bytes :=
  window s.mem (raw + s.pos) (s.rawLen - s.pos)

/-- The cursor, the fill level and the output length over one region of `cap` bytes at `raw`,
into which `input` is read with boundaries `bs`. -/
structure Holding (raw cap : Nat) (input : Bytes) (bs : List Nat) (s : Dechunker) : Prop where
  fit : raw + cap ≤ s.mem.length
  pos_le : s.pos ≤ s.rawLen
  rawLen_le : s.rawLen ≤ cap
  ahead : s.buffered raw ++ arriving s.wire = input.drop s.pos
  cuts : ∀ b ∈ cutsFrom s.rawLen s.wire, b ∈ bs ∨ b = cap
  later : ∀ b ∈ bs, s.rawLen ≤ b → b ∈ cutsFrom s.rawLen s.wire
  olen_le : s.olen ≤ s.pos
  harmless : ∀ store ∈ s.stores, store.Harmless

/-- What filling the buffer up to `need` bytes behind the cursor leaves alone: it stops at the
first boundary there. -/
structure Refilled (raw need : Nat) (bs : List Nat) (s s' : Dechunker) : Prop where
  pos : s'.pos = s.pos
  olen : s'.olen = s.olen
  output : s'.output raw = s.output raw
  enough : s.pos + need ≤ s'.rawLen
  first : ∀ b ∈ bs, s.pos + need ≤ b → s.rawLen ≤ b → s'.rawLen ≤ b

section

variable (lib : CommonLib) {raw cap need : Nat} {input : Bytes} {bs : List Nat} {s : Dechunker}

theorem Holding.length_buffered (h : Holding raw cap input bs s) :
    (s.buffered raw).length = s.rawLen - s.pos := by
  have hfit := h.fit
  have hpos := h.pos_le
  have hlen := h.rawLen_le
  exact length_window (by omega)

/-- What a fill starts from. -/
def Dechunker.receiver (s : Dechunker) (raw : Nat) : Receiver := ⟨s.mem, raw + s.rawLen, s.wire⟩

/-- What it leaves behind. -/
def Dechunker.filled (s : Dechunker) (raw : Nat) (w : Receiver) : Dechunker :=
  { s with
    mem := w.mem
    wire := w.wire
    rawLen := w.filled - raw
    stores := s.stores ++ [⟨raw + s.rawLen, w.filled - (raw + s.rawLen), raw + s.pos,
      raw + s.rawLen⟩] }

theorem Holding.image_drop (h : Holding raw cap input bs s) :
    (s.receiver raw).image.drop (raw + s.pos) = input.drop s.pos := by
  have hfit := h.fit
  have hpos := h.pos_le
  have hraw := h.rawLen_le
  rw [← h.ahead, Receiver.image, Receiver.received, List.drop_append_of_le_length
    (by simp [Dechunker.receiver]; omega), List.drop_take]
  simp only [Dechunker.receiver, Dechunker.buffered, window, Nat.add_sub_add_left]

theorem Holding.length_image (h : Holding raw cap input bs s) (hlen : s.pos ≤ input.length) :
    (s.receiver raw).image.length = raw + input.length := by
  have hfit := h.fit
  have hpos := h.pos_le
  have hraw := h.rawLen_le
  have hdrop := congrArg List.length h.image_drop
  rw [List.length_drop, List.length_drop] at hdrop
  have hreceived : raw + s.rawLen ≤ (s.receiver raw).image.length := by
    simp [Receiver.image, Receiver.received, Dechunker.receiver]
    omega
  omega

/-- However far a fill gets, the input is held. -/
theorem Holding.filled (h : Holding raw cap input bs s) {enough : Bytes → Bool} {w : Receiver}
    (hflow : Flow (raw + cap) enough (s.receiver raw) w) :
    Holding raw cap input bs (s.filled raw w) := by
  have hfit := h.fit
  have hpos := h.pos_le
  have hmem : w.mem.length = s.mem.length := hflow.length_mem
  have hle : raw + s.rawLen ≤ w.filled := hflow.le
  have hlimit := hflow.le_limit
  obtain ⟨n, hn⟩ := Nat.exists_eq_add_of_le (show raw ≤ w.filled by omega)
  have hsub : w.filled - raw = n := by omega
  constructor
  · simpa [Dechunker.filled, hmem] using hfit
  · simp only [Dechunker.filled]
    omega
  · simp only [Dechunker.filled]
    omega
  · simp only [Dechunker.filled, hsub, Dechunker.buffered, window]
    rw [← h.image_drop, ← hflow.image, Receiver.image, Receiver.received,
      List.drop_append_of_le_length (by simp [hmem]; omega), List.drop_take,
      show w.filled - (raw + s.pos) = n - s.pos by omega]
  · intro b hb
    simp only [Dechunker.filled, hsub] at hb
    rw [← add_mem_cutsFrom (k := raw), ← hn] at hb
    rcases hflow.cuts _ hb with hb | hb
    · exact h.cuts b (add_mem_cutsFrom.mp hb)
    · exact .inr (by omega)
  · intro b hb hlater
    simp only [Dechunker.filled, hsub] at hlater ⊢
    rw [← add_mem_cutsFrom (k := raw), ← hn]
    exact hflow.later _ (add_mem_cutsFrom.mpr (h.later b hb (by omega))) (by omega)
  · exact h.olen_le
  · intro store hstore
    rcases List.mem_append.mp hstore with hstore | hstore
    · exact h.harmless store hstore
    · rw [List.mem_singleton.mp hstore]
      exact .inr (.inr (Nat.le_refl _))

theorem Holding.ensure (h : Holding raw cap input bs s) (hroom : s.pos + need ≤ cap)
    (hlen : s.pos + need ≤ input.length) :
    ∃ s', ensureBuffered raw cap need s = some (.ok, s') ∧ Holding raw cap input bs s' ∧
      Refilled raw need bs s s' := by
  have hfit := h.fit
  have hpos := h.pos_le
  have hraw := h.rawLen_le
  have holen := h.olen_le
  have himage := h.length_image (by omega)
  have hplenty : ∀ n, raw + (s.pos + need) ≤ n →
      decide (need ≤ ((s.receiver raw).image.take n).length - (raw + s.pos)) = true := by
    intro n hn
    rw [decide_eq_true_iff, List.length_take, himage]
    omega
  have hinside : (s.receiver raw).filled ≤ raw + cap := by
    simp only [Dechunker.receiver]
    omega
  obtain ⟨w, hrun, hflow, henough⟩ := @receive_ok (raw + cap)
    (fun received => need ≤ received.length - (raw + s.pos)) (s.receiver raw) hfit hinside
    (raw + (s.pos + need)) hplenty (by omega) (by omega)
  have hle : raw + s.rawLen ≤ w.filled := hflow.le
  have hlimit := hflow.le_limit
  have hreceived := hflow.received (show raw + cap ≤ (s.receiver raw).mem.length from hfit)
  rw [decide_eq_true_iff, hreceived, List.length_take, himage] at henough
  have hcall : ensureBuffered raw cap need s = some (.ok, s.filled raw w) := by
    rw [Dechunker.receiver] at hrun
    rw [ensureBuffered, hrun]
    rfl
  refine ⟨s.filled raw w, hcall, h.filled hflow, rfl, rfl, ?_, ?_, ?_⟩
  · exact window_eq_of_take hflow.below (by simp only [Dechunker.filled, Dechunker.receiver]; omega)
  · simp only [Dechunker.filled]
    omega
  · intro b hb hneed hlater
    simp only [Dechunker.filled]
    by_contra hlt
    have hcut : raw + b ∈ cutsFrom (s.receiver raw).filled (s.receiver raw).wire :=
      add_mem_cutsFrom.mpr (h.later b hb hlater)
    have hfew := hflow.tooLittle (raw + b) hcut (by omega)
    rw [hplenty _ (by omega)] at hfew
    cases hfew

/-- The reader has not gone past a boundary ahead of the cursor. -/
def Tight (bs : List Nat) (s : Dechunker) : Prop := ∀ b ∈ bs, s.pos < b → s.rawLen ≤ b

theorem Refilled.tight {s' : Dechunker} (h : Refilled raw 1 bs s s') (ht : Tight bs s) :
    Tight bs s' := by
  intro b hb hlt
  rw [h.pos] at hlt
  exact h.first b hb hlt (ht b hb hlt)

/-- The bytes behind the cursor, as far as they are buffered. -/
theorem Holding.buffered_eq (h : Holding raw cap input bs s) :
    s.buffered raw = (input.drop s.pos).take (s.rawLen - s.pos) := by
  rw [← h.ahead, ← h.length_buffered, List.take_left]

theorem Holding.advance (h : Holding raw cap input bs s) {k : Nat} (hk : s.pos + k ≤ s.rawLen) :
    Holding raw cap input bs { s with pos := s.pos + k } where
  fit := h.fit
  pos_le := hk
  rawLen_le := h.rawLen_le
  ahead := by
    have hbuffered : Dechunker.buffered { s with pos := s.pos + k } raw =
        (s.buffered raw).drop k := by
      simp only [Dechunker.buffered, window, List.drop_take, List.drop_drop, Nat.add_assoc,
        Nat.sub_sub]
    rw [hbuffered, ← List.drop_append_of_le_length (by rw [h.length_buffered]; omega), h.ahead,
      List.drop_drop]
  cuts := h.cuts
  later := h.later
  olen_le := h.olen_le.trans (Nat.le_add_right _ _)
  harmless := h.harmless

theorem Tight.advance (h : Tight bs s) (k : Nat) : Tight bs { s with pos := s.pos + k } :=
  fun b hb hlt => h b hb (by dsimp only at hlt; omega)

theorem Holding.byte_eq (h : Holding raw cap input bs s) (hlt : s.pos < s.rawLen) {c : UInt8}
    {rest : Bytes} (hc : input.drop s.pos = c :: rest) : s.byte raw = c := by
  have hfirst : (s.buffered raw)[0]? = some c := by
    rw [h.buffered_eq, List.getElem?_take_of_lt (by omega), hc]
    rfl
  rw [Dechunker.buffered, getElem?_window, if_pos (by omega)] at hfirst
  rw [Dechunker.byte, List.getD_eq_getElem?_getD]
  simpa using congrArg (Option.getD · 0) hfirst

/-- Moving `k` buffered bytes down to the end of the output. -/
theorem Holding.moveDown (h : Holding raw cap input bs s) {k : Nat} (hk : s.pos + k ≤ s.rawLen) :
    Holding raw cap input bs (s.moveDown raw raw k) ∧
      (s.moveDown raw raw k).output raw = s.output raw ++ (input.drop s.pos).take k := by
  have hfit := h.fit
  have hraw := h.rawLen_le
  have holen := h.olen_le
  have hmoved : window s.mem (raw + s.pos) k = (input.drop s.pos).take k := by
    have htake := congrArg (List.take k) h.buffered_eq
    rwa [Dechunker.buffered, window, List.take_take, List.take_take,
      Nat.min_eq_left (by omega)] at htake
  have hlen : (window s.mem (raw + s.pos) k).length = k := length_window (by omega)
  have hadvanced := (h.advance hk).ahead
  constructor
  · exact {
      fit := by
        simp only [Dechunker.moveDown, move]
        rw [length_overwrite (by rw [hlen]; omega)]
        exact hfit
      pos_le := hk
      rawLen_le := hraw
      ahead := by
        refine Eq.trans ?_ hadvanced
        simp only [Dechunker.moveDown, Dechunker.buffered, move]
        rw [window_overwrite_after (by omega) (by rw [hlen]; omega)]
      cuts := h.cuts
      later := h.later
      olen_le := by simp only [Dechunker.moveDown]; omega
      harmless := by
        intro store hstore
        rcases List.mem_append.mp hstore with hstore | hstore
        · exact h.harmless store hstore
        · rw [List.mem_singleton.mp hstore]
          exact .inr (.inl (by dsimp only; omega)) }
  · simp only [Dechunker.moveDown, Dechunker.output, move]
    rw [window_add, window_overwrite_before (by omega) (by omega), ← hmoved]
    have hstored := window_overwrite_self (l := s.mem) (i := raw + s.olen)
      (d := window s.mem (raw + s.pos) k) (by omega)
    rw [hlen] at hstored
    rw [hstored]

/-- What parsing `n` bytes leaves alone. -/
structure Parsed (raw n : Nat) (bs : List Nat) (s s' : Dechunker) : Prop where
  pos : s'.pos = s.pos + n
  olen : s'.olen = s.olen
  output : s'.output raw = s.output raw
  tight : Tight bs s → Tight bs s'

theorem Parsed.trans {n m : Nat} {s' s'' : Dechunker} (h : Parsed raw n bs s s')
    (h' : Parsed raw m bs s' s'') : Parsed raw (n + m) bs s s'' where
  pos := by rw [h'.pos, h.pos, Nat.add_assoc]
  olen := h'.olen.trans h.olen
  output := h'.output.trans h.output
  tight ht := h'.tight (h.tight ht)

theorem Refilled.parsed {s' : Dechunker} (h : Refilled raw 1 bs s s') (k : Nat) :
    Parsed raw k bs s { s' with pos := s'.pos + k } where
  pos := by dsimp only; rw [h.pos]
  olen := h.olen
  output := h.output
  tight ht := (h.tight ht).advance k

/-- One byte of a size line. -/
theorem Holding.skipByte (h : Holding raw cap input bs s) {c : UInt8} {rest : Bytes}
    (hc : input.drop s.pos = c :: rest) (hroom : s.pos + 1 ≤ cap) :
    ∃ s', skipPass lib raw cap s = some (if c = 10 then .done (.ok, s') else .again s') ∧
      Holding raw cap input bs s' ∧ Parsed raw 1 bs s s' := by
  have hlen := congrArg List.length hc
  simp only [List.length_drop, List.length_cons] at hlen
  obtain ⟨s₁, hrun, hs₁, hfill⟩ := @Holding.ensure raw cap 1 input bs s h (by omega) (by omega)
  have hlt : s₁.pos < s₁.rawLen := by rw [hfill.pos]; exact hfill.enough
  refine ⟨{ s₁ with pos := s₁.pos + 1 }, ?_, hs₁.advance hlt, hfill.parsed 1⟩
  rw [skipPass, hrun, unlessError_ok, hs₁.byte_eq hlt (hfill.pos ▸ hc)]
  split_ifs <;> rfl

/-- The rest of a size line is skipped, up to its line feed. -/
theorem Holding.skipLine (h : Holding raw cap input bs s) {ext rest : Bytes}
    (hline : input.drop s.pos = ext ++ 10 :: rest) (hext : 10 ∉ ext)
    (hroom : s.pos + ext.length + 1 ≤ cap) {fuel : Nat} (hfuel : ext.length < fuel) :
    ∃ s', Loop.run (skipPass lib raw cap) fuel s = some (.ok, s') ∧ Holding raw cap input bs s' ∧
      Parsed raw (ext.length + 1) bs s s' := by
  induction ext generalizing s fuel with
  | nil =>
    obtain ⟨s', hpass, hs', hparsed⟩ := h.skipByte lib hline (by simpa using hroom)
    obtain ⟨fuel, rfl⟩ : ∃ n, fuel = n + 1 := ⟨fuel - 1, by omega⟩
    exact ⟨s', Loop.run_done hpass _, hs', hparsed⟩
  | cons c ext ih =>
    simp only [List.length_cons] at hroom hfuel
    obtain ⟨s₁, hpass, hs₁, hparsed⟩ := h.skipByte lib hline (by omega)
    obtain ⟨fuel, rfl⟩ : ∃ n, fuel = n + 1 := ⟨fuel - 1, by omega⟩
    have hne : c ≠ 10 := fun hc => hext (hc ▸ List.mem_cons_self)
    rw [if_neg hne] at hpass
    have htail : input.drop s₁.pos = ext ++ 10 :: rest := by
      rw [hparsed.pos, ← List.drop_drop, hline]
      rfl
    obtain ⟨s', hrun, hs', hparsed'⟩ := ih hs₁ htail (fun hin => hext (List.mem_cons_of_mem _ hin))
      (by rw [hparsed.pos]; omega) (show ext.length < fuel by omega)
    refine ⟨s', by rw [Loop.run_again hpass, hrun], hs', ?_⟩
    have htotal := hparsed.trans hparsed'
    rwa [show 1 + (ext.length + 1) = (c :: ext).length + 1 by simp; omega] at htotal

/-- Moving chunk data. -/
theorem Holding.copy (h : Holding raw cap input bs s) {data rest : Bytes}
    (hdata : input.drop s.pos = data ++ rest) (hroom : s.pos + data.length ≤ cap) {fuel : Nat}
    (hfuel : data.length < fuel) :
    ∃ s', Loop.run (copyPass lib raw cap raw cap) fuel (data.length, s) = some (.ok, s') ∧
      Holding raw cap input bs s' ∧ s'.pos = s.pos + data.length ∧
      s'.olen = s.olen + data.length ∧ s'.output raw = s.output raw ++ data ∧
      (Tight bs s → Tight bs s') := by
  induction fuel generalizing s data with
  | zero => omega
  | succ fuel ih =>
    by_cases hnil : data.length = 0
    · obtain rfl := List.length_eq_zero_iff.mp hnil
      exact ⟨s, Loop.run_done rfl _, h, rfl, rfl, by simp, id⟩
    have hlen := congrArg List.length hdata
    simp only [List.length_drop, List.length_append] at hlen
    obtain ⟨s₁, hrun, hs₁, hfill⟩ := @Holding.ensure raw cap 1 input bs s h (by omega) (by omega)
    have henough := hfill.enough
    have holen := hs₁.olen_le
    have hraw := hs₁.rawLen_le
    have hpos₁ := hfill.pos
    rw [hfill.pos] at holen
    obtain ⟨take, htake⟩ : ∃ take, (if s₁.rawLen - s₁.pos < data.length then s₁.rawLen - s₁.pos
      else data.length) = take := ⟨_, rfl⟩
    have hpos : 0 < take ∧ take ≤ data.length ∧ s₁.pos + take ≤ s₁.rawLen := by
      rw [hfill.pos] at htake ⊢
      split_ifs at htake <;> omega
    obtain ⟨hs₂, hout⟩ := hs₁.moveDown hpos.2.2
    have hpass : copyPass lib raw cap raw cap (data.length, s) =
        some (.again (data.length - take, s₁.moveDown raw raw take)) := by
      rw [copyPass, if_neg hnil, hrun, unlessError_ok]
      dsimp only
      rw [htake, if_neg (show ¬ cap < s₁.olen + take by omega), if_neg (show ¬ take = 0 by omega)]
    have hpos₂ : (s₁.moveDown raw raw take).pos = s.pos + take := by
      rw [← hfill.pos]
      rfl
    have htail : input.drop (s₁.moveDown raw raw take).pos = data.drop take ++ rest := by
      rw [hpos₂, ← List.drop_drop, hdata, List.drop_append_of_le_length hpos.2.1]
    have hcount : (data.drop take).length = data.length - take := List.length_drop
    obtain ⟨s', hloop, hs', hp, ho, hw, ht⟩ := ih hs₂ htail (by rw [hpos₂, hcount]; omega)
      (by rw [hcount]; omega)
    rw [hcount] at hloop hp ho
    refine ⟨s', by rw [Loop.run_again hpass, hloop], hs', by omega, ?_, ?_, ?_⟩
    · have : (s₁.moveDown raw raw take).olen = s.olen + take := by rw [← hfill.olen]; rfl
      omega
    · rw [hw, hout, hfill.output, hfill.pos, hdata, List.take_append_of_le_length hpos.2.1,
        List.append_assoc, List.take_append_drop]
    · exact fun htight => ht ((hfill.tight htight).advance take)

/-- A size line: of its digits the `m` that are buffered count. -/
theorem Holding.sizeLine (h : Holding raw cap input bs s) {line : ChunkLine}
    (hwf : line.WellFormed) {rest : Bytes} (hline : input.drop s.pos = line.encode ++ rest)
    (hroom : s.pos + line.encode.length ≤ cap) :
    ∃ m s', chunkPass lib raw cap raw cap s =
        chunkDataPass lib raw cap raw cap (hexNumber (line.digits.take m) % 2 ^ 32) s' ∧
      Holding raw cap input bs s' ∧ Parsed raw line.encode.length bs s s' ∧ 0 < m ∧
      (s.pos + m ∈ bs ∨ s.pos + m = cap) ∧
      (Tight bs s → ∀ b ∈ bs, s.pos < b → s.pos + m ≤ b) := by
  have hlen := congrArg List.length hline
  simp only [List.length_drop, List.length_append] at hlen
  have hcount := line.length_encode
  obtain ⟨s₁, hrun, hs₁, hfill⟩ := @Holding.ensure raw cap 1 input bs s h (by omega) (by omega)
  have henough := hfill.enough
  obtain ⟨m, hm⟩ : ∃ m, s₁.rawLen = s.pos + m := Nat.exists_eq_add_of_le (by omega)
  have hscan : scanHexDigits (window s₁.mem (raw + s₁.pos) (s₁.rawLen - s₁.pos)) 0 =
      (hexNumber (line.digits.take m) % 2 ^ 32, (line.digits.take m).length) := by
    have hbuffered := hs₁.buffered_eq
    rw [Dechunker.buffered, hfill.pos, hline, ChunkLine.encode, List.append_assoc,
      List.append_assoc, List.take_append, hm, Nat.add_sub_cancel_left] at hbuffered
    rw [hfill.pos, hm, Nat.add_sub_cancel_left, hbuffered]
    exact scanHexDigits_numeral (fun c hc => hwf.digits c (List.mem_of_mem_take hc))
      ((hwf.stops_encode rest).take _) 0
  have hk : (line.digits.take m).length ≤ m := by simp
  have hadvanced := hs₁.advance (k := (line.digits.take m).length) (by rw [hfill.pos]; omega)
  -- the digits that were not buffered are skipped with the extension
  have htail : input.drop (s₁.pos + (line.digits.take m).length) =
      (line.digits.drop m ++ (line.extension ++ [13])) ++ 10 :: rest := by
    have hsplit : line.encode ++ rest = line.digits.take m ++
        ((line.digits.drop m ++ (line.extension ++ [13])) ++ 10 :: rest) := by
      rw [ChunkLine.encode, crlf_bytes, ← List.append_assoc (line.digits.take m),
        ← List.append_assoc (line.digits.take m), List.take_append_drop]
      simp
    rw [hfill.pos, ← List.drop_drop, hline, hsplit, List.drop_left]
  have hnot : (10 : UInt8) ∉ line.digits.drop m ++ (line.extension ++ [13]) := by
    simp only [List.mem_append, List.mem_singleton, not_or]
    exact ⟨fun hin => hwf.digits.not_mem (List.mem_of_mem_drop hin), hwf.extension, by decide⟩
  have hrest : (line.digits.take m).length +
      ((line.digits.drop m ++ (line.extension ++ [13])).length
      + 1) = line.encode.length := by
    simp only [List.length_append, List.length_take, List.length_drop, List.length_singleton]
    omega
  obtain ⟨s', hskip, hs', hparsed⟩ := @Holding.skipLine lib raw cap input bs _ hadvanced _ _ htail
    hnot (by dsimp only; rw [hfill.pos]; omega) (cap + 1) (by omega)
  have hparsed := (hfill.parsed (line.digits.take m).length).trans hparsed
  rw [hrest] at hparsed
  refine ⟨m, s', ?_, hs', hparsed, by omega, ?_, ?_⟩
  · rw [chunkPass, hrun, unlessError_ok]
    simp only [hscan]
    rw [skipExtensions, hskip, unlessError_ok]
  · rw [← hm]
    exact hs₁.cuts _ (mem_cutsFrom _ _)
  · intro ht b hb hlt
    rw [← hm]
    exact hfill.first b hb (by omega) (ht b hb hlt)

/-- The data of a chunk and the CRLF after it. -/
theorem Holding.chunkData (h : Holding raw cap input bs s) {data rest : Bytes}
    (hne : data ≠ []) (hdata : input.drop s.pos = data ++ (crlf.bytes ++ rest))
    (hroom : s.pos + (data.length + 2) ≤ cap) :
    ∃ s', chunkDataPass lib raw cap raw cap data.length s = some (.again s') ∧
      Holding raw cap input bs s' ∧ s'.pos = s.pos + (data.length + 2) ∧
      s'.olen = s.olen + data.length ∧ s'.output raw = s.output raw ++ data ∧
      (Tight bs s → Tight bs s') := by
  have hlen := congrArg List.length hdata
  simp only [List.length_drop, List.length_append, crlf_length] at hlen
  obtain ⟨s₁, hcopy, hs₁, hp₁, ho₁, hw₁, ht₁⟩ := @Holding.copy lib raw cap input bs s h data _ hdata
    (by omega) (data.length + 1) (Nat.lt_succ_self _)
  obtain ⟨s₂, hrun, hs₂, hfill⟩ := @Holding.ensure raw cap 2 input bs s₁ hs₁ (by omega) (by omega)
  have henough := hfill.enough
  have hpos₂ := hfill.pos
  have hcr : input.drop s₂.pos = 13 :: 10 :: rest := by
    rw [hpos₂, hp₁, ← List.drop_drop, hdata, List.drop_left, crlf_bytes]
    rfl
  have hlf : input.drop (s₂.pos + 1) = 10 :: rest := by
    rw [← List.drop_drop, hcr]
    rfl
  have hs₃ := hs₂.advance (k := 1) (by omega)
  have hs₄ := hs₃.advance (k := 1) (by dsimp only; omega)
  refine ⟨_, ?_, hs₄, by dsimp only; omega, ?_, ?_, ?_⟩
  · rw [chunkDataPass, if_neg (by simpa using hne), copyChunk, hcopy, unlessError_ok, hrun,
      unlessError_ok]
    simp only [hs₂.byte_eq (by omega) hcr, if_true]
    rw [hs₃.byte_eq (by dsimp only; omega) hlf, if_pos rfl]
  · exact hfill.olen.trans ho₁
  · exact hfill.output.trans hw₁
  · intro ht b hb hlt
    dsimp only at hlt ⊢
    exact hfill.first b hb (by omega) (ht₁ ht b hb (by omega))

/-- No boundary lies strictly inside the digits that start at `pos`. -/
def Uncut (bs : List Nat) (pos : Nat) (line : ChunkLine) : Prop :=
  ∀ b ∈ bs, ¬ (pos < b ∧ b < pos + line.digits.length)

/-- A chunk whose size is not cut. -/
theorem Holding.chunk (h : Holding raw cap input bs s) {c : Chunk} (hwf : c.WellFormed)
    {rest : Bytes} (hchunk : input.drop s.pos = c.encode ++ rest)
    (hroom : s.pos + c.encode.length ≤ cap) (hcap : cap < 2 ^ 32) (hcut : Uncut bs s.pos c.line) :
    ∃ s', chunkPass lib raw cap raw cap s = some (.again s') ∧ Holding raw cap input bs s' ∧
      s'.pos = s.pos + c.encode.length ∧ s'.olen = s.olen + c.data.length ∧
      s'.output raw = s.output raw ++ c.data ∧ (Tight bs s → Tight bs s') := by
  have hlen : c.encode.length = c.line.encode.length + (c.data.length + 2) := by
    simp [Chunk.encode]
  have hline : input.drop s.pos = c.line.encode ++ (c.data ++ (crlf.bytes ++ rest)) := by
    rw [hchunk, Chunk.encode, List.append_assoc, List.append_assoc]
  obtain ⟨m, s₁, hpass, hs₁, hparsed, hpos, hm, -⟩ := h.sizeLine lib hwf.line hline (by omega)
  have hcount := c.line.length_encode
  have hall : c.line.digits.length ≤ m := by
    by_contra hlt
    rcases hm with hm | hm
    · exact hcut _ hm ⟨by omega, by omega⟩
    · omega
  have hsize : hexNumber (c.line.digits.take m) % 2 ^ 32 = c.data.length := by
    rw [List.take_of_length_le hall, ← ChunkLine.size, hwf.size, Nat.mod_eq_of_lt (by omega)]
  have hdata : input.drop s₁.pos = c.data ++ (crlf.bytes ++ rest) := by
    rw [hparsed.pos, ← List.drop_drop, hline, List.drop_left]
  have hp := hparsed.pos
  obtain ⟨s₂, hpass₂, hs₂, hp₂, ho₂, hw₂, ht₂⟩ := @Holding.chunkData lib raw cap input bs s₁ hs₁ _ _
    hwf.data hdata (by omega)
  refine ⟨s₂, by rw [hpass, hsize, hpass₂], hs₂, by omega, ?_, ?_, fun ht => ht₂ (hparsed.tight ht)⟩
  · rw [ho₂, hparsed.olen]
  · rw [hw₂, hparsed.output]

/-- Chunks whose sizes are not cut. -/
theorem Holding.chunks (h : Holding raw cap input bs s) {chunks : List Chunk}
    (hwf : ∀ c ∈ chunks, c.WellFormed) {rest : Bytes}
    (hchunks : input.drop s.pos = chunks.flatMap Chunk.encode ++ rest)
    (hroom : s.pos + (chunks.flatMap Chunk.encode).length ≤ cap) (hcap : cap < 2 ^ 32)
    (hcut : ∀ before c after, chunks = before ++ c :: after →
      Uncut bs (s.pos + (before.flatMap Chunk.encode).length) c.line) :
    ∃ s', (∀ fuel, Loop.run (chunkPass lib raw cap raw cap) (fuel + chunks.length) s =
        Loop.run (chunkPass lib raw cap raw cap) fuel s') ∧
      Holding raw cap input bs s' ∧ s'.pos = s.pos + (chunks.flatMap Chunk.encode).length ∧
      s'.output raw = s.output raw ++ chunks.flatMap Chunk.data ∧ 
      s'.olen = s.olen + (chunks.flatMap Chunk.data).length ∧ (Tight bs s → Tight bs s') := by
  induction chunks generalizing s with
  | nil => exact ⟨s, fun _ => rfl, h, by simp, by simp, by simp, id⟩
  | cons c chunks ih =>
    simp only [List.flatMap_cons, List.length_append, List.append_assoc] at hchunks hroom ⊢
    obtain ⟨s₁, hpass, hs₁, hp₁, ho₁, hw₁, ht₁⟩ := h.chunk lib (hwf c List.mem_cons_self)
      hchunks (by omega) hcap (hcut [] c chunks rfl)
    have htail : input.drop s₁.pos = chunks.flatMap Chunk.encode ++ rest := by
      rw [hp₁, ← List.drop_drop, hchunks, List.drop_left]
    obtain ⟨s', hrun, hs', hp', hw', ho', ht'⟩ := ih hs₁
      (fun d hd => hwf d (List.mem_cons_of_mem _ hd)) htail (by omega) (by
        intro before d after heq
        have huncut := hcut (c :: before) d after (by rw [heq]; rfl)
        rwa [List.flatMap_cons, List.length_append, ← Nat.add_assoc, ← hp₁] at huncut)
    refine ⟨s', fun fuel => ?_, hs', by omega, ?_, by omega, fun ht => ht' (ht₁ ht)⟩
    · rw [List.length_cons, ← Nat.add_assoc, Loop.run_again hpass, hrun]
    · rw [hw', hw₁, List.append_assoc]

/-- The zero-size line ends the loop. -/
theorem Holding.lastLine (h : Holding raw cap input bs s) {line : ChunkLine}
    (hwf : line.WellFormed) (hzero : line.size = 0) {rest : Bytes}
    (hline : input.drop s.pos = line.encode ++ rest) (hroom : s.pos + line.encode.length ≤ cap) :
    ∃ s', chunkPass lib raw cap raw cap s = some (.done (.ok, s')) ∧
      Holding raw cap input bs s' ∧ s'.output raw = s.output raw := by
  obtain ⟨m, s', hpass, hs', hparsed, -⟩ := h.sizeLine lib hwf hline hroom
  have hle := hexNumber_prefix_le (line.digits.take m) (line.digits.drop m)
  rw [List.take_append_drop] at hle
  have hsize : hexNumber (line.digits.take m) % 2 ^ 32 = 0 := by
    rw [show hexNumber (line.digits.take m) = 0 from Nat.le_zero.mp (hle.trans hzero.le)]
    rfl
  exact ⟨s', by rw [hpass, hsize]; rfl, hs', hparsed.output⟩

/-- Without a cut size the loop decodes the body. -/
theorem Holding.decode (h : Holding raw cap input bs s) {body : ChunkedBody}
    (hwf : body.WellFormed) {rest : Bytes} (hbody : input.drop s.pos = body.encode ++ rest)
    (hroom : s.pos + body.encode.length ≤ cap) (hcap : cap < 2 ^ 32)
    (hcut : ∀ before c after, body.chunks = before ++ c :: after →
      Uncut bs (s.pos + (before.flatMap Chunk.encode).length) c.line) :
    ∃ s', Loop.run (chunkPass lib raw cap raw cap) (cap + 1) s = some (.ok, s') ∧
      Holding raw cap input bs s' ∧ s'.output raw = s.output raw ++ body.payload := by
  have hlen : body.encode.length =
      (body.chunks.flatMap Chunk.encode).length + body.last.encode.length := by
    rw [ChunkedBody.encode, List.length_append]
  have hcount := ChunkedBody.length_chunks_le body.chunks
  rw [ChunkedBody.encode, List.append_assoc] at hbody
  obtain ⟨s₁, hrun, hs₁, hp, hw, -⟩ := h.chunks lib hwf.chunks hbody (by omega) hcap hcut
  have hlast : input.drop s₁.pos = body.last.encode ++ rest := by
    rw [hp, ← List.drop_drop, hbody, List.drop_left]
  obtain ⟨s', hpass, hs', hw'⟩ := hs₁.lastLine lib hwf.last hwf.size hlast (by omega)
  have hfuel : cap + 1 = cap - body.chunks.length + 1 + body.chunks.length := by omega
  refine ⟨s', ?_, hs', by rw [hw', hw]; rfl⟩
  rw [hfuel, hrun, Loop.run_done hpass]

end

end HttpC
