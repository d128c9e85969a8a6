import HttpC.Multipart

/-!
# Multipart iteration on any input

What `mp_iterator_next` computes on bytes that nobody has encoded: the boundary may stand inside
the header lines, the blank line behind the last delimiter, the header value may announce anything.
Each search starts where the one before has ended, so the offsets of a call grow, and so do the
places of the parts.

## Main results

* `mpIteratorNext_cases` — one call: it ends the iteration, or it returns a part and moves on.
* `mpIteratorNext_congr` — no result depends on what the library does outside its laws.
* `multipart_ordered` — the iteration ends, and its parts lie in the body in order.
-/

namespace HttpC

open ListSearch

variable (lib : CommonLib)

/-! ## Offsets and places -/

/-- The offsets into the cursor that a call computes, as far as it gets. -/
def mpOffsets (it : MpIterator) : List Nat :=
  if it.done then []
  else
    let c := it.cursor
    match boundaryPosition lib c 0 it.boundary with
    | none => []
    | some bpos =>
      let after := bpos + 2 + it.boundary.size
      let tail := lib.spanSliceToEnd c after
      [bpos, after] ++
      if dashDash.bytes <+: tail.bytes then []
      else
        let after := if crlf.bytes <+: tail.bytes then after + 2 else after
        let headerArea := lib.spanSliceToEnd c after
        [after] ++
        match lib.spanFindInt headerArea headersTerminator with
        | none => []
        | some (hend, _) =>
          let bodyStart := after + hend + 4
          [after + (hend + 2), bodyStart] ++
          match boundaryPosition lib c bodyStart it.boundary with
          | none => []
          | some nextB =>
            let dataEnd :=
              if bodyStart + 2 ≤ nextB ∧ (c.bytes.drop (nextB - 2)).take 2 = crlf.bytes then
                nextB - 2
              else nextB
            [nextB, dataEnd, bodyStart + (dataEnd - bodyStart)]

/-- Where a part lies: its data, and the delimiter behind them. -/
structure PartPlace where
  start : Nat
  stop : Nat
  delimiter : Nat
  deriving DecidableEq, Repr

/-- The data end at or before the first delimiter that the search finds behind their start, which
lies in `bytes` as a whole. -/
structure PartPlace.Inside (place : PartPlace) (boundary bytes : Bytes) : Prop where
  start_le : place.start ≤ place.stop
  stop_le : place.stop ≤ place.delimiter
  found : dashScan boundary (bytes.drop place.start) = some (place.delimiter - place.start)
  delimiter_le : place.delimiter + 2 + boundary.length ≤ bytes.length

/-- The calls in a row, the first of them number `0`. -/
def mpCall : Nat → MpIterator → MpPart → Result × MpIterator × MpPart
  | 0, it, out => mpIteratorNext lib it out
  | k + 1, it, out =>
    let (_, it, out) := mpIteratorNext lib it out
    mpCall k it out

section

variable {lib} {it : MpIterator} {out : MpPart}

theorem parseHeaderLines_data (fuel : Nat) (hcursor : Span) (out : MpPart) :
    (parseHeaderLines lib fuel hcursor out).data = out.data := by
  induction fuel generalizing hcursor out with
  | zero => rfl
  | succ fuel ih =>
    rw [parseHeaderLines]
    rcases parseHeaderLine lib hcursor with ⟨_ | ⟨hname, hval⟩, rest⟩
    · rfl
    · dsimp only
      rw [ih, MpPart.addHeader]
      split_ifs <;> rfl

/-- A found boundary lies behind the offset of the search, and inside the cursor. -/
theorem boundaryPosition_some {cursor boundary : Span} {offset i : Nat} (h : offset ≤ cursor.size)
    (hfound : boundaryPosition lib cursor offset boundary = some i) :
    offset ≤ i ∧ i + 2 + boundary.size ≤ cursor.size ∧
      dashScan boundary.bytes (cursor.bytes.drop offset) = some (i - offset) := by
  obtain ⟨k, hk, rfl⟩ := findBoundary_scan lib h (Option.mem_filter_iff.mp hfound).1
  have hlt := dashScan_lt hk
  rw [List.length_drop] at hlt
  simp only [Span.size] at h ⊢
  refine ⟨Nat.le_add_right _ _, by omega, ?_⟩
  rw [hk, Nat.add_sub_cancel_left]

variable (lib) in
/-- The two bytes that are passed over behind a boundary are there. -/
theorem after_le {c : Span} {after : Nat} (h : after ≤ c.size) :
    (if crlf.bytes <+: (lib.spanSliceToEnd c after).bytes then after + 2 else after) ≤ c.size := by
  split_ifs with hcrlf
  · rw [lib.spanSliceToEnd_eq _ _ h] at hcrlf
    have hle := hcrlf.length_le
    rw [crlf_length, Span.bytes_tail, List.length_drop] at hle
    simp only [Span.size] at h ⊢
    omega
  · exact h

/-- Behind the blank line of a part the cursor goes on. -/
theorem bodyStart_le {c : Span} {after hend : Nat} {rest : Span} (h : after ≤ c.size)
    (hblank : lib.spanFindInt (lib.spanSliceToEnd c after) headersTerminator = some (hend, rest)) :
    after + hend + 4 ≤ c.size := by
  rw [lib.spanSliceToEnd_eq _ _ h, lib.spanFindInt_eq _ headersTerminator_ne_nil] at hblank
  obtain ⟨i, hi, heq⟩ := Option.map_eq_some_iff.mp hblank
  obtain rfl := (Prod.mk.inj heq).1
  have hle := find?_length_le (Option.mem_filter_iff.mp hi).1
  have hfour : headersTerminator.bytes.length = 4 := by decide
  rw [hfour, Span.bytes_tail, List.length_drop] at hle
  simp only [Span.size] at h ⊢
  omega

/-- A call ends the iteration, or it returns a part and goes to the delimiter behind it. -/
theorem mpIteratorNext_cases (it : MpIterator) (out : MpPart) :
    ((mpIteratorNext lib it out).1 = .endOfData ∧ (mpIteratorNext lib it out).2.1.done = true) ∨
    ∃ (place : PartPlace) (out' : MpPart),
      mpIteratorNext lib it out =
        (.ok, { it with cursor := it.cursor.tail place.delimiter }, out') ∧
      out'.data = it.cursor.sub place.start (place.stop - place.start) ∧ 0 < place.start ∧
      place.Inside it.boundary.bytes it.cursor.bytes := by
  rw [mpIteratorNext]
  by_cases hdone : it.done
  · exact .inl (by simp [hdone])
  rw [if_neg hdone]
  dsimp only
  cases hfirst : boundaryPosition lib it.cursor 0 it.boundary with
  | none => exact .inl ⟨rfl, rfl⟩
  | some bpos =>
    dsimp only
    obtain ⟨-, hbpos, -⟩ := boundaryPosition_some (Nat.zero_le _) hfirst
    have hafter := after_le lib hbpos
    by_cases hclose : dashDash.bytes <+:
        (lib.spanSliceToEnd it.cursor (bpos + 2 + it.boundary.size)).bytes
    · rw [if_pos hclose]
      exact .inl ⟨rfl, rfl⟩
    · rw [if_neg hclose]
      generalize (if crlf.bytes <+: (lib.spanSliceToEnd it.cursor
        (bpos + 2 + it.boundary.size)).bytes then bpos + 2 + it.boundary.size + 2
        else bpos + 2 + it.boundary.size) = after at hafter ⊢
      cases hblank : lib.spanFindInt (lib.spanSliceToEnd it.cursor after) headersTerminator with
      | none => exact .inl ⟨rfl, rfl⟩
      | some found =>
        obtain ⟨hend, rest⟩ := found
        have hstart := bodyStart_le hafter hblank
        dsimp only
        cases hnext : boundaryPosition lib it.cursor (after + hend + 4) it.boundary with
        | none => exact .inl ⟨rfl, rfl⟩
        | some nextB =>
          obtain ⟨hle, hnextB, hscan⟩ := boundaryPosition_some hstart hnext
          dsimp only
          set dataEnd := if after + hend + 4 + 2 ≤ nextB ∧
            (it.cursor.bytes.drop (nextB - 2)).take 2 = crlf.bytes then nextB - 2 else nextB
            with hdataEnd
          have hdata : after + hend + 4 ≤ dataEnd ∧ dataEnd ≤ nextB := by
            rw [hdataEnd]
            split_ifs with htrim
            · omega
            · exact ⟨hle, Nat.le_refl _⟩
          rw [lib.spanSliceToEnd_eq _ nextB (by omega),
            lib.spanSlice_eq _ (after + hend + 4) _ (by omega)]
          exact .inr ⟨⟨after + hend + 4, dataEnd, nextB⟩, _, rfl, parseHeaderLines_data _ _ _,
            by simp, ⟨hdata.1, hdata.2, hscan, hnextB⟩⟩

/-- Every offset that a call computes is one of the cursor. -/
theorem mpOffsets_le (it : MpIterator) : ∀ o ∈ mpOffsets lib it, o ≤ it.cursor.size := by
  rw [mpOffsets]
  by_cases hdone : it.done
  · simp [hdone]
  rw [if_neg hdone]
  dsimp only
  cases hfirst : boundaryPosition lib it.cursor 0 it.boundary with
  | none => simp
  | some bpos =>
    dsimp only
    obtain ⟨-, hbpos, -⟩ := boundaryPosition_some (Nat.zero_le _) hfirst
    have hafter := after_le lib hbpos
    rw [List.forall_mem_append]
    refine ⟨by simp; omega, ?_⟩
    by_cases hclose : dashDash.bytes <+:
        (lib.spanSliceToEnd it.cursor (bpos + 2 + it.boundary.size)).bytes
    · simp [hclose]
    · rw [if_neg hclose]
      generalize (if crlf.bytes <+: (lib.spanSliceToEnd it.cursor
        (bpos + 2 + it.boundary.size)).bytes then bpos + 2 + it.boundary.size + 2
        else bpos + 2 + it.boundary.size) = after at hafter ⊢
      rw [List.forall_mem_append]
      refine ⟨by simpa using hafter, ?_⟩
      cases hblank : lib.spanFindInt (lib.spanSliceToEnd it.cursor after) headersTerminator with
      | none => simp
      | some found =>
        obtain ⟨hend, rest⟩ := found
        have hstart := bodyStart_le hafter hblank
        dsimp only
        rw [List.forall_mem_append]
        refine ⟨by simp; omega, ?_⟩
        cases hnext : boundaryPosition lib it.cursor (after + hend + 4) it.boundary with
        | none => simp
        | some nextB =>
          obtain ⟨hle, hnextB, -⟩ := boundaryPosition_some hstart hnext
          dsimp only
          split_ifs with htrim
          · simp
            omega
          · simp
            omega

theorem mpIteratorNext_done (h : it.done = true) :
    mpIteratorNext lib it out = (.endOfData, it, out) := if_pos h

theorem mpCall_done (h : it.done = true) (k : Nat) (out : MpPart) :
    mpCall lib k it out = (.endOfData, it, out) := by
  induction k with
  | zero => exact mpIteratorNext_done h
  | succ k ih =>
    rw [mpCall, mpIteratorNext_done h]
    exact ih

/-- Once a call has returned `end_of_data`, so does every later one. -/
theorem mpCall_ended (h : (mpIteratorNext lib it out).1 = .endOfData)
    (hdone : (mpIteratorNext lib it out).2.1.done = true) (k : Nat) :
    (mpCall lib k it out).1 = .endOfData := by
  cases k with
  | zero => exact h
  | succ k =>
    rw [mpCall]
    dsimp only
    rw [mpCall_done hdone]

end

/-! ## Nothing outside the spans -/

section

variable (lib lib' : CommonLib)

theorem spanSlice_congr {s : Span} {i n : Nat} (h : i + n ≤ s.size) :
    lib.spanSlice s i n = lib'.spanSlice s i n := by
  rw [lib.spanSlice_eq _ _ _ h, lib'.spanSlice_eq _ _ _ h]

theorem spanSliceToEnd_congr {s : Span} {i : Nat} (h : i ≤ s.size) :
    lib.spanSliceToEnd s i = lib'.spanSliceToEnd s i := by
  rw [lib.spanSliceToEnd_eq _ _ h, lib'.spanSliceToEnd_eq _ _ h]

theorem spanFindInt_congr {d : Span} (h : d.bytes ≠ []) (s : Span) :
    lib.spanFindInt s d = lib'.spanFindInt s d := by
  rw [lib.spanFindInt_eq _ h, lib'.spanFindInt_eq _ h]

theorem spanSplit_congr {d : Span} (h : d.bytes ≠ []) (s : Span) :
    lib.spanSplit s d = lib'.spanSplit s d := by
  rw [lib.spanSplit_eq _ _ h, lib'.spanSplit_eq _ _ h]

theorem spanIterate_congr {d : Span} (h : d.bytes ≠ []) (s : Span) :
    lib.spanIterate s d = lib'.spanIterate s d := by
  by_cases hs : s.bytes = []
  · rw [lib.spanIterate_nil _ _ hs, lib'.spanIterate_nil _ _ hs]
  · rw [lib.spanIterate_eq _ _ hs h, lib'.spanIterate_eq _ _ hs h]

theorem skipLeading_congr (skips : UInt8 → Bool) (fuel : Nat) (s : Span) :
    skipLeading lib skips fuel s = skipLeading lib' skips fuel s := by
  induction fuel generalizing s with
  | zero => rfl
  | succ fuel ih =>
    rw [skipLeading, skipLeading]
    cases hs : s.bytes with
    | nil => rfl
    | cons b rest =>
      have hone : 1 ≤ s.size := by
        rw [Span.size, hs]
        simp
      rw [spanSliceToEnd_congr lib lib' hone]
      simp only [List.head?_cons, ih]

theorem stripQuotes_congr (value : Span) : stripQuotes lib value = stripQuotes lib' value := by
  rw [stripQuotes, stripQuotes]
  by_cases hquote : value.bytes.head? = some 34
  · have hone : 1 ≤ value.size := by
      cases hv : value.bytes with
      | nil => simp [hv] at hquote
      | cons b rest =>
        rw [Span.size, hv]
        simp
    rw [spanSliceToEnd_congr lib lib' hone]
    dsimp only
    rw [spanSlice_congr lib lib' (by omega)]
  · rw [if_neg hquote, if_neg hquote]

theorem paramLoop_congr (key : Span) (fuel : Nat) (remainder : Span) :
    paramLoop lib key fuel remainder = paramLoop lib' key fuel remainder := by
  induction fuel generalizing remainder with
  | zero => rfl
  | succ fuel ih =>
    rw [paramLoop, paramLoop, spanIterate_congr lib lib' (by decide)]
    simp only [skipLeading_congr lib lib', spanSplit_congr lib lib' (d := equals) (by decide),
      stripQuotes_congr lib lib', ne_eq, lib.spanICompare_eq, lib'.spanICompare_eq, ih]

theorem parseHeaderLine_congr (cursor : Span) :
    parseHeaderLine lib cursor = parseHeaderLine lib' cursor := by
  rw [parseHeaderLine, parseHeaderLine]
  by_cases hempty : cursor.isEmpty
  · rw [if_pos hempty, if_pos hempty]
  rw [if_neg hempty, if_neg hempty]
  by_cases hblank : crlf.bytes <+: cursor.bytes
  · have htwo : 2 ≤ cursor.size := hblank.length_le
    rw [if_pos hblank, if_pos hblank, spanSliceToEnd_congr lib lib' htwo]
  rw [if_neg hblank, if_neg hblank, spanFindInt_congr lib lib' crlf_ne_nil]
  cases hline : lib'.spanFindInt cursor crlf with
  | none =>
    simp only [spanSplit_congr lib lib' headerNameTerminator_ne_nil, skipLeading_congr lib lib']
  | some found =>
    obtain ⟨pos, rest⟩ := found
    have hpos : 0 + pos ≤ cursor.size := by
      rw [lib'.spanFindInt_eq _ crlf_ne_nil] at hline
      obtain ⟨i, hi, heq⟩ := Option.map_eq_some_iff.mp hline
      obtain rfl := (Prod.mk.inj heq).1
      have hle := find?_length_le (Option.mem_filter_iff.mp hi).1
      rw [Span.size]
      omega
    simp only [spanSlice_congr lib lib' hpos, spanSplit_congr lib lib' headerNameTerminator_ne_nil,
      skipLeading_congr lib lib']

theorem parseHeaderLines_congr (fuel : Nat) (hcursor : Span) (out : MpPart) :
    parseHeaderLines lib fuel hcursor out = parseHeaderLines lib' fuel hcursor out := by
  induction fuel generalizing hcursor out with
  | zero => rfl
  | succ fuel ih =>
    have hadd : ∀ hname hval, out.addHeader lib hname hval = out.addHeader lib' hname hval := by
      intro hname hval
      simp only [MpPart.addHeader, lib.spanICompare_eq, lib'.spanICompare_eq, paramValue,
        paramLoop_congr lib lib']
    rw [parseHeaderLines, parseHeaderLines, parseHeaderLine_congr lib lib']
    simp only [ih, hadd]

theorem boundaryPosition_congr {cursor : Span} {offset : Nat} (h : offset ≤ cursor.size)
    (boundary : Span) :
    boundaryPosition lib cursor offset boundary = boundaryPosition lib' cursor offset boundary := by
  rw [boundaryPosition, boundaryPosition, findBoundary, findBoundary, lib.spanSliceToEnd_eq _ _ h,
    lib'.spanSliceToEnd_eq _ _ h]
  rw [findBoundaryLoop_congr lib lib' cursor boundary rfl rfl h (Nat.lt_succ_self _)
    (Nat.lt_succ_self _)]

/-- The laws say nothing about a slice that does not lie in its span, so a call takes none: what it
returns is the same whatever such a slice is. -/
theorem mpIteratorNext_congr (it : MpIterator) (out : MpPart) :
    mpIteratorNext lib it out = mpIteratorNext lib' it out := by
  rw [mpIteratorNext, mpIteratorNext]
  by_cases hdone : it.done
  · rw [if_pos hdone, if_pos hdone]
  rw [if_neg hdone, if_neg hdone]
  dsimp only
  rw [boundaryPosition_congr lib lib' (Nat.zero_le _)]
  cases hfirst : boundaryPosition lib' it.cursor 0 it.boundary with
  | none => rfl
  | some bpos =>
    dsimp only
    obtain ⟨-, hbpos, -⟩ := boundaryPosition_some (Nat.zero_le _) hfirst
    have hafter := after_le lib' hbpos
    rw [spanSliceToEnd_congr lib lib' hbpos]
    by_cases hclose : dashDash.bytes <+:
        (lib'.spanSliceToEnd it.cursor (bpos + 2 + it.boundary.size)).bytes
    · rw [if_pos hclose, if_pos hclose]
    · rw [if_neg hclose, if_neg hclose]
      generalize (if crlf.bytes <+: (lib'.spanSliceToEnd it.cursor
        (bpos + 2 + it.boundary.size)).bytes then bpos + 2 + it.boundary.size + 2
        else bpos + 2 + it.boundary.size) = after at hafter ⊢
      rw [spanSliceToEnd_congr lib lib' hafter, spanFindInt_congr lib lib' headersTerminator_ne_nil]
      cases hblank : lib'.spanFindInt (lib'.spanSliceToEnd it.cursor after) headersTerminator with
      | none => rfl
      | some found =>
        obtain ⟨hend, rest⟩ := found
        have hstart := bodyStart_le hafter hblank
        have hblock : 0 + (hend + 2) ≤ (lib'.spanSliceToEnd it.cursor after).size := by
          rw [lib'.spanSliceToEnd_eq _ _ hafter, Span.size, Span.bytes_tail, List.length_drop]
          rw [Span.size] at hstart
          omega
        dsimp only
        rw [boundaryPosition_congr lib lib' hstart]
        cases hnext : boundaryPosition lib' it.cursor (after + hend + 4) it.boundary with
        | none => rfl
        | some nextB =>
          obtain ⟨hle, hnextB, -⟩ := boundaryPosition_some hstart hnext
          dsimp only
          set dataEnd := if after + hend + 4 + 2 ≤ nextB ∧
            (it.cursor.bytes.drop (nextB - 2)).take 2 = crlf.bytes then nextB - 2 else nextB
            with hdataEnd
          have hdata : dataEnd ≤ nextB := by
            rw [hdataEnd]
            split_ifs <;> omega
          rw [spanSliceToEnd_congr lib lib' (show nextB ≤ it.cursor.size by omega),
            spanSlice_congr lib lib' hblock, spanSlice_congr lib lib'
              (show after + hend + 4 + (dataEnd - (after + hend + 4)) ≤ it.cursor.size by omega),
            parseHeaderLines_congr lib lib']

theorem mpIteratorInit_congr (contentTypeHeader body : Span) :
    mpIteratorInit lib contentTypeHeader body = mpIteratorInit lib' contentTypeHeader body := by
  rw [mpIteratorInit, mpIteratorInit, paramValue, paramValue, paramLoop_congr lib lib']

theorem mpCall_congr (k : Nat) (it : MpIterator) (out : MpPart) :
    mpCall lib k it out = mpCall lib' k it out := by
  induction k generalizing it out with
  | zero => exact mpIteratorNext_congr lib lib' it out
  | succ k ih =>
    rw [mpCall, mpCall, mpIteratorNext_congr lib lib']
    exact ih _ _

end

/-! ## Whole iterations -/

/-- The iterator that a call is given. -/
def mpBefore : Nat → MpIterator → MpPart → MpIterator
  | 0, it, _ => it
  | k + 1, it, out => (mpCall lib k it out).2.1

/-- The calls return parts at these places, which lie in the body in order, and then `end_of_data`
for good. -/
structure IteratesInOrder (it : MpIterator) (out : MpPart) (body : Span) (places : List PartPlace) :
    Prop where
  ok : ∀ k (h : k < places.length), (mpCall lib k it out).1 = .ok ∧
    (mpCall lib k it out).2.2.data = body.sub places[k].start (places[k].stop - places[k].start)
  ended : ∀ k, places.length ≤ k → (mpCall lib k it out).1 = .endOfData
  inside : ∀ place ∈ places, place.Inside it.boundary.bytes body.bytes
  ordered : places.Pairwise fun p q => p.delimiter < q.start

section

variable {lib} {it : MpIterator} {out : MpPart} {body : Span}

theorem IteratesInOrder.nil (h : ∀ k, (mpCall lib k it out).1 = .endOfData) :
    IteratesInOrder lib it out body [] where
  ok k hk := by simp at hk
  ended k _ := h k
  inside := by simp
  ordered := .nil

/-- A call that returns a part, and what comes after it. -/
theorem IteratesInOrder.cons {it' : MpIterator} {out' : MpPart} {place : PartPlace}
    {places : List PartPlace} (hcall : mpIteratorNext lib it out = (.ok, it', out'))
    (hboundary : it'.boundary = it.boundary)
    (hdata : out'.data = body.sub place.start (place.stop - place.start))
    (hinside : place.Inside it.boundary.bytes body.bytes)
    (hlater : ∀ q ∈ places, place.delimiter < q.start)
    (h : IteratesInOrder lib it' out' body places) :
    IteratesInOrder lib it out body (place :: places) where
  ok k hk := by
    cases k with
    | zero =>
      rw [mpCall, hcall]
      exact ⟨rfl, hdata⟩
    | succ k =>
      rw [mpCall, hcall]
      exact h.ok k (Nat.lt_of_succ_lt_succ hk)
  ended k hk := by
    cases k with
    | zero => simp at hk
    | succ k =>
      rw [mpCall, hcall]
      exact h.ended k (Nat.le_of_succ_le_succ hk)
  inside := by
    rw [List.forall_mem_cons]
    exact ⟨hinside, hboundary ▸ h.inside⟩
  ordered := List.pairwise_cons.mpr ⟨hlater, h.ordered⟩

/-- A place in what is left of a body, in the body. -/
theorem PartPlace.Inside.shift {place : PartPlace} {boundary bytes : Bytes} {base : Nat}
    (hbase : base ≤ bytes.length) (h : place.Inside boundary (bytes.drop base)) :
    (PartPlace.mk (base + place.start) (base + place.stop) (base + place.delimiter)).Inside
      boundary bytes where
  start_le := Nat.add_le_add_left h.start_le base
  stop_le := Nat.add_le_add_left h.stop_le base
  found := by
    have hfound := h.found
    rw [List.drop_drop] at hfound
    rw [hfound, Nat.add_sub_add_left]
  delimiter_le := by
    have hle := h.delimiter_le
    rw [List.length_drop] at hle
    dsimp only
    omega

variable (lib) in
/-- The iteration over what is left of a body: each part takes some of it. -/
theorem exists_iteratesInOrder {base : Nat} (hbase : base ≤ body.size) (it : MpIterator)
    (out : MpPart) (hcursor : it.cursor = body.tail base) :
    ∃ places, base + places.length ≤ body.size ∧ (∀ place ∈ places, base < place.start) ∧
      IteratesInOrder lib it out body places := by
  induction hn : body.size - base using Nat.strong_induction_on generalizing base it out with
  | _ n ih =>
    rcases mpIteratorNext_cases it out with
      ⟨hend, hdone⟩ | ⟨place, out', hcall, hdata, hpos, hplace⟩
    · exact ⟨[], hbase, by simp, .nil (mpCall_ended hend hdone)⟩
    · rw [hcursor] at hcall hdata hplace
      have hshift := hplace.shift hbase
      have hdelimiter := hshift.delimiter_le
      have hstart := hplace.start_le
      have hstop := hplace.stop_le
      dsimp only at hdelimiter
      rw [Span.tail_tail] at hcall
      rw [Span.sub_tail] at hdata
      obtain ⟨places, hlength, hafter, hrest⟩ := ih (body.size - (base + place.delimiter))
        (by rw [Span.size] at *; omega) (by rw [Span.size]; omega)
        { it with cursor := body.tail (base + place.delimiter) } out' rfl rfl
      refine ⟨⟨base + place.start, base + place.stop, base + place.delimiter⟩ :: places, ?_, ?_,
        .cons hcall rfl ?_ hshift hafter hrest⟩
      · rw [List.length_cons]
        omega
      · rw [List.forall_mem_cons]
        exact ⟨by dsimp only; omega, fun q hq => Nat.lt_of_le_of_lt (by omega) (hafter q hq)⟩
      · rw [hdata]
        dsimp only
        congr 1
        omega

end

/-- Whatever the header and the body are, the iteration ends, its parts lie in the body one behind
the other, and every offset and slice is inside of what it is taken from. -/
theorem multipart_ordered (contentTypeHeader body : Span) (out : MpPart) :
    let it := (mpIteratorInit lib contentTypeHeader body).2
    ∃ places : List PartPlace, places.length ≤ body.size ∧
      IteratesInOrder lib it out body places ∧
      (∀ k, ∀ o ∈ mpOffsets lib (mpBefore lib k it out), o ≤ (mpBefore lib k it out).cursor.size) ∧
      ∀ lib' k, mpCall lib' k (mpIteratorInit lib' contentTypeHeader body).2 out =
        mpCall lib k it out := by
  intro it
  have hplaces : ∃ places : List PartPlace, places.length ≤ body.size ∧
      IteratesInOrder lib it out body places := by
    by_cases hfound : (paramValue lib contentTypeHeader MULTIPART_BOUNDARY).isEmpty
    · have hdone : it.done = true := by
        rw [show it = (mpIteratorInit lib contentTypeHeader body).2 from rfl, mpIteratorInit,
          if_pos hfound]
      exact ⟨[], Nat.zero_le _, .nil fun k => by rw [mpCall_done hdone]⟩
    · have hcursor : it.cursor = body.tail 0 := by
        rw [show it = (mpIteratorInit lib contentTypeHeader body).2 from rfl, mpIteratorInit,
          if_neg hfound, Span.tail_zero]
      obtain ⟨places, hlength, -, hrun⟩ :=
        exists_iteratesInOrder lib (Nat.zero_le _) it out hcursor
      exact ⟨places, by omega, hrun⟩
  obtain ⟨places, hlength, hrun⟩ := hplaces
  refine ⟨places, hlength, hrun, fun k => mpOffsets_le _, fun lib' k => ?_⟩
  rw [mpCall_congr lib' lib, mpIteratorInit_congr lib' lib]

end HttpC
