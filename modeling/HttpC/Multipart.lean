import HttpC.Messages

/-!
# Multipart bodies

`multipart.c`. The iterator looks for `--` and then for the boundary behind it, and goes on behind
the two dashes if it is not there. It does not ask whether the dashes stand at the start of a line.

## Main results

* `findBoundary_eq` — the search, by content: `dashScan`, as far as an `int` goes.
* `mpIteratorInit_eq` — the boundary that a Content-Type header announces.
* `parseHeaderLines_block` — what the header lines of a part say.
-/

namespace HttpC

open ListSearch

/-! ## The model -/

def dashDash : Span := .lit "--"
def semicolon : Span := .lit ";"
def equals : Span := .lit "="

def MULTIPART_BOUNDARY : Span := .lit "boundary"
def CONTENT_DISPOSITION : Span := .lit "Content-Disposition"
def CONTENT_TYPE : Span := .lit "Content-Type"

/-- `mp_part_t`. -/
structure MpPart where
  name : Span
  filename : Span
  contentType : Span
  data : Span
  deriving DecidableEq, Repr

/-- `mp_iterator_t`. -/
structure MpIterator where
  boundary : Span
  cursor : Span
  done : Bool
  deriving DecidableEq, Repr

section

variable (lib : CommonLib)

/-- The loops that take leading bytes off a span, one at a time. -/
def skipLeading (skips : UInt8 → Bool) : Nat → Span → Span
  | 0, s => s
  | fuel + 1, s =>
    match s.bytes.head? with
    | none => s
    | some b => if skips b then skipLeading skips fuel (lib.spanSliceToEnd s 1) else s

/-- The double quotes around a parameter value. -/
def stripQuotes (value : Span) : Span :=
  if value.bytes.head? = some 34 then
    let value := lib.spanSliceToEnd value 1
    if value.bytes.getLast? = some 34 then lib.spanSlice value 0 (value.size - 1) else value
  else value

/-- The loop of `param_value` over the remaining segments. -/
def paramLoop (key : Span) : Nat → Span → Span
  | 0, _ => .empty
  | fuel + 1, remainder =>
    match lib.spanIterate remainder semicolon with
    | none => .empty
    | some (segment, remainder) =>
      match lib.spanSplit (skipLeading lib (· == 32) segment.size segment) equals with
      | none => paramLoop key fuel remainder
      | some (segKey, segVal) =>
        if lib.spanICompare segKey key ≠ 0 then paramLoop key fuel remainder
        else stripQuotes lib segVal

def paramValue (header key : Span) : Span := paramLoop lib key (header.size + 1) header

/-- The loop of `find_boundary` over the rest of the search area. -/
def findBoundaryLoop (cursor boundary : Span) : Nat → Span → Option Nat
  | 0, _ => none
  | fuel + 1, rem =>
    if rem.isEmpty then none
    else
      match lib.spanFindInt rem dashDash with
      | none => none
      | some (found, afterMatch) =>
        let absPos := rem.ptr - cursor.ptr + found
        let candidate := lib.spanSliceToEnd cursor (absPos + 2)
        -- `memcmp` over the size of the boundary
        if boundary.size ≤ candidate.size ∧
            candidate.bytes.take boundary.size = boundary.bytes then some absPos
        else findBoundaryLoop cursor boundary fuel afterMatch

def findBoundary (cursor : Span) (offset : Nat) (boundary : Span) : Option Nat :=
  let searchArea := lib.spanSliceToEnd cursor offset
  findBoundaryLoop lib cursor boundary (searchArea.size + 1) searchArea

/-- `find_boundary` as `mp_iterator_next` tests it: a negative `int` is no position. -/
def boundaryPosition (cursor : Span) (offset : Nat) (boundary : Span) : Option Nat :=
  (findBoundary lib cursor offset boundary).filter fitsInt

/-- `parse_header_line`: the name and the value, unless there is no more, and the moved cursor. -/
def parseHeaderLine (cursor : Span) : Option (Span × Span) × Span :=
  if cursor.isEmpty then (none, cursor)
  else if crlf.bytes <+: cursor.bytes then (none, lib.spanSliceToEnd cursor 2)
  else
    let (line, cursor) :=
      match lib.spanFindInt cursor crlf with
      | none => (cursor, .empty)
      | some (crlfPos, rest) => (lib.spanSlice cursor 0 crlfPos, rest)
    match lib.spanSplit line headerNameTerminator with
    | none => (none, cursor)
    | some (name, value) => (some (name, skipLeading lib isBlank value.size value), cursor)

/-- What a header line adds to a part. -/
def MpPart.addHeader (out : MpPart) (hname hval : Span) : MpPart :=
  if lib.spanICompare hname CONTENT_DISPOSITION = 0 then
    { out with
      name := paramValue lib hval (.lit "name")
      filename := paramValue lib hval (.lit "filename") }
  else if lib.spanICompare hname CONTENT_TYPE = 0 then { out with contentType := hval }
  else out

/-- The loop over the header lines of a part. -/
def parseHeaderLines : Nat → Span → MpPart → MpPart
  | 0, _, out => out
  | fuel + 1, hcursor, out =>
    match parseHeaderLine lib hcursor with
    | (none, _) => out
    | (some (hname, hval), hcursor) =>
      parseHeaderLines fuel hcursor (out.addHeader lib hname hval)

def mpIteratorInit (contentTypeHeader body : Span) : Result × MpIterator :=
  let b := paramValue lib contentTypeHeader MULTIPART_BOUNDARY
  if b.isEmpty then (.notFound, ⟨.empty, .empty, true⟩) else (.ok, ⟨b, body, false⟩)

/-- `mp_iterator_next`. `out` is written only where the result is `ok`. -/
def mpIteratorNext (it : MpIterator) (out : MpPart) : Result × MpIterator × MpPart :=
  let finished := (Result.endOfData, { it with done := true }, out)
  if it.done then (.endOfData, it, out)
  else
    let c := it.cursor
    match boundaryPosition lib c 0 it.boundary with
    | none => finished
    | some bpos =>
      let after := bpos + 2 + it.boundary.size
      let tail := lib.spanSliceToEnd c after
      if dashDash.bytes <+: tail.bytes then finished
      else
        let after := if crlf.bytes <+: tail.bytes then after + 2 else after
        let headerArea := lib.spanSliceToEnd c after
        match lib.spanFindInt headerArea headersTerminator with
        | none => finished
        | some (hend, _) =>
          let hdrsBlock := lib.spanSlice headerArea 0 (hend + 2)
          let bodyStart := after + hend + 4
          match boundaryPosition lib c bodyStart it.boundary with
          | none => finished
          | some nextB =>
            -- the CRLF before a delimiter is part of it
            let dataEnd :=
              if bodyStart + 2 ≤ nextB ∧ (c.bytes.drop (nextB - 2)).take 2 = crlf.bytes then
                nextB - 2
              else nextB
            let data := lib.spanSlice c bodyStart (dataEnd - bodyStart)
            (.ok, { it with cursor := lib.spanSliceToEnd c nextB },
              parseHeaderLines lib (hdrsBlock.size + 1) hdrsBlock ⟨.empty, .empty, .empty, data⟩)

end

/-! ## Searching for the boundary -/

/-- Offset of the first pair of dashes that the boundary follows, where the pairs are taken from
left to right and do not overlap. -/
def dashScan (boundary : Bytes) : Bytes → Option Nat
  | [] => none
  | [_] => none
  | a :: b :: rest =>
    if a = 45 ∧ b = 45 then
      if boundary <+: rest then some 0 else (dashScan boundary rest).map (· + 2)
    else (dashScan boundary (b :: rest)).map (· + 1)

theorem dashDash_bytes : dashDash.bytes = [45, 45] := by decide
@[simp] theorem dashDash_size : dashDash.size = 2 := by decide
@[simp] theorem dashDash_length : dashDash.bytes.length = 2 := by decide
@[simp] theorem dashDash_ne_nil : dashDash.bytes ≠ [] := by decide

/-- The scan goes from one pair of dashes to the next. -/
theorem dashScan_eq (boundary l : Bytes) :
    dashScan boundary l =
      match find? dashDash.bytes l with
      | none => none
      | some i =>
        if boundary <+: l.drop (i + 2) then some i
        else (dashScan boundary (l.drop (i + 2))).map (· + (i + 2)) := by
  fun_induction dashScan boundary l with
  | case1 => rfl
  | case2 a =>
    have hnone : find? dashDash.bytes [a] = none := by
      rw [find?_eq_none]
      intro i hi
      have hle := hi.length_le
      simp at hle
    rw [hnone]
  | case3 a b rest hdashes hpre =>
    obtain ⟨rfl, rfl⟩ := hdashes
    simp [find?, dashDash_bytes, hpre]
  | case4 a b rest hdashes hpre ih =>
    obtain ⟨rfl, rfl⟩ := hdashes
    simp [find?, dashDash_bytes, hpre]
  | case5 a b rest hdashes ih =>
    have hnot : ¬ dashDash.bytes <+: a :: b :: rest := by
      rw [dashDash_bytes]
      simpa [eq_comm] using hdashes
    have hstep : find? dashDash.bytes (a :: b :: rest) =
        (find? dashDash.bytes (b :: rest)).map (· + 1) := if_neg hnot
    rw [ih, hstep]
    cases find? dashDash.bytes (b :: rest) with
    | none => rfl
    | some i =>
      simp only [Option.map_some, List.drop_succ_cons]
      split_ifs with hpre
      · rfl
      · rw [Option.map_map]
        rfl

/-- A found boundary is there. -/
theorem dashScan_starts {boundary l : Bytes} {i : Nat} (h : dashScan boundary l = some i) :
    dashDash.bytes ++ boundary <+: l.drop i := by
  fun_induction dashScan boundary l generalizing i with
  | case1 => cases h
  | case2 a => cases h
  | case3 a b rest hdashes hpre =>
    obtain rfl := Option.some.inj h
    obtain ⟨rfl, rfl⟩ := hdashes
    rw [dashDash_bytes]
    simpa using hpre
  | case4 a b rest hdashes hpre ih =>
    obtain ⟨k, hk, rfl⟩ := Option.map_eq_some_iff.mp h
    exact ih hk
  | case5 a b rest hdashes ih =>
    obtain ⟨k, hk, rfl⟩ := Option.map_eq_some_iff.mp h
    exact ih hk

theorem dashScan_lt {boundary l : Bytes} {i : Nat} (h : dashScan boundary l = some i) :
    i + 2 + boundary.length ≤ l.length := by
  have hle := (dashScan_starts h).length_le
  rw [List.length_append, List.length_drop, dashDash_length] at hle
  omega

/-- Nothing behind a found boundary is looked at. -/
theorem dashScan_append_some {boundary l : Bytes} {i : Nat} (h : dashScan boundary l = some i)
    (r : Bytes) : dashScan boundary (l ++ r) = some i := by
  fun_induction dashScan boundary l generalizing i with
  | case1 => cases h
  | case2 a => cases h
  | case3 a b rest hdashes hpre =>
    rw [List.cons_append, List.cons_append, dashScan, if_pos hdashes,
      if_pos (hpre.trans (List.prefix_append _ _))]
    exact h
  | case4 a b rest hdashes hpre ih =>
    obtain ⟨k, hk, rfl⟩ := Option.map_eq_some_iff.mp h
    have hnot : ¬ boundary <+: rest ++ r := by
      intro hlong
      have hlt := dashScan_lt hk
      exact hpre (List.prefix_of_prefix_length_le hlong (List.prefix_append _ _) (by omega))
    rw [List.cons_append, List.cons_append, dashScan, if_pos hdashes, if_neg hnot, ih hk]
    rfl
  | case5 a b rest hdashes ih =>
    obtain ⟨k, hk, rfl⟩ := Option.map_eq_some_iff.mp h
    rw [List.cons_append, List.cons_append, dashScan, if_neg hdashes, ← List.cons_append, ih hk]
    rfl

/-- Where the data has no boundary, the delimiter behind it is found. -/
theorem dashScan_append_delimiter {boundary l : Bytes} (hcr : 13 ∉ boundary)
    (h : dashScan boundary l = none) (r : Bytes) :
    dashScan boundary (l ++ (crlf.bytes ++ (dashDash.bytes ++ (boundary ++ r)))) =
      some (l.length + 2) := by
  fun_induction dashScan boundary l with
  | case1 => simp [crlf_bytes, dashDash_bytes, dashScan]
  | case2 a => simp [crlf_bytes, dashDash_bytes, dashScan]
  | case3 a b rest hdashes hpre => cases h
  | case4 a b rest hdashes hpre ih =>
    -- the boundary does not reach over the line break
    have hnot : ¬ boundary <+:
        rest ++ (crlf.bytes ++ (dashDash.bytes ++ (boundary ++ r))) := by
      intro hlong
      by_cases hle : boundary.length ≤ rest.length
      · exact hpre (List.prefix_of_prefix_length_le hlong (List.prefix_append _ _) hle)
      · have hover : rest ++ [13] <+: boundary := by
          refine List.prefix_of_prefix_length_le ?_ hlong (by simp; omega)
          rw [crlf_bytes]
          exact ⟨10 :: (dashDash.bytes ++ (boundary ++ r)), by simp⟩
        exact hcr (hover.subset (by simp))
    rw [List.cons_append, List.cons_append, dashScan, if_pos hdashes, if_neg hnot,
      ih (Option.map_eq_none_iff.mp h)]
    simp only [Option.map_some, List.length_cons]
  | case5 a b rest hdashes ih =>
    rw [List.cons_append, List.cons_append, dashScan, if_neg hdashes, ← List.cons_append,
      ih (Option.map_eq_none_iff.mp h)]
    simp only [Option.map_some, List.length_cons]

section

variable (lib : CommonLib)

/-- One step of the loop, by content: the first pair of dashes behind the cursor's offset `k`. -/
theorem findBoundaryLoop_succ (cursor boundary : Span) {fuel k : Nat} {rem : Span}
    (hptr : rem.ptr = cursor.ptr + k) (hbytes : rem.bytes = cursor.bytes.drop k)
    (hk : k ≤ cursor.size) :
    findBoundaryLoop lib cursor boundary (fuel + 1) rem =
      ((find? dashDash.bytes rem.bytes).filter fitsInt).bind fun i =>
        if boundary.bytes <+: rem.bytes.drop (i + 2) then some (k + i)
        else findBoundaryLoop lib cursor boundary fuel (rem.tail (i + 2)) := by
  rw [findBoundaryLoop]
  split_ifs with hempty
  · have hnone : find? dashDash.bytes rem.bytes = none := by
      rw [Span.isEmpty_iff.mp hempty]
      rfl
    rw [hnone]
    rfl
  rw [lib.spanFindInt_eq _ dashDash_ne_nil]
  cases hfind : (find? dashDash.bytes rem.bytes).filter fitsInt with
  | none => rfl
  | some i =>
    have hlen := find?_length_le (Option.mem_filter_iff.mp hfind).1
    have hsize := congrArg List.length hbytes
    rw [dashDash_length] at hlen
    rw [List.length_drop] at hsize
    simp only [Span.size] at hk
    have habs : rem.ptr - cursor.ptr + i = k + i := by omega
    have hcandidate : lib.spanSliceToEnd cursor (k + i + 2) = cursor.tail (k + i + 2) :=
      lib.spanSliceToEnd_eq _ _ (by rw [Span.size]; omega)
    have hdrop : rem.bytes.drop (i + 2) = cursor.bytes.drop (k + i + 2) := by
      rw [hbytes, List.drop_drop, Nat.add_assoc]
    have hcompare : (boundary.size ≤ (cursor.tail (k + i + 2)).size ∧
        (cursor.tail (k + i + 2)).bytes.take boundary.size = boundary.bytes) ↔
        boundary.bytes <+: rem.bytes.drop (i + 2) := by
      rw [hdrop]
      constructor
      · rintro ⟨-, htake⟩
        exact List.prefix_iff_eq_take.mpr htake.symm
      · intro hpre
        exact ⟨hpre.length_le, (List.prefix_iff_eq_take.mp hpre).symm⟩
    simp only [Option.map_some, Option.bind_some, habs, hcandidate, hcompare, dashDash_size]

/-- A position that the loop returns is one of the scan. -/
theorem findBoundaryLoop_some (cursor boundary : Span) {fuel k p : Nat} {rem : Span}
    (hptr : rem.ptr = cursor.ptr + k) (hbytes : rem.bytes = cursor.bytes.drop k)
    (hk : k ≤ cursor.size) (h : findBoundaryLoop lib cursor boundary fuel rem = some p) :
    ∃ j, dashScan boundary.bytes rem.bytes = some j ∧ p = k + j := by
  induction fuel generalizing k rem with
  | zero => cases h
  | succ fuel ih =>
    rw [findBoundaryLoop_succ lib cursor boundary hptr hbytes hk] at h
    obtain ⟨i, hi, hstep⟩ := Option.bind_eq_some_iff.mp h
    have hfind := (Option.mem_filter_iff.mp hi).1
    have hlen := find?_length_le hfind
    have hsize := congrArg List.length hbytes
    rw [dashDash_length] at hlen
    rw [List.length_drop] at hsize
    simp only [Span.size] at hk
    rw [dashScan_eq, hfind]
    dsimp only
    split_ifs at hstep ⊢ with hpre
    · exact ⟨i, rfl, (Option.some.inj hstep).symm⟩
    · obtain ⟨j, hj, rfl⟩ := @ih (k + (i + 2)) (rem.tail (i + 2)) (by simp; omega)
        (by rw [Span.bytes_tail, hbytes, List.drop_drop]) (by rw [Span.size]; omega) hstep
      rw [Span.bytes_tail] at hj
      exact ⟨j + (i + 2), by rw [hj]; rfl, by omega⟩

/-- A position of the scan below half the range is returned. -/
theorem findBoundaryLoop_of_lt (cursor boundary : Span) {fuel k j : Nat} {rem : Span}
    (hptr : rem.ptr = cursor.ptr + k) (hbytes : rem.bytes = cursor.bytes.drop k)
    (hk : k ≤ cursor.size) (hfuel : rem.size < fuel)
    (h : dashScan boundary.bytes rem.bytes = some j) (hj : j < 2 ^ 31) :
    findBoundaryLoop lib cursor boundary fuel rem = some (k + j) := by
  induction fuel generalizing k rem j with
  | zero => omega
  | succ fuel ih =>
    rw [findBoundaryLoop_succ lib cursor boundary hptr hbytes hk]
    rw [dashScan_eq] at h
    cases hfind : find? dashDash.bytes rem.bytes with
    | none =>
      rw [hfind] at h
      cases h
    | some i =>
      have hlen := find?_length_le hfind
      have hsize := congrArg List.length hbytes
      rw [dashDash_length] at hlen
      rw [List.length_drop] at hsize
      simp only [Span.size] at hk hfuel
      rw [hfind] at h
      dsimp only at h
      split_ifs at h with hpre
      · obtain rfl := Option.some.inj h
        rw [Option.filter_some, if_pos (fitsInt_of_lt hj), Option.bind_some, if_pos hpre]
      · obtain ⟨m, hm, rfl⟩ := Option.map_eq_some_iff.mp h
        rw [Option.filter_some, if_pos (fitsInt_of_lt (by omega)), Option.bind_some, if_neg hpre,
          @ih (k + (i + 2)) m (rem.tail (i + 2)) (by simp; omega)
            (by rw [Span.bytes_tail, hbytes, List.drop_drop]) (by rw [Span.size]; omega)
            (by simp [Span.size]; omega) hm (by omega)]
        congr 1
        omega

/-- The loop ends, and it calls the library inside the cursor only. -/
theorem findBoundaryLoop_congr (lib' : CommonLib) (cursor boundary : Span) {fuel fuel' k : Nat}
    {rem : Span} (hptr : rem.ptr = cursor.ptr + k) (hbytes : rem.bytes = cursor.bytes.drop k)
    (hk : k ≤ cursor.size) (hfuel : rem.size < fuel) (hfuel' : rem.size < fuel') :
    findBoundaryLoop lib cursor boundary fuel rem =
      findBoundaryLoop lib' cursor boundary fuel' rem := by
  induction fuel generalizing k rem fuel' with
  | zero => omega
  | succ fuel ih =>
    obtain ⟨fuel', rfl⟩ : ∃ n, fuel' = n + 1 := ⟨fuel' - 1, by omega⟩
    rw [findBoundaryLoop_succ lib cursor boundary hptr hbytes hk,
      findBoundaryLoop_succ lib' cursor boundary hptr hbytes hk]
    refine Option.bind_congr fun i hi => ?_
    have hlen := find?_length_le (Option.mem_filter_iff.mp hi).1
    have hsize := congrArg List.length hbytes
    rw [dashDash_length] at hlen
    rw [List.length_drop] at hsize
    simp only [Span.size] at hk hfuel hfuel'
    rw [@ih fuel' (k + (i + 2)) (rem.tail (i + 2)) (by simp; omega)
      (by rw [Span.bytes_tail, hbytes, List.drop_drop]) (by rw [Span.size]; omega)
      (by simp [Span.size]; omega) (by simp [Span.size]; omega)]

section

variable {cursor boundary : Span} {offset : Nat}

/-- A position that the search returns is one of the scan. -/
theorem findBoundary_scan {p : Nat} (h : offset ≤ cursor.size)
    (hfound : findBoundary lib cursor offset boundary = some p) :
    ∃ j, dashScan boundary.bytes (cursor.bytes.drop offset) = some j ∧ p = offset + j := by
  rw [findBoundary, lib.spanSliceToEnd_eq _ _ h] at hfound
  exact findBoundaryLoop_some lib cursor boundary rfl rfl h hfound

/-- The search, by content, where the scan stops below half the range. -/
theorem findBoundary_eq {j : Nat} (h : offset ≤ cursor.size)
    (hscan : dashScan boundary.bytes (cursor.bytes.drop offset) = some j) (hj : j < 2 ^ 31) :
    findBoundary lib cursor offset boundary = some (offset + j) := by
  rw [findBoundary, lib.spanSliceToEnd_eq _ _ h]
  exact findBoundaryLoop_of_lt lib cursor boundary rfl rfl h (Nat.lt_succ_self _) hscan hj

/-- A boundary that stands below half the range is found. -/
theorem boundaryPosition_eq {j : Nat} (h : offset ≤ cursor.size)
    (hscan : dashScan boundary.bytes (cursor.bytes.drop offset) = some j)
    (hlt : offset + j < 2 ^ 31) :
    boundaryPosition lib cursor offset boundary = some (offset + j) := by
  rw [boundaryPosition, findBoundary_eq lib h hscan (by omega), Option.filter_some,
    if_pos (fitsInt_of_lt hlt)]

/-- A boundary that stands beyond it is not. -/
theorem boundaryPosition_eq_none {j : Nat} (hsize : cursor.size < 2 ^ 32) (h : offset ≤ cursor.size)
    (hscan : dashScan boundary.bytes (cursor.bytes.drop offset) = some j)
    (hle : 2 ^ 31 ≤ offset + j) :
    boundaryPosition lib cursor offset boundary = none := by
  have hlt := dashScan_lt hscan
  rw [List.length_drop] at hlt
  simp only [Span.size] at hsize h
  rw [boundaryPosition, Option.filter_eq_none_iff]
  rintro p hfound
  obtain ⟨k, hk, rfl⟩ := findBoundary_scan lib h hfound
  obtain rfl := Option.some.inj (hk.symm.trans hscan)
  rw [fitsInt_iff (by omega)]
  omega

end

/-! ## Parameters -/

theorem bytes_skipLeading (skips : UInt8 → Bool) {fuel : Nat} {s : Span} (h : s.size ≤ fuel) :
    (skipLeading lib skips fuel s).bytes = s.bytes.dropWhile skips := by
  induction fuel generalizing s with
  | zero =>
    have hnil : s.bytes = [] := List.length_eq_zero_iff.mp (Nat.le_zero.mp h)
    rw [skipLeading, hnil]
    rfl
  | succ fuel ih =>
    rw [skipLeading]
    cases hs : s.bytes with
    | nil => simp [hs]
    | cons b rest =>
      rw [Span.size, hs, List.length_cons] at h
      rw [lib.spanSliceToEnd_eq _ _ (by rw [Span.size, hs]; simp)]
      simp only [List.head?_cons, List.dropWhile_cons]
      split_ifs with hb
      · rw [ih (by simp [Span.size, hs]; omega)]
        simp [hs]
      · exact hs

/-- A value without the double quotes around it. -/
def unquoted (value : Bytes) : Bytes :=
  if value.head? = some 34 then
    if value.tail.getLast? = some 34 then value.tail.dropLast else value.tail
  else value

/-- What a segment says about the parameter `key`. -/
def segmentValue (key segment : Bytes) : Option Bytes :=
  match cut? equals.bytes (segment.dropWhile (· == 32)) with
  | none => none
  | some (k, v) => if lower k = lower key then some (unquoted v) else none

/-- The parameter `key` of a header value, by content: the first segment between semicolons that
has it. -/
def parameter (key header : Bytes) : Option Bytes :=
  (pieces semicolon.bytes header).findSome? (segmentValue key)

theorem bytes_stripQuotes (value : Span) : (stripQuotes lib value).bytes = unquoted value.bytes := by
  rw [stripQuotes, unquoted]
  by_cases hquote : value.bytes.head? = some 34
  · rw [if_pos hquote, if_pos hquote]
    cases hv : value.bytes with
    | nil => simp [hv] at hquote
    | cons b rest =>
      have htail : lib.spanSliceToEnd value 1 = value.tail 1 :=
        lib.spanSliceToEnd_eq _ _ (by rw [Span.size, hv]; simp)
      have hrest : (value.tail 1).bytes = rest := by
        rw [Span.bytes_tail, hv]
        rfl
      rw [htail]
      dsimp only
      rw [hrest, List.tail_cons]
      split_ifs
      · rw [lib.spanSlice_eq _ _ _ (by omega), Span.bytes_sub, Span.size, hrest, List.drop_zero,
          List.dropLast_eq_take]
      · exact hrest
  · rw [if_neg hquote, if_neg hquote]

/-- One pass of the loop: the value of the segment, or what the passes behind it find. -/
theorem paramSegment_bytes (key segment next : Span) :
    (match lib.spanSplit (skipLeading lib (· == 32) segment.size segment) equals with
      | none => next
      | some (segKey, segVal) =>
        if lib.spanICompare segKey key ≠ 0 then next else stripQuotes lib segVal).bytes =
      (segmentValue key.bytes segment.bytes).getD next.bytes := by
  have hskip := bytes_skipLeading lib (· == 32) (Nat.le_refl segment.size)
  rw [segmentValue, ← hskip]
  generalize skipLeading lib (· == 32) segment.size segment = s
  cases hcut : cut? equals.bytes s.bytes with
  | none =>
    rw [CommonLib.spanSplit_none (by decide) hcut]
    rfl
  | some parts =>
    obtain ⟨k, v⟩ := parts
    obtain ⟨hbytes, -⟩ := cut?_eq_some.mp hcut
    have hk : (s.sub 0 k.length).bytes = k := by
      rw [Span.bytes_sub, List.drop_zero, hbytes, List.take_left]
    have hv : (s.tail (k.length + equals.size)).bytes = v := by
      rw [Span.bytes_tail, hbytes, ← List.drop_drop, List.drop_left, Span.size, List.drop_left]
    rw [CommonLib.spanSplit_some (by decide) hcut]
    simp only [ne_eq, lib.spanICompare_eq, hk]
    by_cases hkey : lower k = lower key.bytes
    · rw [if_neg (not_not.mpr hkey), if_pos hkey, bytes_stripQuotes, hv]
      rfl
    · rw [if_pos hkey, if_neg hkey]
      rfl

theorem paramLoop_bytes (key : Span) {fuel : Nat} {remainder : Span} (h : remainder.size < fuel) :
    (paramLoop lib key fuel remainder).bytes =
      (parameter key.bytes remainder.bytes).getD [] := by
  have hcons : ∀ (segment : Bytes) (segments : List Bytes),
      ((segment :: segments).findSome? (segmentValue key.bytes)).getD [] =
        (segmentValue key.bytes segment).getD
          ((segments.findSome? (segmentValue key.bytes)).getD []) := by
    intro segment segments
    rw [List.findSome?_cons]
    cases segmentValue key.bytes segment <;> rfl
  induction fuel generalizing remainder with
  | zero => omega
  | succ fuel ih =>
    rw [paramLoop, parameter]
    by_cases hnil : remainder.bytes = []
    · rw [lib.spanIterate_nil _ _ hnil, hnil]
      rfl
    · rw [lib.spanIterate_eq _ _ hnil (by decide)]
      have hpos : 0 < remainder.bytes.length := List.length_pos_iff.mpr hnil
      rw [Span.size] at h
      cases hfind : find? semicolon.bytes remainder.bytes with
      | none =>
        have hcut : cut? semicolon.bytes remainder.bytes = none := by simp [cut?, hfind]
        have hrest := ih (show Span.empty.size < fuel by simp [Span.size, Span.empty]; omega)
        rw [pieces_of_no_cut hnil hcut, hcons]
        exact (paramSegment_bytes lib key remainder _).trans (by rw [hrest]; rfl)
      | some i =>
        have hcut : cut? semicolon.bytes remainder.bytes = some (remainder.bytes.take i,
            remainder.bytes.drop (i + semicolon.bytes.length)) := by
          simp [cut?, hfind]
        have hlen := find?_length_le hfind
        have hone : semicolon.bytes.length = 1 := by decide
        have hrest := ih (show (remainder.tail (i + semicolon.size)).size < fuel by
          rw [Span.size, Span.bytes_tail, Span.size, List.length_drop]
          omega)
        rw [pieces_of_cut (by decide) hcut, hcons]
        exact (paramSegment_bytes lib key (remainder.sub 0 i) _).trans (by rw [hrest]; rfl)

/-- A parameter, by content; `SPAN_EMPTY` if there is none. -/
theorem paramValue_bytes (header key : Span) :
    (paramValue lib header key).bytes = (parameter key.bytes header.bytes).getD [] :=
  paramLoop_bytes lib key (Nat.lt_succ_self _)

end

section

variable {key segment value v : Bytes}

theorem cut?_semicolon (h : 59 ∉ segment) (rest : Bytes) :
    cut? semicolon.bytes (segment ++ 59 :: rest) = some (segment, rest) :=
  cut?_append_sep (unbordered_singleton 59)
    (fun hin => h (hin.subset (List.mem_singleton_self _))) rest

/-- The first segment, and the others. -/
theorem parameter_cons (h : 59 ∉ segment) (key rest : Bytes) :
    parameter key (segment ++ 59 :: rest) = (segmentValue key segment).or (parameter key rest) := by
  rw [parameter, pieces_of_cut (by decide) (cut?_semicolon h rest), List.findSome?_cons, parameter]
  cases segmentValue key segment <;> rfl

/-- The last segment. -/
theorem parameter_last (h : 59 ∉ segment) (key : Bytes) :
    parameter key segment = segmentValue key segment := by
  cases hs : segment with
  | nil => rfl
  | cons b rest =>
    have hcut : cut? semicolon.bytes (b :: rest) = none := by
      refine cut?_eq_none.mpr fun i hi => h ?_
      rw [hs]
      exact (infix_iff_occursAt.mpr ⟨i, hi⟩).subset (List.mem_singleton_self _)
    rw [parameter, pieces_of_no_cut (by simp) hcut, List.findSome?_cons]
    cases segmentValue key (b :: rest) <;> rfl

/-- A segment without a parameter. -/
theorem segmentValue_none (h : 61 ∉ segment) (key : Bytes) : segmentValue key segment = none := by
  have hcut : cut? equals.bytes (segment.dropWhile (· == 32)) = none := by
    refine cut?_eq_none.mpr fun i hi => h ?_
    exact (List.dropWhile_suffix _).subset
      ((infix_iff_occursAt.mpr ⟨i, hi⟩).subset (List.mem_singleton_self _))
  rw [segmentValue, hcut]

/-- A segment with a parameter. -/
theorem segmentValue_eq {k : Bytes} (hspace : 32 ∉ k) (hequals : 61 ∉ k) (n : Nat)
    (key value : Bytes) :
    segmentValue key (List.replicate n 32 ++ (k ++ 61 :: value)) =
      if lower k = lower key then some (unquoted value) else none := by
  have hspaces : ∀ b ∈ List.replicate n (32 : UInt8), (b == 32) = true := by
    intro b hb
    rw [(List.mem_replicate.mp hb).2]
    decide
  have hskip : (List.replicate n 32 ++ (k ++ 61 :: value)).dropWhile (· == 32) =
      k ++ 61 :: value := by
    rw [List.dropWhile_append_of_pos hspaces]
    cases hk : k with
    | nil => rfl
    | cons b rest =>
      have hb : b ≠ 32 := by
        rintro rfl
        simp [hk] at hspace
      exact List.dropWhile_cons_of_neg (by simpa using hb)
  have hcut : cut? equals.bytes (k ++ 61 :: value) = some (k, value) :=
    cut?_append_sep (unbordered_singleton 61)
      (fun hin => hequals (hin.subset (List.mem_singleton_self _))) value
  rw [segmentValue, hskip, hcut]

@[simp] theorem unquoted_quoted (v : Bytes) : unquoted (34 :: (v ++ [34])) = v := by
  simp [unquoted]

/-- Quotes that are not closed. -/
theorem unquoted_open (h : 34 ∉ v) : unquoted (34 :: v) = v := by
  rw [unquoted, if_pos (by rfl), List.tail_cons, if_neg]
  exact fun hlast => h (List.mem_of_mem_getLast? hlast)

theorem unquoted_bare (h : 34 ∉ v) : unquoted v = v :=
  if_neg fun hhead => h (List.mem_of_mem_head? hhead)

end

section

variable (lib : CommonLib)

/-- A Content-Type header that announces a boundary: a media type without parameters of its own,
and then the parameter, with or without quotes. -/
structure Announces (header boundary : Bytes) : Prop where
  exists_eq : ∃ mediaType value, header = mediaType ++ (ascii "; boundary=" ++ value) ∧
    59 ∉ mediaType ∧ 61 ∉ mediaType ∧
    (value = boundary ∨ value = 34 :: (boundary ++ [34]))

/-- The boundary that a Content-Type header announces. -/
theorem mpIteratorInit_eq {header : Span} {boundary : Bytes} (body : Span)
    (h : Announces header.bytes boundary) (hne : boundary ≠ []) (hquote : 34 ∉ boundary)
    (hsemicolon : 59 ∉ boundary) :
    ∃ b : Span, b.bytes = boundary ∧ mpIteratorInit lib header body = (.ok, ⟨b, body, false⟩) := by
  obtain ⟨mediaType, value, hheader, htype, htype', hvalue⟩ := h.exists_eq
  have hlist : header.bytes = mediaType ++ 59 ::
      (List.replicate 1 32 ++ (MULTIPART_BOUNDARY.bytes ++ 61 :: value)) := by
    rw [hheader]
    rfl
  have hlast : (59 : UInt8) ∉ List.replicate 1 32 ++ (MULTIPART_BOUNDARY.bytes ++ 61 :: value) := by
    have hname : (59 : UInt8) ∉ MULTIPART_BOUNDARY.bytes := by decide
    rcases hvalue with rfl | rfl <;> simp [hname, hsemicolon]
  have hunquoted : unquoted value = boundary := by
    rcases hvalue with rfl | rfl
    · exact unquoted_bare hquote
    · exact unquoted_quoted boundary
  have hb : (paramValue lib header MULTIPART_BOUNDARY).bytes = boundary := by
    rw [paramValue_bytes, hlist, parameter_cons htype, segmentValue_none htype', Option.none_or,
      parameter_last hlast, segmentValue_eq (by decide) (by decide), if_pos rfl, hunquoted]
    rfl
  refine ⟨_, hb, ?_⟩
  rw [mpIteratorInit, if_neg]
  rw [Bool.not_eq_true, Span.isEmpty_eq_false_iff, hb]
  exact hne

end

end HttpC
