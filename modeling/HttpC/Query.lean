import HttpC.CommonLib
import HttpC.Library.Encodings
import HttpC.Library.Overwrite
import Mathlib.Data.List.TakeWhile

/-!
# Query strings

`http_query.c`. A query is read pair by pair with a cursor and nothing is copied; the lookup is a
run of the iterator, and decoding is a second pass over the value it found.

## Main results

* `queryYields_init` — what a run of the iterator returns.
* `httpQueryFind_bytes` — the lookup is the first pair with that name.
* `httpQuery_roundTrip` — encoded pairs come back in order, and decoded by name.
* `queryShapes_iff` — when the three documented shapes of a query are read alike.
-/

namespace HttpC

open ListSearch

/-! ## The model -/

/-- `hex_value`, with `none` for `-1`. -/
def hexValue (c : UInt8) : Option Nat :=
  if 48 ≤ c ∧ c ≤ 57 then some (c.toNat - 48)
  else if 97 ≤ c ∧ c ≤ 102 then some (10 + (c.toNat - 97))
  else if 65 ≤ c ∧ c ≤ 70 then some (10 + (c.toNat - 65))
  else none

/-- `http_query_iterator_t`. -/
structure HttpQueryIterator where
  query : Span
  cursor : Nat
  deriving DecidableEq, Repr

variable (lib : CommonLib)

/-- `locate_query`: what follows the first question mark, or everything. -/
def locateQuery (path : Span) : Span :=
  match path.bytes.findIdx? (· == 63) with
  | some i => lib.spanSlice path (i + 1) (path.size - (i + 1))
  | none => path

def httpQueryIteratorInit (path : Span) : HttpQueryIterator := ⟨locateQuery lib path, 0⟩

/-- `http_query_iterator_next`. Its three loops are scans to the next byte of interest. -/
def httpQueryIteratorNext (iterator : HttpQueryIterator) :
    Except Result (Span × Span) × HttpQueryIterator :=
  let p := iterator.query.bytes
  let n := iterator.query.size
  -- leading separators and stray empty pairs
  let nameStart := scan (· == 38) p iterator.cursor
  if n ≤ nameStart then (.error .endOfData, { iterator with cursor := n })
  else
    let nameEnd := scan (fun b => b != 61 && b != 38) p nameStart
    let hasValue := p[nameEnd]? = some 61
    let valueStart := if hasValue then nameEnd + 1 else nameEnd
    let valueEnd := if hasValue then scan (· != 38) p valueStart else nameEnd
    (.ok (lib.spanSlice iterator.query nameStart (nameEnd - nameStart),
        lib.spanSlice iterator.query valueStart (valueEnd - valueStart)),
      { iterator with cursor := if valueEnd < n then valueEnd + 1 else n })

/-- The loop of `http_query_find`. Each pair takes at least one byte, so the size of the query is
fuel enough. -/
def queryFindLoop (name : Span) : Nat → HttpQueryIterator → Except Result Span
  | 0, _ => .error .notFound
  | fuel + 1, it =>
    match httpQueryIteratorNext lib it with
    | (.ok (k, v), it) => if lib.spanCompare k name = 0 then .ok v else queryFindLoop name fuel it
    | (.error _, _) => .error .notFound

def httpQueryFind (path name : Span) : Except Result Span :=
  let it := httpQueryIteratorInit lib path
  queryFindLoop lib name (it.query.size + 1) it

/-- The loop of `http_query_find_decoded` over what is left of the source, with the destination and
how much of it is written. A source is short enough that `i + 2` does not wrap. -/
def decodeLoop (size : Nat) : Bytes → Bytes → Nat → Except Result Nat × Bytes
  | [], dst, written => (.ok written, dst)
  | c :: src, dst, written =>
    if size ≤ written then (.error .insufficientSize, dst)
    else if c = 43 then decodeLoop size src (Block.overwrite dst written [32]) (written + 1)
    else if c = 37 then
      match src with
      | h :: l :: src =>
        match hexValue h, hexValue l with
        | some hi, some lo =>
          decodeLoop size src (Block.overwrite dst written [UInt8.ofNat (hi <<< 4 ||| lo)])
            (written + 1)
        | _, _ => (.error .unexpectedChar, dst)
      | _ => (.error .unexpectedChar, dst)
    else decodeLoop size src (Block.overwrite dst written [c]) (written + 1)

/-- `http_query_find_decoded`, with the destination as it is left behind. The destination does not
overlap the query. -/
def httpQueryFindDecoded (path name dest : Span) : Except Result Span × Span :=
  match httpQueryFind lib path name with
  | .error r => (.error r, dest)
  | .ok raw =>
    match decodeLoop dest.size raw.bytes dest.bytes 0 with
    | (.ok written, dst) => (.ok (lib.spanSlice ⟨dest.ptr, dst⟩ 0 written), ⟨dest.ptr, dst⟩)
    | (.error r, dst) => (.error r, ⟨dest.ptr, dst⟩)

/-! ## The pairs of a query -/

/-- Name and value of one segment, cut at the first `=`. -/
def cutPair (segment : Bytes) : Bytes × Bytes :=
  (segment.takeWhile (· != 61), (segment.dropWhile (· != 61)).tail)

/-- The nonempty segments between ampersands, as pairs. -/
def queryPairs (query : Bytes) : List (Bytes × Bytes) :=
  ((query.splitOn 38).filter (· ≠ [])).map cutPair

/-- `iterator` returns these pairs, one call after the other, and then reports the end. -/
def QueryYields : HttpQueryIterator → List (Bytes × Bytes) → Prop
  | iterator, [] => (httpQueryIteratorNext lib iterator).1 = .error .endOfData
  | iterator, pair :: pairs =>
    ∃ name value, (httpQueryIteratorNext lib iterator).1 = .ok (name, value) ∧
      (name.bytes, value.bytes) = pair ∧ QueryYields (httpQueryIteratorNext lib iterator).2 pairs

/-- One pair of a query: ampersands in front of a segment, and what follows the segment. -/
structure QueryCut (amps segment behind : Bytes) : Prop where
  amps_eq : ∀ b ∈ amps, b = 38
  ne_nil : segment ≠ []
  no_amp : 38 ∉ segment
  behind_head : ∀ b ∈ behind.head?, b = 38

theorem query_cases (query : Bytes) :
    (∀ b ∈ query, b = 38) ∨
      ∃ amps segment behind, query = amps ++ (segment ++ behind) ∧
        QueryCut amps segment behind := by
  set left := query.dropWhile (· == 38) with hleft
  have hquery : query.takeWhile (· == 38) ++ left = query := List.takeWhile_append_dropWhile
  have hamps : ∀ b ∈ query.takeWhile (· == 38), b = 38 := fun b hb => by
    simpa using List.mem_takeWhile_imp hb
  cases hcase : left with
  | nil =>
    left
    rw [hcase, List.append_nil] at hquery
    rwa [← hquery]
  | cons a rest =>
    right
    have ha : a ≠ 38 := by
      have hhead := List.head?_dropWhile_not (· == 38) query
      rw [← hleft, hcase] at hhead
      simpa using hhead
    refine ⟨_, left.takeWhile (· != 38), left.dropWhile (· != 38), ?_, hamps, ?_, ?_, ?_⟩
    · rw [List.takeWhile_append_dropWhile, hquery]
    · rw [hcase, List.takeWhile_cons_of_pos (by simpa using ha)]
      exact List.cons_ne_nil _ _
    · intro hmem
      simpa using List.mem_takeWhile_imp hmem
    · intro b hb
      have hhead := List.head?_dropWhile_not (· != 38) left
      rw [Option.mem_def.mp hb] at hhead
      simpa using hhead

/-- Induction along a query, one pair after the other. -/
theorem query_induction {P : Bytes → Prop} (hend : ∀ query, (∀ b ∈ query, b = 38) → P query)
    (hpair : ∀ amps segment behind, QueryCut amps segment behind → P behind.tail →
      P (amps ++ (segment ++ behind))) (query : Bytes) : P query := by
  induction hn : query.length using Nat.strong_induction_on generalizing query with
  | _ n ih =>
    rcases query_cases query with hall | ⟨amps, segment, behind, rfl, hcut⟩
    · exact hend query hall
    · have hpos := List.length_pos_iff.mpr hcut.ne_nil
      refine hpair amps segment behind hcut (ih behind.tail.length ?_ _ rfl)
      simp only [List.length_append] at hn
      rw [List.length_tail]
      omega

theorem queryPairs_amp (query : Bytes) : queryPairs (38 :: query) = queryPairs query := by
  rw [queryPairs, ← List.nil_append (38 :: query), List.splitOn_append_cons_self]
  simp [queryPairs]

theorem queryPairs_amps {amps : Bytes} (h : ∀ b ∈ amps, b = 38) (query : Bytes) :
    queryPairs (amps ++ query) = queryPairs query := by
  induction amps with
  | nil => rfl
  | cons a amps ih =>
    obtain rfl := h a List.mem_cons_self
    rw [List.cons_append, queryPairs_amp, ih fun b hb => h b (List.mem_cons_of_mem _ hb)]

theorem queryPairs_end {query : Bytes} (h : ∀ b ∈ query, b = 38) : queryPairs query = [] := by
  rw [← List.append_nil query, queryPairs_amps h]
  rfl

theorem queryPairs_cut {amps segment behind : Bytes} (h : QueryCut amps segment behind) :
    queryPairs (amps ++ (segment ++ behind)) = cutPair segment :: queryPairs behind.tail := by
  rw [queryPairs_amps h.amps_eq]
  cases behind with
  | nil =>
    rw [List.append_nil, queryPairs, List.splitOn_eq_singleton h.no_amp]
    simp [h.ne_nil, queryPairs]
  | cons a behind =>
    obtain rfl := h.behind_head a rfl
    rw [queryPairs, List.splitOn_append_cons_self_of_not_mem h.no_amp]
    simp [h.ne_nil, queryPairs]

/-! ## Runs of the iterator -/

section

variable {lib} {it : HttpQueryIterator}

/-- A segment as its name and the rest from its first `=` on. -/
theorem cutPair_split (segment : Bytes) :
    ∃ rest, segment = (cutPair segment).1 ++ rest ∧ (∀ b ∈ rest.head?, b = 61) ∧
      rest.tail = (cutPair segment).2 := by
  refine ⟨segment.dropWhile (· != 61), List.takeWhile_append_dropWhile.symm, fun b hb => ?_, rfl⟩
  have hhead := List.head?_dropWhile_not (· != 61) segment
  rw [Option.mem_def.mp hb] at hhead
  simpa using hhead

theorem httpQueryIteratorNext_end (h : ∀ b ∈ it.query.bytes.drop it.cursor, b = 38)
    (hcursor : it.cursor ≤ it.query.size) :
    httpQueryIteratorNext lib it = (.error .endOfData, ⟨it.query, it.query.size⟩) := by
  have hscan : scan (· == 38) it.query.bytes it.cursor = it.query.size := by
    rw [scan_eq (List.append_nil _).symm (by simpa using h) (by simp), List.length_drop]
    rw [Span.size] at hcursor ⊢
    omega
  rw [httpQueryIteratorNext]
  simp only [hscan, Nat.le_refl, if_true]

/-- The ampersands are passed over, and the name ends at the first `=` or at the separator. -/
theorem nameScan_eq {p amps segment behind : Bytes} {i : Nat} (h : QueryCut amps segment behind)
    (hp : p.drop i = amps ++ (segment ++ behind)) :
    scan (· == 38) p i = i + amps.length ∧
      scan (fun b => b != 61 && b != 38) p (i + amps.length) =
        i + amps.length + (cutPair segment).1.length := by
  obtain ⟨rest, hsegment, hrest, -⟩ := cutPair_split segment
  constructor
  · refine scan_eq hp (by simpa using h.amps_eq) fun b hb => ?_
    have hmem : b ∈ segment := by
      rw [List.head?_append_of_ne_nil _ h.ne_nil] at hb
      exact List.mem_of_mem_head? hb
    exact beq_eq_false_iff_ne.mpr fun heq => h.no_amp (heq ▸ hmem)
  · have hname_at : p.drop (i + amps.length) = (cutPair segment).1 ++ (rest ++ behind) := by
      rw [← List.drop_drop, hp, List.drop_left, ← List.append_assoc, ← hsegment]
    refine scan_eq hname_at (fun b hb => ?_) fun b hb => ?_
    · have hne : b ≠ 61 := by simpa using List.mem_takeWhile_imp hb
      have hmem : b ∈ segment := hsegment ▸ List.mem_append_left rest hb
      have hamp : b ≠ 38 := fun heq => h.no_amp (heq ▸ hmem)
      simp [hne, hamp]
    · rw [List.head?_append, Option.mem_def, Option.or_eq_some_iff] at hb
      rcases hb with hb | ⟨-, hb⟩
      · simp [hrest b hb]
      · simp [h.behind_head b hb]

/-- Behind the name the value is what follows an `=`, up to the separator. -/
theorem valueScan_eq {p rest behind : Bytes} {stop : Nat} (hp : p.drop stop = rest ++ behind)
    (hstop : stop ≤ p.length) (hrest : ∀ b ∈ rest.head?, b = 61) (hvalue : ∀ b ∈ rest.tail, b ≠ 38)
    (hbehind : ∀ b ∈ behind.head?, b = 38) :
    let valueStart := if p[stop]? = some 61 then stop + 1 else stop
    p.drop valueStart = rest.tail ++ behind ∧
      (if p[stop]? = some 61 then scan (· != 38) p valueStart else stop) =
        valueStart + rest.tail.length ∧ valueStart ≤ p.length := by
  have hnext : p[stop]? = (rest ++ behind).head? := by rw [← hp, List.head?_drop]
  cases rest with
  | nil =>
    have hnone : p[stop]? ≠ some 61 := fun heq =>
      absurd (hbehind 61 (hnext.symm.trans heq)) (by decide)
    simp only [if_neg hnone]
    exact ⟨hp, rfl, hstop⟩
  | cons a value =>
    obtain rfl := hrest a rfl
    have hsome : p[stop]? = some 61 := hnext
    have hlt := (List.getElem?_eq_some_iff.mp hsome).1
    have hdrop : p.drop (stop + 1) = value ++ behind := by
      rw [← List.drop_drop, hp]
      rfl
    simp only [if_pos hsome]
    exact ⟨hdrop, scan_eq hdrop (by simpa using hvalue) (by simpa using hbehind), hlt⟩

/-- A call at the front of a segment takes the segment, and the separator behind it. -/
theorem httpQueryIteratorNext_cut {amps segment behind : Bytes} (h : QueryCut amps segment behind)
    (hcursor : it.query.bytes.drop it.cursor = amps ++ (segment ++ behind)) :
    ∃ name value, httpQueryIteratorNext lib it =
        (.ok (name, value), ⟨it.query, it.query.size - behind.tail.length⟩) ∧
      (name.bytes, value.bytes) = cutPair segment := by
  obtain ⟨rest, hsegment, hrest, hvalue⟩ := cutPair_split segment
  set name := (cutPair segment).1 with hname
  have hlen := congrArg List.length hcursor
  have hpos := List.length_pos_iff.mpr h.ne_nil
  simp only [List.length_drop, List.length_append, hsegment] at hlen hpos
  have hsize : it.query.size = it.query.bytes.length := rfl
  set start := it.cursor + amps.length with hstart
  set stop := start + name.length with hstop
  obtain ⟨hskip, hname_stop⟩ := nameScan_eq h hcursor
  have hname_at : it.query.bytes.drop start = name ++ (rest ++ behind) := by
    rw [hstart, ← List.drop_drop, hcursor, List.drop_left, hsegment, List.append_assoc]
  have hrest_at : it.query.bytes.drop stop = rest ++ behind := by
    rw [hstop, ← List.drop_drop, hname_at, List.drop_left]
  have hname_bytes : (lib.spanSlice it.query start (stop - start)).bytes = name := by
    rw [hstop, Nat.add_sub_cancel_left]
    exact lib.bytes_spanSlice hname_at (by omega)
  obtain ⟨hvalue_drop, hend, hfits⟩ := valueScan_eq hrest_at (by omega) hrest
    (fun b hb heq => h.no_amp
      (hsegment ▸ List.mem_append_right _ (List.mem_of_mem_tail (heq ▸ hb))))
    h.behind_head
  set valueStart := if it.query.bytes[stop]? = some 61 then stop + 1 else stop
  set valueEnd := if it.query.bytes[stop]? = some 61 then
    scan (· != 38) it.query.bytes valueStart else stop
  have hvalue_bytes :
      (lib.spanSlice it.query valueStart (valueEnd - valueStart)).bytes = rest.tail := by
    rw [hend, Nat.add_sub_cancel_left]
    exact lib.bytes_spanSlice hvalue_drop hfits
  have hnext_cursor : (if valueEnd < it.query.size then valueEnd + 1 else it.query.size) =
      it.query.size - behind.tail.length := by
    have hbehind := congrArg List.length hvalue_drop
    rw [List.length_drop, List.length_append, ← Span.size] at hbehind
    rw [List.length_tail]
    split_ifs <;> omega
  rw [httpQueryIteratorNext]
  simp only [hskip, hname_stop]
  rw [if_neg (by omega)]
  refine ⟨_, _, congrArg _ (congrArg _ hnext_cursor), ?_⟩
  rw [hname_bytes, hvalue_bytes, hvalue]

/-- From any cursor on, a run of the iterator returns the pairs of what is left. -/
theorem queryYields_drop (query : Bytes) : ∀ it : HttpQueryIterator, it.cursor ≤ it.query.size →
    it.query.bytes.drop it.cursor = query → QueryYields lib it (queryPairs query) := by
  induction query using query_induction with
  | hend query hall =>
    rintro it hcursor rfl
    rw [queryPairs_end hall, QueryYields, httpQueryIteratorNext_end hall hcursor]
  | hpair amps segment behind hcut ih =>
    intro it hcursor hdrop
    obtain ⟨name, value, hnext, hpair⟩ := @httpQueryIteratorNext_cut lib it _ _ _ hcut hdrop
    have hsuffix : behind.tail <:+ it.query.bytes := by
      have htail := (List.tail_suffix behind).trans (List.suffix_append (amps ++ segment) behind)
      rw [List.append_assoc, ← hdrop] at htail
      exact htail.trans (List.drop_suffix _ _)
    rw [queryPairs_cut hcut]
    refine ⟨name, value, by rw [hnext], hpair, ?_⟩
    rw [hnext]
    exact ih ⟨it.query, _⟩ (Nat.sub_le _ _) (List.suffix_iff_eq_drop.mp hsuffix).symm

/-- A run over a whole path returns the pairs of its query. -/
theorem queryYields_init (path : Span) :
    QueryYields lib (httpQueryIteratorInit lib path) (queryPairs (locateQuery lib path).bytes) :=
  queryYields_drop _ _ (Nat.zero_le _) rfl

/-- A run returns one list of pairs. -/
theorem QueryYields.unique {pairs pairs' : List (Bytes × Bytes)} (h : QueryYields lib it pairs)
    (h' : QueryYields lib it pairs') : pairs = pairs' := by
  induction pairs generalizing it pairs' with
  | nil =>
    cases pairs' with
    | nil => rfl
    | cons pair' pairs' =>
      obtain ⟨name, value, hnext, -⟩ := h'
      rw [QueryYields, hnext] at h
      cases h
  | cons pair pairs ih =>
    obtain ⟨name, value, hnext, rfl, hrest⟩ := h
    cases pairs' with
    | nil =>
      rw [QueryYields, hnext] at h'
      cases h'
    | cons pair' pairs' =>
      obtain ⟨name', value', hnext', rfl, hrest'⟩ := h'
      obtain ⟨rfl, rfl⟩ := Prod.mk.inj (Except.ok.inj (hnext.symm.trans hnext'))
      rw [ih hrest hrest']

/-! ## The lookup -/

theorem length_queryPairs_le (query : Bytes) : (queryPairs query).length ≤ query.length := by
  induction query using query_induction with
  | hend query hall => simp [queryPairs_end hall]
  | hpair amps segment behind hcut ih =>
    have hpos := List.length_pos_iff.mpr hcut.ne_nil
    rw [queryPairs_cut hcut, List.length_cons, List.length_append, List.length_append]
    rw [List.length_tail] at ih
    omega

/-- The loop finds the first of the pairs that the iterator still returns. -/
theorem queryFindLoop_yields {pairs : List (Bytes × Bytes)} {fuel : Nat} (name : Span)
    (h : QueryYields lib it pairs) (hfuel : pairs.length < fuel) :
    (queryFindLoop lib name fuel it).map Span.bytes =
      match pairs.find? (·.1 = name.bytes) with
      | some pair => .ok pair.2
      | none => .error .notFound := by
  induction pairs generalizing it fuel with
  | nil =>
    cases fuel with
    | zero => rfl
    | succ fuel =>
      rw [QueryYields] at h
      rw [queryFindLoop]
      split
      next hnext => rw [hnext] at h; cases h
      next => rfl
  | cons pair pairs ih =>
    cases fuel with
    | zero => exact absurd hfuel (Nat.not_lt_zero _)
    | succ fuel =>
      obtain ⟨k, v, hnext, rfl, hrest⟩ := h
      rw [queryFindLoop]
      split
      next k' v' it' hnext' =>
        rw [hnext'] at hnext hrest
        obtain ⟨rfl, rfl⟩ := Prod.mk.inj (Except.ok.inj hnext)
        by_cases hk : k'.bytes = name.bytes
        · rw [if_pos ((lib.spanCompare_eq _ _).mpr hk), List.find?_cons_of_pos (by simpa using hk)]
          rfl
        · rw [if_neg (mt (lib.spanCompare_eq _ _).mp hk),
            List.find?_cons_of_neg (by simpa using hk)]
          exact ih hrest (Nat.lt_of_succ_lt_succ hfuel)
      next hnext' => rw [hnext'] at hnext; cases hnext

/-- The lookup is the first pair with that name. -/
theorem httpQueryFind_bytes (path name : Span) :
    (httpQueryFind lib path name).map Span.bytes =
      match (queryPairs (locateQuery lib path).bytes).find? (·.1 = name.bytes) with
      | some pair => .ok pair.2
      | none => .error .notFound :=
  queryFindLoop_yields name (queryYields_init path)
    (Nat.lt_succ_of_le (length_queryPairs_le _))

end

/-! ## Decoding -/

/-- The characters that stand for a byte unescaped: an unreserved character or `*` for itself, and
`+` for a space. -/
def FormLiteral (b c : UInt8) : Prop :=
  b = c ∧ (Percent.isUnreserved c = true ∨ c = 42) ∨ b = 32 ∧ c = 43

theorem hexValue_eq (c : UInt8) : hexValue c = Percent.digit? c := by
  unfold hexValue Percent.digit?
  split_ifs <;> grind

theorem FormLiteral.ne_percent {b c : UInt8} (h : FormLiteral b c) : c ≠ 37 := by
  rintro rfl
  rcases h with ⟨-, h⟩ | ⟨-, h⟩
  · exact absurd h (by decide)
  · exact absurd h (by decide)

/-- What the loop stores for a character outside the escapes. -/
def formByte (c : UInt8) : UInt8 := if c = 43 then 32 else c

theorem FormLiteral.eq_formByte {b c : UInt8} (h : FormLiteral b c) : b = formByte c := by
  rcases h with ⟨rfl, h⟩ | ⟨rfl, rfl⟩
  · rw [formByte, if_neg]
    rintro rfl
    exact absurd h (by decide)
  · rfl

theorem byte_of_digits {b : UInt8} {hi lo : Nat} (hlo : lo < 16) (hb : b.toNat = 16 * hi + lo) :
    UInt8.ofNat (hi <<< 4 ||| lo) = b := by
  rw [← Nat.shiftLeft_add_eq_or_of_lt (by simpa using hlo), Nat.shiftLeft_eq, Nat.mul_comm, ← hb]
  exact UInt8.ofNat_toNat

theorem decodeLoop_full {size written : Nat} (h : size ≤ written) (c : UInt8) (text dst : Bytes) :
    decodeLoop size (c :: text) dst written = (.error .insufficientSize, dst) := by
  unfold decodeLoop
  rw [if_pos h]

theorem decodeLoop_plain {size written : Nat} (h : written < size) {c : UInt8} (hc : c ≠ 37)
    (text dst : Bytes) :
    decodeLoop size (c :: text) dst written =
      decodeLoop size text (Block.overwrite dst written [formByte c]) (written + 1) := by
  conv_lhs => unfold decodeLoop
  rw [if_neg (Nat.not_le.mpr h), formByte]
  by_cases hplus : c = 43
  · rw [if_pos hplus, if_pos hplus]
  · rw [if_neg hplus, if_neg hc, if_neg hplus]

theorem decodeLoop_escaped {size written : Nat} (hlt : written < size) {b h l : UInt8}
    {hi lo : Nat} (hh : Percent.digit? h = some hi) (hl : Percent.digit? l = some lo)
    (hb : b.toNat = 16 * hi + lo) (text dst : Bytes) :
    decodeLoop size (37 :: h :: l :: text) dst written =
      decodeLoop size text (Block.overwrite dst written [b]) (written + 1) := by
  rw [decodeLoop, if_neg (Nat.not_le.mpr hlt), if_neg (by decide), if_pos rfl]
  simp only [hexValue_eq, hh, hl]
  rw [byte_of_digits (Percent.digit?_lt hl) hb]

/-- From here the loop restores `value` from `text`, or runs out of room. -/
def DecodesAt (value text dst : Bytes) (written : Nat) : Prop :=
  (written + value.length ≤ dst.length → decodeLoop dst.length text dst written =
    (.ok (written + value.length), Block.overwrite dst written value)) ∧
  (dst.length < written + value.length →
    (decodeLoop dst.length text dst written).1 = .error .insufficientSize)

/-- A byte that has room is stored, and the loop goes on behind it. -/
theorem DecodesAt.cons {b c : UInt8} {value text text' dst : Bytes} {written : Nat}
    (hstep : written < dst.length → decodeLoop dst.length (c :: text') dst written =
      decodeLoop dst.length text (Block.overwrite dst written [b]) (written + 1))
    (hrest : written < dst.length →
      DecodesAt value text (Block.overwrite dst written [b]) (written + 1)) :
    DecodesAt (b :: value) (c :: text') dst written := by
  rw [DecodesAt, List.length_cons]
  by_cases hroom : written < dst.length
  · have hlen : (Block.overwrite dst written [b]).length = dst.length :=
      Block.length_overwrite hroom
    obtain ⟨hfits, hfull⟩ := hrest hroom
    rw [hlen] at hfits hfull
    rw [hstep hroom]
    refine ⟨fun hle => ?_, fun hlt => hfull (by omega)⟩
    have hjoin : Block.overwrite (Block.overwrite dst written [b]) (written + 1) value =
        Block.overwrite dst written (b :: value) := Block.overwrite_overwrite hroom.le
    rw [hfits (by omega), hjoin, Nat.add_assoc, Nat.add_comm 1]
  · rw [decodeLoop_full (Nat.not_lt.mp hroom)]
    exact ⟨fun hle => absurd hle (by omega), fun _ => rfl⟩

/-- The loop restores what an encoding stands for. -/
theorem decodeLoop_encodes {value text : Bytes}
    (h : Percent.Encodes (fun b c => c ≠ 37 ∧ b = formByte c) value text) {dst : Bytes}
    {written : Nat} (hwritten : written ≤ dst.length) :
    DecodesAt value text dst written := by
  have hlen : ∀ {b : UInt8} {dst : Bytes} {written : Nat}, written < dst.length →
      written + 1 ≤ (Block.overwrite dst written [b]).length := fun hlt =>
    (Block.length_overwrite (d := [_]) hlt).symm ▸ hlt
  induction h generalizing dst written with
  | nil =>
    refine ⟨fun _ => ?_, fun hlt => absurd hwritten (Nat.not_le.mpr hlt)⟩
    rw [Block.overwrite_nil]
    rfl
  | plain hc _ ih =>
    obtain ⟨hne, rfl⟩ := hc
    exact DecodesAt.cons (fun hlt => decodeLoop_plain hlt hne _ _) fun hlt => ih (hlen hlt)
  | escaped hh hl hb _ ih =>
    exact DecodesAt.cons (fun hlt => decodeLoop_escaped hlt hh hl hb _ _) fun hlt => ih (hlen hlt)

/-- A value that was found is decoded into the front of the destination. -/
theorem httpQueryFindDecoded_found {path name raw : Span} {value : Bytes}
    (hfind : httpQueryFind lib path name = .ok raw)
    (hraw : Percent.Encodes FormLiteral value raw.bytes) (dest : Span) :
    (value.length ≤ dest.size →
      (httpQueryFindDecoded lib path name dest).1 = .ok ⟨dest.ptr, value⟩) ∧
    (dest.size < value.length →
      (httpQueryFindDecoded lib path name dest).1 = .error .insufficientSize) := by
  obtain ⟨hfits, hfull⟩ := decodeLoop_encodes
    (hraw.mono fun _ _ hc => ⟨hc.ne_percent, hc.eq_formByte⟩) (Nat.zero_le dest.bytes.length)
  rw [Nat.zero_add, ← Span.size] at hfits hfull
  simp only [httpQueryFindDecoded, hfind]
  refine ⟨fun hle => ?_, fun hlt => ?_⟩
  · have hstored := Block.window_overwrite_self (d := value) (Nat.zero_le dest.bytes.length)
    have hlen := Block.length_overwrite (l := dest.bytes) (d := value) (i := 0)
      (by rwa [Nat.zero_add])
    rw [hfits hle]
    simp only
    rw [lib.spanSlice_eq _ _ _ (by rw [Span.size, hlen, Nat.zero_add]; exact hle)]
    exact congrArg (fun bytes => Except.ok (Span.mk dest.ptr bytes)) hstored
  · have hresult := hfull hlt
    split
    next hloop => rw [hloop] at hresult; cases hresult
    next r dst hloop =>
      rw [hloop] at hresult
      obtain rfl := Except.error.inj hresult
      rfl

/-! ## Encoded queries -/

/-- A parameter and one of the ways to write its value. -/
structure QueryPair where
  name : Bytes
  value : Bytes
  encoded : Bytes
  name_ne_nil : name ≠ []
  name_unreserved : ∀ b ∈ name, Percent.isUnreserved b = true
  encodes : Percent.Encodes FormLiteral value encoded

namespace QueryPair

def text (p : QueryPair) : Bytes := p.name ++ 61 :: p.encoded

/-- The form encoding: spaces as `+`, and every byte that is not unreserved with an escape. -/
def ofBytes (name value : Bytes) (hne : name ≠ [])
    (hname : ∀ b ∈ name, Percent.isUnreserved b = true) : QueryPair :=
  let literal? (b : UInt8) : Option UInt8 :=
    if b = 32 then some 43 else if Percent.isUnreserved b then some b else none
  ⟨name, value, Percent.encode literal? value, hne, hname,
    (Percent.encodes_encode literal? value).mono fun b c hc => by
      simp only [literal?] at hc
      split_ifs at hc with hspace hb
      · exact .inr ⟨hspace, (Option.some.inj hc).symm⟩
      · obtain rfl := Option.some.inj hc
        exact .inl ⟨rfl, .inl hb⟩⟩

theorem cutPair_text (p : QueryPair) : cutPair p.text = (p.name, p.encoded) := by
  have hname : ∀ b ∈ p.name, (b != 61) = true := fun b hb => by
    rw [bne_iff_ne]
    rintro rfl
    exact absurd (p.name_unreserved _ hb) (by decide)
  rw [cutPair, text, List.takeWhile_append_of_pos hname, List.dropWhile_append_of_pos hname]
  simp

theorem no_amp_text (p : QueryPair) : 38 ∉ p.text := by
  have hname : 38 ∉ p.name := fun hmem => absurd (p.name_unreserved _ hmem) (by decide)
  have hencoded : ∀ c ∈ p.encoded, c ≠ 38 := by
    refine p.encodes.forall_mem (fun b c hc => ?_) (by decide) fun c n hc => ?_
    · rintro rfl
      simp [FormLiteral, Percent.isUnreserved] at hc
    · rintro rfl
      simp [Percent.digit?] at hc
  simpa [text, hname] using fun hmem => hencoded 38 hmem rfl

end QueryPair

def encodeQuery (pairs : List QueryPair) : Bytes := [38].intercalate (pairs.map QueryPair.text)

theorem queryPairs_encodeQuery (pairs : List QueryPair) :
    queryPairs (encodeQuery pairs) = pairs.map fun p => (p.name, p.encoded) := by
  cases pairs with
  | nil => rfl
  | cons p pairs =>
    have hsplit : (encodeQuery (p :: pairs)).splitOn 38 = (p :: pairs).map QueryPair.text := by
      refine List.splitOn_intercalate 38 (fun l hl => ?_) (by simp)
      obtain ⟨p', -, rfl⟩ := List.mem_map.mp hl
      exact p'.no_amp_text
    have hne : ∀ l ∈ (p :: pairs).map QueryPair.text, decide (l ≠ []) = true := by
      intro l hl
      obtain ⟨p', -, rfl⟩ := List.mem_map.mp hl
      simp [QueryPair.text]
    rw [queryPairs, hsplit, List.filter_eq_self.mpr hne, List.map_map]
    exact List.map_congr_left fun p' _ => p'.cutPair_text

theorem findIdx?_question {path : Bytes} (h : 63 ∉ path) : path.findIdx? (· == 63) = none := by
  rw [List.findIdx?_eq_none_iff]
  exact fun b hb => beq_eq_false_iff_ne.mpr fun heq => h (heq ▸ hb)

/-- Behind a path without a question mark, the query is what follows the first one. -/
theorem locateQuery_bytes {raw : Span} {path query : Bytes} (hraw : raw.bytes = path ++ 63 :: query)
    (hpath : 63 ∉ path) : (locateQuery lib raw).bytes = query := by
  have hfind : raw.bytes.findIdx? (· == 63) = some path.length := by
    rw [hraw, List.findIdx?_append, findIdx?_question hpath, List.findIdx?_cons]
    simp
  have hsize : raw.size = path.length + 1 + query.length := by
    rw [Span.size, hraw]
    simp
    omega
  have hdrop : raw.bytes.drop (path.length + 1) = query ++ [] := by
    rw [hraw]
    simp
  have hslice := lib.bytes_spanSlice hdrop (by omega)
  rw [locateQuery, hfind]
  simp only
  rwa [hsize, Nat.add_sub_cancel_left]

/-- A query written behind a path comes back: the iterator returns its pairs in order, and a
decoded lookup restores the value of the first pair with that name. -/
theorem httpQuery_roundTrip {raw : Span} {path : Bytes} {pairs : List QueryPair}
    (hraw : raw.bytes = path ++ 63 :: encodeQuery pairs) (hpath : 63 ∉ path) :
    QueryYields lib (httpQueryIteratorInit lib raw) (pairs.map fun p => (p.name, p.encoded)) ∧
    ∀ name dest : Span,
      match pairs.find? (·.name = name.bytes) with
      | none => (httpQueryFindDecoded lib raw name dest).1 = .error .notFound
      | some p =>
        (p.value.length ≤ dest.size →
          (httpQueryFindDecoded lib raw name dest).1 = .ok ⟨dest.ptr, p.value⟩) ∧
        (dest.size < p.value.length →
          (httpQueryFindDecoded lib raw name dest).1 = .error .insufficientSize) := by
  have hpairs : queryPairs (locateQuery lib raw).bytes =
      pairs.map fun p => (p.name, p.encoded) := by
    rw [locateQuery_bytes lib hraw hpath, queryPairs_encodeQuery]
  refine ⟨hpairs ▸ queryYields_init raw, fun name dest => ?_⟩
  have hfound := @httpQueryFind_bytes lib raw name
  rw [hpairs, List.find?_map] at hfound
  simp only [Function.comp_def] at hfound
  cases hfirst : pairs.find? fun p => decide (p.name = name.bytes) with
  | none =>
    rw [hfirst] at hfound
    cases hraw : httpQueryFind lib raw name with
    | ok value => rw [hraw] at hfound; cases hfound
    | error r =>
      rw [hraw] at hfound
      obtain rfl := Except.error.inj hfound
      simp only [httpQueryFindDecoded, hraw]
  | some p =>
    rw [hfirst] at hfound
    cases hraw : httpQueryFind lib raw name with
    | error r => rw [hraw] at hfound; cases hfound
    | ok value =>
      rw [hraw] at hfound
      have hvalue : value.bytes = p.encoded := Except.ok.inj hfound
      exact httpQueryFindDecoded_found lib hraw (hvalue ▸ p.encodes) dest

/-- A search with two parameters, one of them empty. -/
theorem httpQuery_roundTrip_search :
    let raw : Span := ⟨1000, ascii "/search?q=x+y%26z&lang="⟩
    QueryYields .reference (httpQueryIteratorInit .reference raw)
        [(ascii "q", ascii "x+y%26z"), (ascii "lang", [])] ∧
      (httpQueryFindDecoded .reference raw (.lit "q") ⟨2000, List.replicate 5 0⟩).1 =
        .ok ⟨2000, ascii "x y&z"⟩ := by
  intro raw
  let pairs : List QueryPair :=
    [.ofBytes (ascii "q") (ascii "x y&z") (by decide) (List.all_eq_true.mp (by decide)),
      .ofBytes (ascii "lang") [] (by decide) (List.all_eq_true.mp (by decide))]
  obtain ⟨hpairs, hfind⟩ := @httpQuery_roundTrip .reference raw (ascii "/search") pairs
    (by decide +kernel) (by decide)
  exact ⟨hpairs, (hfind (.lit "q") ⟨2000, List.replicate 5 0⟩).1 (by decide)⟩

/-! ## The shapes of a query -/

/-- Two inputs with the same pairs, in the same order, and the same answer to every lookup. -/
def AnsweredAlike (first second : Span) : Prop :=
  ∃ pairs, QueryYields lib (httpQueryIteratorInit lib first) pairs ∧
    QueryYields lib (httpQueryIteratorInit lib second) pairs ∧
    ∀ name, (httpQueryFind lib first name).map Span.bytes =
      (httpQueryFind lib second name).map Span.bytes

theorem answeredAlike_iff {first second : Span} :
    AnsweredAlike lib first second ↔
      queryPairs (locateQuery lib first).bytes = queryPairs (locateQuery lib second).bytes := by
  constructor
  · rintro ⟨pairs, hfirst, hsecond, -⟩
    rw [← hfirst.unique (queryYields_init first), ← hsecond.unique (queryYields_init second)]
  · intro h
    refine ⟨_, queryYields_init first, h ▸ queryYields_init second, fun name => ?_⟩
    rw [httpQueryFind_bytes, httpQueryFind_bytes, h]

theorem locateQuery_bare {path : Span} (h : 63 ∉ path.bytes) : locateQuery lib path = path := by
  rw [locateQuery, findIdx?_question h]

/-- No question mark of a query gets lost between its pairs. -/
theorem sum_count_queryPairs (query : Bytes) :
    ((queryPairs query).map fun pair => pair.1.count 63 + pair.2.count 63).sum =
      query.count 63 := by
  induction query using query_induction with
  | hend query hall =>
    rw [queryPairs_end hall, List.count_eq_zero.mpr fun hmem => absurd (hall 63 hmem) (by decide)]
    rfl
  | hpair amps segment behind hcut ih =>
    have hamps : amps.count 63 = 0 :=
      List.count_eq_zero.mpr fun hmem => absurd (hcut.amps_eq 63 hmem) (by decide)
    have hbehind : behind.count 63 = behind.tail.count 63 := by
      cases behind with
      | nil => rfl
      | cons b behind =>
        obtain rfl := hcut.behind_head b rfl
        rw [List.count_cons_of_ne (by decide), List.tail_cons]
    have hsegment : segment.count 63 =
        (cutPair segment).1.count 63 + (cutPair segment).2.count 63 := by
      obtain ⟨rest, hsplit, hrest, hvalue⟩ := cutPair_split segment
      rw [← hvalue]
      conv_lhs => rw [hsplit]
      rw [List.count_append]
      cases rest with
      | nil => rfl
      | cons b rest =>
        obtain rfl := hrest b rfl
        rw [List.count_cons_of_ne (by decide), List.tail_cons]
    rw [queryPairs_cut hcut, List.map_cons, List.sum_cons, ih, List.count_append, List.count_append,
      hamps, hbehind, hsegment]
    omega

/-- A query is read the same with and without a path in front of its question mark; without the
question mark it is read the same exactly if it contains no other. -/
theorem queryShapes_iff {withPath marked bare : Span} {path query : Bytes}
    (hwithPath : withPath.bytes = path ++ 63 :: query) (hmarked : marked.bytes = 63 :: query)
    (hbare : bare.bytes = query) (hpath : 63 ∉ path) :
    AnsweredAlike lib withPath marked ∧ (AnsweredAlike lib marked bare ↔ 63 ∉ query) ∧
      (AnsweredAlike lib withPath bare ↔ 63 ∉ query) := by
  have hmarked' : (locateQuery lib marked).bytes = query :=
    @locateQuery_bytes lib marked [] query hmarked (by simp)
  rw [answeredAlike_iff, answeredAlike_iff, answeredAlike_iff, hmarked',
    locateQuery_bytes lib hwithPath hpath]
  have hbare_iff : queryPairs query = queryPairs (locateQuery lib bare).bytes ↔ 63 ∉ query := by
    constructor
    · intro h hmem
      obtain ⟨front, behind, hquery, hfront⟩ := List.eq_append_cons_of_mem hmem
      rw [locateQuery_bytes lib (hbare.trans hquery) hfront] at h
      have hcount := sum_count_queryPairs query
      rw [h, sum_count_queryPairs, hquery, List.count_append, List.count_cons_self] at hcount
      omega
    · intro h
      rw [locateQuery_bare lib (hbare ▸ h), hbare]
  exact ⟨rfl, hbare_iff, hbare_iff⟩

/-- A link to a page with two parameters. -/
theorem queryShapes_link :
    let marked : Span := ⟨1000, ascii "?u=a&v=b"⟩
    let bare : Span := ⟨2000, ascii "u=a&v=b"⟩
    AnsweredAlike .reference ⟨1000, ascii "/p?u=a&v=b"⟩ marked ∧
      (AnsweredAlike .reference marked bare ↔ 63 ∉ bare.bytes) ∧
      (AnsweredAlike .reference ⟨1000, ascii "/p?u=a&v=b"⟩ bare ↔ 63 ∉ bare.bytes) := by
  intro marked bare
  exact @queryShapes_iff .reference _ _ _ (ascii "/p") _ (by decide) (by decide) rfl (by decide)

/-- A value with a question mark is lost where nothing marks the start of the query. -/
theorem queryShapes_question :
    ¬ ∀ (withPath marked bare : Span) (path query : Bytes), withPath.bytes = path ++ 63 :: query →
      marked.bytes = 63 :: query → bare.bytes = query → 63 ∉ path →
        AnsweredAlike .reference withPath marked ∧ AnsweredAlike .reference marked bare := by
  intro h
  obtain ⟨-, pairs, -, -, hfind⟩ := h ⟨1000, ascii "/p?u=a?b"⟩ ⟨1000, ascii "?u=a?b"⟩
    ⟨1000, ascii "u=a?b"⟩ (ascii "/p") (ascii "u=a?b") (by decide) (by decide) rfl (by decide)
  have hmarked : (httpQueryFind .reference ⟨1000, ascii "?u=a?b"⟩ (.lit "u")).map Span.bytes =
      .ok (ascii "a?b") := by rfl
  have hbare : (httpQueryFind .reference ⟨1000, ascii "u=a?b"⟩ (.lit "u")).map Span.bytes =
      .error .notFound := by rfl
  have hboth := hfind (.lit "u")
  rw [hmarked, hbare] at hboth
  cases hboth

end HttpC
